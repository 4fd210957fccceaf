/-
The VMM, uartrx, the tracer and fbcon with all their rings and notifications.

A notification is a flag: sending it sets the flag, and the receiver clears it
when it enters `notified`.  The rings are those of the other modules, and every
operation on shared memory and every notification is one step.  Nobody notifies
on another channel, so what `notified` does then is left out.

A handler of the VMM may call `trace_emit` and `_sddf_putchar` with anything and
as often as it likes, except that `run_commands` goes through the command ring
as the source does.  The VMM starts in `init`, which is such a handler, and
uartrx starts with the operations of its `init`.
-/
import TensorSel4.Command.Completion
import TensorSel4.Control.System
import TensorSel4.Mirror.Ring
import TensorSel4.Trace.Dump

namespace TensorSel4
namespace Wakeup

open Command Console Control Fbcon Mirror Trace Uartrx

/-- Where the tracer is in `notified`.  In `drain_trace` and `maybe_dump` the
trace ring's own state says where. -/
inductive NotifiedPc
  | waiting
  | drainTrace
  | drainConsole (p : Producer)
  | maybeDump
  /-- `dump_archive` has `text` still to put on the console. -/
  | puts (text : List UInt8)
  | mirrorNotify
  deriving DecidableEq

structure System where
  host : HostState := {}
  pipe : Pipeline := {}
  /-- The producer is about to notify the tracer from `trace_emit`. -/
  owed : Producer → Bool := fun _ => false
  vmmConsole : ConsoleState := {}
  uartrxConsole : ConsoleState := {}
  mirror : MirrorState := {}
  tracer : NotifiedPc := .waiting
  /-- The VMM is in `init` or in `fault`. -/
  handling : Bool := true
  /-- The tracer's pending notifications, one for each producer's channel. -/
  toTracer : Producer → Bool := fun _ => false
  /-- The VMM's pending notification from uartrx. -/
  toVmm : Bool := false

inductive Act
  /-- uartrx reads a byte. -/
  | rx (e : RxEvent)
  /-- The next operation of uartrx. -/
  | uartrx
  /-- The deadline of `wait_for_vmm` has passed. -/
  | timeOut (crumb : VmmBreadcrumb)
  /-- The VMM receives uartrx's notification. -/
  | vmmNotified
  /-- The VMM is told of a guest exit. -/
  | fault
  /-- A handler of the VMM calls `trace_emit`. -/
  | traceEmit (rec : TraceRecord)
  /-- A handler of the VMM calls `_sddf_putchar`. -/
  | putchar (c : UInt8)
  /-- The next operation of the VMM. -/
  | vmm
  /-- The tracer receives a producer's notification. -/
  | tracerNotified (p : Producer)
  /-- The next operation of the tracer. -/
  | tracer
  /-- fbcon receives the tracer's notification. -/
  | fbconNotified
  /-- The next operation of fbcon. -/
  | fbcon
  /-- The counter advances to `t`. -/
  | tick (t : UInt64)

def consoleProducer : Producer → ConsoleProducer
  | .vmm => .vmm
  | .uartrx => .uartrx

/-- The next operation of `trace_emit` is followed by a notification. -/
def emitNotifies (ring : TraceRing) : EmitPc → Bool
  | .waitForSpace _ head => decide (Pipeline.noSpace head ring.tail)
  | .unlock => true
  | _ => false

/-- The next operation of the producer's function is a notification. -/
def putNotifies : Console.PutPc → Bool
  | .notifyFull _ _ | .notifyLine => true
  | _ => false

namespace System

def console (s : System) : Producer → ConsoleState
  | .vmm => s.vmmConsole
  | .uartrx => s.uartrxConsole

def setConsole (s : System) (p : Producer) (console : ConsoleState) : System :=
  { s with
    vmmConsole := match p with
      | .vmm => console
      | .uartrx => s.vmmConsole
    uartrxConsole := match p with
      | .vmm => s.uartrxConsole
      | .uartrx => console }

def setHost (s : System) (host : HostState) : System := { s with host := host }

def setPipe (s : System) (pipe : Pipeline) : System := { s with pipe := pipe }

def setMirror (s : System) (mirror : MirrorState) : System := { s with mirror := mirror }

def goTo (s : System) (pc : NotifiedPc) : System := { s with tracer := pc }

/-- `microkit_notify` on the producer's channel to the tracer. -/
def notifyTracer (s : System) (p : Producer) : System :=
  { s with toTracer := Function.update s.toTracer p true }

def inEmit (s : System) (p : Producer) : Bool :=
  s.owed p || decide (s.pipe.emit p ≠ .idle)

def inPut (s : System) (p : Producer) : Bool := decide ((s.console p).put ≠ .idle)

/-- The producer is neither in `trace_emit` nor putting a byte. -/
def settled (s : System) (p : Producer) : Bool := !s.inEmit p && !s.inPut p

/-! ## The producers -/

/-- The next operation of a producer in `trace_emit`. -/
def emitStep (s : System) (p : Producer) : Option System :=
  if s.owed p then
    some { s.notifyTracer p with owed := Function.update s.owed p false }
  else
    (s.pipe.step (.producer p)).map fun pipe =>
      { s.setPipe pipe with
        owed := Function.update s.owed p (emitNotifies s.pipe.ring (s.pipe.emit p)) }

/-- The next operation of a producer that puts a byte. -/
def putStep (s : System) (p : Producer) : Option System :=
  ((s.console p).step (consoleProducer p) .producer).map fun console =>
    if putNotifies (s.console p).put then (s.setConsole p console).notifyTracer p
    else s.setConsole p console

/-- The next operation of uartrx, when it is in neither of these. -/
def uartrxOp (s : System) : Option System :=
  match s.host.channel.send, s.host.todo with
  | .idle, .traceEmit rec :: ops =>
    (s.pipe.step (recordAct rec)).map fun pipe => (s.setPipe pipe).setHost (s.host.skip ops)
  | .idle, .requestDump :: ops =>
    (s.pipe.step (.producer .uartrx)).map fun pipe => (s.setPipe pipe).setHost (s.host.skip ops)
  | .idle, .putc c :: ops =>
    (s.uartrxConsole.step .uartrx (.call c)).map fun console =>
      (s.setConsole .uartrx console).setHost (s.host.skip ops)
  | .idle, .flush :: ops => some ((s.notifyTracer .uartrx).setHost (s.host.skip ops))
  | .notify _, _ =>
    (s.host.step .uartrx).map fun host => { s.setHost host with toVmm := true }
  | _, _ => (s.host.step .uartrx).map s.setHost

def uartrxStep (s : System) : Option System :=
  if s.inEmit .uartrx then s.emitStep .uartrx
  else if s.inPut .uartrx then s.putStep .uartrx
  else s.uartrxOp

/-- The VMM is in its event loop. -/
def vmmWaits (s : System) : Bool :=
  match s.host.channel.run with
  | .idle => !s.handling && s.settled .vmm
  | _ => false

/-- The VMM is in a handler that may call `trace_emit` and `_sddf_putchar` now. -/
def vmmRuns (s : System) : Bool :=
  match s.host.channel.run with
  | .idle => s.handling && s.settled .vmm
  | .running _ _ => s.settled .vmm
  | _ => false

def vmmStep (s : System) : Option System :=
  if s.inEmit .vmm then s.emitStep .vmm
  else if s.inPut .vmm then s.putStep .vmm
  else match s.host.channel.run with
    | .idle => if s.handling then some { s with handling := false } else none
    | _ => (s.host.step .vmm).map s.setHost

/-! ## The tracer -/

/-- `drain_console` is called on the producer's ring. -/
def drainConsole (s : System) (p : Producer) : Option System :=
  ((s.console p).step (consoleProducer p) .drainConsole).map fun console =>
    (s.setConsole p console).goTo (.drainConsole p)

/-- The next operation of `drain_console`, or of `notified` after it. -/
def drainStep (s : System) (p : Producer) : Option System :=
  match (s.console p).drain, p with
  | .idle, .vmm => s.drainConsole .uartrx
  | .idle, .uartrx => some ((s.setPipe s.pipe.tracerStep).goTo .maybeDump)
  | .output tail, _ =>
    ((s.console p).step (consoleProducer p) .tracer).map fun console =>
      (s.setConsole p console).setMirror (s.mirror.call ((s.console p).ring.buf (Console.slot tail)))
  | _, _ => ((s.console p).step (consoleProducer p) .tracer).map (s.setConsole p)

/-- The next operation of `maybe_dump`, up to the text it puts on the console. -/
def dumpStep (s : System) : Option System :=
  match s.pipe.tracer with
  | .maybeDump =>
    some ((s.setPipe s.pipe.tracerStep).goTo
      (if s.pipe.dumpRequests = s.pipe.dumpsDone then .mirrorNotify else .maybeDump))
  | .dumpArchive =>
    some ((s.setPipe s.pipe.tracerStep).goTo
      (.puts ((summary s.pipe.archive).map Char.toUInt8)))
  | _ => none

def tracerStep (s : System) : Option System :=
  match s.mirror.put, s.tracer with
  | .idle, .waiting => none
  | .idle, .drainTrace =>
    match s.pipe.tracer with
    | .drainConsole => s.drainConsole .vmm
    | _ => some (s.setPipe s.pipe.tracerStep)
  | .idle, .drainConsole p => s.drainStep p
  | .idle, .maybeDump => s.dumpStep
  | .idle, .puts [] => some (s.goTo .mirrorNotify)
  | .idle, .puts (c :: text) => some ((s.setMirror (s.mirror.call c)).goTo (.puts text))
  | .idle, .mirrorNotify => some ((s.setMirror s.mirror.mirrorNotify).goTo .waiting)
  | _, _ => some (s.setMirror s.mirror.putStep)

/-! ## All steps -/

def step (s : System) : Act → Option System
  | .rx e => if s.settled .uartrx then (s.host.step (.rx e)).map s.setHost else none
  | .uartrx => s.uartrxStep
  | .timeOut crumb => (s.host.step (.timeOut crumb)).map s.setHost
  | .vmmNotified =>
    if s.vmmWaits && s.toVmm then
      (s.host.step .notified).map fun host => { s.setHost host with toVmm := false }
    else none
  | .fault => if s.vmmWaits then some { s with handling := true } else none
  | .traceEmit rec => if s.vmmRuns then (s.pipe.step (.call .vmm rec)).map s.setPipe else none
  | .putchar c =>
    if s.vmmRuns then (s.vmmConsole.step .vmm (.call c)).map (s.setConsole .vmm) else none
  | .vmm => s.vmmStep
  | .tracerNotified p =>
    if s.tracer = .waiting ∧ s.toTracer p = true then
      some { (s.setPipe s.pipe.tracerStep).goTo .drainTrace with
        toTracer := Function.update s.toTracer p false }
    else none
  | .tracer => s.tracerStep
  | .fbconNotified => (s.mirror.step .notified).map s.setMirror
  | .fbcon => (s.mirror.step .fbcon).map s.setMirror
  | .tick t => (s.pipe.step (.tick t)).map s.setPipe

/-- The VMM is in its event loop, uartrx is between bytes, the tracer and fbcon
wait, and no notification is pending. -/
structure Quiescent (s : System) : Prop where
  vmm : s.vmmWaits = true
  uartrx : s.settled .uartrx = true
  todo : s.host.todo = []
  send : s.host.channel.send = .idle
  tracer : s.tracer = .waiting
  fbcon : s.mirror.fbcon = .waiting
  toTracer : ∀ p, s.toTracer p = false
  toVmm : s.toVmm = false
  toFbcon : s.mirror.signal = false

def quiet (s : System) : Bool :=
  match s.host.todo, s.host.channel.send, s.tracer, s.mirror.fbcon with
  | [], .idle, .waiting, .waiting =>
    s.vmmWaits && s.settled .uartrx && !s.toTracer .vmm && !s.toTracer .uartrx && !s.toVmm &&
      !s.mirror.signal
  | _, _, _, _ => false

theorem quiet_iff (s : System) : s.quiet = true ↔ s.Quiescent := by
  unfold quiet
  constructor
  · intro h
    split at h
    · rename_i htodo hsend htracer hfbcon
      simp only [Bool.and_eq_true, Bool.not_eq_true'] at h
      obtain ⟨⟨⟨⟨⟨hvmm, huartrx⟩, hfirst⟩, hsecond⟩, htoVmm⟩, hsignal⟩ := h
      refine ⟨hvmm, huartrx, htodo, hsend, htracer, hfbcon, ?_, htoVmm, hsignal⟩
      intro p
      cases p with
      | vmm => exact hfirst
      | uartrx => exact hsecond
    · cases h
  · intro h
    rw [h.todo, h.send, h.tracer, h.fbcon]
    simp [h.vmm, h.uartrx, h.toTracer, h.toVmm, h.toFbcon]

instance (s : System) : Decidable s.Quiescent := decidable_of_iff _ s.quiet_iff

end System

/-- All interleavings, from the zeroed memory of boot. -/
def wakeup (uart : UartConfig) (screen : Option Screen) : Automaton System Act where
  start := { host := { todo := uartrxInit uart }, mirror := { screen := screen } }
  step := System.step

end Wakeup
end TensorSel4
