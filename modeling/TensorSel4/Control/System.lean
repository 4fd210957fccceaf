/-
uartrx, the VMM and the tracer over the command ring and the trace ring.

uartrx carries out the operations of a byte one after another, and goes on only
when `trace_emit` has returned.  The VMM runs one handler at a time: the records
of a handler (`owed`) are those it adds to the VMM's trace, and it emits them
before it returns.  What the handlers put on the console is left out, since
neither ring depends on it.
-/
import TensorSel4.Command.Completion
import TensorSel4.Trace.Lossless
import TensorSel4.Vmm.Lifecycle

namespace TensorSel4
namespace Control

open Command Trace Uartrx Vmm

structure System where
  host : HostState := {}
  pipe : Pipeline := {}
  vmm : VmmState := {}
  owed : List TraceRecord := []

inductive Act
  /-- uartrx reads a byte. -/
  | rx (e : RxEvent)
  /-- The next operation of uartrx. -/
  | uartrx
  /-- The deadline of `wait_for_vmm` has passed. -/
  | timeOut (crumb : VmmBreadcrumb)
  /-- The VMM is notified on uartrx's channel. -/
  | notified
  /-- The next operation of the VMM; `env` is what the calls of a `guest-start`
  return. -/
  | vmm (env : StartEnv)
  /-- The VMM is told of a guest exit. -/
  | exit (vcpu : Nat) (f : Fault) (env : CallEnv)
  | tracer
  /-- The counter advances to `t`. -/
  | tick (t : UInt64)

/-- The trace ring's label for a record that `run_line` emits. -/
def recordAct (rec : TraceRecord) : Trace.Act :=
  if rec = Pipeline.recordCommand cmdVerbTraceDump rec.value cmdAccepted 0 then
    .traceDump rec.value
  else .call .uartrx rec

/-- The records that a handler adds. -/
def newRecords (s t : VmmState) : List TraceRecord := t.trace.drop s.trace.length

namespace System

def setHost (s : System) (host : HostState) : System := { s with host := host }

def setPipe (s : System) (pipe : Pipeline) : System := { s with pipe := pipe }

/-- The VMM enters a handler, which has run but for its records. -/
def handles (s : System) (vmm : VmmState) : System :=
  { s with vmm := vmm, owed := newRecords s.vmm vmm }

/-- The VMM is in its event loop or in `run_commands`, with no record to emit. -/
def settled (s : System) : Bool :=
  match s.pipe.emit .vmm, s.owed with
  | .idle, [] => true
  | _, _ => false

/-- The next operation of uartrx, when it is not in `trace_emit`. -/
def uartrxOp (s : System) : Option System :=
  match s.host.channel.send, s.host.todo with
  | .idle, .traceEmit rec :: ops =>
    (s.pipe.step (recordAct rec)).map fun pipe => (s.setPipe pipe).setHost (s.host.skip ops)
  | .idle, .requestDump :: ops =>
    (s.pipe.step (.producer .uartrx)).map fun pipe => (s.setPipe pipe).setHost (s.host.skip ops)
  | _, _ => (s.host.step .uartrx).map s.setHost

/-- The next operation of the VMM, when it is not in `trace_emit`. -/
def vmmOp (b : Build) (s : System) (env : StartEnv) : Option System :=
  match s.owed, s.host.channel.run with
  | rec :: recs, _ =>
    (s.pipe.step (.call .vmm rec)).map fun pipe => { s with pipe := pipe, owed := recs }
  | [], .readId tail verb arg =>
    (s.host.step .vmm).map fun host =>
      (s.setHost host).handles (s.vmm.runCommand b
        { id := (s.host.channel.ring.entry tail).id, verb, arg } env)
  | [], _ => (s.host.step .vmm).map s.setHost

def step (b : Build) (s : System) : Act → Option System
  | .rx e =>
    match s.pipe.emit .uartrx with
    | .idle => (s.host.step (.rx e)).map s.setHost
    | _ => none
  | .uartrx =>
    match s.pipe.emit .uartrx with
    | .idle => s.uartrxOp
    | _ => (s.pipe.step (.producer .uartrx)).map s.setPipe
  | .timeOut crumb => (s.host.step (.timeOut crumb)).map s.setHost
  | .notified => if s.settled then (s.host.step .notified).map s.setHost else none
  | .vmm env =>
    match s.pipe.emit .vmm with
    | .idle => s.vmmOp b env
    | _ => (s.pipe.step (.producer .vmm)).map s.setPipe
  | .exit vcpu f env =>
    match s.settled, s.host.channel.run with
    | true, .idle => (s.vmm.step b (.exit vcpu f env)).map s.handles
    | _, _ => none
  | .tracer => (s.pipe.step .tracer).map s.setPipe
  | .tick t => (s.pipe.step (.tick t)).map s.setPipe

end System

/-- All interleavings, from the zeroed memory of boot. -/
def control (b : Build) (uart : UartConfig) : Automaton System Act where
  start := { host := { todo := uartrxInit uart } }
  step := System.step b

end Control
end TensorSel4
