/-
The trace ring and the three protection domains that share it.

Every atomic operation of `trace_emit` (`vmm/trace_producer.c`) and of
`notified` (`tracer/tracer.c`) is one step, and the labels pick who moves, so a
label list is one interleaving.  The machine is sequentially consistent.  The
64-bit counters are machine words and wrap.

`notified` may start at any time, since console output wakes the tracer as well
as `trace_emit` does.  The two `drain_console` calls and `mirror_notify` touch
only the console rings, so they are one step that changes nothing here.
`dump_archive` reads only the archive, which no other domain maps, so one step
prints it.

The last three fields of the state are history.  Steps write them and never
read them.
-/
import TensorSel4.Automaton.Run
import TensorSel4.Trace.Archive

namespace TensorSel4
namespace Trace

/-- `struct trace_ring`. -/
structure TraceRing where
  head : UInt64 := 0
  tail : UInt64 := 0
  nextSeq : UInt64 := 0
  producerLock : UInt32 := 0
  records : Nat → TraceRecord := fun _ => {}

/-- Where a producer is in `trace_emit`, with the locals it still needs. -/
inductive EmitPc
  | idle
  /-- `producer_lock`: about to exchange the lock word. -/
  | exchange (rec : TraceRecord)
  /-- `producer_lock`: about to load the lock word in the inner loop. -/
  | spin (rec : TraceRecord)
  | loadHead (rec : TraceRecord)
  /-- `wait_for_space`: about to load `tail`. -/
  | waitForSpace (rec : TraceRecord) (head : UInt64)
  | fetchSeq (rec : TraceRecord) (head : UInt64)
  | readTime (rec : TraceRecord) (head : UInt64)
  | storeSlot (rec : TraceRecord) (head : UInt64)
  | storeHead (rec : TraceRecord) (head : UInt64)
  | unlock
  deriving DecidableEq

/-- Where the tracer is in `notified`, with the locals it still needs. -/
inductive TracerPc
  | idle
  /-- `drain_trace`: about to load `tail`. -/
  | drainTrace
  | loadHead (tail : UInt64)
  | archiveRecord (tail : UInt64)
  | storeTail (tail : UInt64)
  | drainConsole
  /-- `maybe_dump`: about to load `dump_requests`. -/
  | maybeDump
  | dumpArchive
  deriving DecidableEq

structure Pipeline where
  ring : TraceRing := {}
  emit : Producer → EmitPc := fun _ => .idle
  /-- uartrx is in `cmd_trace_dump`, or will be when its `trace_emit` returns. -/
  traceDump : Bool := false
  dumpRequests : UInt64 := 0
  tracer : TracerPc := .idle
  dumpsDone : UInt64 := 0
  archive : TraceArchive := {}
  /-- What each dump printed, in order. -/
  dumps : List (List TraceRecord) := []
  /-- The counter behind `read_cntpct`. -/
  cntpct : UInt64 := 0
  /-- The records handed to `trace_emit` by each producer. -/
  submitted : Producer → List TraceRecord := fun _ => []
  /-- The records made visible by a store to `head`, in that order. -/
  published : List TraceRecord := []
  /-- How many records `drain_trace` has taken out of the ring. -/
  drained : Nat := 0

inductive Act
  /-- A producer calls `trace_emit`. -/
  | call (p : Producer) (rec : TraceRecord)
  /-- uartrx accepts a `trace-dump` line: `run_line` records it and then runs
  `cmd_trace_dump`. -/
  | traceDump (id : UInt64)
  /-- The next operation of a producer. -/
  | producer (p : Producer)
  /-- The next operation of the tracer. -/
  | tracer
  /-- The counter advances to `t`. -/
  | tick (t : UInt64)

namespace Pipeline

def setEmit (s : Pipeline) (p : Producer) (pc : EmitPc) : Pipeline :=
  { s with emit := Function.update s.emit p pc }

@[simp] theorem setEmit_self (s : Pipeline) (p : Producer) (pc : EmitPc) :
    (s.setEmit p pc).emit p = pc := Function.update_self _ _ _

theorem setEmit_ne (s : Pipeline) {p q : Producer} (h : q ≠ p) (pc : EmitPc) :
    (s.setEmit p pc).emit q = s.emit q := Function.update_of_ne h _ _

/-- The condition of the loop in `wait_for_space`. -/
def noSpace (head tail : UInt64) : Prop := UInt64.ofNat ringCapacity ≤ head - tail

instance (head tail : UInt64) : Decidable (noSpace head tail) :=
  inferInstanceAs (Decidable (_ ≤ _))

/-- The record that `record_command` emits. -/
def recordCommand (verb id : UInt64) (flags : UInt8) (arg : UInt64) : TraceRecord :=
  { pc := arg, addr := verb, value := id, kind := kindCmd, flags := flags }

def startEmit (s : Pipeline) (p : Producer) (rec : TraceRecord) : Pipeline :=
  { s.setEmit p (.exchange rec) with
    submitted := Function.update s.submitted p (s.submitted p ++ [rec]) }

/-- `trace_emit`, one atomic operation at a time, and then `cmd_trace_dump`. -/
def producerStep (s : Pipeline) (p : Producer) : Option Pipeline :=
  match s.emit p with
  | .idle =>
    if p = .uartrx ∧ s.traceDump = true then
      some { s with dumpRequests := s.dumpRequests + 1, traceDump := false }
    else
      none
  | .exchange rec =>
    some { s.setEmit p (if s.ring.producerLock = 0 then .loadHead rec else .spin rec) with
      ring := { s.ring with producerLock := 1 } }
  | .spin rec =>
    some (s.setEmit p (if s.ring.producerLock = 0 then .exchange rec else .spin rec))
  | .loadHead rec => some (s.setEmit p (.waitForSpace rec s.ring.head))
  | .waitForSpace rec head =>
    some (s.setEmit p
      (if noSpace head s.ring.tail then .waitForSpace rec head else .fetchSeq rec head))
  | .fetchSeq rec head =>
    some { s.setEmit p (.readTime { rec with seq := s.ring.nextSeq } head) with
      ring := { s.ring with nextSeq := s.ring.nextSeq + 1 } }
  | .readTime rec head =>
    some (s.setEmit p (.storeSlot { rec with time := s.cntpct, producer := p.id } head))
  | .storeSlot rec head =>
    some { s.setEmit p (.storeHead rec head) with
      ring := { s.ring with
        records := Function.update s.ring.records (head.toNat % ringCapacity) rec } }
  | .storeHead rec head =>
    some { s.setEmit p .unlock with
      ring := { s.ring with head := head + 1 }
      published := s.published ++ [rec] }
  | .unlock =>
    some { s.setEmit p .idle with ring := { s.ring with producerLock := 0 } }

/-- `notified`, one atomic operation at a time. -/
def tracerStep (s : Pipeline) : Pipeline :=
  match s.tracer with
  | .idle => { s with tracer := .drainTrace }
  | .drainTrace => { s with tracer := .loadHead s.ring.tail }
  | .loadHead tail =>
    { s with tracer := if tail = s.ring.head then .drainConsole else .archiveRecord tail }
  | .archiveRecord tail =>
    { s with
      archive := archiveRecord s.archive (s.ring.records (tail.toNat % ringCapacity))
      tracer := .storeTail (tail + 1)
      drained := s.drained + 1 }
  | .storeTail tail => { s with ring := { s.ring with tail := tail }, tracer := .loadHead tail }
  | .drainConsole => { s with tracer := .maybeDump }
  | .maybeDump =>
    if s.dumpRequests = s.dumpsDone then
      { s with tracer := .idle }
    else
      { s with dumpsDone := s.dumpRequests, tracer := .dumpArchive }
  | .dumpArchive => { s with dumps := s.dumps ++ [s.archive.stored], tracer := .idle }

def step (s : Pipeline) : Act → Option Pipeline
  | .call p rec =>
    if s.emit p = .idle ∧ ¬(p = .uartrx ∧ s.traceDump = true) then
      some (s.startEmit p rec)
    else
      none
  | .traceDump id =>
    if s.emit .uartrx = .idle ∧ s.traceDump = false then
      some { s.startEmit .uartrx (recordCommand cmdVerbTraceDump id cmdAccepted 0) with
        traceDump := true }
    else
      none
  | .producer p => s.producerStep p
  | .tracer => some s.tracerStep
  | .tick t => if s.cntpct ≤ t then some { s with cntpct := t } else none

end Pipeline

/-- All interleavings, from the zeroed memory of boot. -/
def pipeline : Automaton Pipeline Act where
  start := {}
  step := Pipeline.step

/-- The state after a run from boot. -/
def afterRun (es : List Act) : Pipeline := (pipeline.run pipeline.start es).getD {}

end Trace
end TensorSel4
