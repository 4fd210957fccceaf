/-
The command ring between uartrx and the VMM.

`cmd_to_vmm` and `wait_for_vmm` (`uartrx/uartrx.c`) are the sender, `run_commands`
(`vmm/vmm.c`) the receiver, and every access to the ring is one step.  The
sender writes an entry's fields one by one, and the receiver reads them one by
one in place; `run_command` does not need all of them for every verb, and then
the extra read changes nothing.  `wait_for_vmm` may give up whenever it compares
the time with its deadline.

The lists and `taken` are history: what became of each command handed to
`cmd_to_vmm`, the commands `run_command` was entered and left with, how many
slots were freed, and the commands whose wait succeeded.
-/
import TensorSel4.RingBuffer.Window
import TensorSel4.Vmm.Machine

namespace TensorSel4
namespace Command

open Vmm

def cmdRingCapacity : Nat := 64

/-- `struct cmd_ring` without the breadcrumb. -/
structure CmdRing where
  head : UInt64 := 0
  tail : UInt64 := 0
  completedId : UInt64 := 0
  entries : Nat → CmdEntry := fun _ => { id := 0, verb := 0, arg := 0 }

/-- Where uartrx is in `cmd_to_vmm`, with the locals it still needs. -/
inductive SendPc
  | idle
  | loadHead (cmd : CmdEntry)
  | loadTail (cmd : CmdEntry) (head : UInt64)
  /-- About to report that the command is dropped. -/
  | drop (cmd : CmdEntry)
  | storeId (cmd : CmdEntry) (head : UInt64)
  | storeVerb (cmd : CmdEntry) (head : UInt64)
  | storeArg (cmd : CmdEntry) (head : UInt64)
  | storeHead (cmd : CmdEntry) (head : UInt64)
  | notify (cmd : CmdEntry)
  /-- `wait_for_vmm`: about to load `completed_id`. -/
  | waitForVmm (cmd : CmdEntry)
  /-- About to compare the time with the deadline. -/
  | checkDeadline (cmd : CmdEntry)

/-- Where the VMM is in `run_commands`. -/
inductive RunPc
  | idle
  | loadTail
  | loadHead (tail : UInt64)
  | readVerb (tail : UInt64)
  | readArg (tail verb : UInt64)
  | readId (tail verb arg : UInt64)
  /-- In `run_command`. -/
  | running (tail : UInt64) (cmd : CmdEntry)
  /-- About to read `cmd->id` again. -/
  | reloadId (tail : UInt64)
  | storeCompleted (tail id : UInt64)
  | storeTail (tail : UInt64)

inductive Outcome
  | queued
  | dropped
  deriving DecidableEq

def slot (pos : UInt64) : Nat := pos.toNat % cmdRingCapacity

def noRoom (head tail : UInt64) : Prop := UInt64.ofNat cmdRingCapacity ≤ head - tail

instance (head tail : UInt64) : Decidable (noRoom head tail) :=
  inferInstanceAs (Decidable (_ ≤ _))

namespace CmdRing

def setEntry (ring : CmdRing) (pos : UInt64) (cmd : CmdEntry) : CmdRing :=
  { ring with entries := Function.update ring.entries (slot pos) cmd }

def entry (ring : CmdRing) (pos : UInt64) : CmdEntry := ring.entries (slot pos)

end CmdRing

/-- The next operation of `cmd_to_vmm`. -/
def sendStep (ring : CmdRing) : SendPc → CmdRing × SendPc
  | .idle => (ring, .idle)
  | .loadHead cmd => (ring, .loadTail cmd ring.head)
  | .loadTail cmd head => (ring, if noRoom head ring.tail then .drop cmd else .storeId cmd head)
  | .drop _ => (ring, .idle)
  | .storeId cmd head =>
    (ring.setEntry head { ring.entry head with id := cmd.id }, .storeVerb cmd head)
  | .storeVerb cmd head =>
    (ring.setEntry head { ring.entry head with verb := cmd.verb }, .storeArg cmd head)
  | .storeArg cmd head =>
    (ring.setEntry head { ring.entry head with arg := cmd.arg }, .storeHead cmd head)
  | .storeHead cmd head => ({ ring with head := head + 1 }, .notify cmd)
  | .notify cmd => (ring, .waitForVmm cmd)
  | .waitForVmm cmd => (ring, if ring.completedId < cmd.id then .checkDeadline cmd else .idle)
  | .checkDeadline cmd => (ring, .waitForVmm cmd)

/-- The next operation of `run_commands`. -/
def runStep (ring : CmdRing) : RunPc → CmdRing × RunPc
  | .idle => (ring, .idle)
  | .loadTail => (ring, .loadHead ring.tail)
  | .loadHead tail => (ring, if tail = ring.head then .idle else .readVerb tail)
  | .readVerb tail => (ring, .readArg tail (ring.entry tail).verb)
  | .readArg tail verb => (ring, .readId tail verb (ring.entry tail).arg)
  | .readId tail verb arg => (ring, .running tail { id := (ring.entry tail).id, verb, arg })
  | .running tail _ => (ring, .reloadId tail)
  | .reloadId tail => (ring, .storeCompleted tail (ring.entry tail).id)
  | .storeCompleted tail id => ({ ring with completedId := id }, .storeTail tail)
  | .storeTail tail => ({ ring with tail := tail + 1 }, .loadHead (tail + 1))

/-- What the sender's step decides about a command. -/
def SendPc.decides : SendPc → List (CmdEntry × Outcome)
  | .drop cmd => [(cmd, .dropped)]
  | .storeHead cmd _ => [(cmd, .queued)]
  | _ => []

/-- `wait_for_vmm` returns true. -/
def SendPc.answers (ring : CmdRing) : SendPc → List CmdEntry
  | .waitForVmm cmd => if ring.completedId < cmd.id then [] else [cmd]
  | _ => []

/-- `run_command` is entered. -/
def RunPc.begins (ring : CmdRing) : RunPc → List CmdEntry
  | .readId tail verb arg => [{ id := (ring.entry tail).id, verb, arg }]
  | _ => []

/-- `run_command` returns. -/
def RunPc.returns : RunPc → List CmdEntry
  | .running _ cmd => [cmd]
  | _ => []

def RunPc.frees : RunPc → Nat
  | .storeTail _ => 1
  | _ => 0

structure CmdChannel where
  ring : CmdRing := {}
  send : SendPc := .idle
  run : RunPc := .idle
  outcomes : List (CmdEntry × Outcome) := []
  begun : List CmdEntry := []
  returned : List CmdEntry := []
  taken : Nat := 0
  answered : List CmdEntry := []

def withOutcome (o : Outcome) (outcomes : List (CmdEntry × Outcome)) : List CmdEntry :=
  (outcomes.filter fun x => x.2 = o).map Prod.fst

namespace CmdChannel

def queued (s : CmdChannel) : List CmdEntry := withOutcome .queued s.outcomes

def dropped (s : CmdChannel) : List CmdEntry := withOutcome .dropped s.outcomes

/-- uartrx calls `cmd_to_vmm`. -/
def call (s : CmdChannel) (cmd : CmdEntry) : CmdChannel := { s with send := .loadHead cmd }

def sender (s : CmdChannel) : CmdChannel :=
  { s with
    ring := (sendStep s.ring s.send).1
    send := (sendStep s.ring s.send).2
    outcomes := s.outcomes ++ s.send.decides
    answered := s.answered ++ s.send.answers s.ring }

/-- `wait_for_vmm` returns false. -/
def giveUp (s : CmdChannel) : CmdChannel := { s with send := .idle }

/-- The VMM is notified on uartrx's channel. -/
def notified (s : CmdChannel) : CmdChannel := { s with run := .loadTail }

def receiver (s : CmdChannel) : CmdChannel :=
  { s with
    ring := (runStep s.ring s.run).1
    run := (runStep s.ring s.run).2
    begun := s.begun ++ s.run.begins s.ring
    returned := s.returned ++ s.run.returns
    taken := s.taken + s.run.frees }

end CmdChannel
end Command
end TensorSel4
