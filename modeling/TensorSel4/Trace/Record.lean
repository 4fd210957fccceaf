/-
The trace record and the sizes of `include/trace/trace.h` and
`include/trace/trace_archive.h`.

A C initialiser that names some of the fields zeroes the others, so the default
value of every field here is zero.
-/
import Mathlib.Data.UInt

namespace TensorSel4
namespace Trace

def version : Nat := 9
def recordSize : Nat := 64
def headerSize : Nat := 336
def headerInterval : Nat := 64
def ringSize : Nat := 0x10000
def ringHeaderSize : Nat := 64
def ringCapacity : Nat := (ringSize - ringHeaderSize) / recordSize
def archiveSize : Nat := 0x800000
def archiveHeaderSize : Nat := 64
def archiveCapacity : Nat := (archiveSize - archiveHeaderSize) / recordSize

def kindMmio : UInt8 := 1
def kindSmcEnter : UInt8 := 2
def kindSmcRegs : UInt8 := 3
def kindSmcExit : UInt8 := 4
def kindCmd : UInt8 := 5
def kindGuest : UInt8 := 6

def mmioWrite : UInt8 := (1 : UInt8) <<< 0
def mmioForwarded : UInt8 := (1 : UInt8) <<< 1
def mmioUnhandled : UInt8 := (1 : UInt8) <<< 2

def smcRegsExit : UInt8 := (1 : UInt8) <<< 0
def smcForwarded : UInt8 := (1 : UInt8) <<< 1
def smcUnhandled : UInt8 := (1 : UInt8) <<< 2

def cmdAccepted : UInt8 := (1 : UInt8) <<< 0
def cmdRejectedArgs : UInt8 := (1 : UInt8) <<< 1
def cmdRejectedVerb : UInt8 := (1 : UInt8) <<< 2

def cmdVerbTraceDump : UInt64 := 2

def guestStarted : UInt64 := 1
def guestStoppedByCommand : UInt64 := 2
def guestStoppedByFault : UInt64 := 3

/-- `struct trace_record`. -/
structure TraceRecord where
  seq : UInt64 := 0
  time : UInt64 := 0
  pc : UInt64 := 0
  addr : UInt64 := 0
  value : UInt64 := 0
  esr : UInt32 := 0
  vcpu : UInt16 := 0
  producer : UInt8 := 0
  kind : UInt8 := 0
  size : UInt8 := 0
  flags : UInt8 := 0
  reserved0 : Vector UInt8 6 := Vector.replicate 6 0
  reserved1 : UInt64 := 0
  deriving DecidableEq, Repr

namespace TraceRecord

/-- The record as its producer handed it to `trace_emit`, which fills in `seq`,
`time` and `producer` itself. -/
def payload (r : TraceRecord) : TraceRecord := { r with seq := 0, time := 0, producer := 0 }

@[simp] theorem payload_seq (r : TraceRecord) (n : UInt64) :
    ({ r with seq := n } : TraceRecord).payload = r.payload := rfl

@[simp] theorem payload_stamp (r : TraceRecord) (t : UInt64) (p : UInt8) :
    ({ r with time := t, producer := p } : TraceRecord).payload = r.payload := rfl

end TraceRecord

/-- The two protection domains that write trace records. -/
inductive Producer
  | vmm
  | uartrx
  deriving DecidableEq, Repr

def Producer.id : Producer → UInt8
  | .vmm => 0
  | .uartrx => 1

theorem Producer.id_injective {p q : Producer} (h : p.id = q.id) : p = q := by
  cases p <;> cases q <;> first | rfl | exact absurd h (by decide)

end Trace
end TensorSel4
