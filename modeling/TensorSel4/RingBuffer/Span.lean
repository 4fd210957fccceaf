/-
The distance between two free-running word counters.

`span tail head` is what a ring's full and empty tests compute.  It stays right
when the counters wrap, as long as the ring never holds 2^64 items.
-/
import Mathlib.Data.UInt

namespace TensorSel4
namespace RingBuffer

def span (tail head : UInt64) : Nat := (head - tail).toNat

theorem span_self (tail : UInt64) : span tail tail = 0 := by
  rw [span, UInt64.sub_self]
  rfl

theorem span_lt (tail head : UInt64) : span tail head < 2 ^ 64 := UInt64.toNat_lt _

theorem span_inj {tail head head' : UInt64} (h : span tail head = span tail head') :
    head = head' := sub_left_injective (UInt64.toNat_inj.mp h)

theorem span_add {tail head n : UInt64} (h : span tail head + n.toNat < 2 ^ 64) :
    span tail (head + n) = span tail head + n.toNat := by
  rw [span, ← sub_add_eq_add_sub, UInt64.toNat_add]
  exact Nat.mod_eq_of_lt h

theorem span_succ {tail head : UInt64} (h : span tail head + 1 < 2 ^ 64) :
    span tail (head + 1) = span tail head + 1 := span_add h

/-- What is left when the tail advances within the span. -/
theorem span_advance {tail tail' head : UInt64} (h : span tail tail' ≤ span tail head) :
    span tail' head = span tail head - span tail tail' := by
  rw [span, ← sub_sub_sub_cancel_right head tail' tail]
  exact UInt64.toNat_sub_of_le _ _ (UInt64.le_iff_toNat_le.mpr h)

/-- The position behind the last item of a span is its head. -/
theorem add_span (tail head : UInt64) : tail + UInt64.ofNat (span tail head) = head := by
  rw [span, UInt64.ofNat_toNat]
  exact add_sub_cancel tail head

end RingBuffer
end TensorSel4
