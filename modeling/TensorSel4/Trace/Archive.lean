/-
The tracer's archive, `struct trace_archive`, and `archive_record`.

`count` never passes the capacity, so the structure carries that bound and the
slot `records[count]` that a store uses is always one of the array's.
-/
import TensorSel4.RingBuffer.Window
import TensorSel4.Trace.Record

namespace TensorSel4
namespace Trace

theorem empty_bounded : (0 : UInt64).toNat ≤ archiveCapacity := by decide

structure TraceArchive where
  count : UInt64 := 0
  notArchived : UInt64 := 0
  records : Nat → TraceRecord := fun _ => {}
  bounded : count.toNat ≤ archiveCapacity := by exact TensorSel4.Trace.empty_bounded

namespace TraceArchive

def full (a : TraceArchive) : Prop := a.count = UInt64.ofNat archiveCapacity

instance (a : TraceArchive) : Decidable a.full := inferInstanceAs (Decidable (_ = _))

theorem full_iff (a : TraceArchive) : a.full ↔ a.count.toNat = archiveCapacity :=
  UInt64.toNat_inj.symm

theorem count_lt {a : TraceArchive} (h : ¬a.full) : a.count.toNat < archiveCapacity :=
  Nat.lt_of_le_of_ne a.bounded fun he => h (a.full_iff.mpr he)

theorem count_succ {a : TraceArchive} (h : ¬a.full) : (a.count + 1).toNat = a.count.toNat + 1 := by
  have hlt := count_lt h
  have hcap : archiveCapacity < 2 ^ 64 := by decide
  exact RingBuffer.toNat_succ (by omega)

/-- The stored records, oldest first. -/
def stored (a : TraceArchive) : List TraceRecord := (List.range a.count.toNat).map a.records

theorem stored_length (a : TraceArchive) : a.stored.length = a.count.toNat := by
  simp [stored]

end TraceArchive

def archiveRecord (archive : TraceArchive) (rec : TraceRecord) : TraceArchive :=
  if h : archive.full then
    { archive with notArchived := archive.notArchived + 1 }
  else
    { archive with
      records := Function.update archive.records archive.count.toNat rec
      count := archive.count + 1
      bounded := by
        rw [TraceArchive.count_succ h]
        exact TraceArchive.count_lt h }

theorem archiveRecord_full {a : TraceArchive} (h : a.full) (r : TraceRecord) :
    archiveRecord a r = { a with notArchived := a.notArchived + 1 } := dif_pos h

theorem archiveRecord_count {a : TraceArchive} (h : ¬a.full) (r : TraceRecord) :
    (archiveRecord a r).count.toNat = a.count.toNat + 1 := by
  rw [archiveRecord, dif_neg h]
  exact TraceArchive.count_succ h

theorem archiveRecord_notArchived {a : TraceArchive} (h : ¬a.full) (r : TraceRecord) :
    (archiveRecord a r).notArchived = a.notArchived := by
  rw [archiveRecord, dif_neg h]

/-- Archiving never changes a record that is already stored. -/
theorem archiveRecord_keeps (a : TraceArchive) (r : TraceRecord) {i : Nat}
    (hi : i < a.count.toNat) : (archiveRecord a r).records i = a.records i := by
  unfold archiveRecord
  split
  · rfl
  · exact Function.update_of_ne (Nat.ne_of_lt hi) _ _

theorem archiveRecord_last {a : TraceArchive} (h : ¬a.full) (r : TraceRecord) :
    (archiveRecord a r).records a.count.toNat = r := by
  rw [archiveRecord, dif_neg h]
  exact Function.update_self _ _ _

theorem archiveRecord_count_le (a : TraceArchive) (r : TraceRecord) :
    a.count.toNat ≤ (archiveRecord a r).count.toNat := by
  by_cases h : a.full
  · rw [archiveRecord_full h]
  · rw [archiveRecord_count h]
    exact Nat.le_succ _

end Trace
end TensorSel4
