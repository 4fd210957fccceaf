/-
The records by which a trace shows what a guest did: MMIO and SMC records.

Every record of an exit is one, and the only one that can carry UNHANDLED is
the last record of an exit that stops the guest.
-/
import TensorSel4.Vmm.Lifecycle

namespace TensorSel4
namespace Trace
namespace TraceRecord

/-- An MMIO or SMC record. -/
def activity (r : TraceRecord) : Prop :=
  r.kind = kindMmio ∨ r.kind = kindSmcEnter ∨ r.kind = kindSmcRegs ∨ r.kind = kindSmcExit

/-- An MMIO or SMC record with UNHANDLED set. -/
def unhandled (r : TraceRecord) : Prop :=
  r.kind = kindMmio ∧ r.flags &&& mmioUnhandled ≠ 0 ∨
    r.kind = kindSmcExit ∧ r.flags &&& smcUnhandled ≠ 0

theorem activity.not_guest {r : TraceRecord} (h : r.activity) : r.kind ≠ kindGuest := by
  intro hguest
  rw [activity, hguest] at h
  exact absurd h (by decide)

theorem unhandled.activity {r : TraceRecord} (h : r.unhandled) : r.activity := by
  rcases h with ⟨h, -⟩ | ⟨h, -⟩
  · exact Or.inl h
  · exact Or.inr (Or.inr (Or.inr h))

end TraceRecord
end Trace

namespace Vmm

open Trace

/-- WRITE is the only flag that `mmio_trace_emit` adds. -/
theorem mmioRecord_flags (lib : Libvmm) (vcpu : Nat) (pc addr fsr value : UInt64)
    (flags : UInt8) {mask : UInt8} (hmask : mmioWrite &&& mask = 0) :
    (mmioRecord lib vcpu pc addr fsr flags value).flags &&& mask = flags &&& mask := by
  show (flags ||| if lib.faultIsWrite fsr then mmioWrite else 0) &&& mask = _
  refine UInt8.toBitVec_inj.mp ?_
  rw [UInt8.toBitVec_and, UInt8.toBitVec_or, BitVec.and_or_distrib_right, ← UInt8.toBitVec_and,
    ← UInt8.toBitVec_and]
  cases lib.faultIsWrite fsr
  · simp
  · simp [hmask]

theorem mmioRecord_unhandled (lib : Libvmm) (vcpu : Nat) (pc addr fsr value : UInt64)
    (flags : UInt8) :
    (mmioRecord lib vcpu pc addr fsr flags value).unhandled ↔ flags &&& mmioUnhandled ≠ 0 := by
  rw [TraceRecord.unhandled, mmioRecord_flags _ _ _ _ _ _ _ (by decide)]
  simp [mmioRecord, kindMmio, kindSmcExit]

theorem smcRegsRecords_kind {vcpu : Nat} {pc hsr : UInt64} {flags : UInt8} {regs : UserContext}
    {r : TraceRecord} (hr : r ∈ smcRegsRecords vcpu pc hsr flags regs) : r.kind = kindSmcRegs := by
  simp only [smcRegsRecords, List.mem_cons, List.not_mem_nil, or_false] at hr
  rcases hr with rfl | rfl | rfl <;> rfl

theorem smcEnterRecords_kind {vcpu : Nat} {pc hsr : UInt64} {regs : UserContext}
    {r : TraceRecord} (hr : r ∈ smcEnterRecords vcpu pc hsr regs) :
    r.kind = kindSmcEnter ∨ r.kind = kindSmcRegs := by
  rcases List.mem_cons.mp hr with rfl | hr
  · exact Or.inl rfl
  · exact Or.inr (smcRegsRecords_kind hr)

theorem smcExitRecords_kind {vcpu : Nat} {pc hsr : UInt64} {flags : UInt8} {regs : UserContext}
    {r : TraceRecord} (hr : r ∈ smcExitRecords vcpu pc hsr flags regs) :
    r.kind = kindSmcExit ∧ r.flags = flags ∨ r.kind = kindSmcRegs := by
  rcases List.mem_cons.mp hr with rfl | hr
  · exact Or.inl ⟨rfl, rfl⟩
  · exact Or.inr (smcRegsRecords_kind hr)

theorem smcActRecords_kind {vcpu : Nat} {hsr : UInt64} {regs : UserContext} {env : CallEnv}
    {r : TraceRecord} (hr : r ∈ smcActRecords vcpu hsr regs env) :
    r.kind = kindSmcExit ∧ r.flags &&& smcUnhandled = 0 ∨ r.kind = kindSmcRegs := by
  unfold smcActRecords at hr
  split at hr
  · split at hr
    · rcases smcExitRecords_kind hr with ⟨hk, hf⟩ | hk
      · exact Or.inl ⟨hk, by rw [hf]; decide⟩
      · exact Or.inr hk
    · exact absurd hr List.not_mem_nil
  · rcases smcExitRecords_kind hr with ⟨hk, hf⟩ | hk
    · exact Or.inl ⟨hk, by rw [hf]; decide⟩
    · exact Or.inr hk
  · exact absurd hr List.not_mem_nil

theorem not_unhandled_of_kind {r : TraceRecord}
    (h : r.kind = kindSmcEnter ∨ r.kind = kindSmcRegs ∨
      r.kind = kindSmcExit ∧ r.flags &&& smcUnhandled = 0) : r.activity ∧ ¬r.unhandled := by
  rcases h with h | h | ⟨h, hflags⟩
  · exact ⟨Or.inr (Or.inl h), by simp [TraceRecord.unhandled, h, kindSmcEnter, kindMmio,
      kindSmcExit]⟩
  · exact ⟨Or.inr (Or.inr (Or.inl h)), by simp [TraceRecord.unhandled, h, kindSmcRegs, kindMmio,
      kindSmcExit]⟩
  · exact ⟨Or.inr (Or.inr (Or.inr h)), by simp [TraceRecord.unhandled, h, hflags, kindMmio,
      kindSmcExit]⟩

/-- The records of an exit, and the last of them if it stops the guest. -/
structure ExitRecords (records done last : List TraceRecord) (resumed : Bool) : Prop where
  eq : records = done ++ last
  handled : ∀ r ∈ done, r.activity ∧ ¬r.unhandled
  refusal : ∀ r ∈ last, r.activity
  length : last.length ≤ 1
  resumed : resumed = true → last = []

theorem smcRecords_split (vcpu : Nat) (hsr : UInt64) (env : CallEnv) :
    ∃ done last, ExitRecords (smcRecords vcpu hsr env) done last (smcResumes env) := by
  unfold smcRecords smcResumes
  cases env.trapRegs with
  | error err => exact ⟨[], [], rfl, by simp, by simp, by simp, by simp⟩
  | ok regs =>
    refine ⟨_, _, rfl, fun r hr => ?_, ?_, ?_, fun h => by simp [h]⟩
    · refine not_unhandled_of_kind ?_
      rcases List.mem_append.mp hr with hr | hr
      · rcases smcEnterRecords_kind hr with h | h
        · exact Or.inl h
        · exact Or.inr (Or.inl h)
      · exact Or.inr (smcActRecords_kind hr).symm
    · split <;> simp [TraceRecord.activity, smcRecord]
    · split <;> simp

theorem callback_records_done (lib : Libvmm) (vcpu : Nat) (offset fsr : UInt64) (env : CallEnv)
    (c : Callback) {r : TraceRecord} (hr : r ∈ c.records lib vcpu offset fsr env) :
    r.activity ∧ ¬r.unhandled := by
  cases c with
  | uart gpa =>
    simp only [Callback.records] at hr
    split at hr <;> obtain rfl := List.mem_singleton.mp hr <;>
      exact ⟨Or.inl rfl, by rw [mmioRecord_unhandled]; decide⟩
  | forward fwd =>
    obtain rfl := List.mem_singleton.mp hr
    exact ⟨Or.inl rfl, by rw [mmioRecord_unhandled]; decide⟩
  | libvmm => exact absurd hr List.not_mem_nil

theorem exitRecords_split (b : Build) (vcpu : Nat) (f : Fault) (env : CallEnv) :
    ∃ done last, ExitRecords (exitRecords b vcpu f env) done last (resumes b f env) := by
  unfold exitRecords resumes
  cases smcFaultHsr b.lib f with
  | some hsr => exact smcRecords_split vcpu hsr env
  | none =>
    cases f with
    | vmFault ip addr fsr =>
      refine ⟨_, _, rfl, fun r hr => ?_, ?_, ?_, fun h => by simp [h]⟩
      · unfold accessRecords at hr
        split at hr
        · exact absurd hr List.not_mem_nil
        · split at hr
          · exact callback_records_done _ _ _ _ _ _ hr
          · exact absurd hr List.not_mem_nil
      · split <;> simp [TraceRecord.activity, mmioRecord]
      · split <;> simp
    | vcpuFault hsr => exact ⟨[], [], rfl, by simp, by simp, by simp, by simp⟩
    | other label => exact ⟨[], [], rfl, by simp, by simp, by simp, by simp⟩

theorem exitRecords_activity {b : Build} {vcpu : Nat} {f : Fault} {env : CallEnv}
    {r : TraceRecord} (hr : r ∈ exitRecords b vcpu f env) : r.activity := by
  obtain ⟨done, last, h⟩ := exitRecords_split b vcpu f env
  rw [h.eq] at hr
  rcases List.mem_append.mp hr with hr | hr
  · exact (h.handled r hr).1
  · exact h.refusal r hr

end Vmm
end TensorSel4
