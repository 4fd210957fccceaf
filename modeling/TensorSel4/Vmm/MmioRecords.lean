/-
What the trace says about one memory fault.

The UART emulation, the forwarding handler and the VMM's failure path each emit
the record of the access they deal with.  libvmm's own handlers emit none, so
an access that one of them accepts leaves no record, and
`recorded_once_iff` says that this is the only gap.
-/
import TensorSel4.Vmm.Activity

namespace TensorSel4
namespace Vmm

open Trace

def newRecords (s t : VmmState) : List TraceRecord := t.trace.drop s.trace.length

def newCalls (s t : VmmState) : List Call := t.calls.drop s.calls.length

/-- `r` describes what `handle_fault`, with result `o`, did with the access. -/
structure Describes (b : Build) (s : VmmState) (vcpu : Nat) (addr fsr : UInt64) (env : CallEnv)
    (o : VmmState × Bool) (r : TraceRecord) : Prop where
  address : r.addr = addr
  unhandled : r.flags &&& mmioUnhandled ≠ 0 ↔ o.2 = false
  refused : o.2 = false → r.value = 0
  forwarded : o.2 = true →
    (r.flags &&& mmioForwarded ≠ 0 ↔ ∃ a, Call.deviceRead a ∈ newCalls s o.1)
  device : o.2 = true → r.flags &&& mmioForwarded ≠ 0 → r.value = env.deviceWord.toUInt64
  written : o.2 = true → b.lib.faultIsWrite fsr = true →
    r.value = b.lib.faultGetData env.faultRegs fsr
  /-- The vCPU resumes with the recorded value in the register it reads to. -/
  read : o.2 = true → b.lib.faultIsWrite fsr = false →
    ∃ h, b.handlers.find? (·.covers addr) = some h ∧
      Call.faultAdvanceVcpu vcpu
        (b.lib.faultEmulateWrite env.faultRegs (addr - h.base) fsr r.value) ∈ newCalls s o.1

/-- `handle_fault` emits exactly one MMIO record, and it describes the access. -/
def RecordedOnce (b : Build) (s : VmmState) (vcpu : Nat) (ip addr fsr : UInt64)
    (env : CallEnv) : Prop :=
  ∃ r, (newRecords s (s.handleFault b vcpu (.vmFault ip addr fsr) env).1).filter
      (fun r => r.kind = kindMmio) = [r] ∧
    Describes b s vcpu addr fsr env (s.handleFault b vcpu (.vmFault ip addr fsr) env) r

/-- The access goes to a handler of libvmm's own, which accepts it. -/
def HandledByLibvmm (b : Build) (addr : UInt64) (env : CallEnv) : Prop :=
  ∃ h, b.handlers.find? (·.covers addr) = some h ∧ h.callback = .libvmm ∧
    env.libvmmHandler.isSome = true

/-! ## Accepted accesses -/

/-- The registers an accepted access resumes the vCPU with. -/
def Callback.resumeRegs (lib : Libvmm) (offset fsr : UInt64) (env : CallEnv) :
    Callback → UserContext
  | .uart _ =>
    if lib.faultIsWrite fsr then env.faultRegs
    else lib.faultEmulateWrite env.faultRegs offset fsr ((uartReadValue offset).getD 0).toUInt64
  | .forward _ => lib.faultEmulateWrite env.faultRegs offset fsr env.deviceWord.toUInt64
  | .libvmm => env.libvmmHandler.getD {}

def Callback.calls (offset : UInt64) : Callback → List Call
  | .forward fwd => [.deviceRead (fwd.vmmVaddr + offset)]
  | _ => []

namespace VmmState

theorem callback_accepted {b : Build} {c : Callback} {offset fsr : UInt64} {env : CallEnv}
    (h : c.accepts b.lib offset fsr env = true) (s : VmmState) (vcpu : Nat) :
    (s.callback b c vcpu offset fsr env.faultRegs env).2 =
        some (c.resumeRegs b.lib offset fsr env) ∧
      (s.callback b c vcpu offset fsr env.faultRegs env).1.calls =
        s.calls ++ c.calls offset := by
  cases c with
  | uart gpa =>
    unfold callback uartFault Callback.resumeRegs
    by_cases hw : b.lib.faultIsWrite fsr = true
    · have ho : offset = exynosUartUtxh := by simpa [Callback.accepts, hw] using h
      simp [hw, uartWrite, ho, Callback.calls, mmioTrace, mmioTraceEmit, traceEmit]
    · have hv : (uartReadValue offset).isSome = true := by
        simpa [Callback.accepts, hw] using h
      obtain ⟨val, hval⟩ := Option.isSome_iff_exists.mp hv
      simp [hw, uartRead, hval, Callback.calls, mmioTrace, mmioTraceEmit, traceEmit]
  | forward fwd =>
    simp only [Callback.accepts, Bool.and_eq_true, Bool.not_eq_true', beq_iff_eq] at h
    obtain ⟨⟨hw, hwidth⟩, hoffset⟩ := h
    unfold callback forwardFault forwardAccessSupported
    simp [hw, hwidth, hoffset, Callback.resumeRegs, Callback.calls, mmioTrace, mmioTraceEmit,
      traceEmit, call]
  | libvmm =>
    have hsome : env.libvmmHandler.isSome = true := h
    obtain ⟨regs, hregs⟩ := Option.isSome_iff_exists.mp hsome
    simp [callback, Callback.resumeRegs, Callback.calls, hregs]

/-- The calls of a memory fault that a handler accepts. -/
theorem handleFault_accepted_calls {b : Build} {addr fsr : UInt64} {env : CallEnv}
    {h : VmExceptionHandler} (hfind : b.handlers.find? (·.covers addr) = some h)
    (haccepts : h.callback.accepts b.lib (addr - h.base) fsr env = true) (s : VmmState)
    (vcpu : Nat) (ip : UInt64) :
    newCalls s (s.handleFault b vcpu (.vmFault ip addr fsr) env).1 =
      h.callback.calls (addr - h.base) ++
        [.faultAdvanceVcpu vcpu (h.callback.resumeRegs b.lib (addr - h.base) fsr env)] := by
  obtain ⟨hregs, hcalls⟩ := callback_accepted haccepts s vcpu
  have hresult : (s.handleFault b vcpu (.vmFault ip addr fsr) env).1.calls =
      s.calls ++ (h.callback.calls (addr - h.base) ++
        [.faultAdvanceVcpu vcpu (h.callback.resumeRegs b.lib (addr - h.base) fsr env)]) := by
    simp only [handleFault, faultDispatch, smcFaultHsr, guestFaultHandle, faultHandle,
      vmFaultHandle, hfind]
    rcases hr : s.callback b h.callback vcpu (addr - h.base) fsr env.faultRegs env with ⟨t, regs⟩
    rw [hr] at hregs hcalls
    obtain rfl : regs = some _ := hregs
    show t.calls ++ _ = _
    rw [show t.calls = _ from hcalls, List.append_assoc]
  rw [newCalls, hresult, List.drop_left]

end VmmState

/-! ## The record of an access -/

theorem handler_gpa {b : Build} {h : VmExceptionHandler} (hmem : h ∈ b.handlers) :
    (∀ gpa, h.callback = .uart gpa → gpa = h.base) ∧
      ∀ fwd, h.callback = .forward fwd → fwd.gpa = h.base := by
  simp only [Build.handlers, List.mem_append, List.mem_map, List.mem_cons,
    Option.mem_toList, Option.bind_eq_some_iff, mmioForwardReadOnlyInit,
    Option.ite_none_left_eq_some, Option.some.injEq] at hmem
  rcases hmem with ⟨r, -, rfl⟩ | rfl | ⟨fwd, -, -, rfl⟩
  · exact ⟨fun gpa hc => Callback.noConfusion hc, fun fwd hc => Callback.noConfusion hc⟩
  · exact ⟨fun gpa hc => (Callback.uart.inj hc).symm, fun fwd hc => Callback.noConfusion hc⟩
  · refine ⟨fun gpa hc => Callback.noConfusion hc, fun fwd' hc => ?_⟩
    rw [← Callback.forward.inj hc]

/-- The records of a memory fault, but for the one of the stop. -/
theorem newRecords_mmio (b : Build) (s : VmmState) (vcpu : Nat) (ip addr fsr : UInt64)
    (env : CallEnv) :
    (newRecords s (s.handleFault b vcpu (.vmFault ip addr fsr) env).1).filter
        (fun r => r.kind = kindMmio) =
      (guestFaultRecords b vcpu (.vmFault ip addr fsr) env).filter
        (fun r => r.kind = kindMmio) := by
  cases h : resumes b (.vmFault ip addr fsr) env with
  | true =>
    have htrace := (VmmState.handleFault_resumed h s vcpu).emits.trace
    rw [newRecords, htrace, List.drop_left]
    rfl
  | false =>
    have htrace := (VmmState.handleFault_stopped h s vcpu).trace
    rw [newRecords, htrace, List.append_assoc, List.drop_left, List.filter_append]
    simp [guestRecord, kindGuest, kindMmio, exitRecords, smcFaultHsr]

/-- A refused access. -/
theorem recordedOnce_of_refused {b : Build} {addr fsr : UInt64} {env : CallEnv}
    (h : accessAccepted b addr fsr env = false) (s : VmmState) (vcpu : Nat) (ip : UInt64) :
    RecordedOnce b s vcpu ip addr fsr env := by
  have hresumes : resumes b (.vmFault ip addr fsr) env = false := h
  have hstop := (VmmState.handleFault_stopped hresumes s vcpu).resumed
  have hnone : accessRecords b vcpu addr fsr env = [] := by
    unfold accessRecords
    unfold accessAccepted at h
    split
    · rfl
    · next h' hfind =>
      rw [hfind] at h
      exact if_neg (by simpa using h)
  refine ⟨mmioRecord b.lib vcpu ip addr fsr mmioUnhandled 0, ?_, ?_⟩
  · rw [newRecords_mmio, guestFaultRecords, hnone, h]
    simp [mmioRecord]
  · refine ⟨rfl, ?_, fun _ => rfl, ?_, ?_, ?_, ?_⟩
    · rw [hstop, mmioRecord_flags _ _ _ _ _ _ _ (by decide)]
      decide
    all_goals
      intro htrue
      rw [hstop] at htrue
      exact absurd htrue Bool.false_ne_true

/-- An access accepted by a handler of this repository, from what its record
says. -/
theorem recordedOnce_of_accepted (flags : UInt8) {b : Build} {addr fsr : UInt64} {env : CallEnv}
    {h : VmExceptionHandler} (hfind : b.handlers.find? (·.covers addr) = some h)
    (haccepts : h.callback.accepts b.lib (addr - h.base) fsr env = true)
    {vcpu : Nat} {pc value : UInt64}
    (hrecords : h.callback.records b.lib vcpu (addr - h.base) fsr env =
      [mmioRecord b.lib vcpu pc addr fsr flags value])
    (hflags : flags &&& mmioUnhandled = 0)
    (hforwarded : flags &&& mmioForwarded ≠ 0 ↔
      ∃ a, Call.deviceRead a ∈ h.callback.calls (addr - h.base))
    (hdevice : flags &&& mmioForwarded ≠ 0 → value = env.deviceWord.toUInt64)
    (hwritten : b.lib.faultIsWrite fsr = true → value = b.lib.faultGetData env.faultRegs fsr)
    (hread : b.lib.faultIsWrite fsr = false →
      h.callback.resumeRegs b.lib (addr - h.base) fsr env =
        b.lib.faultEmulateWrite env.faultRegs (addr - h.base) fsr value)
    (s : VmmState) (ip : UInt64) : RecordedOnce b s vcpu ip addr fsr env := by
  have haccepted : accessAccepted b addr fsr env = true := by
    rw [accessAccepted, hfind]
    exact haccepts
  have hresumes : resumes b (.vmFault ip addr fsr) env = true := haccepted
  have hresume : (s.handleFault b vcpu (.vmFault ip addr fsr) env).2 = true :=
    (VmmState.handleFault_resumed hresumes s vcpu).handled
  have hcalls := VmmState.handleFault_accepted_calls hfind haccepts s vcpu ip
  refine ⟨mmioRecord b.lib vcpu pc addr fsr flags value, ?_, rfl, ?_, ?_, fun _ => ?_,
    fun _ hf => ?_, fun _ hw => hwritten hw, fun _ hw => ⟨h, hfind, ?_⟩⟩
  · have haccess : accessRecords b vcpu addr fsr env =
        [mmioRecord b.lib vcpu pc addr fsr flags value] := by
      rw [accessRecords, hfind]
      exact (if_pos haccepts).trans hrecords
    rw [newRecords_mmio, guestFaultRecords, haccess, haccepted]
    simp [mmioRecord]
  · rw [hresume, mmioRecord_flags _ _ _ _ _ _ _ (by decide), hflags]
    simp
  · intro hfalse
    rw [hresume] at hfalse
    exact absurd hfalse.symm Bool.false_ne_true
  · rw [mmioRecord_flags _ _ _ _ _ _ _ (by decide), hcalls, hforwarded]
    simp
  · apply hdevice
    rwa [mmioRecord_flags _ _ _ _ _ _ _ (by decide)] at hf
  · rw [hcalls, hread hw]
    exact List.mem_append_right _ List.mem_cons_self

theorem not_handledByLibvmm {b : Build} {addr : UInt64} {env : CallEnv} {h : VmExceptionHandler}
    (hfind : b.handlers.find? (·.covers addr) = some h) (hc : h.callback ≠ .libvmm) :
    ¬HandledByLibvmm b addr env := by
  rintro ⟨h', hfind', hlibvmm, -⟩
  obtain rfl := Option.some.inj (hfind.symm.trans hfind')
  exact hc hlibvmm

/-- A memory fault is recorded exactly once, truthfully, unless a handler of
libvmm's own accepts it. -/
theorem recorded_once_iff (b : Build) (s : VmmState) (vcpu : Nat) (ip addr fsr : UInt64)
    (env : CallEnv) :
    RecordedOnce b s vcpu ip addr fsr env ↔ ¬HandledByLibvmm b addr env := by
  cases haccepted : accessAccepted b addr fsr env with
  | false =>
    refine iff_of_true (recordedOnce_of_refused haccepted s vcpu ip) ?_
    rintro ⟨h, hfind, hlibvmm, hsome⟩
    rw [accessAccepted, hfind] at haccepted
    dsimp only at haccepted
    rw [hlibvmm] at haccepted
    exact Bool.false_ne_true (haccepted.symm.trans hsome)
  | true =>
    obtain ⟨h, hfind, haccepts⟩ : ∃ h, b.handlers.find? (·.covers addr) = some h ∧
        h.callback.accepts b.lib (addr - h.base) fsr env = true := by
      unfold accessAccepted at haccepted
      split at haccepted
      · exact absurd haccepted Bool.false_ne_true
      · exact ⟨_, ‹_›, haccepted⟩
    obtain ⟨huart, hforward⟩ := handler_gpa (List.mem_of_find?_eq_some hfind)
    cases hc : h.callback with
    | uart gpa =>
      have hgpa : gpa + (addr - h.base) = addr := by rw [huart gpa hc, add_sub_cancel]
      refine iff_of_true ?_ ?_
      · by_cases hw : b.lib.faultIsWrite fsr = true
        · exact recordedOnce_of_accepted 0 hfind haccepts
            (by rw [hc, Callback.records, if_pos hw, hgpa]) (by decide)
            (iff_of_false (by decide) (by simp [hc, Callback.calls]))
            (fun hf => absurd hf (by decide)) (fun _ => rfl)
            (fun hr => absurd (hw.symm.trans hr) (by decide)) s ip
        · exact recordedOnce_of_accepted 0 hfind haccepts
            (by rw [hc, Callback.records, if_neg hw, hgpa]) (by decide)
            (iff_of_false (by decide) (by simp [hc, Callback.calls]))
            (fun hf => absurd hf (by decide)) (fun hw' => absurd hw' hw)
            (fun _ => by rw [hc, Callback.resumeRegs, if_neg hw]) s ip
      · exact not_handledByLibvmm hfind (by rw [hc]; exact Callback.noConfusion)
    | forward fwd =>
      have hgpa : fwd.gpa + (addr - h.base) = addr := by rw [hforward fwd hc, add_sub_cancel]
      refine iff_of_true ?_ ?_
      · have hread : b.lib.faultIsWrite fsr = false := by
          rw [hc] at haccepts
          simp only [Callback.accepts, Bool.and_eq_true, Bool.not_eq_true'] at haccepts
          exact haccepts.1.1
        exact recordedOnce_of_accepted mmioForwarded hfind haccepts
          (by rw [hc, Callback.records, hgpa]) (by decide)
          (iff_of_true (by decide) (by simp [hc, Callback.calls])) (fun _ => rfl)
          (fun hw => absurd (hw.symm.trans hread) (by decide))
          (fun _ => by rw [hc, Callback.resumeRegs]) s ip
      · exact not_handledByLibvmm hfind (by rw [hc]; exact Callback.noConfusion)
    | libvmm =>
      rw [hc] at haccepts
      refine iff_of_false ?_ (not_not_intro ⟨h, hfind, hc, haccepts⟩)
      rintro ⟨r, hr, -⟩
      have haccess : accessRecords b vcpu addr fsr env = [] := by
        unfold accessRecords
        rw [hfind]
        simp [hc, Callback.records]
      rw [newRecords_mmio, guestFaultRecords, haccess, haccepted] at hr
      exact absurd hr (by simp)

/-- The guest reads the virtual distributor's first register, and libvmm emulates
the read. -/
theorem vgic_access_unrecorded :
    ¬RecordedOnce linuxBuild {} 0 0x80000000 0x10400000 0x03800000
      { libvmmHandler := some {} } := by
  rintro ⟨r, hr, -⟩
  have hnone : ([] : List TraceRecord) = [r] := hr
  exact nomatch hnone

end Vmm
end TensorSel4
