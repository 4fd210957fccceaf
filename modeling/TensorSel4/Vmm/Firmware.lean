/-
Which guest SMCs reach EL3.

`microkit_arm_smc_call` appears once in the VMM, in `smc_forward`.  The policy
decides on the function identifier, which the calling convention puts in the
low half of x0, and `smc_forward` passes the whole of x0..x7.
-/
import TensorSel4.Vmm.Boot
import TensorSel4.Vmm.Machine

namespace TensorSel4
namespace Vmm

open Trace

/-- What a call passes to `microkit_arm_smc_call`, if that is what it is. -/
def Call.firmwareRequest : Call → Option SmcContext
  | .armSmcCall request => some request
  | _ => none

/-- The requests that EL3 has received. -/
def VmmState.firmwareRequests (s : VmmState) : List SmcContext :=
  s.calls.filterMap Call.firmwareRequest

/-- An SMC whose registers could be read and whose function identifier is
SMCCC_VERSION: the guest's x0..x7. -/
def versionRequests (b : Build) : Event → List SmcContext
  | .command _ _ => []
  | .exit _ f env =>
    match smcFaultHsr b.lib f, env.trapRegs with
    | some _, .ok regs =>
      if (regs.x 0).toUInt32 = smcccVersionFid then [smcRequest regs] else []
    | _, _ => []

namespace VmmState

/-! ## What each function passes to EL3 -/

@[simp] theorem firmwareRequests_call (s : VmmState) (c : Call) :
    (s.call c).firmwareRequests = s.firmwareRequests ++ c.firmwareRequest.toList := by
  show (s.calls ++ [c]).filterMap _ = _
  rw [List.filterMap_append]
  cases h : c.firmwareRequest <;> simp [firmwareRequests, h]

/-- Calls that are not `microkit_arm_smc_call`. -/
theorem firmwareRequests_of_calls {s t : VmmState} (c : List Call)
    (h : t.calls = s.calls ++ c) (hc : c.filterMap Call.firmwareRequest = []) :
    t.firmwareRequests = s.firmwareRequests := by
  rw [firmwareRequests, h, List.filterMap_append, hc, List.append_nil, firmwareRequests]

@[simp] theorem firmwareRequests_logVmm (s : VmmState) (l : Log) :
    (s.logVmm l).firmwareRequests = s.firmwareRequests := rfl

@[simp] theorem firmwareRequests_traceEmit (s : VmmState) (r : TraceRecord) :
    (s.traceEmit r).firmwareRequests = s.firmwareRequests := rfl

@[simp] theorem firmwareRequests_smcTraceEnter (s : VmmState) (vcpu : Nat) (pc hsr : UInt64)
    (r : UserContext) : (s.smcTraceEnter vcpu pc hsr r).firmwareRequests = s.firmwareRequests := rfl

@[simp] theorem firmwareRequests_smcTraceExit (s : VmmState) (vcpu : Nat) (pc hsr : UInt64)
    (flags : UInt8) (r : UserContext) :
    (s.smcTraceExit vcpu pc hsr flags r).firmwareRequests = s.firmwareRequests := rfl

theorem firmwareRequests_status (s : VmmState) :
    s.guestControlStatus.firmwareRequests = s.firmwareRequests := by
  unfold guestControlStatus
  cases s.state <;> rfl

theorem firmwareRequests_command (b : Build) (s : VmmState) (cmd : CmdEntry) (env : StartEnv) :
    (s.runCommand b cmd env).firmwareRequests = s.firmwareRequests := by
  unfold runCommand
  split
  · by_cases hstate : s.state = .running
    · rw [guestControlStart, if_pos hstate]
      rfl
    · refine firmwareRequests_of_calls _ (guestControlStart_effect s _ _ env hstate).1 ?_
      unfold startCalls
      split
      · rfl
      cases env.load with
      | none => rfl
      | some boot => cases hwrite : env.write <;> rfl
  split
  · unfold guestControlStop
    split
    · exact firmwareRequests_of_calls [.vcpuStop s.runVcpu] rfl rfl
    · exact firmwareRequests_status _
  split
  · exact firmwareRequests_status s
  split
  · unfold guestControlRegs
    split
    · rfl
    · exact firmwareRequests_of_calls [.printRegs s.runVcpu] rfl rfl
  · rfl

theorem firmwareRequests_smcAct (s : VmmState) (vcpu : Nat) (hsr : UInt64) (regs : UserContext)
    (env : CallEnv) : (s.smcAct vcpu hsr regs env).1.firmwareRequests = s.firmwareRequests ++
      if (regs.x 0).toUInt32 = smcccVersionFid then [smcRequest regs] else [] := by
  unfold smcAct
  cases hpolicy : smcPolicy (regs.x 0).toUInt32 with
  | emulatePsci =>
    have hfid : (regs.x 0).toUInt32 ≠ smcccVersionFid := by
      intro h
      rw [smcPolicy_forward.mpr h] at hpolicy
      exact SmcAction.noConfusion hpolicy
    rw [if_neg hfid, List.append_nil]
    unfold smcEmulatePsci
    dsimp only
    split
    · rfl
    · cases env.psciRegs <;> rfl
  | forward =>
    rw [if_pos (smcPolicy_forward.mp hpolicy)]
    unfold smcForwardAndResume
    dsimp only
    split <;> simp [Call.firmwareRequest]
  | unhandled =>
    have hfid : (regs.x 0).toUInt32 ≠ smcccVersionFid := by
      intro h
      rw [smcPolicy_forward.mpr h] at hpolicy
      exact SmcAction.noConfusion hpolicy
    rw [if_neg hfid, List.append_nil]

theorem firmwareRequests_smcPolicyHandle (s : VmmState) (vcpu : Nat) (hsr : UInt64)
    (env : CallEnv) : (s.smcPolicyHandle vcpu hsr env).1.firmwareRequests = s.firmwareRequests ++
      match env.trapRegs with
      | .error _ => []
      | .ok regs =>
        if (regs.x 0).toUInt32 = smcccVersionFid then [smcRequest regs] else [] := by
  unfold smcPolicyHandle
  cases env.trapRegs with
  | error err => exact (List.append_nil _).symm
  | ok regs =>
    have h := firmwareRequests_smcAct (s.smcTraceEnter vcpu regs.pc hsr regs) vcpu hsr regs env
    rw [firmwareRequests_smcTraceEnter] at h
    dsimp only [readRegs]
    rcases hr : (s.smcTraceEnter vcpu regs.pc hsr regs).smcAct vcpu hsr regs env with ⟨t, handled⟩
    rw [hr] at h
    cases handled <;> exact h

theorem firmwareRequests_callback (b : Build) (s : VmmState) (c : Callback) (vcpu : Nat)
    (offset fsr : UInt64) (regs : UserContext) (env : CallEnv) :
    (s.callback b c vcpu offset fsr regs env).1.firmwareRequests = s.firmwareRequests := by
  cases c with
  | uart gpa =>
    unfold callback uartFault
    dsimp only
    split
    · unfold uartWrite
      split <;> rfl
    · unfold uartRead
      cases uartReadValue offset <;> rfl
  | forward fwd =>
    unfold callback forwardFault forwardAccessSupported
    dsimp only
    split
    · next h =>
      split at h
      · obtain rfl := (Prod.mk.inj h).1
        rfl
      · split at h
        · obtain rfl := (Prod.mk.inj h).1
          rfl
        · exact absurd (Prod.mk.inj h).2 (by decide)
    · next h =>
      split at h
      · exact absurd (Prod.mk.inj h).2 (by decide)
      · split at h
        · exact absurd (Prod.mk.inj h).2 (by decide)
        · obtain rfl := (Prod.mk.inj h).1
          exact firmwareRequests_of_calls [.deviceRead (fwd.vmmVaddr + offset)] rfl rfl
  | libvmm => rfl

theorem firmwareRequests_guestFault (b : Build) (s : VmmState) (vcpu : Nat) (f : Fault)
    (env : CallEnv) : (s.guestFaultHandle b vcpu f env).1.firmwareRequests =
      s.firmwareRequests := by
  have hfault : (s.faultHandle b vcpu f env).1.firmwareRequests = s.firmwareRequests := by
    unfold faultHandle
    cases f with
    | vmFault ip addr fsr =>
      dsimp only
      unfold vmFaultHandle
      cases b.handlers.find? (·.covers addr) with
      | none => rfl
      | some h =>
        have hc := firmwareRequests_callback b s h.callback vcpu (addr - h.base) fsr
          env.faultRegs env
        dsimp only
        rcases hr : s.callback b h.callback vcpu (addr - h.base) fsr env.faultRegs env
          with ⟨t, regs⟩
        rw [hr] at hc
        cases regs with
        | none => exact hc
        | some regs => simpa [Call.firmwareRequest] using hc
    | vcpuFault hsr => rfl
    | other label => rfl
  unfold guestFaultHandle
  rcases hr : s.faultHandle b vcpu f env with ⟨t, handled⟩
  rw [hr] at hfault
  cases handled with
  | true => exact hfault
  | false => cases f <;> exact hfault

theorem firmwareRequests_handleFault (b : Build) (s : VmmState) (vcpu : Nat) (f : Fault)
    (env : CallEnv) : (s.handleFault b vcpu f env).1.firmwareRequests =
      s.firmwareRequests ++ versionRequests b (.exit vcpu f env) := by
  have hdispatch : (s.faultDispatch b vcpu f env).1.1.firmwareRequests =
      s.firmwareRequests ++ versionRequests b (.exit vcpu f env) := by
    unfold faultDispatch versionRequests
    dsimp only
    cases hf : smcFaultHsr b.lib f with
    | none =>
      dsimp only
      rw [List.append_nil]
      exact firmwareRequests_guestFault b s vcpu f env
    | some hsr =>
      have h := firmwareRequests_smcPolicyHandle s vcpu hsr env
      cases htrap : env.trapRegs <;> rw [htrap] at h <;> exact h
  unfold handleFault
  rcases hr : s.faultDispatch b vcpu f env with ⟨⟨t, handled⟩, stop⟩
  rw [hr] at hdispatch
  cases handled with
  | true => exact hdispatch
  | false =>
    rw [← hdispatch]
    show (t.guestControlFaultStopped vcpu stop env.stopRegs).firmwareRequests = _
    unfold guestControlFaultStopped
    cases env.stopRegs with
    | error err => exact firmwareRequests_of_calls [.vcpuStop vcpu] rfl rfl
    | ok regs => exact firmwareRequests_of_calls [.vcpuStop vcpu] rfl rfl

theorem step_firmwareRequests {b : Build} {s t : VmmState} {e : Event}
    (hs : s.step b e = some t) :
    t.firmwareRequests = s.firmwareRequests ++ versionRequests b e := by
  cases e with
  | command cmd env =>
    obtain rfl := Option.some.inj hs
    rw [firmwareRequests_command]
    exact (List.append_nil _).symm
  | exit vcpu f env =>
    simp only [step, Option.ite_none_right_eq_some, Option.some.injEq] at hs
    obtain ⟨-, rfl⟩ := hs
    exact firmwareRequests_handleFault b s vcpu f env

end VmmState

theorem versionRequests_fid {b : Build} {e : Event} {q : SmcContext}
    (hq : q ∈ versionRequests b e) : (q 0).toUInt32 = smcccVersionFid := by
  cases e with
  | command cmd env => exact absurd hq List.not_mem_nil
  | exit vcpu f env =>
    simp only [versionRequests] at hq
    split at hq
    · split at hq
      · next hfid =>
        obtain rfl := List.mem_singleton.mp hq
        exact hfid
      · exact absurd hq List.not_mem_nil
    · exact absurd hq List.not_mem_nil

/-- In every run, EL3 receives exactly the guest's SMCs whose function identifier
is SMCCC_VERSION, each once, in order and with the guest's x0..x7. -/
theorem only_version_reaches_firmware {b : Build} {es : List Event} {s : VmmState}
    (hr : (vmm b).Reaches (vmm b).start es s) :
    s.firmwareRequests = es.flatMap (versionRequests b) ∧
      ∀ q ∈ s.firmwareRequests, (q 0).toUInt32 = smcccVersionFid := by
  have hall : s.firmwareRequests = es.flatMap (versionRequests b) := by
    induction es using List.reverseRecOn generalizing s with
    | nil =>
      rw [Automaton.reaches_nil] at hr
      exact hr ▸ rfl
    | append_singleton es e ih =>
      obtain ⟨t, ht, hstep⟩ := (Automaton.reaches_snoc _).mp hr
      rw [VmmState.step_firmwareRequests hstep, ih ht, List.flatMap_append, List.flatMap_singleton]
  refine ⟨hall, fun q hq => ?_⟩
  rw [hall] at hq
  obtain ⟨e, -, hq⟩ := List.mem_flatMap.mp hq
  exact versionRequests_fid hq

/-- An SMC with the given x0. -/
def smcExit (x0 : UInt64) : Event :=
  .exit 0 (.vcpuFault 0x5c000000)
    { trapRegs := .ok { x := Function.update (fun _ => 0) 0 x0 } }

theorem only_version_reaches_firmware_smc : ∃ s,
    (vmm linuxBuild).Reaches (vmm linuxBuild).start [linuxStart, smcExit 0x80000000] s ∧
      s.firmwareRequests.length = 1 ∧
      ∀ q ∈ s.firmwareRequests, (q 0).toUInt32 = smcccVersionFid := by
  have hr : (vmm linuxBuild).Reaches (vmm linuxBuild).start [linuxStart, smcExit 0x80000000] _ :=
    rfl
  exact ⟨_, hr, rfl, (only_version_reaches_firmware hr).2⟩

/-- The upper half of x0 is not looked at, and passed on. -/
theorem wide_x0_reaches_firmware : ∃ s,
    (vmm linuxBuild).Reaches (vmm linuxBuild).start [linuxStart, smcExit 0x180000000] s ∧
      ∃ q ∈ s.firmwareRequests, q 0 ≠ 0x80000000 :=
  ⟨_, rfl, _, List.mem_cons_self, by decide⟩

end Vmm
end TensorSel4
