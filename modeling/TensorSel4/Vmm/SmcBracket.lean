/-
What the trace says about one guest SMC.

`FaithfulBracket` is the documented shape of a call's records together with the
meaning of their registers.  `smc_policy_handle` keeps it on every path but one.
A forwarded call is recorded as FORWARDED before `fault_advance_vcpu` has
succeeded, so where that fails the call gets a second EXIT, which is UNHANDLED.
-/
import TensorSel4.Vmm.MmioRecords

namespace TensorSel4
namespace Vmm

open Trace

theorem firstEight_le : 8 ≤ 31 := by decide

/-- The registers x0..x7. -/
def UserContext.firstEight (regs : UserContext) : SmcContext :=
  fun i => regs.x (i.castLE firstEight_le)

/-- The registers that an ENTER or EXIT record and the SMC_REGS records after it
show: two in each record. -/
def shownRegs (r : TraceRecord) (rs : List TraceRecord) : SmcContext := fun i =>
  let q := (r :: rs).getD (i.val / 2) {}
  if i.val % 2 = 0 then q.addr else q.value

/-- SMC_REGS records for x2, x4 and x6, with the given flags. -/
def ShowsRegs (flags : UInt8) (rs : List TraceRecord) : Prop :=
  rs.map (fun r => (r.kind, r.size, r.flags)) =
    [(kindSmcRegs, 2, flags), (kindSmcRegs, 4, flags), (kindSmcRegs, 6, flags)]

def Call.advancedRegs : Call → Option UserContext
  | .faultAdvanceVcpu _ regs => some regs
  | _ => none

/-- The registers the guest resumes with: those that `fault_advance_vcpu` wrote
back, or else those that `smc_handle` left in the vCPU. -/
def resumedRegs (calls : List Call) (env : CallEnv) : Option UserContext :=
  match calls.filterMap Call.advancedRegs with
  | regs :: _ => some regs
  | [] => env.psciRegs.toOption

/-- The records of a call with trapped registers `regs`, during which `calls`
were made, and which `smc_policy_handle` reported as `handled`. -/
structure IsBracket (regs : UserContext) (hsr : UInt64) (env : CallEnv) (calls : List Call)
    (handled : Bool) (enter : TraceRecord) (inputs : List TraceRecord) (exit : TraceRecord)
    (outputs : List TraceRecord) : Prop where
  enter_kind : enter.kind = kindSmcEnter
  inputs_kind : ShowsRegs 0 inputs
  exit_kind : exit.kind = kindSmcExit
  outputs_kind : outputs = [] ∨ ShowsRegs smcRegsExit outputs
  /-- The outputs are there unless EXIT is UNHANDLED. -/
  outputs_iff : outputs ≠ [] ↔ exit.flags &&& smcUnhandled = 0
  same : ∀ r ∈ enter :: inputs ++ exit :: outputs, r.pc = regs.pc ∧ r.esr = hsr.toUInt32
  trapped : shownRegs enter inputs = regs.firstEight
  received : ∀ q, Call.armSmcCall q ∈ calls → q = shownRegs enter inputs
  resumed : handled = true →
    ∃ r, resumedRegs calls env = some r ∧ shownRegs exit outputs = r.firstEight
  unhandled : exit.flags &&& smcUnhandled ≠ 0 ↔ handled = false

/-- `smc_policy_handle`, with result `o`, emitted one bracket for the call. -/
def FaithfulBracket (s : VmmState) (regs : UserContext) (hsr : UInt64) (env : CallEnv)
    (o : VmmState × Bool) : Prop :=
  ∃ enter inputs exit outputs,
    newRecords s o.1 = enter :: inputs ++ exit :: outputs ∧
      IsBracket regs hsr env (newCalls s o.1) o.2 enter inputs exit outputs

/-! ## Lists of records -/

theorem shownRegs_records {c : SmcContext} {r r₂ r₄ r₆ : TraceRecord}
    (h : r.addr = c 0 ∧ r.value = c 1) (h₂ : r₂.addr = c 2 ∧ r₂.value = c 3)
    (h₄ : r₄.addr = c 4 ∧ r₄.value = c 5) (h₆ : r₆.addr = c 6 ∧ r₆.value = c 7) :
    shownRegs r [r₂, r₄, r₆] = c := by
  funext i
  match i with
  | 0 => exact h.1
  | 1 => exact h.2
  | 2 => exact h₂.1
  | 3 => exact h₂.2
  | 4 => exact h₄.1
  | 5 => exact h₄.2
  | 6 => exact h₆.1
  | 7 => exact h₆.2

theorem smcRegsRecords_shows (vcpu : Nat) (pc hsr : UInt64) (flags : UInt8) (r : UserContext) :
    ShowsRegs flags (smcRegsRecords vcpu pc hsr flags r) := rfl

theorem shownRegs_smcRecord (kind : UInt8) (vcpu : Nat) (pc hsr : UInt64)
    (flags regsFlags : UInt8) (r : UserContext) :
    shownRegs (smcRecord kind vcpu pc hsr flags 0 (r.x 0) (r.x 1))
      (smcRegsRecords vcpu pc hsr regsFlags r) = r.firstEight :=
  shownRegs_records ⟨rfl, rfl⟩ ⟨rfl, rfl⟩ ⟨rfl, rfl⟩ ⟨rfl, rfl⟩

theorem smcRegsRecords_same {vcpu : Nat} {pc hsr : UInt64} {flags : UInt8} {regs : UserContext}
    {r : TraceRecord} (hr : r ∈ smcRegsRecords vcpu pc hsr flags regs) :
    r.pc = pc ∧ r.esr = hsr.toUInt32 := by
  simp only [smcRegsRecords, List.mem_cons, List.not_mem_nil, or_false] at hr
  rcases hr with rfl | rfl | rfl <;> exact ⟨rfl, rfl⟩

/-- The call is forwarded to EL3 and `fault_advance_vcpu` then fails. -/
def AdvanceFails (regs : UserContext) (env : CallEnv) : Prop :=
  (regs.x 0).toUInt32 = smcccVersionFid ∧ env.advance = false

/-! ## The calls of an SMC -/

/-- The calls made between a call's ENTER records and its last EXIT. -/
def smcCalls (vcpu : Nat) (regs : UserContext) (env : CallEnv) : List Call :=
  if smcPolicy (regs.x 0).toUInt32 = .forward then
    .armSmcCall (smcRequest regs) ::
      if env.advance then [.faultAdvanceVcpu vcpu (smcResponse regs env.response)] else []
  else []

namespace VmmState

theorem smcAct_calls (s : VmmState) (vcpu : Nat) (hsr : UInt64) (regs : UserContext)
    (env : CallEnv) : (s.smcAct vcpu hsr regs env).1.calls = s.calls ++ smcCalls vcpu regs env := by
  unfold smcAct smcCalls
  cases smcPolicy (regs.x 0).toUInt32 with
  | emulatePsci =>
    rw [if_neg SmcAction.noConfusion, List.append_nil]
    unfold smcEmulatePsci
    dsimp only
    split
    · rfl
    · cases env.psciRegs <;> rfl
  | forward =>
    rw [if_pos rfl]
    unfold smcForwardAndResume
    cases env.advance with
    | false => rfl
    | true => exact List.append_assoc s.calls _ _
  | unhandled =>
    rw [if_neg SmcAction.noConfusion, List.append_nil]

theorem smcPolicyHandle_calls {env : CallEnv} {regs : UserContext} (htrap : env.trapRegs = .ok regs)
    (s : VmmState) (vcpu : Nat) (hsr : UInt64) :
    (s.smcPolicyHandle vcpu hsr env).1.calls = s.calls ++ smcCalls vcpu regs env := by
  have h := smcAct_calls (s.smcTraceEnter vcpu regs.pc hsr regs) vcpu hsr regs env
  unfold smcPolicyHandle
  rw [htrap]
  dsimp only [readRegs]
  rcases hr : (s.smcTraceEnter vcpu regs.pc hsr regs).smcAct vcpu hsr regs env with ⟨t, handled⟩
  rw [hr] at h
  cases handled <;> exact h

end VmmState

/-! ## The bracket -/

section

variable {env : CallEnv} {regs : UserContext} (htrap : env.trapRegs = .ok regs) (s : VmmState)
  (vcpu : Nat) (hsr : UInt64)

include htrap

theorem newCalls_smc : newCalls s (s.smcPolicyHandle vcpu hsr env).1 = smcCalls vcpu regs env := by
  rw [newCalls, VmmState.smcPolicyHandle_calls htrap, List.drop_left]

theorem newRecords_smc : newRecords s (s.smcPolicyHandle vcpu hsr env).1 =
    smcEnterRecords vcpu regs.pc hsr regs ++ smcActRecords vcpu hsr regs env ++
      if smcHandled regs env then []
      else [smcRecord kindSmcExit vcpu regs.pc hsr smcUnhandled 0 0 0] := by
  rw [newRecords, (VmmState.smcPolicyHandle_outcome s vcpu hsr env).emits.trace, List.drop_left,
    smcRecords, htrap]

theorem smcPolicyHandle_handled :
    (s.smcPolicyHandle vcpu hsr env).2 = smcHandled regs env := by
  rw [(VmmState.smcPolicyHandle_outcome s vcpu hsr env).handled, smcResumes, htrap]

/-- A call that is resumed with the registers its EXIT records show. -/
theorem faithfulBracket_of_exit {flags : UInt8} {r : UserContext}
    (hflags : flags &&& smcUnhandled = 0) (hhandled : smcHandled regs env = true)
    (hrecords : smcActRecords vcpu hsr regs env = smcExitRecords vcpu regs.pc hsr flags r)
    (hresumed : resumedRegs (smcCalls vcpu regs env) env = some r) :
    FaithfulBracket s regs hsr env (s.smcPolicyHandle vcpu hsr env) := by
  refine ⟨smcRecord kindSmcEnter vcpu regs.pc hsr 0 0 (regs.x 0) (regs.x 1),
    smcRegsRecords vcpu regs.pc hsr 0 regs,
    smcRecord kindSmcExit vcpu regs.pc hsr flags 0 (r.x 0) (r.x 1),
    smcRegsRecords vcpu regs.pc hsr smcRegsExit r, ?_, ?_⟩
  · rw [newRecords_smc htrap, hhandled, if_pos rfl, List.append_nil, hrecords]
    rfl
  · rw [newCalls_smc htrap, smcPolicyHandle_handled htrap, hhandled]
    refine
      { enter_kind := rfl
        inputs_kind := smcRegsRecords_shows vcpu regs.pc hsr 0 regs
        exit_kind := rfl
        outputs_kind := Or.inr (smcRegsRecords_shows vcpu regs.pc hsr smcRegsExit r)
        outputs_iff := iff_of_true (List.cons_ne_nil _ _) hflags
        same := fun q hq => ?_
        trapped := shownRegs_smcRecord _ vcpu regs.pc hsr 0 0 regs
        received := fun q hq => ?_
        resumed := fun _ => ⟨r, hresumed, shownRegs_smcRecord _ vcpu regs.pc hsr flags _ r⟩
        unhandled := iff_of_false (fun h => h hflags) (by decide) }
    · rcases List.mem_append.mp hq with hq | hq
      · rcases List.mem_cons.mp hq with rfl | hq
        · exact ⟨rfl, rfl⟩
        · exact smcRegsRecords_same hq
      · rcases List.mem_cons.mp hq with rfl | hq
        · exact ⟨rfl, rfl⟩
        · exact smcRegsRecords_same hq
    · rw [shownRegs_smcRecord]
      unfold smcCalls at hq
      split at hq
      · rcases List.mem_cons.mp hq with hq | hq
        · exact Call.armSmcCall.inj hq
        · split at hq
          · exact absurd (List.mem_singleton.mp hq) Call.noConfusion
          · exact absurd hq List.not_mem_nil
      · exact absurd hq List.not_mem_nil

/-- A call that is refused before anything was recorded as its result. -/
theorem faithfulBracket_of_refusal (hhandled : smcHandled regs env = false)
    (hrecords : smcActRecords vcpu hsr regs env = [])
    (hcalls : smcCalls vcpu regs env = []) :
    FaithfulBracket s regs hsr env (s.smcPolicyHandle vcpu hsr env) := by
  refine ⟨smcRecord kindSmcEnter vcpu regs.pc hsr 0 0 (regs.x 0) (regs.x 1),
    smcRegsRecords vcpu regs.pc hsr 0 regs,
    smcRecord kindSmcExit vcpu regs.pc hsr smcUnhandled 0 0 0, [], ?_, ?_⟩
  · rw [newRecords_smc htrap, hhandled, if_neg Bool.false_ne_true, hrecords, List.append_nil]
    rfl
  · have hset : smcUnhandled &&& smcUnhandled ≠ 0 := by decide
    rw [newCalls_smc htrap, smcPolicyHandle_handled htrap, hhandled, hcalls]
    refine
      { enter_kind := rfl
        inputs_kind := smcRegsRecords_shows vcpu regs.pc hsr 0 regs
        exit_kind := rfl
        outputs_kind := Or.inl rfl
        outputs_iff := iff_of_false (fun h => h rfl) hset
        same := fun q hq => ?_
        trapped := shownRegs_smcRecord _ vcpu regs.pc hsr 0 0 regs
        received := fun q hq => absurd hq List.not_mem_nil
        resumed := fun h => absurd h Bool.false_ne_true
        unhandled := iff_of_true hset rfl }
    rcases List.mem_append.mp hq with hq | hq
    · rcases List.mem_cons.mp hq with rfl | hq
      · exact ⟨rfl, rfl⟩
      · exact smcRegsRecords_same hq
    · obtain rfl := List.mem_singleton.mp hq
      exact ⟨rfl, rfl⟩

/-- The second EXIT of a call that cannot be resumed. -/
theorem not_faithfulBracket_of_advanceFails (hpolicy : smcPolicy (regs.x 0).toUInt32 = .forward)
    (hadvance : env.advance = false) :
    ¬FaithfulBracket s regs hsr env (s.smcPolicyHandle vcpu hsr env) := by
  rintro ⟨enter, inputs, exit, outputs, hrecords, h⟩
  have hhandled : smcHandled regs env = false := by
    rw [smcHandled, hpolicy]
    exact hadvance
  have hexit := h.unhandled.mpr (by rw [smcPolicyHandle_handled htrap, hhandled])
  have houtputs : outputs = [] := by
    by_contra hne
    exact hexit (h.outputs_iff.mp hne)
  have hinputs : inputs.length = 3 := by
    have hlen := congrArg List.length h.inputs_kind
    rw [List.length_map] at hlen
    exact hlen
  have hlen := congrArg List.length hrecords
  rw [newRecords_smc htrap, hhandled, if_neg Bool.false_ne_true, smcActRecords, hpolicy,
    houtputs] at hlen
  simp only [List.length_append, List.length_cons, List.length_nil, smcEnterRecords,
    smcExitRecords, smcRegsRecords] at hlen
  omega

end

/-- One SMC leaves one faithful bracket in the trace, exactly unless it was
forwarded and `fault_advance_vcpu` failed. -/
theorem smc_bracket_iff {env : CallEnv} {regs : UserContext} (htrap : env.trapRegs = .ok regs)
    (s : VmmState) (vcpu : Nat) (hsr : UInt64) :
    FaithfulBracket s regs hsr env (s.smcPolicyHandle vcpu hsr env) ↔ ¬AdvanceFails regs env := by
  cases hpolicy : smcPolicy (regs.x 0).toUInt32 with
  | emulatePsci =>
    have hfid : ¬AdvanceFails regs env := fun h => by
      rw [h.1] at hpolicy
      exact absurd hpolicy (by decide)
    refine iff_of_true ?_ hfid
    have hcalls : smcCalls vcpu regs env = [] := by
      rw [smcCalls, hpolicy, if_neg SmcAction.noConfusion]
    have hhandled : smcHandled regs env = (env.smcHandle && env.psciRegs.toOption.isSome) := by
      rw [smcHandled, hpolicy]
    cases hsmc : env.smcHandle with
    | false =>
      rw [hsmc] at hhandled
      refine faithfulBracket_of_refusal htrap s vcpu hsr hhandled ?_ hcalls
      simp only [smcActRecords, hpolicy, hsmc]
    | true =>
      rw [hsmc] at hhandled
      cases hregs : env.psciRegs with
      | error err =>
        rw [hregs] at hhandled
        refine faithfulBracket_of_refusal htrap s vcpu hsr hhandled ?_ hcalls
        simp only [smcActRecords, hpolicy, hsmc, hregs]
      | ok r =>
        rw [hregs] at hhandled
        have hrecords : smcActRecords vcpu hsr regs env =
            smcExitRecords vcpu regs.pc hsr 0 r := by
          simp only [smcActRecords, hpolicy, hsmc, hregs]
        refine faithfulBracket_of_exit htrap s vcpu hsr rfl hhandled hrecords ?_
        rw [hcalls, resumedRegs, hregs]
        rfl
  | forward =>
    have hfid : (regs.x 0).toUInt32 = smcccVersionFid := by
      unfold smcPolicy at hpolicy
      by_contra hne
      rw [if_neg hne] at hpolicy
      split at hpolicy <;> exact SmcAction.noConfusion hpolicy
    cases hadvance : env.advance with
    | false =>
      refine iff_of_false ?_ (fun h => h ⟨hfid, hadvance⟩)
      exact not_faithfulBracket_of_advanceFails htrap s vcpu hsr hpolicy hadvance
    | true =>
      refine iff_of_true ?_ fun h => absurd (hadvance.symm.trans h.2) (by decide)
      have hrecords : smcActRecords vcpu hsr regs env =
          smcExitRecords vcpu regs.pc hsr smcForwarded (smcResponse regs env.response) := by
        rw [smcActRecords, hpolicy]
      refine faithfulBracket_of_exit htrap s vcpu hsr (by decide) ?_ hrecords ?_
      · rw [smcHandled, hpolicy]
        exact hadvance
      · rw [smcCalls, if_pos hpolicy, hadvance]
        rfl
  | unhandled =>
    have hfid : ¬AdvanceFails regs env := fun h => by
      rw [h.1] at hpolicy
      exact absurd hpolicy (by decide)
    refine iff_of_true ?_ hfid
    refine faithfulBracket_of_refusal htrap s vcpu hsr ?_ ?_ ?_
    · rw [smcHandled, hpolicy]
    · rw [smcActRecords, hpolicy]
    · rw [smcCalls, hpolicy, if_neg SmcAction.noConfusion]

/-- The trap of an SMCCC_VERSION call. -/
def versionEnv : CallEnv :=
  { trapRegs := .ok { x := Function.update (fun _ => 0) 0 0x80000000 } }

theorem smc_bracket_iff_version :
    FaithfulBracket {} { x := Function.update (fun _ => 0) 0 0x80000000 } 0x5c000000 versionEnv
      (VmmState.smcPolicyHandle {} 0 0x5c000000 versionEnv) := by
  have htrap : versionEnv.trapRegs =
      .ok { x := Function.update (fun _ => 0) 0 0x80000000 } := rfl
  exact (smc_bracket_iff htrap {} 0 0x5c000000).mpr fun h => absurd h.2 (by decide)

/-- The forwarded call whose vCPU cannot be advanced has two EXITs. -/
theorem forwarded_then_refused :
    ((newRecords {} (VmmState.smcPolicyHandle {} 0 0x5c000000
        { versionEnv with advance := false }).1).filter (fun r => r.kind = kindSmcExit)).map
          (fun r => r.flags) = [smcForwarded, smcUnhandled] ∧
      ¬FaithfulBracket {} { x := Function.update (fun _ => 0) 0 0x80000000 } 0x5c000000
        { versionEnv with advance := false }
        (VmmState.smcPolicyHandle {} 0 0x5c000000 { versionEnv with advance := false }) :=
  ⟨by decide, not_faithfulBracket_of_advanceFails rfl {} 0 0x5c000000 (by decide) rfl⟩

end Vmm
end TensorSel4
