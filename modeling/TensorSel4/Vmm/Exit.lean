/-
What one guest exit does.

Whether the VMM resumes the vCPU (`resumes`), which vCPUs are on afterwards
(`powerAfter`) and which records the handlers emit depend on the exit and on the
outcomes of the calls, not on the VMM's state.  `handleFault_resumed` and
`handleFault_stopped` state the effect of an exit in these terms, and the
results about runs use only those two.
-/
import TensorSel4.Vmm.Machine

namespace TensorSel4
namespace Vmm

open Trace

/-! ## The handlers' answers -/

def smcHandled (regs : UserContext) (env : CallEnv) : Bool :=
  match smcPolicy (regs.x 0).toUInt32 with
  | .emulatePsci => env.smcHandle && env.psciRegs.toOption.isSome
  | .forward => env.advance
  | .unhandled => false

def smcResumes (env : CallEnv) : Bool :=
  match env.trapRegs with
  | .error _ => false
  | .ok regs => smcHandled regs env

def Callback.accepts (lib : Libvmm) (offset fsr : UInt64) (env : CallEnv) : Callback → Bool
  | .uart _ =>
    if lib.faultIsWrite fsr then offset = exynosUartUtxh else (uartReadValue offset).isSome
  | .forward _ =>
    !lib.faultIsWrite fsr && lib.faultGetWidthBytes fsr == 4 && offset &&& 3 == 0
  | .libvmm => env.libvmmHandler.isSome

def accessAccepted (b : Build) (addr fsr : UInt64) (env : CallEnv) : Bool :=
  match b.handlers.find? (·.covers addr) with
  | none => false
  | some h => h.callback.accepts b.lib (addr - h.base) fsr env

/-- Whether `handle_fault` resumes the vCPU. -/
def resumes (b : Build) (f : Fault) (env : CallEnv) : Bool :=
  match smcFaultHsr b.lib f with
  | some _ => smcResumes env
  | none =>
    match f with
    | .vmFault _ addr fsr => accessAccepted b addr fsr env
    | _ => env.libvmmHandler.isSome

/-- The exit is an SMC that the policy hands to `smc_handle`. -/
def psciCall (b : Build) (f : Fault) (env : CallEnv) : Bool :=
  match smcFaultHsr b.lib f, env.trapRegs with
  | some _, .ok regs => smcPolicy (regs.x 0).toUInt32 = .emulatePsci
  | _, _ => false

/-- The vCPUs that are on once the exit's handler is done. -/
def powerAfter (b : Build) (on : Nat → Bool) (f : Fault) (env : CallEnv) : Nat → Bool :=
  if psciCall b f env then env.powered else on

/-- The program counter in the STOPPED_BY_FAULT record. -/
def stopPc (env : CallEnv) : UInt64 :=
  match env.stopRegs with
  | .error _ => 0
  | .ok regs => regs.pc

/-! ## The records of an exit -/

def smcRegsRecords (vcpu : Nat) (pc hsr : UInt64) (flags : UInt8) (r : UserContext) :
    List TraceRecord :=
  [smcRecord kindSmcRegs vcpu pc hsr flags 2 (r.x 2) (r.x 3),
   smcRecord kindSmcRegs vcpu pc hsr flags 4 (r.x 4) (r.x 5),
   smcRecord kindSmcRegs vcpu pc hsr flags 6 (r.x 6) (r.x 7)]

def smcEnterRecords (vcpu : Nat) (pc hsr : UInt64) (r : UserContext) : List TraceRecord :=
  smcRecord kindSmcEnter vcpu pc hsr 0 0 (r.x 0) (r.x 1) :: smcRegsRecords vcpu pc hsr 0 r

def smcExitRecords (vcpu : Nat) (pc hsr : UInt64) (flags : UInt8) (r : UserContext) :
    List TraceRecord :=
  smcRecord kindSmcExit vcpu pc hsr flags 0 (r.x 0) (r.x 1) ::
    smcRegsRecords vcpu pc hsr smcRegsExit r

/-- The records between a call's inputs and the refusal, if it is refused. -/
def smcActRecords (vcpu : Nat) (hsr : UInt64) (regs : UserContext) (env : CallEnv) :
    List TraceRecord :=
  match smcPolicy (regs.x 0).toUInt32 with
  | .emulatePsci =>
    match env.smcHandle, env.psciRegs with
    | true, .ok r => smcExitRecords vcpu regs.pc hsr 0 r
    | _, _ => []
  | .forward =>
    smcExitRecords vcpu regs.pc hsr smcForwarded (smcResponse regs env.response)
  | .unhandled => []

/-- The records of one guest SMC. -/
def smcRecords (vcpu : Nat) (hsr : UInt64) (env : CallEnv) : List TraceRecord :=
  match env.trapRegs with
  | .error _ => []
  | .ok regs =>
    smcEnterRecords vcpu regs.pc hsr regs ++ smcActRecords vcpu hsr regs env ++
      if smcHandled regs env then []
      else [smcRecord kindSmcExit vcpu regs.pc hsr smcUnhandled 0 0 0]

/-- The record of an access that a handler accepted. -/
def Callback.records (lib : Libvmm) (vcpu : Nat) (offset fsr : UInt64) (env : CallEnv) :
    Callback → List TraceRecord
  | .uart gpa =>
    if lib.faultIsWrite fsr then
      [mmioRecord lib vcpu env.faultRegs.pc (gpa + offset) fsr 0
        (lib.faultGetData env.faultRegs fsr)]
    else
      let val := ((uartReadValue offset).getD 0).toUInt64
      [mmioRecord lib vcpu (lib.faultEmulateWrite env.faultRegs offset fsr val).pc (gpa + offset)
        fsr 0 val]
  | .forward fwd =>
    let val := env.deviceWord.toUInt64
    [mmioRecord lib vcpu (lib.faultEmulateWrite env.faultRegs offset fsr val).pc
      (fwd.gpa + offset) fsr mmioForwarded val]
  | .libvmm => []

def accessRecords (b : Build) (vcpu : Nat) (addr fsr : UInt64) (env : CallEnv) :
    List TraceRecord :=
  match b.handlers.find? (·.covers addr) with
  | none => []
  | some h =>
    if h.callback.accepts b.lib (addr - h.base) fsr env then
      h.callback.records b.lib vcpu (addr - h.base) fsr env
    else []

def guestFaultRecords (b : Build) (vcpu : Nat) (f : Fault) (env : CallEnv) : List TraceRecord :=
  match f with
  | .vmFault ip addr fsr =>
    accessRecords b vcpu addr fsr env ++
      if accessAccepted b addr fsr env then []
      else [mmioRecord b.lib vcpu ip addr fsr mmioUnhandled 0]
  | _ => []

/-- The MMIO and SMC records of an exit. -/
def exitRecords (b : Build) (vcpu : Nat) (f : Fault) (env : CallEnv) : List TraceRecord :=
  match smcFaultHsr b.lib f with
  | some hsr => smcRecords vcpu hsr env
  | none => guestFaultRecords b vcpu f env

/-! ## The handlers' effects -/

namespace VmmState

/-- From `s` to `t` the records `rs` were emitted and the lifecycle variables did
not change. -/
structure Emits (s t : VmmState) (rs : List TraceRecord) : Prop where
  state : t.state = s.state
  run : t.run = s.run
  runVcpu : t.runVcpu = s.runVcpu
  trace : t.trace = s.trace ++ rs

theorem Emits.refl (s : VmmState) : Emits s s [] := ⟨rfl, rfl, rfl, (List.append_nil _).symm⟩

theorem Emits.trans {s t u : VmmState} {rs qs : List TraceRecord} (h : Emits s t rs)
    (h' : Emits t u qs) : Emits s u (rs ++ qs) :=
  ⟨h'.state.trans h.state, h'.run.trans h.run, h'.runVcpu.trans h.runVcpu, by
    rw [h'.trace, h.trace, List.append_assoc]⟩

theorem Emits.call {s t : VmmState} {rs : List TraceRecord} (h : Emits s t rs) (c : Call) :
    Emits s (t.call c) rs := ⟨h.state, h.run, h.runVcpu, h.trace⟩

theorem Emits.logVmm {s t : VmmState} {rs : List TraceRecord} (h : Emits s t rs) (l : Log) :
    Emits s (t.logVmm l) rs := ⟨h.state, h.run, h.runVcpu, h.trace⟩

theorem emits_traceEmit (s : VmmState) (r : TraceRecord) : Emits s (s.traceEmit r) [r] :=
  ⟨rfl, rfl, rfl, rfl⟩

@[simp] theorem traceEmit_vcpuOn (s : VmmState) (r : TraceRecord) :
    (s.traceEmit r).vcpuOn = s.vcpuOn := rfl

@[simp] theorem call_vcpuOn (s : VmmState) (c : Call) : (s.call c).vcpuOn = s.vcpuOn := rfl

@[simp] theorem logVmm_vcpuOn (s : VmmState) (l : Log) : (s.logVmm l).vcpuOn = s.vcpuOn := rfl

@[simp] theorem smcTraceEnter_vcpuOn (s : VmmState) (vcpu : Nat) (pc hsr : UInt64)
    (r : UserContext) : (s.smcTraceEnter vcpu pc hsr r).vcpuOn = s.vcpuOn := by
  simp only [smcTraceEnter, smcTraceRegs, smcTraceEmit, traceEmit_vcpuOn]

@[simp] theorem smcTraceExit_vcpuOn (s : VmmState) (vcpu : Nat) (pc hsr : UInt64)
    (flags : UInt8) (r : UserContext) :
    (s.smcTraceExit vcpu pc hsr flags r).vcpuOn = s.vcpuOn := by
  simp only [smcTraceExit, smcTraceRegs, smcTraceEmit, traceEmit_vcpuOn]

/-- A handler's effect: what it emits, what it returns and which vCPUs it leaves
on. -/
structure Outcome (s : VmmState) (o : VmmState × Bool) (rs : List TraceRecord) (handled : Bool)
    (on : Nat → Bool) : Prop where
  emits : Emits s o.1 rs
  handled : o.2 = handled
  vcpuOn : o.1.vcpuOn = on

theorem smcTraceRegs_emits (s : VmmState) (vcpu : Nat) (pc hsr : UInt64) (flags : UInt8)
    (r : UserContext) :
    Emits s (s.smcTraceRegs vcpu pc hsr flags r) (smcRegsRecords vcpu pc hsr flags r) :=
  ((emits_traceEmit _ _).trans (emits_traceEmit _ _)).trans (emits_traceEmit _ _)

theorem smcTraceEnter_emits (s : VmmState) (vcpu : Nat) (pc hsr : UInt64) (r : UserContext) :
    Emits s (s.smcTraceEnter vcpu pc hsr r) (smcEnterRecords vcpu pc hsr r) :=
  (emits_traceEmit _ _).trans (smcTraceRegs_emits _ _ _ _ _ _)

theorem smcTraceExit_emits (s : VmmState) (vcpu : Nat) (pc hsr : UInt64) (flags : UInt8)
    (r : UserContext) :
    Emits s (s.smcTraceExit vcpu pc hsr flags r) (smcExitRecords vcpu pc hsr flags r) :=
  (emits_traceEmit _ _).trans (smcTraceRegs_emits _ _ _ _ _ _)

theorem smcEmulatePsci_outcome (s : VmmState) (vcpu : Nat) (pc hsr : UInt64) (env : CallEnv) :
    Outcome s (s.smcEmulatePsci vcpu pc hsr env)
      (match env.smcHandle, env.psciRegs with
        | true, .ok r => smcExitRecords vcpu pc hsr 0 r
        | _, _ => [])
      (env.smcHandle && env.psciRegs.toOption.isSome) env.powered := by
  have hpower : Emits s { s with vcpuOn := env.powered } [] := ⟨rfl, rfl, rfl, by simp⟩
  unfold smcEmulatePsci
  cases env.smcHandle with
  | false => exact ⟨hpower, rfl, rfl⟩
  | true =>
    cases env.psciRegs with
    | error err => exact ⟨hpower.logVmm _, rfl, rfl⟩
    | ok r =>
      have hexit := smcTraceExit_emits { s with vcpuOn := env.powered } vcpu pc hsr 0 r
      exact ⟨hpower.trans hexit, rfl, smcTraceExit_vcpuOn _ vcpu pc hsr 0 r⟩

theorem smcForwardAndResume_outcome (s : VmmState) (vcpu : Nat) (pc hsr : UInt64)
    (regs : UserContext) (env : CallEnv) :
    Outcome s (s.smcForwardAndResume vcpu pc hsr regs env)
      (smcExitRecords vcpu pc hsr smcForwarded (smcResponse regs env.response)) env.advance
      s.vcpuOn := by
  have hexit := ((Emits.refl s).call (.armSmcCall (smcRequest regs))).trans
    (smcTraceExit_emits _ vcpu pc hsr smcForwarded (smcResponse regs env.response))
  rw [List.nil_append] at hexit
  unfold smcForwardAndResume
  dsimp only
  cases env.advance with
  | false =>
    rw [if_neg Bool.false_ne_true]
    exact ⟨hexit, rfl, by simp⟩
  | true =>
    rw [if_pos rfl]
    exact ⟨hexit.call _, rfl, by simp⟩

theorem smcAct_outcome (s : VmmState) (vcpu : Nat) (hsr : UInt64) (regs : UserContext)
    (env : CallEnv) :
    Outcome s (s.smcAct vcpu hsr regs env) (smcActRecords vcpu hsr regs env)
      (smcHandled regs env)
      (if smcPolicy (regs.x 0).toUInt32 = .emulatePsci then env.powered else s.vcpuOn) := by
  unfold smcAct smcActRecords smcHandled
  cases smcPolicy (regs.x 0).toUInt32 with
  | emulatePsci => exact smcEmulatePsci_outcome s vcpu regs.pc hsr env
  | forward => exact smcForwardAndResume_outcome s vcpu regs.pc hsr regs env
  | unhandled => exact ⟨Emits.refl s, rfl, rfl⟩

theorem smcPolicyHandle_outcome (s : VmmState) (vcpu : Nat) (hsr : UInt64) (env : CallEnv) :
    Outcome s (s.smcPolicyHandle vcpu hsr env) (smcRecords vcpu hsr env) (smcResumes env)
      (match env.trapRegs with
        | .error _ => s.vcpuOn
        | .ok regs =>
          if smcPolicy (regs.x 0).toUInt32 = .emulatePsci then env.powered else s.vcpuOn) := by
  unfold smcPolicyHandle smcRecords smcResumes
  cases env.trapRegs with
  | error err => exact ⟨(Emits.refl s).logVmm _, rfl, rfl⟩
  | ok regs =>
    have henter := smcTraceEnter_emits s vcpu regs.pc hsr regs
    have hact := smcAct_outcome (s.smcTraceEnter vcpu regs.pc hsr regs) vcpu hsr regs env
    have hboth := henter.trans hact.emits
    dsimp only [readRegs]
    rcases hr : (s.smcTraceEnter vcpu regs.pc hsr regs).smcAct vcpu hsr regs env with ⟨t, handled⟩
    rw [hr] at hact hboth
    have hhandled : handled = smcHandled regs env := hact.handled
    cases handled with
    | true =>
      rw [← hhandled, if_pos rfl, List.append_nil]
      exact ⟨hboth, rfl, by rw [← smcTraceEnter_vcpuOn s vcpu regs.pc hsr regs]; exact hact.vcpuOn⟩
    | false =>
      rw [← hhandled, if_neg Bool.false_ne_true]
      have hrefused : Emits s (t.smcTraceUnhandled vcpu regs.pc hsr) _ :=
        hboth.trans (emits_traceEmit t _)
      exact ⟨hrefused.logVmm _, rfl, by
        rw [← smcTraceEnter_vcpuOn s vcpu regs.pc hsr regs]; exact hact.vcpuOn⟩

/-- What a handler registered for a region does with an access. -/
structure Answer (b : Build) (s : VmmState) (o : VmmState × Option UserContext) (c : Callback)
    (vcpu : Nat) (offset fsr : UInt64) (env : CallEnv) : Prop where
  emits : Emits s o.1 (if c.accepts b.lib offset fsr env then
    c.records b.lib vcpu offset fsr env else [])
  accepts : o.2.isSome = c.accepts b.lib offset fsr env
  vcpuOn : o.1.vcpuOn = s.vcpuOn

theorem uartFault_answer (b : Build) (s : VmmState) (gpa : UInt64) (vcpu : Nat)
    (offset fsr : UInt64) (env : CallEnv) :
    Answer b s (s.uartFault b.lib gpa vcpu offset fsr env.faultRegs) (.uart gpa) vcpu offset fsr
      env := by
  by_cases hw : b.lib.faultIsWrite fsr = true
  · by_cases ho : offset = exynosUartUtxh
    · have haccepts : Callback.accepts b.lib offset fsr env (.uart gpa) = true := by
        simp [Callback.accepts, hw, ho]
      refine ⟨?_, ?_, ?_⟩ <;> rw [uartFault, if_pos hw, uartWrite, if_pos ho]
      · rw [haccepts, if_pos rfl, Callback.records, if_pos hw]
        exact ⟨rfl, rfl, rfl, rfl⟩
      · exact haccepts.symm
      · rfl
    · have haccepts : Callback.accepts b.lib offset fsr env (.uart gpa) = false := by
        simp [Callback.accepts, hw, ho]
      refine ⟨?_, ?_, ?_⟩ <;> rw [uartFault, if_pos hw, uartWrite, if_neg ho]
      · rw [haccepts]
        exact (Emits.refl s).logVmm _
      · exact haccepts.symm
      · rfl
  · have hanswer : Callback.accepts b.lib offset fsr env (.uart gpa) =
        (uartReadValue offset).isSome := by
      simp [Callback.accepts, hw]
    refine ⟨?_, ?_, ?_⟩ <;> rw [uartFault, if_neg hw, uartRead]
    · rw [hanswer, Callback.records, if_neg hw]
      cases uartReadValue offset with
      | none => exact (Emits.refl s).logVmm _
      | some val => exact emits_traceEmit _ _
    · rw [hanswer]
      cases uartReadValue offset <;> rfl
    · cases uartReadValue offset <;> rfl

theorem forwardFault_answer (b : Build) (s : VmmState) (fwd : MmioForward) (vcpu : Nat)
    (offset fsr : UInt64) (env : CallEnv) :
    Answer b s (s.forwardFault b.lib fwd vcpu offset fsr env.faultRegs env) (.forward fwd) vcpu
      offset fsr env := by
  by_cases hw : b.lib.faultIsWrite fsr = true
  · have haccepts : Callback.accepts b.lib offset fsr env (.forward fwd) = false := by
      simp [Callback.accepts, hw]
    refine ⟨?_, ?_, ?_⟩ <;> rw [forwardFault, forwardAccessSupported, if_pos hw]
    · rw [haccepts]
      exact (Emits.refl s).logVmm _
    · exact haccepts.symm
    · rfl
  by_cases hwidth : b.lib.faultGetWidthBytes fsr ≠ 4 ∨ offset &&& 3 ≠ 0
  · have haccepts : Callback.accepts b.lib offset fsr env (.forward fwd) = false := by
      rcases hwidth with h | h <;> simp [Callback.accepts, h]
    refine ⟨?_, ?_, ?_⟩ <;>
      rw [forwardFault, forwardAccessSupported, if_neg hw, if_pos hwidth]
    · rw [haccepts]
      exact (Emits.refl s).logVmm _
    · exact haccepts.symm
    · rfl
  · have haccepts : Callback.accepts b.lib offset fsr env (.forward fwd) = true := by
      rw [not_or, not_not, not_not] at hwidth
      simp [Callback.accepts, hw, hwidth.1, hwidth.2]
    refine ⟨?_, ?_, ?_⟩ <;>
      rw [forwardFault, forwardAccessSupported, if_neg hw, if_neg hwidth]
    · rw [haccepts, if_pos rfl]
      exact ⟨rfl, rfl, rfl, rfl⟩
    · exact haccepts.symm
    · rfl

theorem callback_answer (b : Build) (s : VmmState) (c : Callback) (vcpu : Nat)
    (offset fsr : UInt64) (env : CallEnv) :
    Answer b s (s.callback b c vcpu offset fsr env.faultRegs env) c vcpu offset fsr env := by
  cases c with
  | uart gpa => exact uartFault_answer b s gpa vcpu offset fsr env
  | forward fwd => exact forwardFault_answer b s fwd vcpu offset fsr env
  | libvmm =>
    refine ⟨?_, rfl, rfl⟩
    simp only [Callback.records, ite_self]
    exact Emits.refl s

theorem vmFaultHandle_outcome (b : Build) (s : VmmState) (vcpu : Nat) (addr fsr : UInt64)
    (env : CallEnv) :
    Outcome s (s.vmFaultHandle b vcpu addr fsr env.faultRegs env)
      (accessRecords b vcpu addr fsr env) (accessAccepted b addr fsr env) s.vcpuOn := by
  unfold vmFaultHandle accessRecords accessAccepted
  cases b.handlers.find? (·.covers addr) with
  | none => exact ⟨Emits.refl s, rfl, rfl⟩
  | some h =>
    have ha := callback_answer b s h.callback vcpu (addr - h.base) fsr env
    dsimp only
    rcases hr : s.callback b h.callback vcpu (addr - h.base) fsr env.faultRegs env with ⟨t, regs⟩
    rw [hr] at ha
    have haccepts := ha.accepts
    cases regs with
    | none => exact ⟨ha.emits, haccepts, ha.vcpuOn⟩
    | some regs => exact ⟨ha.emits.call _, haccepts, ha.vcpuOn⟩

theorem guestFaultHandle_outcome (b : Build) (s : VmmState) (vcpu : Nat) (f : Fault)
    (env : CallEnv) (hf : smcFaultHsr b.lib f = none) :
    Outcome s (s.guestFaultHandle b vcpu f env) (guestFaultRecords b vcpu f env)
      (resumes b f env) s.vcpuOn := by
  unfold guestFaultHandle faultHandle guestFaultRecords resumes
  rw [hf]
  cases f with
  | vmFault ip addr fsr =>
    have ho := vmFaultHandle_outcome b s vcpu addr fsr env
    dsimp only
    rcases hr : s.vmFaultHandle b vcpu addr fsr env.faultRegs env with ⟨t, handled⟩
    rw [hr] at ho
    have hhandled : handled = accessAccepted b addr fsr env := ho.handled
    cases handled with
    | true =>
      rw [← hhandled, if_pos rfl, List.append_nil]
      exact ⟨ho.emits, rfl, ho.vcpuOn⟩
    | false =>
      rw [← hhandled, if_neg Bool.false_ne_true]
      exact ⟨ho.emits.trans (emits_traceEmit t _), rfl, ho.vcpuOn⟩
  | vcpuFault hsr =>
    cases env.libvmmHandler <;> exact ⟨Emits.refl s, rfl, rfl⟩
  | other label =>
    cases env.libvmmHandler <;> exact ⟨Emits.refl s, rfl, rfl⟩

theorem faultDispatch_outcome (b : Build) (s : VmmState) (vcpu : Nat) (f : Fault)
    (env : CallEnv) :
    Outcome s (s.faultDispatch b vcpu f env).1 (exitRecords b vcpu f env) (resumes b f env)
      (powerAfter b s.vcpuOn f env) := by
  unfold faultDispatch exitRecords powerAfter psciCall
  cases hf : smcFaultHsr b.lib f with
  | none =>
    exact guestFaultHandle_outcome b s vcpu f env hf
  | some hsr =>
    have ho := smcPolicyHandle_outcome s vcpu hsr env
    refine ⟨ho.emits, ?_, ?_⟩
    · unfold resumes
      rw [hf]
      exact ho.handled
    · rw [ho.vcpuOn]
      cases env.trapRegs <;> simp

/-- A resumed exit. -/
theorem handleFault_resumed {b : Build} {f : Fault} {env : CallEnv} (h : resumes b f env = true)
    (s : VmmState) (vcpu : Nat) :
    Outcome s (s.handleFault b vcpu f env) (exitRecords b vcpu f env) true
      (powerAfter b s.vcpuOn f env) := by
  have ho := faultDispatch_outcome b s vcpu f env
  unfold handleFault
  rcases hr : s.faultDispatch b vcpu f env with ⟨⟨t, handled⟩, stop⟩
  rw [hr] at ho
  obtain rfl : handled = true := ho.handled.trans h
  exact ⟨ho.emits, rfl, ho.vcpuOn⟩

/-- An exit that stops the guest. -/
structure Stopped (b : Build) (s : VmmState) (vcpu : Nat) (f : Fault) (env : CallEnv)
    (o : VmmState × Bool) : Prop where
  resumed : o.2 = false
  state : o.1.state = .stoppedByFault
  run : o.1.run = s.run
  runVcpu : o.1.runVcpu = s.runVcpu
  trace : o.1.trace = s.trace ++ exitRecords b vcpu f env ++
    [guestRecord guestStoppedByFault s.run s.runVcpu (stopPc env)]
  vcpuOn : o.1.vcpuOn = Function.update (powerAfter b s.vcpuOn f env) vcpu false

theorem handleFault_stopped {b : Build} {f : Fault} {env : CallEnv} (h : resumes b f env = false)
    (s : VmmState) (vcpu : Nat) : Stopped b s vcpu f env (s.handleFault b vcpu f env) := by
  have ho := faultDispatch_outcome b s vcpu f env
  unfold handleFault
  rcases hr : s.faultDispatch b vcpu f env with ⟨⟨t, handled⟩, stop⟩
  rw [hr] at ho
  obtain rfl : handled = false := ho.handled.trans h
  obtain ⟨⟨hstate, hrun, hvcpu, htrace⟩, -, hon⟩ := ho
  have hrecord : ∀ pc, t.trace ++ [guestRecord guestStoppedByFault t.run t.runVcpu pc] =
      s.trace ++ exitRecords b vcpu f env ++
        [guestRecord guestStoppedByFault s.run s.runVcpu pc] := by
    intro pc
    rw [← hrun, ← hvcpu, ← htrace]
  cases hregs : env.stopRegs with
  | error err =>
    refine ⟨rfl, rfl, hrun, hvcpu, ?_, by rw [← hon]; rfl⟩
    rw [stopPc, hregs]
    exact hrecord 0
  | ok regs =>
    refine ⟨rfl, rfl, hrun, hvcpu, ?_, by rw [← hon]; rfl⟩
    rw [stopPc, hregs]
    exact hrecord regs.pc

end VmmState
end Vmm
end TensorSel4
