/-
`vmm/smc_trace.c` and `vmm/smc_policy.c`.

`smc_handle` is libvmm's: where the policy hands it a PSCI call, the environment
says what it returns and which vCPUs it leaves on.
-/
import TensorSel4.Vmm.GuestControl

namespace TensorSel4
namespace Vmm

open Trace

def smcccService (fid : UInt32) : UInt32 := (fid >>> 24) &&& 0x3f
def smcccFuncNumber (fid : UInt32) : UInt32 := fid &&& 0xffff
def smcccServiceStd : UInt32 := 4
def smcccVersionFid : UInt32 := 0x80000000
def psciMax : UInt32 := 0x1f

inductive SmcAction
  | emulatePsci
  | forward
  | unhandled
  deriving DecidableEq

def smcPolicy (fid : UInt32) : SmcAction :=
  if smcccService fid = smcccServiceStd ∧ smcccFuncNumber fid < psciMax then .emulatePsci
  else if fid = smcccVersionFid then .forward
  else .unhandled

theorem smcPolicy_forward {fid : UInt32} : smcPolicy fid = .forward ↔ fid = smcccVersionFid := by
  unfold smcPolicy
  constructor
  · intro h
    by_contra hne
    rw [if_neg hne] at h
    split at h <;> exact SmcAction.noConfusion h
  · rintro rfl
    rfl

theorem smcPolicy_emulatePsci {fid : UInt32} : smcPolicy fid = .emulatePsci ↔
    smcccService fid = smcccServiceStd ∧ smcccFuncNumber fid < psciMax := by
  unfold smcPolicy
  constructor
  · intro h
    by_contra hne
    rw [if_neg hne] at h
    split at h <;> exact SmcAction.noConfusion h
  · intro h
    rw [if_pos h]

/-- What `smc_forward` passes to EL3. -/
def smcRequest (regs : UserContext) : SmcContext := fun i => regs.x (i.castLE (by decide))

/-- The registers after `smc_forward` has copied the response back. -/
def smcResponse (regs : UserContext) (response : SmcContext) : UserContext :=
  { regs with x := fun i => if h : i.val < 8 then response ⟨i.val, h⟩ else regs.x i }

/-! ## smc_trace.c -/

def smcRecord (kind : UInt8) (vcpu : Nat) (pc hsr : UInt64) (flags firstReg : UInt8)
    (a b : UInt64) : TraceRecord :=
  { pc, addr := a, value := b, esr := hsr.toUInt32, vcpu := UInt16.ofNat vcpu, kind,
    size := firstReg, flags }

namespace VmmState

def smcTraceEmit (s : VmmState) (kind : UInt8) (vcpu : Nat) (pc hsr : UInt64)
    (flags firstReg : UInt8) (a b : UInt64) : VmmState :=
  s.traceEmit (smcRecord kind vcpu pc hsr flags firstReg a b)

def smcTraceRegs (s : VmmState) (vcpu : Nat) (pc hsr : UInt64) (flags : UInt8)
    (r : UserContext) : VmmState :=
  let s := s.smcTraceEmit kindSmcRegs vcpu pc hsr flags 2 (r.x 2) (r.x 3)
  let s := s.smcTraceEmit kindSmcRegs vcpu pc hsr flags 4 (r.x 4) (r.x 5)
  s.smcTraceEmit kindSmcRegs vcpu pc hsr flags 6 (r.x 6) (r.x 7)

def smcTraceEnter (s : VmmState) (vcpu : Nat) (pc hsr : UInt64) (r : UserContext) : VmmState :=
  (s.smcTraceEmit kindSmcEnter vcpu pc hsr 0 0 (r.x 0) (r.x 1)).smcTraceRegs vcpu pc hsr 0 r

def smcTraceExit (s : VmmState) (vcpu : Nat) (pc hsr : UInt64) (flags : UInt8)
    (r : UserContext) : VmmState :=
  (s.smcTraceEmit kindSmcExit vcpu pc hsr flags 0 (r.x 0) (r.x 1)).smcTraceRegs vcpu pc hsr
    smcRegsExit r

def smcTraceUnhandled (s : VmmState) (vcpu : Nat) (pc hsr : UInt64) : VmmState :=
  s.smcTraceEmit kindSmcExit vcpu pc hsr smcUnhandled 0 0 0

/-! ## smc_policy.c -/

/-- `read_regs`. -/
def readRegs (s : VmmState) : SeL4Result UserContext → VmmState × Option UserContext
  | .error err => (s.logVmm (.readRegistersFailed err), none)
  | .ok regs => (s, some regs)

def smcEmulatePsci (s : VmmState) (vcpu : Nat) (pc hsr : UInt64) (env : CallEnv) :
    VmmState × Bool :=
  let s := { s with vcpuOn := env.powered }
  if env.smcHandle = false then
    (s, false)
  else
    match s.readRegs env.psciRegs with
    | (s, none) => (s, false)
    | (s, some regs) => (s.smcTraceExit vcpu pc hsr 0 regs, true)

def smcForwardAndResume (s : VmmState) (vcpu : Nat) (pc hsr : UInt64) (regs : UserContext)
    (env : CallEnv) : VmmState × Bool :=
  let s := s.call (.armSmcCall (smcRequest regs))
  let regs := smcResponse regs env.response
  let s := s.smcTraceExit vcpu pc hsr smcForwarded regs
  if env.advance then (s.call (.faultAdvanceVcpu vcpu regs), true) else (s, false)

/-- The switch of `smc_policy_handle`. -/
def smcAct (s : VmmState) (vcpu : Nat) (hsr : UInt64) (regs : UserContext) (env : CallEnv) :
    VmmState × Bool :=
  match smcPolicy (regs.x 0).toUInt32 with
  | .emulatePsci => s.smcEmulatePsci vcpu regs.pc hsr env
  | .forward => s.smcForwardAndResume vcpu regs.pc hsr regs env
  | .unhandled => (s, false)

def smcPolicyHandle (s : VmmState) (vcpu : Nat) (hsr : UInt64) (env : CallEnv) :
    VmmState × Bool :=
  match s.readRegs env.trapRegs with
  | (s, none) => (s, false)
  | (s, some regs) =>
    match (s.smcTraceEnter vcpu regs.pc hsr regs).smcAct vcpu hsr regs env with
    | (s, true) => (s, true)
    | (s, false) =>
      -- `regs.x0` is still the trapped one unless `smc_forward` replaced it.
      let x0 := if smcPolicy (regs.x 0).toUInt32 = .forward then env.response 0 else regs.x 0
      ((s.smcTraceUnhandled vcpu regs.pc hsr).logVmm (.smcNotHandled x0 regs.pc), false)

end VmmState
end Vmm
end TensorSel4
