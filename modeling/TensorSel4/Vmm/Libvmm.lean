/-
What the VMM takes from libvmm and from seL4.

libvmm is a library outside this repository.  The pure functions the VMM calls
in it are fields of `Libvmm`, and every result about the VMM holds for all of
them.  What its stateful functions and seL4's calls return is chosen by the
environment: `CallEnv` holds the outcomes of the calls that one event can make,
and a handler reads the ones on its path.
-/
import Mathlib.Data.Fintype.Pi
import Mathlib.Data.UInt

namespace TensorSel4
namespace Vmm

instance gprs_neZero : NeZero 31 := ⟨by decide⟩

/-- `seL4_UserContext`. -/
structure UserContext where
  pc : UInt64 := 0
  sp : UInt64 := 0
  spsr : UInt64 := 0
  x : Fin 31 → UInt64 := fun _ => 0
  tpidrEl0 : UInt64 := 0
  tpidrroEl0 : UInt64 := 0
  deriving DecidableEq

/-- `seL4_ARM_SMCContext`. -/
abbrev SmcContext := Fin 8 → UInt64

/-- An error code other than `seL4_NoError`, or a result. -/
abbrev SeL4Result (α : Type) := Except Nat α

structure Libvmm where
  /-- `HSR_EXCEPTION_CLASS` and the class `HSR_SMC_64_EXCEPTION`. -/
  hsrExceptionClass : UInt64 → UInt64
  hsrSmc64Exception : UInt64
  faultIsWrite : UInt64 → Bool
  faultGetWidthBytes : UInt64 → Nat
  faultGetData : UserContext → UInt64 → UInt64
  faultEmulateWrite : UserContext → UInt64 → UInt64 → UInt64 → UserContext

namespace Libvmm

/-- The target register and the access width in a data abort's syndrome. -/
def syndromeReg (fsr : UInt64) : Nat := ((fsr >>> 16) &&& 0x1f).toNat

def syndromeWidth (fsr : UInt64) : Nat := 1 <<< ((fsr >>> 22) &&& 3).toNat

/-- The syndrome as the architecture encodes it, for aligned accesses. -/
def aarch64 : Libvmm where
  hsrExceptionClass hsr := (hsr >>> 26) &&& 0x3f
  hsrSmc64Exception := 0x17
  faultIsWrite fsr := (fsr >>> 6) &&& 1 == 1
  faultGetWidthBytes := syndromeWidth
  faultGetData regs fsr :=
    if h : syndromeReg fsr < 31 then regs.x ⟨syndromeReg fsr, h⟩ else 0
  faultEmulateWrite regs _ fsr val :=
    if h : syndromeReg fsr < 31 then
      let mask := UInt64.ofNat (2 ^ (8 * syndromeWidth fsr) - 1)
      let reg := regs.x ⟨syndromeReg fsr, h⟩
      { regs with
        x := Function.update regs.x ⟨syndromeReg fsr, h⟩ ((reg &&& ~~~mask) ||| (val &&& mask)) }
    else regs

end Libvmm

/-- How the calls made while one event is handled turn out. -/
structure CallEnv where
  /-- The registers that `smc_policy_handle` reads. -/
  trapRegs : SeL4Result UserContext := .ok {}
  /-- What `smc_handle` returns, and which vCPUs are on afterwards. -/
  smcHandle : Bool := true
  powered : Nat → Bool := fun _ => false
  /-- The registers read back after `smc_handle`. -/
  psciRegs : SeL4Result UserContext := .ok {}
  /-- EL3's answer to a forwarded SMC. -/
  response : SmcContext := fun _ => 0
  advance : Bool := true
  /-- The registers with which libvmm calls the handler of a memory fault. -/
  faultRegs : UserContext := {}
  /-- One of libvmm's own handlers: the registers to resume with if it accepts. -/
  libvmmHandler : Option UserContext := none
  /-- The word that a forwarded read finds in the device. -/
  deviceWord : UInt32 := 0
  /-- The registers read by `guest_control_fault_stopped`. -/
  stopRegs : SeL4Result UserContext := .ok {}

/-- The calls with an effect outside the VMM. -/
inductive Call
  | vcpuReset (vcpu : Nat)
  | writeRegisters (vcpu : Nat) (regs : UserContext)
  | vcpuRestart (vcpu : Nat) (pc : UInt64)
  | vcpuStop (vcpu : Nat)
  | printRegs (vcpu : Nat)
  | armSmcCall (request : SmcContext)
  | deviceRead (vaddr : UInt64)
  /-- libvmm writes the registers back and steps over the trapped instruction. -/
  | faultAdvanceVcpu (vcpu : Nat) (regs : UserContext)

end Vmm
end TensorSel4
