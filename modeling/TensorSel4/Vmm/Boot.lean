/-
What a `guest-start` asks of seL4.

`bootFresh_effect` is the specification of `boot_fresh` outside the lifecycle:
which calls it makes and that it leaves the UART emulation alone.
-/
import TensorSel4.Vmm.GuestControl

namespace TensorSel4
namespace Vmm

/-- The registers that `start_vcpu` writes: all zero but the entry point, the
device tree and the mode. -/
def bootRegs (boot : GuestBoot) : UserContext where
  pc := boot.pc
  spsr := spsrPmodeEl1h ||| spsrAsyncAbortMaskBit ||| spsrIrqMaskBit ||| spsrFiqMaskBit
  x := Function.update (fun _ => 0) 0 boot.dtb

/-- The calls of a start that gets past the loading of the image. -/
def bootCalls (vcpu : Nat) (boot : GuestBoot) (write : SeL4Result Unit) : List Call :=
  .vcpuReset vcpu :: .writeRegisters vcpu (bootRegs boot) ::
    match write with
    | .error _ => []
    | .ok () => [.vcpuRestart vcpu boot.pc]

def startCalls (numVcpus : Nat) (select : UInt64) (env : StartEnv) : List Call :=
  if numVcpus ≤ (guestSelectVcpu select).toNat then []
  else
    match env.load with
    | none => []
    | some boot => bootCalls (guestSelectVcpu select).toNat boot env.write

theorem startCalls_of_load {numVcpus : Nat} {select : UInt64} {env : StartEnv} {boot : GuestBoot}
    (hvcpu : (guestSelectVcpu select).toNat < numVcpus) (hload : env.load = some boot) :
    startCalls numVcpus select env = bootCalls (guestSelectVcpu select).toNat boot env.write := by
  rw [startCalls, if_neg (Nat.not_le_of_lt hvcpu), hload]

namespace VmmState

theorem bootFresh_effect (s : VmmState) (numVcpus : Nat) (select : UInt64) (env : StartEnv) :
    (s.bootFresh numVcpus select env).1.calls = s.calls ++ startCalls numVcpus select env ∧
      (s.bootFresh numVcpus select env).1.uart = s.uart := by
  unfold bootFresh startCalls
  dsimp only
  by_cases hvcpu : numVcpus ≤ (guestSelectVcpu select).toNat
  · rw [if_pos hvcpu, if_pos hvcpu]
    exact ⟨(List.append_nil _).symm, rfl⟩
  rw [if_neg hvcpu, if_neg hvcpu]
  cases env.load with
  | none => exact ⟨(List.append_nil _).symm, rfl⟩
  | some boot =>
    cases env.write with
    | error err =>
      refine ⟨?_, rfl⟩
      show s.calls ++ [_] ++ [_] = s.calls ++ bootCalls _ _ _
      rw [List.append_assoc]
      rfl
    | ok u =>
      refine ⟨?_, rfl⟩
      show s.calls ++ [_] ++ [_] ++ [_] = s.calls ++ bootCalls _ _ _
      rw [List.append_assoc, List.append_assoc]
      rfl

theorem guestControlStart_effect (s : VmmState) (numVcpus : Nat) (select : UInt64)
    (env : StartEnv) (hstate : s.state ≠ .running) :
    (s.guestControlStart numVcpus select env).calls =
        s.calls ++ startCalls numVcpus select env ∧
      (s.guestControlStart numVcpus select env).uart = s.uart := by
  have h := bootFresh_effect s numVcpus select env
  rw [guestControlStart, if_neg hstate]
  rcases hr : s.bootFresh numVcpus select env with ⟨t, started⟩
  rw [hr] at h
  cases started <;> exact h

end VmmState
end Vmm
end TensorSel4
