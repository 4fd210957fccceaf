/-
Loading the guest: `vmm/guest_image_harness.c`, `vmm/guest_image_linux.c` and
`vmm/guest_image_lab.c`.

A build of the VMM carries the harness, Linux or both.  libvmm's
`linux_setup_images` is a field of the build: a function of its arguments that
writes guest RAM only.  The messages of a failed load are left out, since the
VMM's history already has one for it.
-/
import TensorSel4.Command.Select
import TensorSel4.Vmm.Machine

namespace TensorSel4
namespace Vmm

open Command

/-- The RAM at `guest_ram_vaddr`. -/
abbrev GuestRam (size : Nat) := Fin size → UInt8

/-- `memset(ram, 0, size)`. -/
def zeroGuestRam (size : Nat) : GuestRam size := fun _ => 0

/-- `memcpy` to the start of RAM. -/
def GuestRam.copy {size : Nat} (ram : GuestRam size) (image : List UInt8) : GuestRam size :=
  fun i => image.getD i (ram i)

/-- Which of the three `guest_image_load` a build links. -/
inductive GuestLoader
  | harness
  | linux
  | lab
  deriving DecidableEq

/-- The arguments of `linux_setup_images`. -/
structure LinuxImages where
  ramStart : UInt64
  kernel : List UInt8
  dtb : List UInt8
  dtbDest : UInt64
  initrd : List UInt8
  initrdDest : UInt64

structure HostedBuild extends Build where
  loader : GuestLoader
  ramSize : Nat
  ramGpa : UInt64
  dtbGpa : UInt64
  initrdGpa : UInt64
  harnessImage : List UInt8
  kernelImage : List UInt8
  dtbImages : Fin numVcpus → List UInt8
  initrdImage : List UInt8
  linuxSetupImages : LinuxImages → GuestRam ramSize → UInt64 × GuestRam ramSize

namespace HostedBuild

variable (b : HostedBuild)

/-- `guest_image_load` of `guest_image_harness.c`, with the RAM it leaves. -/
def guestImageHarnessLoad (ram : GuestRam b.ramSize) (select : UInt64) :
    GuestRam b.ramSize × Option GuestBoot :=
  let size := b.harnessImage.length
  if guestSelectGuest select ≠ guestSelectDefault ∧ guestSelectIsHarness select = false then
    (ram, none)
  else if size = 0 ∨ b.ramSize < size then (ram, none)
  else
    ((zeroGuestRam b.ramSize).copy b.harnessImage,
      some { pc := b.ramGpa, dtb := guestSelectHarnessMode select, initrd := 0 })

def dtbForVcpu (vcpu : Nat) : Option (List UInt8) :=
  if h : b.numVcpus ≤ vcpu then none else some (b.dtbImages ⟨vcpu, Nat.lt_of_not_le h⟩)

/-- `guest_image_load` of `guest_image_linux.c`. -/
def guestImageLinuxLoad (ram : GuestRam b.ramSize) (select : UInt64) :
    GuestRam b.ramSize × Option GuestBoot :=
  if guestSelectGuest select ≠ guestSelectDefault ∧ guestSelectGuest select ≠ guestSelectLinux then
    (ram, none)
  else
    match b.dtbForVcpu (guestSelectVcpu select).toNat with
    | none => (ram, none)
    | some dtb =>
      let (pc, ram) := b.linuxSetupImages
        { ramStart := b.ramGpa, kernel := b.kernelImage, dtb, dtbDest := b.dtbGpa,
          initrd := b.initrdImage, initrdDest := b.initrdGpa } (zeroGuestRam b.ramSize)
      if pc = 0 then (ram, none)
      else (ram, some { pc, dtb := b.dtbGpa, initrd := b.initrdGpa })

def guestImageLoad (ram : GuestRam b.ramSize) (select : UInt64) :
    GuestRam b.ramSize × Option GuestBoot :=
  match b.loader with
  | .harness => b.guestImageHarnessLoad ram select
  | .linux => b.guestImageLinuxLoad ram select
  | .lab =>
    if guestSelectIsHarness select then b.guestImageHarnessLoad ram select
    else b.guestImageLinuxLoad ram select

/-- The RAM that a load finds does not show in what a successful one leaves. -/
def Forgets (load : GuestRam b.ramSize → GuestRam b.ramSize × Option GuestBoot) : Prop :=
  ∀ ram ram' : GuestRam b.ramSize, (load ram).2 = (load ram').2 ∧
    ((load ram).2.isSome = true → (load ram).1 = (load ram').1)

theorem guestImageHarnessLoad_forgets (select : UInt64) :
    b.Forgets fun ram => b.guestImageHarnessLoad ram select := by
  intro ram ram'
  show (b.guestImageHarnessLoad ram select).2 = _ ∧ _
  unfold guestImageHarnessLoad
  dsimp only
  split_ifs
  · exact ⟨rfl, fun h => Bool.noConfusion h⟩
  · exact ⟨rfl, fun h => Bool.noConfusion h⟩
  · exact ⟨rfl, fun _ => rfl⟩

theorem guestImageLinuxLoad_forgets (select : UInt64) :
    b.Forgets fun ram => b.guestImageLinuxLoad ram select := by
  intro ram ram'
  show (b.guestImageLinuxLoad ram select).2 = _ ∧ _
  unfold guestImageLinuxLoad
  split_ifs with hguest
  · exact ⟨rfl, fun h => Bool.noConfusion h⟩
  · cases b.dtbForVcpu (guestSelectVcpu select).toNat with
    | none => exact ⟨rfl, fun h => Bool.noConfusion h⟩
    | some dtb => exact ⟨rfl, fun _ => rfl⟩

theorem guestImageLoad_forgets (select : UInt64) :
    b.Forgets fun ram => b.guestImageLoad ram select := by
  intro ram ram'
  show (b.guestImageLoad ram select).2 = _ ∧ _
  unfold guestImageLoad
  cases b.loader with
  | harness => exact b.guestImageHarnessLoad_forgets select ram ram'
  | linux => exact b.guestImageLinuxLoad_forgets select ram ram'
  | lab =>
    dsimp only
    split_ifs with hharness
    · exact b.guestImageHarnessLoad_forgets select ram ram'
    · exact b.guestImageLinuxLoad_forgets select ram ram'

end HostedBuild
end Vmm
end TensorSel4
