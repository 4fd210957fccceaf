/-
The memory of kernel devices, at boot and at build time.

`patches/seL4/0003` lets a kernel device reserve more than it maps.  The boot code
keeps the mapped frames and the reserved tails from userspace, by two tables of the
generated header, and `get_addrspace_exclude` takes them out of the device regions
of the JSON and YAML outputs.

What the patch uses of the unpatched tools is a parameter.  Groups with a condition
macro, and the labels and texts of a group, are left out.
-/
import TensorSel4.Memory.Ranges

namespace TensorSel4
namespace Kernel

open Memory Memory.Region

/-- `Region` of `hardware/memory.py`, as far as it is used here. -/
structure Tools where
  alignSize : Region → Nat → Region
  makeChunks : Region → Nat → List Region
  reserve : Region → Region → List Region
  /-- The base goes down and the size up to pages. -/
  alignSize_eq : ∀ r bits, alignSize r bits = ⟨alignDown r.base bits, alignUp r.size bits⟩
  /-- Whole chunks, one behind the other. -/
  makeChunks_size : ∀ r size, size ∣ r.size → ∀ chunk ∈ makeChunks r size, chunk.size = size
  covers_makeChunks : ∀ r size, size ∣ r.size → ∀ x, Covers (makeChunks r size) x ↔ x ∈ r
  reserve_exact : Exact reserve

/-- The least that such tools do. -/
def Tools.plain : Tools where
  alignSize r bits := ⟨alignDown r.base bits, alignUp r.size bits⟩
  makeChunks := chunks
  reserve := minus
  alignSize_eq _ _ := rfl
  makeChunks_size _ _ _ _ h := size_of_mem_chunks h
  covers_makeChunks _ _ h _ := covers_chunks h
  reserve_exact := exact_minus

structure KernelRegionGroup where
  base : Nat
  size : Nat
  regions : List Region
  userOk : Bool
  reservedTail : Option Region

namespace KernelRegionGroup

/-- `KernelRegionGroup.__init__`. -/
def init (t : Tools) (region : Region) (pageBits maxSize : Nat) (userOk : Bool)
    (reserveSize : Nat) : KernelRegionGroup :=
  let reserveEnd := alignUp (region.base + reserveSize) pageBits
  let region := { region with size := min maxSize region.size }
  let aligned := t.alignSize region pageBits
  { base := aligned.base
    size := aligned.size
    regions := t.makeChunks aligned (2 ^ pageBits)
    userOk
    reservedTail :=
      if aligned.base + aligned.size < reserveEnd then
        some (fromRange (aligned.base + aligned.size) reserveEnd)
      else none }

end KernelRegionGroup

/-- What a rule asks of a device: its memory, `kernel_size`, `reserve_size` and
`user`. -/
structure GroupSpec where
  base : Nat
  size : Nat
  kernelSize : Nat
  reserveSize : Nat
  user : Bool

def GroupSpec.group (t : Tools) (pageBits : Nat) (s : GroupSpec) : KernelRegionGroup :=
  KernelRegionGroup.init t ⟨s.base, s.size⟩ pageBits s.kernelSize s.user s.reserveSize

/-! ## At boot -/

/-- An entry of `kernel_device_frames`. -/
structure KernelFrame where
  paddr : Nat
  userAvailable : Bool

def KernelFrame.region (pageBits : Nat) (frame : KernelFrame) : Region :=
  fromRange frame.paddr (frame.paddr + 2 ^ pageBits)

/-- A frame for each chunk of each group. -/
def kernelDeviceFrames (groups : List KernelRegionGroup) : List KernelFrame :=
  groups.flatMap fun group => group.regions.map fun reg => ⟨reg.base, group.userOk⟩

def kernelReservedRegions (groups : List KernelRegionGroup) : List Region :=
  groups.flatMap fun group => group.reservedTail.toList

/-- The regions that `map_kernel_devices` reserves; the boot stops where one of
them cannot be. -/
def mapKernelDevices (pageBits : Nat) (groups : List KernelRegionGroup) : List Region :=
  (kernelDeviceFrames groups).flatMap (fun frame =>
    if frame.userAvailable then [] else [frame.region pageBits]) ++ kernelReservedRegions groups

/-! ## At build time -/

/-- The first loop of `get_addrspace_exclude`: plain regions, and the groups that
userspace may not have. -/
def excludedRegions (regions : List (Region ⊕ KernelRegionGroup)) : List Region :=
  regions.flatMap fun
    | .inl reg => [reg]
    | .inr group =>
      if group.userOk then [] else group.reservedTail.toList ++ [⟨group.base, group.size⟩]

def getAddrspaceExclude (t : Tools) (addrspaceMax : Nat)
    (regions : List (Region ⊕ KernelRegionGroup)) : List Region :=
  reserveAll t.reserve [⟨0, addrspaceMax⟩] (excludedRegions regions)

/-! ## What a group covers -/

namespace KernelRegionGroup

def Maps (group : KernelRegionGroup) (x : Nat) : Prop := x ∈ (⟨group.base, group.size⟩ : Region)

def Reserves (group : KernelRegionGroup) (x : Nat) : Prop := Covers group.reservedTail.toList x

end KernelRegionGroup

namespace GroupSpec

def mappedBase (pageBits : Nat) (s : GroupSpec) : Nat := alignDown s.base pageBits

def mappedEnd (pageBits : Nat) (s : GroupSpec) : Nat :=
  s.mappedBase pageBits + alignUp (min s.kernelSize s.size) pageBits

/-- `PAGE_ALIGN_UP(base + reserve_size)`. -/
def reserveEnd (pageBits : Nat) (s : GroupSpec) : Nat := alignUp (s.base + s.reserveSize) pageBits

variable {t : Tools} {pageBits x : Nat} {s : GroupSpec}

theorem group_eq (t : Tools) (pageBits : Nat) (s : GroupSpec) :
    s.group t pageBits =
      { base := s.mappedBase pageBits
        size := alignUp (min s.kernelSize s.size) pageBits
        regions := t.makeChunks ⟨s.mappedBase pageBits, alignUp (min s.kernelSize s.size) pageBits⟩
          (2 ^ pageBits)
        userOk := s.user
        reservedTail :=
          if s.mappedEnd pageBits < s.reserveEnd pageBits then
            some (fromRange (s.mappedEnd pageBits) (s.reserveEnd pageBits))
          else none } := by
  unfold group KernelRegionGroup.init
  simp only [t.alignSize_eq]
  rfl

theorem maps_iff : (s.group t pageBits).Maps x ↔
    s.mappedBase pageBits ≤ x ∧ x < s.mappedEnd pageBits := by
  rw [group_eq]
  rfl

theorem reserves_iff : (s.group t pageBits).Reserves x ↔
    s.mappedEnd pageBits ≤ x ∧ x < s.reserveEnd pageBits := by
  rw [group_eq]
  unfold KernelRegionGroup.Reserves
  dsimp only
  split
  · rw [Option.toList_some, covers_singleton, mem_fromRange]
  · rw [Option.toList_none]
    refine iff_of_false not_covers_nil ?_
    omega

/-- The chunks of a group are whole pages, so its frames cover what it maps. -/
theorem covers_frames :
    Covers ((s.group t pageBits).regions.map fun reg =>
      KernelFrame.region pageBits ⟨reg.base, s.user⟩) x ↔ (s.group t pageBits).Maps x := by
  have hdvd : 2 ^ pageBits ∣ alignUp (min s.kernelSize s.size) pageBits := dvd_alignUp _ _
  rw [group_eq]
  unfold KernelRegionGroup.Maps
  dsimp only
  rw [← t.covers_makeChunks _ _ hdvd]
  simp only [Covers, List.mem_map]
  constructor
  · rintro ⟨_, ⟨reg, hreg, rfl⟩, hx⟩
    have hsize := t.makeChunks_size _ _ hdvd reg hreg
    rw [KernelFrame.region, mem_fromRange] at hx
    refine ⟨reg, hreg, hx.1, ?_⟩
    rw [hsize]
    exact hx.2
  · rintro ⟨reg, hreg, hx⟩
    have hsize := t.makeChunks_size _ _ hdvd reg hreg
    refine ⟨_, ⟨reg, hreg, rfl⟩, ?_⟩
    rw [KernelFrame.region, mem_fromRange]
    rw [mem_def, hsize] at hx
    exact hx

end GroupSpec

/-! ## The two reservations -/

section

variable {t : Tools} {pageBits addrspaceMax x : Nat} {specs : List GroupSpec}

/-- The groups of a build. -/
def kernelGroups (t : Tools) (pageBits : Nat) (specs : List GroupSpec) :
    List KernelRegionGroup := specs.map (GroupSpec.group t pageBits)

theorem group_userOk (s : GroupSpec) : (s.group t pageBits).userOk = s.user := rfl

/-- The frames that are not the user's. -/
theorem covers_kernelFrames :
    Covers ((kernelDeviceFrames (kernelGroups t pageBits specs)).flatMap fun frame =>
        if frame.userAvailable then [] else [frame.region pageBits]) x ↔
      ∃ s ∈ specs, s.user = false ∧ (s.group t pageBits).Maps x := by
  rw [covers_flatMap]
  constructor
  · rintro ⟨frame, hframe, hx⟩
    obtain ⟨group, hgroup, hreg⟩ := List.mem_flatMap.mp hframe
    obtain ⟨s, hs, rfl⟩ := List.mem_map.mp hgroup
    obtain ⟨reg, hmem, rfl⟩ := List.mem_map.mp hreg
    rw [group_userOk] at hx
    cases huser : s.user with
    | true =>
      rw [huser, if_pos rfl] at hx
      exact absurd hx not_covers_nil
    | false =>
      rw [huser, if_neg Bool.false_ne_true, covers_singleton] at hx
      refine ⟨s, hs, huser, GroupSpec.covers_frames.mp ⟨_, List.mem_map_of_mem hmem, ?_⟩⟩
      rw [huser]
      exact hx
  · rintro ⟨s, hs, huser, hmaps⟩
    obtain ⟨region, hregion, hx⟩ := GroupSpec.covers_frames.mpr hmaps
    obtain ⟨reg, hreg, rfl⟩ := List.mem_map.mp hregion
    refine ⟨⟨reg.base, s.user⟩, ?_, ?_⟩
    · exact List.mem_flatMap.mpr ⟨_, List.mem_map_of_mem hs, List.mem_map_of_mem hreg⟩
    · rw [huser] at hx ⊢
      rw [if_neg Bool.false_ne_true, covers_singleton]
      exact hx

theorem covers_mapKernelDevices :
    Covers (mapKernelDevices pageBits (kernelGroups t pageBits specs)) x ↔
      ∃ s ∈ specs, s.user = false ∧ (s.group t pageBits).Maps x ∨
        (s.group t pageBits).Reserves x := by
  rw [mapKernelDevices, covers_append, covers_kernelFrames, kernelReservedRegions, covers_flatMap]
  constructor
  · rintro (⟨s, hs, hmaps⟩ | ⟨group, hgroup, hx⟩)
    · exact ⟨s, hs, Or.inl hmaps⟩
    · obtain ⟨s, hs, rfl⟩ := List.mem_map.mp hgroup
      exact ⟨s, hs, Or.inr hx⟩
  · rintro ⟨s, hs, hmaps | hx⟩
    · exact Or.inl ⟨s, hs, hmaps⟩
    · exact Or.inr ⟨_, List.mem_map_of_mem hs, hx⟩

theorem covers_excludedRegions :
    Covers (excludedRegions ((kernelGroups t pageBits specs).map .inr)) x ↔
      ∃ s ∈ specs, s.user = false ∧
        ((s.group t pageBits).Maps x ∨ (s.group t pageBits).Reserves x) := by
  rw [excludedRegions, covers_flatMap]
  constructor
  · rintro ⟨_, hregion, hx⟩
    obtain ⟨group, hgroup, rfl⟩ := List.mem_map.mp hregion
    obtain ⟨s, hs, rfl⟩ := List.mem_map.mp hgroup
    dsimp only at hx
    rw [group_userOk] at hx
    cases huser : s.user with
    | true =>
      rw [huser, if_pos rfl] at hx
      exact absurd hx not_covers_nil
    | false =>
      rw [huser, if_neg Bool.false_ne_true, covers_append, covers_singleton] at hx
      exact ⟨s, hs, huser, hx.symm⟩
  · rintro ⟨s, hs, huser, hx⟩
    refine ⟨_, List.mem_map_of_mem (List.mem_map_of_mem hs), ?_⟩
    dsimp only
    rw [group_userOk, huser, if_neg Bool.false_ne_true, covers_append, covers_singleton]
    exact hx.symm

/-- What `get_addrspace_exclude` takes out of the address space. -/
theorem not_covers_getAddrspaceExclude (hx : x < addrspaceMax) :
    ¬Covers (getAddrspaceExclude t addrspaceMax ((kernelGroups t pageBits specs).map .inr)) x ↔
      ∃ s ∈ specs, s.user = false ∧
        ((s.group t pageBits).Maps x ∨ (s.group t pageBits).Reserves x) := by
  have hall : Covers [⟨0, addrspaceMax⟩] x := by
    rw [covers_singleton, mem_def]
    dsimp only
    omega
  rw [getAddrspaceExclude, covers_reserveAll t.reserve_exact, ← covers_excludedRegions, not_and,
    not_not]
  exact ⟨fun h => h hall, fun h _ => h⟩

/-- A group that is not the user's keeps everything from its base to the end of its
reservation. -/
theorem keeps_reservation {s : GroupSpec} (huser : s.user = false) (hbase : s.base ≤ x)
    (hend : x < s.reserveEnd pageBits) :
    Covers (mapKernelDevices pageBits (kernelGroups t pageBits [s])) x := by
  have hdown := alignDown_le s.base pageBits
  rw [covers_mapKernelDevices]
  refine ⟨s, List.mem_singleton_self s, ?_⟩
  by_cases hmapped : x < s.mappedEnd pageBits
  · refine Or.inl ⟨huser, GroupSpec.maps_iff.mpr ⟨?_, hmapped⟩⟩
    unfold GroupSpec.mappedBase
    omega
  · refine Or.inr (GroupSpec.reserves_iff.mpr ⟨?_, hend⟩)
    omega

/-- What is kept of a kernel group: from its first frame to the end of its frames and
of its reservation. -/
theorem GroupSpec.keeps_iff {s : GroupSpec} :
    ((s.group t pageBits).Maps x ∨ (s.group t pageBits).Reserves x) ↔
      s.mappedBase pageBits ≤ x ∧ x < max (s.mappedEnd pageBits) (s.reserveEnd pageBits) := by
  have hle : s.mappedBase pageBits ≤ s.mappedEnd pageBits := Nat.le_add_right _ _
  rw [GroupSpec.maps_iff, GroupSpec.reserves_iff]
  omega

/-- No frame of a group lies in what it reserves. -/
theorem frames_not_reserved (s : GroupSpec) :
    ¬(Covers ((kernelDeviceFrames (kernelGroups t pageBits [s])).map
        (KernelFrame.region pageBits)) x ∧
      Covers (kernelReservedRegions (kernelGroups t pageBits [s])) x) := by
  rintro ⟨hframes, hreserved⟩
  have hmaps : (s.group t pageBits).Maps x := by
    refine GroupSpec.covers_frames.mp ?_
    simpa [kernelDeviceFrames, kernelGroups, List.map_map, Function.comp_def, group_userOk]
      using hframes
  have hreserves : (s.group t pageBits).Reserves x := by
    simpa [kernelReservedRegions, kernelGroups, KernelRegionGroup.Reserves] using hreserved
  have hbefore := (GroupSpec.maps_iff.mp hmaps).2
  have hafter := (GroupSpec.reserves_iff.mp hreserves).1
  omega

/-- Boot and build agree, and a kernel group keeps what it reserves, exactly when
what a user group reserves beyond its frames is kept by some kernel group. -/
theorem reservations_agree_iff (t : Tools) (pageBits addrspaceMax : Nat)
    (specs : List GroupSpec) :
    ((∀ x < addrspaceMax,
        (Covers (mapKernelDevices pageBits (kernelGroups t pageBits specs)) x ↔
          ¬Covers (getAddrspaceExclude t addrspaceMax
            ((kernelGroups t pageBits specs).map .inr)) x)) ∧
      ∀ s ∈ specs, s.user = false →
        (∀ x, s.base ≤ x → x < alignUp (s.base + s.reserveSize) pageBits →
          Covers (mapKernelDevices pageBits (kernelGroups t pageBits [s])) x) ∧
        ∀ x, ¬(Covers ((kernelDeviceFrames (kernelGroups t pageBits [s])).map
              (KernelFrame.region pageBits)) x ∧
            Covers (kernelReservedRegions (kernelGroups t pageBits [s])) x)) ↔
      ∀ s ∈ specs, s.user = true → ∀ x < addrspaceMax,
        s.mappedEnd pageBits ≤ x → x < s.reserveEnd pageBits →
        ∃ s' ∈ specs, s'.user = false ∧ s'.mappedBase pageBits ≤ x ∧
          x < max (s'.mappedEnd pageBits) (s'.reserveEnd pageBits) := by
  constructor
  · rintro ⟨hagree, -⟩ s hs - x hx hfrom hto
    have hboot : Covers (mapKernelDevices pageBits (kernelGroups t pageBits specs)) x :=
      covers_mapKernelDevices.mpr ⟨s, hs, Or.inr (GroupSpec.reserves_iff.mpr ⟨hfrom, hto⟩)⟩
    obtain ⟨s', hs', huser, hkeeps⟩ :=
      (not_covers_getAddrspaceExclude hx).mp ((hagree x hx).mp hboot)
    exact ⟨s', hs', huser, GroupSpec.keeps_iff.mp hkeeps⟩
  · intro hcovered
    constructor
    · intro x hx
      rw [not_covers_getAddrspaceExclude hx, covers_mapKernelDevices]
      constructor
      · rintro ⟨s, hs, ⟨huser, hmaps⟩ | hreserves⟩
        · exact ⟨s, hs, huser, Or.inl hmaps⟩
        · cases huser : s.user with
          | false => exact ⟨s, hs, huser, Or.inr hreserves⟩
          | true =>
            obtain ⟨hfrom, hto⟩ := GroupSpec.reserves_iff.mp hreserves
            obtain ⟨s', hs', huser', hkeeps⟩ := hcovered s hs huser x hx hfrom hto
            exact ⟨s', hs', huser', GroupSpec.keeps_iff.mpr hkeeps⟩
      · rintro ⟨s, hs, huser, hmaps | hreserves⟩
        · exact ⟨s, hs, Or.inl ⟨huser, hmaps⟩⟩
        · exact ⟨s, hs, Or.inr hreserves⟩
    · intro s hs huser
      exact ⟨fun x hbase hend => keeps_reservation huser hbase hend,
        fun x => frames_not_reserved s⟩

/-- A page that the user may have, of a block of two that is reserved whole. -/
def sharedBlock : GroupSpec where
  base := 0x10000
  size := 0x1000
  kernelSize := 0x1000
  reserveSize := 0x2000
  user := true

/-- The boot code keeps the tail of the block, and the build gives it out. -/
theorem user_tail_given_out :
    ¬∀ x < 2 ^ 40,
      (Covers (mapKernelDevices 12 (kernelGroups Tools.plain 12 [sharedBlock])) x ↔
        ¬Covers (getAddrspaceExclude Tools.plain (2 ^ 40)
          ((kernelGroups Tools.plain 12 [sharedBlock]).map .inr)) x) := by
  intro hagree
  have hkept :
      Covers (mapKernelDevices 12 (kernelGroups Tools.plain 12 [sharedBlock])) 0x11000 := by
    decide
  have hgiven : Covers (getAddrspaceExclude Tools.plain (2 ^ 40)
      ((kernelGroups Tools.plain 12 [sharedBlock]).map .inr)) 0x11000 := by
    decide
  exact (hagree 0x11000 (by omega)).mp hkept hgiven

end

end Kernel
end TensorSel4
