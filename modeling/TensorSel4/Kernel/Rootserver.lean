/-
The root server objects, as `patches/seL4/0005` has the kernel allocate them.

`alloc_rootserver_obj` is the unpatched kernel's bump allocator.  It asserts that
each object falls on a multiple of its size, so a misaligned object here is a
failed assertion there.  `create_rootserver_objects` is modelled down to the
bootinfo, where the patch ends.

`allocs` is a history that the code does not keep.
-/
import TensorSel4.Memory.Bump

namespace TensorSel4
namespace Kernel

open Memory Bump

def seL4PageBits : Nat := 12

inductive Object
  | cnode
  | vspace
  | bootInfo
  | extraBi
  | asidPool
  | ipcBuf
  deriving DecidableEq

/-- The build's sizes, as powers of two. -/
structure Config where
  rootCnodeSizeBits : Nat
  slotBits : Nat
  vspaceBits : Nat
  bootInfoFrameBits : Nat
  /-- `invalid_seL4_BootInfoFrameBits`. -/
  page_le : seL4PageBits ≤ bootInfoFrameBits

namespace Config

def cnodeSizeBits (c : Config) : Nat := c.rootCnodeSizeBits + c.slotBits

def rootserverMaxSizeBits (c : Config) (extraBiSizeBits : Nat) : Nat :=
  max (max (max c.cnodeSizeBits c.vspaceBits) c.bootInfoFrameBits) extraBiSizeBits

end Config

/-- `rootserver_mem` and `rootserver`, where 0 is an object not allocated yet. -/
structure Rootserver where
  memStart : Nat
  addr : Object → Nat := fun _ => 0
  allocs : List (Placed Object) := []

namespace Rootserver

/-- `rootserver.o = alloc_rootserver_obj(size_bits, 1)`. -/
def alloc (s : Rootserver) (o : Object) (sizeBits : Nat) : Rootserver where
  memStart := s.memStart + 2 ^ sizeBits
  addr := Function.update s.addr o s.memStart
  allocs := s.allocs ++ [⟨o, s.memStart, sizeBits⟩]

def maybeAllocExtraBi (cmpSizeBits extraBiSizeBits : Nat) (s : Rootserver) : Rootserver :=
  if cmpSizeBits ≤ extraBiSizeBits ∧ s.addr .extraBi = 0 then s.alloc .extraBi extraBiSizeBits
  else s

variable (c : Config)

def maybeAllocMultiPageBi (cmpSizeBits : Nat) (s : Rootserver) : Rootserver :=
  if seL4PageBits < c.bootInfoFrameBits ∧ cmpSizeBits ≤ c.bootInfoFrameBits ∧
      s.addr .bootInfo = 0 then s.alloc .bootInfo c.bootInfoFrameBits
  else s

def maybeAllocBiObjects (cmpSizeBits extraBiSizeBits : Nat) (s : Rootserver) : Rootserver :=
  if extraBiSizeBits ≤ c.bootInfoFrameBits then
    maybeAllocExtraBi cmpSizeBits extraBiSizeBits (maybeAllocMultiPageBi c cmpSizeBits s)
  else maybeAllocMultiPageBi c cmpSizeBits (maybeAllocExtraBi cmpSizeBits extraBiSizeBits s)

/-- The root CNode and the VSpace, the larger one first. -/
def allocCnodeVspace (extraBiSizeBits : Nat) (s : Rootserver) : Rootserver :=
  if c.vspaceBits < c.cnodeSizeBits then
    (maybeAllocBiObjects c c.vspaceBits extraBiSizeBits (s.alloc .cnode c.cnodeSizeBits)).alloc
      .vspace c.vspaceBits
  else
    (maybeAllocBiObjects c c.cnodeSizeBits extraBiSizeBits (s.alloc .vspace c.vspaceBits)).alloc
      .cnode c.cnodeSizeBits

/-- The objects of 4k. -/
def allocPages (extraBiSizeBits : Nat) (s : Rootserver) : Rootserver :=
  let s := maybeAllocBiObjects c seL4PageBits extraBiSizeBits s
  let s := (s.alloc .asidPool seL4PageBits).alloc .ipcBuf seL4PageBits
  if s.addr .bootInfo = 0 then s.alloc .bootInfo c.bootInfoFrameBits else s

def createRootserverObjects (start extraBiSizeBits : Nat) : Rootserver :=
  let s : Rootserver := { memStart := start }
  let s := maybeAllocBiObjects c (c.rootserverMaxSizeBits extraBiSizeBits) extraBiSizeBits s
  allocPages c extraBiSizeBits (allocCnodeVspace c extraBiSizeBits s)

end Rootserver

/-! ## The order of allocation

The bootinfo of several pages and the extra bootinfo wait, the larger one first,
for a threshold that takes them. -/

section

variable (c : Config) (extra : Nat)

def bootWaits (s : Rootserver) : Bool :=
  decide (seL4PageBits < c.bootInfoFrameBits ∧ s.addr .bootInfo = 0)

def extraWaits (s : Rootserver) : Bool := decide (s.addr .extraBi = 0)

def waiting (boot extraBi : Bool) : List (Object × Nat) :=
  let bootItem := if boot then [(Object.bootInfo, c.bootInfoFrameBits)] else []
  let extraItem := if extraBi then [(Object.extraBi, extra)] else []
  if extra ≤ c.bootInfoFrameBits then bootItem ++ extraItem else extraItem ++ bootItem

/-- From `start` on, `ps` are allocated and `pend` still wait. -/
structure Placing (start : Nat) (ps pend : List (Object × Nat)) (s : Rootserver) : Prop where
  memStart : s.memStart = start + extent ps
  allocs : s.allocs = place start ps
  waits : waiting c extra (bootWaits c s) (extraWaits s) = pend

variable {c extra} {start cmp : Nat} {ps pend : List (Object × Nat)} {s : Rootserver}

theorem addr_alloc_ne {o o' : Object} (h : o' ≠ o) (s : Rootserver) (b : Nat) :
    (s.alloc o b).addr o' = s.addr o' := Function.update_of_ne h _ _

theorem addr_alloc_self (s : Rootserver) (o : Object) (b : Nat) :
    (s.alloc o b).addr o = s.memStart := Function.update_self _ _ _

theorem bootWaits_alloc_ne {o : Object} (h : o ≠ .bootInfo) (s : Rootserver) (b : Nat) :
    bootWaits c (s.alloc o b) = bootWaits c s := by
  rw [bootWaits, bootWaits, addr_alloc_ne h.symm]

theorem extraWaits_alloc_ne {o : Object} (h : o ≠ .extraBi) (s : Rootserver) (b : Nat) :
    extraWaits (s.alloc o b) = extraWaits s := by
  rw [extraWaits, extraWaits, addr_alloc_ne h.symm]

theorem bootWaits_alloc_self (hs : 0 < s.memStart) (b : Nat) :
    bootWaits c (s.alloc .bootInfo b) = false := by
  rw [bootWaits, addr_alloc_self, decide_eq_false_iff_not]
  omega

theorem extraWaits_alloc_self (hs : 0 < s.memStart) (b : Nat) :
    extraWaits (s.alloc .extraBi b) = false := by
  rw [extraWaits, addr_alloc_self, decide_eq_false_iff_not]
  omega

theorem Placing.alloc (h : Placing c extra start ps pend s) (o : Object) (b : Nat) :
    Placing c extra start (ps ++ [(o, b)])
      (waiting c extra (bootWaits c (s.alloc o b)) (extraWaits (s.alloc o b))) (s.alloc o b) := by
  refine ⟨?_, ?_, rfl⟩
  · show s.memStart + 2 ^ b = _
    rw [h.memStart, extent_append, Nat.add_assoc]
    rfl
  · show s.allocs ++ _ = _
    rw [place_append, h.allocs, h.memStart]
    rfl

/-- An object that is none of the two. -/
theorem Placing.alloc_other (h : Placing c extra start ps pend s) {o : Object}
    (hboot : o ≠ .bootInfo) (hextra : o ≠ .extraBi) (b : Nat) :
    Placing c extra start (ps ++ [(o, b)]) pend (s.alloc o b) := by
  have hnext := h.alloc o b
  rw [bootWaits_alloc_ne hboot, extraWaits_alloc_ne hextra, h.waits] at hnext
  exact hnext

theorem maybeAllocMultiPageBi_eq : Rootserver.maybeAllocMultiPageBi c cmp s =
    if bootWaits c s && decide (cmp ≤ c.bootInfoFrameBits) then
      s.alloc .bootInfo c.bootInfoFrameBits else s := by
  unfold Rootserver.maybeAllocMultiPageBi bootWaits
  congr 1
  simp only [Bool.and_eq_true, decide_eq_true_eq, eq_iff_iff]
  tauto

theorem maybeAllocExtraBi_eq : Rootserver.maybeAllocExtraBi cmp extra s =
    if extraWaits s && decide (cmp ≤ extra) then s.alloc .extraBi extra else s := by
  unfold Rootserver.maybeAllocExtraBi extraWaits
  congr 1
  simp only [Bool.and_eq_true, decide_eq_true_eq, eq_iff_iff]
  tauto

/-- The bootinfo leaves the list. -/
theorem Placing.alloc_boot (h : Placing c extra start ps pend s) (hs : 0 < s.memStart) :
    Placing c extra start (ps ++ [(.bootInfo, c.bootInfoFrameBits)])
      (waiting c extra false (extraWaits s)) (s.alloc .bootInfo c.bootInfoFrameBits) := by
  have hnext := h.alloc .bootInfo c.bootInfoFrameBits
  rw [bootWaits_alloc_self hs, extraWaits_alloc_ne (by decide)] at hnext
  exact hnext

theorem Placing.alloc_extra (h : Placing c extra start ps pend s) (hs : 0 < s.memStart) :
    Placing c extra start (ps ++ [(.extraBi, extra)]) (waiting c extra (bootWaits c s) false)
      (s.alloc .extraBi extra) := by
  have hnext := h.alloc .extraBi extra
  rw [extraWaits_alloc_self hs, bootWaits_alloc_ne (by decide)] at hnext
  exact hnext

theorem memStart_alloc_pos (s : Rootserver) (o : Object) (b : Nat) :
    0 < (s.alloc o b).memStart := Nat.add_pos_right _ (Nat.two_pow_pos b)

/-- A threshold takes what is not smaller than it, in order. -/
theorem Placing.biObjects (h : Placing c extra start ps pend s) (hstart : 0 < start) (cmp : Nat) :
    Placing c extra start (ps ++ taken cmp pend) (left cmp pend)
      (Rootserver.maybeAllocBiObjects c cmp extra s) := by
  have hs : 0 < s.memStart := by rw [h.memStart]; omega
  have hboot := h.alloc_boot hs
  have hextra := h.alloc_extra hs
  have hbootExtra := hboot.alloc_extra (memStart_alloc_pos s _ _)
  have hextraBoot := hextra.alloc_boot (memStart_alloc_pos s _ _)
  rw [bootWaits_alloc_self hs, List.append_assoc] at hbootExtra
  rw [extraWaits_alloc_self hs, List.append_assoc] at hextraBoot
  obtain rfl := h.waits
  unfold Rootserver.maybeAllocBiObjects taken left waiting
  by_cases horder : extra ≤ c.bootInfoFrameBits
  · have hless : decide (cmp ≤ c.bootInfoFrameBits) = false → decide (cmp ≤ extra) = false := by
      simp only [decide_eq_false_iff_not]
      omega
    simp only [if_pos horder, maybeAllocMultiPageBi_eq, maybeAllocExtraBi_eq]
    cases hb : bootWaits c s <;> cases he : extraWaits s <;>
      cases hcb : decide (cmp ≤ c.bootInfoFrameBits) <;> cases hce : decide (cmp ≤ extra) <;>
      simp_all [waiting, extraWaits_alloc_ne, -decide_eq_true_eq, -decide_eq_false_iff_not]
  · have hless : decide (cmp ≤ extra) = false → decide (cmp ≤ c.bootInfoFrameBits) = false := by
      simp only [decide_eq_false_iff_not]
      omega
    simp only [if_neg horder, maybeAllocMultiPageBi_eq, maybeAllocExtraBi_eq]
    cases hb : bootWaits c s <;> cases he : extraWaits s <;>
      cases hcb : decide (cmp ≤ c.bootInfoFrameBits) <;> cases hce : decide (cmp ≤ extra) <;>
      simp_all [waiting, bootWaits_alloc_ne, -decide_eq_true_eq, -decide_eq_false_iff_not]

/-! ## The plan -/

variable (c extra)

def larger : Object × Nat :=
  if c.vspaceBits < c.cnodeSizeBits then (.cnode, c.cnodeSizeBits) else (.vspace, c.vspaceBits)

def smaller : Object × Nat :=
  if c.vspaceBits < c.cnodeSizeBits then (.vspace, c.vspaceBits) else (.cnode, c.cnodeSizeBits)

def waiting₀ : List (Object × Nat) :=
  waiting c extra (decide (seL4PageBits < c.bootInfoFrameBits)) true

def waiting₁ : List (Object × Nat) := left (c.rootserverMaxSizeBits extra) (waiting₀ c extra)

def waiting₂ : List (Object × Nat) := left (smaller c).2 (waiting₁ c extra)

/-- What stands before the objects of 4k. -/
def front : List (Object × Nat) :=
  taken (c.rootserverMaxSizeBits extra) (waiting₀ c extra) ++ [larger c] ++
    taken (smaller c).2 (waiting₁ c extra) ++ [smaller c] ++ taken seL4PageBits (waiting₂ c extra)

def pages : List (Object × Nat) :=
  [(.asidPool, seL4PageBits), (.ipcBuf, seL4PageBits)] ++
    if c.bootInfoFrameBits = seL4PageBits then [(.bootInfo, seL4PageBits)] else []

variable {c extra}

theorem allocCnodeVspace_eq (s : Rootserver) :
    Rootserver.allocCnodeVspace c extra s =
      (Rootserver.maybeAllocBiObjects c (smaller c).2 extra
        (s.alloc (larger c).1 (larger c).2)).alloc (smaller c).1 (smaller c).2 := by
  unfold Rootserver.allocCnodeVspace larger smaller
  split <;> rfl

theorem fixed_ne (c : Config) : ((larger c).1 ≠ .bootInfo ∧ (larger c).1 ≠ .extraBi) ∧
    (smaller c).1 ≠ .bootInfo ∧ (smaller c).1 ≠ .extraBi := by
  unfold larger smaller
  split <;> simp

theorem mem_waiting {boot extraBi : Bool} {p : Object × Nat} :
    p ∈ waiting c extra boot extraBi ↔
      boot = true ∧ p = (.bootInfo, c.bootInfoFrameBits) ∨
        extraBi = true ∧ p = (.extraBi, extra) := by
  by_cases horder : extra ≤ c.bootInfoFrameBits <;> cases boot <;> cases extraBi <;>
    simp [waiting, horder, or_comm]

theorem waiting_largerFirst (boot extraBi : Bool) :
    LargerFirst (waiting c extra boot extraBi) := by
  by_cases horder : extra ≤ c.bootInfoFrameBits <;> cases boot <;> cases extraBi <;>
    simp [waiting, LargerFirst, horder]
  omega

/-- The bootinfo is not left waiting for the objects of 4k. -/
theorem not_bootWaits_of_left_page {boot extraBi boot' extraBi' : Bool}
    (hpage : seL4PageBits < c.bootInfoFrameBits)
    (h : waiting c extra boot' extraBi' = left seL4PageBits (waiting c extra boot extraBi)) :
    boot' = false := by
  cases hboot : boot' with
  | false => rfl
  | true =>
    have hmem : (Object.bootInfo, c.bootInfoFrameBits) ∈ waiting c extra boot' extraBi' :=
      mem_waiting.mpr (Or.inl ⟨hboot, rfl⟩)
    rw [h] at hmem
    have hlt := (waiting_largerFirst boot extraBi).lt_of_mem_left hmem
    omega

/-- A bootinfo of one page is not allocated by a threshold. -/
theorem addr_bootInfo_biObjects (hpage : c.bootInfoFrameBits = seL4PageBits) (s : Rootserver)
    (cmp : Nat) : (Rootserver.maybeAllocBiObjects c cmp extra s).addr .bootInfo =
      s.addr .bootInfo := by
  have hmulti (s : Rootserver) : Rootserver.maybeAllocMultiPageBi c cmp s = s := by
    unfold Rootserver.maybeAllocMultiPageBi
    rw [if_neg (by omega)]
  have hextra : (Rootserver.maybeAllocExtraBi cmp extra s).addr .bootInfo = s.addr .bootInfo := by
    unfold Rootserver.maybeAllocExtraBi
    split
    · exact addr_alloc_ne (by decide) s extra
    · rfl
  unfold Rootserver.maybeAllocBiObjects
  rw [hmulti, hmulti]
  split <;> exact hextra

theorem createRootserverObjects_allocs (c : Config) (extra : Nat) (hstart : 0 < start) :
    (Rootserver.createRootserverObjects c start extra).allocs =
      place start (front c extra ++ pages c) := by
  have hempty : Placing c extra start [] (waiting₀ c extra) { memStart := start } := by
    refine ⟨rfl, rfl, ?_⟩
    simp [waiting₀, bootWaits, extraWaits]
  obtain ⟨⟨hlb, hle⟩, hsb, hse⟩ := fixed_ne c
  have hmax := hempty.biObjects hstart (c.rootserverMaxSizeBits extra)
  have hfixed := ((hmax.alloc_other hlb hle (larger c).2).biObjects hstart
    (smaller c).2).alloc_other hsb hse (smaller c).2
  rw [← allocCnodeVspace_eq] at hfixed
  have hfront := hfixed.biObjects hstart seL4PageBits
  have hpages := (hfront.alloc_other (o := .asidPool) (by decide) (by decide)
    seL4PageBits).alloc_other (o := .ipcBuf) (by decide) (by decide) seL4PageBits
  show (Rootserver.allocPages c extra (Rootserver.allocCnodeVspace c extra
    (Rootserver.maybeAllocBiObjects c (c.rootserverMaxSizeBits extra) extra
      { memStart := start }))).allocs = _
  unfold Rootserver.allocPages
  dsimp only
  by_cases hpage : c.bootInfoFrameBits = seL4PageBits
  · rw [if_pos]
    · have hboot := hpages.alloc .bootInfo c.bootInfoFrameBits
      rw [hboot.allocs]
      simp [front, pages, waiting₁, waiting₂, hpage]
    · rw [addr_alloc_ne (by decide), addr_alloc_ne (by decide), addr_bootInfo_biObjects hpage,
        allocCnodeVspace_eq, addr_alloc_ne hsb.symm, addr_bootInfo_biObjects hpage,
        addr_alloc_ne hlb.symm, addr_bootInfo_biObjects hpage]
  · have hlt : seL4PageBits < c.bootInfoFrameBits := by
      have := c.page_le
      omega
    have hwaits := hfront.waits
    rw [← hfixed.waits] at hwaits
    have hnot := not_bootWaits_of_left_page hlt hwaits
    rw [if_neg]
    · rw [hpages.allocs]
      simp [front, pages, waiting₁, waiting₂, hpage]
    · rw [addr_alloc_ne (by decide), addr_alloc_ne (by decide)]
      intro hzero
      exact of_decide_eq_false hnot ⟨hlt, hzero⟩

end

end Kernel
end TensorSel4
