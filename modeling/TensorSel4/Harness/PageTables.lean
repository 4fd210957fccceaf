/-
The harness guest's page tables (`guests/harness/lab.c`).

The three tables and the test page are static arrays of the guest: each is one
aligned page of its RAM, and no two of them are the same page.  `Built` is what
`build_page_tables` leaves in them, with the test page's descriptor left open:
`mapped` then says where the walk of every address ends.
-/
import TensorSel4.Translation.Mmu

namespace TensorSel4
namespace Harness

open Translation

def harnessRamGpa : Nat := 0x80000000
def harnessRamSize : Nat := 0x200000
def pageSize : Nat := 4096
def entries : Nat := 512

def descBlock : UInt64 := 0x1
def descTable : UInt64 := 0x3
def descPage : UInt64 := 0x3
def descAttr (n : UInt64) : UInt64 := n <<< 2
def descApRo : UInt64 := (1 : UInt64) <<< 7
def descShInner : UInt64 := (3 : UInt64) <<< 8
def descAf : UInt64 := (1 : UInt64) <<< 10
def descDbm : UInt64 := (1 : UInt64) <<< 51
def descPxn : UInt64 := (1 : UInt64) <<< 53
def descUxn : UInt64 := (1 : UInt64) <<< 54

/-- `MAIR_EL1` attributes. -/
def attrDevice : UInt64 := 0
def attrNormal : UInt64 := 1

/-- Where the linker puts the aligned arrays. -/
structure Layout where
  l1 : Nat
  l2 : Nat
  l3 : Nat
  testPage : Nat
  aligned : ∀ p ∈ [l1, l2, l3, testPage], p % 4096 = 0
  inRam : ∀ p ∈ [l1, l2, l3, testPage], harnessRamGpa ≤ p ∧ p < harnessRamGpa + harnessRamSize
  distinct : [l1, l2, l3, testPage].Nodup

namespace Layout

variable (L : Layout)

/-- The index of the test page's descriptor in `l3`. -/
def testIndex : Nat := (L.testPage - harnessRamGpa) / pageSize

end Layout

/-- The address of `table[i]`. -/
def entry (table i : Nat) : Nat := table + 8 * i

def testDesc (L : Layout) (hwUpdates : Bool) : UInt64 :=
  let desc := UInt64.ofNat L.testPage ||| descAttr attrNormal ||| descShInner ||| descPage
  desc ||| (if hwUpdates then descDbm ||| descApRo else descAf)

def deviceDesc : UInt64 := descAttr attrDevice ||| descAf ||| descPxn ||| descUxn ||| descBlock

def pageDesc (i : Nat) : UInt64 :=
  UInt64.ofNat (harnessRamGpa + i * pageSize) ||| descAttr attrNormal ||| descShInner ||| descAf |||
    descPage

def buildPageTables (L : Layout) (hwUpdates : Bool) (m : Words) : Words :=
  let m := Function.update m (entry L.l1 0) deviceDesc
  let m := Function.update m (entry L.l1 2) (UInt64.ofNat L.l2 ||| descTable)
  let m := Function.update m (entry L.l2 0) (UInt64.ofNat L.l3 ||| descTable)
  let m := (List.range entries).foldl
    (fun (m : Words) (i : Nat) => Function.update m (entry L.l3 i) (pageDesc i)) m
  Function.update m (entry L.l3 L.testIndex) (testDesc L hwUpdates)

/-- The arrays are static and have no initialiser. -/
def Zeroed (L : Layout) (m : Words) : Prop :=
  ∀ i < entries, m (entry L.l1 i) = 0 ∧ m (entry L.l2 i) = 0

/-- The tables, where the test page has descriptor `d`. -/
structure Built (L : Layout) (d : UInt64) (m : Words) : Prop where
  device : m (entry L.l1 0) = deviceDesc
  ram : m (entry L.l1 2) = UInt64.ofNat L.l2 ||| descTable
  l1Empty : ∀ i < entries, i ≠ 0 → i ≠ 2 → m (entry L.l1 i) = 0
  pages : m (entry L.l2 0) = UInt64.ofNat L.l3 ||| descTable
  l2Empty : ∀ i < entries, i ≠ 0 → m (entry L.l2 i) = 0
  page : ∀ i < entries, i ≠ L.testIndex → m (entry L.l3 i) = pageDesc i
  test : m (entry L.l3 L.testIndex) = d

/-- Where the walk of `va` ends. -/
def mapped (L : Layout) (d : UInt64) (va : Nat) : Walked :=
  if va < 2 ^ 30 then .leaf 2 (entry L.l1 0) deviceDesc
  else if va / 2 ^ 21 = harnessRamGpa / 2 ^ 21 then
    let i := va / 4096 % 512
    .leaf 0 (entry L.l3 i) (if i = L.testIndex then d else pageDesc i)
  else if va / 2 ^ 30 = harnessRamGpa / 2 ^ 30 then .fault 1
  else if va < 2 ^ 39 then .fault 2
  else .fault 3

/-! ## Addresses of the arrays -/

namespace Layout

variable (L : Layout)

theorem isPage {p : Nat} (hp : p ∈ [L.l1, L.l2, L.l3, L.testPage]) : IsPage p := by
  have hram := L.inRam p hp
  have hsize : harnessRamGpa + harnessRamSize ≤ 2 ^ 48 := by decide
  exact ⟨L.aligned p hp, by omega⟩

theorem testIndex_lt : L.testIndex < entries := by
  have hram := L.inRam L.testPage (by simp)
  simp only [harnessRamGpa, harnessRamSize] at hram
  simp only [testIndex, harnessRamGpa, pageSize, entries]
  omega

/-- The test page's descriptor stands where the test page is mapped. -/
theorem testPage_eq : harnessRamGpa + L.testIndex * pageSize = L.testPage := by
  have hram := L.inRam L.testPage (by simp)
  have hal := L.aligned L.testPage (by simp)
  simp only [harnessRamGpa] at hram
  simp only [testIndex, harnessRamGpa, pageSize]
  omega

end Layout

/-- Entries of two tables are the same word only where the tables are the same. -/
theorem entry_ne {p q i j : Nat} (hp : p % 4096 = 0) (hq : q % 4096 = 0) (hne : p ≠ q)
    (hi : i < entries) (hj : j < entries) : entry p i ≠ entry q j := by
  simp only [entries] at hi hj
  simp only [entry]
  omega

theorem entry_inj {p i j : Nat} (h : entry p i = entry p j) : i = j := by
  simp only [entry] at h
  omega

section

variable {L : Layout} {d : UInt64} {m : Words}

theorem Layout.entry_l1_ne_l2 {i j : Nat} (hi : i < entries) (hj : j < entries) :
    entry L.l1 i ≠ entry L.l2 j := by
  have hd := L.distinct
  simp only [List.nodup_cons, List.mem_cons, not_or] at hd
  exact entry_ne (L.aligned _ (by simp)) (L.aligned _ (by simp)) hd.1.1 hi hj

theorem Layout.entry_l1_ne_l3 {i j : Nat} (hi : i < entries) (hj : j < entries) :
    entry L.l1 i ≠ entry L.l3 j := by
  have hd := L.distinct
  simp only [List.nodup_cons, List.mem_cons, not_or] at hd
  exact entry_ne (L.aligned _ (by simp)) (L.aligned _ (by simp)) hd.1.2.1 hi hj

theorem Layout.entry_l2_ne_l3 {i j : Nat} (hi : i < entries) (hj : j < entries) :
    entry L.l2 i ≠ entry L.l3 j := by
  have hd := L.distinct
  simp only [List.nodup_cons, List.mem_cons, not_or] at hd
  exact entry_ne (L.aligned _ (by simp)) (L.aligned _ (by simp)) hd.2.1.1 hi hj

/-! ## What is built -/

theorem foldl_pages_of_ne (l : List Nat) {a : Nat} (ha : ∀ i ∈ l, a ≠ entry L.l3 i) :
    l.foldl (fun (m : Words) (i : Nat) => Function.update m (entry L.l3 i) (pageDesc i)) m a =
      m a := by
  induction l generalizing m with
  | nil => rfl
  | cons i l ih =>
    rw [List.foldl_cons, ih (fun j hj => ha j (List.mem_cons_of_mem _ hj)),
      Function.update_of_ne (ha i List.mem_cons_self)]

/-- The loop of `build_page_tables` has written entry `i` for every `i` it has passed. -/
theorem foldl_pages (n : Nat) {i : Nat} (hi : i < n) :
    (List.range n).foldl
      (fun (m : Words) (i : Nat) => Function.update m (entry L.l3 i) (pageDesc i)) m
      (entry L.l3 i) = pageDesc i := by
  induction n with
  | zero => omega
  | succ n ih =>
    rw [List.range_succ, List.foldl_append, List.foldl_cons, List.foldl_nil]
    by_cases hin : i = n
    · subst hin
      rw [Function.update_self]
    · rw [Function.update_of_ne (fun h => hin (entry_inj h)), ih (by omega)]

theorem built_buildPageTables (hzero : Zeroed L m) (hwUpdates : Bool) :
    Built L (testDesc L hwUpdates) (buildPageTables L hwUpdates m) := by
  have ht := L.testIndex_lt
  have hrange : ∀ {a : Nat}, (∀ i < entries, a ≠ entry L.l3 i) →
      ∀ i ∈ List.range entries, a ≠ entry L.l3 i :=
    fun h i hi => h i (List.mem_range.mp hi)
  have hl1 : ∀ i < entries, ∀ j < entries, entry L.l1 i ≠ entry L.l3 j :=
    fun i hi j hj => L.entry_l1_ne_l3 hi hj
  have hl2 : ∀ i < entries, ∀ j < entries, entry L.l2 i ≠ entry L.l3 j :=
    fun i hi j hj => L.entry_l2_ne_l3 hi hj
  have h12 : ∀ i < entries, ∀ j < entries, entry L.l1 i ≠ entry L.l2 j :=
    fun i hi j hj => L.entry_l1_ne_l2 hi hj
  have h0 : 0 < entries := by decide
  have h2 : 2 < entries := by decide
  simp only [buildPageTables]
  constructor
  · rw [Function.update_of_ne (hl1 _ h0 _ ht), foldl_pages_of_ne _ (hrange (hl1 _ h0)),
      Function.update_of_ne (h12 _ h0 _ h0),
      Function.update_of_ne (fun h => absurd (entry_inj h) (by omega)), Function.update_self]
  · rw [Function.update_of_ne (hl1 _ h2 _ ht), foldl_pages_of_ne _ (hrange (hl1 _ h2)),
      Function.update_of_ne (h12 _ h2 _ h0), Function.update_self]
  · intro i hi hi0 hi2
    rw [Function.update_of_ne (hl1 _ hi _ ht), foldl_pages_of_ne _ (hrange (hl1 _ hi)),
      Function.update_of_ne (h12 _ hi _ h0), Function.update_of_ne (fun h => hi2 (entry_inj h)),
      Function.update_of_ne (fun h => hi0 (entry_inj h)), (hzero i hi).1]
  · rw [Function.update_of_ne (hl2 _ h0 _ ht), foldl_pages_of_ne _ (hrange (hl2 _ h0)),
      Function.update_self]
  · intro i hi hi0
    rw [Function.update_of_ne (hl2 _ hi _ ht), foldl_pages_of_ne _ (hrange (hl2 _ hi)),
      Function.update_of_ne (fun h => hi0 (entry_inj h)),
      Function.update_of_ne (h12 _ h2 _ hi).symm, Function.update_of_ne (h12 _ h0 _ hi).symm,
      (hzero i hi).2]
  · intro i hi hne
    rw [Function.update_of_ne (fun h => hne (entry_inj h)), foldl_pages _ hi]
  · rw [Function.update_self]

/-- Nothing is written outside the tables. -/
theorem buildPageTables_of_ne {a : Nat}
    (ha : ∀ p ∈ [L.l1, L.l2, L.l3], ∀ i < entries, a ≠ entry p i) (hwUpdates : Bool) :
    buildPageTables L hwUpdates m a = m a := by
  have h1 := ha L.l1 (by simp)
  have h2 := ha L.l2 (by simp)
  have h3 := ha L.l3 (by simp)
  simp only [buildPageTables]
  rw [Function.update_of_ne (h3 _ L.testIndex_lt),
    foldl_pages_of_ne _ (fun i hi => h3 i (List.mem_range.mp hi)),
    Function.update_of_ne (h2 0 (by decide)), Function.update_of_ne (h1 2 (by decide)),
    Function.update_of_ne (h1 0 (by decide))]

/-! ## The walk -/

def pageAttrs : UInt64 := descAttr attrNormal ||| descShInner ||| descAf ||| descPage

def testAttrs (hwUpdates : Bool) : UInt64 :=
  descAttr attrNormal ||| descShInner ||| descPage |||
    (if hwUpdates then descDbm ||| descApRo else descAf)

theorem pageDesc_eq (i : Nat) :
    pageDesc i = UInt64.ofNat (harnessRamGpa + i * pageSize) ||| pageAttrs := by
  simp only [pageDesc, pageAttrs, UInt64.or_assoc]

theorem testDesc_eq (L : Layout) (hwUpdates : Bool) :
    testDesc L hwUpdates = UInt64.ofNat L.testPage ||| testAttrs hwUpdates := by
  simp only [testDesc, testAttrs, UInt64.or_assoc]

theorem isPage_ram {i : Nat} (hi : i < entries) : IsPage (harnessRamGpa + i * pageSize) := by
  simp only [entries] at hi
  simp only [IsPage, harnessRamGpa, pageSize]
  omega

theorem slotOf_eq (table below va : Nat) :
    slotOf table below va = entry table (va / 2 ^ span below % 512) := rfl

theorem walk_built (h : Built L d m) (hd : d &&& 3 = 3) (va : Nat) :
    walk m 2 L.l1 va = mapped L d va := by
  have hslot : slotOf L.l1 2 va = entry L.l1 (va / 2 ^ 30 % 512) := rfl
  have hlt : va / 2 ^ 30 % 512 < entries := Nat.mod_lt _ (by decide)
  rw [walk, mapped]
  show (if va < 2 ^ 39 then _ else _) = _
  by_cases hlow : va < 2 ^ 30
  · have hidx : va / 2 ^ 30 % 512 = 0 := by omega
    rw [hidx] at hslot
    rw [if_pos (by omega), if_pos hlow, walkFrom_block, hslot, h.device] <;>
      rw [hslot, h.device] <;> decide
  rw [if_neg hlow]
  by_cases hram : va / 2 ^ 21 = harnessRamGpa / 2 ^ 21
  · have hnum : va / 2 ^ 21 = 1024 := hram
    have hidx : va / 2 ^ 30 % 512 = 2 := by omega
    have hidx' : slotOf L.l2 1 va = entry L.l2 0 := by
      rw [slotOf_eq]
      show entry L.l2 (va / 2 ^ 21 % 512) = _
      rw [hnum]
    have hi : va / 4096 % 512 < entries := Nat.mod_lt _ (by decide)
    have hslot0 : slotOf L.l3 0 va = entry L.l3 (va / 4096 % 512) := rfl
    rw [hidx] at hslot
    rw [if_pos hram, if_pos (by omega),
      walkFrom_table (L.isPage (by simp)) (hslot ▸ h.ram) (by decide) (by decide) (by decide),
      walkFrom_table (L.isPage (by simp)) (hidx' ▸ h.pages) (by decide) (by decide) (by decide)]
    have hdesc : m (entry L.l3 (va / 4096 % 512)) =
        if va / 4096 % 512 = L.testIndex then d else pageDesc (va / 4096 % 512) := by
      split
      · next ht => rw [ht, h.test]
      · next ht => exact h.page _ hi ht
    have hvalid : m (slotOf L.l3 0 va) &&& (validBit ||| tableBit) = validBit ||| tableBit := by
      rw [hslot0, hdesc]
      split
      · exact hd
      · rw [pageDesc_eq, (isPage_ram hi).or_and_of_disjoint (by decide)]
        decide
    rw [walkFrom_page hvalid, hslot0, hdesc]
  rw [if_neg hram]
  by_cases hgib : va / 2 ^ 30 = harnessRamGpa / 2 ^ 30
  · have hnum : va / 2 ^ 30 = 2 := hgib
    have hram' : ¬va / 2 ^ 21 = 1024 := hram
    have hidx : va / 2 ^ 30 % 512 = 2 := by omega
    have hslot' : slotOf L.l2 1 va = entry L.l2 (va / 2 ^ 21 % 512) := rfl
    rw [hidx] at hslot
    rw [if_pos hgib, if_pos (by omega),
      walkFrom_table (L.isPage (by simp)) (hslot ▸ h.ram) (by decide) (by decide) (by decide),
      walkFrom_empty]
    rw [hslot']
    exact h.l2Empty _ (Nat.mod_lt _ (by decide)) (by omega)
  rw [if_neg hgib]
  split
  · next h39 =>
    have hgib' : ¬va / 2 ^ 30 = 2 := hgib
    rw [walkFrom_empty]
    rw [hslot]
    exact h.l1Empty _ hlt (by omega) (by omega)
  · rfl

/-! ## The map -/

/-- The page table's own view of an address: where it is, and what may be done there. -/
def lookup (L : Layout) (m : Words) (va : Nat) : Option (Nat × Rights) := resolve m 2 L.l1 va

def deviceRights : Rights where
  attr := attrDevice
  share := 0
  never := true
  readOnly := false
  untilDirty := false
  accessed := true

def ramRights : Rights where
  attr := attrNormal
  share := 3
  never := false
  readOnly := false
  untilDirty := false
  accessed := true

/-- The test page, before the hardware has updated its descriptor. -/
def resetRights : Rights where
  attr := attrNormal
  share := 3
  never := false
  readOnly := true
  untilDirty := true
  accessed := false

theorem rights_pageDesc {i : Nat} (hi : i < entries) : rights (pageDesc i) = ramRights := by
  rw [pageDesc_eq, (isPage_ram hi).rights_or]
  decide

theorem rights_testAttrs (hwUpdates : Bool) :
    rights (testAttrs hwUpdates) = if hwUpdates then resetRights else ramRights := by
  cases hwUpdates <;> decide

theorem outputAddress_pageDesc {va : Nat} (hram : va / 2 ^ 21 = harnessRamGpa / 2 ^ 21) :
    outputAddress 0 (pageDesc (va / 4096 % 512)) va = va := by
  have hnum : va / 2 ^ 21 = 1024 := hram
  have hi : va / 4096 % 512 < entries := Nat.mod_lt _ (by decide)
  rw [pageDesc_eq, outputAddress_page (isPage_ram hi) (by decide)]
  simp only [harnessRamGpa, pageSize]
  omega

/-- The test page's descriptor with attributes `c`. -/
def word (L : Layout) (c : UInt64) : UInt64 := UInt64.ofNat L.testPage ||| c

/-- Attributes of a page: no address bits, and a valid entry of the last level. -/
structure Attributes (c : UInt64) : Prop where
  address : c &&& addressMask = 0
  valid : c &&& 3 = 3

theorem attributes_testAttrs (hwUpdates : Bool) : Attributes (testAttrs hwUpdates) := by
  cases hwUpdates <;> constructor <;> decide

theorem word_and {c f : UInt64} (hf : addressMask &&& f = 0) : word L c &&& f = c &&& f :=
  (L.isPage (by simp)).or_and_of_disjoint hf

theorem word_valid {c : UInt64} (hc : Attributes c) : word L c &&& 3 = 3 := by
  rw [word_and (by decide), hc.valid]

theorem rights_word (c : UInt64) : rights (word L c) = rights c :=
  (L.isPage (by simp)).rights_or c

theorem outputAddress_word {va : Nat} {c : UInt64} (hc : Attributes c)
    (hva : va / 4096 = L.testPage / 4096) : outputAddress 0 (word L c) va = va := by
  have hal := L.aligned L.testPage (by simp)
  rw [word, outputAddress_page (L.isPage (by simp)) hc.address]
  omega

theorem ram_iff {va : Nat} : va / 2 ^ 21 = harnessRamGpa / 2 ^ 21 ↔
    harnessRamGpa ≤ va ∧ va < harnessRamGpa + harnessRamSize := by
  simp only [harnessRamGpa, harnessRamSize]
  omega

theorem testIndex_iff {va : Nat} (hram : va / 2 ^ 21 = harnessRamGpa / 2 ^ 21) :
    va / 4096 % 512 = L.testIndex ↔ va / pageSize = L.testPage / pageSize := by
  have hnum : va / 2 ^ 21 = 1024 := hram
  have hlt := L.testIndex_lt
  have hpage := L.testPage_eq
  simp only [harnessRamGpa, pageSize, entries] at hpage hlt
  simp only [pageSize]
  omega

/-- The map of built tables, whatever the attributes of the test page. -/
theorem lookup_built {c : UInt64} (h : Built L (word L c) m) (hc : Attributes c) (va : Nat) :
    lookup L m va =
      if va < 2 ^ 30 then some (va, deviceRights)
      else if harnessRamGpa ≤ va ∧ va < harnessRamGpa + harnessRamSize then
        some (va, if va / pageSize = L.testPage / pageSize then rights c else ramRights)
      else none := by
  rw [lookup, resolve, walk_built h (word_valid hc), mapped]
  by_cases hlow : va < 2 ^ 30
  · have hout : outputAddress 2 deviceDesc va = va := by
      show 0 / 2 ^ 30 * 2 ^ 30 + va % 2 ^ 30 = va
      omega
    rw [if_pos hlow, if_pos hlow]
    show some (outputAddress 2 deviceDesc va, rights deviceDesc) = _
    rw [hout, show rights deviceDesc = deviceRights by decide]
  rw [if_neg hlow, if_neg hlow]
  by_cases hram : va / 2 ^ 21 = harnessRamGpa / 2 ^ 21
  · rw [if_pos hram, if_pos (ram_iff.mp hram)]
    dsimp only
    by_cases ht : va / 4096 % 512 = L.testIndex
    · have hpage := (testIndex_iff hram).mp ht
      rw [if_pos ht, if_pos hpage, rights_word, outputAddress_word hc hpage]
    · have hne : ¬va / pageSize = L.testPage / pageSize := fun h => ht ((testIndex_iff hram).mpr h)
      have hi : va / 4096 % 512 < entries := Nat.mod_lt _ (by decide)
      rw [if_neg ht, if_neg hne, outputAddress_pageDesc hram, rights_pageDesc hi]
  · rw [if_neg hram, if_neg (fun h => hram (ram_iff.mpr h))]
    split_ifs <;> rfl

/-- The map that the harness turns on is the identity on the first GiB, as device memory
that is never executed, and on its own RAM; every other address faults.  All of RAM may be
read, written and executed, the test page included unless its descriptor is left to the
hardware. -/
theorem identity_map (L : Layout) (m : Words) (hwUpdates : Bool) (hzero : Zeroed L m) (va : Nat) :
    lookup L (buildPageTables L hwUpdates m) va =
      if va < 2 ^ 30 then some (va, deviceRights)
      else if harnessRamGpa ≤ va ∧ va < harnessRamGpa + harnessRamSize then
        some (va, if va / pageSize = L.testPage / pageSize ∧ hwUpdates then resetRights
          else ramRights)
      else none := by
  have hbuilt := built_buildPageTables hzero hwUpdates
  rw [testDesc_eq] at hbuilt
  rw [lookup_built hbuilt (attributes_testAttrs hwUpdates), rights_testAttrs]
  cases hwUpdates <;> simp

end

/-! ## A layout -/

theorem sample_aligned : ∀ p ∈ [0x80003000, 0x80004000, 0x80005000, 0x80006000], p % 4096 = 0 := by
  decide

theorem sample_inRam : ∀ p ∈ [0x80003000, 0x80004000, 0x80005000, 0x80006000],
    harnessRamGpa ≤ p ∧ p < harnessRamGpa + harnessRamSize := by
  decide

theorem sample_distinct : [0x80003000, 0x80004000, 0x80005000, 0x80006000].Nodup := by
  decide

def sampleLayout : Layout where
  l1 := 0x80003000
  l2 := 0x80004000
  l3 := 0x80005000
  testPage := 0x80006000
  aligned := sample_aligned
  inRam := sample_inRam
  distinct := sample_distinct

theorem zeroed_sample : Zeroed sampleLayout fun _ => 0 := fun _ _ => ⟨rfl, rfl⟩

/-- The UART is device memory at its own address, and the first address past RAM faults. -/
theorem identity_map_sample :
    lookup sampleLayout (buildPageTables sampleLayout true fun _ => 0) 0x10870000 =
        some (0x10870000, deviceRights) ∧
      lookup sampleLayout (buildPageTables sampleLayout true fun _ => 0) 0x80200000 = none :=
  ⟨identity_map sampleLayout _ true zeroed_sample 0x10870000,
    identity_map sampleLayout _ true zeroed_sample 0x80200000⟩

end Harness
end TensorSel4
