/-
The page-table rounds of the harness (`walk_round`, `report_hw_update`).

A round writes the test page's descriptor back, drops the cached translation and
touches the test page, all of it through the map that the tables describe.  The
state of the tables between two instructions is `Coherent`: they are `Built` for
some attributes `c` of the test page, and every cached translation of another page
is the one in the tables.  `fresh` adds the same for the test page; it is lost when
the descriptor is written and comes back with the invalidation.
-/
import TensorSel4.Harness.PageTables

namespace TensorSel4
namespace Harness

open Translation

/-- `ID_AA64MMFR1_EL1.HAFDBS`: the updates of descriptors that a processor can make. -/
inductive Hafdbs where
  | none
  | flag
  | dirty
deriving DecidableEq

/-- `TCR_EL1` as `mmu_on` writes it, on a processor with `cpu`. -/
def regime (L : Layout) (hwUpdates : Bool) (cpu : Hafdbs) : Regime where
  table := L.l1
  below := 2
  flag := hwUpdates && decide (cpu ≠ .none)
  dirty := hwUpdates && decide (cpu = .dirty)

structure Walk where
  hwUpdates : Bool
  broadcast : Bool

/-- `&l3[(test_page - HARNESS_RAM_GPA) / PAGE_SIZE]` -/
def slot (L : Layout) : Nat := entry L.l3 L.testIndex

/-- The guest has one core: both forms drop the page from its cache. -/
def invalidatePage (vaPage : Nat) (_broadcast : Bool) (s : Mmu) : Mmu := s.invalidate vaPage

/-- The word `v` after a store of `x` to its low half. -/
def withLow (v : UInt64) (x : UInt32) : UInt64 := (v &&& 0xffffffff00000000) ||| x.toUInt64

/-- `test_page[0] = test_page[0] + 1` -/
def increment (v : UInt64) : UInt64 := withLow v (v.toUInt32 + 1)

/-- What the hardware does before each access of a round. -/
structure Gaps where
  reset : List Mmu.Idle
  flush : List Mmu.Idle
  read : List Mmu.Idle
  write : List Mmu.Idle

def walkRound (L : Layout) (cpu : Hafdbs) (walk : Walk) (g : Gaps) (s : Mmu) : Option Mmu :=
  let r := regime L walk.hwUpdates cpu
  ((s.idles r g.reset).store r (slot L) (testDesc L walk.hwUpdates)).bind fun s =>
    let s := invalidatePage (L.testPage / 4096) walk.broadcast (s.idles r g.flush)
    ((s.idles r g.read).load r L.testPage).bind fun t =>
      (t.2.idles r g.write).store r L.testPage (increment t.1)

def walkRounds (L : Layout) (cpu : Hafdbs) (walk : Walk) : List Gaps → Mmu → Option Mmu
  | [], s => some s
  | g :: gs, s => (walkRound L cpu walk g s).bind (walkRounds L cpu walk gs)

/-- `(desc & DESC_AF) && !(desc & DESC_AP_RO)` -/
def updatedByHardware (desc : UInt64) : Bool :=
  desc &&& descAf ≠ 0 && desc &&& descApRo = 0

/-- `mmu_on`, from the zeroed arrays; `tlbi vmalle1` has emptied the cache. -/
def mmuOn (L : Layout) (hwUpdates : Bool) (m : Words) : Mmu where
  words := buildPageTables L hwUpdates m
  tlb := fun _ => none

/-! ## Attributes of the test page -/

theorem Attributes.seen {c : UInt64} (h : Attributes c) : Attributes (c ||| accessFlag) := by
  constructor
  · rw [or_and_field, h.address]
    decide
  · rw [or_and_field, h.valid]
    decide

/-- The attributes after the first store of a round. -/
def writtenAttrs (hwUpdates : Bool) : UInt64 :=
  (testAttrs hwUpdates ||| accessFlag) &&& ~~~readOnlyBit

theorem writtenAttrs_seen (hwUpdates : Bool) :
    writtenAttrs hwUpdates ||| accessFlag = writtenAttrs hwUpdates := by
  cases hwUpdates <;> decide

theorem testBit_accessFlag (i : Nat) : accessFlag.toNat.testBit i = decide (10 = i) := by
  have hflag : accessFlag.toNat = 2 ^ 10 := by decide
  rw [hflag, Nat.testBit_two_pow]

theorem or_accessFlag_and (c : UInt64) : (c ||| accessFlag) &&& accessFlag ≠ 0 := by
  intro h
  have hbit := congrArg (fun v : UInt64 => v.toNat.testBit 10) h
  simp [UInt64.toNat_and, UInt64.toNat_or, testBit_accessFlag] at hbit

/-- Setting the flag again changes nothing. -/
theorem or_accessFlag_of_and {c : UInt64} (h : c &&& accessFlag ≠ 0) : c ||| accessFlag = c := by
  have hbit : c.toNat.testBit 10 = true := by
    by_contra hclear
    apply h
    apply UInt64.toNat_inj.mp
    apply Nat.eq_of_testBit_eq
    intro i
    rw [UInt64.toNat_and, Nat.testBit_and, testBit_accessFlag, UInt64.toNat_zero, Nat.zero_testBit]
    by_cases hi : 10 = i
    · subst hi
      simpa using hclear
    · simp [hi]
  apply UInt64.toNat_inj.mp
  apply Nat.eq_of_testBit_eq
  intro i
  rw [UInt64.toNat_or, Nat.testBit_or, testBit_accessFlag]
  by_cases hi : 10 = i
  · subst hi
    simp [hbit]
  · simp [hi]

theorem and_not_of_and {c f : UInt64} (h : c &&& f = 0) : c &&& ~~~f = c := by
  have hsplit : (f ||| ~~~f) &&& c = (f &&& c) ||| (~~~f &&& c) := or_and_field f (~~~f) c
  rw [UInt64.or_not_self, UInt64.neg_one_and, UInt64.and_comm f, h, UInt64.zero_or,
    UInt64.and_comm] at hsplit
  exact hsplit.symm

/-- Clearing `f` leaves the fields without it alone. -/
theorem and_not_and {c f g : UInt64} (hfg : ~~~f &&& g = g) : c &&& ~~~f &&& g = c &&& g := by
  rw [UInt64.and_assoc, hfg]

theorem Attributes.writable {c : UInt64} (h : Attributes c) :
    Attributes (c &&& ~~~readOnlyBit) := by
  constructor
  · rw [and_not_and (by decide), h.address]
  · rw [and_not_and (by decide), h.valid]

section

variable {L : Layout} {c : UInt64}

theorem word_and_not (c : UInt64) :
    word L c &&& ~~~readOnlyBit = word L (c &&& ~~~readOnlyBit) := by
  have hpage := L.isPage (p := L.testPage) (by simp)
  have hclear : UInt64.ofNat L.testPage &&& readOnlyBit = 0 := by
    rw [← hpage.and_addressMask, UInt64.and_assoc, show addressMask &&& readOnlyBit = 0 by decide,
      UInt64.and_zero]
  rw [word, or_and_field, and_not_of_and hclear, ← word]

theorem word_or (c f : UInt64) : word L c ||| f = word L (c ||| f) := by
  rw [word, word, UInt64.or_assoc]

/-! ## Addresses of the test page and its descriptor -/

theorem testPage_ram : L.testPage / 2 ^ 21 = harnessRamGpa / 2 ^ 21 :=
  ram_iff.mpr (L.inRam L.testPage (by simp))

theorem slot_page : slot L / 4096 = L.l3 / 4096 := by
  have hal := L.aligned L.l3 (by simp)
  have hi := L.testIndex_lt
  simp only [entries] at hi
  simp only [slot, entry]
  omega

theorem slot_ram : slot L / 2 ^ 21 = harnessRamGpa / 2 ^ 21 := by
  have hl3 := ram_iff.mpr (L.inRam L.l3 (by simp))
  have hpage := slot_page (L := L)
  have hnum : L.l3 / 2 ^ 21 = 1024 := hl3
  show slot L / 2 ^ 21 = 1024
  omega

theorem slot_ne_test : slot L / 4096 ≠ L.testPage / 4096 := by
  have hd := L.distinct
  have h3 := L.aligned L.l3 (by simp)
  have ht := L.aligned L.testPage (by simp)
  simp only [List.nodup_cons, List.mem_cons, not_or] at hd
  rw [slot_page]
  have hne : L.l3 ≠ L.testPage := hd.2.2.1.1
  omega

/-- No word of the tables is in the test page. -/
theorem entry_ne_testPage {p i : Nat} (hp : p ∈ [L.l1, L.l2, L.l3]) (hi : i < entries) :
    entry p i ≠ L.testPage := by
  have hd := L.distinct
  simp only [List.nodup_cons, List.mem_cons, not_or] at hd
  have hne : p ≠ L.testPage := by
    simp only [List.mem_cons, List.not_mem_nil, or_false] at hp
    rcases hp with rfl | rfl | rfl
    · exact hd.1.2.2.1
    · exact hd.2.1.2.1
    · exact hd.2.2.1.1
  have hpal : p % 4096 = 0 := by
    apply L.aligned
    simp only [List.mem_cons, List.not_mem_nil, or_false] at hp ⊢
    omega
  have htal := L.aligned L.testPage (by simp)
  have htest : L.testPage = entry L.testPage 0 := by simp [entry]
  rw [htest]
  exact entry_ne hpal htal hne hi (by decide)

/-! ## Writes to the tables -/

/-- The tables are built wherever their other words agree. -/
theorem Built.of_agree {d d' : UInt64} {m m' : Words} (h : Built L d m)
    (hagree : ∀ p ∈ [L.l1, L.l2, L.l3], ∀ i < entries, entry p i ≠ slot L →
      m' (entry p i) = m (entry p i)) (hslot : m' (slot L) = d') : Built L d' m' := by
  have ht := L.testIndex_lt
  have h1 : ∀ i < entries, m' (entry L.l1 i) = m (entry L.l1 i) :=
    fun i hi => hagree L.l1 (by simp) i hi (L.entry_l1_ne_l3 hi ht)
  have h2 : ∀ i < entries, m' (entry L.l2 i) = m (entry L.l2 i) :=
    fun i hi => hagree L.l2 (by simp) i hi (L.entry_l2_ne_l3 hi ht)
  constructor
  · rw [h1 0 (by decide), h.device]
  · rw [h1 2 (by decide), h.ram]
  · intro i hi h0 h2
    rw [h1 i hi, h.l1Empty i hi h0 h2]
  · rw [h2 0 (by decide), h.pages]
  · intro i hi h0
    rw [h2 i hi, h.l2Empty i hi h0]
  · intro i hi hne
    rw [hagree L.l3 (by simp) i hi (fun h => hne (entry_inj h)), h.page i hi hne]
  · exact hslot

theorem Built.write_slot {d d' : UInt64} {m : Words} (h : Built L d m) :
    Built L d' (Function.update m (slot L) d') :=
  h.of_agree (fun _ _ _ _ hne => Function.update_of_ne hne ..) (Function.update_self ..)

theorem slot_ne_testPage : slot L ≠ L.testPage :=
  entry_ne_testPage (by simp) L.testIndex_lt

theorem Built.write_testPage {d v : UInt64} {m : Words} (h : Built L d m) :
    Built L d (Function.update m L.testPage v) := by
  apply h.of_agree
  · intro p hp i hi _
    rw [Function.update_of_ne (entry_ne_testPage hp hi)]
  · rw [Function.update_of_ne slot_ne_testPage]
    exact h.test

/-! ## Walks -/

/-- The test page's descriptor plays no part in the walks of other pages. -/
theorem mapped_of_ne {d d' : UInt64} {va : Nat} (hva : va / 4096 ≠ L.testPage / 4096) :
    mapped L d va = mapped L d' va := by
  rw [mapped, mapped]
  by_cases hram : va / 2 ^ 21 = harnessRamGpa / 2 ^ 21
  · have hne : va / 4096 % 512 ≠ L.testIndex := fun h => hva ((testIndex_iff hram).mp h)
    simp only [if_neg hne]
  · simp only [if_neg hram]

theorem mapped_test {d : UInt64} {va : Nat} (hva : va / 4096 = L.testPage / 4096) :
    mapped L d va = .leaf 0 (slot L) d := by
  have htest : L.testPage / 2 ^ 21 = 1024 := testPage_ram
  have hram : va / 2 ^ 21 = harnessRamGpa / 2 ^ 21 := by
    show va / 2 ^ 21 = 1024
    omega
  have hidx := (testIndex_iff hram).mpr hva
  have hhigh : ¬va < 2 ^ 30 := by
    have hnum : va / 2 ^ 21 = 1024 := hram
    omega
  rw [mapped, if_neg hhigh, if_pos hram]
  simp only [hidx, if_true]
  rfl

/-- Every leaf of another page has its access flag set and may be written. -/
theorem mapped_leaf {d : UInt64} {va below a : Nat} {desc : UInt64}
    (hva : va / 4096 ≠ L.testPage / 4096) (h : mapped L d va = .leaf below a desc) :
    desc &&& accessFlag ≠ 0 ∧ desc &&& readOnlyBit = 0 ∧ outputAddress below desc va = va := by
  rw [mapped] at h
  split at h
  · next hlow =>
    obtain ⟨rfl, rfl, rfl⟩ := Walked.leaf.inj h
    refine ⟨by decide, by decide, ?_⟩
    show 0 / 2 ^ 30 * 2 ^ 30 + va % 2 ^ 30 = va
    omega
  split at h
  · next hram =>
    have hne : va / 4096 % 512 ≠ L.testIndex := fun h => hva ((testIndex_iff hram).mp h)
    have hi : va / 4096 % 512 < entries := Nat.mod_lt _ (by decide)
    dsimp only at h
    rw [if_neg hne] at h
    obtain ⟨rfl, rfl, rfl⟩ := Walked.leaf.inj h
    have hand : ∀ f, addressMask &&& f = 0 →
        pageDesc (va / 4096 % 512) &&& f = pageAttrs &&& f := by
      intro f hf
      rw [pageDesc_eq, (isPage_ram hi).or_and_of_disjoint hf]
    rw [hand _ (by decide), hand _ (by decide)]
    exact ⟨by decide, by decide, outputAddress_pageDesc hram⟩
  split_ifs at h

theorem mapped_page {d : UInt64} {va va' : Nat} (h : va / 4096 = va' / 4096) :
    mapped L d va = mapped L d va' := by
  have h1 : (va < 2 ^ 30) = (va' < 2 ^ 30) := propext (by omega)
  have h2 : va / 2 ^ 21 = va' / 2 ^ 21 := by omega
  have h3 : va / 2 ^ 30 = va' / 2 ^ 30 := by omega
  have h4 : (va < 2 ^ 39) = (va' < 2 ^ 39) := propext (by omega)
  simp only [mapped, h, h1, h2, h3, h4]

theorem mapped_ram {d : UInt64} {va : Nat} (hram : va / 2 ^ 21 = harnessRamGpa / 2 ^ 21) :
    ∃ a desc, mapped L d va = .leaf 0 a desc := by
  have hhigh : ¬va < 2 ^ 30 := by
    have hnum : va / 2 ^ 21 = 1024 := hram
    omega
  rw [mapped, if_neg hhigh, if_pos hram]
  exact ⟨_, _, rfl⟩

end

/-! ## The tables and the cache -/

structure Coherent (fresh : Bool) (L : Layout) (c : UInt64) (s : Mmu) : Prop where
  attributes : Attributes c
  built : Built L (word L c) s.words
  cached : ∀ va e, va / 4096 ≠ L.testPage / 4096 → s.tlb (va / 4096) = some e →
    mapped L (word L c) va = .leaf e.below e.slot e.desc
  test : fresh = true → ∀ e, s.tlb (L.testPage / 4096) = some e →
    e = ⟨0, slot L, word L c⟩ ∧ c &&& accessFlag ≠ 0

/-- Nothing but the test page's descriptor differs. -/
def Frame (L : Layout) (s s' : Mmu) : Prop := ∀ a, a ≠ slot L → s'.words a = s.words a

section

variable {L : Layout} {r : Regime} {fresh : Bool} {c : UInt64} {s s' s'' : Mmu} {va : Nat}

theorem Frame.refl (L : Layout) (s : Mmu) : Frame L s s := fun _ _ => rfl

theorem Frame.trans (h : Frame L s s') (h' : Frame L s' s'') : Frame L s s'' :=
  fun a ha => (h' a ha).trans (h a ha)

namespace Coherent

theorem of_fresh (h : Coherent true L c s) : Coherent fresh L c s :=
  ⟨h.attributes, h.built, h.cached, fun _ => h.test rfl⟩

theorem walk_eq (h : Coherent fresh L c s) (va : Nat) :
    walk s.words 2 L.l1 va = mapped L (word L c) va :=
  walk_built h.built (word_valid h.attributes) va

theorem invalidate (h : Coherent fresh L c s) (page : Nat) :
    Coherent fresh L c (s.invalidate page) := by
  refine ⟨h.attributes, h.built, ?_, ?_⟩
  · intro va e hva he
    by_cases hp : va / 4096 = page
    · simp [hp] at he
    · rw [Mmu.invalidate_tlb, Function.update_of_ne hp] at he
      exact h.cached va e hva he
  · intro hf e he
    by_cases hp : L.testPage / 4096 = page
    · simp [hp] at he
    · rw [Mmu.invalidate_tlb, Function.update_of_ne hp] at he
      exact h.test hf e he

/-- With no cached translation of the test page, none is out of date. -/
theorem invalidate_test (h : Coherent fresh L c s) :
    Coherent true L c (s.invalidate (L.testPage / 4096)) := by
  have hinv := h.invalidate (L.testPage / 4096)
  refine ⟨hinv.attributes, hinv.built, hinv.cached, ?_⟩
  intro _ e he
  simp at he

theorem keep_other (h : Coherent fresh L c s) {e : Entry} (hva : va / 4096 ≠ L.testPage / 4096)
    (he : mapped L (word L c) va = .leaf e.below e.slot e.desc) :
    Coherent fresh L c (s.keep va e) := by
  refine ⟨h.attributes, h.built, ?_, ?_⟩
  · intro va' e' hva' he'
    rw [Mmu.keep_tlb] at he'
    by_cases hp : va' / 4096 = va / 4096
    · rw [hp, Function.update_self] at he'
      rw [← Option.some.inj he', mapped_page hp, he]
    · rw [Function.update_of_ne hp] at he'
      exact h.cached va' e' hva' he'
  · intro hf e' he'
    rw [Mmu.keep_tlb, Function.update_of_ne hva.symm] at he'
    exact h.test hf e' he'

theorem keep_test (h : Coherent fresh L c s) (hva : va / 4096 = L.testPage / 4096)
    (haf : c &&& accessFlag ≠ 0) : Coherent true L c (s.keep va ⟨0, slot L, word L c⟩) := by
  refine ⟨h.attributes, h.built, ?_, ?_⟩
  · intro va' e' hva' he'
    rw [Mmu.keep_tlb, Function.update_of_ne (hva ▸ hva')] at he'
    exact h.cached va' e' hva' he'
  · intro _ e' he'
    rw [Mmu.keep_tlb, hva, Function.update_self] at he'
    exact ⟨(Option.some.inj he').symm, haf⟩

theorem write_slot (h : Coherent fresh L c s) {c' : UInt64} (hc' : Attributes c') :
    Coherent false L c' (s.write (slot L) (word L c')) := by
  refine ⟨hc', h.built.write_slot, ?_, by simp⟩
  intro va e hva he
  rw [mapped_of_ne hva]
  exact h.cached va e hva he

theorem write_testPage (h : Coherent fresh L c s) (v : UInt64) :
    Coherent fresh L c (s.write L.testPage v) :=
  ⟨h.attributes, h.built.write_testPage, h.cached, h.test⟩

/-! ## Walks from a coherent state -/

theorem refill_other (h : Coherent fresh L c s) (hr : r.table = L.l1) (hb : r.below = 2)
    (hva : va / 4096 ≠ L.testPage / 4096) :
    (s.refill r va = none ∧ ∃ below, mapped L (word L c) va = .fault below) ∨
      ∃ e : Entry, mapped L (word L c) va = .leaf e.below e.slot e.desc ∧
        s.refill r va = some (e, s.keep va e) := by
  have hwalk := h.walk_eq va
  rw [← hr, ← hb] at hwalk
  cases hm : mapped L (word L c) va with
  | fault below =>
    left
    exact ⟨Mmu.refill_fault (hwalk.trans hm), below, rfl⟩
  | leaf below a desc =>
    right
    exact ⟨⟨below, a, desc⟩, rfl, Mmu.refill_set (hwalk.trans hm) (mapped_leaf hva hm).1⟩

theorem refill_test (h : Coherent fresh L c s) (hr : r.table = L.l1) (hb : r.below = 2)
    (hva : va / 4096 = L.testPage / 4096) :
    (c &&& accessFlag = 0 ∧ r.flag = false ∧ s.refill r va = none) ∨
      ((c &&& accessFlag ≠ 0 ∨ r.flag = true) ∧
        ∃ s', s.refill r va = some (⟨0, slot L, word L (c ||| accessFlag)⟩, s') ∧
          Coherent true L (c ||| accessFlag) s' ∧ Frame L s s') := by
  have hwalk := h.walk_eq va
  have hand : word L c &&& accessFlag = c &&& accessFlag := word_and (by decide)
  rw [← hr, ← hb, mapped_test hva] at hwalk
  by_cases haf : c &&& accessFlag = 0
  · have hrefill := Mmu.refill_clear (r := r) hwalk (hand.trans haf)
    cases hf : r.flag with
    | false =>
      left
      rw [hf] at hrefill
      exact ⟨haf, rfl, hrefill⟩
    | true =>
      right
      rw [hf, if_pos rfl, word_or] at hrefill
      refine ⟨.inr rfl, _, hrefill, ?_, ?_⟩
      · exact (h.write_slot h.attributes.seen).keep_test hva (or_accessFlag_and c)
      · intro a ha
        rw [Mmu.keep_words, Mmu.write_words, Function.update_of_ne ha]
  · right
    have hset : c ||| accessFlag = c := or_accessFlag_of_and haf
    have hrefill := Mmu.refill_set (r := r) hwalk (by rw [hand]; exact haf)
    rw [hset]
    exact ⟨.inl haf, _, hrefill, h.keep_test hva haf, fun _ _ => rfl⟩

/-! ## Accesses from a coherent state -/

theorem toRead_other (h : Coherent fresh L c s) (hr : r.table = L.l1) (hb : r.below = 2)
    (hva : va / 4096 ≠ L.testPage / 4096) (hram : va / 2 ^ 21 = harnessRamGpa / 2 ^ 21) :
    ∃ e s', s.toRead r va = some (e, s') ∧
      mapped L (word L c) va = .leaf e.below e.slot e.desc ∧
      Coherent fresh L c s' ∧ s'.words = s.words := by
  rw [Mmu.toRead]
  cases htlb : s.tlb (va / 4096) with
  | some e => exact ⟨e, s, rfl, h.cached va e hva htlb, h, rfl⟩
  | none =>
    rcases h.refill_other hr hb hva with ⟨-, below, hfault⟩ | ⟨e, hm, he⟩
    · obtain ⟨a, desc, hleaf⟩ := mapped_ram (L := L) (d := word L c) hram
      rw [hleaf] at hfault
      cases hfault
    · exact ⟨e, _, he, hm, h.keep_other hva hm, rfl⟩

/-- A store to RAM off the test page reaches its own address. -/
theorem toWrite_other (h : Coherent fresh L c s) (hr : r.table = L.l1) (hb : r.below = 2)
    (hva : va / 4096 ≠ L.testPage / 4096) (hram : va / 2 ^ 21 = harnessRamGpa / 2 ^ 21) :
    ∃ e s', s.toWrite r va = some (e, s') ∧ outputAddress e.below e.desc va = va ∧
      Coherent fresh L c s' ∧ s'.words = s.words := by
  obtain ⟨e, s', he, hm, hc, hw⟩ := h.toRead_other hr hb hva hram
  obtain ⟨-, hro, hout⟩ := mapped_leaf hva hm
  refine ⟨e, s', ?_, hout, hc, hw⟩
  simp only [Mmu.toWrite, he]
  rw [if_pos hro]

theorem load_slot (h : Coherent fresh L c s) (hr : r.table = L.l1) (hb : r.below = 2) :
    ∃ s', s.load r (slot L) = some (word L c, s') ∧ Coherent fresh L c s' := by
  obtain ⟨e, s', he, hm, hc, hw⟩ := h.toRead_other hr hb slot_ne_test slot_ram
  obtain ⟨-, -, hout⟩ := mapped_leaf slot_ne_test hm
  have htest : s'.words (slot L) = word L c := hc.built.test
  refine ⟨s', ?_, hc⟩
  rw [Mmu.load, he, Option.map_some, hout, htest]

theorem store_slot (h : Coherent fresh L c s) (hr : r.table = L.l1) (hb : r.below = 2)
    {c' : UInt64} (hc' : Attributes c') :
    ∃ s', s.store r (slot L) (word L c') = some s' ∧ Coherent false L c' s' ∧ Frame L s s' := by
  obtain ⟨e, s', he, hout, hc, hw⟩ := h.toWrite_other hr hb slot_ne_test slot_ram
  refine ⟨s'.write (slot L) (word L c'), ?_, hc.write_slot hc', ?_⟩
  · rw [Mmu.store, he, Option.map_some, hout]
  · intro a ha
    rw [Mmu.write_words, Function.update_of_ne ha, hw]

theorem toRead_test (h : Coherent true L c s) (hr : r.table = L.l1) (hb : r.below = 2) :
    (c &&& accessFlag = 0 ∧ r.flag = false ∧ s.toRead r L.testPage = none) ∨
      ((c &&& accessFlag ≠ 0 ∨ r.flag = true) ∧
        ∃ s', s.toRead r L.testPage = some (⟨0, slot L, word L (c ||| accessFlag)⟩, s') ∧
          Coherent true L (c ||| accessFlag) s' ∧ Frame L s s') := by
  rw [Mmu.toRead]
  cases htlb : s.tlb (L.testPage / 4096) with
  | none => exact h.refill_test hr hb rfl
  | some e =>
    obtain ⟨rfl, haf⟩ := h.test rfl e htlb
    right
    rw [or_accessFlag_of_and haf]
    exact ⟨.inl haf, s, rfl, h, Frame.refl L s⟩

theorem load_test (h : Coherent true L c s) (hr : r.table = L.l1) (hb : r.below = 2)
    (hflag : c &&& accessFlag ≠ 0 ∨ r.flag = true) :
    ∃ s', s.load r L.testPage = some (s.words L.testPage, s') ∧
      Coherent true L (c ||| accessFlag) s' ∧ Frame L s s' := by
  rcases h.toRead_test hr hb with ⟨haf, hf, -⟩ | ⟨-, s', hs, hc, hframe⟩
  · simp [haf, hf] at hflag
  · refine ⟨s', ?_, hc, hframe⟩
    rw [Mmu.load, hs, Option.map_some, outputAddress_word hc.attributes rfl,
      hframe _ slot_ne_testPage.symm]

theorem load_faults (h : Coherent true L c s) (hr : r.table = L.l1) (hb : r.below = 2)
    (haf : c &&& accessFlag = 0) (hf : r.flag = false) : s.load r L.testPage = none := by
  rcases h.toRead_test hr hb with ⟨-, -, hs⟩ | ⟨hflag, -⟩
  · rw [Mmu.load, hs, Option.map_none]
  · simp [haf, hf] at hflag

/-- The first store of a round makes the page writable, if it was not. -/
theorem toWrite_test (h : Coherent true L c s) (hr : r.table = L.l1) (hb : r.below = 2)
    (haf : c &&& accessFlag ≠ 0)
    (hw : c &&& readOnlyBit = 0 ∨ c &&& dirtyModifier ≠ 0 ∧ r.dirty = true) :
    ∃ s', s.toWrite r L.testPage = some (⟨0, slot L, word L (c &&& ~~~readOnlyBit)⟩, s') ∧
      Coherent true L (c &&& ~~~readOnlyBit) s' ∧ Frame L s s' := by
  have hro : word L c &&& readOnlyBit = c &&& readOnlyBit := word_and (by decide)
  have hdm : word L c &&& dirtyModifier = c &&& dirtyModifier := word_and (by decide)
  rcases h.toRead_test hr hb with ⟨haf', -⟩ | ⟨-, s', hs, hc, hframe⟩
  · exact absurd haf' haf
  rw [or_accessFlag_of_and haf] at hs hc
  simp only [Mmu.toWrite, hs]
  by_cases hclear : c &&& readOnlyBit = 0
  · refine ⟨s', ?_, ?_, hframe⟩
    · rw [if_pos (hro.trans hclear), and_not_of_and hclear]
    · rw [and_not_of_and hclear]
      exact hc
  · obtain ⟨hdirty, hmanaged⟩ := hw.resolve_left hclear
    rw [if_neg (by rw [hro]; exact hclear), if_pos ⟨by rw [hdm]; exact hdirty, hmanaged⟩]
    have hpage : L.testPage / 4096 = L.testPage / 4096 := rfl
    rcases hc.refill_test hr hb hpage with ⟨haf', -⟩ | ⟨-, s'', hs', hc', hframe'⟩
    · exact absurd haf' haf
    rw [or_accessFlag_of_and haf] at hs' hc'
    have hattrs : Attributes (c &&& ~~~readOnlyBit) := h.attributes.writable
    refine ⟨_, ?_, (hc'.write_slot hattrs).keep_test hpage ?_, ?_⟩
    · simp only [Mmu.markDirty, hs']
      rw [if_neg (by rw [hro]; exact hclear), if_neg (by rw [hdm]; exact hdirty)]
      simp only [word_and_not]
    · rw [and_not_and (by decide)]
      exact haf
    · apply (hframe.trans hframe').trans
      intro a ha
      rw [Mmu.keep_words, Mmu.write_words, Function.update_of_ne ha]

theorem toWrite_faults (h : Coherent true L c s) (hr : r.table = L.l1) (hb : r.below = 2)
    (hro : c &&& readOnlyBit ≠ 0) (hd : r.dirty = false) : s.toWrite r L.testPage = none := by
  have hword : word L (c ||| accessFlag) &&& readOnlyBit ≠ 0 := by
    rw [word_and (by decide), or_and_field, show accessFlag &&& readOnlyBit = 0 by decide,
      UInt64.or_zero]
    exact hro
  rcases h.toRead_test hr hb with ⟨-, -, hs⟩ | ⟨-, s', hs, -, -⟩
  · simp only [Mmu.toWrite, hs]
  · simp only [Mmu.toWrite, hs]
    rw [if_neg hword, if_neg (by simp [hd])]

theorem store_test (h : Coherent true L c s) (hr : r.table = L.l1) (hb : r.below = 2)
    (haf : c &&& accessFlag ≠ 0)
    (hw : c &&& readOnlyBit = 0 ∨ c &&& dirtyModifier ≠ 0 ∧ r.dirty = true) (v : UInt64) :
    ∃ s', s.store r L.testPage v = some s' ∧ Coherent true L (c &&& ~~~readOnlyBit) s' ∧
      s'.words L.testPage = v ∧
      ∀ a, a ≠ slot L → a ≠ L.testPage → s'.words a = s.words a := by
  obtain ⟨s', hs, hc, hframe⟩ := h.toWrite_test hr hb haf hw
  refine ⟨s'.write L.testPage v, ?_, hc.write_testPage v, ?_, ?_⟩
  · rw [Mmu.store, hs, Option.map_some, outputAddress_word hc.attributes rfl]
  · exact Function.update_self ..
  · intro a ha ht
    rw [Mmu.write_words, Function.update_of_ne ht, hframe a ha]

/-! ## Between the accesses -/

theorem idle (h : Coherent fresh L c s) (hr : r.table = L.l1) (hb : r.below = 2)
    (a : Mmu.Idle) :
    ∃ c', (c' = c ∨ r.flag = true ∧ c' = c ||| accessFlag) ∧
      Coherent fresh L c' (s.idle r a) ∧ Frame L s (s.idle r a) := by
  cases a with
  | evict page => exact ⟨c, .inl rfl, h.invalidate page, fun _ _ => rfl⟩
  | prefetch va =>
    rw [Mmu.idle]
    by_cases hva : va / 4096 = L.testPage / 4096
    · rcases h.refill_test hr hb hva with ⟨-, -, hs⟩ | ⟨hflag, s', hs, hc, hframe⟩
      · rw [hs]
        exact ⟨c, .inl rfl, h, Frame.refl L s⟩
      · rw [hs]
        refine ⟨c ||| accessFlag, ?_, hc.of_fresh, hframe⟩
        rcases hflag with haf | hf
        · exact .inl (or_accessFlag_of_and haf)
        · exact .inr ⟨hf, rfl⟩
    · rcases h.refill_other hr hb hva with ⟨hs, -⟩ | ⟨e, hm, hs⟩
      · rw [hs]
        exact ⟨c, .inl rfl, h, Frame.refl L s⟩
      · rw [hs]
        exact ⟨c, .inl rfl, h.keep_other hva hm, fun _ _ => rfl⟩

theorem idles (h : Coherent fresh L c s) (hr : r.table = L.l1) (hb : r.below = 2)
    (steps : List Mmu.Idle) :
    ∃ c', (c' = c ∨ r.flag = true ∧ c' = c ||| accessFlag) ∧
      Coherent fresh L c' (s.idles r steps) ∧ Frame L s (s.idles r steps) := by
  induction steps generalizing s c with
  | nil => exact ⟨c, .inl rfl, h, Frame.refl L s⟩
  | cons a steps ih =>
    obtain ⟨c', hc', h', hframe⟩ := h.idle hr hb a
    obtain ⟨c'', hc'', h'', hframe'⟩ := ih h'
    refine ⟨c'', ?_, h'', hframe.trans hframe'⟩
    rcases hc' with rfl | ⟨hf, rfl⟩
    · exact hc''
    · right
      rcases hc'' with rfl | ⟨-, rfl⟩
      · exact ⟨hf, rfl⟩
      · rw [UInt64.or_assoc, UInt64.or_self]
        exact ⟨hf, rfl⟩

end Coherent

end

/-! ## Rounds -/

section

variable {L : Layout} {cpu : Hafdbs} {walk : Walk} {fresh : Bool} {c : UInt64} {s : Mmu}

theorem or_accessFlag_twice (c : UInt64) : c ||| accessFlag ||| accessFlag = c ||| accessFlag := by
  rw [UInt64.or_assoc, UInt64.or_self]

/-- Idle steps set the access flag or leave the attributes alone. -/
theorem seen_of_idle {r : Regime} {c' : UInt64}
    (h : c' = c ∨ r.flag = true ∧ c' = c ||| accessFlag) :
    c' ||| accessFlag = c ||| accessFlag := by
  rcases h with rfl | ⟨-, rfl⟩
  · rfl
  · exact or_accessFlag_twice c

theorem flagged_of_idle {r : Regime} {c' : UInt64}
    (h : c' = c ∨ r.flag = true ∧ c' = c ||| accessFlag)
    (hflag : c &&& accessFlag ≠ 0 ∨ r.flag = true) : c' &&& accessFlag ≠ 0 ∨ r.flag = true := by
  rcases h with rfl | ⟨hf, -⟩
  · exact hflag
  · exact .inr hf

/-- A round that can store to the test page: the descriptor is the updated one after it, and
nothing else has changed but the count in the test page. -/
theorem walkRound_some (h : Coherent fresh L c s)
    (hcan : walk.hwUpdates = true → cpu = .dirty) (g : Gaps) :
    ∃ s', walkRound L cpu walk g s = some s' ∧
      Coherent true L (writtenAttrs walk.hwUpdates) s' ∧
      s'.words L.testPage = increment (s.words L.testPage) ∧
      ∀ a, a ≠ slot L → a ≠ L.testPage → s'.words a = s.words a := by
  obtain ⟨hw, broadcast⟩ := walk
  generalize hr : regime L hw cpu = r
  have htable : r.table = L.l1 := by rw [← hr, regime]
  have hbelow : r.below = 2 := by rw [← hr, regime]
  have hflag : testAttrs hw &&& accessFlag ≠ 0 ∨ r.flag = true := by
    subst hr
    cases hw with
    | false => exact .inl (by decide)
    | true => simp [regime, hcan rfl]
  have hwritable : (testAttrs hw ||| accessFlag) &&& readOnlyBit = 0 ∨
      (testAttrs hw ||| accessFlag) &&& dirtyModifier ≠ 0 ∧ r.dirty = true := by
    subst hr
    cases hw with
    | false => exact .inl (by decide)
    | true => exact .inr ⟨by decide, by simp [regime, hcan rfl]⟩
  simp only [walkRound, invalidatePage, hr]
  -- the descriptor is put back, and the cached translation dropped
  obtain ⟨c₀, -, h₀, hf₀⟩ := h.idles htable hbelow g.reset
  obtain ⟨s₁, hs₁, h₁, hf₁⟩ := h₀.store_slot htable hbelow (attributes_testAttrs hw)
  obtain ⟨c₂, hc₂, h₂, hf₂⟩ := h₁.idles htable hbelow g.flush
  obtain ⟨c₃, hc₃, h₃, hf₃⟩ := h₂.invalidate_test.idles htable hbelow g.read
  -- the load walks, and from then on the flag is set
  have hseen : c₃ ||| accessFlag = testAttrs hw ||| accessFlag :=
    (seen_of_idle hc₃).trans (seen_of_idle hc₂)
  obtain ⟨s₄, hs₄, h₄, hf₄⟩ := h₃.load_test htable hbelow
    (flagged_of_idle hc₃ (flagged_of_idle hc₂ hflag))
  obtain ⟨c₅, hc₅, h₅, hf₅⟩ := h₄.idles htable hbelow g.write
  have hfinal : c₅ = testAttrs hw ||| accessFlag := by
    rcases hc₅ with rfl | ⟨-, rfl⟩
    · exact hseen
    · rw [or_accessFlag_twice, hseen]
  subst hfinal
  obtain ⟨s₆, hs₆, h₆, hvalue, hf₆⟩ := h₅.store_test htable hbelow (or_accessFlag_and _) hwritable
    (increment ((s₁.idles r g.flush).invalidate (L.testPage / 4096) |>.idles r g.read
      |>.words L.testPage))
  have hbefore : ∀ a, a ≠ slot L →
      (((s₁.idles r g.flush).invalidate (L.testPage / 4096)).idles r g.read).words a =
        s.words a := by
    intro a ha
    rw [hf₃ a ha, Mmu.invalidate_words, hf₂ a ha, hf₁ a ha, hf₀ a ha]
  refine ⟨s₆, ?_, h₆, ?_, ?_⟩
  · rw [testDesc_eq, ← word, hs₁, Option.bind_some, hs₄, Option.bind_some]
    exact hs₆
  · rw [hvalue, hbefore _ slot_ne_testPage.symm]
  · intro a ha ht
    rw [hf₆ a ha ht, hf₅ a ha, hf₄ a ha, hbefore a ha]

/-- A round on a processor that cannot make the update is an exception. -/
theorem walkRound_none (h : Coherent fresh L c s) (hw : walk.hwUpdates = true)
    (hcpu : cpu ≠ .dirty) (g : Gaps) : walkRound L cpu walk g s = none := by
  obtain ⟨_, broadcast⟩ := walk
  dsimp only at hw
  subst hw
  generalize hr : regime L true cpu = r
  have htable : r.table = L.l1 := by rw [← hr, regime]
  have hbelow : r.below = 2 := by rw [← hr, regime]
  have hdirty : r.dirty = false := by simp [← hr, regime, hcpu]
  simp only [walkRound, invalidatePage, hr]
  obtain ⟨c₀, -, h₀, -⟩ := h.idles htable hbelow g.reset
  obtain ⟨s₁, hs₁, h₁, -⟩ := h₀.store_slot htable hbelow (attributes_testAttrs true)
  obtain ⟨c₂, hc₂, h₂, -⟩ := h₁.idles htable hbelow g.flush
  obtain ⟨c₃, hc₃, h₃, -⟩ := h₂.invalidate_test.idles htable hbelow g.read
  rw [testDesc_eq, ← word, hs₁, Option.bind_some]
  cases hf : r.flag with
  | false =>
    -- nobody sets the flag: the load faults
    simp only [hf, Bool.false_eq_true, false_and, or_false] at hc₂ hc₃
    subst hc₂ hc₃
    rw [h₃.load_faults htable hbelow (by decide) hf]
    rfl
  | true =>
    -- the flag is set, but the page stays read-only: the store faults
    have hseen : c₃ ||| accessFlag = testAttrs true ||| accessFlag :=
      (seen_of_idle hc₃).trans (seen_of_idle hc₂)
    obtain ⟨s₄, hs₄, h₄, -⟩ := h₃.load_test htable hbelow (.inr hf)
    obtain ⟨c₅, hc₅, h₅, -⟩ := h₄.idles htable hbelow g.write
    have hfinal : c₅ = testAttrs true ||| accessFlag := by
      rcases hc₅ with rfl | ⟨-, rfl⟩
      · exact hseen
      · rw [or_accessFlag_twice, hseen]
    subst hfinal
    rw [hs₄, Option.bind_some, Mmu.store, h₅.toWrite_faults htable hbelow (by decide) hdirty]
    rfl

/-! ## Any number of rounds -/

theorem toUInt32_withLow (v : UInt64) (x : UInt32) : (withLow v x).toUInt32 = x := by
  rw [withLow, UInt64.toUInt32_or, UInt64.toUInt32_and, UInt32.toUInt32_toUInt64]
  show v.toUInt32 &&& 0 ||| x = x
  rw [UInt32.and_zero, UInt32.zero_or]

theorem high_toUInt64 (x : UInt32) : x.toUInt64 &&& 0xffffffff00000000 = 0 := by
  apply UInt64.toNat_inj.mp
  have hlt := x.toNat_lt
  rw [UInt64.toNat_and, UInt32.toNat_toUInt64]
  show x.toNat &&& (2 ^ 32 - 1) <<< 32 = 0
  apply Nat.eq_of_testBit_eq
  intro i
  rw [Nat.testBit_and, Nat.testBit_shiftLeft, Nat.zero_testBit]
  by_cases hi : 32 ≤ i
  · have hbit : x.toNat.testBit i = false := by
      apply Nat.testBit_lt_two_pow
      have hpow : 2 ^ 32 ≤ 2 ^ i := Nat.pow_le_pow_right (by omega) hi
      omega
    rw [hbit, Bool.false_and]
  · simp [hi]

theorem withLow_withLow (v : UInt64) (x y : UInt32) : withLow (withLow v x) y = withLow v y := by
  rw [withLow, withLow, or_and_field, UInt64.and_assoc, UInt64.and_self, high_toUInt64,
    UInt64.or_zero, withLow]

theorem walkRounds_some (h : Coherent fresh L c s) (gs : List Gaps)
    (hcan : gs ≠ [] → walk.hwUpdates = true → cpu = .dirty) :
    ∃ s', walkRounds L cpu walk gs s = some s' ∧
      Coherent fresh L (if gs = [] then c else writtenAttrs walk.hwUpdates) s' ∧
      (gs = [] ∨ s'.words L.testPage =
        withLow (s.words L.testPage) ((s.words L.testPage).toUInt32 + UInt32.ofNat gs.length)) ∧
      ∀ a, a ≠ slot L → a ≠ L.testPage → s'.words a = s.words a := by
  induction gs generalizing c s with
  | nil => exact ⟨s, rfl, h, .inl rfl, fun _ _ _ => rfl⟩
  | cons g gs ih =>
    obtain ⟨s₁, hs₁, h₁, hcount, hframe⟩ := walkRound_some h (hcan (by simp)) g
    obtain ⟨s₂, hs₂, h₂, hcount', hframe'⟩ := ih h₁.of_fresh fun _ => hcan (by simp)
    refine ⟨s₂, ?_, ?_, .inr ?_, ?_⟩
    · rw [walkRounds, hs₁, Option.bind_some, hs₂]
    · simpa using h₂
    · rcases hcount' with rfl | hcount'
      · obtain rfl : s₁ = s₂ := Option.some.inj hs₂
        exact hcount
      · rw [hcount', hcount, increment, toUInt32_withLow, withLow_withLow, List.length_cons,
          UInt32.add_assoc, Nat.add_comm, UInt32.ofNat_add]
        rfl
    · intro a ha ht
      rw [hframe' a ha ht, hframe a ha ht]

theorem walkRounds_none (h : Coherent fresh L c s) (hw : walk.hwUpdates = true)
    (hcpu : cpu ≠ .dirty) (g : Gaps) (gs : List Gaps) :
    walkRounds L cpu walk (g :: gs) s = none := by
  rw [walkRounds, walkRound_none h hw hcpu, Option.bind_none]

theorem coherent_mmuOn {m : Words} (hzero : Zeroed L m) (hwUpdates : Bool) :
    Coherent true L (testAttrs hwUpdates) (mmuOn L hwUpdates m) := by
  refine ⟨attributes_testAttrs hwUpdates, ?_, by simp [mmuOn], by simp [mmuOn]⟩
  have hbuilt := built_buildPageTables hzero hwUpdates
  rw [testDesc_eq] at hbuilt
  exact hbuilt

theorem rights_writtenAttrs (hwUpdates : Bool) :
    rights (writtenAttrs hwUpdates) = { ramRights with untilDirty := hwUpdates } := by
  cases hwUpdates <;> decide

theorem updatedByHardware_word (hwUpdates : Bool) :
    updatedByHardware (word L (writtenAttrs hwUpdates)) = true := by
  have hand : ∀ f, addressMask &&& f = 0 →
      word L (writtenAttrs hwUpdates) &&& f = writtenAttrs hwUpdates &&& f :=
    fun f hf => word_and hf
  rw [updatedByHardware, hand _ (by decide), hand _ (by decide)]
  cases hwUpdates <;> decide

end

/-- The rounds of a mode that leaves the descriptor to the hardware fault exactly on a
processor that does not make both updates.  Otherwise, whatever the hardware caches, drops
or walks for in between, every round is counted in the test page, the descriptor reads as
updated after it, the map stays the identity that was turned on, and no other word of
memory changes. -/
theorem walk_rounds (L : Layout) (m : Words) (cpu : Hafdbs) (walk : Walk) (gs : List Gaps)
    (hzero : Zeroed L m) :
    (walkRounds L cpu walk gs (mmuOn L walk.hwUpdates m) = none ↔
      walk.hwUpdates = true ∧ cpu ≠ .dirty ∧ gs ≠ []) ∧
    ∀ s, walkRounds L cpu walk gs (mmuOn L walk.hwUpdates m) = some s →
      (gs ≠ [] →
        (s.words L.testPage).toUInt32 =
          (m L.testPage).toUInt32 + UInt32.ofNat gs.length ∧
        updatedByHardware (s.words (slot L)) = true) ∧
      (∀ va, lookup L s.words va =
        if va < 2 ^ 30 then some (va, deviceRights)
        else if harnessRamGpa ≤ va ∧ va < harnessRamGpa + harnessRamSize then
          some (va,
            if va / pageSize = L.testPage / pageSize ∧ walk.hwUpdates then
              if gs = [] then resetRights else { ramRights with untilDirty := true }
            else ramRights)
        else none) ∧
      ∀ a, a ≠ slot L → a ≠ L.testPage → s.words a = (mmuOn L walk.hwUpdates m).words a := by
  have hstart := coherent_mmuOn hzero walk.hwUpdates
  by_cases hcan : gs ≠ [] → walk.hwUpdates = true → cpu = .dirty
  · obtain ⟨s, hs, hcoh, hcount, hframe⟩ := walkRounds_some hstart gs hcan
    rw [hs]
    constructor
    · simp only [reduceCtorEq, false_iff]
      intro h
      exact h.2.1 (hcan h.2.2 h.1)
    intro s' hs'
    obtain rfl := Option.some.inj hs'
    refine ⟨?_, ?_, hframe⟩
    · intro hne
      have hslot : s.words (slot L) = word L (writtenAttrs walk.hwUpdates) := by
        have htest := hcoh.built.test
        rw [if_neg hne] at htest
        exact htest
      have hm : (mmuOn L walk.hwUpdates m).words L.testPage = m L.testPage :=
        buildPageTables_of_ne (fun p hp i hi => (entry_ne_testPage hp hi).symm) _
      rw [hcount.resolve_left hne, toUInt32_withLow, hslot, hm]
      exact ⟨rfl, updatedByHardware_word walk.hwUpdates⟩
    · intro va
      rw [lookup_built hcoh.built hcoh.attributes]
      by_cases hgs : gs = []
      · rw [if_pos hgs, rights_testAttrs]
        cases walk.hwUpdates <;> simp [hgs]
      · rw [if_neg hgs, rights_writtenAttrs]
        cases walk.hwUpdates <;> simp [hgs, ramRights]
  · simp only [Classical.not_imp] at hcan
    obtain ⟨hgs, hw, hcpu⟩ := hcan
    obtain ⟨g, gs', rfl⟩ := List.exists_cons_of_ne_nil hgs
    rw [walkRounds_none hstart hw hcpu]
    simp [hw, hcpu]

def sampleGaps : Gaps where
  reset := [.prefetch 0x80006000]
  flush := [.prefetch 0x80006000, .prefetch 0x10870000]
  read := [.evict 0x80006]
  write := [.evict 0x80005]

theorem walk_rounds_sample :
    ∃ s, walkRounds sampleLayout .dirty ⟨true, true⟩ [sampleGaps, sampleGaps]
        (mmuOn sampleLayout true fun _ => 0) = some s ∧
      (s.words 0x80006000).toUInt32 = 2 ∧ updatedByHardware (s.words 0x80005030) = true := by
  obtain ⟨hnone, hsome⟩ := walk_rounds sampleLayout (fun _ => 0) .dirty ⟨true, true⟩
    [sampleGaps, sampleGaps] zeroed_sample
  obtain ⟨s, hs⟩ := Option.ne_none_iff_exists'.mp (fun h => (hnone.mp h).2.1 rfl)
  obtain ⟨hcount, hupdated⟩ := (hsome s hs).1 (by simp)
  exact ⟨s, hs, hcount, hupdated⟩

end Harness
end TensorSel4
