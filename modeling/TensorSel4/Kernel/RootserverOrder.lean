/-
When the root server objects fall on multiples of their sizes.

The thresholds keep the sizes in order, except that the first of them is only
passed by an object as large as all the others.  Where the bootinfo and the extra
bootinfo are both larger than the CNode and the VSpace, the smaller one of the two
comes behind one of these.
-/
import TensorSel4.Kernel.Rootserver

namespace TensorSel4
namespace Kernel

open Memory Bump

/-- The bootinfo of several pages and the extra bootinfo are both larger than the
two fixed objects, and of different sizes. -/
def Config.TwoLarge (c : Config) (extra : Nat) : Prop :=
  seL4PageBits < c.bootInfoFrameBits ∧ max c.cnodeSizeBits c.vspaceBits < c.bootInfoFrameBits ∧
    max c.cnodeSizeBits c.vspaceBits < extra ∧ c.bootInfoFrameBits ≠ extra

/-- The root CNode and the VSpace fill pages. -/
def Config.FillPages (c : Config) : Prop :=
  seL4PageBits ≤ c.cnodeSizeBits ∧ seL4PageBits ≤ c.vspaceBits ∨
    c.cnodeSizeBits + 1 = seL4PageBits ∧ c.vspaceBits + 1 = seL4PageBits

variable {c : Config} {extra start : Nat}

theorem larger_snd (c : Config) : (larger c).2 = max c.cnodeSizeBits c.vspaceBits := by
  unfold larger
  split <;> dsimp only <;> omega

theorem smaller_snd (c : Config) : (smaller c).2 = min c.cnodeSizeBits c.vspaceBits := by
  unfold smaller
  split <;> dsimp only <;> omega

theorem max_eq (c : Config) (extra : Nat) : c.rootserverMaxSizeBits extra =
    max (max (larger c).2 c.bootInfoFrameBits) extra := by
  rw [larger_snd]
  rfl

theorem mem_waiting₀ {p : Object × Nat} : p ∈ waiting₀ c extra ↔
    seL4PageBits < c.bootInfoFrameBits ∧ p = (.bootInfo, c.bootInfoFrameBits) ∨
      p = (.extraBi, extra) := by
  rw [waiting₀, mem_waiting, decide_eq_true_eq]
  simp

theorem waiting₀_largerFirst (c : Config) (extra : Nat) : LargerFirst (waiting₀ c extra) :=
  waiting_largerFirst _ _

theorem mem_waiting₁ {p : Object × Nat} (h : p ∈ waiting₁ c extra) :
    p ∈ waiting₀ c extra ∧ p.2 < c.rootserverMaxSizeBits extra :=
  ⟨mem_of_mem_left h, (waiting₀_largerFirst c extra).lt_of_mem_left h⟩

theorem mem_waiting₂ {p : Object × Nat} (h : p ∈ waiting₂ c extra) :
    p ∈ waiting₁ c extra ∧ p.2 < (smaller c).2 :=
  ⟨mem_of_mem_left h, ((waiting₀_largerFirst c extra).left _).lt_of_mem_left h⟩

/-- Unless both are large, what the first threshold leaves is no larger than the
object that comes next. -/
theorem le_larger_of_mem_waiting₁ (hextra : extra = 0 ∨ seL4PageBits ≤ extra)
    (h : ¬c.TwoLarge extra) {p : Object × Nat} (hp : p ∈ waiting₁ c extra) :
    p.2 ≤ (larger c).2 := by
  obtain ⟨hmem, hlt⟩ := mem_waiting₁ hp
  rw [max_eq] at hlt
  by_contra hgt
  refine h ?_
  unfold Config.TwoLarge
  rw [← larger_snd]
  rcases mem_waiting₀.mp hmem with ⟨hpage, rfl⟩ | rfl
  · dsimp only at hlt hgt
    refine ⟨hpage, ?_, ?_, ?_⟩ <;> omega
  · dsimp only at hlt hgt
    refine ⟨?_, ?_, ?_, ?_⟩ <;> omega

/-! ## In order -/

theorem pages_downTo (c : Config) :
    DownTo seL4PageBits (pages c) ∧ ∀ p ∈ pages c, p.2 ≤ seL4PageBits := by
  unfold pages
  split
  · exact ⟨⟨by simp [LargerFirst], by simp⟩, by simp⟩
  · exact ⟨⟨by simp [LargerFirst], by simp⟩, by simp⟩

theorem smaller_le_larger (c : Config) : (smaller c).2 ≤ (larger c).2 := by
  rw [smaller_snd, larger_snd]
  omega

theorem larger_le_max (c : Config) (extra : Nat) :
    (larger c).2 ≤ c.rootserverMaxSizeBits extra := by
  rw [max_eq]
  omega

/-- What the first threshold takes, and the larger fixed object. -/
theorem front_start (c : Config) (extra : Nat) : DownTo (larger c).2
    (taken (c.rootserverMaxSizeBits extra) (waiting₀ c extra) ++ [larger c]) := by
  have htaken := (waiting₀_largerFirst c extra).downTo_taken (c.rootserverMaxSizeBits extra)
  refine (htaken.mono (larger_le_max c extra)).append (.singleton _) (Nat.le_refl _) ?_
  intro q hq
  rw [List.mem_singleton.mp hq]

theorem plan_largerFirst (hpage : seL4PageBits ≤ (smaller c).2)
    (hle : ∀ p ∈ waiting₁ c extra, p.2 ≤ (larger c).2) :
    LargerFirst (front c extra ++ pages c) := by
  have hwaiting₁ : LargerFirst (waiting₁ c extra) := (waiting₀_largerFirst c extra).left _
  have hwaiting₂ : LargerFirst (waiting₂ c extra) := hwaiting₁.left _
  obtain ⟨hpages, hpagesLe⟩ := pages_downTo c
  have hmiddle := (front_start c extra).append
    (hwaiting₁.downTo_taken (smaller c).2) (smaller_le_larger c)
    fun q hq => hle q (mem_of_mem_taken hq)
  have hfixed := hmiddle.append (.singleton (smaller c)) (Nat.le_refl _)
    fun q hq => by rw [List.mem_singleton.mp hq]
  have hfront := hfixed.append (hwaiting₂.downTo_taken seL4PageBits) hpage
    fun q hq => Nat.le_of_lt (mem_waiting₂ (mem_of_mem_taken hq)).2
  exact (hfront.append hpages (Nat.le_refl _) hpagesLe).largerFirst

theorem le_max_of_mem_plan (hpage : seL4PageBits ≤ c.rootserverMaxSizeBits extra) :
    ∀ p ∈ front c extra ++ pages c, p.2 ≤ c.rootserverMaxSizeBits extra := by
  have hwaiting : ∀ p ∈ waiting₀ c extra, p.2 ≤ c.rootserverMaxSizeBits extra := by
    intro p hp
    rw [max_eq]
    rcases mem_waiting₀.mp hp with ⟨-, rfl⟩ | rfl
    · dsimp only
      omega
    · dsimp only
      omega
  have hlarger := larger_le_max c extra
  have hsmaller := smaller_le_larger c
  intro p hp
  simp only [front, List.mem_append, List.mem_singleton] at hp
  rcases hp with ((((hp | rfl) | hp) | rfl) | hp) | hp
  · exact hwaiting p (mem_of_mem_taken hp)
  · exact hlarger
  · exact hwaiting p (mem_waiting₁ (mem_of_mem_taken hp)).1
  · exact Nat.le_trans hsmaller hlarger
  · exact hwaiting p (mem_waiting₁ (mem_waiting₂ (mem_of_mem_taken hp)).1).1
  · exact Nat.le_trans ((pages_downTo c).2 p hp) hpage

theorem page_le_max (c : Config) (extra : Nat) :
    seL4PageBits ≤ c.rootserverMaxSizeBits extra := by
  have := c.page_le
  rw [max_eq]
  omega

theorem plan_fits (hpage : seL4PageBits ≤ (smaller c).2)
    (hle : ∀ p ∈ waiting₁ c extra, p.2 ≤ (larger c).2)
    (hstart : 2 ^ c.rootserverMaxSizeBits extra ∣ start) :
    Fits start ((front c extra ++ pages c).map Prod.snd) :=
  (plan_largerFirst hpage hle).fits (le_max_of_mem_plan (page_le_max c extra)) hstart

/-! ## Two halves of a page -/

theorem taken_eq_nil {cmp : Nat} {pend : List (Object × Nat)} (h : ∀ p ∈ pend, p.2 < cmp) :
    taken cmp pend = [] := by
  refine List.eq_nil_iff_forall_not_mem.mpr ?_
  intro p hp
  have hlt := h p (mem_of_mem_taken hp)
  have hge := le_of_mem_taken hp
  omega

/-- Below half a page no bootinfo object waits but the one of one byte, which no
threshold takes. -/
theorem taken_none_of_halves (hextra : extra = 0 ∨ seL4PageBits ≤ extra)
    (hlarger : (larger c).2 + 1 = seL4PageBits) (hsmaller : (smaller c).2 + 1 = seL4PageBits)
    (hle : ∀ p ∈ waiting₁ c extra, p.2 ≤ (larger c).2) :
    taken (smaller c).2 (waiting₁ c extra) = [] ∧
      taken seL4PageBits (waiting₂ c extra) = [] := by
  have hsmall : ∀ p ∈ waiting₁ c extra, p.2 = 0 := by
    intro p hp
    have hp' := hle p hp
    rcases mem_waiting₀.mp (mem_waiting₁ hp).1 with ⟨hpage, rfl⟩ | rfl
    · dsimp only at hp'
      omega
    · dsimp only at hp' ⊢
      omega
  have hpos : 0 < (smaller c).2 := by
    rw [seL4PageBits] at hsmaller
    omega
  constructor
  · apply taken_eq_nil
    intro p hp
    rw [hsmall p hp]
    exact hpos
  · apply taken_eq_nil
    intro p hp
    rw [hsmall p (mem_waiting₂ hp).1, seL4PageBits]
    omega

/-- The halves add up to a page, and nothing stands between or behind them. -/
theorem halves_fit (hextra : extra = 0 ∨ seL4PageBits ≤ extra)
    (hlarger : (larger c).2 + 1 = seL4PageBits) (hsmaller : (smaller c).2 + 1 = seL4PageBits)
    (hle : ∀ p ∈ waiting₁ c extra, p.2 ≤ (larger c).2)
    (hstart : 2 ^ c.rootserverMaxSizeBits extra ∣ start) :
    Fits start ((front c extra ++ pages c).map Prod.snd) := by
  obtain ⟨h₁, h₂⟩ := taken_none_of_halves hextra hlarger hsmaller hle
  have hmax := page_le_max c extra
  have htaken : Fits start
      ((taken (c.rootserverMaxSizeBits extra) (waiting₀ c extra)).map Prod.snd) := by
    refine ((waiting₀_largerFirst c extra).taken _).fits ?_ hstart
    intro p hp
    exact le_max_of_mem_plan hmax p (by simp [front, hp])
  have hdvd : 2 ^ seL4PageBits ∣
      start + extent (taken (c.rootserverMaxSizeBits extra) (waiting₀ c extra)) := by
    refine Nat.dvd_add (Nat.dvd_trans (Nat.pow_dvd_pow 2 hmax) hstart) ?_
    refine dvd_extent ?_
    intro p hp
    exact Nat.le_trans hmax (le_of_mem_taken hp)
  have hrest : ∀ tail, (front c extra ++ pages c) =
      taken (c.rootserverMaxSizeBits extra) (waiting₀ c extra) ++ tail →
      Fits (start + extent (taken (c.rootserverMaxSizeBits extra) (waiting₀ c extra)))
        (tail.map Prod.snd) → Fits start ((front c extra ++ pages c).map Prod.snd) := by
    intro tail heq htail
    rw [heq, List.map_append]
    refine htaken.append ?_
    rwa [List.map_map]
  refine hrest ([larger c] ++ [smaller c] ++ pages c) ?_ ?_
  · simp [front, h₁, h₂]
  · generalize
      start + extent (taken (c.rootserverMaxSizeBits extra) (waiting₀ c extra)) = addr at hdvd
    have h11 : (larger c).2 = 11 ∧ (smaller c).2 = 11 := by
      rw [seL4PageBits] at hlarger hsmaller
      omega
    obtain ⟨q, rfl⟩ := hdvd
    unfold pages
    split
    · simp only [List.map_cons, List.map_nil, h11, seL4PageBits, Fits, List.cons_append,
        List.nil_append, Nat.reducePow, and_true]
      omega
    · simp only [List.map_cons, List.map_nil, h11, seL4PageBits, Fits, List.cons_append,
        List.nil_append, Nat.reducePow, and_true]
      omega

/-! ## Out of order -/

/-- Behind the larger fixed object, the smaller of the two bootinfo objects. -/
theorem twoLarge_not_fits (h : c.TwoLarge extra)
    (hstart : 2 ^ c.rootserverMaxSizeBits extra ∣ start) :
    ¬Fits start ((front c extra ++ pages c).map Prod.snd) := by
  obtain ⟨hpage, hboot, hextra, hne⟩ := h
  rw [← larger_snd] at hboot hextra
  have hmaxEq := max_eq c extra
  have hsmaller := smaller_le_larger c
  have hshape : ∀ a b : Object × Nat, waiting₀ c extra = [a, b] →
      a.2 = c.rootserverMaxSizeBits extra → b.2 < a.2 → (larger c).2 < b.2 →
      ¬Fits start ((front c extra ++ pages c).map Prod.snd) := by
    intro a b hw ha hba hlb hfits
    have htaken : taken (c.rootserverMaxSizeBits extra) (waiting₀ c extra) = [a] := by
      rw [hw, ← ha]
      simp [taken, hba]
    have hleft : waiting₁ c extra = [b] := by
      rw [waiting₁, hw, ← ha]
      simp [left, hba]
    have hnext : taken (smaller c).2 (waiting₁ c extra) = [b] := by
      rw [hleft]
      simp [taken]
      omega
    have hdvd : 2 ^ b.2 ∣ start + 2 ^ a.2 + 2 ^ (larger c).2 := by
      simp only [front, htaken, hnext, List.map_append, List.map_cons, List.cons_append,
        List.nil_append, Fits] at hfits
      exact hfits.2.2.1
    refine not_dvd_behind_smaller ?_ hlb hdvd
    refine Nat.dvd_add (Nat.dvd_trans (Nat.pow_dvd_pow 2 ?_) hstart) (Nat.pow_dvd_pow 2 ?_)
    · omega
    · omega
  rcases Nat.lt_or_gt_of_ne hne with hlt | hgt
  · refine hshape (.extraBi, extra) (.bootInfo, c.bootInfoFrameBits) ?_ ?_ hlt hboot
    · simp [waiting₀, waiting, hpage, Nat.not_le.mpr hlt]
    · dsimp only
      omega
  · refine hshape (.bootInfo, c.bootInfoFrameBits) (.extraBi, extra) ?_ ?_ hgt hextra
    · simp [waiting₀, waiting, hpage, Nat.le_of_lt hgt]
    · dsimp only
      omega

/-- Sizes of pages and more, and objects of one byte. -/
theorem extent_of_pages (ps : List (Object × Nat))
    (h : ∀ p ∈ ps, seL4PageBits ≤ p.2 ∨ p.2 = 0) :
    ∃ q, extent ps = 2 ^ seL4PageBits * q + ps.countP fun p => decide (p.2 = 0) := by
  induction ps with
  | nil => exact ⟨0, rfl⟩
  | cons p ps ih =>
    obtain ⟨q, hq⟩ := ih fun r hr => h r (List.mem_cons_of_mem p hr)
    have hcons : extent (p :: ps) = 2 ^ p.2 + extent ps := by simp [extent]
    rcases h p List.mem_cons_self with hpage | hzero
    · obtain ⟨k, hk⟩ := Nat.pow_dvd_pow 2 hpage
      have hne : ¬p.2 = 0 := by
        rw [seL4PageBits] at hpage
        omega
      refine ⟨k + q, ?_⟩
      rw [hcons, hq, hk, List.countP_cons_of_neg (by simpa using hne), Nat.mul_add, Nat.add_assoc]
    · refine ⟨q, ?_⟩
      rw [hcons, hq, hzero, List.countP_cons_of_pos (by simpa using hzero)]
      omega

theorem countP_waiting₀ : (waiting₀ c extra).countP (fun p => decide (p.2 = 0)) ≤ 1 := by
  have hne : ¬c.bootInfoFrameBits = 0 := by
    have := c.page_le
    rw [seL4PageBits] at this
    omega
  unfold waiting₀ waiting
  by_cases hpage : seL4PageBits < c.bootInfoFrameBits <;>
    by_cases horder : extra ≤ c.bootInfoFrameBits <;>
    by_cases hzero : extra = 0 <;> simp [hpage, horder, hne, hzero]

/-- The bytes before the objects of 4k, up to pages. -/
theorem extent_front (hextra : extra = 0 ∨ seL4PageBits ≤ extra) :
    ∃ q k, k ≤ 1 ∧
      extent (front c extra) = 2 ^ seL4PageBits * q + 2 ^ (larger c).2 + 2 ^ (smaller c).2 + k := by
  have hmax := page_le_max c extra
  obtain ⟨q₁, h₁⟩ : 2 ^ seL4PageBits ∣
      extent (taken (c.rootserverMaxSizeBits extra) (waiting₀ c extra)) :=
    dvd_extent fun p hp => Nat.le_trans hmax (le_of_mem_taken hp)
  obtain ⟨q₃, h₃⟩ : 2 ^ seL4PageBits ∣ extent (taken seL4PageBits (waiting₂ c extra)) :=
    dvd_extent fun p hp => le_of_mem_taken hp
  obtain ⟨q₂, h₂⟩ := extent_of_pages (taken (smaller c).2 (waiting₁ c extra)) (by
    intro p hp
    rcases mem_waiting₀.mp (mem_waiting₁ (mem_of_mem_taken hp)).1 with ⟨-, rfl⟩ | rfl
    · exact Or.inl c.page_le
    · exact hextra.symm)
  have hsub : (taken (smaller c).2 (waiting₁ c extra)).Sublist (waiting₀ c extra) :=
    (List.takeWhile_sublist _).trans (List.dropWhile_sublist _)
  have hcount := Nat.le_trans (hsub.countP_le (p := fun p => decide (p.2 = 0))) countP_waiting₀
  refine ⟨q₁ + q₂ + q₃, _, hcount, ?_⟩
  have hsingle (p : Object × Nat) : extent [p] = 2 ^ p.2 := by simp [extent]
  unfold front
  simp only [extent_append, hsingle, h₁, h₂, h₃, Nat.mul_add]
  omega

/-- Two sizes of which the smaller is below a page, unless both are half a page, end
within a page. -/
theorem sum_within_page {large small k : Nat} (horder : small ≤ large)
    (hlt : small < seL4PageBits)
    (hhalves : ¬(large + 1 = seL4PageBits ∧ small + 1 = seL4PageBits)) (hk : k ≤ 1) :
    ∃ r n, 2 ^ large + 2 ^ small + k = 2 ^ seL4PageBits * r + n ∧
      0 < n ∧ n < 2 ^ seL4PageBits := by
  have hbelow : 2 ^ small ≤ 2 ^ 11 := Nat.pow_le_pow_right (by omega) (by
    rw [seL4PageBits] at hlt
    omega)
  have hpos := Nat.two_pow_pos small
  have hpos' := Nat.two_pow_pos large
  by_cases hlarge : seL4PageBits ≤ large
  · obtain ⟨r, hr⟩ := Nat.pow_dvd_pow 2 hlarge
    refine ⟨r, 2 ^ small + k, ?_, ?_, ?_⟩
    · omega
    · omega
    · rw [seL4PageBits]
      omega
  · have hlow : 2 ^ large ≤ 2 ^ 11 := Nat.pow_le_pow_right (by omega) (by
      rw [seL4PageBits] at hlarge
      omega)
    have hten : 2 ^ small ≤ 2 ^ 10 := Nat.pow_le_pow_right (by omega) (by
      rw [seL4PageBits] at hlarge hhalves
      omega)
    refine ⟨0, 2 ^ large + 2 ^ small + k, ?_, ?_, ?_⟩
    · omega
    · omega
    · rw [seL4PageBits]
      omega

theorem small_not_fits (hextra : extra = 0 ∨ seL4PageBits ≤ extra)
    (hnot : ¬c.FillPages) (hstart : 2 ^ c.rootserverMaxSizeBits extra ∣ start) :
    ¬Fits start ((front c extra ++ pages c).map Prod.snd) := by
  intro hfits
  have hpage : 2 ^ seL4PageBits ∣ start + extent (front c extra) := by
    rw [List.map_append] at hfits
    have htail := hfits.tail_of_append
    rw [List.map_map] at htail
    exact htail.1
  have hfront : 2 ^ seL4PageBits ∣ extent (front c extra) :=
    (Nat.dvd_add_right (Nat.dvd_trans (Nat.pow_dvd_pow 2 (page_le_max c extra)) hstart)).mp hpage
  obtain ⟨q, k, hk, heq⟩ := extent_front (c := c) hextra
  have hsmall : (smaller c).2 < seL4PageBits ∧
      ¬((larger c).2 + 1 = seL4PageBits ∧ (smaller c).2 + 1 = seL4PageBits) := by
    rw [smaller_snd, larger_snd]
    unfold Config.FillPages at hnot
    omega
  obtain ⟨hlt, hhalves⟩ := hsmall
  obtain ⟨r, n, hsum, hn, hnlt⟩ := sum_within_page (smaller_le_larger c) hlt hhalves hk
  have hsplit : extent (front c extra) = 2 ^ seL4PageBits * (q + r) + n := by
    rw [heq, Nat.mul_add]
    omega
  rw [hsplit] at hfront
  have hdvd := (Nat.dvd_add_right (Nat.dvd_mul_right _ _)).mp hfront
  exact absurd (Nat.le_of_dvd hn hdvd) (by omega)

/-! ## Once each -/

/-- An object other than the two bootinfo objects is not among those that wait. -/
theorem count_taken_eq_zero {o : Object} (hboot : o ≠ .bootInfo) (hextra : o ≠ .extraBi)
    (ps : List (Object × Nat)) (h : ∀ p ∈ ps, p ∈ waiting₀ c extra) :
    (ps.map Prod.fst).count o = 0 := by
  refine List.count_eq_zero.mpr ?_
  intro ho
  obtain ⟨p, hp, rfl⟩ := List.mem_map.mp ho
  rcases mem_waiting₀.mp (h p hp) with ⟨-, rfl⟩ | rfl
  · exact hboot rfl
  · exact hextra rfl

/-- How often the thresholds take an object. -/
def takenCount (c : Config) (extra : Nat) (o : Object) : Nat :=
  ((taken (c.rootserverMaxSizeBits extra) (waiting₀ c extra)).map Prod.fst).count o +
    ((taken (smaller c).2 (waiting₁ c extra)).map Prod.fst).count o +
    ((taken seL4PageBits (waiting₂ c extra)).map Prod.fst).count o

theorem takenCount_add_left (c : Config) (extra : Nat) (o : Object) :
    takenCount c extra o +
      ((left seL4PageBits (waiting₂ c extra)).map Prod.fst).count o =
      ((waiting₀ c extra).map Prod.fst).count o := by
  have hsplit (cmp : Nat) (ps : List (Object × Nat)) : (ps.map Prod.fst).count o =
      ((taken cmp ps).map Prod.fst).count o + ((left cmp ps).map Prod.fst).count o := by
    rw [← List.count_append, ← List.map_append, taken_append_left]
  rw [takenCount, hsplit (c.rootserverMaxSizeBits extra) (waiting₀ c extra), ← waiting₁,
    hsplit (smaller c).2 (waiting₁ c extra), ← waiting₂, hsplit seL4PageBits (waiting₂ c extra)]
  omega

theorem count_plan (o : Object) :
    ((front c extra ++ pages c).map Prod.fst).count o =
      takenCount c extra o + [Object.cnode, .vspace].count o +
        ((pages c).map Prod.fst).count o := by
  have hfixed : [(larger c).1].count o + [(smaller c).1].count o =
      [Object.cnode, .vspace].count o := by
    unfold larger smaller
    split <;> cases o <;> rfl
  unfold front takenCount
  simp only [List.map_append, List.count_append, List.map_cons, List.map_nil]
  omega

theorem takenCount_fixed {o : Object} (hboot : o ≠ .bootInfo) (hextra : o ≠ .extraBi) :
    takenCount c extra o = 0 := by
  have hsum := takenCount_add_left c extra o
  rw [count_taken_eq_zero hboot hextra (waiting₀ c extra) fun _ hp => hp] at hsum
  omega

theorem count_waiting₀ : ((waiting₀ c extra).map Prod.fst).count .bootInfo =
    (if seL4PageBits < c.bootInfoFrameBits then 1 else 0) ∧
      ((waiting₀ c extra).map Prod.fst).count .extraBi = 1 := by
  unfold waiting₀ waiting
  by_cases hpage : seL4PageBits < c.bootInfoFrameBits <;>
    by_cases horder : extra ≤ c.bootInfoFrameBits <;> simp [hpage, horder]

theorem mem_left_page {p : Object × Nat} (h : p ∈ left seL4PageBits (waiting₂ c extra)) :
    p ∈ waiting₀ c extra ∧ p.2 < seL4PageBits :=
  ⟨(mem_waiting₁ (mem_waiting₂ (mem_of_mem_left h)).1).1,
    (((waiting₀_largerFirst c extra).left _).left _).lt_of_mem_left h⟩

theorem takenCount_bootInfo : takenCount c extra .bootInfo =
    if seL4PageBits < c.bootInfoFrameBits then 1 else 0 := by
  have hsum := takenCount_add_left c extra .bootInfo
  have hleft : ((left seL4PageBits (waiting₂ c extra)).map Prod.fst).count .bootInfo = 0 := by
    refine List.count_eq_zero.mpr ?_
    intro ho
    obtain ⟨p, hp, hfst⟩ := List.mem_map.mp ho
    obtain ⟨hmem, hlt⟩ := mem_left_page hp
    rcases mem_waiting₀.mp hmem with ⟨hpage, rfl⟩ | rfl
    · dsimp only at hlt
      omega
    · cases hfst
  rw [count_waiting₀.1] at hsum
  omega

theorem takenCount_extraBi (hextra : extra = 0 ∨ seL4PageBits ≤ extra)
    (hpos : 0 < (smaller c).2) : takenCount c extra .extraBi = if extra = 0 then 0 else 1 := by
  have hsum := takenCount_add_left c extra .extraBi
  rw [count_waiting₀.2] at hsum
  by_cases hzero : extra = 0
  · rw [if_pos hzero]
    have hnone (cmp : Nat) (hcmp : 0 < cmp) (ps : List (Object × Nat))
        (hps : ∀ p ∈ ps, p ∈ waiting₀ c extra) :
        ((taken cmp ps).map Prod.fst).count .extraBi = 0 := by
      refine List.count_eq_zero.mpr ?_
      intro ho
      obtain ⟨p, hp, hfst⟩ := List.mem_map.mp ho
      have hle := le_of_mem_taken hp
      rcases mem_waiting₀.mp (hps p (mem_of_mem_taken hp)) with ⟨-, rfl⟩ | rfl
      · cases hfst
      · dsimp only at hle
        omega
    have hmax : 0 < c.rootserverMaxSizeBits extra :=
      Nat.lt_of_lt_of_le (by decide) (page_le_max c extra)
    rw [takenCount, hnone _ hmax _ fun _ hp => hp,
      hnone _ hpos _ fun _ hp => (mem_waiting₁ hp).1,
      hnone _ (by decide) _ fun _ hp => (mem_waiting₁ (mem_waiting₂ hp).1).1]
  · rw [if_neg hzero]
    have hleft : ((left seL4PageBits (waiting₂ c extra)).map Prod.fst).count .extraBi = 0 := by
      refine List.count_eq_zero.mpr ?_
      intro ho
      obtain ⟨p, hp, hfst⟩ := List.mem_map.mp ho
      obtain ⟨hmem, hlt⟩ := mem_left_page hp
      rcases mem_waiting₀.mp hmem with ⟨-, rfl⟩ | rfl
      · cases hfst
      · dsimp only at hlt
        omega
    omega

/-- Every object of the plan, as often as it should be there. -/
theorem plan_once (hextra : extra = 0 ∨ seL4PageBits ≤ extra) (hpos : 0 < (smaller c).2) :
    ((front c extra ++ pages c).map Prod.fst).count .cnode = 1 ∧
      ((front c extra ++ pages c).map Prod.fst).count .vspace = 1 ∧
      ((front c extra ++ pages c).map Prod.fst).count .bootInfo = 1 ∧
      ((front c extra ++ pages c).map Prod.fst).count .extraBi = if extra = 0 then 0 else 1 := by
  have hpage := c.page_le
  rw [count_plan, count_plan, count_plan, count_plan, takenCount_fixed (by decide) (by decide),
    takenCount_fixed (by decide) (by decide), takenCount_bootInfo,
    takenCount_extraBi hextra hpos]
  unfold pages
  by_cases hone : c.bootInfoFrameBits = seL4PageBits
  · simp [hone]
  · have hlt : seL4PageBits < c.bootInfoFrameBits := by omega
    simp [hone, hlt]

/-! ## The objects of a boot -/

/-- From memory aligned to the largest object, every allocation is aligned to its
size and the four objects are allocated once each, the extra bootinfo only if there
is one, exactly when the fixed objects fill pages and not both bootinfo objects are
large. -/
theorem rootserver_objects_iff (c : Config) (start extra : Nat)
    (hextra : extra = 0 ∨ seL4PageBits ≤ extra) (hstart : 0 < start)
    (haligned : 2 ^ c.rootserverMaxSizeBits extra ∣ start) :
    ((∀ x ∈ (Rootserver.createRootserverObjects c start extra).allocs,
        2 ^ x.sizeBits ∣ x.addr) ∧
      ((Rootserver.createRootserverObjects c start extra).allocs.map Placed.what).count
        .cnode = 1 ∧
      ((Rootserver.createRootserverObjects c start extra).allocs.map Placed.what).count
        .vspace = 1 ∧
      ((Rootserver.createRootserverObjects c start extra).allocs.map Placed.what).count
        .bootInfo = 1 ∧
      ((Rootserver.createRootserverObjects c start extra).allocs.map Placed.what).count
        .extraBi = if extra = 0 then 0 else 1) ↔
      c.FillPages ∧ ¬c.TwoLarge extra := by
  rw [createRootserverObjects_allocs c extra hstart, fits_iff_place, map_what_place]
  constructor
  · rintro ⟨hfits, -⟩
    constructor
    · by_contra hnot
      exact small_not_fits hextra hnot haligned hfits
    · intro htwo
      exact twoLarge_not_fits htwo haligned hfits
  · rintro ⟨hfill, htwo⟩
    have hle := fun p => le_larger_of_mem_waiting₁ (c := c) (p := p) hextra htwo
    have hpos : 0 < (smaller c).2 := by
      rw [smaller_snd]
      unfold Config.FillPages seL4PageBits at hfill
      omega
    refine ⟨?_, plan_once hextra hpos⟩
    rcases hfill with ⟨hc, hv⟩ | ⟨hc, hv⟩
    · refine plan_fits ?_ hle haligned
      rw [smaller_snd]
      omega
    · refine halves_fit hextra ?_ ?_ hle haligned
      · rw [larger_snd]
        omega
      · rw [smaller_snd]
        omega

/-- A root CNode of 128 KiB, a VSpace of 8 KiB and a bootinfo of `bits` bits. -/
def sampleConfig (bits : Nat) (h : seL4PageBits ≤ bits) : Config where
  rootCnodeSizeBits := 12
  slotBits := 5
  vspaceBits := 13
  bootInfoFrameBits := bits
  page_le := h

theorem page_le_fourteen : seL4PageBits ≤ 14 := by decide

theorem page_le_eighteen : seL4PageBits ≤ 18 := by decide

theorem rootserver_objects_fourPages :
    let b := Rootserver.createRootserverObjects (sampleConfig 14 page_le_fourteen) 0x80000000 20
    (∀ x ∈ b.allocs, 2 ^ x.sizeBits ∣ x.addr) ∧ (b.allocs.map Placed.what).count .extraBi = 1 := by
  have hall := (rootserver_objects_iff (sampleConfig 14 page_le_fourteen) 0x80000000 20
    (Or.inr (by decide)) (by decide) (by decide)).mpr ?_
  · exact ⟨hall.1, hall.2.2.2.2⟩
  · constructor
    · unfold Config.FillPages
      decide
    · unfold Config.TwoLarge
      decide

/-- An extra bootinfo of 1 MiB and a bootinfo of 256 KiB, both larger than the root
CNode: the bootinfo comes behind the CNode. -/
theorem bootInfo_misaligned :
    2 ^ (sampleConfig 18 page_le_eighteen).rootserverMaxSizeBits 20 ∣ 0x80000000 ∧
      ∃ x ∈ (Rootserver.createRootserverObjects (sampleConfig 18 page_le_eighteen) 0x80000000
        20).allocs, x.what = .bootInfo ∧ x.sizeBits = 18 ∧ ¬2 ^ x.sizeBits ∣ x.addr := by
  refine ⟨by decide, ⟨.bootInfo, 0x80120000, 18⟩, ?_, rfl, rfl, by decide⟩
  decide

end Kernel
end TensorSel4
