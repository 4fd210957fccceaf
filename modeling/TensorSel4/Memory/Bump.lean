/-
Bump allocation of objects whose sizes are powers of two.

Objects are placed one behind the other.  Each of them falls on a multiple of its
own size when the sizes never increase and the start suits the first of them.
An object behind a smaller one does not: what stands between it and the last
multiple of its size is less than its size.
-/
import Mathlib.Algebra.BigOperators.Ring.List
import Mathlib.Algebra.Ring.Nat
import Mathlib.Data.List.TakeWhile

namespace TensorSel4
namespace Memory

structure Placed (α : Type*) where
  what : α
  addr : Nat
  sizeBits : Nat
  deriving DecidableEq

namespace Bump

variable {α : Type*}

/-- Objects and the logarithms of their sizes, placed from `start` on. -/
def place : Nat → List (α × Nat) → List (Placed α)
  | _, [] => []
  | start, p :: ps => ⟨p.1, start, p.2⟩ :: place (start + 2 ^ p.2) ps

def extent (ps : List (α × Nat)) : Nat := (ps.map fun p => 2 ^ p.2).sum

theorem extent_append (ps qs : List (α × Nat)) : extent (ps ++ qs) = extent ps + extent qs := by
  simp [extent]

theorem place_append (start : Nat) (ps qs : List (α × Nat)) :
    place start (ps ++ qs) = place start ps ++ place (start + extent ps) qs := by
  induction ps generalizing start with
  | nil => simp [place, extent]
  | cons p ps ih =>
    have hcons : extent (p :: ps) = 2 ^ p.2 + extent ps := by simp [extent]
    rw [List.cons_append, place, place, List.cons_append, ih, hcons, Nat.add_assoc]

theorem map_what_place (start : Nat) (ps : List (α × Nat)) :
    (place start ps).map Placed.what = ps.map Prod.fst := by
  induction ps generalizing start with
  | nil => rfl
  | cons p ps ih => rw [place, List.map_cons, List.map_cons, ih]

/-- Sizes placed from `addr` on, each on a multiple of its size. -/
def Fits : Nat → List Nat → Prop
  | _, [] => True
  | addr, s :: ss => 2 ^ s ∣ addr ∧ Fits (addr + 2 ^ s) ss

theorem fits_iff_place {start : Nat} {ps : List (α × Nat)} :
    (∀ x ∈ place start ps, 2 ^ x.sizeBits ∣ x.addr) ↔ Fits start (ps.map Prod.snd) := by
  induction ps generalizing start with
  | nil => exact iff_of_true (fun _ h => absurd h List.not_mem_nil) trivial
  | cons p ps ih => rw [place, List.forall_mem_cons, ih, List.map_cons, Fits]

theorem Fits.tail_of_append {addr : Nat} {ss ts : List Nat} (h : Fits addr (ss ++ ts)) :
    Fits (addr + (ss.map (2 ^ ·)).sum) ts := by
  induction ss generalizing addr with
  | nil => simpa using h
  | cons s ss ih =>
    have hrest := ih h.2
    rwa [Nat.add_assoc, ← List.sum_cons, ← List.map_cons] at hrest

/-- Sizes that never increase fit wherever each of them alone would. -/
theorem fits_of_sorted {addr : Nat} {ss : List Nat} (hsorted : ss.Pairwise (· ≥ ·))
    (h : ∀ s ∈ ss, 2 ^ s ∣ addr) : Fits addr ss := by
  induction ss generalizing addr with
  | nil => trivial
  | cons s ss ih =>
    obtain ⟨hle, hrest⟩ := List.pairwise_cons.mp hsorted
    refine ⟨h s List.mem_cons_self, ih hrest ?_⟩
    intro t ht
    exact Nat.dvd_add (h t (List.mem_cons_of_mem s ht)) (Nat.pow_dvd_pow 2 (hle t ht))

/-- Behind sizes of at least `t` and one smaller size, `t` does not fit. -/
theorem not_dvd_behind_smaller {addr s t : Nat} (haddr : 2 ^ t ∣ addr) (hst : s < t) :
    ¬2 ^ t ∣ addr + 2 ^ s := by
  intro h
  have hdvd : 2 ^ t ∣ 2 ^ s := (Nat.dvd_add_right haddr).mp h
  have hle := (Nat.pow_dvd_pow_iff_le_right (by omega)).mp hdvd
  omega

/-! ## Thresholds

Objects wait in a list, the larger ones first; a threshold takes from its front
what is not smaller than it. -/

def taken (cmp : Nat) (pend : List (α × Nat)) : List (α × Nat) :=
  pend.takeWhile fun p => decide (cmp ≤ p.2)

def left (cmp : Nat) (pend : List (α × Nat)) : List (α × Nat) :=
  pend.dropWhile fun p => decide (cmp ≤ p.2)

def LargerFirst (pend : List (α × Nat)) : Prop := pend.Pairwise fun p q => q.2 ≤ p.2

variable {cmp : Nat} {pend : List (α × Nat)} {p : α × Nat}

theorem taken_append_left (cmp : Nat) (pend : List (α × Nat)) :
    taken cmp pend ++ left cmp pend = pend := List.takeWhile_append_dropWhile

theorem le_of_mem_taken (h : p ∈ taken cmp pend) : cmp ≤ p.2 := by
  have hp := List.mem_takeWhile_imp (p := fun q : α × Nat => decide (cmp ≤ q.2)) h
  exact of_decide_eq_true hp

theorem mem_of_mem_taken (h : p ∈ taken cmp pend) : p ∈ pend :=
  (List.takeWhile_sublist _).mem h

theorem mem_of_mem_left (h : p ∈ left cmp pend) : p ∈ pend := (List.dropWhile_sublist _).mem h

theorem LargerFirst.taken (h : LargerFirst pend) (cmp : Nat) : LargerFirst (taken cmp pend) :=
  h.sublist (List.takeWhile_sublist _)

theorem LargerFirst.left (h : LargerFirst pend) (cmp : Nat) : LargerFirst (left cmp pend) :=
  h.sublist (List.dropWhile_sublist _)

theorem LargerFirst.lt_of_mem_left (h : LargerFirst pend) (hp : p ∈ Bump.left cmp pend) :
    p.2 < cmp := by
  induction pend with
  | nil => cases hp
  | cons q pend ih =>
    obtain ⟨hq, hrest⟩ := List.pairwise_cons.mp h
    by_cases hcmp : cmp ≤ q.2
    · refine ih hrest ?_
      simpa [Bump.left, List.dropWhile_cons, hcmp] using hp
    · have hmem : p ∈ q :: pend := mem_of_mem_left hp
      rcases List.mem_cons.mp hmem with rfl | hmem
      · omega
      · have := hq p hmem
        omega

/-- The larger ones first, down to the size `b`. -/
structure DownTo (b : Nat) (ps : List (α × Nat)) : Prop where
  largerFirst : LargerFirst ps
  ge : ∀ p ∈ ps, b ≤ p.2

theorem DownTo.singleton (p : α × Nat) : DownTo p.2 [p] where
  largerFirst := List.pairwise_singleton _ _
  ge := by
    intro q hq
    rw [List.mem_singleton.mp hq]

theorem LargerFirst.downTo_taken (h : LargerFirst pend) (cmp : Nat) :
    DownTo cmp (Bump.taken cmp pend) := ⟨h.taken cmp, fun _ hp => le_of_mem_taken hp⟩

theorem DownTo.append {b b' : Nat} {ps qs : List (α × Nat)} (hps : DownTo b ps)
    (hqs : DownTo b' qs) (hb : b' ≤ b) (hle : ∀ q ∈ qs, q.2 ≤ b) : DownTo b' (ps ++ qs) where
  largerFirst := by
    refine List.pairwise_append.mpr ⟨hps.largerFirst, hqs.largerFirst, ?_⟩
    intro p hp q hq
    exact Nat.le_trans (hle q hq) (hps.ge p hp)
  ge := by
    intro p hp
    rcases List.mem_append.mp hp with hp | hp
    · exact Nat.le_trans hb (hps.ge p hp)
    · exact hqs.ge p hp

theorem DownTo.mono {b b' : Nat} {ps : List (α × Nat)} (h : DownTo b ps) (hb : b' ≤ b) :
    DownTo b' ps := ⟨h.largerFirst, fun p hp => Nat.le_trans hb (h.ge p hp)⟩

/-- The larger ones first, from a start that suits all of them. -/
theorem LargerFirst.fits {start m : Nat} {ps : List (α × Nat)} (h : LargerFirst ps)
    (hle : ∀ p ∈ ps, p.2 ≤ m) (hstart : 2 ^ m ∣ start) : Fits start (ps.map Prod.snd) := by
  refine fits_of_sorted (List.pairwise_map.mpr h) ?_
  intro s hs
  obtain ⟨p, hp, rfl⟩ := List.mem_map.mp hs
  exact Nat.dvd_trans (Nat.pow_dvd_pow 2 (hle p hp)) hstart

/-- Sizes from `b` on add up to a multiple of `2 ^ b`. -/
theorem dvd_extent {b : Nat} {ps : List (α × Nat)} (h : ∀ p ∈ ps, b ≤ p.2) :
    2 ^ b ∣ extent ps := by
  refine List.dvd_sum ?_
  intro n hn
  obtain ⟨p, hp, rfl⟩ := List.mem_map.mp hn
  exact Nat.pow_dvd_pow 2 (h p hp)

theorem Fits.append {addr : Nat} {ss ts : List Nat} (hss : Fits addr ss)
    (hts : Fits (addr + (ss.map (2 ^ ·)).sum) ts) : Fits addr (ss ++ ts) := by
  induction ss generalizing addr with
  | nil => simpa using hts
  | cons s ss ih =>
    refine ⟨hss.1, ih hss.2 ?_⟩
    rwa [Nat.add_assoc, ← List.sum_cons, ← List.map_cons]

end Bump
end Memory
end TensorSel4
