/-
Ranges of addresses, and taking ranges out of ranges.

What a list of ranges covers is all that counts.  Any operation that takes one
range out of another exactly, whatever pieces it returns, takes a list of ranges
out of a list of ranges.
-/
import Mathlib.Algebra.Ring.Nat
import Mathlib.Data.List.Basic

namespace TensorSel4
namespace Memory

structure Region where
  base : Nat
  size : Nat

namespace Region

instance : Membership Nat Region where
  mem r x := r.base ≤ x ∧ x < r.base + r.size

theorem mem_def {r : Region} {x : Nat} : x ∈ r ↔ r.base ≤ x ∧ x < r.base + r.size := Iff.rfl

instance (r : Region) (x : Nat) : Decidable (x ∈ r) := inferInstanceAs (Decidable (_ ∧ _))

/-- The addresses from `start` to `stop`. -/
def fromRange (start stop : Nat) : Region where
  base := start
  size := stop - start

theorem mem_fromRange {start stop x : Nat} : x ∈ fromRange start stop ↔ start ≤ x ∧ x < stop := by
  rw [mem_def]
  show start ≤ x ∧ x < start + (stop - start) ↔ _
  omega

def Covers (rs : List Region) (x : Nat) : Prop := ∃ r ∈ rs, x ∈ r

instance (rs : List Region) (x : Nat) : Decidable (Covers rs x) :=
  inferInstanceAs (Decidable (∃ r ∈ rs, x ∈ r))

variable {rs ss : List Region} {r : Region} {x : Nat}

theorem not_covers_nil : ¬Covers [] x := fun ⟨_, h, _⟩ => absurd h List.not_mem_nil

theorem covers_cons : Covers (r :: rs) x ↔ x ∈ r ∨ Covers rs x := by simp [Covers]

theorem covers_singleton : Covers [r] x ↔ x ∈ r := by simp [Covers]

theorem covers_append : Covers (rs ++ ss) x ↔ Covers rs x ∨ Covers ss x := by
  simp [Covers, or_and_right, exists_or]

theorem covers_flatMap {α : Type*} {f : α → List Region} {as : List α} :
    Covers (as.flatMap f) x ↔ ∃ a ∈ as, Covers (f a) x := by
  simp only [Covers, List.mem_flatMap]
  constructor
  · rintro ⟨r, ⟨a, ha, hr⟩, hx⟩
    exact ⟨a, ha, r, hr, hx⟩
  · rintro ⟨a, ha, r, hr, hx⟩
    exact ⟨r, ⟨a, ha, hr⟩, hx⟩

/-- The operation takes its second argument out of its first, exactly. -/
def Exact (reserve : Region → Region → List Region) : Prop :=
  ∀ r s x, Covers (reserve r s) x ↔ x ∈ r ∧ x ∉ s

/-- Take each of `excluded` out of all the ranges. -/
def reserveAll (reserve : Region → Region → List Region) (rs excluded : List Region) :
    List Region :=
  excluded.foldl (fun ret reg => ret.flatMap fun el => reserve el reg) rs

theorem covers_reserveAll {reserve : Region → Region → List Region} (h : Exact reserve)
    (excluded : List Region) :
    Covers (reserveAll reserve rs excluded) x ↔ Covers rs x ∧ ¬Covers excluded x := by
  induction excluded generalizing rs with
  | nil =>
    show Covers rs x ↔ _
    simp [not_covers_nil]
  | cons s excluded ih =>
    have hstep : Covers (rs.flatMap fun el => reserve el s) x ↔ Covers rs x ∧ x ∉ s := by
      rw [covers_flatMap]
      constructor
      · rintro ⟨r, hr, hcovers⟩
        obtain ⟨hx, hnot⟩ := (h r s x).mp hcovers
        exact ⟨⟨r, hr, hx⟩, hnot⟩
      · rintro ⟨⟨r, hr, hx⟩, hnot⟩
        exact ⟨r, hr, (h r s x).mpr ⟨hx, hnot⟩⟩
    show Covers (reserveAll reserve (rs.flatMap fun el => reserve el s) excluded) x ↔ _
    rw [ih, hstep, covers_cons, not_or, and_assoc]

/-- What is before `s`, and what is behind it. -/
def minus (r s : Region) : List Region :=
  [fromRange r.base (min (r.base + r.size) s.base),
    fromRange (max r.base (s.base + s.size)) (r.base + r.size)]

theorem exact_minus : Exact minus := by
  intro r s x
  rw [minus, covers_cons, covers_singleton, mem_fromRange, mem_fromRange]
  simp only [mem_def]
  omega

/-- The chunks of `size` bytes, one behind the other. -/
def chunks (r : Region) (size : Nat) : List Region :=
  (List.range (r.size / size)).map fun i => ⟨r.base + i * size, size⟩

theorem size_of_mem_chunks {size : Nat} {c : Region} (h : c ∈ r.chunks size) : c.size = size := by
  obtain ⟨i, -, rfl⟩ := List.mem_map.mp h
  rfl

theorem covers_chunks {size : Nat} (h : size ∣ r.size) : Covers (r.chunks size) x ↔ x ∈ r := by
  obtain ⟨n, hn⟩ := h
  simp only [Covers, chunks, List.mem_map, List.mem_range, mem_def, hn]
  rcases Nat.eq_zero_or_pos size with rfl | hpos
  · simp
  rw [Nat.mul_div_cancel_left n hpos]
  constructor
  · rintro ⟨_, ⟨i, hi, rfl⟩, hfrom, hto⟩
    have hnext : (i + 1) * size ≤ n * size := Nat.mul_le_mul_right size hi
    rw [Nat.mul_comm size n]
    rw [Nat.add_mul, Nat.one_mul] at hnext
    dsimp only at hfrom hto
    omega
  · rintro ⟨hfrom, hto⟩
    have hlt : (x - r.base) / size < n := by
      rw [Nat.div_lt_iff_lt_mul hpos, Nat.mul_comm]
      omega
    have hdiv := Nat.div_add_mod (x - r.base) size
    have hmod := Nat.mod_lt (x - r.base) hpos
    rw [Nat.mul_comm] at hdiv
    refine ⟨_, ⟨(x - r.base) / size, hlt, rfl⟩, ?_, ?_⟩ <;> dsimp only <;> omega

end Region

/-! ## Alignment -/

def alignDown (n bits : Nat) : Nat := n / 2 ^ bits * 2 ^ bits

def alignUp (n bits : Nat) : Nat := (n + 2 ^ bits - 1) / 2 ^ bits * 2 ^ bits

theorem alignDown_le (n bits : Nat) : alignDown n bits ≤ n := Nat.div_mul_le_self n _

theorem dvd_alignUp (n bits : Nat) : 2 ^ bits ∣ alignUp n bits := Nat.dvd_mul_left _ _

end Memory
end TensorSel4
