/-
A stream that is cut into pieces.

A piece ends at a separator, which is removed, and where it has `n` elements and
another one comes.  The last piece is the unfinished one, which may be empty and may
be full.
-/
import Mathlib.Data.List.Induction

namespace TensorSel4
namespace Text

variable {α : Type}

/-! ## Pieces of a length -/

/-- Pieces of `n` elements, and the rest of at most `n`. -/
def cutEvery (n : Nat) (s : List α) : List (List α) :=
  if 0 < n ∧ n < s.length then s.take n :: cutEvery n (s.drop n) else [s]
termination_by s.length
decreasing_by
  rw [List.length_drop]
  omega

variable {n : Nat} {s : List α}

theorem cutEvery_short (h : s.length ≤ n) : cutEvery n s = [s] := by
  rw [cutEvery, if_neg]
  omega

theorem cutEvery_long (hn : 0 < n) (h : n < s.length) :
    cutEvery n s = s.take n :: cutEvery n (s.drop n) := by
  rw [cutEvery, if_pos ⟨hn, h⟩]

theorem flatten_cutEvery (n : Nat) (s : List α) : (cutEvery n s).flatten = s := by
  induction s using cutEvery.induct n with
  | case1 s h ih => rw [cutEvery_long h.1 h.2, List.flatten_cons, ih, List.take_append_drop]
  | case2 s h => rw [cutEvery, if_neg h, List.flatten_singleton]

/-- The next element goes to the rest, or behind it when it is full. -/
def pushPiece (n : Nat) (done : List (List α)) (rest : List α) (c : α) : List (List α) :=
  if rest.length = n then done ++ [rest, [c]] else done ++ [rest ++ [c]]

theorem append_pushPiece (front done : List (List α)) (rest : List α) (c : α) :
    front ++ pushPiece n done rest c = pushPiece n (front ++ done) rest c := by
  unfold pushPiece
  split
  · rw [List.append_assoc]
  · rw [List.append_assoc]

theorem exists_cutEvery (hn : 0 < n) (s : List α) : ∃ done rest,
    cutEvery n s = done ++ [rest] ∧ rest.length ≤ n ∧
      ∀ c, cutEvery n (s ++ [c]) = pushPiece n done rest c := by
  induction s using cutEvery.induct n with
  | case1 s h ih =>
    obtain ⟨done, rest, hcut, hrest, hpush⟩ := ih
    refine ⟨s.take n :: done, rest, ?_, hrest, ?_⟩
    · rw [cutEvery_long hn h.2, hcut, List.cons_append]
    · intro c
      have hlong : n < (s ++ [c]).length := by
        rw [List.length_append]
        omega
      rw [cutEvery_long hn hlong, List.take_append_of_le_length (Nat.le_of_lt h.2),
        List.drop_append_of_le_length (Nat.le_of_lt h.2), hpush]
      exact append_pushPiece [s.take n] done rest c
  | case2 s h =>
    have hshort : s.length ≤ n := by omega
    refine ⟨[], s, cutEvery_short hshort, hshort, ?_⟩
    intro c
    unfold pushPiece
    by_cases hfull : s.length = n
    · have hlong : n < (s ++ [c]).length := by
        rw [List.length_append, List.length_singleton]
        omega
      rw [if_pos hfull, cutEvery_long hn hlong, List.take_left' hfull, List.drop_left' hfull,
        cutEvery_short (s := [c]) hn]
      rfl
    · rw [if_neg hfull, cutEvery_short]
      · rfl
      · rw [List.length_append, List.length_singleton]
        omega

/-! ## Pieces between separators -/

variable [BEq α] [LawfulBEq α] {sep : α}

/-- The part behind the last separator grows while no separator comes. -/
theorem exists_splitOn (sep : α) (s : List α) : ∃ front last, s.splitOn sep = front ++ [last] ∧
    ∀ t, sep ∉ t → (s ++ t).splitOn sep = front ++ [last ++ t] := by
  induction s using List.reverseRecOn with
  | nil => exact ⟨[], [], List.splitOn_nil sep, fun t ht => List.splitOn_eq_singleton ht⟩
  | append_singleton s x ih =>
    by_cases hx : x = sep
    · subst hx
      refine ⟨s.splitOn x, [], ?_, ?_⟩
      · rw [List.splitOn_append_cons_self, List.splitOn_nil]
      · intro t ht
        rw [List.append_assoc, List.singleton_append, List.splitOn_append_cons_self,
          List.splitOn_eq_singleton ht, List.nil_append]
    · obtain ⟨front, last, -, hgrows⟩ := ih
      refine ⟨front, last ++ [x], hgrows [x] (by simpa using Ne.symm hx), ?_⟩
      intro t ht
      rw [List.append_assoc, List.append_assoc]
      apply hgrows
      simpa [Ne.symm hx] using ht

def pieces (n : Nat) (sep : α) (s : List α) : List (List α) := (s.splitOn sep).flatMap (cutEvery n)

/-- The unfinished piece, and what one more element does to it. -/
theorem exists_pieces (hn : 0 < n) (sep : α) (s : List α) : ∃ done rest,
    pieces n sep s = done ++ [rest] ∧ rest.length ≤ n ∧
      pieces n sep (s ++ [sep]) = done ++ [rest, []] ∧
      ∀ c, c ≠ sep → pieces n sep (s ++ [c]) = pushPiece n done rest c := by
  obtain ⟨front, last, hsplit, hgrows⟩ := exists_splitOn sep s
  obtain ⟨done, rest, hcut, hrest, hpush⟩ := exists_cutEvery hn last
  have hpieces : pieces n sep s = front.flatMap (cutEvery n) ++ done ++ [rest] := by
    rw [pieces, hsplit, List.flatMap_append, List.flatMap_singleton, hcut, List.append_assoc]
  refine ⟨front.flatMap (cutEvery n) ++ done, rest, hpieces, hrest, ?_, ?_⟩
  · rw [pieces] at hpieces
    rw [pieces, List.splitOn_append_cons_self, List.flatMap_append, hpieces, List.splitOn_nil,
      List.flatMap_singleton, cutEvery_short (Nat.zero_le n), List.append_assoc]
    rfl
  · intro c hc
    rw [pieces, hgrows [c] (by simpa using Ne.symm hc), List.flatMap_append,
      List.flatMap_singleton, hpush]
    exact append_pushPiece _ done rest c

theorem flatten_splitOn (sep : α) (s : List α) : (s.splitOn sep).flatten = s.filter (· != sep) := by
  induction s using List.reverseRecOn with
  | nil => rfl
  | append_singleton s x ih =>
    rw [List.filter_append]
    by_cases hx : x = sep
    · subst hx
      rw [List.splitOn_append_cons_self, List.splitOn_nil, List.flatten_append, ih]
      simp
    · obtain ⟨front, last, hsplit, hgrows⟩ := exists_splitOn sep s
      rw [hsplit, List.flatten_append, List.flatten_singleton] at ih
      rw [hgrows [x] (by simpa using Ne.symm hx), List.flatten_append, List.flatten_singleton,
        ← List.append_assoc, ih]
      simp [hx]

/-- Only the separators are missing. -/
theorem flatten_pieces (n : Nat) (sep : α) (s : List α) :
    (pieces n sep s).flatten = s.filter (· != sep) := by
  rw [← flatten_splitOn]
  unfold pieces
  induction s.splitOn sep with
  | nil => rfl
  | cons l ls ih =>
    rw [List.flatMap_cons, List.flatten_append, flatten_cutEvery, ih, List.flatten_cons]

end Text
end TensorSel4
