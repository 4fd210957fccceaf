/-
Searching a text for a pattern, as `re.search` does: the leftmost position at
which the pattern matches wins.  A pattern is the function that matches it at
the start of a text.
-/
import Mathlib.Data.List.Basic

namespace TensorSel4
namespace Text

variable {α β : Type*} {pat : List α → Option β}

def search (pat : List α → Option β) : List α → Option β
  | [] => pat []
  | c :: cs =>
    match pat (c :: cs) with
    | some r => some r
    | none => search pat cs

theorem search_of_match {s : List α} {r : β} (h : pat s = some r) : search pat s = some r := by
  cases s with
  | nil => exact h
  | cons c cs => rw [search, h]

theorem search_skip {c : α} {cs : List α} (h : pat (c :: cs) = none) :
    search pat (c :: cs) = search pat cs := by
  rw [search, h]

/-- The search fails exactly when no suffix of the text starts with a match. -/
theorem search_eq_none_iff {s : List α} : search pat s = none ↔ ∀ t, t <:+ s → pat t = none := by
  induction s with
  | nil =>
    constructor
    · intro h t ht
      rw [List.suffix_nil.mp ht]
      exact h
    · intro h
      exact h [] List.suffix_rfl
  | cons c cs ih =>
    constructor
    · intro h t ht
      cases hp : pat (c :: cs) with
      | some r =>
        rw [search_of_match hp] at h
        cases h
      | none =>
        rw [search_skip hp] at h
        rcases List.suffix_cons_iff.mp ht with rfl | ht
        · exact hp
        · exact ih.mp h t ht
    · intro h
      rw [search_skip (h _ List.suffix_rfl)]
      apply ih.mpr
      intro t ht
      exact h t (ht.trans (List.suffix_cons c cs))

/-- What the search finds starts some suffix of the text. -/
theorem search_eq_some {s : List α} {r : β} (h : search pat s = some r) :
    ∃ t, t <:+ s ∧ pat t = some r := by
  induction s with
  | nil => exact ⟨[], List.suffix_rfl, h⟩
  | cons c cs ih =>
    cases hp : pat (c :: cs) with
    | some r' =>
      rw [search_of_match hp] at h
      exact ⟨c :: cs, List.suffix_rfl, hp.trans h⟩
    | none =>
      rw [search_skip hp] at h
      obtain ⟨t, ht, hpat⟩ := ih h
      exact ⟨t, ht.trans (List.suffix_cons c cs), hpat⟩

/-- A pattern that starts with a certain character is not found where that
character is missing. -/
theorem search_eq_none_of_not_mem {c : α} {s : List α}
    (hpat : ∀ t, pat t ≠ none → t.head? = some c) (h : c ∉ s) : search pat s = none := by
  apply search_eq_none_iff.mpr
  intro t ht
  by_contra hne
  have hhead : t.head? = some c := hpat t hne
  exact h (ht.subset (List.mem_of_mem_head? hhead))

end Text
end TensorSel4
