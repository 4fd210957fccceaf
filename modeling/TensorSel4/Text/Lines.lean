/-
Reading a text by lines, and texts with other text in them.

`readLines` is iteration over a Python file opened in text mode: `\r\n` and `\r`
become `\n`, and each line keeps the `\n` that ends it.

`Interleaved xs ys zs` says that `zs` is a merge of `xs` and `ys` keeping the
order of each: lines between lines.  `Inserted free s t` says that `t` is `s`
with a text satisfying `free` put in at each position, which may fall inside a
line.
-/
import Mathlib.Data.List.Basic

namespace TensorSel4
namespace Text

/-! ## Lines -/

def universalNewlines : List Char → List Char
  | [] => []
  | '\r' :: '\n' :: cs => '\n' :: universalNewlines cs
  | c :: cs => (if c = '\r' then '\n' else c) :: universalNewlines cs

def splitLines : List Char → List (List Char)
  | [] => []
  | c :: cs =>
    if c = '\n' then ['\n'] :: splitLines cs
    else
      match splitLines cs with
      | [] => [[c]]
      | l :: ls => (c :: l) :: ls

def readLines (s : List Char) : List (List Char) := splitLines (universalNewlines s)

/-- A text without line ends of its own, and the `\n` that ends it. -/
structure IsLine (l : List Char) : Prop where
  ended : ∃ body, l = body ++ ['\n'] ∧ '\n' ∉ body ∧ '\r' ∉ body

theorem universalNewlines_cons {c : Char} (h : c ≠ '\r') (cs : List Char) :
    universalNewlines (c :: cs) = c :: universalNewlines cs := by
  rw [universalNewlines]
  · rw [if_neg h]
  · intro ds hc
    exact absurd hc h

theorem universalNewlines_append {s : List Char} (h : '\r' ∉ s) (t : List Char) :
    universalNewlines (s ++ t) = s ++ universalNewlines t := by
  induction s with
  | nil => rfl
  | cons c cs ih =>
    rw [List.mem_cons, not_or] at h
    rw [List.cons_append, universalNewlines_cons (Ne.symm h.1), ih h.2]
    rfl

theorem splitLines_line {body : List Char} (h : '\n' ∉ body) (t : List Char) :
    splitLines (body ++ '\n' :: t) = (body ++ ['\n']) :: splitLines t := by
  induction body with
  | nil => rw [List.nil_append, splitLines, if_pos rfl, List.nil_append]
  | cons c cs ih =>
    rw [List.mem_cons, not_or] at h
    rw [List.cons_append, splitLines, if_neg (Ne.symm h.1), ih h.2]
    rfl

theorem readLines_line {l : List Char} (h : IsLine l) (t : List Char) :
    readLines (l ++ t) = l :: readLines t := by
  obtain ⟨body, rfl, hn, hr⟩ := h.ended
  have hr' : '\r' ∉ body ++ ['\n'] := by simp [hr]
  rw [readLines, universalNewlines_append hr', List.append_assoc, List.singleton_append,
    splitLines_line hn]
  rfl

theorem readLines_flatten {ls : List (List Char)} (h : ∀ l ∈ ls, IsLine l) :
    readLines ls.flatten = ls := by
  induction ls with
  | nil => rfl
  | cons l ls ih =>
    have hrest : readLines ls.flatten = ls := ih fun l' hl' => h l' (List.mem_cons_of_mem _ hl')
    rw [List.flatten_cons, readLines_line (h l List.mem_cons_self), hrest]

/-! ## Reading from the front -/

theorem readLines_newline (cs : List Char) : readLines ('\n' :: cs) = ['\n'] :: readLines cs := by
  rw [readLines, universalNewlines_cons (by decide), splitLines, if_pos rfl]
  rfl

/-- A `\r` ends a line unless the `\n` after it does. -/
theorem readLines_return (cs : List Char) :
    readLines ('\r' :: cs) =
      if cs.head? = some '\n' then readLines cs else ['\n'] :: readLines cs := by
  have hpair (ds : List Char) : readLines ('\r' :: '\n' :: ds) = readLines ('\n' :: ds) := by
    rw [readLines, readLines, universalNewlines, universalNewlines_cons (by decide)]
  have halone (h : cs.head? ≠ some '\n') :
      universalNewlines ('\r' :: cs) = '\n' :: universalNewlines cs := by
    rw [universalNewlines]
    · rfl
    · rintro ds - rfl
      exact h rfl
  by_cases h : cs.head? = some '\n'
  · rw [if_pos h]
    obtain ⟨ds, rfl⟩ := List.head?_eq_some_iff.mp h
    exact hpair ds
  · rw [if_neg h, readLines, halone h, splitLines, if_pos rfl]
    rfl

/-- A character within a line. -/
theorem readLines_cons {c : Char} (hn : c ≠ '\n') (hr : c ≠ '\r') (cs : List Char) :
    readLines (c :: cs) =
      match readLines cs with
      | [] => [[c]]
      | l :: ls => (c :: l) :: ls := by
  rw [readLines, universalNewlines_cons hr, splitLines, if_neg hn]
  rfl

theorem readLines_ne_nil (c : Char) (cs : List Char) : readLines (c :: cs) ≠ [] := by
  induction cs generalizing c with
  | nil =>
    by_cases hn : c = '\n'
    · rw [hn, readLines_newline]
      exact List.cons_ne_nil _ _
    by_cases hr : c = '\r'
    · rw [hr, readLines_return]
      exact List.cons_ne_nil _ _
    · rw [readLines_cons hn hr]
      exact List.cons_ne_nil _ _
  | cons d ds ih =>
    by_cases hn : c = '\n'
    · rw [hn, readLines_newline]
      exact List.cons_ne_nil _ _
    by_cases hr : c = '\r'
    · rw [hr, readLines_return]
      split
      · exact ih d
      · exact List.cons_ne_nil _ _
    · rw [readLines_cons hn hr]
      split <;> exact List.cons_ne_nil _ _

theorem eq_nil_of_readLines {s : List Char} (h : readLines s = []) : s = [] := by
  cases s with
  | nil => rfl
  | cons c cs => exact absurd h (readLines_ne_nil c cs)

/-- A `\n` ends the reading of what stands before it. -/
theorem readLines_ended (a b : List Char) :
    readLines (a ++ '\n' :: b) = readLines (a ++ ['\n']) ++ readLines b := by
  induction a with
  | nil =>
    rw [List.nil_append, List.nil_append, readLines_newline, readLines_newline]
    rfl
  | cons c a ih =>
    rw [List.cons_append, List.cons_append]
    by_cases hn : c = '\n'
    · rw [hn, readLines_newline, readLines_newline, ih, List.cons_append]
    by_cases hr : c = '\r'
    · have hhead : (a ++ '\n' :: b).head? = (a ++ ['\n']).head? := by cases a <;> rfl
      rw [hr, readLines_return, readLines_return, hhead, ih]
      split
      · rfl
      · rfl
    · rw [readLines_cons hn hr, readLines_cons hn hr, ih]
      cases hrest : readLines (a ++ ['\n']) with
      | nil => cases a <;> exact absurd hrest (readLines_ne_nil _ _)
      | cons l ls => rfl

/-! ## Lines between lines -/

section

variable {α β : Type*}

inductive Interleaved : List α → List α → List α → Prop
  | nil : Interleaved [] [] []
  | left {x xs ys zs} : Interleaved xs ys zs → Interleaved (x :: xs) ys (x :: zs)
  | right {y xs ys zs} : Interleaved xs ys zs → Interleaved xs (y :: ys) (y :: zs)

namespace Interleaved

variable {xs ys zs : List α}

theorem append (xs ys : List α) : Interleaved xs ys (xs ++ ys) := by
  induction xs with
  | nil =>
    induction ys with
    | nil => exact nil
    | cons y ys ih => exact right ih
  | cons x xs ih => exact left ih

/-- A reader that ignores one of the two lists reads the other. -/
theorem filterMap_eq (h : Interleaved xs ys zs) {f : α → Option β} (hy : ∀ y ∈ ys, f y = none) :
    zs.filterMap f = xs.filterMap f := by
  induction h with
  | nil => rfl
  | @left x xs ys zs _ ih =>
    rw [List.filterMap_cons, List.filterMap_cons, ih hy]
  | @right y xs ys zs _ ih =>
    rw [List.filterMap_cons, hy y List.mem_cons_self]
    exact ih fun y' hy' => hy y' (List.mem_cons_of_mem _ hy')

end Interleaved

end

/-! ## Text inside text -/

inductive Inserted (free : List Char → Prop) : List Char → List Char → Prop
  | done {t} : free t → Inserted free [] t
  | step {t c a b} : free t → Inserted free a b → Inserted free (c :: a) (t ++ c :: b)

namespace Inserted

variable {free : List Char → Prop}

theorem refl (h : free []) (s : List Char) : Inserted free s s := by
  induction s with
  | nil => exact done h
  | cons c cs ih => exact step h ih

/-- One text put in at one place. -/
theorem single {t : List Char} (hnil : free []) (ht : free t) (a b : List Char) :
    Inserted free (a ++ b) (a ++ (t ++ b)) := by
  induction a with
  | nil =>
    cases b with
    | nil =>
      rw [List.append_nil, List.append_nil]
      exact done ht
    | cons c b => exact step ht (refl hnil b)
  | cons c a ih => exact step hnil ih

end Inserted

end Text
end TensorSel4
