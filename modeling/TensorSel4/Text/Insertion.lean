/-
A text with other text put into it, place by place.

A `Cut` is a text given character by character, each with what was put in before
it.  `marked` keeps for every character of the outcome where it comes from, which
is what tells a match of a pattern in the text itself from one that the texts put
in have a part in.  An `Insertion` cuts a text line by line, and every `Inserted`
text is the outcome of one.
-/
import TensorSel4.Text.Lines

namespace TensorSel4
namespace Text

/-- The characters of a text, each with what stands before it. -/
abbrev Cut := List (List Char × Char)

namespace Cut

/-- The text itself. -/
def own (cut : Cut) : List Char := cut.map Prod.snd

/-- The outcome, with `true` for the characters of the text itself. -/
def marked : Cut → List (Char × Bool)
  | [] => []
  | (t, c) :: cut => t.map (·, false) ++ (c, true) :: marked cut

def outcome (cut : Cut) : List Char := cut.marked.map Prod.fst

/-- Nothing was put in. -/
def Untouched (cut : Cut) : Prop := ∀ p ∈ cut, p.1 = []

instance (cut : Cut) : Decidable cut.Untouched := inferInstanceAs (Decidable (∀ _ ∈ _, _))

end Cut

/-- Characters of both origins. -/
def Mixed (s : List (Char × Bool)) : Prop := (∃ p ∈ s, p.2 = true) ∧ ∃ p ∈ s, p.2 = false

instance (s : List (Char × Bool)) : Decidable (Mixed s) :=
  inferInstanceAs (Decidable ((∃ p ∈ s, _) ∧ ∃ p ∈ s, _))

theorem eq_of_not_mixed {s : List (Char × Bool)} (h : ¬Mixed s) {p : Char × Bool} (hp : p ∈ s) :
    ∀ q ∈ s, q.2 = p.2 := by
  intro q hq
  by_contra hne
  apply h
  cases hqb : q.2 <;> cases hpb : p.2
  · exact absurd (hqb.trans hpb.symm) hne
  · exact ⟨⟨p, hp, hpb⟩, q, hq, hqb⟩
  · exact ⟨⟨q, hq, hqb⟩, p, hp, hpb⟩
  · exact absurd (hqb.trans hpb.symm) hne

/-! ## Cuts -/

namespace Cut

@[simp] theorem own_cons (p : List Char × Char) (cut : Cut) : own (p :: cut) = p.2 :: own cut := rfl

@[simp] theorem own_length (cut : Cut) : cut.own.length = cut.length := List.length_map _

@[simp] theorem marked_cons (t : List Char) (c : Char) (cut : Cut) :
    marked ((t, c) :: cut) = t.map (·, false) ++ (c, true) :: marked cut := rfl

@[simp] theorem outcome_nil : outcome [] = [] := rfl

@[simp] theorem outcome_cons (t : List Char) (c : Char) (cut : Cut) :
    outcome ((t, c) :: cut) = t ++ c :: outcome cut := by
  simp [outcome, Function.comp_def]

/-- A place of the outcome is in a text put in, or at the character after it. -/
theorem suffix_marked {cut : Cut} {v : List (Char × Bool)} (hv : v <:+ cut.marked) :
    v = [] ∨ ∃ t c cut' t', (t, c) :: cut' <:+ cut ∧ t' <:+ t ∧
      v = t'.map (·, false) ++ (c, true) :: marked cut' := by
  induction cut with
  | nil => exact .inl (List.suffix_nil.mp hv)
  | cons p cut ih =>
    have hinside (t' : List Char) (ht : t' <:+ p.1)
        (hv : v <:+ t'.map (·, false) ++ (p.2, true) :: marked cut) :
        v = [] ∨ ∃ t c cut' t', (t, c) :: cut' <:+ p :: cut ∧ t' <:+ t ∧
          v = t'.map (·, false) ++ (c, true) :: marked cut' := by
      induction t' with
      | nil =>
        rcases List.suffix_cons_iff.mp hv with h | h
        · exact .inr ⟨p.1, p.2, cut, [], List.suffix_rfl, ht, h⟩
        · cases ih h with
          | inl h => exact .inl h
          | inr h =>
            obtain ⟨t, c, cut', t', hcut, ht', hv'⟩ := h
            exact .inr ⟨t, c, cut', t', hcut.trans (List.suffix_cons p cut), ht', hv'⟩
      | cons d t' iht =>
        rcases List.suffix_cons_iff.mp hv with h | h
        · exact .inr ⟨p.1, p.2, cut, d :: t', List.suffix_rfl, ht, h⟩
        · exact iht ((List.suffix_cons d t').trans ht) h
    exact hinside p.1 List.suffix_rfl hv

/-- Where nothing was put in, the outcome starts with the text itself. -/
theorem marked_untouched {cut : Cut} {n : Nat} (h : Untouched (cut.take n)) :
    cut.marked = (cut.own.take n).map (·, true) ++ marked (cut.drop n) := by
  induction n generalizing cut with
  | zero => rfl
  | succ n ih =>
    cases cut with
    | nil => rfl
    | cons p cut =>
      obtain ⟨t, c⟩ := p
      have ht : t = [] := h (t, c) List.mem_cons_self
      have hrest := ih fun p hp => h p (List.mem_cons_of_mem _ hp)
      simp [ht, hrest]

theorem outcome_untouched {cut : Cut} {n : Nat} (h : Untouched (cut.take n)) :
    cut.outcome = cut.own.take n ++ outcome (cut.drop n) := by
  simp [outcome, marked_untouched h, Function.comp_def]

/-- Nothing stands between characters of the text itself. -/
theorem untouched_of_take {cut : Cut} {n : Nat} (hn : n ≤ cut.length)
    (h : ∀ p ∈ cut.marked.take n, p.2 = true) : Untouched (cut.take n) := by
  induction n generalizing cut with
  | zero => exact nofun
  | succ n ih =>
    cases cut with
    | nil => exact absurd hn (by simp)
    | cons p cut =>
      obtain ⟨t, c⟩ := p
      cases t with
      | cons d t => exact absurd (h (d, false) (by simp)) Bool.false_ne_true
      | nil =>
        have hrest : Untouched (cut.take n) :=
          ih (Nat.le_of_succ_le_succ hn) fun p hp => h p (List.mem_cons_of_mem _ hp)
        intro p hp
        rcases List.mem_cons.mp hp with rfl | hp
        · rfl
        · exact hrest p hp

/-- The last character of the text is the last of the outcome. -/
theorem outcome_ended {cut : Cut} {l : List Char} {c : Char} (h : cut.own = l ++ [c]) :
    ∃ a, cut.outcome = a ++ [c] := by
  induction cut generalizing l with
  | nil => simp [own] at h
  | cons p cut ih =>
    obtain ⟨t, d⟩ := p
    cases l with
    | nil =>
      obtain ⟨rfl, hcut⟩ : d = c ∧ cut = [] := by simpa [own] using h
      exact ⟨t, by simp [hcut]⟩
    | cons e l =>
      obtain ⟨-, hl⟩ : d = e ∧ own cut = l ++ [c] := by simpa using h
      obtain ⟨a, ha⟩ := ih hl
      exact ⟨t ++ d :: a, by simp [ha]⟩

end Cut

/-! ## Insertions -/

/-- A text in lines, cut at every character, and what stands behind it. -/
structure Insertion (free : List Char → Prop) (ls : List (List Char)) where
  cuts : List Cut
  tail : List Char
  own_cuts : cuts.map Cut.own = ls
  free_cuts : ∀ cut ∈ cuts, ∀ p ∈ cut, free p.1
  free_tail : free tail

namespace Insertion

variable {free : List Char → Prop} {ls : List (List Char)}

def text (i : Insertion free ls) : List Char := i.cuts.flatMap Cut.outcome ++ i.tail

/-- A line behind which the rest stands. -/
def cons {cut : Cut} (hfree : ∀ p ∈ cut, free p.1) (i : Insertion free ls) :
    Insertion free (cut.own :: ls) where
  cuts := cut :: i.cuts
  tail := i.tail
  own_cuts := by rw [List.map_cons, i.own_cuts]
  free_cuts := by
    intro cut' hcut'
    rcases List.mem_cons.mp hcut' with rfl | h
    · exact hfree
    · exact i.free_cuts cut' h
  free_tail := i.free_tail

theorem inserted_outcome {cut : Cut} (hfree : ∀ p ∈ cut, free p.1) {a b : List Char}
    (h : Inserted free a b) : Inserted free (cut.own ++ a) (cut.outcome ++ b) := by
  induction cut with
  | nil => exact h
  | cons p cut ih =>
    obtain ⟨t, c⟩ := p
    have hrest := ih fun p hp => hfree p (List.mem_cons_of_mem _ hp)
    have hstep := Inserted.step (c := c) (hfree (t, c) List.mem_cons_self) hrest
    simpa using hstep

theorem exists_cut {l a b : List Char} (h : Inserted free (l ++ a) b) :
    ∃ cut : Cut, cut.own = l ∧ (∀ p ∈ cut, free p.1) ∧
      ∃ b', Inserted free a b' ∧ b = cut.outcome ++ b' := by
  induction l generalizing b with
  | nil => exact ⟨[], rfl, nofun, b, h, rfl⟩
  | cons c l ih =>
    cases h with
    | @step t _ _ b₁ ht hrest =>
      obtain ⟨cut, hown, hfree, b', hb', hb⟩ := ih hrest
      refine ⟨(t, c) :: cut, by rw [Cut.own_cons, hown], ?_, b', hb', by simp [hb]⟩
      intro p hp
      rcases List.mem_cons.mp hp with rfl | hp
      · exact ht
      · exact hfree p hp

/-- Every text with others put into it is the outcome of an insertion. -/
theorem inserted_iff {s : List Char} :
    Inserted free ls.flatten s ↔ ∃ i : Insertion free ls, i.text = s := by
  constructor
  · intro h
    induction ls generalizing s with
    | nil =>
      cases h with
      | done h => exact ⟨⟨[], s, rfl, nofun, h⟩, rfl⟩
    | cons l ls ih =>
      rw [List.flatten_cons] at h
      obtain ⟨cut, rfl, hfree, b', hb', rfl⟩ := exists_cut h
      obtain ⟨i, rfl⟩ := ih hb'
      exact ⟨i.cons hfree, by simp [text, cons]⟩
  · rintro ⟨⟨cuts, tail, rfl, hcuts, htail⟩, rfl⟩
    induction cuts with
    | nil => exact Inserted.done htail
    | cons cut cuts ih =>
      have hrest := ih fun cut' hcut' => hcuts cut' (List.mem_cons_of_mem _ hcut')
      have h := inserted_outcome (hcuts cut List.mem_cons_self) hrest
      simpa [text] using h

end Insertion

end Text
end TensorSel4
