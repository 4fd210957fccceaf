/-
Events that are explained by earlier events of the same history.

`Explained` carries a map from the effects of a history to the positions of
their causes, together with the positions of causes that are still to be used.
A history only grows, and each of the rules below says what one more event does:
it is neither, it is a cause to be used later, or it is an effect whose cause is
the first of the spare ones.  Taking the first keeps the map increasing.
-/
import Mathlib.Data.List.Basic
import Mathlib.Logic.Function.Basic

namespace TensorSel4

variable {α : Type*}

structure Explained (effect : α → Prop) (cause : α → α → Prop) (events : List α) (f : Nat → Nat)
    (spare : List Nat) : Prop where
  caused : ∀ j g, events[j]? = some g → effect g →
    f j < j ∧ ∃ c, events[f j]? = some c ∧ cause c g
  increasing : ∀ i j g h, i < j → events[i]? = some g → effect g → events[j]? = some h →
    effect h → f i < f j
  spare_lt : ∀ i ∈ spare, i < events.length
  sorted : spare.Pairwise (· < ·)
  unused : ∀ j g, events[j]? = some g → effect g → ∀ i ∈ spare, f j < i

namespace Explained

variable {effect : α → Prop} {cause : α → α → Prop} {events : List α} {f : Nat → Nat}
  {spare : List Nat}

theorem nil (f : Nat → Nat) : Explained effect cause [] f [] where
  caused := by
    intro j g hj
    simp at hj
  increasing := by
    intro i j g h hij hi
    simp at hi
  spare_lt := fun _ hi => absurd hi List.not_mem_nil
  sorted := .nil
  unused := by
    intro j g hj
    simp at hj

/-- A spare cause may be given up. -/
theorem sublist (h : Explained effect cause events f spare) {rest : List Nat}
    (hrest : rest.Sublist spare) : Explained effect cause events f rest where
  caused := h.caused
  increasing := h.increasing
  spare_lt := fun i hi => h.spare_lt i (hrest.subset hi)
  sorted := h.sorted.sublist hrest
  unused := fun j g hj hg i hi => h.unused j g hj hg i (hrest.subset hi)

/-- The positions of a longer history, where the new event is no effect. -/
theorem effect_append {e : α} (he : ¬effect e) {j : Nat} {g : α}
    (hj : (events ++ [e])[j]? = some g) (hg : effect g) : events[j]? = some g := by
  rcases Nat.lt_trichotomy j events.length with hlt | rfl | hgt
  · rw [← hj, List.getElem?_append_left hlt]
  · rw [List.getElem?_concat_length] at hj
    obtain rfl := Option.some.inj hj
    exact absurd hg he
  · have hlen : (events ++ [e]).length ≤ j := by
      rw [List.length_append, List.length_singleton]
      omega
    rw [List.getElem?_eq_none hlen] at hj
    cases hj

theorem getElem?_append_of_some {i : Nat} {c : α} (hi : events[i]? = some c) (e : α) :
    (events ++ [e])[i]? = some c := by
  have hlt := (List.getElem?_eq_some_iff.mp hi).1
  rw [List.getElem?_append_left hlt, hi]

/-- An event that is neither an effect nor a cause to be kept. -/
theorem push_quiet (h : Explained effect cause events f spare) {e : α} (he : ¬effect e) :
    Explained effect cause (events ++ [e]) f spare where
  caused := by
    intro j g hj hg
    obtain ⟨hlt, c, hc, hcause⟩ := h.caused j g (effect_append he hj hg) hg
    exact ⟨hlt, c, getElem?_append_of_some hc e, hcause⟩
  increasing := by
    intro i j g g' hij hi hg hj hg'
    exact h.increasing i j g g' hij (effect_append he hi hg) hg (effect_append he hj hg') hg'
  spare_lt := by
    intro i hi
    rw [List.length_append, List.length_singleton]
    exact Nat.lt_succ_of_lt (h.spare_lt i hi)
  sorted := h.sorted
  unused := fun j g hj hg => h.unused j g (effect_append he hj hg) hg

/-- A cause to be used later. -/
theorem push_cause (h : Explained effect cause events f spare) {e : α} (he : ¬effect e) :
    Explained effect cause (events ++ [e]) f (spare ++ [events.length]) := by
  have hq := h.push_quiet he
  refine { hq with spare_lt := ?_, sorted := ?_, unused := ?_ }
  · intro i hi
    rcases List.mem_append.mp hi with hi | hi
    · exact hq.spare_lt i hi
    · rw [List.mem_singleton.mp hi, List.length_append, List.length_singleton]
      omega
  · refine List.pairwise_append.mpr ⟨h.sorted, List.pairwise_singleton _ _, ?_⟩
    intro i hi j hj
    rw [List.mem_singleton.mp hj]
    exact h.spare_lt i hi
  · intro j g hj hg i hi
    rcases List.mem_append.mp hi with hi | hi
    · exact hq.unused j g hj hg i hi
    · have hold := effect_append he hj hg
      have hlt := (List.getElem?_eq_some_iff.mp hold).1
      have hcaused := (h.caused j g hold hg).1
      rw [List.mem_singleton.mp hi]
      omega

/-- An effect of the first spare cause. -/
theorem push_effect {i : Nat} (h : Explained effect cause events f (i :: spare)) {c e : α}
    (hi : events[i]? = some c) (hcause : cause c e) :
    Explained effect cause (events ++ [e]) (Function.update f events.length i) spare := by
  have hlt := (List.getElem?_eq_some_iff.mp hi).1
  have hsorted := List.pairwise_cons.mp h.sorted
  -- A position of the longer history is an old one or the new one.
  have hcases : ∀ {j g}, (events ++ [e])[j]? = some g →
      events[j]? = some g ∧ Function.update f events.length i j = f j ∨
        j = events.length ∧ g = e ∧ Function.update f events.length i j = i := by
    intro j g hj
    rcases Nat.lt_trichotomy j events.length with hj' | rfl | hgt
    · rw [List.getElem?_append_left hj'] at hj
      exact Or.inl ⟨hj, Function.update_of_ne (Nat.ne_of_lt hj') _ _⟩
    · rw [List.getElem?_concat_length] at hj
      exact Or.inr ⟨rfl, (Option.some.inj hj).symm, Function.update_self _ _ _⟩
    · have hlen : (events ++ [e]).length ≤ j := by
        rw [List.length_append, List.length_singleton]
        omega
      rw [List.getElem?_eq_none hlen] at hj
      cases hj
  refine ⟨?_, ?_, ?_, hsorted.2, ?_⟩
  · intro j g hj hg
    rcases hcases hj with ⟨hold, hf⟩ | ⟨rfl, rfl, hf⟩
    · obtain ⟨hlt', c', hc', hcause'⟩ := h.caused j g hold hg
      rw [hf]
      exact ⟨hlt', c', getElem?_append_of_some hc' e, hcause'⟩
    · rw [hf]
      exact ⟨hlt, c, getElem?_append_of_some hi g, hcause⟩
  · intro a b g g' hab ha hg hb hg'
    rcases hcases ha with ⟨holda, hfa⟩ | ⟨rfl, -, -⟩
    · rcases hcases hb with ⟨holdb, hfb⟩ | ⟨rfl, -, hfb⟩
      · rw [hfa, hfb]
        exact h.increasing a b g g' hab holda hg holdb hg'
      · rw [hfa, hfb]
        exact h.unused a g holda hg i List.mem_cons_self
    · rcases hcases hb with ⟨holdb, -⟩ | ⟨rfl, -, -⟩
      · have hltb := (List.getElem?_eq_some_iff.mp holdb).1
        omega
      · omega
  · intro k hk
    rw [List.length_append, List.length_singleton]
    exact Nat.lt_succ_of_lt (h.spare_lt k (List.mem_cons_of_mem i hk))
  · intro j g hj hg k hk
    rcases hcases hj with ⟨hold, hf⟩ | ⟨rfl, -, hf⟩
    · rw [hf]
      exact h.unused j g hold hg k (List.mem_cons_of_mem i hk)
    · rw [hf]
      exact hsorted.1 k hk

end Explained
end TensorSel4
