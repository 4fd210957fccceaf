/-
Runs of labelled automata.

An automaton has one initial state and a partial step function: `step s e` is
the state after the label `e`, or `none` where `e` cannot happen in `s`.  All
nondeterminism is in the labels, so a run is determined by its label list and
can be evaluated.

The two induction rules at the end are the ones the invariants use.  The
guarded rule carries an invariant through runs whose final state satisfies a
bound that earlier states inherit, such as a limit on the number of events.
-/
import Mathlib.Data.List.Induction

namespace TensorSel4

structure Automaton (σ : Type*) (ε : Type*) where
  start : σ
  step : σ → ε → Option σ

namespace Automaton

variable {σ ε : Type*} (A : Automaton σ ε)

/-- The state after a list of labels, when every one of them can happen. -/
def run (s : σ) : List ε → Option σ
  | [] => some s
  | e :: es => (A.step s e).bind fun t => run t es

def Reaches (s : σ) (es : List ε) (t : σ) : Prop := A.run s es = some t

def Reachable (t : σ) : Prop := ∃ es, A.Reaches A.start es t

theorem run_append (s : σ) (es fs : List ε) :
    A.run s (es ++ fs) = (A.run s es).bind fun t => A.run t fs := by
  induction es generalizing s with
  | nil => rfl
  | cons e es ih =>
    simp only [List.cons_append, run]
    cases A.step s e with
    | none => rfl
    | some t => exact ih t

theorem reaches_nil {s t : σ} : A.Reaches s [] t ↔ s = t := by
  simp [Reaches, run]

theorem reaches_cons {s t : σ} {e : ε} {es : List ε} :
    A.Reaches s (e :: es) t ↔ ∃ m, A.step s e = some m ∧ A.Reaches m es t := by
  simp [Reaches, run, Option.bind_eq_some_iff]

theorem reaches_append {s t : σ} {es fs : List ε} :
    A.Reaches s (es ++ fs) t ↔ ∃ m, A.Reaches s es m ∧ A.Reaches m fs t := by
  simp [Reaches, run_append, Option.bind_eq_some_iff]

theorem reaches_snoc {s t : σ} {e : ε} {es : List ε} :
    A.Reaches s (es ++ [e]) t ↔ ∃ m, A.Reaches s es m ∧ A.step m e = some t := by
  rw [reaches_append]
  simp [reaches_cons, reaches_nil]

theorem Reachable.step {A : Automaton σ ε} {s t : σ} {e : ε} (h : A.Reachable s)
    (hs : A.step s e = some t) : A.Reachable t := by
  obtain ⟨es, hes⟩ := h
  exact ⟨es ++ [e], (A.reaches_snoc).mpr ⟨s, hes, hs⟩⟩

theorem Reachable.reaches {A : Automaton σ ε} {s t : σ} {es : List ε} (h : A.Reachable s)
    (hs : A.Reaches s es t) : A.Reachable t := by
  obtain ⟨fs, hfs⟩ := h
  exact ⟨fs ++ es, (A.reaches_append).mpr ⟨s, hfs, hs⟩⟩

/-- What every step preserves, every run preserves. -/
theorem reaches_induction {A : Automaton σ ε} {I : σ → Prop}
    (hstep : ∀ s e t, I s → A.step s e = some t → I t)
    {s t : σ} {es : List ε} (hs : I s) (hr : A.Reaches s es t) : I t := by
  induction es generalizing s with
  | nil =>
    rw [reaches_nil] at hr
    exact hr ▸ hs
  | cons e es ih =>
    obtain ⟨m, hm, hr⟩ := (A.reaches_cons).mp hr
    exact ih (hstep s e m hs hm) hr

/-- A run of `A` by one label is a run of `B` by another one, from the states that
`f` makes of its states, when that is so of each step. -/
theorem reaches_replicate_map {τ δ : Type*} {A : Automaton σ ε} {B : Automaton τ δ} {I : σ → Prop}
    {f : σ → τ} {e : ε} {d : δ}
    (hstep : ∀ s t, I s → A.step s e = some t → I t ∧ B.step (f s) d = some (f t))
    {n : Nat} {s t : σ} (hs : I s) (hr : A.Reaches s (List.replicate n e) t) :
    B.Reaches (f s) (List.replicate n d) (f t) := by
  induction n generalizing s with
  | zero =>
    have heq : s = t := (A.reaches_nil).mp hr
    exact (B.reaches_nil).mpr (congrArg f heq)
  | succ n ih =>
    rw [List.replicate_succ, reaches_cons] at hr ⊢
    obtain ⟨m, hm, hr⟩ := hr
    obtain ⟨hI, hB⟩ := hstep s m hs hm
    exact ⟨f m, hB, ih hI hr⟩

/-- An invariant that needs a guard `G` on the state after each step, where a
state inherits the guard from its successor. -/
theorem reachable_induction_guarded {A : Automaton σ ε} {G I : σ → Prop}
    (hback : ∀ s e t, A.step s e = some t → G t → G s)
    (hstart : I A.start)
    (hstep : ∀ s e t, I s → G t → A.step s e = some t → I t)
    {t : σ} (ht : A.Reachable t) (hG : G t) : I t := by
  obtain ⟨es, hes⟩ := ht
  induction es using List.reverseRecOn generalizing t with
  | nil =>
    rw [reaches_nil] at hes
    exact hes ▸ hstart
  | append_singleton es e ih =>
    obtain ⟨s, hs, he⟩ := (A.reaches_snoc).mp hes
    exact hstep s e t (ih (hback s e t he hG) hs) hG he

/-- The unguarded case of `reachable_induction_guarded`. -/
theorem reachable_induction {A : Automaton σ ε} {I : σ → Prop} (hstart : I A.start)
    (hstep : ∀ s e t, I s → A.step s e = some t → I t) {t : σ} (ht : A.Reachable t) : I t :=
  let ⟨_, hes⟩ := ht
  reaches_induction hstep hstart hes

/-! ## Runs that avoid some steps -/

/-- A run none of whose steps satisfies `P`, which is asked of the state before
the step and its label. -/
def ReachesAvoiding (P : σ → ε → Prop) (s : σ) : List ε → σ → Prop
  | [], t => s = t
  | e :: es, t => ¬P s e ∧ ∃ m, A.step s e = some m ∧ ReachesAvoiding P m es t

theorem ReachesAvoiding.nil {A : Automaton σ ε} {P : σ → ε → Prop} {s : σ} :
    A.ReachesAvoiding P s [] s := rfl

theorem ReachesAvoiding.reaches {A : Automaton σ ε} {P : σ → ε → Prop} {s t : σ} {es : List ε}
    (h : A.ReachesAvoiding P s es t) : A.Reaches s es t := by
  induction es generalizing s with
  | nil => exact (A.reaches_nil).mpr h
  | cons e es ih =>
    obtain ⟨-, m, hm, hr⟩ := h
    exact (A.reaches_cons).mpr ⟨m, hm, ih hr⟩

theorem ReachesAvoiding.of_reaches {A : Automaton σ ε} {P : σ → ε → Prop} {s t : σ}
    {es : List ε} (hr : A.Reaches s es t) (h : ∀ e ∈ es, ∀ m, ¬P m e) :
    A.ReachesAvoiding P s es t := by
  induction es generalizing s with
  | nil => exact (A.reaches_nil).mp hr
  | cons e es ih =>
    obtain ⟨m, hm, hrest⟩ := (A.reaches_cons).mp hr
    exact ⟨h e List.mem_cons_self s, m, hm,
      ih hrest fun e' he' => h e' (List.mem_cons_of_mem _ he')⟩

theorem exists_step_of_not_avoiding {A : Automaton σ ε} {P : σ → ε → Prop} {s t : σ}
    {es : List ε} (hr : A.Reaches s es t) (h : ¬A.ReachesAvoiding P s es t) :
    ∃ fs m e n gs, A.Reaches s fs m ∧ P m e ∧ A.step m e = some n ∧ A.Reaches n gs t := by
  induction es generalizing s with
  | nil => exact absurd ((A.reaches_nil).mp hr) h
  | cons e es ih =>
    obtain ⟨m, hm, hrest⟩ := (A.reaches_cons).mp hr
    by_cases hP : P s e
    · exact ⟨[], s, e, m, es, (A.reaches_nil).mpr rfl, hP, hm, hrest⟩
    · obtain ⟨fs, m', e', n, gs, hfs, hrun⟩ := ih hrest fun hm' => h ⟨hP, m, hm, hm'⟩
      exact ⟨e :: fs, m', e', n, gs, (A.reaches_cons).mpr ⟨m, hm, hfs⟩, hrun⟩

/-- What every step outside `P` preserves, a run avoiding `P` preserves.  The
states of the run are reachable, so the preservation may use any invariant. -/
theorem reachesAvoiding_induction {A : Automaton σ ε} {P : σ → ε → Prop} {I : σ → Prop}
    (hstep : ∀ s e t, A.Reachable s → ¬P s e → I s → A.step s e = some t → I t)
    {s t : σ} {es : List ε} (hreach : A.Reachable s) (hs : I s)
    (hr : A.ReachesAvoiding P s es t) : I t := by
  induction es generalizing s with
  | nil => exact hr ▸ hs
  | cons e es ih =>
    obtain ⟨hP, m, hm, hr⟩ := hr
    exact ih (hreach.step hm) (hstep s e m hreach hP hs hm) hr

/-- Where `P` tells exactly which steps break `I`, the runs that avoid `P` are
exactly those in which `I` never breaks. -/
theorem reachesAvoiding_iff {A : Automaton σ ε} {P : σ → ε → Prop} {I : σ → Prop}
    (hstep : ∀ s e t, I s → A.step s e = some t → (I t ↔ ¬P s e))
    {s t : σ} {es : List ε} (hs : I s) (hr : A.Reaches s es t) :
    A.ReachesAvoiding P s es t ↔ ∀ fs m, fs <+: es → A.Reaches s fs m → I m := by
  induction es generalizing s with
  | nil =>
    refine ⟨fun _ fs m hfs hm => ?_, fun _ => (A.reaches_nil).mp hr⟩
    rw [List.prefix_nil.mp hfs, reaches_nil] at hm
    exact hm ▸ hs
  | cons e es ih =>
    obtain ⟨m, hm, hrest⟩ := (A.reaches_cons).mp hr
    constructor
    · rintro ⟨hP, m', hm', havoid⟩ fs u hfs hu
      obtain rfl := Option.some.inj (hm.symm.trans hm')
      cases fs with
      | nil =>
        rw [reaches_nil] at hu
        exact hu ▸ hs
      | cons f fs =>
        obtain ⟨rfl, htail⟩ := List.cons_prefix_cons.mp hfs
        obtain ⟨m', hm', hu⟩ := (A.reaches_cons).mp hu
        obtain rfl := Option.some.inj (hm.symm.trans hm')
        have hI : I m := (hstep s f m hs hm).mpr hP
        exact (ih hI hrest).mp havoid fs u htail hu
    · intro hall
      have hI : I m := hall [e] m (List.cons_prefix_cons.mpr ⟨rfl, List.nil_prefix⟩)
        ((A.reaches_cons).mpr ⟨m, hm, (A.reaches_nil).mpr rfl⟩)
      refine ⟨(hstep s e m hs hm).mp hI, m, hm, (ih hI hrest).mpr fun fs u hfs hu => ?_⟩
      exact hall (e :: fs) u (List.cons_prefix_cons.mpr ⟨rfl, hfs⟩)
        ((A.reaches_cons).mpr ⟨m, hm, hu⟩)

end Automaton
end TensorSel4
