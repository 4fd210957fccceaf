/-
Automata that keep a history.

The history grows with every step and no step reads it, so the runs are the runs
without it.
-/
import TensorSel4.Automaton.Run

namespace TensorSel4
namespace Automaton

variable {σ ε η : Type*} (A : Automaton σ ε) (record : σ → ε → η → η)

/-- `record` writes down what a step does, from the state before it. -/
def recorded (start : η) : Automaton (σ × η) ε where
  start := (A.start, start)
  step s e := (A.step s.1 e).map fun t => (t, record s.1 e s.2)

variable {A} {record} {start : η}

theorem recorded_step {s t : σ × η} {e : ε} :
    (A.recorded record start).step s e = some t ↔
      A.step s.1 e = some t.1 ∧ t.2 = record s.1 e s.2 := by
  show (A.step s.1 e).map (fun u => (u, record s.1 e s.2)) = some t ↔ _
  rw [Option.map_eq_some_iff]
  constructor
  · rintro ⟨u, hu, rfl⟩
    exact ⟨hu, rfl⟩
  · rintro ⟨hu, hrecord⟩
    exact ⟨t.1, hu, Prod.ext rfl hrecord.symm⟩

/-- Every state is reached with some history. -/
theorem Reachable.recorded {s : σ} (h : A.Reachable s) :
    ∃ history, (A.recorded record start).Reachable (s, history) := by
  refine reachable_induction
    (I := fun s => ∃ history, (A.recorded record start).Reachable (s, history)) ?_ ?_ h
  · exact ⟨start, [], (A.recorded record start).reaches_nil.mpr rfl⟩
  · rintro s e t ⟨history, hs⟩ ht
    exact ⟨record s e history, hs.step (recorded_step.mpr ⟨ht, rfl⟩)⟩

end Automaton
end TensorSel4
