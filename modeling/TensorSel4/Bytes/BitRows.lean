/-
Pictures kept as a list of numbers, a row each and a bit for each dot.
-/
import Mathlib.Data.Nat.Bitwise

namespace TensorSel4
namespace Bytes

def bitAt (rows : List Nat) (row bit : Nat) : Bool := (rows.getD row 0).testBit bit

/-- `rows[row] |= 1 << bit`. -/
def setBit (rows : List Nat) (row bit : Nat) : List Nat := rows.modify row fun r => r ||| 1 <<< bit

theorem setBit_length (rows : List Nat) (row bit : Nat) :
    (setBit rows row bit).length = rows.length := List.length_modify ..

theorem bitAt_zeros (n row bit : Nat) : bitAt (List.replicate n 0) row bit = false := by
  have hzero : (List.replicate n 0).getD row 0 = 0 := by
    rw [List.getD_eq_getElem?_getD, List.getElem?_replicate]
    split <;> rfl
  rw [bitAt, hzero, Nat.zero_testBit]

theorem bitAt_setBit {rows : List Nat} {row : Nat} (h : row < rows.length) (bit r b : Nat) :
    bitAt (setBit rows row bit) r b = true ↔ bitAt rows r b = true ∨ (r = row ∧ b = bit) := by
  rw [bitAt, bitAt, setBit, List.getD_eq_getElem?_getD, List.getD_eq_getElem?_getD,
    List.getElem?_modify]
  by_cases hrow : row = r
  · subst hrow
    have hbit : (1 <<< bit).testBit b = decide (b = bit) := by
      rw [Nat.one_shiftLeft, Nat.testBit_two_pow]
      exact decide_eq_decide.mpr eq_comm
    rw [List.getElem?_eq_getElem h]
    simp [hbit]
  · have hne : ¬ r = row := fun heq => hrow heq.symm
    simp [hrow, hne]

/-- A loop sets the dots that its rounds set. -/
theorem bitAt_foldl {ι : Type} {step : List Nat → ι → List Nat} {sets : ι → Nat → Nat → Prop}
    {is : List ι} {n : Nat}
    (hstep : ∀ i ∈ is, ∀ rows, rows.length = n → (step rows i).length = n ∧
      ∀ r b, bitAt (step rows i) r b = true ↔ bitAt rows r b = true ∨ sets i r b)
    {rows : List Nat} (hrows : rows.length = n) : (is.foldl step rows).length = n ∧
      ∀ r b, bitAt (is.foldl step rows) r b = true ↔
        bitAt rows r b = true ∨ ∃ i ∈ is, sets i r b := by
  induction is generalizing rows with
  | nil => simp [hrows]
  | cons i is ih =>
    obtain ⟨hlength, hbits⟩ := hstep i List.mem_cons_self rows hrows
    obtain ⟨hlength', hbits'⟩ := ih (fun j hj => hstep j (List.mem_cons_of_mem i hj)) hlength
    refine ⟨hlength', fun r b => ?_⟩
    simp [hbits' r b, hbits r b, or_assoc]

end Bytes
end TensorSel4
