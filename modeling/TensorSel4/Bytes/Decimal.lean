/-
The decimal digits of a 64-bit word, as the consoles print them.

`console_putdec`, `put_decimal` and `mirror_report_dropped` fill a buffer of 21
bytes from its end, so `room` is the twenty places before the terminator.
-/
import Mathlib.Data.UInt

namespace TensorSel4
namespace Bytes

/-- The loop, with the digits already stored. -/
def decimalFrom : Nat → UInt64 → List UInt8 → List UInt8
  | 0, _, digits => digits
  | room + 1, val, digits =>
    let digits := (0x30 + (val % 10).toUInt8) :: digits
    if val / 10 = 0 then digits else decimalFrom room (val / 10) digits

def decimal (val : UInt64) : List UInt8 := decimalFrom 20 val []

theorem decimalFrom_length (room : Nat) (val : UInt64) (digits : List UInt8) :
    (decimalFrom room val digits).length ≤ room + digits.length := by
  induction room generalizing val digits with
  | zero => rw [decimalFrom, Nat.zero_add]
  | succ room ih =>
    unfold decimalFrom
    dsimp only
    split
    · rw [List.length_cons]
      omega
    · have h := ih (val / 10) ((0x30 + (val % 10).toUInt8) :: digits)
      rw [List.length_cons] at h
      omega

theorem decimal_length (val : UInt64) : (decimal val).length ≤ 20 := decimalFrom_length 20 val []

theorem digit_eq {n : Nat} (h : n < 10) :
    0x30 + UInt8.ofNat n = UInt8.ofNat (Nat.digitChar n).toNat := by
  have hall : ∀ i : Fin 10, 0x30 + UInt8.ofNat i.val = UInt8.ofNat (Nat.digitChar i.val).toNat := by
    decide
  exact hall ⟨n, h⟩

theorem digit_of_word (val : UInt64) : 0x30 + (val % 10).toUInt8 =
    UInt8.ofNat (Nat.digitChar (val.toNat % 10)).toNat := by
  have hmod : (val % 10).toNat = val.toNat % 10 := rfl
  rw [← digit_eq (Nat.mod_lt val.toNat (by omega)), ← hmod]
  rfl

/-- With enough room the loop stores the decimal digits. -/
theorem decimalFrom_eq {room : Nat} {val : UInt64} (digits : List UInt8)
    (h : val.toNat < 10 ^ (room + 1)) :
    decimalFrom (room + 1) val digits =
      (Nat.toDigits 10 val.toNat).map (fun c => UInt8.ofNat c.toNat) ++ digits := by
  have hdiv : (val / 10).toNat = val.toNat / 10 := UInt64.toNat_div val 10
  induction room generalizing val digits with
  | zero =>
    have hlt : val.toNat < 10 := h
    have hlast : val / 10 = 0 := UInt64.toNat_inj.mp (hdiv.trans (Nat.div_eq_of_lt hlt))
    unfold decimalFrom
    dsimp only
    rw [if_pos hlast, digit_of_word, Nat.mod_eq_of_lt hlt, Nat.toDigits_of_lt_base hlt]
    rfl
  | succ room ih =>
    unfold decimalFrom
    dsimp only
    rw [digit_of_word]
    by_cases hlt : val.toNat < 10
    · have hlast : val / 10 = 0 := UInt64.toNat_inj.mp (hdiv.trans (Nat.div_eq_of_lt hlt))
      rw [if_pos hlast, Nat.mod_eq_of_lt hlt, Nat.toDigits_of_lt_base hlt]
      rfl
    · have hge : 10 ≤ val.toNat := Nat.not_lt.mp hlt
      have hmore : val / 10 ≠ 0 := by
        intro hzero
        rw [hzero] at hdiv
        have hpos := Nat.div_pos hge (by omega)
        rw [← hdiv] at hpos
        exact absurd hpos (Nat.lt_irrefl 0)
      have hrest : (val / 10).toNat < 10 ^ (room + 1) := by
        rw [hdiv]
        rw [Nat.pow_succ] at h
        exact Nat.div_lt_of_lt_mul (Nat.mul_comm _ 10 ▸ h)
      rw [if_neg hmore, ih _ hrest (UInt64.toNat_div _ 10), hdiv,
        Nat.toDigits_of_base_le (by omega) hge, List.map_append, List.append_assoc]
      rfl

theorem decimal_eq (val : UInt64) :
    decimal val = (Nat.toDigits 10 val.toNat).map fun c => UInt8.ofNat c.toNat := by
  have hlt := val.toNat_lt
  rw [decimal, decimalFrom_eq [] (by omega), List.append_nil]

end Bytes
end TensorSel4
