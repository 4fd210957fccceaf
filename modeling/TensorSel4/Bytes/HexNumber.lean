/-
Numbers as hexadecimal text.

`paddedHex` is Python's `f"{n:08x}"` for a width of eight: lowercase digits, with
zeros in front up to the width and more digits where the number needs them.
`hexNumber` reads digits of either case.
-/
import TensorSel4.Bytes.Hex

namespace TensorSel4
namespace Bytes

def hexFrom : Nat → List Char → Option Nat
  | n, [] => some n
  | n, c :: cs => (hexValue c).bind fun d => hexFrom (16 * n + d) cs

def hexNumber (cs : List Char) : Option Nat := hexFrom 0 cs

def paddedHex (width n : Nat) : List Char := (Nat.toDigits 16 n).leftpad width '0'

theorem hexFrom_append (n : Nat) (cs ds : List Char) :
    hexFrom n (cs ++ ds) = (hexFrom n cs).bind fun m => hexFrom m ds := by
  induction cs generalizing n with
  | nil => rfl
  | cons c cs ih =>
    rw [List.cons_append, hexFrom, hexFrom, Option.bind_assoc]
    exact congrArg _ (funext fun d => ih _)

theorem hexValue_digitChar : ∀ d < 16, hexValue (Nat.digitChar d) = some d := by decide

theorem hexFrom_digit (n : Nat) {d : Nat} (h : d < 16) :
    hexFrom n [Nat.digitChar d] = some (16 * n + d) := by
  rw [hexFrom, hexValue_digitChar d h]
  rfl

theorem hexNumber_toDigits (n : Nat) : hexNumber (Nat.toDigits 16 n) = some n := by
  induction n using Nat.strong_induction_on with
  | _ n ih =>
    by_cases hlt : n < 16
    · rw [Nat.toDigits_of_lt_base hlt, hexNumber, hexFrom_digit 0 hlt]
      simp
    · have hge : 16 ≤ n := Nat.not_lt.mp hlt
      have hdiv := ih (n / 16) (Nat.div_lt_self (by omega) (by omega))
      rw [hexNumber] at hdiv ⊢
      rw [Nat.toDigits_of_base_le (by omega) hge, hexFrom_append, hdiv, Option.bind_some,
        hexFrom_digit _ (Nat.mod_lt n (by omega)), Nat.div_add_mod]

theorem hexFrom_zeros (k : Nat) : hexFrom 0 (List.replicate k '0') = some 0 := by
  induction k with
  | zero => rfl
  | succ k ih =>
    rw [List.replicate_succ, hexFrom]
    exact ih

theorem hexNumber_paddedHex (width n : Nat) : hexNumber (paddedHex width n) = some n := by
  rw [paddedHex, List.leftpad, hexNumber, hexFrom_append, hexFrom_zeros]
  exact hexNumber_toDigits n

theorem paddedHex_length {width n : Nat} (hpos : 0 < width) (h : n < 16 ^ width) :
    (paddedHex width n).length = width := by
  have hle := (Nat.length_toDigits_le_iff (b := 16) (by omega) hpos).mpr h
  rw [paddedHex, List.leftpad, List.length_append, List.length_replicate]
  omega

theorem hexValue_of_hexFrom {n v : Nat} {cs : List Char} (h : hexFrom n cs = some v) :
    ∀ c ∈ cs, ∃ d, hexValue c = some d := by
  induction cs generalizing n with
  | nil => exact fun c hc => absurd hc List.not_mem_nil
  | cons c cs ih =>
    obtain ⟨d, hd, hrest⟩ := Option.bind_eq_some_iff.mp h
    intro c' hc'
    rcases List.mem_cons.mp hc' with rfl | hmem
    · exact ⟨d, hd⟩
    · exact ih hrest c' hmem

theorem hexValue_ascii {c : Char} {d : Nat} (h : hexValue c = some d) : c.toNat < 128 := by
  unfold hexValue at h
  split at h
  · next hc => exact Nat.lt_of_le_of_lt (show c.toNat ≤ 57 from hc.2) (by omega)
  split at h
  · next hc => exact Nat.lt_of_le_of_lt (show c.toNat ≤ 102 from hc.2) (by omega)
  split at h
  · next hc => exact Nat.lt_of_le_of_lt (show c.toNat ≤ 70 from hc.2) (by omega)
  · cases h

/-! ## The bits of the digits -/

/-- Bit `col` of hexadecimal digits, from the front. -/
def hexBit (cs : List Char) (col : Nat) : Bool :=
  match (cs[col / 4]?).bind hexValue with
  | some d => d.testBit (3 - col % 4)
  | none => false

theorem hexValue_lt {c : Char} {d : Nat} (h : hexValue c = some d) : d < 16 := by
  unfold hexValue at h
  split at h
  · next hc =>
    have hlast : c.toNat ≤ 57 := hc.2
    cases h
    omega
  split at h
  · next hc =>
    have hlast : c.toNat ≤ 102 := hc.2
    cases h
    omega
  split at h
  · next hc =>
    have hlast : c.toNat ≤ 70 := hc.2
    cases h
    omega
  · cases h

theorem hexBit_cons_front {c : Char} {d : Nat} (h : hexValue c = some d) (cs : List Char)
    {col : Nat} (hcol : col < 4) : hexBit (c :: cs) col = d.testBit (3 - col) := by
  rw [hexBit, Nat.div_eq_of_lt hcol, Nat.mod_eq_of_lt hcol]
  simp [h]

theorem hexBit_cons_behind (c : Char) (cs : List Char) {col : Nat} (hcol : 4 ≤ col) :
    hexBit (c :: cs) col = hexBit cs (col - 4) := by
  have hdiv : col / 4 = (col - 4) / 4 + 1 := by omega
  have hmod : col % 4 = (col - 4) % 4 := by omega
  rw [hexBit, hexBit, hdiv, hmod, List.getElem?_cons_succ]

/-- A digit behind the others moves their bits up by four. -/
theorem testBit_digit (n : Nat) {d : Nat} (h : d < 16) (i : Nat) :
    (16 * n + d).testBit i = if i < 4 then d.testBit i else n.testBit (i - 4) :=
  Nat.testBit_two_pow_mul_add n (show d < 2 ^ 4 from h) i

theorem testBit_hexFrom {n v : Nat} {cs : List Char} (h : hexFrom n cs = some v) (i : Nat) :
    v.testBit i = if i < 4 * cs.length then hexBit cs (4 * cs.length - 1 - i)
      else n.testBit (i - 4 * cs.length) := by
  induction cs generalizing n with
  | nil =>
    cases h
    simp
  | cons c cs ih =>
    obtain ⟨d, hd, hrest⟩ := Option.bind_eq_some_iff.mp h
    have hlength : 4 * (c :: cs).length = 4 * cs.length + 4 := by
      rw [List.length_cons]
      omega
    rw [ih hrest, hlength, testBit_digit n (hexValue_lt hd)]
    by_cases hlow : i < 4 * cs.length
    · rw [if_pos hlow, if_pos (by omega), hexBit_cons_behind c cs (by omega)]
      congr 1
      omega
    · rw [if_neg hlow]
      by_cases hdigit : i - 4 * cs.length < 4
      · rw [if_pos hdigit, if_pos (by omega), hexBit_cons_front hd cs (by omega)]
        congr 1
        omega
      · rw [if_neg hdigit, if_neg (by omega)]
        congr 1

/-- The first digit has the highest bits. -/
theorem testBit_hexNumber {v : Nat} {cs : List Char} (h : hexNumber cs = some v) {col : Nat}
    (hcol : col < 4 * cs.length) : v.testBit (4 * cs.length - 1 - col) = hexBit cs col := by
  rw [testBit_hexFrom h, if_pos (by omega)]
  congr 1
  omega

end Bytes
end TensorSel4
