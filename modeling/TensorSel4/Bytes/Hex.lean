/-
Bytes as hexadecimal text.

`toHex` writes two lowercase digits a byte.  `fromHex` is Python's
`bytes.fromhex`: it takes digits of either case in pairs, skips ASCII white
space between the pairs, and on anything else gives the position of the
character it stopped at.
-/
import Mathlib.Data.UInt

namespace TensorSel4
namespace Bytes

def hexDigits : List Char :=
  ['0', '1', '2', '3', '4', '5', '6', '7', '8', '9', 'a', 'b', 'c', 'd', 'e', 'f']

def hexDigit (n : Nat) : Char := hexDigits.getD n '0'

def byteHex (b : UInt8) : List Char := [hexDigit (b.toNat / 16), hexDigit (b.toNat % 16)]

def toHex (bs : List UInt8) : List Char := bs.flatMap byteHex

/-- `[0-9a-f]`. -/
def isLowerHex (c : Char) : Bool := ('0' ≤ c && c ≤ '9') || ('a' ≤ c && c ≤ 'f')

def hexValue (c : Char) : Option Nat :=
  if '0' ≤ c ∧ c ≤ '9' then some (c.toNat - 48)
  else if 'a' ≤ c ∧ c ≤ 'f' then some (c.toNat - 87)
  else if 'A' ≤ c ∧ c ≤ 'F' then some (c.toNat - 55)
  else none

def isSpace (c : Char) : Bool := c = ' ' || ('\t' ≤ c && c ≤ '\x0d')

/-- `fromhex` from position `pos` of its argument on. -/
def fromHexAt : Nat → List Char → Except Nat (List UInt8)
  | _, [] => .ok []
  | pos, [c] => if isSpace c then .ok [] else
      match hexValue c with
      | none => .error pos
      | some _ => .error (pos + 1)
  | pos, c :: d :: cs => if isSpace c then fromHexAt (pos + 1) (d :: cs) else
      match hexValue c, hexValue d with
      | none, _ => .error pos
      | some _, none => .error (pos + 1)
      | some top, some bot =>
        match fromHexAt (pos + 2) cs with
        | .ok bs => .ok (UInt8.ofNat (16 * top + bot) :: bs)
        | .error e => .error e

def fromHex (cs : List Char) : Except Nat (List UInt8) := fromHexAt 0 cs

/-! ## Reading back what was written -/

theorem hexDigit_spec : ∀ n < 16,
    hexValue (hexDigit n) = some n ∧ isLowerHex (hexDigit n) ∧ ¬isSpace (hexDigit n) := by
  decide

theorem hexValue_hexDigit {n : Nat} (h : n < 16) : hexValue (hexDigit n) = some n :=
  (hexDigit_spec n h).1

theorem isSpace_hexDigit {n : Nat} (h : n < 16) : isSpace (hexDigit n) = false :=
  Bool.eq_false_iff.mpr (hexDigit_spec n h).2.2

theorem high_lt (b : UInt8) : b.toNat / 16 < 16 := by
  have h := b.toNat_lt
  omega

theorem low_lt (b : UInt8) : b.toNat % 16 < 16 := Nat.mod_lt _ (by decide)

theorem toHex_cons (b : UInt8) (bs : List UInt8) :
    toHex (b :: bs) = hexDigit (b.toNat / 16) :: hexDigit (b.toNat % 16) :: toHex bs := rfl

theorem fromHexAt_toHex (pos : Nat) (bs : List UInt8) : fromHexAt pos (toHex bs) = .ok bs := by
  induction bs generalizing pos with
  | nil => rfl
  | cons b bs ih =>
    have hbyte : UInt8.ofNat (16 * (b.toNat / 16) + b.toNat % 16) = b := by
      rw [Nat.div_add_mod, UInt8.ofNat_toNat]
    rw [toHex_cons, fromHexAt, isSpace_hexDigit (high_lt b), if_neg Bool.false_ne_true,
      hexValue_hexDigit (high_lt b), hexValue_hexDigit (low_lt b), ih]
    exact congrArg (fun x => Except.ok (x :: bs)) hbyte

theorem fromHex_toHex (bs : List UInt8) : fromHex (toHex bs) = .ok bs := fromHexAt_toHex 0 bs

theorem toHex_lowerHex (bs : List UInt8) : ∀ c ∈ toHex bs, isLowerHex c := by
  intro c hc
  obtain ⟨b, -, hcb⟩ := List.mem_flatMap.mp hc
  rcases List.mem_pair.mp hcb with rfl | rfl
  · exact (hexDigit_spec _ (high_lt b)).2.1
  · exact (hexDigit_spec _ (low_lt b)).2.1

theorem not_mem_toHex {c : Char} (hc : isLowerHex c = false) (bs : List UInt8) : c ∉ toHex bs := by
  intro h
  rw [toHex_lowerHex bs c h] at hc
  cases hc

@[simp] theorem toHex_length (bs : List UInt8) : (toHex bs).length = 2 * bs.length := by
  induction bs with
  | nil => rfl
  | cons b bs ih =>
    rw [toHex_cons, List.length_cons, List.length_cons, ih, List.length_cons]
    omega

/-! ## Digits without white space -/

theorem isSpace_lowerHex {c : Char} (h : isLowerHex c) : isSpace c = false := by
  have hlow : '0' ≤ c := by
    rcases Bool.or_eq_true_iff.mp h with h | h
    · exact of_decide_eq_true (Bool.and_eq_true_iff.mp h).1
    · have ha : 'a' ≤ c := of_decide_eq_true (Bool.and_eq_true_iff.mp h).1
      exact Char.le_trans (by decide) ha
  have hspace : c ≠ ' ' := by
    rintro rfl
    exact absurd h (by decide)
  have hreturn : ¬c ≤ '\x0d' := by
    intro hle
    exact absurd (Char.le_trans hlow hle) (by decide)
  simp [isSpace, hspace, hreturn]

theorem hexDigit_of_hexValue {c : Char} {n : Nat} (hc : isLowerHex c) (h : hexValue c = some n) :
    n < 16 ∧ hexDigit n = c := by
  have hdecimal : ∀ m < 10, hexDigit m = Char.ofNat (48 + m) := by decide
  have hletter : ∀ m < 6, hexDigit (10 + m) = Char.ofNat (97 + m) := by decide
  have hle (a b : Char) : a ≤ b ↔ a.toNat ≤ b.toNat := Iff.rfl
  have h0 : '0'.toNat = 48 := rfl
  have h9 : '9'.toNat = 57 := rfl
  have ha : 'a'.toNat = 97 := rfl
  have hf : 'f'.toNat = 102 := rfl
  simp only [isLowerHex, Bool.or_eq_true, Bool.and_eq_true, decide_eq_true_eq, hle, h0, h9, ha,
    hf] at hc
  simp only [hexValue, hle, h0, h9, ha, hf] at h
  by_cases hnum : 48 ≤ c.toNat ∧ c.toNat ≤ 57
  · rw [if_pos hnum] at h
    cases h
    refine ⟨by omega, ?_⟩
    rw [hdecimal _ (by omega), Nat.add_sub_cancel' hnum.1, Char.ofNat_toNat]
  · have hlow : 97 ≤ c.toNat ∧ c.toNat ≤ 102 := hc.resolve_left hnum
    rw [if_neg hnum, if_pos hlow] at h
    cases h
    refine ⟨by omega, ?_⟩
    rw [show c.toNat - 87 = 10 + (c.toNat - 97) by omega, hletter _ (by omega),
      Nat.add_sub_cancel' hlow.1, Char.ofNat_toNat]

/-- Lowercase digits are the ones that their bytes are written with. -/
theorem toHex_of_fromHexAt {pos : Nat} {cs : List Char} {bs : List UInt8}
    (hhex : ∀ c ∈ cs, isLowerHex c) (h : fromHexAt pos cs = .ok bs) : toHex bs = cs := by
  induction pos, cs using fromHexAt.induct generalizing bs with
  | case1 pos =>
    cases h
    rfl
  | case2 pos c hspace | case5 pos c d cs hspace ih =>
    rw [isSpace_lowerHex (hhex c List.mem_cons_self)] at hspace
    cases hspace
  | case3 pos c hspace hnone =>
    rw [fromHexAt, if_neg hspace, hnone] at h
    cases h
  | case4 pos c hspace n hsome =>
    rw [fromHexAt, if_neg hspace, hsome] at h
    cases h
  | case6 pos c d cs hspace hc =>
    rw [fromHexAt, if_neg hspace, hc] at h
    cases h
  | case7 pos c d cs hspace top hd hc =>
    rw [fromHexAt, if_neg hspace, hc, hd] at h
    cases h
  | case8 pos c d cs hspace top bot hd hc bs' hrest ih =>
    rw [fromHexAt, if_neg hspace, hc, hd, hrest] at h
    cases h
    obtain ⟨htop, hctop⟩ := hexDigit_of_hexValue (hhex c List.mem_cons_self) hc
    obtain ⟨hbot, hdbot⟩ := hexDigit_of_hexValue (hhex d (List.mem_cons_of_mem _ List.mem_cons_self)) hd
    have hbyte : (UInt8.ofNat (16 * top + bot)).toNat = 16 * top + bot := by
      rw [UInt8.toNat_ofNat']
      omega
    have hdiv : (16 * top + bot) / 16 = top := by omega
    have hmod : (16 * top + bot) % 16 = bot := by omega
    rw [toHex_cons, hbyte, hdiv, hmod, hctop, hdbot,
      ih (fun x hx => hhex x (List.mem_cons_of_mem _ (List.mem_cons_of_mem _ hx))) hrest]
  | case9 pos c d cs hspace top bot hd hc e hrest ih =>
    rw [fromHexAt, if_neg hspace, hc, hd, hrest] at h
    cases h

/-- Two digits a byte. -/
theorem fromHexAt_length {pos : Nat} {cs : List Char} {bs : List UInt8}
    (hhex : ∀ c ∈ cs, isLowerHex c) (h : fromHexAt pos cs = .ok bs) :
    cs.length = 2 * bs.length := by
  rw [← toHex_of_fromHexAt hhex h, toHex_length]

end Bytes
end TensorSel4
