/-
Translation tables with 4 KiB granules, walked in memory.

Memory is a function from byte addresses to 64-bit words.  A walk starts with
`below` levels under its table and goes down one table a level; `below = 0` is the
last level, whose entries are pages.  A descriptor is read a field at a time by
masking: `or_and_of_disjoint` takes a field out of a page address or-ed with
attributes without looking at single bits.
-/
import Mathlib.Data.UInt
import Mathlib.Logic.Function.Basic

namespace TensorSel4
namespace Translation

abbrev Words := Nat → UInt64

/-! ## Descriptors -/

def addressMask : UInt64 := 0x0000fffffffff000
def validBit : UInt64 := 0x1
def tableBit : UInt64 := 0x2
def attrMask : UInt64 := 0x1c
def readOnlyBit : UInt64 := 0x80
def shareMask : UInt64 := 0x300
def accessFlag : UInt64 := 0x400
def dirtyModifier : UInt64 := 0x0008000000000000
def executeNever : UInt64 := 0x0060000000000000

/-- An address that a descriptor can hold. -/
def IsPage (p : Nat) : Prop := p % 4096 = 0 ∧ p < 2 ^ 48

theorem testBit_addressMask (i : Nat) :
    addressMask.toNat.testBit i = (decide (12 ≤ i) && decide (i < 48)) := by
  have hmask : addressMask.toNat = (2 ^ 36 - 1) <<< 12 := by decide
  rw [hmask, Nat.testBit_shiftLeft, Nat.testBit_two_pow_sub_one]
  by_cases hi : 12 ≤ i
  · have hlt : decide (i - 12 < 36) = decide (i < 48) := by
      apply decide_eq_decide.mpr
      omega
    rw [hlt]
  · simp [hi]

theorem or_and_field (a b f : UInt64) : (a ||| b) &&& f = (a &&& f) ||| (b &&& f) := by
  apply UInt64.toNat_inj.mp
  rw [UInt64.toNat_and, UInt64.toNat_or, UInt64.toNat_or, UInt64.toNat_and, UInt64.toNat_and,
    Nat.and_or_distrib_right]

theorem IsPage.toNat_ofNat {p : Nat} (h : IsPage p) : (UInt64.ofNat p).toNat = p := by
  have hlt : p < 2 ^ 64 := by
    have := h.2
    omega
  exact UInt64.toNat_ofNat_of_lt' hlt

theorem IsPage.and_addressMask {p : Nat} (h : IsPage p) :
    UInt64.ofNat p &&& addressMask = UInt64.ofNat p := by
  have hlt := h.2
  apply UInt64.toNat_inj.mp
  rw [UInt64.toNat_and, h.toNat_ofNat]
  apply Nat.eq_of_testBit_eq
  intro i
  rw [Nat.testBit_and, testBit_addressMask]
  by_cases hlow : i < 12
  · have hbit : p.testBit i = false := by
      have hmod : (p % 2 ^ 12).testBit i = p.testBit i := by
        rw [Nat.testBit_mod_two_pow, decide_eq_true hlow, Bool.true_and]
      rw [← hmod, show p % 2 ^ 12 = 0 from h.1, Nat.zero_testBit]
    rw [hbit, Bool.false_and]
  · by_cases hhigh : i < 48
    · rw [decide_eq_true (by omega : 12 ≤ i), decide_eq_true hhigh, Bool.and_true, Bool.and_true]
    · have hbit : p.testBit i = false := by
        apply Nat.testBit_lt_two_pow
        have hpow : 2 ^ 48 ≤ 2 ^ i := Nat.pow_le_pow_right (by omega) (by omega)
        omega
      rw [hbit, Bool.false_and]

/-- The attributes leave the address alone. -/
theorem IsPage.or_and_addressMask {p : Nat} (h : IsPage p) {c : UInt64}
    (hc : c &&& addressMask = 0) : (UInt64.ofNat p ||| c) &&& addressMask = UInt64.ofNat p := by
  rw [or_and_field, h.and_addressMask, hc, UInt64.or_zero]

/-- The address leaves the attributes alone. -/
theorem IsPage.or_and_of_disjoint {p : Nat} (h : IsPage p) {c f : UInt64}
    (hf : addressMask &&& f = 0) : (UInt64.ofNat p ||| c) &&& f = c &&& f := by
  have hzero : UInt64.ofNat p &&& f = 0 := by
    rw [← h.and_addressMask, UInt64.and_assoc, hf, UInt64.and_zero]
  rw [or_and_field, hzero, UInt64.zero_or]

/-! ## The walk -/

/-- What one entry covers: `2 ^ span below` bytes. -/
def span (below : Nat) : Nat := 12 + 9 * below

def slotOf (table below va : Nat) : Nat := table + 8 * (va / 2 ^ span below % 512)

/-- Where a walk ends: at a leaf, or at an entry that translates nothing. -/
inductive Walked where
  | fault (below : Nat)
  | leaf (below slot : Nat) (desc : UInt64)
deriving DecidableEq

def walkFrom (m : Words) (va : Nat) : Nat → Nat → Walked
  | 0, table =>
    let slot := slotOf table 0 va
    if m slot &&& (validBit ||| tableBit) = (validBit ||| tableBit) then .leaf 0 slot (m slot)
    else .fault 0
  | below + 1, table =>
    let slot := slotOf table (below + 1) va
    if m slot &&& validBit = 0 then .fault (below + 1)
    else if m slot &&& tableBit = 0 then .leaf (below + 1) slot (m slot)
    else walkFrom m va below (m slot &&& addressMask).toNat

/-- A walk for addresses below `2 ^ span (below + 1)`; above them there is no table. -/
def walk (m : Words) (below table va : Nat) : Walked :=
  if va < 2 ^ span (below + 1) then walkFrom m va below table else .fault (below + 1)

/-- The physical address that a leaf gives for `va`. -/
def outputAddress (below : Nat) (desc : UInt64) (va : Nat) : Nat :=
  (desc &&& addressMask).toNat / 2 ^ span below * 2 ^ span below + va % 2 ^ span below

/-- What a leaf permits. -/
structure Rights where
  attr : UInt64
  share : UInt64
  never : Bool
  readOnly : Bool
  untilDirty : Bool
  accessed : Bool
deriving DecidableEq

def rights (desc : UInt64) : Rights where
  attr := (desc &&& attrMask) >>> 2
  share := (desc &&& shareMask) >>> 8
  never := desc &&& executeNever = executeNever
  readOnly := desc &&& readOnlyBit ≠ 0
  untilDirty := desc &&& dirtyModifier ≠ 0
  accessed := desc &&& accessFlag ≠ 0

def resolve (m : Words) (below table va : Nat) : Option (Nat × Rights) :=
  match walk m below table va with
  | .fault _ => none
  | .leaf below _ desc => some (outputAddress below desc va, rights desc)

theorem IsPage.rights_or {p : Nat} (h : IsPage p) (c : UInt64) :
    rights (UInt64.ofNat p ||| c) = rights c := by
  simp only [rights]
  rw [h.or_and_of_disjoint (by decide), h.or_and_of_disjoint (by decide),
    h.or_and_of_disjoint (by decide), h.or_and_of_disjoint (by decide),
    h.or_and_of_disjoint (by decide), h.or_and_of_disjoint (by decide)]

section

variable {m : Words} {va below table : Nat}

theorem walkFrom_table {next : Nat} {c : UInt64} (hpage : IsPage next)
    (hslot : m (slotOf table (below + 1) va) = UInt64.ofNat next ||| c)
    (hc : c &&& addressMask = 0) (hv : c &&& validBit ≠ 0) (ht : c &&& tableBit ≠ 0) :
    walkFrom m va (below + 1) table = walkFrom m va below next := by
  have hvalid : (UInt64.ofNat next ||| c) &&& validBit = c &&& validBit :=
    hpage.or_and_of_disjoint (by decide)
  have htable : (UInt64.ofNat next ||| c) &&& tableBit = c &&& tableBit :=
    hpage.or_and_of_disjoint (by decide)
  simp only [walkFrom]
  rw [hslot, hvalid, if_neg hv, htable, if_neg ht, hpage.or_and_addressMask hc,
    hpage.toNat_ofNat]

theorem walkFrom_block (hv : m (slotOf table (below + 1) va) &&& validBit ≠ 0)
    (ht : m (slotOf table (below + 1) va) &&& tableBit = 0) :
    walkFrom m va (below + 1) table =
      .leaf (below + 1) (slotOf table (below + 1) va) (m (slotOf table (below + 1) va)) := by
  simp only [walkFrom]
  rw [if_neg hv, if_pos ht]

theorem walkFrom_empty (hv : m (slotOf table (below + 1) va) = 0) :
    walkFrom m va (below + 1) table = .fault (below + 1) := by
  simp only [walkFrom]
  rw [hv, UInt64.zero_and, if_pos rfl]

theorem walkFrom_page
    (hv : m (slotOf table 0 va) &&& (validBit ||| tableBit) = validBit ||| tableBit) :
    walkFrom m va 0 table = .leaf 0 (slotOf table 0 va) (m (slotOf table 0 va)) := by
  simp only [walkFrom]
  rw [if_pos hv]

/-- A page's output address is the page plus the offset. -/
theorem outputAddress_page {p : Nat} (hpage : IsPage p) {c : UInt64}
    (hc : c &&& addressMask = 0) :
    outputAddress 0 (UInt64.ofNat p ||| c) va = p + va % 4096 := by
  have hal : p / 4096 * 4096 = p := by
    have := hpage.1
    omega
  rw [outputAddress, hpage.or_and_addressMask hc, hpage.toNat_ofNat]
  show p / 4096 * 4096 + va % 4096 = _
  rw [hal]

end

end Translation
end TensorSel4
