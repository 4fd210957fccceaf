/-
Words in a byte-addressed memory, and copying by words of any width.

Addresses are machine words and wrap.  A word is the list of its bytes in
address order, so nothing here depends on the byte order.  `Copied` is what a
forward copy has done after `n` bytes, whatever the widths of its moves; a move
keeps it when no byte that it reads has been written, which `Ahead` says of the
two regions.
-/
import Mathlib.Data.UInt

namespace TensorSel4

abbrev Memory := UInt64 → UInt8

namespace Memory

def loadWord (m : Memory) (a : UInt64) (width : Nat) : List UInt8 :=
  (List.range width).map fun i => m (a + UInt64.ofNat i)

def storeWord (m : Memory) (a : UInt64) (word : List UInt8) : Memory := fun x =>
  word.getD (x - a).toNat (m x)

def moveWord (m : Memory) (dst src : UInt64) (width : Nat) : Memory :=
  m.storeWord dst (m.loadWord src width)

/-! ## Offsets -/

theorem toNat_ofNat {n : Nat} (h : n < 2 ^ 64) : (UInt64.ofNat n).toNat = n :=
  UInt64.toNat_ofNat_of_lt' h

theorem add_offset (a : UInt64) (m n : Nat) :
    a + UInt64.ofNat m + UInt64.ofNat n = a + UInt64.ofNat (m + n) := by
  rw [UInt64.ofNat_add, add_assoc]

theorem add_sub_offset (a x : UInt64) : a + UInt64.ofNat (x - a).toNat = x := by
  rw [UInt64.ofNat_toNat, add_sub_cancel]

/-- The offset from a later address. -/
theorem sub_offset {a x : UInt64} {n : Nat} (hn : n < 2 ^ 64) :
    (x - (a + UInt64.ofNat n)).toNat =
      if n ≤ (x - a).toNat then (x - a).toNat - n else 2 ^ 64 + (x - a).toNat - n := by
  have hsplit : x - (a + UInt64.ofNat n) = x - a - UInt64.ofNat n := by
    rw [sub_add_eq_sub_sub]
  have hlt := (x - a).toNat_lt
  rw [hsplit, UInt64.toNat_sub, toNat_ofNat hn]
  split <;> omega

/-! ## One move -/

theorem getD_loadWord (m : Memory) (a : UInt64) (width i : Nat) (b : UInt8) :
    (m.loadWord a width).getD i b = if i < width then m (a + UInt64.ofNat i) else b := by
  rw [List.getD_eq_getElem?_getD, loadWord, List.getElem?_map]
  split
  · next hi => rw [List.getElem?_range hi, Option.map_some, Option.getD_some]
  · next hi =>
    rw [List.getElem?_eq_none (by rw [List.length_range]; omega), Option.map_none,
      Option.getD_none]

theorem moveWord_apply (m : Memory) (dst src : UInt64) (width : Nat) (x : UInt64) :
    m.moveWord dst src width x =
      if (x - dst).toNat < width then m (src + (x - dst)) else m x := by
  show (m.loadWord src width).getD (x - dst).toNat (m x) = _
  rw [getD_loadWord, UInt64.ofNat_toNat]

/-! ## Forward copies -/

/-- The first `n` bytes are copied and nothing else has changed. -/
def Copied (m₀ : Memory) (dst src : UInt64) (n : Nat) (m : Memory) : Prop :=
  ∀ x, m x = if (x - dst).toNat < n then m₀ (src + (x - dst)) else m₀ x

/-- Within the first `n` bytes, no byte is written before it has been read. -/
def Ahead (dst src : UInt64) (n : Nat) : Prop :=
  ∀ i j, i < j → j < n → dst + UInt64.ofNat i ≠ src + UInt64.ofNat j

variable {m₀ m : Memory} {dst src : UInt64} {n : Nat}

theorem Copied.zero (m : Memory) (dst src : UInt64) : Copied m dst src 0 m := by
  intro x
  rw [if_neg (by omega)]

/-- One more move. -/
theorem Copied.move (h : Copied m₀ dst src n m) {width : Nat} (hn : n + width < 2 ^ 64)
    (hahead : Ahead dst src (n + width)) :
    Copied m₀ dst src (n + width)
      (m.moveWord (dst + UInt64.ofNat n) (src + UInt64.ofNat n) width) := by
  intro x
  have hlt := (x - dst).toNat_lt
  have hoff : (x - (dst + UInt64.ofNat n)).toNat = _ := sub_offset (by omega)
  rw [moveWord_apply]
  by_cases hbefore : (x - dst).toNat < n
  · rw [if_neg (by omega)] at hoff
    rw [if_neg (by omega), if_pos (by omega), h x, if_pos hbefore]
  · rw [if_pos (by omega)] at hoff
    by_cases hin : (x - dst).toNat < n + width
    · have hread : src + UInt64.ofNat n + (x - (dst + UInt64.ofNat n)) = src + (x - dst) := by
        rw [add_assoc, add_comm (UInt64.ofNat n), sub_add_eq_sub_sub, sub_add_cancel]
      rw [if_pos (by omega), if_pos hin, hread, h]
      -- a byte of the word that was written before would be the target of an earlier one
      have hfresh : ¬(src + (x - dst) - dst).toNat < n := by
        intro hwritten
        refine hahead (src + (x - dst) - dst).toNat (x - dst).toNat (by omega) hin ?_
        rw [add_sub_offset, UInt64.ofNat_toNat]
      rw [if_neg hfresh]
    · rw [if_neg (by omega), if_neg hin, h x, if_neg hbefore]

/-- What a finished copy means, address by address. -/
theorem Copied.spec (h : Copied m₀ dst src n m) (hn : n < 2 ^ 64) :
    (∀ i < n, m (dst + UInt64.ofNat i) = m₀ (src + UInt64.ofNat i)) ∧
      ∀ x, (∀ i < n, x ≠ dst + UInt64.ofNat i) → m x = m₀ x := by
  constructor
  · intro i hi
    rw [h, add_sub_cancel_left, toNat_ofNat (by omega), if_pos hi]
  · intro x hx
    rw [h, if_neg]
    intro hlt
    exact hx _ hlt (add_sub_offset dst x).symm

theorem Ahead.mono {k : Nat} (h : Ahead dst src n) (hk : k ≤ n) : Ahead dst src k :=
  fun i j hij hj => h i j hij (by omega)

theorem ahead_of_disjoint
    (h : ∀ i j, i < n → j < n → dst + UInt64.ofNat i ≠ src + UInt64.ofNat j) : Ahead dst src n :=
  fun i j hij hj => h i j (by omega) hj

/-- The source starts at or above the destination and does not wrap. -/
theorem ahead_of_le (hle : dst ≤ src) (hwrap : src.toNat + n ≤ 2 ^ 64) : Ahead dst src n := by
  intro i j hij hj heq
  have hsum := congrArg UInt64.toNat heq
  have hd := UInt64.le_iff_toNat_le.mp hle
  rw [UInt64.toNat_add, UInt64.toNat_add, toNat_ofNat (by omega), toNat_ofNat (by omega)] at hsum
  omega

end Memory
end TensorSel4
