/-
Unsigned integers as little-endian bytes.

`leBytes w n` is what a `w`-byte unsigned integer holding `n` looks like in
memory on a little-endian machine; an `n` too large for `w` bytes loses its
high part, as a C conversion does.  `ofLeBytes` reads the bytes back.
-/
import Mathlib.Data.UInt
import Mathlib.Algebra.Order.Ring.Nat

namespace TensorSel4
namespace Bytes

def leBytes : Nat → Nat → List UInt8
  | 0, _ => []
  | w + 1, n => UInt8.ofNat n :: leBytes w (n / 256)

def ofLeBytes : List UInt8 → Nat
  | [] => 0
  | b :: bs => b.toNat + 256 * ofLeBytes bs

@[simp] theorem leBytes_length (w n : Nat) : (leBytes w n).length = w := by
  induction w generalizing n with
  | zero => rfl
  | succ w ih =>
    show (leBytes w (n / 256)).length + 1 = w + 1
    rw [ih]

theorem ofLeBytes_leBytes (w n : Nat) : ofLeBytes (leBytes w n) = n % 256 ^ w := by
  induction w generalizing n with
  | zero => simp [leBytes, ofLeBytes, Nat.mod_one]
  | succ w ih =>
    have hbyte : (UInt8.ofNat n).toNat = n % 256 := UInt8.toNat_ofNat'
    show (UInt8.ofNat n).toNat + 256 * ofLeBytes (leBytes w (n / 256)) = n % 256 ^ (w + 1)
    rw [hbyte, ih, Nat.pow_succ', Nat.mod_mul]

/-- A value that fits its width survives the trip through memory. -/
theorem ofLeBytes_leBytes_of_lt {w n : Nat} (h : n < 256 ^ w) : ofLeBytes (leBytes w n) = n := by
  rw [ofLeBytes_leBytes, Nat.mod_eq_of_lt h]

theorem ofLeBytes_lt (bs : List UInt8) : ofLeBytes bs < 256 ^ bs.length := by
  induction bs with
  | nil => exact Nat.one_pos
  | cons b bs ih =>
    have hb := b.toNat_lt
    show b.toNat + 256 * ofLeBytes bs < 256 ^ (bs.length + 1)
    rw [Nat.pow_succ]
    omega

/-- The bytes in memory are those of their value. -/
theorem leBytes_ofLeBytes (bs : List UInt8) : leBytes bs.length (ofLeBytes bs) = bs := by
  induction bs with
  | nil => rfl
  | cons b bs ih =>
    have hb := b.toNat_lt
    have hlow : UInt8.ofNat (b.toNat + 256 * ofLeBytes bs) = b := by
      apply UInt8.toNat_inj.mp
      rw [UInt8.toNat_ofNat']
      omega
    have hhigh : (b.toNat + 256 * ofLeBytes bs) / 256 = ofLeBytes bs := by omega
    show UInt8.ofNat (b.toNat + 256 * ofLeBytes bs) ::
      leBytes bs.length ((b.toNat + 256 * ofLeBytes bs) / 256) = b :: bs
    rw [hlow, hhigh, ih]

end Bytes
end TensorSel4
