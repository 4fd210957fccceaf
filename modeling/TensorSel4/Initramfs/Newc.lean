/-
A reader of newc cpio archives.

An entry is a header of 110 bytes, a magic number and thirteen numbers of eight
hexadecimal digits, then the name with its NUL, then the data.  The data and the next
header start at the next multiple of four, counted from the start of the archive.
The entry named `TRAILER!!!` ends the archive.
-/
import TensorSel4.Bytes.HexNumber

namespace TensorSel4
namespace Newc

open Bytes

/-! ## Text -/

def bytesOf (cs : List Char) : List UInt8 := cs.map fun c => UInt8.ofNat c.toNat

def textOf (bs : List UInt8) : List Char := bs.map fun b => Char.ofNat b.toNat

theorem textOf_bytesOf {cs : List Char} (h : ∀ c ∈ cs, c.toNat < 128) :
    textOf (bytesOf cs) = cs := by
  rw [textOf, bytesOf, List.map_map]
  refine (List.map_congr_left fun c hc => ?_).trans cs.map_id
  have hlt := h c hc
  show Char.ofNat (UInt8.ofNat c.toNat).toNat = c
  rw [UInt8.toNat_ofNat_of_lt' (Nat.lt_trans hlt (by decide)), Char.ofNat_toNat]

/-! ## The reader -/

structure Entry where
  ino : Nat
  mode : Nat
  rdev : Nat × Nat
  name : List Char
  data : List UInt8
  deriving DecidableEq

def magic : List Char := ['0', '7', '0', '7', '0', '1']

def headerSize : Nat := 110

def trailerName : List Char := "TRAILER!!!".toList

/-- The next multiple of four. -/
def align4 (n : Nat) : Nat := (n + 3) / 4 * 4

/-- The next `n` numbers of a header. -/
def readFields : Nat → List UInt8 → Option (List Nat)
  | 0, _ => some []
  | n + 1, bs =>
    if bs.length < 8 then none
    else (hexNumber (textOf (bs.take 8))).bind fun field =>
      (readFields n (bs.drop 8)).map fun fields => field :: fields

/-- The entry whose header is at `off`, and where the next header is.  The name is the C
string at the end of the header. -/
def readEntry (archive : List UInt8) (off : Nat) : Option (Entry × Nat) :=
  if textOf ((archive.drop off).take 6) = magic then
    match readFields 13 (archive.drop (off + 6)) with
    | some [ino, mode, _, _, _, _, filesize, _, _, rdevmajor, rdevminor, namesize, _] =>
      let nameBytes := (archive.drop (off + headerSize)).take namesize
      let dataOff := align4 (off + headerSize + namesize)
      let data := (archive.drop dataOff).take filesize
      let name := textOf (nameBytes.takeWhile (· ≠ 0))
      if nameBytes.length = namesize ∧ nameBytes.getLast? = some 0 ∧ data.length = filesize then
        some ({ ino, mode, rdev := (rdevmajor, rdevminor), name, data },
          align4 (dataOff + filesize))
      else none
    | _ => none
  else none

/-- The entries from `off` on with the offsets of their headers, and the offset of the
trailer. -/
def readFrom : Nat → List UInt8 → Nat → Option (List (Nat × Entry) × Nat)
  | 0, _, _ => none
  | fuel + 1, archive, off =>
    (readEntry archive off).bind fun (e, next) =>
      if e.name = trailerName then some ([], off)
      else (readFrom fuel archive next).map fun (es, trailer) => ((off, e) :: es, trailer)

/-- An archive has fewer entries than bytes. -/
def read (archive : List UInt8) : Option (List (Nat × Entry) × Nat) :=
  readFrom archive.length archive 0

/-! ## Texts and alignment -/

theorem bytesOf_length (cs : List Char) : (bytesOf cs).length = cs.length := List.length_map ..

theorem bytesOf_ne_zero {cs : List Char} (hascii : ∀ c ∈ cs, c.toNat < 128)
    (hnul : ∀ c ∈ cs, c.toNat ≠ 0) : ∀ b ∈ bytesOf cs, b ≠ 0 := by
  intro b hb hzero
  obtain ⟨c, hc, rfl⟩ := List.mem_map.mp hb
  have hlt := hascii c hc
  apply hnul c hc
  rw [← UInt8.toNat_ofNat_of_lt' (Nat.lt_trans hlt (by omega) : c.toNat < 2 ^ 8), hzero]
  rfl

theorem dvd_align4 (n : Nat) : 4 ∣ align4 n := Nat.dvd_mul_left ..

end Newc
end TensorSel4
