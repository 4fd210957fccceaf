/-
The bytes of a C struct, and Python's `struct.unpack` of them.

A compiler places each member at the next offset that its alignment divides and
fills the gap with padding.  The members here are little-endian unsigned
integers, aligned to their width, and arrays of bytes.  `unpack` reads a format
string in standard sizes, `<`, which has no alignment of its own, so the two
agree on a struct without padding.
-/
import TensorSel4.Bytes.LittleEndian

namespace TensorSel4
namespace Bytes

/-! ## C structs -/

inductive Member
  | word (width n : Nat)
  | array (bs : List UInt8)

namespace Member

def align : Member → Nat
  | word width _ => width
  | array _ => 1

def bytes : Member → List UInt8
  | word width n => leBytes width n
  | array bs => bs

end Member

/-- The distance from `offset` to the next multiple of `align`. -/
def gap (align offset : Nat) : Nat := (align - offset % align) % align

theorem gap_eq_zero {align offset : Nat} (h : align ∣ offset) : gap align offset = 0 := by
  rw [gap, Nat.mod_eq_zero_of_dvd h, Nat.sub_zero, Nat.mod_self]

def membersFrom : Nat → List Member → List UInt8
  | _, [] => []
  | offset, m :: ms =>
    List.replicate (gap m.align offset) 0 ++
      (m.bytes ++ membersFrom (offset + gap m.align offset + m.bytes.length) ms)

def structAlign (ms : List Member) : Nat := ms.foldr (fun m a => max m.align a) 1

/-- A struct in memory, padded at its end to a multiple of its alignment. -/
def structBytes (ms : List Member) : List UInt8 :=
  membersFrom 0 ms ++ List.replicate (gap (structAlign ms) (membersFrom 0 ms).length) 0

/-- Every member from `offset` on falls where its alignment wants it. -/
def Packed : Nat → List Member → Prop
  | _, [] => True
  | offset, m :: ms => m.align ∣ offset ∧ Packed (offset + m.bytes.length) ms

theorem membersFrom_packed {offset : Nat} {ms : List Member} (h : Packed offset ms) :
    membersFrom offset ms = ms.flatMap Member.bytes := by
  induction ms generalizing offset with
  | nil => rfl
  | cons m ms ih =>
    obtain ⟨halign, hrest⟩ := h
    rw [membersFrom, gap_eq_zero halign, Nat.add_zero, ih hrest, List.flatMap_cons]
    rfl

/-- A packed struct is its members one after the other. -/
theorem structBytes_packed {ms : List Member} (h : Packed 0 ms)
    (hend : structAlign ms ∣ (ms.flatMap Member.bytes).length) :
    structBytes ms = ms.flatMap Member.bytes := by
  rw [structBytes, membersFrom_packed h, gap_eq_zero hend, List.replicate_zero, List.append_nil]

/-! ## Format strings -/

/-- One item of a format: `H`, `I`, `Q` and `B` by their width, `ns` and `nx`. -/
inductive Item
  | uint (width : Nat)
  | str (n : Nat)
  | pad (n : Nat)

inductive Field
  | int (n : Nat)
  | bytes (bs : List UInt8)
  deriving DecidableEq

namespace Item

def size : Item → Nat
  | uint width => width
  | str n => n
  | pad n => n

end Item

def calcsize (fmt : List Item) : Nat := (fmt.map Item.size).sum

def unpack : List Item → List UInt8 → List Field
  | [], _ => []
  | .uint width :: fmt, bs => .int (ofLeBytes (bs.take width)) :: unpack fmt (bs.drop width)
  | .str n :: fmt, bs => .bytes (bs.take n) :: unpack fmt (bs.drop n)
  | .pad n :: fmt, bs => unpack fmt (bs.drop n)

section

variable {fmt : List Item} {ms : List Member} {bs : List UInt8} {width n : Nat}

theorem unpack_word (h : n < 256 ^ width) :
    unpack (.uint width :: fmt) ((Member.word width n :: ms).flatMap Member.bytes) =
      .int n :: unpack fmt (ms.flatMap Member.bytes) := by
  have hlen : (leBytes width n).length = width := leBytes_length width n
  rw [List.flatMap_cons, Member.bytes, unpack, List.take_left' hlen, List.drop_left' hlen,
    ofLeBytes_leBytes_of_lt h]

theorem unpack_str (h : bs.length = n) :
    unpack (.str n :: fmt) ((Member.array bs :: ms).flatMap Member.bytes) =
      .bytes bs :: unpack fmt (ms.flatMap Member.bytes) := by
  rw [List.flatMap_cons, Member.bytes, unpack, List.take_left' h, List.drop_left' h]

theorem unpack_pad (h : bs.length = n) :
    unpack (.pad n :: fmt) ((Member.array bs :: ms).flatMap Member.bytes) =
      unpack fmt (ms.flatMap Member.bytes) := by
  rw [List.flatMap_cons, Member.bytes, unpack, List.drop_left' h]

end

end Bytes
end TensorSel4
