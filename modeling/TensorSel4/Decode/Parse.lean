/-
The patterns and parsers of `tools/trace-decode.py`.

Python's integers are natural numbers here, its strings lists of characters
where the decoder looks inside them.  A function that can raise returns an
`Except` over the exceptions of this program, whether or not some caller catches
them.
-/
import Mathlib.Data.List.DropRight
import TensorSel4.Bytes.Hex
import TensorSel4.Bytes.Layout
import TensorSel4.Text.Search
import TensorSel4.Trace.Record

namespace TensorSel4
namespace Decode

open Bytes

inductive PyError
  | traceError (msg : String)
  | valueError (msg : String)
  | structError
  | keyError
  | typeError
  | attributeError
  deriving DecidableEq, Repr

/-- The text of an exception that `except (TraceError, ValueError)` catches. -/
def PyError.caught : PyError → Option String
  | traceError msg => some msg
  | valueError msg => some msg
  | _ => none

def versions : List Nat := [0, 1, 2, 3, 4, 5, 6, 7, 8, 9]

/-- `b"SEL4TRC\0"`. -/
def magic : List UInt8 := [0x53, 0x45, 0x4c, 0x34, 0x54, 0x52, 0x43, 0x00]

/-- `<QQQQQIHBBBB6xQ`. -/
def recordFormat : List Item :=
  [.uint 8, .uint 8, .uint 8, .uint 8, .uint 8, .uint 4, .uint 2, .uint 1, .uint 1, .uint 1,
    .uint 1, .pad 6, .uint 8]

/-- `<8sHHI16s32s48s48s48s64s64s`. -/
def headerFormat : List Item :=
  [.str 8, .uint 2, .uint 2, .uint 4, .str 16, .str 32, .str 48, .str 48, .str 48, .str 64, .str 64]

def kindMmio : Nat := 1
def kindSmcEnter : Nat := 2
def kindSmcRegs : Nat := 3
def kindSmcExit : Nat := 4
def kindCmd : Nat := 5
def kindGuest : Nat := 6

def kindsByVersion : Nat → Option (List Nat)
  | 0 => some [kindMmio]
  | 1 => some [kindMmio, kindSmcEnter, kindSmcRegs, kindSmcExit]
  | 2 => some [kindMmio, kindSmcEnter, kindSmcRegs, kindSmcExit, kindCmd]
  | 3 | 4 | 5 | 6 | 7 | 8 | 9 =>
    some [kindMmio, kindSmcEnter, kindSmcRegs, kindSmcExit, kindCmd, kindGuest]
  | _ => none

def stampFields : List String :=
  ["codename", "build_id", "bootloader", "baseband", "git_sha", "toolchain_sha256", "dtb_sha256"]

/-! ## Patterns -/

/-- `TR<tag>([0-9]) ([0-9a-f]*)`, at the start of a text. -/
def taggedLine (tag : Char) : List Char → Option (Nat × List Char)
  | 'T' :: 'R' :: t :: c :: ' ' :: cs =>
    if t = tag ∧ '0' ≤ c ∧ c ≤ '9' then some (c.toNat - 48, cs.takeWhile isLowerHex) else none
  | _ => none

/-- `HEADER_LINE.search`. -/
def headerLine (line : List Char) : Option (Nat × List Char) :=
  Text.search (taggedLine 'H') line

/-- `RECORD_LINE.search`. -/
def recordLine (line : List Char) : Option (Nat × List Char) :=
  Text.search (taggedLine 'C') line

theorem taggedLine_head {tag : Char} {s : List Char} (h : taggedLine tag s ≠ none) :
    s.head? = some 'T' := by
  unfold taggedLine at h
  split at h
  · rfl
  · exact absurd rfl h

/-- Both patterns start with a `T`. -/
theorem search_taggedLine_none (tag : Char) {s : List Char} (h : 'T' ∉ s) :
    Text.search (taggedLine tag) s = none :=
  Text.search_eq_none_of_not_mem (fun _ => taggedLine_head) h

/-! ## Parsers -/

/-- `{n:x}`. -/
def hexText (n : Nat) : String := String.ofList (Nat.toDigits 16 n)

/-- `bytes.fromhex`. -/
def fromhex (hexdata : List Char) : Except PyError (List UInt8) :=
  match fromHex hexdata with
  | .ok raw => .ok raw
  | .error pos => .error (.valueError
      ("non-hexadecimal number found in fromhex() arg at position " ++ toString pos))

/-- `Struct.unpack`. -/
def structUnpack (fmt : List Item) (raw : List UInt8) : Except PyError (List Field) :=
  if raw.length = calcsize fmt then .ok (unpack fmt raw) else .error .structError

/-- `bytes.decode("ascii")` from position `pos` on. -/
def decodeAscii : Nat → List UInt8 → Except PyError (List Char)
  | _, [] => .ok []
  | pos, b :: bs =>
    if b.toNat < 128 then
      match decodeAscii (pos + 1) bs with
      | .ok cs => .ok (Char.ofNat b.toNat :: cs)
      | .error e => .error e
    else .error (.valueError ("'ascii' codec can't decode byte 0x" ++ hexText b.toNat ++
      " in position " ++ toString pos ++ ": ordinal not in range(128)"))

def text : Field → Except PyError (List Char)
  | .bytes field => decodeAscii 0 (field.rdropWhile (· = 0))
  | .int _ => .error .attributeError

/-- The header of a trace; `KINDS_BY_VERSION` has an entry for its version. -/
structure Header where
  version : Nat
  cntfrq : Nat
  stamp : List (String × List Char)
  known : version ∈ versions
  deriving DecidableEq

/-- `repr` of one byte between quotes `q`. -/
def reprByte (q : Char) (b : UInt8) : List Char :=
  if b = 0x09 then ['\\', 't']
  else if b = 0x0a then ['\\', 'n']
  else if b = 0x0d then ['\\', 'r']
  else if Char.ofNat b.toNat = q ∨ b = 0x5c then ['\\', Char.ofNat b.toNat]
  else if 0x20 ≤ b ∧ b < 0x7f then [Char.ofNat b.toNat]
  else '\\' :: 'x' :: byteHex b

def reprBytes (bs : List UInt8) : String :=
  let q := if 0x27 ∈ bs ∧ 0x22 ∉ bs then '\x22' else '\x27'
  String.ofList ('b' :: q :: bs.flatMap (reprByte q) ++ [q])

def parseHeader (hexdata : List Char) : Except PyError Header := do
  let raw ← fromhex hexdata
  if raw.length ≠ calcsize headerFormat then
    .error (.traceError ("header is " ++ toString raw.length ++ " bytes, expected " ++
      toString (calcsize headerFormat)))
  else
    match ← structUnpack headerFormat raw with
    | .bytes found :: .int version :: .int recordSize :: .int cntfrq :: fields =>
      if found ≠ magic then
        .error (.traceError ("bad magic " ++ reprBytes found))
      else if known : version ∈ versions then
        if recordSize ≠ calcsize recordFormat then
          .error (.traceError ("record size " ++ toString recordSize ++ ", expected " ++
            toString (calcsize recordFormat)))
        else do
          let stamp ← fields.mapM text
          .ok { version, cntfrq, stamp := stampFields.zip stamp, known }
      else
        .error (.traceError ("trace format version " ++ toString version ++
          ", this decoder reads (0, 1, 2, 3, 4, 5, 6, 7, 8, 9)"))
    | _ => .error (.valueError "not enough values to unpack (expected 4)")

/-- A record as `parse_record` returns it. -/
structure Record where
  seq : Nat
  time : Nat
  pc : Nat
  addr : Nat
  value : Nat
  esr : Nat
  vcpu : Nat
  producer : Nat
  kind : Nat
  size : Nat
  flags : Nat
  deriving DecidableEq, Repr

def parseRecord (hexdata : List Char) : Except PyError Record := do
  let raw ← fromhex hexdata
  if raw.length ≠ calcsize recordFormat then
    .error (.traceError ("record is " ++ toString raw.length ++ " bytes, expected " ++
      toString (calcsize recordFormat)))
  else
    match ← structUnpack recordFormat raw with
    | [.int seq, .int time, .int pc, .int addr, .int value, .int esr, .int vcpu, .int producer,
        .int kind, .int size, .int flags, .int _] =>
      .ok { seq, time, pc, addr, value, esr, vcpu, producer, kind, size, flags }
    | _ => .error (.valueError "not enough values to unpack (expected 12)")

/-! ## Exceptions

Every exception of a parser is one that `decode` catches. -/

theorem fromhex_caught {hexdata : List Char} {e : PyError} (h : fromhex hexdata = .error e) :
    e.caught.isSome := by
  unfold fromhex at h
  split at h
  · cases h
  · cases h
    rfl

theorem structUnpack_of_length {fmt : List Item} {raw : List UInt8}
    (h : raw.length = calcsize fmt) : structUnpack fmt raw = .ok (unpack fmt raw) := if_pos h

theorem decodeAscii_caught {pos : Nat} {bs : List UInt8} {e : PyError}
    (h : decodeAscii pos bs = .error e) : e.caught.isSome := by
  induction bs generalizing pos with
  | nil => cases h
  | cons b bs ih =>
    rw [decodeAscii] at h
    split at h
    · cases hrest : decodeAscii (pos + 1) bs with
      | ok cs =>
        rw [hrest] at h
        cases h
      | error e' =>
        rw [hrest] at h
        cases h
        exact ih hrest
    · cases h
      rfl

/-- The fields of a header: bytes, three integers, and the strings of the stamp. -/
theorem unpack_header (raw : List UInt8) :
    ∃ found version recordSize cntfrq, ∃ strs : List (List UInt8),
      unpack headerFormat raw = .bytes found :: .int version :: .int recordSize :: .int cntfrq ::
        strs.map Field.bytes :=
  ⟨_, _, _, _, [_, _, _, _, _, _, _], rfl⟩

theorem mapM_text_caught {strs : List (List UInt8)} {e : PyError}
    (h : (strs.map Field.bytes).mapM text = .error e) : e.caught.isSome := by
  induction strs with
  | nil => cases h
  | cons s strs ih =>
    rw [List.map_cons, List.mapM_cons] at h
    cases hs : text (.bytes s) with
    | error e' =>
      rw [hs] at h
      cases h
      exact decodeAscii_caught hs
    | ok cs =>
      rw [hs] at h
      cases hrest : (strs.map Field.bytes).mapM text with
      | ok r =>
        rw [hrest] at h
        cases h
      | error e' =>
        rw [hrest] at h
        cases h
        exact ih hrest

theorem parseHeader_caught {hexdata : List Char} {e : PyError}
    (h : parseHeader hexdata = .error e) : e.caught.isSome := by
  unfold parseHeader at h
  cases hraw : fromhex hexdata with
  | error e' =>
    rw [hraw] at h
    cases h
    exact fromhex_caught hraw
  | ok raw =>
    simp only [hraw, bind, Except.bind] at h
    split at h
    · cases h
      rfl
    · next hlen =>
      obtain ⟨found, version, recordSize, cntfrq, strs, hfields⟩ := unpack_header raw
      rw [structUnpack_of_length (not_not.mp hlen), hfields] at h
      simp only at h
      split at h
      · cases h
        rfl
      split at h
      · split at h
        · cases h
          rfl
        · cases hstamp : (strs.map Field.bytes).mapM text with
          | ok stamp =>
            rw [hstamp] at h
            cases h
          | error e' =>
            rw [hstamp] at h
            cases h
            exact mapM_text_caught hstamp
      · cases h
        rfl

theorem parseRecord_caught {hexdata : List Char} {e : PyError}
    (h : parseRecord hexdata = .error e) : e.caught.isSome := by
  unfold parseRecord at h
  cases hraw : fromhex hexdata with
  | error e' =>
    rw [hraw] at h
    cases h
    exact fromhex_caught hraw
  | ok raw =>
    simp only [hraw, bind, Except.bind] at h
    split at h
    · cases h
      rfl
    · next hlen =>
      rw [structUnpack_of_length (not_not.mp hlen)] at h
      cases h

end Decode
end TensorSel4
