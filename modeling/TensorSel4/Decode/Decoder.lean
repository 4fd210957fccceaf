/-
`decode` of `tools/trace-decode.py`.

The local variables of `decode` are the fields of `Decoder`.  `out` holds what
it printed, one string for each `print`.  `records` is a history that the code
does not keep: the records it printed, in order.
-/
import TensorSel4.Decode.Format

namespace TensorSel4
namespace Decode

structure Decoder where
  header : Option Header := none
  headerHex : Option (List Char) := none
  /-- Line number, digit and payload of the records held back. -/
  pending : List (Nat × Nat × List Char) := []
  expectedSeq : Nat := 0
  decoded : Nat := 0
  errors : Nat := 0
  console : Console
  out : List String := []
  records : List Record := []

namespace Decoder

def print (d : Decoder) (s : String) : Decoder := { d with out := d.out ++ [s] }

def error (d : Decoder) (lineno : Nat) (msg : String) : Decoder :=
  { d with errors := d.errors + 1 }.print ("ERROR line " ++ dec lineno ++ ": " ++ msg)

/-- `except (TraceError, ValueError) as e`, printing `what` and the exception. -/
def except (d : Decoder) (lineno : Nat) (what : String) (e : PyError) : Except PyError Decoder :=
  match e.caught with
  | some msg => .ok (d.error lineno (what ++ ": " ++ msg))
  | none => .error e

def checkKind (d : Decoder) (lineno version : Nat) (kinds : List Nat) (rec : Record) : Decoder :=
  if rec.kind ∈ kinds then d
  else d.error lineno ("kind " ++ dec rec.kind ++ " is not defined in version " ++ dec version)

def checkSeq (d : Decoder) (lineno : Nat) (rec : Record) : Decoder :=
  if rec.seq = d.expectedSeq then d
  else d.error lineno ("seq " ++ dec rec.seq ++ ", expected " ++ dec d.expectedSeq)

def printRecord (d : Decoder) (rec : Record) : Decoder :=
  { d with
    expectedSeq := rec.seq + 1
    decoded := d.decoded + 1
    records := d.records ++ [rec] }.print (formatRecord rec)

def feed (d : Decoder) (rec : Record) : Decoder :=
  let fed := d.console.feed rec
  match fed.2 with
  | some s => { d with console := fed.1 }.print ("  guest| " ++ String.ofList s)
  | none => { d with console := fed.1 }

/-- Everything `record` does with a record that parsed. -/
def accept (d : Decoder) (lineno version : Nat) (kinds : List Nat) (rec : Record) : Decoder :=
  (((d.checkKind lineno version kinds rec).checkSeq lineno rec).printRecord rec).feed rec

def record (d : Decoder) (lineno digit : Nat) (hexdata : List Char) : Except PyError Decoder :=
  match d.header with
  | none => .error .typeError
  | some header =>
    if digit ≠ header.version then
      .ok (d.error lineno ("TRC" ++ dec digit ++ " record in a version " ++ dec header.version ++
        " trace"))
    else
      match parseRecord hexdata with
      | .error e => d.except lineno "record" e
      | .ok rec =>
        match kindsByVersion header.version with
        | none => .error .keyError
        | some kinds => .ok (d.accept lineno header.version kinds rec)

/-- The records held back until the header came. -/
def recordAll : Decoder → List (Nat × Nat × List Char) → Except PyError Decoder
  | d, [] => .ok d
  | d, (lineno, digit, hexdata) :: args =>
    match d.record lineno digit hexdata with
    | .ok d => recordAll d args
    | .error e => .error e

def printHeader (d : Decoder) (header : Header) : Decoder :=
  header.stamp.foldl (fun d field => d.print ("  " ++ field.1 ++ ": " ++ String.ofList field.2))
    (d.print ("trace v" ++ dec header.version ++ " cntfrq=" ++ dec header.cntfrq))

/-- The first valid header. -/
def settle (d : Decoder) (hexdata : List Char) (parsed : Header) : Decoder :=
  { d with header := some parsed, headerHex := some hexdata }.printHeader parsed

/-- A line that the header pattern matches. -/
def headerLine (d : Decoder) (lineno digit : Nat) (hexdata : List Char) : Except PyError Decoder :=
  match parseHeader hexdata with
  | .error e => d.except lineno "header" e
  | .ok parsed =>
    if digit ≠ parsed.version then
      .ok (d.error lineno ("TRH" ++ dec digit ++ " line carries a version " ++ dec parsed.version ++
        " header"))
    else
      match d.header with
      | some _ =>
        if some hexdata ≠ d.headerHex then
          .ok (d.error lineno "header differs from the first header in this trace")
        else .ok d
      | none =>
        let d := d.settle hexdata parsed
        match d.recordAll d.pending with
        | .ok d => .ok { d with pending := [] }
        | .error e => .error e

/-- One round of the loop over the lines. -/
def line (d : Decoder) (lineno : Nat) (s : List Char) : Except PyError Decoder :=
  match Decode.headerLine s with
  | some (digit, hexdata) => d.headerLine lineno digit hexdata
  | none =>
    match recordLine s with
    | none => .ok d
    | some (digit, hexdata) =>
      if d.header = none then .ok { d with pending := d.pending ++ [(lineno, digit, hexdata)] }
      else d.record lineno digit hexdata

def lines : Nat → Decoder → List (List Char) → Except PyError Decoder
  | _, d, [] => .ok d
  | lineno, d, s :: stream =>
    match d.line lineno s with
    | .ok d => lines (lineno + 1) d stream
    | .error e => .error e

/-- After the loop. -/
def finish (d : Decoder) : Decoder :=
  let d := if d.header = none then
      d.error 0 ("no valid trace header found (" ++ dec d.pending.length ++
        " records could not be decoded)")
    else d
  d.print (dec d.decoded ++ " records, " ++ dec d.errors ++ " errors")

end Decoder

/-- The state in which `decode` returns; its result is `errors`. -/
def decode (stream : List (List Char)) (consoleTx : Option Nat) : Except PyError Decoder :=
  match Decoder.lines 1 { console := { txAddr := consoleTx } } stream with
  | .ok d => .ok d.finish
  | .error e => .error e

end Decode
end TensorSel4
