/-
The line editor of uartrx: `run_line` to `rx_byte` of `uartrx/uartrx.c`.

`line` is `line[0..line_len)` and never exceeds the buffer.  `ran` is history:
the accepted commands in the order in which they ran.
-/
import TensorSel4.Uartrx.Console

namespace TensorSel4
namespace Uartrx

open Text Trace Vmm

def lineMax : Nat := 128
def asciiBs : UInt8 := 0x08
def asciiDel : UInt8 := 0x7f

theorem empty_line_fits : ([] : List UInt8).length ≤ lineMax := Nat.zero_le _

structure UartrxState where
  line : List UInt8 := []
  lineErrors : UInt32 := 0
  lastWasCr : Bool := false
  commandsReceived : UInt64 := 0
  ran : List CmdEntry := []
  fits : line.length ≤ lineMax := by exact TensorSel4.Uartrx.empty_line_fits

namespace UartrxState

def reportLineErrors (u : UartrxState) : List Op :=
  if u.lineErrors = 0 then []
  else
    consolePuts (ascii "UARTRX|WARN: receive errors on this line, UERSTAT ") ++
      consolePuthex32 u.lineErrors ++ consolePuts (ascii "\n")

/-- The line without the spaces around it. -/
def trimmed (s : List UInt8) : List UInt8 :=
  let s := s.drop (skipSpaces s)
  s.take (trimSpaces s)

def firstWord (s : List UInt8) : List UInt8 := s.take (tokenLen s)

def afterWord (s : List UInt8) : List UInt8 :=
  s.drop (tokenLen s + skipSpaces (s.drop (tokenLen s)))

/-- `run_line` on a line that is not blank. -/
def runCommand (u : UartrxState) (s : List UInt8) (env : HostEnv) : UartrxState × List Op :=
  let id := u.commandsReceived + 1
  let u := { u with commandsReceived := id }
  match lookup (firstWord s) with
  | none =>
    (u, .traceEmit (Pipeline.recordCommand cmdVerbNone id cmdRejectedVerb 0) ::
      consolePuts (ascii "unknown command; type help\n"))
  | some cmd =>
    match parseArgs cmd.verb (afterWord s) with
    | none =>
      (u, .traceEmit (Pipeline.recordCommand cmd.verb id cmdRejectedArgs 0) ::
        consolePuts (ascii "bad arguments; type help\n"))
    | some arg =>
      let entry : CmdEntry := { id, verb := cmd.verb, arg }
      ({ u with ran := u.ran ++ [entry] },
        .traceEmit (Pipeline.recordCommand cmd.verb id cmdAccepted arg) :: cmd.run env entry)

def runLine (u : UartrxState) (s : List UInt8) (env : HostEnv) : UartrxState × List Op :=
  if trimmed s = [] then (u, []) else u.runCommand (trimmed s) env

def endLine (u : UartrxState) (env : HostEnv) : UartrxState × List Op :=
  let (t, ops) := u.runLine u.line env
  ({ t with line := [], lineErrors := 0, fits := empty_line_fits },
    consolePuts (ascii "\n") ++ u.reportLineErrors ++ ops ++ prompt)

def eraseChar (u : UartrxState) : UartrxState × List Op :=
  if u.line = [] then (u, [])
  else
    ({ u with
        line := u.line.dropLast
        fits := by
          rw [List.length_dropLast]
          exact (Nat.sub_le _ _).trans u.fits },
      consolePuts [0x08, 0x20, 0x08] ++ [.flush])

def addChar (u : UartrxState) (c : UInt8) : UartrxState × List Op :=
  if h : u.line.length = lineMax then (u, [])
  else
    ({ u with
        line := u.line ++ [c]
        fits := by
          rw [List.length_append]
          exact Nat.lt_of_le_of_ne u.fits h },
      [.putc c, .flush])

def rxByte (u : UartrxState) (c : UInt8) (uerstat : UInt32) (env : HostEnv) :
    UartrxState × List Op :=
  let afterCr := u.lastWasCr
  let u := { u with lastWasCr := c = 0x0d, lineErrors := u.lineErrors ||| uerstat }
  if c = 0x0a ∧ afterCr = true then (u, [])
  else if c = 0x0d ∨ c = 0x0a then u.endLine env
  else if c = asciiBs ∨ c = asciiDel then u.eraseChar
  else if 0x20 ≤ c ∧ c < 0x7f then u.addChar c
  else (u, [])

end UartrxState

/-- One received byte, the error bits that came with it, and what the calls made
while it is handled return. -/
structure RxEvent where
  byte : UInt8
  uerstat : UInt32 := 0
  env : HostEnv := {}

namespace UartrxState

def rx (u : UartrxState) (e : RxEvent) : UartrxState × List Op := u.rxByte e.byte e.uerstat e.env

/-- The state after a list of bytes, and the operations on the way. -/
def rxAll (u : UartrxState) : List RxEvent → UartrxState × List Op
  | [] => (u, [])
  | e :: es => ((u.rx e).1.rxAll es |>.1, (u.rx e).2 ++ ((u.rx e).1.rxAll es).2)

theorem rxAll_append (u : UartrxState) (es fs : List RxEvent) :
    u.rxAll (es ++ fs) =
      (((u.rxAll es).1.rxAll fs).1, (u.rxAll es).2 ++ ((u.rxAll es).1.rxAll fs).2) := by
  induction es generalizing u with
  | nil => rfl
  | cons e es ih => simp only [List.cons_append, rxAll, ih, List.append_assoc]

/-- What handling a byte does to the rings ends with a notification of the
tracer, if it does anything. -/
theorem rx_ends_with_flush (u : UartrxState) (e : RxEvent) :
    (u.rx e).2 = [] ∨ ∃ ops, (u.rx e).2 = ops ++ [.flush] := by
  unfold rx rxByte
  dsimp only
  split
  · exact Or.inl rfl
  split
  · exact Or.inr ⟨_, (List.append_assoc _ (consolePuts (ascii "> ")) [.flush]).symm⟩
  split
  · unfold eraseChar
    split
    · exact Or.inl rfl
    · exact Or.inr ⟨_, rfl⟩
  split
  · unfold addChar
    split
    · exact Or.inl rfl
    · exact Or.inr ⟨[_], rfl⟩
  · exact Or.inl rfl

end UartrxState
end Uartrx
end TensorSel4
