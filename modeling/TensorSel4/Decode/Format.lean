/-
The lines `tools/trace-decode.py` prints for a record, and its `Console`, which
puts a guest's output back together from the records of writes to a UART.
-/
import TensorSel4.Decode.Parse

namespace TensorSel4
namespace Decode

def mmioWrite : Nat := 1 <<< 0
def mmioForwarded : Nat := 1 <<< 1
def mmioUnhandled : Nat := 1 <<< 2

def smcRegsExit : Nat := 1 <<< 0
def smcForwarded : Nat := 1 <<< 1
def smcUnhandled : Nat := 1 <<< 2

def cmdAccepted : Nat := 1 <<< 0
def cmdRejectedVerb : Nat := 1 <<< 2
def cmdRejectedArgs : Nat := 1 <<< 1

def cmdVerbs : List (Nat × String) :=
  [(0, "-"), (1, "ping"), (2, "trace-dump"), (3, "help"), (4, "guest-start"), (5, "guest-stop"),
    (6, "status"), (7, "guest-regs"), (8, "gic-dump"), (9, "pc-sample"), (10, "tlbi-stress")]

def guestEvents : List (Nat × String) :=
  [(1, "STARTED"), (2, "STOPPED_BY_COMMAND"), (3, "STOPPED_BY_FAULT")]

def dec (n : Nat) : String := toString n

/-- `0x{n:x}`. -/
def hex (n : Nat) : String := "0x" ++ hexText n

/-- `flags & bit`, as a condition. -/
def hasFlag (flags bit : Nat) : Bool := flags &&& bit != 0

def formatSmc (rec : Record) : String :=
  let head := "seq=" ++ dec rec.seq ++ " t=" ++ dec rec.time ++ " p" ++ dec rec.producer ++
    " vcpu=" ++ dec rec.vcpu ++ " pc=" ++ hex rec.pc
  if rec.kind = kindSmcEnter then
    head ++ " SMC ENTER x0=" ++ hex rec.addr ++ " x1=" ++ hex rec.value ++ " esr=" ++ hex rec.esr
  else if rec.kind = kindSmcRegs then
    let n := rec.size
    let side := if hasFlag rec.flags smcRegsExit then "out" else "in"
    head ++ " SMC " ++ side ++ " x" ++ dec n ++ "=" ++ hex rec.addr ++ " x" ++ dec (n + 1) ++ "=" ++
      hex rec.value
  else if hasFlag rec.flags smcUnhandled then head ++ " SMC EXIT UNHANDLED"
  else
    let how := if hasFlag rec.flags smcForwarded then "HW" else "EMU"
    head ++ " SMC EXIT " ++ how ++ " x0=" ++ hex rec.addr ++ " x1=" ++ hex rec.value

def formatCmd (rec : Record) : String :=
  let how :=
    if hasFlag rec.flags cmdAccepted then "ACCEPTED"
    else if hasFlag rec.flags cmdRejectedVerb then "REJECTED_VERB"
    else if hasFlag rec.flags cmdRejectedArgs then "REJECTED_ARGS"
    else "flags=" ++ hex rec.flags
  let verb := (cmdVerbs.lookup rec.addr).getD ("verb" ++ dec rec.addr)
  let arg := if rec.pc ≠ 0 then " arg=" ++ hex rec.pc else ""
  "seq=" ++ dec rec.seq ++ " t=" ++ dec rec.time ++ " p" ++ dec rec.producer ++ " CMD id=" ++
    dec rec.value ++ " " ++ verb ++ arg ++ " " ++ how

def formatGuest (rec : Record) : String :=
  let event := (guestEvents.lookup rec.addr).getD ("event" ++ dec rec.addr)
  "seq=" ++ dec rec.seq ++ " t=" ++ dec rec.time ++ " p" ++ dec rec.producer ++ " vcpu=" ++
    dec rec.vcpu ++ " GUEST run=" ++ dec rec.value ++ " " ++ event ++ " pc=" ++ hex rec.pc

def formatRecord (rec : Record) : String :=
  if rec.kind = kindGuest then formatGuest rec
  else if rec.kind = kindCmd then formatCmd rec
  else if rec.kind ∈ [kindSmcEnter, kindSmcRegs, kindSmcExit] then formatSmc rec
  else
    let direction := if hasFlag rec.flags mmioWrite then "W" else "R"
    let howValue :=
      if hasFlag rec.flags mmioUnhandled then ("UNHANDLED", "-")
      else (if hasFlag rec.flags mmioForwarded then "HW" else "EMU", hex rec.value)
    "seq=" ++ dec rec.seq ++ " t=" ++ dec rec.time ++ " p" ++ dec rec.producer ++ " vcpu=" ++
      dec rec.vcpu ++ " pc=" ++ hex rec.pc ++ " addr=" ++ hex rec.addr ++ " size=" ++
      dec rec.size ++ " " ++ direction ++ " " ++ howValue.1 ++ " val=" ++ howValue.2 ++ " esr=" ++
      hex rec.esr

structure Console where
  txAddr : Option Nat
  line : List Char := []

namespace Console

/-- The console after a record, and the line of guest output that it ended. -/
def feed (console : Console) (rec : Record) : Console × Option (List Char) :=
  if console.txAddr = none ∨ rec.kind ≠ kindMmio then (console, none)
  else if console.txAddr ≠ some rec.addr ∨ ¬hasFlag rec.flags mmioWrite ∨
      hasFlag rec.flags mmioUnhandled then (console, none)
  else
    let c := Char.ofNat (rec.value % 256)
    if c = '\n' then ({ console with line := [] }, some console.line)
    else ({ console with line := console.line ++ [c] }, none)

end Console

end Decode
end TensorSel4
