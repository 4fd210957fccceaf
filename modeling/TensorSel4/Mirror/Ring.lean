/-
The fbcon ring between the tracer and fbcon.

`mirror_putc` and `mirror_notify` (`tracer/tracer.c`) write it and signal it,
`notified` (`fbcon/fbcon.c`) reads it.  Every operation on the shared memory is
one step, and so is every notification.  fbcon stores `tail` only when it has
caught up, and the tracer stores `head` only at the end of `mirror_putc`.

`screen` is `none` when `init` found no framebuffer that it can draw to.
-/
import TensorSel4.Bytes.Decimal
import TensorSel4.Console.Ring
import TensorSel4.Fbcon.Grid
import TensorSel4.RingBuffer.Span
import TensorSel4.Uartrx.Args

namespace TensorSel4
namespace Mirror

open Bytes Console Fbcon Uartrx

def hasRoom (head tail bytes : UInt64) : Prop :=
  head - tail + bytes ≤ UInt64.ofNat consoleRingCapacity

instance (head tail bytes : UInt64) : Decidable (hasRoom head tail bytes) :=
  inferInstanceAs (Decidable (_ ≤ _))

/-- What `mirror_report_dropped` stores. -/
def reportDropped (dropped : UInt64) : List UInt8 :=
  ascii "\n[fbcon dropped " ++ decimal dropped ++ ascii " bytes]\n"

/-- Where the tracer is in `mirror_putc`, with the locals it still needs. -/
inductive PutPc
  | idle
  | loadHead (c : UInt8)
  /-- About to load `tail`, with bytes that were dropped. -/
  | checkReport (c : UInt8) (head : UInt64)
  | report (c : UInt8) (head : UInt64) (text : List UInt8)
  /-- About to load `tail`, with no bytes to report. -/
  | checkRoom (c : UInt8) (head : UInt64)
  | drop (head : UInt64)
  | store (c : UInt8) (head : UInt64)
  | storeHead (c : UInt8) (head : UInt64)
  /-- About to notify fbcon of a line. -/
  | notify

/-- Where fbcon is. -/
inductive FbconPc
  | waiting
  | loadTail
  | loadHead (tail : UInt64) (any : Bool)
  | put (tail : UInt64)
  | storeTail (tail : UInt64) (any : Bool)
  | render

structure MirrorState where
  ring : ConsoleRing := {}
  put : PutPc := .idle
  /-- `mirror_dropped`. -/
  dropped : UInt64 := 0
  /-- `mirror_pending`. -/
  pending : Bool := false
  /-- fbcon's pending notification. -/
  signal : Bool := false
  fbcon : FbconPc := .waiting
  screen : Option Screen := none

inductive Act
  /-- The tracer calls `mirror_putc`. -/
  | putc (c : UInt8)
  /-- Its next operation in `mirror_putc`. -/
  | tracer
  | mirrorNotify
  /-- fbcon receives its notification. -/
  | notified
  | fbcon

namespace MirrorState

def setByte (s : MirrorState) (pos : UInt64) (c : UInt8) : MirrorState :=
  { s with ring := { s.ring with buf := Function.update s.ring.buf (slot pos) c } }

def setHead (s : MirrorState) (head : UInt64) : MirrorState :=
  { s with ring := { s.ring with head := head } }

def setTail (s : MirrorState) (tail : UInt64) : MirrorState :=
  { s with ring := { s.ring with tail := tail } }

def call (s : MirrorState) (c : UInt8) : MirrorState := { s with put := .loadHead c }

/-- The next operation of `mirror_putc`. -/
def putStep (s : MirrorState) : MirrorState :=
  match s.put with
  | .idle => s
  | .loadHead c =>
    { s with put := if s.dropped = 0 then .checkRoom c s.ring.head else .checkReport c s.ring.head }
  | .checkReport c head =>
    if hasRoom head s.ring.tail 64 then
      { s with put := .report c head (reportDropped s.dropped), dropped := 0 }
    else { s with put := .drop head }
  | .report c head [] => { s with put := .checkRoom c head }
  | .report c head (b :: text) => { s.setByte head b with put := .report c (head + 1) text }
  | .checkRoom c head =>
    { s with put := if hasRoom head s.ring.tail 1 then .store c head else .drop head }
  | .drop head => { s.setHead head with put := .idle, dropped := s.dropped + 1 }
  | .store c head => { s.setByte head c with put := .storeHead c (head + 1) }
  | .storeHead c head =>
    { s.setHead head with
      put := if c = 0x0a then .notify else .idle
      pending := decide (c ≠ 0x0a) }
  | .notify => { s with put := .idle, signal := true }

def mirrorNotify (s : MirrorState) : MirrorState :=
  if s.pending then { s with pending := false, signal := true } else s

/-- fbcon's next operation in `notified`. -/
def fbconStep (s : MirrorState) : MirrorState :=
  match s.fbcon with
  | .waiting => s
  | .loadTail => { s with fbcon := .loadHead s.ring.tail false }
  | .loadHead tail any =>
    { s with fbcon := if tail = s.ring.head then .storeTail tail any else .put tail }
  | .put tail =>
    { s with
      screen := s.screen.map fun screen => screen.put (s.ring.buf (slot tail))
      fbcon := .loadHead (tail + 1) true }
  | .storeTail tail any =>
    { s.setTail tail with fbcon := if any ∧ s.screen.isSome then .render else .waiting }
  | .render => { s with screen := s.screen.map Screen.render, fbcon := .waiting }

def step (s : MirrorState) : Act → Option MirrorState
  | .putc c =>
    match s.put with
    | .idle => some (s.call c)
    | _ => none
  | .tracer =>
    match s.put with
    | .idle => none
    | _ => some s.putStep
  | .mirrorNotify =>
    match s.put with
    | .idle => some s.mirrorNotify
    | _ => none
  | .notified =>
    match s.fbcon, s.signal with
    | .waiting, true => some { s with fbcon := .loadTail, signal := false }
    | _, _ => none
  | .fbcon =>
    match s.fbcon with
    | .waiting => none
    | _ => some s.fbconStep

end MirrorState

/-- All interleavings, from the zeroed memory of boot and the screen that fbcon's
`init` leaves. -/
def mirror (screen : Option Screen) : Automaton MirrorState Act where
  start := { screen := screen }
  step := MirrorState.step

end Mirror
end TensorSel4
