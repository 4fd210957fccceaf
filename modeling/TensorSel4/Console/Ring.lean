/-
A console ring between its one producer and the tracer.

`_sddf_putchar` (`vmm/console_putchar.c`) and `console_putc`
(`uartrx/uartrx.c`) write it, `drain_console` (`tracer/tracer.c`) reads it.
Every operation on the shared memory is one step.  The notifications are steps
too, which change nothing here.

`given`, `published` and `shown` are history: the bytes handed to the producer's
function, those made visible by a store to `head`, and those the tracer has
output.
-/
import TensorSel4.Automaton.Run
import TensorSel4.RingBuffer.Window

namespace TensorSel4
namespace Console

def consoleRingSize : Nat := 0x4000
def consoleRingCapacity : Nat := consoleRingSize - 2 * 8

/-- `struct console_ring`. -/
structure ConsoleRing where
  head : UInt64 := 0
  tail : UInt64 := 0
  buf : Nat → UInt8 := fun _ => 0

inductive ConsoleProducer
  | vmm
  | uartrx
  deriving DecidableEq

/-- Where the producer is, with the locals it still needs. -/
inductive PutPc
  | idle
  | loadHead (c : UInt8)
  /-- The VMM's test for `breadcrumb_console_wait`: about to load `tail`. -/
  | checkFull (c : UInt8) (head : UInt64)
  /-- The loop's test: about to load `tail`. -/
  | wait (c : UInt8) (head : UInt64)
  /-- About to notify the tracer in the loop. -/
  | notifyFull (c : UInt8) (head : UInt64)
  | store (c : UInt8) (head : UInt64)
  | storeHead (c : UInt8) (head : UInt64)
  /-- About to notify the tracer of a line. -/
  | notifyLine
  deriving DecidableEq

/-- Where `drain_console` is. -/
inductive DrainPc
  | idle
  | loadTail
  | loadHead (tail : UInt64)
  | output (tail : UInt64)
  | storeTail (tail : UInt64)
  deriving DecidableEq

def full (head tail : UInt64) : Prop := UInt64.ofNat consoleRingCapacity ≤ head - tail

instance (head tail : UInt64) : Decidable (full head tail) := inferInstanceAs (Decidable (_ ≤ _))

def slot (pos : UInt64) : Nat := pos.toNat % consoleRingCapacity

/-- The producer's next operation. -/
def putStep (p : ConsoleProducer) (ring : ConsoleRing) : PutPc → ConsoleRing × PutPc
  | .idle => (ring, .idle)
  | .loadHead c =>
    (ring, match p with
      | .vmm => .checkFull c ring.head
      | .uartrx => .wait c ring.head)
  | .checkFull c head => (ring, .wait c head)
  | .wait c head => (ring, if full head ring.tail then .notifyFull c head else .store c head)
  | .notifyFull c head => (ring, .wait c head)
  | .store c head => ({ ring with buf := Function.update ring.buf (slot head) c }, .storeHead c head)
  | .storeHead c head =>
    ({ ring with head := head + 1 }, if p = .vmm ∧ c = 0x0a then .notifyLine else .idle)
  | .notifyLine => (ring, .idle)

/-- The next operation of `drain_console`. -/
def drainStep (ring : ConsoleRing) : DrainPc → ConsoleRing × DrainPc
  | .idle => (ring, .idle)
  | .loadTail => (ring, .loadHead ring.tail)
  | .loadHead tail => (ring, if tail = ring.head then .idle else .output tail)
  | .output tail => (ring, .storeTail (tail + 1))
  | .storeTail tail => ({ ring with tail := tail }, .loadHead tail)

structure ConsoleState where
  ring : ConsoleRing := {}
  put : PutPc := .idle
  drain : DrainPc := .idle
  given : List UInt8 := []
  published : List UInt8 := []
  shown : List UInt8 := []

inductive Act
  /-- The producer is called with a byte. -/
  | call (c : UInt8)
  /-- Its next operation. -/
  | producer
  /-- The tracer begins `drain_console`. -/
  | drainConsole
  | tracer

/-- The bytes that a step of the producer makes visible. -/
def PutPc.publishes : PutPc → List UInt8
  | .storeHead c _ => [c]
  | _ => []

/-- The bytes that a step of the tracer outputs. -/
def DrainPc.outputs (ring : ConsoleRing) : DrainPc → List UInt8
  | .output tail => [ring.buf (slot tail)]
  | _ => []

namespace ConsoleState

def step (p : ConsoleProducer) (s : ConsoleState) : Act → Option ConsoleState
  | .call c =>
    if s.put = .idle then some { s with put := .loadHead c, given := s.given ++ [c] } else none
  | .producer =>
    if s.put = .idle then none
    else some { s with
      ring := (putStep p s.ring s.put).1, put := (putStep p s.ring s.put).2,
      published := s.published ++ s.put.publishes }
  | .drainConsole => if s.drain = .idle then some { s with drain := .loadTail } else none
  | .tracer =>
    if s.drain = .idle then none
    else some { s with
      ring := (drainStep s.ring s.drain).1, drain := (drainStep s.ring s.drain).2,
      shown := s.shown ++ s.drain.outputs s.ring }

end ConsoleState

/-- All interleavings, from the zeroed memory of boot. -/
def console (p : ConsoleProducer) : Automaton ConsoleState Act where
  start := {}
  step := ConsoleState.step p

end Console
end TensorSel4
