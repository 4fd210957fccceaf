/-
Lines in a console ring.

The VMM notifies the tracer of its console's newlines only.  `HoldsLine` is about
the bytes between the two counters, whatever their values, and `owesLine` says
that the producer has a newline in hand, or its notification.
-/
import TensorSel4.Console.Ring
import TensorSel4.RingBuffer.Span

namespace TensorSel4
namespace Console

open RingBuffer

def HoldsLine (ring : ConsoleRing) : Prop :=
  ∃ k, k < span ring.tail ring.head ∧ ring.buf (slot (ring.tail + UInt64.ofNat k)) = 0x0a

theorem not_holdsLine_of_empty {ring : ConsoleRing} (h : ring.head = ring.tail) :
    ¬HoldsLine ring := by
  rintro ⟨k, hk, -⟩
  rw [h, span_self] at hk
  omega

namespace PutPc

/-- What the producer's locals say about the ring. -/
def Agrees (ring : ConsoleRing) : PutPc → Prop
  | .checkFull _ head | .wait _ head | .notifyFull _ head | .store _ head => head = ring.head
  | .storeHead c head => head = ring.head ∧ ring.buf (slot head) = c
  | _ => True

/-- The producer is to notify the tracer of a line. -/
def owesLine : PutPc → Prop
  | .idle => False
  | .notifyLine => True
  | .loadHead c | .checkFull c _ | .wait c _ | .notifyFull c _ | .store c _ | .storeHead c _ =>
    c = 0x0a

theorem Agrees.frame {ring ring' : ConsoleRing} {pc : PutPc} (h : Agrees ring pc)
    (hhead : ring'.head = ring.head) (hbuf : ring'.buf = ring.buf) : Agrees ring' pc := by
  cases pc with
  | idle | loadHead | notifyLine => trivial
  | checkFull | wait | notifyFull | store => exact Eq.trans h hhead.symm
  | storeHead c head =>
    obtain ⟨hh, hc⟩ := h
    exact ⟨hh.trans hhead.symm, by rw [hbuf, hc]⟩

theorem Agrees.putStep {ring : ConsoleRing} {pc : PutPc} {p : ConsoleProducer}
    (h : Agrees ring pc) : (Console.putStep p ring pc).2.Agrees (Console.putStep p ring pc).1 := by
  cases pc with
  | idle | notifyLine => trivial
  | loadHead c => cases p <;> exact rfl
  | checkFull | notifyFull => exact h
  | wait c head =>
    unfold Console.putStep
    dsimp only
    split <;> exact h
  | store c head => exact ⟨h, Function.update_self _ _ _⟩
  | storeHead c head =>
    unfold Console.putStep
    dsimp only
    split <;> trivial

end PutPc

/-- What the tracer's locals say about the ring. -/
def DrainPc.Agrees (ring : ConsoleRing) : DrainPc → Prop
  | .loadHead tail | .output tail => tail = ring.tail
  | _ => True

theorem DrainPc.Agrees.frame {ring ring' : ConsoleRing} {pc : DrainPc} (h : pc.Agrees ring)
    (htail : ring'.tail = ring.tail) : pc.Agrees ring' := by
  cases pc with
  | idle | loadTail | storeTail => trivial
  | loadHead | output => exact Eq.trans h htail.symm

/-- Storing a byte that is no newline adds no line. -/
theorem HoldsLine.of_store {ring : ConsoleRing} {c : UInt8} {head : UInt64} (hc : c ≠ 0x0a)
    (h : HoldsLine { ring with buf := Function.update ring.buf (slot head) c }) :
    HoldsLine ring := by
  obtain ⟨k, hk, hline⟩ := h
  refine ⟨k, hk, ?_⟩
  have hline : Function.update ring.buf (slot head) c (slot (ring.tail + UInt64.ofNat k)) = 0x0a :=
    hline
  have hslot : slot (ring.tail + UInt64.ofNat k) ≠ slot head := by
    intro he
    rw [he, Function.update_self] at hline
    exact hc hline
  rw [Function.update_of_ne hslot] at hline
  exact hline

/-- Showing a byte that is no newline adds no line. -/
theorem HoldsLine.of_storeHead {ring : ConsoleRing} (hc : ring.buf (slot ring.head) ≠ 0x0a)
    (h : HoldsLine { ring with head := ring.head + 1 }) : HoldsLine ring := by
  obtain ⟨k, hk, hline⟩ := h
  have hlt : k < span ring.tail (ring.head + 1) := hk
  have hbound := span_lt ring.tail ring.head
  rcases Nat.lt_or_ge (span ring.tail ring.head + 1) (2 ^ 64) with hfew | hwrap
  · rw [span_succ hfew] at hlt
    rcases Nat.lt_or_eq_of_le (Nat.le_of_lt_succ hlt) with hk' | rfl
    · exact ⟨k, hk', hline⟩
    · rw [add_span] at hline
      exact absurd hline hc
  · have hlast : span ring.tail ring.head = 2 ^ 64 - 1 := by omega
    have hempty : ring.head + 1 = ring.tail := by
      have hhead : ring.tail + UInt64.ofNat (2 ^ 64 - 1) = ring.head := by
        rw [← hlast, add_span]
      rw [← hhead, add_assoc]
      exact add_zero _
    rw [hempty, span_self] at hlt
    omega

namespace ConsoleState

variable {p : ConsoleProducer} {s t : ConsoleState}

structure Coherent (s : ConsoleState) : Prop where
  put : s.put.Agrees s.ring
  drain : s.drain.Agrees s.ring

theorem coherent_start : Coherent {} := ⟨trivial, trivial⟩

theorem producer_eq (hs : s.step p .producer = some t) :
    t.ring = (putStep p s.ring s.put).1 ∧ t.put = (putStep p s.ring s.put).2 ∧
      t.drain = s.drain := by
  simp only [step, Option.ite_none_left_eq_some, Option.some.injEq] at hs
  obtain ⟨-, rfl⟩ := hs
  exact ⟨rfl, rfl, rfl⟩

theorem tracer_eq (hs : s.step p .tracer = some t) :
    t.ring = (Console.drainStep s.ring s.drain).1 ∧
      t.drain = (Console.drainStep s.ring s.drain).2 ∧ t.put = s.put := by
  simp only [step, Option.ite_none_left_eq_some, Option.some.injEq] at hs
  obtain ⟨-, rfl⟩ := hs
  exact ⟨rfl, rfl, rfl⟩

theorem call_eq {c : UInt8} (hs : s.step p (.call c) = some t) :
    t.ring = s.ring ∧ t.put = .loadHead c ∧ t.drain = s.drain := by
  simp only [step, Option.ite_none_right_eq_some, Option.some.injEq] at hs
  obtain ⟨-, rfl⟩ := hs
  exact ⟨rfl, rfl, rfl⟩

theorem drainConsole_eq (hs : s.step p .drainConsole = some t) :
    t.ring = s.ring ∧ t.put = s.put ∧ t.drain = .loadTail := by
  simp only [step, Option.ite_none_right_eq_some, Option.some.injEq] at hs
  obtain ⟨-, rfl⟩ := hs
  exact ⟨rfl, rfl, rfl⟩

theorem Coherent.producer (h : Coherent s) (hs : s.step p .producer = some t) : Coherent t := by
  obtain ⟨hring, hput, hdrain⟩ := producer_eq hs
  refine ⟨?_, ?_⟩
  · rw [hring, hput]
    exact h.put.putStep
  · rw [hring, hdrain]
    exact h.drain.frame (by cases s.put <;> rfl)

/-- A line in the ring was there before, or the tracer will be notified of it. -/
theorem Coherent.producer_line (h : Coherent s) (hs : s.step p .producer = some t)
    (hline : HoldsLine t.ring) : HoldsLine s.ring ∨ s.put.owesLine := by
  obtain ⟨hring, -, -⟩ := producer_eq hs
  have hp := h.put
  cases hpc : s.put <;> rw [hpc] at hring hp <;> rw [hring] at hline
  case store c head =>
    by_cases hc : c = 0x0a
    · exact Or.inr hc
    · exact Or.inl (hline.of_store hc)
  case storeHead c head =>
    obtain ⟨rfl, hbyte⟩ := hp
    by_cases hc : c = 0x0a
    · exact Or.inr hc
    · rw [← hbyte] at hc
      exact Or.inl (hline.of_storeHead hc)
  all_goals exact Or.inl hline

/-- The VMM does not forget a line before it notifies the tracer. -/
theorem owesLine_producer (hs : s.step .vmm .producer = some t) (howes : s.put.owesLine) :
    t.put.owesLine ∨ s.put = .notifyLine := by
  obtain ⟨-, hput, -⟩ := producer_eq hs
  rw [hput]
  cases hpc : s.put <;> rw [hpc] at howes
  case idle => exact howes.elim
  case notifyLine => exact Or.inr rfl
  case wait c head =>
    unfold putStep
    dsimp only
    split <;> exact Or.inl howes
  case storeHead c head =>
    obtain rfl : c = 0x0a := howes
    exact Or.inl trivial
  all_goals exact Or.inl howes

theorem Coherent.tracer (h : Coherent s) (hs : s.step p .tracer = some t) : Coherent t := by
  obtain ⟨hring, hdrain, hput⟩ := tracer_eq hs
  have hd := h.drain
  refine ⟨?_, ?_⟩
  · rw [hring, hput]
    exact h.put.frame (by cases s.drain <;> rfl) (by cases s.drain <;> rfl)
  · rw [hring, hdrain]
    cases hpc : s.drain <;> rw [hpc] at hd
    case loadHead tail =>
      unfold Console.drainStep
      dsimp only
      split
      · trivial
      · exact hd
    all_goals trivial

theorem Coherent.step {a : Act} (h : Coherent s) (hs : s.step p a = some t) : Coherent t := by
  cases a with
  | call c =>
    obtain ⟨hring, hput, hdrain⟩ := call_eq hs
    refine ⟨?_, ?_⟩
    · rw [hput]
      trivial
    · rw [hring, hdrain]
      exact h.drain
  | producer => exact h.producer hs
  | drainConsole =>
    obtain ⟨hring, hput, hdrain⟩ := drainConsole_eq hs
    refine ⟨?_, ?_⟩
    · rw [hring, hput]
      exact h.put
    · rw [hdrain]
      trivial
  | tracer => exact h.tracer hs

/-- The tracer leaves `drain_console` when it finds the ring empty. -/
theorem Coherent.drained (h : Coherent s) (hs : s.step p .tracer = some t)
    (hidle : t.drain = .idle) : t.ring.head = t.ring.tail := by
  obtain ⟨hring, hdrain, -⟩ := tracer_eq hs
  have hd := h.drain
  rw [hdrain] at hidle
  rw [hring]
  cases hpc : s.drain <;> rw [hpc] at hidle hd
  case idle =>
    simp [ConsoleState.step, hpc] at hs
  case loadHead tail =>
    obtain rfl : tail = s.ring.tail := hd
    unfold Console.drainStep at hidle
    dsimp only at hidle
    split at hidle
    · next he => exact he.symm
    · cases hidle
  all_goals cases hidle

end ConsoleState
end Console
end TensorSel4
