/-
The console rings are lossless.

`Inv` relates the ring's counters to the history: `head` counts the published
bytes and `tail` the ones shown, up to the store that is still pending.  The
capacity is no power of two, so the counters must not wrap: the results are
about streams of fewer than 2^64 bytes.
-/
import TensorSel4.Console.Ring

namespace TensorSel4
namespace Console

open RingBuffer

/-- The byte that is not visible in the ring yet. -/
def PutPc.inFlight : PutPc → List UInt8
  | .idle | .notifyLine => []
  | .loadHead c | .checkFull c _ | .wait c _ | .notifyFull c _ | .store c _ | .storeHead c _ => [c]

namespace ConsoleState

def Holder (s : ConsoleState) : PutPc → Prop
  | .idle | .loadHead _ | .notifyLine => True
  | .checkFull _ head | .wait _ head | .notifyFull _ head => head = s.ring.head
  | .store _ head =>
    head = s.ring.head ∧ s.published.length < s.ring.tail.toNat + consoleRingCapacity
  | .storeHead c head =>
    head = s.ring.head ∧ s.published.length < s.ring.tail.toNat + consoleRingCapacity ∧
      s.ring.buf (s.published.length % consoleRingCapacity) = c

/-- What the tracer's locals say about the tail counter. -/
def Draining (s : ConsoleState) : DrainPc → Prop
  | .idle | .loadTail => s.ring.tail.toNat = s.shown.length
  | .loadHead tail => tail = s.ring.tail ∧ s.ring.tail.toNat = s.shown.length
  | .output tail =>
    tail = s.ring.tail ∧ s.ring.tail.toNat = s.shown.length ∧ s.shown.length < s.published.length
  | .storeTail tail => tail.toNat = s.shown.length ∧ s.shown.length = s.ring.tail.toNat + 1

structure Inv (s : ConsoleState) : Prop where
  order : s.published ++ s.put.inFlight = s.given
  holder : s.Holder s.put
  draining : s.Draining s.drain
  head : s.ring.head.toNat = s.published.length
  head_le : s.published.length ≤ s.ring.tail.toNat + consoleRingCapacity
  window : Window consoleRingCapacity s.ring.buf s.published s.ring.tail.toNat
  tail_le : s.ring.tail.toNat ≤ s.shown.length
  shown : s.shown <+: s.published

theorem inv_start : Inv {} where
  order := rfl
  holder := trivial
  draining := rfl
  head := rfl
  head_le := Nat.zero_le _
  window := Window.nil
  tail_le := Nat.le_refl _
  shown := List.prefix_rfl

variable {s : ConsoleState}

/-- The tracer's facts are about the counters and the two histories only. -/
theorem Draining.frame {t : ConsoleState} {pc : DrainPc} (h : s.Draining pc)
    (htail : t.ring.tail = s.ring.tail) (hshown : t.shown = s.shown)
    (hpublished : s.published.length ≤ t.published.length) : t.Draining pc := by
  cases pc with
  | idle | loadTail =>
    show t.ring.tail.toNat = t.shown.length
    rw [htail, hshown]
    exact h
  | loadHead tail =>
    show tail = t.ring.tail ∧ t.ring.tail.toNat = t.shown.length
    rw [htail, hshown]
    exact h
  | output tail =>
    show tail = t.ring.tail ∧ t.ring.tail.toNat = t.shown.length ∧ _ < _
    rw [htail, hshown]
    exact ⟨h.1, h.2.1, Nat.lt_of_lt_of_le h.2.2 hpublished⟩
  | storeTail tail =>
    show tail.toNat = t.shown.length ∧ t.shown.length = t.ring.tail.toNat + 1
    rw [htail, hshown]
    exact h

/-- The producer's facts survive when the tracer frees slots. -/
theorem Holder.frame {t : ConsoleState} {pc : PutPc} (h : s.Holder pc)
    (hhead : t.ring.head = s.ring.head) (hbuf : t.ring.buf = s.ring.buf)
    (hpublished : t.published = s.published) (htail : s.ring.tail.toNat ≤ t.ring.tail.toNat) :
    t.Holder pc := by
  cases pc with
  | idle | loadHead | notifyLine => trivial
  | checkFull c head | wait c head | notifyFull c head =>
    show head = t.ring.head
    rw [hhead]
    exact h
  | store c head =>
    obtain ⟨hh, hroom⟩ := h
    show head = t.ring.head ∧ t.published.length < _
    rw [hhead, hpublished]
    exact ⟨hh, by omega⟩
  | storeHead c head =>
    obtain ⟨hh, hroom, hslot⟩ := h
    show head = t.ring.head ∧ t.published.length < _ ∧ t.ring.buf (t.published.length % _) = c
    rw [hhead, hpublished, hbuf]
    exact ⟨hh, by omega, hslot⟩

/-- A step of the producer that leaves the ring alone. -/
theorem Inv.put_moves (h : Inv s) {pc : PutPc} (hflight : pc.inFlight = s.put.inFlight)
    (hpc : s.Holder pc) : Inv { s with put := pc } := by
  refine { h with order := ?_, holder := ?_, draining := ?_ }
  · show s.published ++ pc.inFlight = s.given
    rw [hflight]
    exact h.order
  · show Holder _ pc
    exact hpc.frame rfl rfl rfl (Nat.le_refl _)
  · exact h.draining.frame rfl rfl (Nat.le_refl _)

theorem room_of_not_full (h : Inv s) (hroom : ¬full s.ring.head s.ring.tail) :
    s.published.length < s.ring.tail.toNat + consoleRingCapacity := by
  have hshown := h.shown.length_le
  have htail := h.tail_le
  have hhead := h.head
  have hle : s.ring.tail.toNat ≤ s.ring.head.toNat := by omega
  rw [full, UInt64.not_le, UInt64.lt_iff_toNat_lt, toNat_sub hle] at hroom
  have hcap : (UInt64.ofNat consoleRingCapacity).toNat = consoleRingCapacity := rfl
  omega

theorem capacity_lt : consoleRingCapacity < 2 ^ 64 := by decide

theorem slot_head (h : Inv s) : slot s.ring.head = s.published.length % consoleRingCapacity := by
  rw [slot, h.head]

/-- Writing the byte to its slot, before `head` shows it. -/
theorem Inv.store_byte (h : Inv s) {c : UInt8} (hput : s.put = .store c s.ring.head) :
    Inv { s with
      ring := { s.ring with buf := Function.update s.ring.buf (slot s.ring.head) c }
      put := .storeHead c s.ring.head } := by
  have hroom : s.published.length < s.ring.tail.toNat + consoleRingCapacity := by
    have hh := h.holder
    rw [hput] at hh
    exact hh.2
  refine { h with order := ?_, holder := ?_, draining := ?_, window := ?_ }
  · have ho := h.order
    rw [hput] at ho
    exact ho
  · refine ⟨rfl, hroom, ?_⟩
    show Function.update s.ring.buf (slot s.ring.head) c (s.published.length % _) = c
    rw [slot_head h, Function.update_self]
  · exact h.draining.frame rfl rfl (Nat.le_refl _)
  · show Window _ (Function.update s.ring.buf (slot s.ring.head) c) s.published _
    rw [slot_head h]
    exact h.window.store hroom c

/-- The store to `head` shows the byte. -/
theorem Inv.store_head (h : Inv s) {c : UInt8} {pc : PutPc}
    (hput : s.put = .storeHead c s.ring.head) (hflight : pc.inFlight = [])
    (hpc : ∀ t : ConsoleState, t.Holder pc) (hlen : s.given.length < 2 ^ 64) :
    Inv { s with
      ring := { s.ring with head := s.ring.head + 1 }
      put := pc
      published := s.published ++ [c] } := by
  have hh := h.holder
  rw [hput] at hh
  obtain ⟨-, hroom, hslot⟩ := hh
  have ho := h.order
  rw [hput] at ho
  have hlt : s.published.length + 1 < 2 ^ 64 := by
    rw [← ho] at hlen
    simpa [PutPc.inFlight] using hlen
  have hhead := h.head
  refine ⟨?_, hpc _, ?_, ?_, ?_, ?_, h.tail_le, ?_⟩
  · show (s.published ++ [c]) ++ pc.inFlight = s.given
    rw [hflight, List.append_nil]
    exact ho
  · refine h.draining.frame rfl rfl ?_
    show s.published.length ≤ (s.published ++ [c]).length
    simp
  · show (s.ring.head + 1).toNat = (s.published ++ [c]).length
    rw [toNat_succ (by omega), hhead, List.length_append, List.length_singleton]
  · show (s.published ++ [c]).length ≤ _
    rw [List.length_append, List.length_singleton]
    exact hroom
  · show Window _ s.ring.buf (s.published ++ [c]) _
    rw [← hslot]
    exact h.window.push
  · exact h.shown.trans (List.prefix_append _ _)

/-- The producer's side of the invariant, operation by operation. -/
theorem Inv.producer_step (h : Inv s) (p : ConsoleProducer) (hlen : s.given.length < 2 ^ 64) :
    Inv { s with
      ring := (putStep p s.ring s.put).1
      put := (putStep p s.ring s.put).2
      published := s.published ++ s.put.publishes } := by
  have hh := h.holder
  cases hput : s.put with
  | idle | notifyLine =>
    simp only [putStep, PutPc.publishes, List.append_nil]
    exact h.put_moves (by simp only [hput, PutPc.inFlight]) trivial
  | loadHead c =>
    simp only [putStep, PutPc.publishes, List.append_nil]
    cases p with
    | vmm => exact h.put_moves (by rw [hput]; rfl) rfl
    | uartrx => exact h.put_moves (by rw [hput]; rfl) rfl
  | checkFull c head | notifyFull c head =>
    rw [hput] at hh
    simp only [putStep, PutPc.publishes, List.append_nil]
    exact h.put_moves (by rw [hput]; rfl) hh
  | wait c head =>
    rw [hput] at hh
    obtain rfl : head = s.ring.head := hh
    simp only [putStep, PutPc.publishes, List.append_nil]
    by_cases hfull : full s.ring.head s.ring.tail
    · rw [if_pos hfull]
      exact h.put_moves (by rw [hput]; rfl) rfl
    · rw [if_neg hfull]
      exact h.put_moves (by rw [hput]; rfl) ⟨rfl, room_of_not_full h hfull⟩
  | store c head =>
    rw [hput] at hh
    obtain ⟨rfl, -⟩ := hh
    simp only [putStep, PutPc.publishes, List.append_nil]
    exact h.store_byte hput
  | storeHead c head =>
    rw [hput] at hh
    obtain ⟨rfl, -⟩ := hh
    simp only [putStep, PutPc.publishes]
    by_cases hline : p = .vmm ∧ c = 0x0a
    · rw [if_pos hline]
      exact h.store_head hput rfl (fun _ => trivial) hlen
    · rw [if_neg hline]
      exact h.store_head hput rfl (fun _ => trivial) hlen

/-- A step of the tracer that only moves its locals. -/
theorem Inv.drain_moves (h : Inv s) {pc : DrainPc} (hpc : s.Draining pc) :
    Inv { s with drain := pc } := by
  refine { h with holder := ?_, draining := ?_ }
  · exact h.holder.frame rfl rfl rfl (Nat.le_refl _)
  · show Draining _ pc
    exact hpc.frame rfl rfl (Nat.le_refl _)

/-- The byte the tracer outputs is the next one of the stream. -/
theorem Inv.output_byte (h : Inv s) (hdrain : s.drain = .output s.ring.tail) :
    Inv { s with
      drain := .storeTail (s.ring.tail + 1)
      shown := s.shown ++ [s.ring.buf (slot s.ring.tail)] } := by
  have hd := h.draining
  rw [hdrain] at hd
  obtain ⟨-, htail, hlt⟩ := hd
  have hpub : s.published.length < 2 ^ 64 := by
    rw [← h.head]
    exact s.ring.head.toNat_lt
  have hbyte : s.published[s.shown.length]? = some (s.ring.buf (slot s.ring.tail)) := by
    rw [slot, htail]
    exact h.window _ (Nat.le_of_eq htail) hlt
  refine { h with holder := ?_, draining := ?_, tail_le := ?_, shown := ?_ }
  · exact h.holder.frame rfl rfl rfl (Nat.le_refl _)
  · show (s.ring.tail + 1).toNat = (s.shown ++ [_]).length ∧ (s.shown ++ [_]).length = _
    rw [toNat_succ (by omega), htail, List.length_append, List.length_singleton]
    exact ⟨rfl, rfl⟩
  · show s.ring.tail.toNat ≤ (s.shown ++ [_]).length
    rw [List.length_append, List.length_singleton]
    have hle := h.tail_le
    omega
  · exact prefix_next h.shown hbyte

/-- The store to `tail` frees the slot. -/
theorem Inv.store_tail (h : Inv s) {tail : UInt64} (hdrain : s.drain = .storeTail tail) :
    Inv { s with ring := { s.ring with tail := tail }, drain := .loadHead tail } := by
  have hd := h.draining
  rw [hdrain] at hd
  obtain ⟨htail, hlen⟩ := hd
  have hle : s.ring.tail.toNat ≤ tail.toNat := by omega
  refine ⟨h.order, ?_, ⟨rfl, htail⟩, h.head, ?_, h.window.advance hle, ?_, h.shown⟩
  · exact h.holder.frame rfl rfl rfl hle
  · show s.published.length ≤ tail.toNat + consoleRingCapacity
    have hold := h.head_le
    omega
  · show tail.toNat ≤ s.shown.length
    omega

theorem Inv.tracer_step (h : Inv s) :
    Inv { s with
      ring := (drainStep s.ring s.drain).1
      drain := (drainStep s.ring s.drain).2
      shown := s.shown ++ s.drain.outputs s.ring } := by
  have hd := h.draining
  cases hdrain : s.drain with
  | idle =>
    rw [hdrain] at hd
    simp only [drainStep, DrainPc.outputs, List.append_nil]
    exact h.drain_moves hd
  | loadTail =>
    rw [hdrain] at hd
    simp only [drainStep, DrainPc.outputs, List.append_nil]
    exact h.drain_moves ⟨rfl, hd⟩
  | loadHead tail =>
    rw [hdrain] at hd
    obtain ⟨rfl, htail⟩ := hd
    simp only [drainStep, DrainPc.outputs, List.append_nil]
    by_cases hempty : s.ring.tail = s.ring.head
    · rw [if_pos hempty]
      exact h.drain_moves htail
    · rw [if_neg hempty]
      have hne : s.ring.tail.toNat ≠ s.ring.head.toNat := fun he =>
        hempty (UInt64.toNat_inj.mp he)
      have hhead := h.head
      have hle := h.shown.length_le
      exact h.drain_moves ⟨rfl, htail, by omega⟩
  | output tail =>
    rw [hdrain] at hd
    obtain ⟨rfl, -⟩ := hd
    simp only [drainStep, DrainPc.outputs]
    exact h.output_byte hdrain
  | storeTail tail =>
    simp only [drainStep, DrainPc.outputs, List.append_nil]
    exact h.store_tail hdrain

/-- A call hands the producer its next byte. -/
theorem Inv.call (h : Inv s) (c : UInt8) (hput : s.put = .idle) :
    Inv { s with put := .loadHead c, given := s.given ++ [c] } := by
  have ho := h.order
  rw [hput] at ho
  have hgiven : s.published = s.given := by simpa [PutPc.inFlight] using ho
  refine { h with order := ?_, holder := trivial, draining := ?_ }
  · show s.published ++ [c] = s.given ++ [c]
    rw [hgiven]
  · exact h.draining.frame rfl rfl (Nat.le_refl _)

theorem Inv.step {p : ConsoleProducer} {a : Act} {t : ConsoleState} (h : Inv s)
    (hlen : t.given.length < 2 ^ 64) (ht : s.step p a = some t) : Inv t := by
  cases a with
  | call c =>
    rw [ConsoleState.step] at ht
    split at ht
    · rename_i hput
      obtain rfl := Option.some.inj ht
      exact h.call c hput
    · cases ht
  | producer =>
    rw [ConsoleState.step] at ht
    split at ht
    · cases ht
    · obtain rfl := Option.some.inj ht
      exact h.producer_step p hlen
  | drainConsole =>
    rw [ConsoleState.step] at ht
    split at ht
    · rename_i hdrain
      obtain rfl := Option.some.inj ht
      have hd := h.draining
      rw [hdrain] at hd
      exact h.drain_moves hd
    · cases ht
  | tracer =>
    rw [ConsoleState.step] at ht
    split at ht
    · cases ht
    · obtain rfl := Option.some.inj ht
      exact h.tracer_step

theorem given_le {p : ConsoleProducer} {a : Act} {t : ConsoleState}
    (ht : s.step p a = some t) : s.given.length ≤ t.given.length := by
  cases a with
  | call c | producer | drainConsole | tracer =>
    rw [ConsoleState.step] at ht
    split at ht
    all_goals cases ht
    all_goals simp

theorem inv_of_reachable {p : ConsoleProducer} (hs : (console p).Reachable s)
    (hlen : s.given.length < 2 ^ 64) : Inv s := by
  refine Automaton.reachable_induction_guarded (G := fun s => s.given.length < 2 ^ 64)
    ?_ inv_start ?_ hs hlen
  · intro s a t ht hG
    exact Nat.lt_of_le_of_lt (given_le ht) hG
  · intro s a t hI hG ht
    exact hI.step hG ht

/-- Both console rings are lossless queues: at most a ring of bytes is
outstanding, each outstanding byte is in its slot, and what the tracer has
output is a prefix of what was put.  When the ring is empty only the byte of an
unfinished call is missing from the output. -/
theorem ring_lossless {p : ConsoleProducer} (hs : (console p).Reachable s)
    (hlen : s.given.length < 2 ^ 64) :
    (s.ring.head - s.ring.tail).toNat ≤ consoleRingCapacity ∧
      Window consoleRingCapacity s.ring.buf s.published s.ring.tail.toNat ∧
      s.published ++ s.put.inFlight = s.given ∧
      s.shown <+: s.given ∧
      (s.ring.head = s.ring.tail → s.shown ++ s.put.inFlight = s.given) := by
  have h := inv_of_reachable hs hlen
  have hhead := h.head
  have hle := h.head_le
  have htail := h.tail_le
  have hshown := h.shown.length_le
  refine ⟨?_, h.window, h.order, ?_, ?_⟩
  · rw [toNat_sub (by omega)]
    omega
  · exact h.shown.trans ⟨s.put.inFlight, h.order⟩
  · intro hempty
    rw [hempty] at hhead
    have heq : s.shown = s.published := h.shown.eq_of_length (by omega)
    rw [heq]
    exact h.order

/-- A line of one byte, put by the VMM and drained while the next byte is put. -/
def lineThenByte : List Act :=
  .call 0x0a :: List.replicate 6 .producer ++ .drainConsole :: .tracer ::
    .call 0x41 :: List.replicate 3 .producer ++ List.replicate 4 .tracer

def afterLineThenByte : ConsoleState := ((console .vmm).run (console .vmm).start lineThenByte).getD {}

theorem ring_lossless_lineThenByte :
    afterLineThenByte.shown = [0x0a] ∧ afterLineThenByte.shown <+: afterLineThenByte.given :=
  ⟨rfl, (ring_lossless (p := .vmm) ⟨lineThenByte, rfl⟩ (by decide)).2.2.2.1⟩

end ConsoleState
end Console
end TensorSel4
