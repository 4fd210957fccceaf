/-
The inductive invariant of the trace pipeline.

`Inv` relates the ring's counters to the history: `head` counts the published
records, `tail` the drained ones up to the store that is still pending, and
`nextSeq` the published ones plus the one whose number is already taken.
`Holder` is the part of the invariant that depends on where the lock holder is.
Only the lock holder has a nontrivial `Holder`, so a step of one producer never
disturbs the other's.
-/
import TensorSel4.Trace.Pipeline

namespace TensorSel4
namespace Trace

open RingBuffer

namespace EmitPc

/-- Between a successful exchange of the lock word and its release. -/
def inside : EmitPc → Prop
  | .idle | .exchange _ | .spin _ => False
  | _ => True

/-- The record handed to `trace_emit` that is not visible in the ring yet. -/
def inFlight : EmitPc → List TraceRecord
  | .idle | .unlock => []
  | .exchange rec | .spin rec | .loadHead rec => [rec]
  | .waitForSpace rec _ | .fetchSeq rec _ | .readTime rec _ => [rec]
  | .storeSlot rec _ | .storeHead rec _ => [rec]

end EmitPc

namespace Pipeline

/-- A record with its number, time and producer filled in, about to be
published. -/
structure Stamped (s : Pipeline) (p : Producer) (rec : TraceRecord) (head : UInt64) : Prop where
  head_eq : head = s.ring.head
  next : s.ring.nextSeq = UInt64.ofNat (s.published.length + 1)
  room : s.published.length < s.ring.tail.toNat + ringCapacity
  seq : rec.seq = UInt64.ofNat s.published.length
  producer : rec.producer = p.id
  past : rec.time ≤ s.cntpct
  after : ∀ r ∈ s.published, r.time ≤ rec.time

def Holder (s : Pipeline) (p : Producer) : EmitPc → Prop
  | .idle | .exchange _ | .spin _ => True
  | .loadHead _ | .unlock => s.ring.nextSeq = UInt64.ofNat s.published.length
  | .waitForSpace _ head =>
    head = s.ring.head ∧ s.ring.nextSeq = UInt64.ofNat s.published.length
  | .fetchSeq _ head =>
    head = s.ring.head ∧ s.ring.nextSeq = UInt64.ofNat s.published.length ∧
      s.published.length < s.ring.tail.toNat + ringCapacity
  | .readTime rec head =>
    head = s.ring.head ∧ s.ring.nextSeq = UInt64.ofNat (s.published.length + 1) ∧
      s.published.length < s.ring.tail.toNat + ringCapacity ∧
      rec.seq = UInt64.ofNat s.published.length
  | .storeSlot rec head => Stamped s p rec head
  | .storeHead rec head =>
    Stamped s p rec head ∧ s.ring.records (s.published.length % ringCapacity) = rec

/-- What the tracer's locals say about the tail counter. -/
def Draining (s : Pipeline) : TracerPc → Prop
  | .loadHead tail => tail = s.ring.tail ∧ s.ring.tail.toNat = s.drained
  | .archiveRecord tail =>
    tail = s.ring.tail ∧ s.ring.tail.toNat = s.drained ∧ s.drained < s.published.length
  | .storeTail tail => tail.toNat = s.drained ∧ s.drained = s.ring.tail.toNat + 1
  | _ => s.ring.tail.toNat = s.drained

/-- The records of one producer, as it submitted them. -/
def payloads (p : Producer) (records : List TraceRecord) : List TraceRecord :=
  (records.filter fun r => r.producer = p.id).map TraceRecord.payload

structure Inv (s : Pipeline) : Prop where
  locked : ∀ p, (s.emit p).inside → s.ring.producerLock ≠ 0
  exclusive : ∀ p q, (s.emit p).inside → (s.emit q).inside → p = q
  holder : ∀ p, s.Holder p (s.emit p)
  quiet : (∀ p, ¬(s.emit p).inside) → s.ring.nextSeq = UInt64.ofNat s.published.length
  head : s.ring.head.toNat = s.published.length
  head_le : s.published.length ≤ s.ring.tail.toNat + ringCapacity
  window : Window ringCapacity s.ring.records s.published s.ring.tail.toNat
  seq : ∀ k r, s.published[k]? = some r → r.seq = UInt64.ofNat k
  producer : ∀ r ∈ s.published, ∃ p : Producer, r.producer = p.id
  time : s.published.Pairwise fun a b => a.time ≤ b.time
  past : ∀ r ∈ s.published, r.time ≤ s.cntpct
  order : ∀ p, payloads p s.published ++ (s.emit p).inFlight.map TraceRecord.payload =
    (s.submitted p).map TraceRecord.payload
  tail_le : s.ring.tail.toNat ≤ s.drained
  drained_le : s.drained ≤ s.published.length
  draining : s.Draining s.tracer
  count : s.archive.count.toNat = min s.drained archiveCapacity
  total : s.archive.count.toNat + s.archive.notArchived.toNat = s.drained
  stored : ∀ i, i < s.archive.count.toNat → s.published[i]? = some (s.archive.records i)

theorem inv_start : Inv {} where
  locked p h := h.elim
  exclusive p _ h _ := h.elim
  holder _ := trivial
  quiet _ := rfl
  head := rfl
  head_le := Nat.zero_le _
  window := Window.nil
  seq _ _ h := absurd h (by simp)
  producer _ h := absurd h List.not_mem_nil
  time := List.Pairwise.nil
  past _ h := absurd h List.not_mem_nil
  order _ := rfl
  tail_le := Nat.le_refl _
  drained_le := Nat.le_refl _
  draining := rfl
  count := rfl
  total := rfl
  stored _ h := absurd h (Nat.not_lt_zero _)

theorem holder_of_not_inside {s : Pipeline} {p : Producer} {pc : EmitPc} (h : ¬pc.inside) :
    s.Holder p pc := by
  cases pc <;> first | trivial | exact absurd trivial h

/-- The holder's facts survive whatever leaves the ring's contents alone, lets
the tracer free slots and lets the counter advance. -/
theorem Holder.frame {s t : Pipeline} {p : Producer} {pc : EmitPc} (h : s.Holder p pc)
    (hnext : t.ring.nextSeq = s.ring.nextSeq) (hhead : t.ring.head = s.ring.head)
    (hrecords : t.ring.records = s.ring.records) (hpublished : t.published = s.published)
    (htail : s.ring.tail.toNat ≤ t.ring.tail.toNat) (htime : s.cntpct ≤ t.cntpct) :
    t.Holder p pc := by
  have hstamped : ∀ {rec head}, s.Stamped p rec head → t.Stamped p rec head := by
    intro rec head hs
    refine ⟨hhead ▸ hs.head_eq, by rw [hnext, hpublished, hs.next], ?_, by rw [hpublished, hs.seq],
      hs.producer, UInt64.le_trans hs.past htime, hpublished ▸ hs.after⟩
    rw [hpublished]
    exact Nat.lt_of_lt_of_le hs.room (Nat.add_le_add_right htail _)
  cases pc with
  | idle | exchange | spin => trivial
  | loadHead | unlock =>
    show t.ring.nextSeq = _
    rw [hnext, hpublished]
    exact h
  | waitForSpace rec head => exact ⟨hhead ▸ h.1, by rw [hnext, hpublished, h.2]⟩
  | fetchSeq rec head =>
    refine ⟨hhead ▸ h.1, by rw [hnext, hpublished, h.2.1], ?_⟩
    rw [hpublished]
    exact Nat.lt_of_lt_of_le h.2.2 (Nat.add_le_add_right htail _)
  | readTime rec head =>
    refine ⟨hhead ▸ h.1, by rw [hnext, hpublished, h.2.1], ?_, by rw [hpublished, h.2.2.2]⟩
    rw [hpublished]
    exact Nat.lt_of_lt_of_le h.2.2.1 (Nat.add_le_add_right htail _)
  | storeSlot rec head => exact hstamped h
  | storeHead rec head =>
    refine ⟨hstamped h.1, ?_⟩
    rw [hpublished, hrecords]
    exact h.2

/-! ## Steps of a producer -/

/-- What holds of the producer that moved and of the others where they were. -/
theorem forall_setEmit {s : Pipeline} {p : Producer} {pc : EmitPc} {P : Producer → EmitPc → Prop}
    (hself : P p pc) (hother : ∀ q, q ≠ p → P q (s.emit q)) (q : Producer) :
    P q ((s.setEmit p pc).emit q) := by
  by_cases hq : q = p
  · subst hq
    rw [setEmit_self]
    exact hself
  · rw [setEmit_ne s hq]
    exact hother q hq

theorem Inv.others_outside {s : Pipeline} (h : Inv s) {p : Producer} (hp : (s.emit p).inside)
    (q : Producer) (hq : q ≠ p) : ¬(s.emit q).inside := fun hin => hq (h.exclusive q p hin hp)

/-- A record in flight stays what it was handed in as. -/
theorem order_setEmit {s : Pipeline} (h : Inv s) {p : Producer} {pc : EmitPc}
    (hflight : pc.inFlight.map TraceRecord.payload =
      (s.emit p).inFlight.map TraceRecord.payload) (q : Producer) :
    payloads q s.published ++ ((s.setEmit p pc).emit q).inFlight.map TraceRecord.payload =
      (s.submitted q).map TraceRecord.payload := by
  refine forall_setEmit (P := fun q pc => payloads q s.published ++
    pc.inFlight.map TraceRecord.payload = (s.submitted q).map TraceRecord.payload) ?_ ?_ q
  · rw [hflight]
    exact h.order p
  · intro r _
    exact h.order r

/-- A step inside the lock that publishes nothing. -/
theorem Inv.inside_step {s : Pipeline} (h : Inv s) {p : Producer} {pc : EmitPc}
    (ring : TraceRing) (hp : (s.emit p).inside)
    (hflight : pc.inFlight.map TraceRecord.payload =
      (s.emit p).inFlight.map TraceRecord.payload)
    (hlock : ring.producerLock = s.ring.producerLock) (hhead : ring.head = s.ring.head)
    (htail : ring.tail = s.ring.tail)
    (hwindow : Window ringCapacity ring.records s.published s.ring.tail.toNat)
    (hself : Holder { s.setEmit p pc with ring := ring } p pc) (hpc : pc.inside) :
    Inv { s.setEmit p pc with ring := ring } := by
  have hother := h.others_outside hp
  have hinside : ∀ q, ((s.setEmit p pc).emit q).inside → q = p := by
    intro q hq
    by_contra hne
    rw [setEmit_ne s hne] at hq
    exact hother q hne hq
  refine { h with
    locked := fun q hq => ?_, exclusive := fun q r hq hr => ?_, holder := fun q => ?_,
    quiet := fun hq => ?_, head := ?_, head_le := ?_, window := ?_, order := fun q => ?_,
    tail_le := ?_, draining := ?_ }
  · show ring.producerLock ≠ 0
    rw [hlock]
    exact h.locked p hp
  · rw [hinside q hq, hinside r hr]
  · exact forall_setEmit (P := Holder { s.setEmit p pc with ring := ring }) hself
      (fun r hr => holder_of_not_inside (hother r hr)) q
  · refine absurd ?_ (hq p)
    show ((s.setEmit p pc).emit p).inside
    rw [setEmit_self]
    exact hpc
  · show ring.head.toNat = _
    rw [hhead]
    exact h.head
  · show _ ≤ ring.tail.toNat + _
    rw [htail]
    exact h.head_le
  · show Window _ _ _ ring.tail.toNat
    rw [htail]
    exact hwindow
  · exact order_setEmit h hflight q
  · show ring.tail.toNat ≤ _
    rw [htail]
    exact h.tail_le
  · have hd := h.draining
    revert hd
    show s.Draining s.tracer → Draining _ s.tracer
    cases s.tracer <;> simp [Draining, setEmit, htail]

/-- A step outside the lock: only the lock word and the producer's own position
change, and the producer gets inside only by finding the lock word zero. -/
theorem Inv.outside_step {s : Pipeline} (h : Inv s) {p : Producer} {pc : EmitPc} {l : UInt32}
    (hp : ¬(s.emit p).inside)
    (hflight : pc.inFlight.map TraceRecord.payload =
      (s.emit p).inFlight.map TraceRecord.payload)
    (hlock : s.ring.producerLock ≠ 0 → l ≠ 0)
    (hin : pc.inside → s.ring.producerLock = 0 ∧ l ≠ 0 ∧ ∃ rec, pc = .loadHead rec) :
    Inv { s.setEmit p pc with ring := { s.ring with producerLock := l } } := by
  have hfree : s.ring.producerLock = 0 → ∀ q, ¬(s.emit q).inside :=
    fun h0 q hq => h.locked q hq h0
  have hcases : ∀ q, ((s.setEmit p pc).emit q).inside →
      (q = p ∧ pc.inside) ∨ (q ≠ p ∧ (s.emit q).inside) := by
    intro q hq
    by_cases hqp : q = p
    · subst hqp
      rw [setEmit_self] at hq
      exact Or.inl ⟨rfl, hq⟩
    · rw [setEmit_ne s hqp] at hq
      exact Or.inr ⟨hqp, hq⟩
  refine { h with
    locked := fun q hq => ?_, exclusive := fun q r hq hr => ?_, holder := fun q => ?_,
    quiet := fun hq => ?_, order := fun q => ?_ }
  · rcases hcases q hq with ⟨-, hin'⟩ | ⟨-, hin'⟩
    · exact (hin hin').2.1
    · exact hlock (h.locked q hin')
  · rcases hcases q hq with ⟨rfl, hq'⟩ | ⟨hqp, hq'⟩
    · rcases hcases r hr with ⟨rfl, -⟩ | ⟨-, hr'⟩
      · rfl
      · exact absurd hr' (hfree (hin hq').1 r)
    · rcases hcases r hr with ⟨rfl, hr'⟩ | ⟨-, hr'⟩
      · exact absurd hq' (hfree (hin hr').1 q)
      · exact h.exclusive q r hq' hr'
  · refine forall_setEmit (P := Holder
      { s.setEmit p pc with ring := { s.ring with producerLock := l } }) ?_ ?_ q
    · by_cases hin' : pc.inside
      · obtain ⟨h0, -, rec, rfl⟩ := hin hin'
        exact h.quiet (hfree h0)
      · exact holder_of_not_inside hin'
    · intro r _
      exact (h.holder r).frame rfl rfl rfl rfl (Nat.le_refl _) (UInt64.le_refl _)
  · refine h.quiet fun q hin' => ?_
    by_cases hqp : q = p
    · exact hp (hqp ▸ hin')
    · refine hq q ?_
      show ((s.setEmit p pc).emit q).inside
      rw [setEmit_ne s hqp]
      exact hin'
  · exact order_setEmit h hflight q

/-- Only the call itself adds to the submitted records. -/
theorem Inv.call {s : Pipeline} (h : Inv s) {p : Producer} (hp : s.emit p = .idle)
    (rec : TraceRecord) : Inv (s.startEmit p rec) := by
  have hidle : ¬(s.emit p).inside := by rw [hp]; exact id
  have hsame : ∀ q, q ≠ p → (s.startEmit p rec).emit q = s.emit q := fun q hq =>
    setEmit_ne s hq _
  have hself : (s.startEmit p rec).emit p = .exchange rec := setEmit_self s p _
  have hinside : ∀ q, ((s.startEmit p rec).emit q).inside ↔ (s.emit q).inside := by
    intro q
    by_cases hq : q = p
    · subst hq
      rw [hself]
      exact ⟨False.elim, hidle⟩
    · rw [hsame q hq]
  refine { h with
    locked := fun q hq => h.locked q ((hinside q).mp hq)
    exclusive := fun q r hq hr => h.exclusive q r ((hinside q).mp hq) ((hinside r).mp hr)
    holder := fun q => ?_
    quiet := fun hq => h.quiet fun q hin => hq q ((hinside q).mpr hin)
    order := fun q => ?_ }
  · have hentry : (s.startEmit p rec).Holder p (.exchange rec) := trivial
    exact forall_setEmit (P := Holder (s.startEmit p rec)) hentry
      (fun r _ => (h.holder r).frame rfl rfl rfl rfl (Nat.le_refl _) (UInt64.le_refl _)) q
  · by_cases hq : q = p
    · subst hq
      have ho := h.order q
      rw [hp] at ho
      rw [hself]
      simp only [startEmit, Function.update_self, List.map_append, ← ho]
      simp [EmitPc.inFlight]
      rfl
    · rw [hsame q hq]
      simp only [startEmit, Function.update_of_ne hq]
      exact h.order q

/-- Publishing the record in flight. -/
theorem Inv.storeHead {s : Pipeline} (h : Inv s) {p : Producer} {rec : TraceRecord}
    {head : UInt64} (hp : s.emit p = .storeHead rec head)
    (hfew : s.published.length + 1 < 2 ^ 64) :
    Inv { s.setEmit p .unlock with
      ring := { s.ring with head := head + 1 }, published := s.published ++ [rec] } := by
  have hin : (s.emit p).inside := by rw [hp]; trivial
  have hself : (s.setEmit p .unlock).emit p = .unlock := setEmit_self s p _
  have hsame : ∀ q, q ≠ p → (s.setEmit p .unlock).emit q = s.emit q := fun q hq =>
    setEmit_ne s hq _
  have hinside : ∀ q, ((s.setEmit p .unlock).emit q).inside ↔ (s.emit q).inside := by
    intro q
    by_cases hq : q = p
    · subst hq
      rw [hself]
      exact ⟨fun _ => hin, fun _ => trivial⟩
    · rw [hsame q hq]
  obtain ⟨hs, hslot⟩ : s.Holder p (.storeHead rec head) := hp ▸ h.holder p
  have hlen : (s.published ++ [rec]).length = s.published.length + 1 := by simp
  refine { h with
    locked := fun q hq => h.locked q ((hinside q).mp hq)
    exclusive := fun q r hq hr => h.exclusive q r ((hinside q).mp hq) ((hinside r).mp hr)
    holder := fun q => ?_
    quiet := fun hq => absurd ((hinside p).mpr hin) (hq p)
    head := ?_, head_le := ?_, window := ?_, seq := fun k r hr => ?_
    producer := fun r hr => ?_, time := ?_, past := fun r hr => ?_, order := fun q => ?_
    drained_le := ?_, draining := ?_, stored := fun i hi => ?_ }
  · refine forall_setEmit (P := Holder _) ?_
      (fun r hr => holder_of_not_inside (h.others_outside hin r hr)) q
    show s.ring.nextSeq = _
    rw [hs.next, hlen]
  · show (head + 1).toNat = _
    rw [hlen, hs.head_eq, toNat_succ (by rw [h.head]; exact hfew), h.head]
  · rw [hlen]
    exact hs.room
  · rw [← hslot]
    exact h.window.push
  · rcases Nat.lt_trichotomy k s.published.length with hk | rfl | hk
    · rw [List.getElem?_append_left hk] at hr
      exact h.seq k r hr
    · rw [List.getElem?_append_right (Nat.le_refl _)] at hr
      simp only [Nat.sub_self, List.getElem?_cons_zero, Option.some.injEq] at hr
      rw [← hr, hs.seq]
    · rw [List.getElem?_eq_none (by rw [hlen]; exact hk)] at hr
      cases hr
  · rcases List.mem_append.mp hr with hr | hr
    · exact h.producer r hr
    · exact ⟨p, by rw [List.mem_singleton.mp hr, hs.producer]⟩
  · refine List.pairwise_append.mpr ⟨h.time, List.pairwise_singleton _ _, fun a ha b hb => ?_⟩
    rw [List.mem_singleton.mp hb]
    exact hs.after a ha
  · rcases List.mem_append.mp hr with hr | hr
    · exact h.past r hr
    · rw [List.mem_singleton.mp hr]
      exact hs.past
  · have ho := h.order q
    show payloads q (s.published ++ [rec]) ++ ((s.setEmit p .unlock).emit q).inFlight.map _ =
      (s.submitted q).map TraceRecord.payload
    by_cases hq : q = p
    · subst hq
      rw [hself]
      rw [hp] at ho
      have hmine : payloads q (s.published ++ [rec]) =
          payloads q s.published ++ [rec.payload] := by
        simp [payloads, hs.producer]
      rw [hmine, ← ho]
      simp [EmitPc.inFlight]
    · rw [hsame q hq]
      have hne : rec.producer ≠ q.id := by
        rw [hs.producer]
        exact fun he => hq (Producer.id_injective he).symm
      have hnot : payloads q (s.published ++ [rec]) = payloads q s.published := by
        simp [payloads, hne]
      rw [hnot]
      exact ho
  · rw [hlen]
    exact Nat.le_succ_of_le h.drained_le
  · have hd := h.draining
    revert hd
    show s.Draining s.tracer → Draining _ s.tracer
    cases s.tracer with
    | archiveRecord tail =>
      rintro ⟨h₁, h₂, h₃⟩
      refine ⟨h₁, h₂, ?_⟩
      rw [hlen]
      exact Nat.lt_succ_of_lt h₃
    | _ => exact id
  · have hi' := h.stored i hi
    obtain ⟨hlt, -⟩ := List.getElem?_eq_some_iff.mp hi'
    rw [List.getElem?_append_left hlt]
    exact hi'

/-- Releasing the lock. -/
theorem Inv.unlock {s : Pipeline} (h : Inv s) {p : Producer} (hp : s.emit p = .unlock) :
    Inv { s.setEmit p .idle with ring := { s.ring with producerLock := 0 } } := by
  have hin : (s.emit p).inside := by rw [hp]; trivial
  have hnone : ∀ q, ¬((s.setEmit p .idle).emit q).inside :=
    forall_setEmit (P := fun _ pc => ¬pc.inside) id (h.others_outside hin)
  have hh : s.Holder p .unlock := hp ▸ h.holder p
  refine { h with
    locked := fun q hq => absurd hq (hnone q)
    exclusive := fun q _ hq => absurd hq (hnone q)
    holder := fun q => holder_of_not_inside (hnone q)
    quiet := fun _ => hh
    order := order_setEmit h (by rw [hp]; rfl) }

/-! ## Steps of the tracer -/

/-- What the tracer does between `drain_trace`'s stores is its own. -/
theorem Inv.tracer_moves {s : Pipeline} (h : Inv s) (pc : TracerPc) {done : UInt64}
    {dumps : List (List TraceRecord)} (hpc : s.Draining pc) :
    Inv { s with tracer := pc, dumpsDone := done, dumps := dumps } := by
  refine { h with holder := fun p => ?_, draining := ?_ }
  · exact (h.holder p).frame rfl rfl rfl rfl (Nat.le_refl _) (UInt64.le_refl _)
  · revert hpc
    show s.Draining pc → Draining _ pc
    cases pc <;> exact id

/-- `archive_record` of the oldest record in the ring. -/
theorem Inv.archiveRecord {s : Pipeline} (h : Inv s) {tail : UInt64}
    (hd : s.Draining (.archiveRecord tail)) (hfew : s.published.length < 2 ^ 64) :
    Inv { s with
      archive := Trace.archiveRecord s.archive (s.ring.records (tail.toNat % ringCapacity))
      tracer := .storeTail (tail + 1)
      drained := s.drained + 1 } := by
  obtain ⟨htail, hdrained, hlt⟩ := hd
  have hslot : s.published[s.drained]? = some (s.ring.records (tail.toNat % ringCapacity)) := by
    rw [htail, hdrained]
    exact h.window s.drained (Nat.le_of_eq hdrained) hlt
  have hcount := h.count
  have htotal := h.total
  refine { h with
    holder := fun p => ?_, tail_le := Nat.le_succ_of_le h.tail_le, drained_le := hlt
    draining := ?_, count := ?_, total := ?_, stored := fun i hi => ?_ }
  · exact (h.holder p).frame rfl rfl rfl rfl (Nat.le_refl _) (UInt64.le_refl _)
  · refine ⟨?_, by rw [← hdrained]⟩
    rw [htail, toNat_succ (by omega), hdrained]
  · show _ = min (s.drained + 1) archiveCapacity
    by_cases hf : s.archive.full
    · rw [archiveRecord_full hf]
      have := s.archive.full_iff.mp hf
      show s.archive.count.toNat = _
      omega
    · rw [archiveRecord_count hf]
      have := TraceArchive.count_lt hf
      omega
  · show _ = s.drained + 1
    by_cases hf : s.archive.full
    · rw [archiveRecord_full hf]
      show s.archive.count.toNat + (s.archive.notArchived + 1).toNat = _
      rw [toNat_succ (by omega)]
      omega
    · rw [archiveRecord_count hf, archiveRecord_notArchived hf]
      omega
  · by_cases hlast : i < s.archive.count.toNat
    · rw [archiveRecord_keeps _ _ hlast]
      exact h.stored i hlast
    · have hf : ¬s.archive.full := by
        intro hf
        rw [archiveRecord_full hf] at hi
        exact hlast hi
      rw [archiveRecord_count hf] at hi
      have hroom := TraceArchive.count_lt hf
      obtain rfl : i = s.archive.count.toNat := by omega
      rw [archiveRecord_last hf, ← hslot]
      congr 1
      omega

/-- Giving the slot back to the producers. -/
theorem Inv.storeTail {s : Pipeline} (h : Inv s) {tail : UInt64}
    (hd : s.Draining (.storeTail tail)) :
    Inv { s with ring := { s.ring with tail := tail }, tracer := .loadHead tail } := by
  obtain ⟨htail, hdrained⟩ := hd
  have hle := h.head_le
  refine { h with
    holder := fun p => ?_, head_le := ?_, window := ?_, tail_le := Nat.le_of_eq htail
    draining := ⟨rfl, htail⟩ }
  · exact (h.holder p).frame rfl rfl rfl rfl (by show _ ≤ tail.toNat; omega) (UInt64.le_refl _)
  · show s.published.length ≤ tail.toNat + ringCapacity
    omega
  · exact h.window.advance (by show _ ≤ tail.toNat; omega)

/-! ## All steps -/

theorem Inv.producerStep {s t : Pipeline} (h : Inv s) {p : Producer}
    (hs : s.producerStep p = some t) (hfew : t.published.length < 2 ^ 64) : Inv t := by
  have hh := h.holder p
  unfold Pipeline.producerStep at hs
  cases hp : s.emit p with
  | idle =>
    simp only [hp] at hs
    split at hs
    · obtain rfl := Option.some.inj hs
      exact { h with
        holder := fun q =>
          (h.holder q).frame rfl rfl rfl rfl (Nat.le_refl _) (UInt64.le_refl _) }
    · cases hs
  | exchange rec =>
    simp only [hp] at hs
    obtain rfl := Option.some.inj hs
    refine h.outside_step (by rw [hp]; exact id) ?_ (fun _ => by decide) fun hin => ?_
    · rw [hp]
      split <;> rfl
    · split at hin
      · next h0 => exact ⟨h0, by decide, rec, if_pos h0⟩
      · exact hin.elim
  | spin rec =>
    simp only [hp] at hs
    obtain rfl := Option.some.inj hs
    refine h.outside_step (l := s.ring.producerLock) (by rw [hp]; exact id) ?_ id fun hin => ?_
    · rw [hp]
      split <;> rfl
    · split at hin <;> exact hin.elim
  | loadHead rec =>
    simp only [hp] at hs
    obtain rfl := Option.some.inj hs
    rw [hp] at hh
    exact h.inside_step s.ring (by rw [hp]; trivial) (by rw [hp]; rfl) rfl rfl rfl
      h.window ⟨rfl, hh⟩ trivial
  | waitForSpace rec head =>
    simp only [hp] at hs
    obtain rfl := Option.some.inj hs
    rw [hp] at hh
    have htail : s.ring.tail.toNat ≤ s.ring.head.toNat :=
      h.head ▸ Nat.le_trans h.tail_le h.drained_le
    split
    · exact h.inside_step s.ring (by rw [hp]; trivial) (by rw [hp]) rfl rfl rfl
        h.window hh trivial
    · next hroom =>
      refine h.inside_step s.ring (by rw [hp]; trivial) (by rw [hp]; rfl) rfl rfl rfl
        h.window ⟨hh.1, hh.2, ?_⟩ trivial
      rw [noSpace, hh.1, UInt64.le_iff_toNat_le, toNat_sub htail, h.head] at hroom
      have hcap : (UInt64.ofNat ringCapacity).toNat = ringCapacity := by decide
      show s.published.length < s.ring.tail.toNat + ringCapacity
      omega
  | fetchSeq rec head =>
    simp only [hp] at hs
    obtain rfl := Option.some.inj hs
    rw [hp] at hh
    refine h.inside_step _ (by rw [hp]; trivial) (by rw [hp]; rfl) rfl rfl rfl h.window
      ⟨hh.1, ?_, hh.2.2, hh.2.1⟩ trivial
    show s.ring.nextSeq + 1 = UInt64.ofNat (s.published.length + 1)
    rw [hh.2.1, ofNat_succ]
  | readTime rec head =>
    simp only [hp] at hs
    obtain rfl := Option.some.inj hs
    rw [hp] at hh
    exact h.inside_step s.ring (by rw [hp]; trivial) (by rw [hp]; rfl) rfl rfl rfl
      h.window ⟨hh.1, hh.2.1, hh.2.2.1, hh.2.2.2, rfl, UInt64.le_refl _, h.past⟩ trivial
  | storeSlot rec head =>
    simp only [hp] at hs
    obtain rfl := Option.some.inj hs
    rw [hp] at hh
    have hidx : head.toNat = s.published.length := by rw [hh.head_eq, h.head]
    refine h.inside_step _ (by rw [hp]; trivial) (by rw [hp]; rfl) rfl rfl rfl ?_
      ⟨⟨hh.head_eq, hh.next, hh.room, hh.seq, hh.producer, hh.past, hh.after⟩, ?_⟩ trivial
    · rw [hidx]
      exact h.window.store hh.room rec
    · show Function.update s.ring.records (head.toNat % ringCapacity) rec
        (s.published.length % ringCapacity) = rec
      rw [hidx, Function.update_self]
  | storeHead rec head =>
    simp only [hp] at hs
    obtain rfl := Option.some.inj hs
    refine h.storeHead hp ?_
    simpa using hfew
  | unlock =>
    simp only [hp] at hs
    obtain rfl := Option.some.inj hs
    exact h.unlock hp

theorem Inv.tracerStep {s : Pipeline} (h : Inv s) (hfew : s.published.length < 2 ^ 64) :
    Inv s.tracerStep := by
  have hd := h.draining
  have hhead := h.head
  unfold Pipeline.tracerStep
  cases ht : s.tracer <;> rw [ht] at hd
  case idle => exact h.tracer_moves _ hd
  case drainTrace => exact h.tracer_moves (.loadHead s.ring.tail) ⟨rfl, hd⟩
  case loadHead tail =>
    obtain ⟨htail, hdrained⟩ := hd
    dsimp only
    split
    · exact h.tracer_moves .drainConsole hdrained
    · next hne =>
      refine h.tracer_moves (.archiveRecord tail) ⟨htail, hdrained, ?_⟩
      refine Nat.lt_of_le_of_ne h.drained_le fun he => hne ?_
      rw [htail, ← UInt64.toNat_inj, hdrained, he, hhead]
  case archiveRecord tail => exact h.archiveRecord hd hfew
  case storeTail tail => exact h.storeTail hd
  case drainConsole => exact h.tracer_moves _ hd
  case maybeDump =>
    dsimp only
    split
    · exact h.tracer_moves .idle hd
    · exact h.tracer_moves .dumpArchive hd
  case dumpArchive => exact h.tracer_moves .idle hd

theorem Inv.tick {s : Pipeline} (h : Inv s) {t : UInt64} (ht : s.cntpct ≤ t) :
    Inv { s with cntpct := t } :=
  { h with
    holder := fun p => (h.holder p).frame rfl rfl rfl rfl (Nat.le_refl _) ht
    past := fun r hr => UInt64.le_trans (h.past r hr) ht }

theorem Inv.step {s t : Pipeline} (h : Inv s) {a : Act} (hs : s.step a = some t)
    (hfew : t.published.length < 2 ^ 64) : Inv t := by
  cases a with
  | call p rec =>
    simp only [Pipeline.step, Option.ite_none_right_eq_some, Option.some.injEq] at hs
    obtain ⟨⟨hp, -⟩, rfl⟩ := hs
    exact h.call hp rec
  | traceDump id =>
    simp only [Pipeline.step, Option.ite_none_right_eq_some, Option.some.injEq] at hs
    obtain ⟨⟨hp, -⟩, rfl⟩ := hs
    have hc := h.call hp (recordCommand cmdVerbTraceDump id cmdAccepted 0)
    exact { hc with
      holder := fun q =>
        (hc.holder q).frame rfl rfl rfl rfl (Nat.le_refl _) (UInt64.le_refl _) }
  | producer p => exact h.producerStep hs hfew
  | tracer =>
    obtain rfl := Option.some.inj hs
    refine h.tracerStep ?_
    revert hfew
    unfold Pipeline.tracerStep
    cases s.tracer <;> dsimp only <;> first | exact id | (split <;> exact id)
  | tick t =>
    simp only [Pipeline.step, Option.ite_none_right_eq_some, Option.some.injEq] at hs
    obtain ⟨ht, rfl⟩ := hs
    exact h.tick ht

end Pipeline
end Trace
end TensorSel4
