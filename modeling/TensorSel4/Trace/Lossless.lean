/-
The trace pipeline loses, duplicates and reorders nothing.

The invariant holds in every reachable state in which fewer than `2 ^ 64`
records have been published.  What it says about the archive is read off here
in the terms of the program: the archive is the list of records published
first, numbered from zero, with times that never decrease, and each producer's
records are in it as they were handed to `trace_emit`.
-/
import TensorSel4.Trace.Invariant

namespace TensorSel4
namespace Trace

open RingBuffer

namespace Pipeline

/-- What one step can do to the records: nothing, write a slot, publish the
record in that slot, or archive one. -/
theorem step_cases {s t : Pipeline} {a : Act} (hs : s.step a = some t) :
    (t.published = s.published ∧ t.ring.records = s.ring.records ∧ t.archive = s.archive) ∨
    (∃ p rec head, s.emit p = .storeSlot rec head ∧ t.published = s.published ∧
      t.ring.records = Function.update s.ring.records (head.toNat % ringCapacity) rec ∧
      t.archive = s.archive) ∨
    (∃ p rec head, s.emit p = .storeHead rec head ∧ t.published = s.published ++ [rec] ∧
      t.ring.records = s.ring.records ∧ t.archive = s.archive) ∨
    (∃ tail, s.tracer = .archiveRecord tail ∧ t.published = s.published ∧
      t.ring.records = s.ring.records ∧
      t.archive = Trace.archiveRecord s.archive
        (s.ring.records (tail.toNat % ringCapacity))) := by
  cases a with
  | call p rec =>
    simp only [step, Option.ite_none_right_eq_some, Option.some.injEq] at hs
    obtain ⟨-, rfl⟩ := hs
    exact Or.inl ⟨rfl, rfl, rfl⟩
  | traceDump id =>
    simp only [step, Option.ite_none_right_eq_some, Option.some.injEq] at hs
    obtain ⟨-, rfl⟩ := hs
    exact Or.inl ⟨rfl, rfl, rfl⟩
  | producer p =>
    simp only [step, producerStep] at hs
    split at hs
    case h_1 =>
      split at hs
      · obtain rfl := Option.some.inj hs
        exact Or.inl ⟨rfl, rfl, rfl⟩
      · cases hs
    case h_8 rec head hp =>
      obtain rfl := Option.some.inj hs
      exact Or.inr (Or.inl ⟨p, rec, head, hp, rfl, rfl, rfl⟩)
    case h_9 rec head hp =>
      obtain rfl := Option.some.inj hs
      exact Or.inr (Or.inr (Or.inl ⟨p, rec, head, hp, rfl, rfl, rfl⟩))
    all_goals
      obtain rfl := Option.some.inj hs
      exact Or.inl ⟨rfl, rfl, rfl⟩
  | tracer =>
    obtain rfl := Option.some.inj hs
    unfold tracerStep
    cases ht : s.tracer with
    | archiveRecord tail => exact Or.inr (Or.inr (Or.inr ⟨tail, rfl, rfl, rfl, rfl⟩))
    | maybeDump =>
      dsimp only
      split <;> exact Or.inl ⟨rfl, rfl, rfl⟩
    | _ => exact Or.inl ⟨rfl, rfl, rfl⟩
  | tick t =>
    simp only [step, Option.ite_none_right_eq_some, Option.some.injEq] at hs
    obtain ⟨-, rfl⟩ := hs
    exact Or.inl ⟨rfl, rfl, rfl⟩

theorem step_published {s t : Pipeline} {a : Act} (hs : s.step a = some t) :
    ∃ l, t.published = s.published ++ l := by
  rcases step_cases hs with ⟨h, -, -⟩ | ⟨p, rec, head, -, h, -⟩ | ⟨p, rec, head, -, h, -⟩ |
    ⟨tail, -, h, -⟩
  · exact ⟨[], by rw [h, List.append_nil]⟩
  · exact ⟨[], by rw [h, List.append_nil]⟩
  · exact ⟨[rec], h⟩
  · exact ⟨[], by rw [h, List.append_nil]⟩

/-- The state stays below the limit of the 64-bit counters. -/
def Few (s : Pipeline) : Prop := s.published.length < 2 ^ 64

theorem Few.of_step {s t : Pipeline} {a : Act} (hs : s.step a = some t) (ht : t.Few) : s.Few := by
  obtain ⟨l, hl⟩ := step_published hs
  rw [Few, hl, List.length_append] at ht
  exact Nat.lt_of_le_of_lt (Nat.le_add_right _ _) ht

theorem inv_reachable {s : Pipeline} (hs : pipeline.Reachable s) (hfew : s.Few) : Inv s :=
  Automaton.reachable_induction_guarded (G := Few) (fun _ _ _ => Few.of_step) inv_start
    (fun _ _ _ h hG hstep => h.step hstep hG) hs hfew

/-- The first 2^64 records are numbered by their positions, however many follow. -/
theorem seq_of_reachable {s : Pipeline} (hs : pipeline.Reachable s) :
    ∀ k r, k < 2 ^ 64 → s.published[k]? = some r → r.seq = UInt64.ofNat k := by
  refine (Automaton.reachable_induction (I := fun s => pipeline.Reachable s ∧
    ∀ k r, k < 2 ^ 64 → s.published[k]? = some r → r.seq = UInt64.ofNat k)
    ⟨⟨[], (Automaton.reaches_nil _).mpr rfl⟩, ?_⟩ ?_ hs).2
  · intro k r _ hr
    cases hr
  · rintro s a t ⟨hreach, hseq⟩ hstep
    refine ⟨hreach.step hstep, ?_⟩
    intro k r hk hr
    have hold : t.published = s.published → r.seq = UInt64.ofNat k := by
      intro h
      rw [h] at hr
      exact hseq k r hk hr
    rcases step_cases hstep with ⟨h, -⟩ | ⟨-, -, -, -, h, -⟩ | ⟨p, rec, head, hp, h, -⟩ |
      ⟨-, -, h, -⟩
    · exact hold h
    · exact hold h
    · rw [h, List.getElem?_append] at hr
      split at hr
      · exact hseq k r hk hr
      · next hle =>
        -- Only fewer records were published so far, so the holder has the number.
        have hlen : k = s.published.length := by
          have := (List.getElem?_eq_some_iff.mp hr).1
          rw [List.length_singleton] at this
          omega
        subst hlen
        rw [Nat.sub_self, List.getElem?_cons_zero, Option.some.injEq] at hr
        have hholder : s.Holder p (.storeHead rec head) := hp ▸ (inv_reachable hreach hk).holder p
        rw [← hr, hholder.1.seq]
    · exact hold h

/-- The only slot a step can write is that of the record after the last
published one. -/
theorem Inv.step_slot {s t : Pipeline} (h : Inv s) {a : Act} (hs : s.step a = some t) {k : Nat}
    (hk : s.ring.tail.toNat ≤ k) (hlt : k < s.ring.head.toNat) :
    t.ring.records (k % ringCapacity) = s.ring.records (k % ringCapacity) := by
  rcases step_cases hs with ⟨-, hr, -⟩ | ⟨p, rec, head, hp, -, hr, -⟩ |
    ⟨p, rec, head, -, -, hr, -⟩ | ⟨tail, -, -, hr, -⟩
  · rw [hr]
  · have hh : s.Holder p (.storeSlot rec head) := hp ▸ h.holder p
    have hroom := hh.room
    rw [← h.head] at hroom
    rw [hr, hh.head_eq]
    exact Function.update_of_ne (slot_ne hlt (by omega)) _ _
  · rw [hr]
  · rw [hr]

theorem step_archive {s t : Pipeline} {a : Act} (hs : s.step a = some t) :
    t.archive = s.archive ∨ ∃ r, t.archive = Trace.archiveRecord s.archive r := by
  rcases step_cases hs with ⟨-, -, h⟩ | ⟨p, rec, head, -, -, -, h⟩ | ⟨p, rec, head, -, -, -, h⟩ |
    ⟨tail, -, -, -, h⟩
  · exact Or.inl h
  · exact Or.inl h
  · exact Or.inl h
  · exact Or.inr ⟨_, h⟩

/-- The stored records stay what they are, whatever else runs. -/
theorem reaches_archive {s t : Pipeline} {es : List Act} (hr : pipeline.Reaches s es t) :
    s.archive.count.toNat ≤ t.archive.count.toNat ∧
      ∀ i, i < s.archive.count.toNat → t.archive.records i = s.archive.records i := by
  refine Automaton.reaches_induction (A := pipeline)
    (I := fun t => s.archive.count.toNat ≤ t.archive.count.toNat ∧
      ∀ i, i < s.archive.count.toNat → t.archive.records i = s.archive.records i)
    (fun m a n hm hstep => ?_) ⟨Nat.le_refl _, fun _ _ => rfl⟩ hr
  obtain ⟨hle, hsame⟩ := hm
  rcases step_archive hstep with he | ⟨r, he⟩
  · rw [he]
    exact ⟨hle, hsame⟩
  · rw [he]
    refine ⟨Nat.le_trans hle (archiveRecord_count_le _ _), fun i hi => ?_⟩
    rw [archiveRecord_keeps _ _ (Nat.lt_of_lt_of_le hi hle), hsame i hi]

/-- The guarantees of the trace pipeline about one state. -/
structure Lossless (s : Pipeline) : Prop where
  tail_le_head : s.ring.tail.toNat ≤ s.ring.head.toNat
  head_le : s.ring.head.toNat ≤ s.ring.tail.toNat + ringCapacity
  /-- What `drain_trace` has taken is what it has stored in `tail`, but for the
  record it is archiving now. -/
  drained : s.ring.tail.toNat = s.drained ∨ s.ring.tail.toNat + 1 = s.drained
  total : s.archive.count.toNat + s.archive.notArchived.toNat = s.drained
  seq : ∀ i, i < s.archive.count.toNat → (s.archive.records i).seq.toNat = i
  time : ∀ i j, i ≤ j → j < s.archive.count.toNat →
    (s.archive.records i).time ≤ (s.archive.records j).time
  stored : s.archive.stored = s.published.take s.archive.count.toNat
  producer : ∀ r ∈ s.published, ∃ p : Producer, r.producer = p.id
  /-- All that a producer handed to `trace_emit` is published in its order, but
  for the record whose `trace_emit` is still running. -/
  order : ∀ p, ∃ running, running.length ≤ 1 ∧
    payloads p s.published ++ running = (s.submitted p).map TraceRecord.payload
  archived_order : ∀ p, payloads p s.archive.stored <+: (s.submitted p).map TraceRecord.payload

theorem Inv.stored_eq {s : Pipeline} (h : Inv s) :
    s.archive.stored = s.published.take s.archive.count.toNat := by
  have hle : s.archive.count.toNat ≤ s.published.length := by
    have := h.count
    have := h.drained_le
    omega
  refine List.ext_getElem? fun i => ?_
  by_cases hi : i < s.archive.count.toNat
  · rw [List.getElem?_take_of_lt hi, h.stored i hi]
    simp [TraceArchive.stored, hi]
  · rw [List.getElem?_eq_none, List.getElem?_eq_none]
    · rw [List.length_take]
      omega
    · rw [TraceArchive.stored_length]
      omega

theorem Inv.lossless {s : Pipeline} (h : Inv s) (hfew : s.Few) : Lossless s where
  tail_le_head := h.head ▸ Nat.le_trans h.tail_le h.drained_le
  head_le := h.head ▸ h.head_le
  drained := by
    have hd := h.draining
    cases ht : s.tracer <;> rw [ht] at hd
    case loadHead tail => exact Or.inl hd.2
    case archiveRecord tail => exact Or.inl hd.2.1
    case storeTail tail => exact Or.inr hd.2.symm
    all_goals exact Or.inl hd
  total := h.total
  seq := fun i hi => by
    have hi' := h.stored i hi
    obtain ⟨hlt, -⟩ := List.getElem?_eq_some_iff.mp hi'
    rw [h.seq i _ hi', UInt64.toNat_ofNat_of_lt' (Nat.lt_trans hlt hfew)]
  time := fun i j hij hj => by
    rcases Nat.lt_or_eq_of_le hij with hlt | rfl
    · obtain ⟨hi', hie⟩ := List.getElem?_eq_some_iff.mp (h.stored i (Nat.lt_trans hlt hj))
      obtain ⟨hj', hje⟩ := List.getElem?_eq_some_iff.mp (h.stored j hj)
      rw [← hie, ← hje]
      exact List.pairwise_iff_getElem.mp h.time i j hi' hj' hlt
    · exact UInt64.le_refl _
  stored := h.stored_eq
  producer := h.producer
  order := fun p => by
    refine ⟨_, ?_, h.order p⟩
    rw [List.length_map]
    cases s.emit p <;> first | exact Nat.zero_le _ | exact Nat.le_refl _
  archived_order := fun p => by
    have hcut : payloads p (s.published.take s.archive.count.toNat) ++
        payloads p (s.published.drop s.archive.count.toNat) = payloads p s.published := by
      rw [payloads, payloads, ← List.map_append, ← List.filter_append, List.take_append_drop]
      rfl
    rw [← h.order p, h.stored_eq, ← hcut, List.append_assoc]
    exact ⟨_, rfl⟩

end Pipeline

open Pipeline

/-- Whatever the order of the three domains' operations, the pipeline is
lossless in every reachable state, no step overwrites a slot that has not been
drained, and a full archive never changes. -/
theorem pipeline_lossless {s : Pipeline} (hs : pipeline.Reachable s)
    (hfew : s.published.length < 2 ^ 64) :
    Lossless s ∧
      (∀ a t, pipeline.step s a = some t → ∀ k, s.ring.tail.toNat ≤ k → k < s.ring.head.toNat →
        t.ring.records (k % ringCapacity) = s.ring.records (k % ringCapacity)) ∧
      (∀ es t, pipeline.Reaches s es t → s.archive.full →
        t.archive.full ∧ ∀ i, i < archiveCapacity →
          t.archive.records i = s.archive.records i) := by
  have h := inv_reachable hs hfew
  refine ⟨h.lossless hfew, fun a t ht k hk hlt => h.step_slot ht hk hlt, fun es t ht hf => ?_⟩
  obtain ⟨hle, hsame⟩ := reaches_archive ht
  rw [s.archive.full_iff.mp hf] at hle hsame
  exact ⟨t.archive.full_iff.mpr (Nat.le_antisymm t.archive.bounded hle), hsame⟩

/-- uartrx waits for the VMM's lock and the VMM then for uartrx's, and the tracer archives the
first record while the second is being written. -/
def interleaved : List Act :=
  let vmm (n : Nat) : List Act := List.replicate n (.producer .vmm)
  let uartrx (n : Nat) : List Act := List.replicate n (.producer .uartrx)
  [.call .vmm { kind := kindMmio, value := 0x11 },
    .call .uartrx { kind := kindCmd, value := 0x22 }] ++ vmm 1 ++ uartrx 2 ++ vmm 3 ++ [.tick 5] ++
    vmm 4 ++ [.call .vmm { kind := kindGuest, value := 0x33 }, .tracer, .tracer] ++ uartrx 2 ++
    [.tracer] ++ vmm 2 ++ uartrx 3 ++ [.tick 9] ++ List.replicate 2 .tracer ++ uartrx 4 ++ vmm 9 ++
    List.replicate 6 .tracer

theorem pipeline_lossless_interleaved : ∃ s, pipeline.Reaches pipeline.start interleaved s ∧
    s.archive.stored.map (fun r => (r.seq, r.time, r.producer, r.value)) =
      [(0, 5, Producer.vmm.id, 0x11), (1, 9, Producer.uartrx.id, 0x22),
        (2, 9, Producer.vmm.id, 0x33)] ∧ Lossless s :=
  ⟨_, rfl, rfl, (pipeline_lossless ⟨interleaved, rfl⟩ (by decide)).1⟩

end Trace
end TensorSel4
