/-
Which records a `trace-dump` prints.

`notified` empties the ring once, then prints two console rings, and only then
reads `dump_requests`.  A `trace-dump` whose record and whose increment both
fall between the last look at the ring and that read is served by a dump of an
archive that does not hold the record.  `dump_covers_iff` says that this is the
only way a dump misses a record whose `trace_emit` had returned.
-/
import TensorSel4.Trace.Lossless

namespace TensorSel4
namespace Trace

open RingBuffer

namespace Pipeline

/-- uartrx is about to increment `dump_requests` in `cmd_trace_dump`. -/
def requesting (s : Pipeline) : Prop := s.emit .uartrx = .idle ∧ s.traceDump = true

/-- The tracer's load of `dump_requests` in `maybe_dump`. -/
def readsRequests (s : Pipeline) (a : Act) : Prop := a = .tracer ∧ s.tracer = .maybeDump

/-- A published record whose producer has yet to release the lock. -/
def returning (s : Pipeline) : Nat :=
  if s.emit .vmm = .unlock ∨ s.emit .uartrx = .unlock then 1 else 0

/-- The records whose `trace_emit` has returned. -/
def completed (s : Pipeline) : List TraceRecord :=
  s.published.take (s.published.length - s.returning)

/-- The tracer has seen the ring empty and has not read `dump_requests` yet. -/
def pastDrain (s : Pipeline) : Prop := s.tracer = .drainConsole ∨ s.tracer = .maybeDump

/-- A step of a producer is the increment in `cmd_trace_dump` or an operation of
`trace_emit`, whose record leaves it only by being published. -/
theorem producerStep_cases {s t : Pipeline} {p : Producer} (hs : s.producerStep p = some t) :
    (p = .uartrx ∧ s.requesting ∧
      t = { s with dumpRequests := s.dumpRequests + 1, traceDump := false }) ∨
    ∃ pc ring published,
      t = { s.setEmit p pc with ring := ring, published := published } ∧
      s.published.length ≤ published.length ∧
      (pc.inFlight = [] →
        (s.emit p).inFlight = [] ∨ s.published.length < published.length) := by
  unfold producerStep at hs
  cases hp : s.emit p with
  | idle =>
    simp only [hp, Option.ite_none_right_eq_some, Option.some.injEq] at hs
    obtain ⟨⟨rfl, hdump⟩, rfl⟩ := hs
    exact Or.inl ⟨rfl, ⟨hp, hdump⟩, rfl⟩
  | storeHead rec head =>
    simp only [hp, Option.some.injEq] at hs
    subst hs
    have hlt : s.published.length < (s.published ++ [rec]).length := by
      rw [List.length_append]
      exact Nat.lt_succ_self _
    exact Or.inr ⟨_, _, _, rfl, Nat.le_of_lt hlt, fun _ => Or.inr hlt⟩
  | unlock =>
    simp only [hp, Option.some.injEq] at hs
    subst hs
    exact Or.inr ⟨_, _, _, rfl, Nat.le_refl _, fun _ => Or.inl rfl⟩
  | _ =>
    -- The record stays in flight, whichever way a loop's test goes.
    simp only [hp, Option.some.injEq] at hs
    subst hs
    refine Or.inr ⟨_, _, _, rfl, Nat.le_refl _, fun hnone => ?_⟩
    first
    | cases hnone
    | split at hnone <;> cases hnone

/-- A step of a producer or of the counter is invisible to the tracer. -/
theorem step_not_tracer {s t : Pipeline} {a : Act} (hs : s.step a = some t) (ha : a ≠ .tracer) :
    t.tracer = s.tracer ∧ t.drained = s.drained ∧ t.archive = s.archive ∧ t.dumps = s.dumps ∧
      t.dumpsDone = s.dumpsDone := by
  cases a with
  | tracer => exact absurd rfl ha
  | call p rec =>
    simp only [step, Option.ite_none_right_eq_some, Option.some.injEq] at hs
    obtain ⟨-, rfl⟩ := hs
    exact ⟨rfl, rfl, rfl, rfl, rfl⟩
  | traceDump id =>
    simp only [step, Option.ite_none_right_eq_some, Option.some.injEq] at hs
    obtain ⟨-, rfl⟩ := hs
    exact ⟨rfl, rfl, rfl, rfl, rfl⟩
  | producer p =>
    rcases producerStep_cases hs with ⟨-, -, rfl⟩ | ⟨pc, ring, published, rfl, -⟩
    · exact ⟨rfl, rfl, rfl, rfl, rfl⟩
    · exact ⟨rfl, rfl, rfl, rfl, rfl⟩
  | tick t =>
    simp only [step, Option.ite_none_right_eq_some, Option.some.injEq] at hs
    obtain ⟨-, rfl⟩ := hs
    exact ⟨rfl, rfl, rfl, rfl, rfl⟩

theorem tracerStep_frame (s : Pipeline) :
    s.tracerStep.emit = s.emit ∧ s.tracerStep.traceDump = s.traceDump ∧
      s.tracerStep.dumpRequests = s.dumpRequests ∧ s.tracerStep.published = s.published ∧
      (s.tracerStep.dumpsDone = s.dumpsDone ∨
        s.tracer = .maybeDump ∧ s.tracerStep.dumpsDone = s.dumpRequests) := by
  unfold tracerStep
  cases s.tracer with
  | maybeDump =>
    dsimp only
    split
    · exact ⟨rfl, rfl, rfl, rfl, Or.inl rfl⟩
    · exact ⟨rfl, rfl, rfl, rfl, Or.inr ⟨rfl, rfl⟩⟩
  | _ => exact ⟨rfl, rfl, rfl, rfl, Or.inl rfl⟩

theorem reachable_step {s t : Pipeline} {a : Act} (h : pipeline.Reachable s)
    (hs : s.step a = some t) : pipeline.Reachable t :=
  Automaton.Reachable.step (A := pipeline) h hs

/-! ## Counting the requests -/

/-- Every request is preceded by its CMD record, so the request counter never
passes the number of published records, and `dumps_done` never passes it. -/
structure Requested (s : Pipeline) : Prop where
  done_le : s.dumpsDone.toNat ≤ s.dumpRequests.toNat
  le : s.dumpRequests.toNat ≤ s.published.length
  lt : s.traceDump = true → (s.emit .uartrx).inFlight = [] →
    s.dumpRequests.toNat < s.published.length

theorem requested_start : Requested {} where
  done_le := Nat.le_refl _
  le := Nat.le_refl _
  lt h := absurd h (by decide)

/-- A step of `trace_emit`. -/
theorem Requested.setEmit {s : Pipeline} (h : Requested s) {p : Producer} {c : EmitPc}
    (ring : TraceRing) (published : List TraceRecord)
    (hle : s.published.length ≤ published.length)
    (hc : c.inFlight = [] → (s.emit p).inFlight = [] ∨ s.published.length < published.length) :
    Requested { s.setEmit p c with ring := ring, published := published } where
  done_le := h.done_le
  le := Nat.le_trans h.le hle
  lt := fun hdump hnone => by
    have hflight : (s.emit .uartrx).inFlight = [] ∨ s.published.length < published.length := by
      refine forall_setEmit (s := s) (p := p) (P := fun q pc => pc.inFlight = [] →
        (s.emit q).inFlight = [] ∨ s.published.length < published.length) hc ?_ .uartrx hnone
      exact fun _ _ hq => Or.inl hq
    rcases hflight with hflight | hlt
    · exact Nat.lt_of_lt_of_le (h.lt hdump hflight) hle
    · exact Nat.lt_of_le_of_lt h.le hlt

/-- The increment in `cmd_trace_dump`. -/
theorem Requested.increment {s : Pipeline} (h : Requested s) (hreq : s.requesting)
    (hfew : s.published.length < 2 ^ 64) :
    Requested { s with dumpRequests := s.dumpRequests + 1, traceDump := false } := by
  have hlt := h.lt hreq.2 (by rw [hreq.1]; rfl)
  have hnext : (s.dumpRequests + 1).toNat = s.dumpRequests.toNat + 1 :=
    toNat_succ (Nat.lt_of_le_of_lt hlt hfew)
  have hdone := h.done_le
  refine ⟨?_, ?_, fun hfalse => absurd hfalse Bool.false_ne_true⟩
  · show s.dumpsDone.toNat ≤ (s.dumpRequests + 1).toNat
    omega
  · show (s.dumpRequests + 1).toNat ≤ s.published.length
    omega

theorem Requested.producerStep {s t : Pipeline} (h : Requested s) {p : Producer}
    (hs : s.producerStep p = some t) (hfew : t.Few) : Requested t := by
  rcases producerStep_cases hs with ⟨-, hreq, rfl⟩ | ⟨pc, ring, published, rfl, hle, hflight⟩
  · exact h.increment hreq hfew
  · exact h.setEmit ring published hle hflight

theorem Requested.step {s t : Pipeline} (h : Requested s) {a : Act} (hs : s.step a = some t)
    (hfew : t.Few) : Requested t := by
  cases a with
  | call p rec =>
    simp only [Pipeline.step, Option.ite_none_right_eq_some, Option.some.injEq] at hs
    obtain ⟨-, rfl⟩ := hs
    have hc := h.setEmit (p := p) (c := .exchange rec) s.ring s.published (Nat.le_refl _)
      fun hnone => by cases hnone
    exact ⟨hc.done_le, hc.le, hc.lt⟩
  | traceDump id =>
    simp only [Pipeline.step, Option.ite_none_right_eq_some, Option.some.injEq] at hs
    obtain ⟨-, rfl⟩ := hs
    have hbusy : (s.startEmit .uartrx (recordCommand cmdVerbTraceDump id cmdAccepted 0)).emit
        .uartrx = .exchange (recordCommand cmdVerbTraceDump id cmdAccepted 0) :=
      setEmit_self s .uartrx _
    refine ⟨h.done_le, h.le, fun _ hnone => ?_⟩
    rw [hbusy] at hnone
    cases hnone
  | producer p => exact h.producerStep hs hfew
  | tracer =>
    obtain rfl := Option.some.inj hs
    obtain ⟨hemit, hdump, hreq, hpub, hdone⟩ := s.tracerStep_frame
    refine ⟨?_, by rw [hreq, hpub]; exact h.le, by rw [hemit, hdump, hreq, hpub]; exact h.lt⟩
    rw [hreq]
    rcases hdone with hdone | ⟨-, hdone⟩
    · rw [hdone]
      exact h.done_le
    · rw [hdone]
  | tick t =>
    simp only [Pipeline.step, Option.ite_none_right_eq_some, Option.some.injEq] at hs
    obtain ⟨-, rfl⟩ := hs
    exact ⟨h.done_le, h.le, h.lt⟩

theorem requested_reachable {s : Pipeline} (hs : pipeline.Reachable s) (hfew : s.Few) :
    Requested s :=
  Automaton.reachable_induction_guarded (G := Few) (fun _ _ _ => Few.of_step) requested_start
    (fun _ _ _ h hG hstep => h.step hstep hG) hs hfew

/-! ## The dump that serves a request -/

/-- uartrx increments `dump_requests` in `before`, the next read of it starts a
dump, and `after` is the state in which that dump has been printed. -/
inductive Serves (before after : Pipeline) : Prop
  | intro {s₁ s₂ s₃ s₄ : Pipeline} {es fs : List Act}
    (request : before.requesting)
    (increment : before.step (.producer .uartrx) = some s₁)
    (others : pipeline.ReachesAvoiding readsRequests s₁ es s₂)
    (reading : s₂.tracer = .maybeDump)
    (read : s₂.step .tracer = some s₃)
    (printing : pipeline.ReachesAvoiding (fun _ a => a = .tracer) s₃ fs s₄)
    (print : s₄.step .tracer = some after)

/-- The dump printed every record whose `trace_emit` had returned when the
request was made, or the archive was full. -/
def Covers (before after : Pipeline) : Prop :=
  after.archive.full ∨
    ∃ printed, after.dumps.getLast? = some printed ∧ ∀ r ∈ before.completed, r ∈ printed

/-- The request was made after the tracer's last look at the ring, while a
record was in the ring and the archive had room for it. -/
def Missed (s : Pipeline) : Prop :=
  s.pastDrain ∧ s.drained < s.completed.length ∧ ¬s.archive.full

theorem completed_length_le (s : Pipeline) : s.completed.length ≤ s.published.length := by
  rw [completed, List.length_take]
  exact Nat.min_le_right _ _

theorem requesting_step {s t : Pipeline} (h : s.requesting)
    (hs : s.step (.producer .uartrx) = some t) :
    t = { s with dumpRequests := s.dumpRequests + 1, traceDump := false } := by
  have hs' : s.producerStep .uartrx = some t := hs
  simp only [producerStep, h.1, h.2, and_self, if_true, Option.some.injEq] at hs'
  exact hs'.symm

/-- Published records are never withdrawn in a run. -/
theorem reaches_published {s t : Pipeline} {es : List Act} (hr : pipeline.Reaches s es t) :
    ∃ l, t.published = s.published ++ l := by
  refine Automaton.reaches_induction (A := pipeline)
    (I := fun t => ∃ l, t.published = s.published ++ l) (fun m a n hm hstep => ?_)
    ⟨[], (List.append_nil _).symm⟩ hr
  obtain ⟨l, hl⟩ := hm
  obtain ⟨l', hl'⟩ := step_published hstep
  exact ⟨l ++ l', by rw [hl', hl, List.append_assoc]⟩

theorem Few.of_reaches {s t : Pipeline} {es : List Act} (hr : pipeline.Reaches s es t)
    (ht : t.Few) : s.Few := by
  obtain ⟨l, hl⟩ := reaches_published hr
  rw [Few, hl, List.length_append] at ht
  exact Nat.lt_of_le_of_lt (Nat.le_add_right _ _) ht

theorem step_dumpRequests {s t : Pipeline} {a : Act} (h : Requested s) (hfew : s.Few)
    (hs : s.step a = some t) : s.dumpRequests.toNat ≤ t.dumpRequests.toNat := by
  cases a with
  | call p rec =>
    simp only [step, Option.ite_none_right_eq_some, Option.some.injEq] at hs
    obtain ⟨-, rfl⟩ := hs
    exact Nat.le_refl _
  | traceDump id =>
    simp only [step, Option.ite_none_right_eq_some, Option.some.injEq] at hs
    obtain ⟨-, rfl⟩ := hs
    exact Nat.le_refl _
  | producer p =>
    rcases producerStep_cases hs with ⟨-, hreq, rfl⟩ | ⟨pc, ring, published, rfl, -⟩
    · have hlt := h.lt hreq.2 (by rw [hreq.1]; rfl)
      show _ ≤ (s.dumpRequests + 1).toNat
      rw [toNat_succ (Nat.lt_of_le_of_lt hlt hfew)]
      exact Nat.le_succ _
    · exact Nat.le_refl _
  | tracer =>
    obtain rfl := Option.some.inj hs
    rw [s.tracerStep_frame.2.2.1]
  | tick t =>
    simp only [step, Option.ite_none_right_eq_some, Option.some.injEq] at hs
    obtain ⟨-, rfl⟩ := hs
    exact Nat.le_refl _

/-- Until it reads `dump_requests`, the tracer does not change `dumps_done`. -/
theorem step_dumpsDone {s t : Pipeline} {a : Act} (hs : s.step a = some t)
    (ha : ¬s.readsRequests a) : t.dumpsDone = s.dumpsDone := by
  by_cases htr : a = .tracer
  · subst htr
    obtain rfl := Option.some.inj hs
    rcases s.tracerStep_frame.2.2.2.2 with h | ⟨h, -⟩
    · exact h
    · exact absurd ⟨rfl, h⟩ ha
  · exact (step_not_tracer hs htr).2.2.2.2

/-- The request is still unserved when `dump_requests` is next read. -/
theorem request_pending {before s₁ s₂ : Pipeline} {es : List Act}
    (hreach : pipeline.Reachable before) (hreq : before.requesting)
    (hinc : before.step (.producer .uartrx) = some s₁)
    (hr : pipeline.ReachesAvoiding readsRequests s₁ es s₂) (hfew : s₂.Few) :
    s₂.dumpRequests ≠ s₂.dumpsDone := by
  have hbefore : s₁.Few → before.dumpsDone = s₁.dumpsDone ∧
      before.dumpsDone.toNat < s₁.dumpRequests.toNat := by
    intro hfew₁
    have hrq := requested_reachable hreach (Few.of_step hinc hfew₁)
    have hlt := hrq.lt hreq.2 (by rw [hreq.1]; rfl)
    have hdone := hrq.done_le
    rw [requesting_step hreq hinc]
    refine ⟨rfl, ?_⟩
    show _ < (before.dumpRequests + 1).toNat
    rw [toNat_succ (Nat.lt_of_le_of_lt hlt (Few.of_step hinc hfew₁))]
    omega
  have hend := Automaton.reachesAvoiding_induction
    (I := fun t => t.Few → before.dumpsDone = t.dumpsDone ∧
      before.dumpsDone.toNat < t.dumpRequests.toNat)
    (fun s a t hs hP hI hstep hfewt => by
      have hfews := Few.of_step hstep hfewt
      obtain ⟨hdone, hlt⟩ := hI hfews
      refine ⟨by rw [hdone, step_dumpsDone hstep hP], Nat.lt_of_lt_of_le hlt ?_⟩
      exact step_dumpRequests (requested_reachable hs hfews) hfews hstep)
    (reachable_step hreach hinc) hbefore hr hfew
  intro he
  rw [he, ← hend.1] at hend
  exact Nat.lt_irrefl _ hend.2

/-- What the dump prints is the archive at the read that started it. -/
theorem Serves.printed {before after : Pipeline} (h : Serves before after)
    (hreach : pipeline.Reachable before) (hfew : after.Few) :
    ∃ s₁ s₂ es, before.step (.producer .uartrx) = some s₁ ∧
      pipeline.ReachesAvoiding readsRequests s₁ es s₂ ∧ s₂.Few ∧ s₂.tracer = .maybeDump ∧
      after.archive = s₂.archive ∧ after.dumps.getLast? = some s₂.archive.stored := by
  obtain ⟨hreq, hinc, hothers, hreading, hread, hprinting, hprint⟩ := h
  rename_i s₁ s₂ s₃ s₄ es fs
  have hfew₂ : s₂.Few := Few.of_step hread
    (Few.of_reaches hprinting.reaches (Few.of_step hprint hfew))
  have hpending := request_pending hreach hreq hinc hothers hfew₂
  obtain rfl := Option.some.inj hread
  have hs₃ : s₂.tracerStep =
      { s₂ with dumpsDone := s₂.dumpRequests, tracer := .dumpArchive } := by
    simp only [tracerStep, hreading, hpending, if_false]
  have hreach₃ : pipeline.Reachable s₂.tracerStep :=
    reachable_step (a := .tracer) ((reachable_step hreach hinc).reaches hothers.reaches) rfl
  obtain ⟨htracer, harchive⟩ := Automaton.reachesAvoiding_induction
    (I := fun t => t.tracer = .dumpArchive ∧ t.archive = s₂.archive)
    (fun s a t _ hP hI hstep => by
      obtain ⟨ht, -, ha, -⟩ := step_not_tracer hstep hP
      exact ⟨ht.trans hI.1, ha.trans hI.2⟩)
    hreach₃ (by rw [hs₃]; exact ⟨rfl, rfl⟩) hprinting
  obtain rfl := Option.some.inj hprint
  have hs₅ : s₄.tracerStep =
      { s₄ with dumps := s₄.dumps ++ [s₄.archive.stored], tracer := .idle } := by
    simp only [tracerStep, htracer]
  refine ⟨s₁, s₂, es, hinc, hothers, hfew₂, hreading, ?_, ?_⟩
  · rw [hs₅]
    exact harchive
  · rw [hs₅, ← harchive]
    exact List.getLast?_concat

/-- When the tracer enters `drain_console`, the ring has just been empty. -/
theorem tracerStep_pastDrain {s : Pipeline} (h : Inv s) (hpast : s.tracerStep.pastDrain)
    (hs : s.tracer ≠ .maybeDump) :
    s.pastDrain ∧ s.tracerStep.drained = s.drained ∧ s.tracerStep.archive = s.archive ∨
      s.tracerStep.drained = s.published.length := by
  have hd := h.draining
  unfold pastDrain tracerStep at *
  cases ht : s.tracer <;> rw [ht] at hd hpast hs
  case loadHead tail =>
    by_cases hempty : tail = s.ring.head
    · obtain ⟨htail, hdrained⟩ := hd
      refine Or.inr ?_
      show s.drained = s.published.length
      rw [← hdrained, ← htail, hempty, h.head]
    · simp [hempty] at hpast
  case drainConsole => exact Or.inl ⟨Or.inl rfl, rfl, rfl⟩
  case maybeDump => exact absurd rfl hs
  all_goals simp at hpast

/-- Unless the request came too late, the archive the dump prints has room for
every completed record or has passed it. -/
theorem drained_of_not_missed (before : Pipeline) {s₁ s₂ : Pipeline} {es : List Act}
    (hreach : pipeline.Reachable s₁) (hr : pipeline.ReachesAvoiding readsRequests s₁ es s₂)
    (hreading : s₂.tracer = .maybeDump) (hfew : s₂.Few)
    (hpublished : s₁.published = before.published)
    (hstart : s₁.pastDrain → before.completed.length ≤ s₁.drained) :
    before.completed.length ≤ s₂.drained := by
  have hend := Automaton.reachesAvoiding_induction
    (I := fun t => t.Few → before.completed.length ≤ t.published.length ∧
      (t.pastDrain → before.completed.length ≤ t.drained))
    (fun s a t hs hP hI hstep hfewt => by
      obtain ⟨hlen, hpast⟩ := hI (Few.of_step hstep hfewt)
      obtain ⟨l, hl⟩ := step_published hstep
      refine ⟨?_, fun ht => ?_⟩
      · rw [hl, List.length_append]
        exact Nat.le_trans hlen (Nat.le_add_right _ _)
      · by_cases htr : a = .tracer
        · subst htr
          obtain rfl := Option.some.inj hstep
          have hinv := inv_reachable hs (Few.of_step (a := .tracer) rfl hfewt)
          rcases tracerStep_pastDrain hinv ht (fun hm => hP ⟨rfl, hm⟩) with ⟨hp, hd, -⟩ | hd
          · rw [hd]
            exact hpast hp
          · rw [hd]
            exact hlen
        · obtain ⟨htracer, hd, -⟩ := step_not_tracer hstep htr
          rw [hd]
          rw [pastDrain, htracer] at ht
          exact hpast ht)
    hreach
    (fun _ => ⟨hpublished ▸ completed_length_le before, hstart⟩) hr hfew
  exact hend.2 (Or.inr hreading)

/-- From its last look at the ring to its read of `dump_requests` the tracer
archives nothing. -/
theorem archive_of_pastDrain {s₁ s₂ : Pipeline} {es : List Act} (hreach : pipeline.Reachable s₁)
    (hr : pipeline.ReachesAvoiding readsRequests s₁ es s₂) (hpast : s₁.pastDrain) :
    s₂.archive = s₁.archive := by
  refine (Automaton.reachesAvoiding_induction
    (I := fun t => t.pastDrain ∧ t.archive = s₁.archive)
    (fun s a t _ hP hI hstep => ?_) hreach ⟨hpast, rfl⟩ hr).2
  obtain ⟨hp, ha⟩ := hI
  by_cases htr : a = .tracer
  · subst htr
    obtain rfl := Option.some.inj hstep
    rcases hp with hp | hp
    · rw [tracerStep, hp]
      exact ⟨Or.inr rfl, ha⟩
    · exact absurd ⟨rfl, hp⟩ hP
  · obtain ⟨htracer, -, harchive, -⟩ := step_not_tracer hstep htr
    exact ⟨by rw [pastDrain, htracer]; exact hp, by rw [harchive, ha]⟩

/-- The archive holds exactly the published records it has numbers for. -/
theorem Inv.mem_stored {s : Pipeline} (h : Inv s) (hfew : s.Few) {k : Nat} {r : TraceRecord}
    (hk : s.published[k]? = some r) : r ∈ s.archive.stored ↔ k < s.archive.count.toNat := by
  have hkey : ∀ {i : Nat} {r : TraceRecord}, s.published[i]? = some r → r.seq.toNat = i := by
    intro i r hi
    obtain ⟨hlt, -⟩ := List.getElem?_eq_some_iff.mp hi
    rw [h.seq i r hi, UInt64.toNat_ofNat_of_lt' (Nat.lt_trans hlt hfew)]
  rw [h.stored_eq, List.mem_take_iff_getElem]
  constructor
  · rintro ⟨i, hi, he⟩
    obtain ⟨hlt, hlen⟩ := Nat.lt_min.mp hi
    have hi' := hkey (List.getElem?_eq_some_iff.mpr ⟨hlen, he⟩)
    rw [hkey hk] at hi'
    exact hi' ▸ hlt
  · intro hlt
    obtain ⟨hlen, he⟩ := List.getElem?_eq_some_iff.mp hk
    exact ⟨k, Nat.lt_min.mpr ⟨hlt, hlen⟩, he⟩

theorem completed_getElem? {s : Pipeline} {k : Nat} (hk : k < s.completed.length) :
    s.completed[k]? = s.published[k]? := by
  rw [completed, List.length_take] at hk
  rw [completed, List.getElem?_take_of_lt (Nat.lt_of_lt_of_le hk (Nat.min_le_left _ _))]

/-- A completed record is printed exactly when its number is below the count of
the archive that the dump prints. -/
theorem completed_mem_stored {before t : Pipeline} {es : List Act} (h : Inv t) (hfew : t.Few)
    (hr : pipeline.Reaches before es t) {k : Nat} {r : TraceRecord}
    (hk : before.completed[k]? = some r) :
    r ∈ t.archive.stored ↔ k < t.archive.count.toNat := by
  obtain ⟨l, hl⟩ := reaches_published hr
  obtain ⟨hlt, -⟩ := List.getElem?_eq_some_iff.mp hk
  rw [completed_getElem? hlt] at hk
  refine h.mem_stored hfew (k := k) ?_
  rw [hl, List.getElem?_append_left (Nat.lt_of_lt_of_le hlt (completed_length_le before)), hk]

end Pipeline

open Pipeline

/-- The dump that serves a request covers every completed record exactly when
the request was not made in the gap after the tracer's last look at the ring. -/
theorem dump_covers_iff {before after : Pipeline} (hreach : pipeline.Reachable before)
    (hfew : after.published.length < 2 ^ 64) (h : Serves before after) :
    Covers before after ↔ ¬Missed before := by
  have hreq : before.requesting := by
    obtain ⟨hreq, -⟩ := h
    exact hreq
  obtain ⟨s₁, s₂, es, hinc, hothers, hfew₂, hreading, harchive, hprinted⟩ := h.printed hreach hfew
  have hreach₁ := reachable_step hreach hinc
  have hinv := inv_reachable (hreach₁.reaches hothers.reaches) hfew₂
  have hrun : pipeline.Reaches before (.producer .uartrx :: es) s₂ :=
    (pipeline.reaches_cons).mpr ⟨s₁, hinc, hothers.reaches⟩
  have hs₁ := requesting_step hreq hinc
  have hcount := hinv.count
  rw [Covers, harchive, hprinted]
  constructor
  · rintro hcovers ⟨hpast, hlt, hroom⟩
    have hsame : s₂.archive = before.archive := by
      rw [archive_of_pastDrain hreach₁ hothers (by rw [hs₁]; exact hpast), hs₁]
    rcases hcovers with hfull | ⟨printed, he, hall⟩
    · exact hroom (hsame ▸ hfull)
    · obtain rfl := Option.some.inj he
      have hinv₀ := inv_reachable hreach (Few.of_reaches hrun hfew₂)
      obtain ⟨r, hr⟩ : ∃ r, before.completed[before.drained]? = some r :=
        ⟨_, List.getElem?_eq_getElem hlt⟩
      have hk := (completed_mem_stored hinv hfew₂ hrun hr).mp
        (hall r (List.mem_of_getElem? hr))
      rw [hsame, hinv₀.count] at hk
      omega
  · intro hnot
    by_cases hfull : s₂.archive.full
    · exact Or.inl hfull
    refine Or.inr ⟨_, rfl, fun r hr => ?_⟩
    have hroom : ¬before.archive.full := fun hf => hfull (s₂.archive.full_iff.mpr
      (Nat.le_antisymm s₂.archive.bounded
        (before.archive.full_iff.mp hf ▸ (reaches_archive hrun).1)))
    have hle := drained_of_not_missed before hreach₁ hothers hreading hfew₂
      (by rw [hs₁]) (fun hp => by
        rw [hs₁] at hp ⊢
        exact Nat.not_lt.mp fun hlt => hnot ⟨hp, hlt, hroom⟩)
    obtain ⟨k, hk⟩ := List.mem_iff_getElem?.mp hr
    obtain ⟨hlt, -⟩ := List.getElem?_eq_some_iff.mp hk
    have hcap := TraceArchive.count_lt hfull
    exact (completed_mem_stored hinv hfew₂ hrun hk).mpr (by omega)

/-- uartrx records a `trace-dump` and returns from `trace_emit`. -/
def recordTraceDump : List Act := .traceDump 1 :: List.replicate 8 (.producer .uartrx)

/-- The tracer drains the record before uartrx increments `dump_requests`. -/
def drainedFirst : List Act := recordTraceDump ++ List.replicate 7 .tracer

/-- The tracer finds the ring empty before uartrx records the `trace-dump`. -/
def emptyFirst : List Act := List.replicate 4 .tracer ++ recordTraceDump

/-- uartrx increments `dump_requests` and the tracer reads it and dumps. -/
def serveDump : List Act := [.producer .uartrx, .tracer, .tracer]

theorem dump_covers_iff_drainedFirst :
    Covers (afterRun drainedFirst) (afterRun (drainedFirst ++ serveDump)) := by
  have hserves : Serves (afterRun drainedFirst) (afterRun (drainedFirst ++ serveDump)) :=
    .intro ⟨rfl, rfl⟩ rfl .nil rfl rfl .nil rfl
  refine (dump_covers_iff ⟨drainedFirst, rfl⟩ (by decide) hserves).mpr ?_
  rintro ⟨-, hlt, -⟩
  exact absurd hlt (by decide)

/-- The dump that serves the request of `emptyFirst` is empty. -/
theorem dump_without_its_command : pipeline.Reachable (afterRun emptyFirst) ∧
    Serves (afterRun emptyFirst) (afterRun (emptyFirst ++ serveDump)) ∧
    ¬Covers (afterRun emptyFirst) (afterRun (emptyFirst ++ serveDump)) := by
  refine ⟨⟨emptyFirst, rfl⟩, .intro ⟨rfl, rfl⟩ rfl .nil rfl rfl .nil rfl, ?_⟩
  rintro (hfull | ⟨printed, he, hall⟩)
  · exact absurd hfull (by decide)
  · obtain rfl : [] = printed := Option.some.inj he
    exact absurd (hall _ List.mem_cons_self) List.not_mem_nil

end Trace
end TensorSel4
