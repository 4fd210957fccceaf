/-
When the records of one guest SMC have consecutive sequence numbers.

The producer lock covers one record, and one SMC is up to nine of them, so
uartrx can take the lock between two.  `Block` follows the VMM's records from
number `b` to `b + m - 1` through a run: while no `trace_emit` of uartrx gets the
lock part-way through them, they stay together at the end of what is published.
-/
import TensorSel4.Trace.Lossless
import TensorSel4.Vmm.Exit

namespace TensorSel4
namespace Trace

open RingBuffer

def TraceRecord.fromVmm (r : TraceRecord) : Bool := r.producer = Producer.vmm.id

namespace EmitPc

/-- With the lock taken and the record not published yet. -/
def publishing : EmitPc → Prop
  | .idle | .exchange _ | .spin _ | .unlock => False
  | _ => True

theorem publishing.inside {c : EmitPc} (h : c.publishing) : c.inside := by
  cases c <;> first | exact h.elim | trivial

end EmitPc

namespace Pipeline

/-- The producer's exchange of the lock word will succeed. -/
def takesLock (s : Pipeline) (p : Producer) : Prop :=
  (∃ rec, s.emit p = .exchange rec) ∧ s.ring.producerLock = 0

def vmmPublished (s : Pipeline) : Nat := s.published.countP TraceRecord.fromVmm

/-- uartrx takes the lock when the VMM has published some but not all of its `m`
records from number `b` on. -/
def takesLockInside (b m : Nat) (s : Pipeline) (a : Act) : Prop :=
  a = .producer .uartrx ∧ s.takesLock .uartrx ∧ b < s.vmmPublished ∧ s.vmmPublished < b + m

/-- What a step does to the lock and to the published records. -/
inductive Publication (s : Pipeline) (a : Act) (t : Pipeline) : Prop
  | neither (hpub : t.published = s.published)
      (hemit : ∀ q, (t.emit q).publishing ↔ (s.emit q).publishing)
  | locks (p : Producer) (ha : a = .producer p) (hp : s.takesLock p)
      (hpub : t.published = s.published) (hin : (t.emit p).publishing)
      (hother : ∀ q, q ≠ p → t.emit q = s.emit q)
  | publishes (p : Producer) (rec : TraceRecord) (hin : (s.emit p).publishing)
      (hid : rec.producer = p.id) (hpub : t.published = s.published ++ [rec])
      (hout : ¬(t.emit p).publishing) (hother : ∀ q, q ≠ p → t.emit q = s.emit q)

/-- A step of `trace_emit` that neither takes the lock nor publishes. -/
theorem Publication.of_setEmit {s t : Pipeline} {a : Act} {p : Producer} {c : EmitPc}
    (hemit : t.emit = (s.setEmit p c).emit) (hpub : t.published = s.published)
    (hc : c.publishing ↔ (s.emit p).publishing) : Publication s a t := by
  refine .neither hpub fun q => ?_
  rw [hemit]
  exact forall_setEmit (P := fun q pc => pc.publishing ↔ (s.emit q).publishing) hc
    (fun _ _ => Iff.rfl) q

theorem Inv.publication {s t : Pipeline} (h : Inv s) {a : Act} (hs : s.step a = some t) :
    Publication s a t := by
  cases a with
  | call p rec =>
    simp only [Pipeline.step, Option.ite_none_right_eq_some, Option.some.injEq] at hs
    obtain ⟨⟨hidle, -⟩, rfl⟩ := hs
    exact .of_setEmit (p := p) (c := .exchange rec) rfl rfl (by rw [hidle]; rfl)
  | traceDump id =>
    simp only [Pipeline.step, Option.ite_none_right_eq_some, Option.some.injEq] at hs
    obtain ⟨⟨hidle, -⟩, rfl⟩ := hs
    exact .of_setEmit (p := .uartrx) (c := .exchange _) rfl rfl (by rw [hidle]; rfl)
  | tracer =>
    obtain rfl := Option.some.inj hs
    have hpub : s.tracerStep.published = s.published ∧ s.tracerStep.emit = s.emit := by
      unfold Pipeline.tracerStep
      cases s.tracer with
      | maybeDump => dsimp only; split <;> exact ⟨rfl, rfl⟩
      | _ => exact ⟨rfl, rfl⟩
    exact .neither hpub.1 fun q => by rw [hpub.2]
  | tick t =>
    simp only [Pipeline.step, Option.ite_none_right_eq_some, Option.some.injEq] at hs
    obtain ⟨-, rfl⟩ := hs
    exact .neither rfl fun q => Iff.rfl
  | producer p =>
    have hs' : s.producerStep p = some t := hs
    unfold Pipeline.producerStep at hs'
    cases hp : s.emit p with
    | idle =>
      simp only [hp, Option.ite_none_right_eq_some, Option.some.injEq] at hs'
      obtain ⟨-, rfl⟩ := hs'
      exact .neither rfl fun q => Iff.rfl
    | exchange rec =>
      simp only [hp, Option.some.injEq] at hs'
      subst hs'
      by_cases hlock : s.ring.producerLock = 0
      · refine .locks p rfl ⟨⟨rec, hp⟩, hlock⟩ rfl ?_ fun q hq => setEmit_ne s hq _
        show ((s.setEmit p _).emit p).publishing
        rw [setEmit_self, if_pos hlock]
        trivial
      · exact .of_setEmit rfl rfl (by rw [hp, if_neg hlock]; rfl)
    | spin rec =>
      simp only [hp, Option.some.injEq] at hs'
      subst hs'
      exact .of_setEmit rfl rfl (by rw [hp]; split <;> rfl)
    | waitForSpace rec head =>
      simp only [hp, Option.some.injEq] at hs'
      subst hs'
      exact .of_setEmit rfl rfl (by rw [hp]; split <;> rfl)
    | storeHead rec head =>
      simp only [hp, Option.some.injEq] at hs'
      subst hs'
      have hh : s.Holder p (.storeHead rec head) := hp ▸ h.holder p
      refine .publishes p rec (by rw [hp]; trivial) hh.1.producer rfl ?_
        fun q hq => setEmit_ne s hq _
      show ¬((s.setEmit p .unlock).emit p).publishing
      rw [setEmit_self]
      exact id
    | _ =>
      simp only [hp, Option.some.injEq] at hs'
      subst hs'
      exact .of_setEmit rfl rfl (by rw [hp]; rfl)

/-- The VMM's records from number `b` to `b + k - 1` stand at place `i` and on. -/
def PlacedAt (l : List TraceRecord) (b k i : Nat) : Prop :=
  ∀ j, j < k → ∃ r, l[i + j]? = some r ∧ r.fromVmm = true ∧
    (l.take (i + j)).countP TraceRecord.fromVmm = b + j

theorem PlacedAt.append {l : List TraceRecord} {b k i : Nat} (h : PlacedAt l b k i)
    (x : TraceRecord) : PlacedAt (l ++ [x]) b k i := by
  intro j hj
  obtain ⟨r, hr, hvmm, hcount⟩ := h j hj
  obtain ⟨hlt, -⟩ := List.getElem?_eq_some_iff.mp hr
  refine ⟨r, by rw [List.getElem?_append_left hlt, hr], hvmm, ?_⟩
  rw [List.take_append_of_le_length (Nat.le_of_lt hlt), hcount]

theorem PlacedAt.extend {l : List TraceRecord} {b k i : Nat} (h : PlacedAt l b k i)
    {x : TraceRecord} (hx : x.fromVmm = true) (hlen : i + k = l.length)
    (hcount : l.countP TraceRecord.fromVmm = b + k) : PlacedAt (l ++ [x]) b (k + 1) i := by
  intro j hj
  by_cases hlt : j < k
  · exact h.append x j hlt
  · obtain rfl : j = k := by omega
    refine ⟨x, ?_, hx, ?_⟩
    · rw [hlen, List.getElem?_concat_length]
    · rw [hlen, List.take_left, hcount]

/-- The part of the block that is published is in one piece, and at the end
until it is complete. -/
def Block (b m : Nat) (s : Pipeline) : Prop :=
  ∃ i, PlacedAt s.published b (min (s.vmmPublished - b) m) i ∧
    (b < s.vmmPublished → s.vmmPublished < b + m →
      i + (s.vmmPublished - b) = s.published.length ∧ ¬(s.emit .uartrx).publishing)

/-- The block is broken: uartrx holds the lock or has published inside it. -/
def Broken (b m : Nat) (s : Pipeline) : Prop :=
  (b < s.vmmPublished ∧ s.vmmPublished < b + m ∧ (s.emit .uartrx).publishing) ∨
    ∃ p r, s.published[p]? = some r ∧ r.fromVmm = false ∧
      b < (s.published.take p).countP TraceRecord.fromVmm ∧
      (s.published.take p).countP TraceRecord.fromVmm < b + m

theorem vmmPublished_append {s t : Pipeline} {r : TraceRecord}
    (h : t.published = s.published ++ [r]) :
    t.vmmPublished = s.vmmPublished + if r.fromVmm then 1 else 0 := by
  rw [vmmPublished, h, List.countP_append, vmmPublished]
  simp [List.countP_singleton]

theorem Inv.not_publishing {s : Pipeline} (h : Inv s) {p q : Producer}
    (hp : (s.emit p).publishing) (hne : q ≠ p) : ¬(s.emit q).publishing :=
  fun hq => hne (h.exclusive q p hq.inside hp.inside)

theorem Block.publishVmm {b m : Nat} {s t : Pipeline} (h : Block b m s) {rec : TraceRecord}
    (hvmm : rec.fromVmm = true) (hpub : t.published = s.published ++ [rec])
    (hout : ¬(t.emit .uartrx).publishing) : Block b m t := by
  have hcount : t.vmmPublished = s.vmmPublished + 1 := by
    rw [vmmPublished_append hpub, if_pos hvmm]
  have hlen : t.published.length = s.published.length + 1 := by rw [hpub]; simp
  obtain ⟨i, hplaced, hend⟩ := h
  rw [Block, hcount, hpub]
  rcases Nat.lt_trichotomy s.vmmPublished b with hlt | heq | hgt
  · refine ⟨i, fun j hj => ?_, fun hb => ?_⟩ <;> omega
  · -- The first record of the block goes to the end of the list.
    have hstart : PlacedAt s.published b 0 s.published.length := fun j hj => by omega
    have hone := hstart.extend hvmm rfl (by rw [← heq]; rfl)
    refine ⟨s.published.length, fun j hj => hone j (by omega), fun _ _ => ⟨?_, hout⟩⟩
    rw [List.length_append, heq, List.length_singleton]
    omega
  · by_cases hinside : s.vmmPublished < b + m
    · obtain ⟨hi, -⟩ := hend hgt hinside
      rw [Nat.min_eq_left (by omega)] at hplaced
      have hnext := hplaced.extend hvmm hi
        (show s.vmmPublished = _ by omega)
      refine ⟨i, fun j hj => hnext j (by omega), fun _ _ => ⟨?_, hout⟩⟩
      rw [List.length_append, List.length_singleton]
      omega
    · refine ⟨i, fun j hj => hplaced.append rec j (by omega), fun _ hlt => ?_⟩
      omega

theorem Block.step {b m : Nat} {s t : Pipeline} {a : Act} (hinv : Inv s) (h : Block b m s)
    (hs : s.step a = some t) (ha : ¬s.takesLockInside b m a) : Block b m t := by
  cases hinv.publication hs with
  | neither hpub hemit =>
    obtain ⟨i, hplaced, hend⟩ := h
    have hcount : t.vmmPublished = s.vmmPublished := by rw [vmmPublished, hpub, vmmPublished]
    rw [Block, hcount, hpub, hemit]
    exact ⟨i, hplaced, hend⟩
  | locks p hact hp hpub hin hother =>
    obtain ⟨i, hplaced, hend⟩ := h
    have hcount : t.vmmPublished = s.vmmPublished := by rw [vmmPublished, hpub, vmmPublished]
    rw [Block, hcount, hpub]
    refine ⟨i, hplaced, fun hgt hlt => ?_⟩
    cases p with
    | vmm =>
      rw [hother .uartrx (by decide)]
      exact hend hgt hlt
    | uartrx => exact absurd ⟨hact, hp, hgt, hlt⟩ ha
  | publishes p rec hin hid hpub hout hother =>
    cases p with
    | vmm =>
      refine h.publishVmm (by simpa [TraceRecord.fromVmm] using hid) hpub ?_
      rw [hother .uartrx (by decide)]
      exact hinv.not_publishing hin (by decide)
    | uartrx =>
      obtain ⟨i, hplaced, hend⟩ := h
      have hno : rec.fromVmm = false := by simp [TraceRecord.fromVmm, hid, Producer.id]
      have hcount : t.vmmPublished = s.vmmPublished := by
        rw [vmmPublished_append hpub, hno]
        rfl
      rw [Block, hcount, hpub]
      exact ⟨i, hplaced.append rec, fun hgt hlt => absurd hin (hend hgt hlt).2⟩

theorem Broken.step {b m : Nat} {s t : Pipeline} {a : Act} (hinv : Inv s) (h : Broken b m s)
    (hs : s.step a = some t) : Broken b m t := by
  have hkeep : ∀ l, t.published = s.published ++ l →
      (∃ p r, s.published[p]? = some r ∧ r.fromVmm = false ∧
        b < (s.published.take p).countP TraceRecord.fromVmm ∧
        (s.published.take p).countP TraceRecord.fromVmm < b + m) → Broken b m t := by
    rintro l hl ⟨p, r, hr, hno, hgt, hlt⟩
    obtain ⟨hp, -⟩ := List.getElem?_eq_some_iff.mp hr
    refine Or.inr ⟨p, r, ?_, hno, ?_⟩
    · rw [hl, List.getElem?_append_left hp, hr]
    · rw [hl, List.take_append_of_le_length (Nat.le_of_lt hp)]
      exact ⟨hgt, hlt⟩
  obtain ⟨l, hl⟩ := step_published hs
  rcases h with ⟨hgt, hlt, hholds⟩ | hpast
  · cases hinv.publication hs with
    | neither hpub hemit =>
      refine Or.inl ?_
      rw [vmmPublished, hpub, hemit]
      exact ⟨hgt, hlt, hholds⟩
    | locks p hact hp hpub hin hother =>
      refine Or.inl ?_
      rw [vmmPublished, hpub]
      refine ⟨hgt, hlt, ?_⟩
      by_cases hq : Producer.uartrx = p
      · exact hq ▸ hin
      · rw [hother _ hq]
        exact hholds
    | publishes p rec hin hid hpub hout hother =>
      obtain rfl : p = .uartrx := by
        by_contra hne
        exact hinv.not_publishing hholds hne hin
      refine Or.inr ⟨s.published.length, rec, ?_,
        by simp [TraceRecord.fromVmm, hid, Producer.id], ?_⟩
      · rw [hpub, List.getElem?_concat_length]
      · rw [hpub, List.take_left]
        exact ⟨hgt, hlt⟩
  · exact hkeep l hl hpast

/-- A broken block is in no one place. -/
theorem Broken.not_placedAt {b m : Nat} {s : Pipeline} (h : Broken b m s)
    (hdone : b + m ≤ s.vmmPublished) (i : Nat) : ¬PlacedAt s.published b m i := by
  intro hplaced
  rcases h with ⟨-, hlt, -⟩ | ⟨p, r, hr, hno, hgt, hlt⟩
  · omega
  · have hmono : ∀ x y, x ≤ y → (s.published.take x).countP TraceRecord.fromVmm ≤
        (s.published.take y).countP TraceRecord.fromVmm := fun x y hxy =>
      ((List.take_prefix_take_left hxy).sublist).countP_le
    by_cases hbefore : p < i
    · obtain ⟨-, -, -, hcount⟩ := hplaced 0 (by omega)
      have := hmono p (i + 0) (by omega)
      omega
    · by_cases hafter : p < i + m
      · obtain ⟨r', hr', hvmm, -⟩ := hplaced (p - i) (by omega)
        rw [show i + (p - i) = p by omega, hr] at hr'
        obtain rfl := Option.some.inj hr'
        exact Bool.false_ne_true (hno.symm.trans hvmm)
      · obtain ⟨r', hr', hvmm, hcount⟩ := hplaced (m - 1) (by omega)
        have hnext : (s.published.take (i + (m - 1) + 1)).countP TraceRecord.fromVmm = b + m := by
          obtain ⟨hlt', hget⟩ := List.getElem?_eq_some_iff.mp hr'
          rw [List.take_add_one, List.countP_append, hcount, hr']
          simp [hvmm]
          omega
        have := hmono (i + (m - 1) + 1) p (by omega)
        omega

theorem block_of_avoiding {b m : Nat} {es : List Act} {s : Pipeline}
    (hr : pipeline.ReachesAvoiding (takesLockInside b m) pipeline.start es s) (hfew : s.Few) :
    Block b m s := by
  refine Automaton.reachesAvoiding_induction (I := fun t => t.Few → Block b m t)
    (fun t a u ht ha hI hstep hfewu => ?_) ⟨[], rfl⟩ (fun _ => ?_) hr hfew
  · have hfewt := Few.of_step hstep hfewu
    exact (hI hfewt).step (inv_reachable ht hfewt) hstep ha
  · refine ⟨0, fun j hj => ?_, fun hgt => absurd hgt (Nat.not_lt_zero b)⟩
    rw [show (pipeline.start).vmmPublished = 0 from rfl, Nat.zero_sub, Nat.zero_min] at hj
    exact absurd hj (Nat.not_lt_zero j)

theorem broken_of_not_avoiding {b m : Nat} {es : List Act} {s : Pipeline}
    (hr : pipeline.Reaches pipeline.start es s) (hfew : s.Few)
    (h : ¬pipeline.ReachesAvoiding (takesLockInside b m) pipeline.start es s) : Broken b m s := by
  obtain ⟨fs, t, a, u, gs, ht, ⟨rfl, hlock, hgt, hlt⟩, hstep, hrest⟩ :=
    Automaton.exists_step_of_not_avoiding hr h
  have hreach : pipeline.Reachable t := ⟨fs, ht⟩
  have hreachu := Automaton.Reachable.step hreach hstep
  have hbroken : u.Few → Broken b m u := by
    intro _
    obtain ⟨⟨rec, hrec⟩, hfree⟩ := hlock
    have hstep' : t.producerStep .uartrx = some u := hstep
    simp only [producerStep, hrec, Option.some.injEq] at hstep'
    subst hstep'
    refine Or.inl ⟨hgt, hlt, ?_⟩
    show ((t.setEmit .uartrx _).emit .uartrx).publishing
    rw [setEmit_self, if_pos hfree]
    trivial
  refine (Automaton.reaches_induction (A := pipeline)
    (I := fun v => pipeline.Reachable v ∧ (v.Few → Broken b m v))
    (fun v a w hv hw => ?_) ⟨hreachu, hbroken⟩ hrest).2 hfew
  refine ⟨hv.1.step hw, fun hfeww => ?_⟩
  have hfewv := Few.of_step hw hfeww
  exact (hv.2 hfewv).step (inv_reachable hv.1 hfewv) hw

/-- The VMM's records from number `b` on are `recs`, and they have consecutive
sequence numbers. -/
def Consecutive (s : Pipeline) (b : Nat) (recs : List TraceRecord) : Prop :=
  ∃ i, ∀ (j : Nat) (r : TraceRecord), recs[j]? = some r →
    ∃ q, s.published[i + j]? = some q ∧ q.seq.toNat = i + j ∧ q.fromVmm = true ∧
      (s.published.take (i + j)).countP TraceRecord.fromVmm = b + j ∧ q.payload = r.payload

/-- The published record of a producer with a given number in its order. -/
theorem Inv.payload_eq {s : Pipeline} (h : Inv s) {n k : Nat} {q r : TraceRecord}
    (hq : s.published[n]? = some q) (hvmm : q.fromVmm = true)
    (hcount : (s.published.take n).countP TraceRecord.fromVmm = k)
    (hr : (s.submitted .vmm)[k]? = some r) : q.payload = r.payload := by
  obtain ⟨hn, hget⟩ := List.getElem?_eq_some_iff.mp hq
  have hfilter : (s.published.filter TraceRecord.fromVmm)[k]? = some q := by
    conv_lhs => rw [← List.take_append_drop n s.published]
    rw [List.drop_eq_getElem_cons hn, hget, List.filter_append, List.filter_cons, if_pos hvmm,
      List.getElem?_append_right (by rw [← List.countP_eq_length_filter, hcount]),
      ← List.countP_eq_length_filter, hcount, Nat.sub_self]
    rfl
  have hpayload : (payloads .vmm s.published)[k]? = some q.payload := by
    rw [payloads, List.getElem?_map]
    exact congrArg (Option.map _) hfilter
  have horder := h.order .vmm
  have hsubmitted : ((s.submitted .vmm).map TraceRecord.payload)[k]? = some r.payload := by
    rw [List.getElem?_map, hr]
    rfl
  obtain ⟨hk, -⟩ := List.getElem?_eq_some_iff.mp hpayload
  rw [← horder, List.getElem?_append_left hk, hpayload] at hsubmitted
  exact Option.some.inj hsubmitted

end Pipeline

open Pipeline Vmm

/-- The records of one guest SMC, the VMM's from number `b` on, have consecutive
sequence numbers exactly when uartrx never takes the producer lock between the
first and the last of them. -/
theorem smc_records_consecutive_iff {es : List Act} {s : Pipeline}
    (hr : pipeline.Reaches pipeline.start es s) (hfew : s.published.length < 2 ^ 64)
    {vcpu : Nat} {hsr : UInt64} {env : CallEnv} {b : Nat}
    (hblock : ∀ j r, (smcRecords vcpu hsr env)[j]? = some r →
      (s.submitted .vmm)[b + j]? = some r)
    (hdone : b + (smcRecords vcpu hsr env).length ≤ s.vmmPublished) :
    Consecutive s b (smcRecords vcpu hsr env) ↔
      pipeline.ReachesAvoiding (takesLockInside b (smcRecords vcpu hsr env).length)
        pipeline.start es s := by
  have hinv := inv_reachable ⟨es, hr⟩ hfew
  constructor
  · rintro ⟨i, hi⟩
    by_contra h
    refine (broken_of_not_avoiding hr hfew h).not_placedAt hdone i fun j hj => ?_
    obtain ⟨q, hq, -, hvmm, hcount, -⟩ := hi j _ (List.getElem?_eq_getElem hj)
    exact ⟨q, hq, hvmm, hcount⟩
  · intro h
    obtain ⟨i, hplaced, -⟩ := block_of_avoiding h hfew
    rw [Nat.min_eq_right (by omega)] at hplaced
    refine ⟨i, fun j r hjr => ?_⟩
    obtain ⟨hj, -⟩ := List.getElem?_eq_some_iff.mp hjr
    obtain ⟨q, hq, hvmm, hcount⟩ := hplaced j hj
    obtain ⟨hlt, -⟩ := List.getElem?_eq_some_iff.mp hq
    refine ⟨q, hq, ?_, hvmm, hcount, hinv.payload_eq hq hvmm hcount (hblock j r hjr)⟩
    rw [hinv.seq _ _ hq, UInt64.toNat_ofNat_of_lt' (Nat.lt_trans hlt hfew)]

/-- One uncontended `trace_emit`. -/
def emitAlone (p : Producer) (rec : TraceRecord) : List Act :=
  .call p rec :: List.replicate 8 (.producer p)

/-- The trap of an SMC that the policy refuses. -/
def refusedEnv : CallEnv :=
  { trapRegs := .ok { x := Function.update (fun _ => 0) 0 0x82000000 } }

def smcAlone : List Act := (smcRecords 0 0x5c000000 refusedEnv).flatMap (emitAlone .vmm)

theorem smc_records_consecutive_iff_alone :
    Consecutive (afterRun smcAlone) 0 (smcRecords 0 0x5c000000 refusedEnv) := by
  have hr : pipeline.Reaches pipeline.start smcAlone (afterRun smcAlone) := rfl
  refine (smc_records_consecutive_iff hr (by decide) (fun j r hj => ?_) (by decide)).mpr ?_
  · rw [Nat.zero_add]
    exact hj
  · refine .of_reaches hr fun e he m hm => ?_
    obtain ⟨rec, -, he⟩ := List.mem_flatMap.mp he
    rcases List.mem_cons.mp he with rfl | he
    · exact absurd hm.1 Act.noConfusion
    · obtain rfl := List.eq_of_mem_replicate he
      exact absurd hm.1 (by simp)

/-- uartrx records a command after the SMC_ENTER record. -/
def smcInterrupted : List Act :=
  ((smcRecords 0 0x5c000000 refusedEnv).take 1).flatMap (emitAlone .vmm) ++
    emitAlone .uartrx (recordCommand cmdVerbTraceDump 1 cmdAccepted 0) ++
    ((smcRecords 0 0x5c000000 refusedEnv).drop 1).flatMap (emitAlone .vmm)

theorem smc_interrupted : pipeline.Reaches pipeline.start smcInterrupted (afterRun smcInterrupted) ∧
    (afterRun smcInterrupted).submitted .vmm = smcRecords 0 0x5c000000 refusedEnv ∧
    ¬Consecutive (afterRun smcInterrupted) 0 (smcRecords 0 0x5c000000 refusedEnv) := by
  refine ⟨rfl, rfl, ?_⟩
  rintro ⟨i, hi⟩
  have hsecond : (afterRun smcInterrupted).published[1]?.map TraceRecord.fromVmm = some false := rfl
  have hlen : (afterRun smcInterrupted).published.length = 6 := rfl
  obtain ⟨q, hq, -⟩ := hi 4 _ rfl
  obtain ⟨hlt, -⟩ := List.getElem?_eq_some_iff.mp hq
  rcases (by omega : i = 0 ∨ i = 1) with rfl | rfl
  · obtain ⟨q', hq', -, hvmm, -⟩ := hi 1 _ rfl
    rw [hq', Option.map_some, hvmm] at hsecond
    exact nomatch hsecond
  · obtain ⟨q', hq', -, hvmm, -⟩ := hi 0 _ rfl
    rw [hq', Option.map_some, hvmm] at hsecond
    exact nomatch hsecond

end Trace
end TensorSel4
