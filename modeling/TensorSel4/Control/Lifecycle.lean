/-
Host commands explain lifecycle changes.

The positions of the trace are the sequence numbers until the 64-bit counter
wraps.  The runs below show both sides of that: a guest that is started by the
first command, and one that is started after 2^64 - 1 other commands, whose
STARTED record has the sequence number zero.
-/
import TensorSel4.Control.Causes
import TensorSel4.Trace.DumpRequest

namespace TensorSel4
namespace Control

open Bytes Command RingBuffer Trace Uartrx Vmm

namespace System

variable {b : Build} {uart : UartConfig} {s t : System}

theorem inv_start (uart : UartConfig) : Inv { host := { todo := uartrxInit uart } } where
  channel := CmdChannel.inv_start
  balanced := by
    refine ⟨id, [], [], _, .recorded rfl (prints_uartrxInit uart).recordsOf_eq, .nil id, .nil, ?_⟩
    show Marks _ _ [] ([] ++ ([] ++ commandsOf (uartrxInit uart)))
    rw [(prints_uartrxInit uart).commandsOf_eq]
    exact .nil

theorem inv_of_reachable (hs : (control b uart).Reachable s) : Inv s :=
  Automaton.reachable_induction (inv_start uart) (fun _ _ _ hI ht => hI.step ht) hs

/-- The trace ring's part of a run is a run of the trace ring. -/
theorem pipe_reachable (hs : (control b uart).Reachable s) : pipeline.Reachable s.pipe := by
  refine Automaton.reachable_induction (I := fun s => pipeline.Reachable s.pipe)
    ⟨[], (Automaton.reaches_nil _).mpr rfl⟩ ?_ hs
  intro s a t hI ht
  have hnext : ∀ {a : Trace.Act} {pipe : Pipeline}, s.pipe.step a = some pipe →
      pipeline.Reachable pipe := fun hpipe => hI.step hpipe
  cases moves_of_step ht with
  | emits p hpipe => exact hnext hpipe
  | records _ _ hpipe => exact hnext hpipe
  | requests _ _ hpipe => exact hnext hpipe
  | owes _ _ hpipe => exact hnext hpipe
  | drains hpipe => exact hnext hpipe
  | _ => exact hI

/-- Every STARTED and STOPPED_BY_COMMAND record has a record of an accepted
command of its verb before it in the trace, each its own and in the same order.
Of the first 2^64 records, the earlier one has the smaller sequence number. -/
theorem lifecycle_explained (hs : (control b uart).Reachable s) :
    ∃ f : Nat → Nat,
      (∀ j g, s.pipe.published[j]? = some g → effect g →
        f j < j ∧ ∃ c, s.pipe.published[f j]? = some c ∧ cause c g ∧
          (j < 2 ^ 64 → c.seq < g.seq)) ∧
      (∀ i j g h, i < j → s.pipe.published[i]? = some g → effect g →
        s.pipe.published[j]? = some h → effect h → f i < f j) := by
  obtain ⟨f, owing, waiting, waits, hbal⟩ := (inv_of_reachable hs).balanced
  refine ⟨f, ?_, hbal.explained.increasing⟩
  intro j g hj hg
  obtain ⟨hlt, c, hc, hcause⟩ := hbal.explained.caused j g hj hg
  refine ⟨hlt, c, hc, hcause, ?_⟩
  intro hfew
  have hseq := Pipeline.seq_of_reachable (pipe_reachable hs)
  rw [hseq _ c (Nat.lt_trans hlt hfew) hc, hseq _ g hfew hj, UInt64.lt_iff_toNat_lt,
    UInt64.toNat_ofNat', UInt64.toNat_ofNat']
  omega

/-! ## Runs to a prompt -/

def stamped (s : Pipeline) (p : Producer) (rec : TraceRecord) : TraceRecord :=
  { rec with seq := s.ring.nextSeq, time := s.cntpct, producer := p.id }

/-- `trace_emit`, when nobody else is in it and the ring is not full. -/
def emitted (s : Pipeline) (p : Producer) (rec : TraceRecord) : Pipeline :=
  { s.startEmit p rec with
    emit := Function.update s.emit p .idle
    ring := { s.ring with
      head := s.ring.head + 1, nextSeq := s.ring.nextSeq + 1
      records := Function.update s.ring.records (s.ring.head.toNat % ringCapacity)
        (stamped s p rec) }
    published := s.published ++ [stamped s p rec] }

/-- `notified` of the tracer with one record in the ring. -/
def drainedOne (s : Pipeline) : Pipeline :=
  { s with
    ring := { s.ring with tail := s.ring.head }
    archive := archiveRecord s.archive (s.ring.records (s.ring.tail.toNat % ringCapacity))
    drained := s.drained + 1 }

/-- The trace ring is empty after `k` records, and nobody is at it. -/
structure Quiet (k : Nat) (s : Pipeline) : Prop where
  emit : ∀ p, s.emit p = .idle
  traceDump : s.traceDump = false
  producerLock : s.ring.producerLock = 0
  head : s.ring.head = UInt64.ofNat k
  tail : s.ring.tail = UInt64.ofNat k
  nextSeq : s.ring.nextSeq = UInt64.ofNat k
  tracer : s.tracer = .idle
  dumps : s.dumpRequests = s.dumpsDone
  published : s.published.length = k

theorem Quiet.hasSpace {k : Nat} {p : Pipeline} (h : Quiet k p) :
    ¬Pipeline.noSpace p.ring.head p.ring.tail := by
  rw [Pipeline.noSpace, h.head, h.tail, UInt64.sub_self]
  decide

theorem Quiet.next {k : Nat} {p : Pipeline} (h : Quiet k p) (rec : TraceRecord) :
    Quiet (k + 1) (drainedOne (emitted p .uartrx rec)) where
  emit q := by
    show Function.update p.emit .uartrx .idle q = .idle
    cases q with
    | uartrx => exact Function.update_self _ _ _
    | vmm =>
      rw [Function.update_of_ne (fun hne => by cases hne)]
      exact h.emit .vmm
  traceDump := h.traceDump
  producerLock := h.producerLock
  head := by
    show p.ring.head + 1 = _
    rw [h.head, ofNat_succ]
  tail := by
    show p.ring.head + 1 = _
    rw [h.head, ofNat_succ]
  nextSeq := by
    show p.ring.nextSeq + 1 = _
    rw [h.nextSeq, ofNat_succ]
  tracer := h.tracer
  dumps := h.dumps
  published := by
    show (p.published ++ [_]).length = k + 1
    rw [List.length_append, h.published]
    rfl

theorem emits {k : Nat} {p : Pipeline} (h : Quiet k p) (q : Producer) (rec : TraceRecord) :
    pipeline.Reaches (p.startEmit q rec) (List.replicate 8 (.producer q)) (emitted p q rec) := by
  simp [Automaton.Reaches, Automaton.run, pipeline, Pipeline.step, Pipeline.producerStep,
    Pipeline.startEmit, Pipeline.setEmit, h.producerLock, h.hasSpace, List.replicate,
    Function.update_idem, emitted, stamped]

theorem drains {p : Pipeline} (htracer : p.tracer = .idle) (hone : p.ring.head = p.ring.tail + 1)
    (hdumps : p.dumpRequests = p.dumpsDone) :
    pipeline.Reaches p (List.replicate 8 .tracer) (drainedOne p) := by
  have hne : p.ring.tail ≠ p.ring.tail + 1 := by
    intro he
    simp at he
  simp [Automaton.Reaches, Automaton.run, pipeline, drainedOne, Pipeline.step,
    Pipeline.tracerStep, htracer, hone, hne, hdumps, List.replicate]

/-- uartrx in `trace_emit`, while no dump is due. -/
theorem uartrx_emits {p q : Pipeline} (hdump : p.traceDump = false)
    (hstep : p.producerStep .uartrx = some q) :
    q.traceDump = false ∧ (s.setPipe p).step b .uartrx = some (s.setPipe q) := by
  have hsys : (s.setPipe p).step b .uartrx = (p.producerStep .uartrx).map s.setPipe := by
    cases hemit : p.emit .uartrx with
    | idle => simp [Pipeline.producerStep, hemit, hdump] at hstep
    | _ =>
      simp only [step, setPipe, hemit]
      rfl
  rw [hsys, hstep]
  refine ⟨?_, rfl⟩
  rcases Pipeline.producerStep_cases hstep with ⟨-, ⟨-, hdue⟩, -⟩ | ⟨pc, ring, published, rfl, -⟩
  · rw [hdump] at hdue
    cases hdue
  · exact hdump

theorem reaches_uartrx {p q : Pipeline} {n : Nat} (hdump : p.traceDump = false)
    (hr : pipeline.Reaches p (List.replicate n (.producer .uartrx)) q) :
    (control b uart).Reaches (s.setPipe p) (List.replicate n .uartrx) (s.setPipe q) :=
  Automaton.reaches_replicate_map (fun _ _ => uartrx_emits (b := b)) hdump hr

/-- The VMM in `trace_emit`. -/
theorem vmm_emits {p q : Pipeline} {env : StartEnv} (hstep : p.producerStep .vmm = some q) :
    (s.setPipe p).step b (.vmm env) = some (s.setPipe q) := by
  have hsys : (s.setPipe p).step b (.vmm env) = (p.producerStep .vmm).map s.setPipe := by
    cases hemit : p.emit .vmm with
    | idle => simp [Pipeline.producerStep, hemit] at hstep
    | _ =>
      simp only [step, setPipe, hemit]
      rfl
  rw [hsys, hstep]
  rfl

theorem reaches_vmm {p q : Pipeline} {env : StartEnv} {n : Nat}
    (hr : pipeline.Reaches p (List.replicate n (.producer .vmm)) q) :
    (control b uart).Reaches (s.setPipe p) (List.replicate n (.vmm env)) (s.setPipe q) :=
  Automaton.reaches_replicate_map (I := fun _ => True)
    (fun _ _ _ hstep => ⟨trivial, vmm_emits hstep⟩) trivial hr

theorem reaches_tracer {p q : Pipeline} {n : Nat}
    (hr : pipeline.Reaches p (List.replicate n .tracer) q) :
    (control b uart).Reaches (s.setPipe p) (List.replicate n .tracer) (s.setPipe q) :=
  Automaton.reaches_replicate_map (I := fun _ => True)
    (fun _ _ _ hstep => ⟨trivial, congrArg (Option.map s.setPipe) hstep⟩) trivial hr

/-- uartrx records a command, and the tracer drains the record. -/
theorem reaches_record {k : Nat} {rec : TraceRecord} {ops : List Op} (h : Quiet k s.pipe)
    (hsend : s.host.channel.send = .idle) (htodo : s.host.todo = .traceEmit rec :: ops)
    (hact : recordAct rec = .call .uartrx rec) :
    (control b uart).Reaches s (List.replicate 9 .uartrx ++ List.replicate 8 .tracer)
      ((s.setPipe (drainedOne (emitted s.pipe .uartrx rec))).setHost (s.host.skip ops)) := by
  have hcall : s.step b .uartrx =
      some ((s.setHost (s.host.skip ops)).setPipe (s.pipe.startEmit .uartrx rec)) := by
    simp [step, uartrxOp, hsend, htodo, hact, Pipeline.step, h.emit, h.traceDump, setPipe, setHost]
  have hone : s.pipe.ring.head + 1 = s.pipe.ring.tail + 1 := by rw [h.head, h.tail]
  have hdump : (s.pipe.startEmit .uartrx rec).traceDump = false := h.traceDump
  have hemits := @reaches_uartrx b uart (s.setHost (s.host.skip ops)) _ _ _ hdump
    (emits h .uartrx rec)
  rw [List.replicate_succ, List.cons_append, Automaton.reaches_cons]
  exact ⟨_, hcall, (Automaton.reaches_append _).mpr
    ⟨_, hemits, reaches_tracer (drains (p := emitted s.pipe .uartrx rec) h.tracer hone h.dumps)⟩⟩

theorem reaches_prints {ops more : List Op} (hops : Prints ops)
    (hemit : s.pipe.emit .uartrx = .idle) (hsend : s.host.channel.send = .idle)
    (htodo : s.host.todo = ops ++ more) :
    (control b uart).Reaches s (List.replicate ops.length .uartrx)
      (s.setHost (s.host.skip more)) := by
  induction ops generalizing s with
  | nil =>
    have hsame : s.setHost (s.host.skip more) = s := by
      rw [HostState.skip, ← List.nil_append more, ← htodo]
      rfl
    rw [hsame]
    exact (Automaton.reaches_nil _).mpr rfl
  | cons op ops ih =>
    have hstep : s.step b .uartrx = some (s.setHost (s.host.skip (ops ++ more))) := by
      have hprints := hops op List.mem_cons_self
      simp only [step, hemit, uartrxOp, hsend, htodo, List.cons_append, HostState.step]
      cases op with
      | putc | flush => rfl
      | traceEmit | requestDump | cmdToVmm => cases hprints
    have hrest := ih (s := s.setHost (s.host.skip (ops ++ more)))
      (fun op' hop' => hops op' (List.mem_cons_of_mem op hop')) hemit hsend rfl
    exact (Automaton.reaches_cons _).mpr ⟨_, hstep, hrest⟩

/-! ## Lines -/

theorem rx_char_ops (u : UartrxState) {c : UInt8} (hc : 0x20 ≤ c ∧ c < 0x7f)
    (hroom : u.line.length < Uartrx.lineMax) :
    (u.rx { byte := c }).2 = [.putc c, .flush] ∧
      (u.rx { byte := c }).1.lineErrors = u.lineErrors ||| 0 := by
  have hlt : ∀ d : UInt8, d < 0x20 → c ≠ d := by
    rintro d hd rfl
    exact absurd (UInt8.lt_of_lt_of_le hd hc.1) (UInt8.lt_irrefl _)
  have hdel : c ≠ asciiDel := by
    rintro rfl
    exact absurd hc.2 (UInt8.lt_irrefl _)
  have hcr := hlt 0x0d (by decide)
  have hlf := hlt 0x0a (by decide)
  have hbs := hlt asciiBs (by decide)
  unfold UartrxState.rx UartrxState.rxByte
  dsimp only
  rw [if_neg (fun h => hlf h.1), if_neg (not_or.mpr ⟨hcr, hlf⟩), if_neg (not_or.mpr ⟨hbs, hdel⟩),
    if_pos hc, UartrxState.addChar, dif_neg (Nat.ne_of_lt hroom)]
  exact ⟨rfl, rfl⟩

/-- The operations of a CR, on a line without receive errors. -/
theorem rx_cr_ops (u : UartrxState) (herrors : u.lineErrors = 0) :
    (u.rx { byte := 0x0d }).2 =
        consolePuts (ascii "\n") ++ ((u.runLine u.line {}).2 ++ prompt) ∧
      (u.rx { byte := 0x0d }).1.lineErrors = 0 := by
  have hquiet : UartrxState.reportLineErrors { u with
      lastWasCr := true, lineErrors := u.lineErrors ||| 0 } = [] := by
    rw [UartrxState.reportLineErrors, if_pos (by rw [herrors]; rfl)]
  have hrun : (UartrxState.runLine { u with
      lastWasCr := true, lineErrors := u.lineErrors ||| 0 } u.line {}).2 =
        (u.runLine u.line {}).2 := by
    unfold UartrxState.runLine UartrxState.runCommand
    split
    · rfl
    dsimp only
    cases lookup (UartrxState.firstWord (UartrxState.trimmed u.line)) with
    | none => rfl
    | some cmd =>
      dsimp only
      cases parseArgs cmd.verb (UartrxState.afterWord (UartrxState.trimmed u.line)) with
      | none => rfl
      | some arg => rfl
  refine ⟨?_, rfl⟩
  show consolePuts (ascii "\n") ++ UartrxState.reportLineErrors _ ++
    (UartrxState.runLine _ u.line {}).2 ++ prompt = _
  rw [← hrun, ← List.append_assoc]
  show consolePuts (ascii "\n") ++ UartrxState.reportLineErrors { u with
    lastWasCr := true, lineErrors := u.lineErrors ||| 0 } ++ _ ++ prompt = _
  rw [hquiet, List.append_nil]
  rfl

/-- uartrx has `line` in its buffer and `todo` left to do, the command ring and
the VMM are as they were at boot, and `k` commands are recorded and archived. -/
structure Handling (line : List UInt8) (todo : List Op) (k : Nat) (s : System) : Prop where
  line : s.host.uartrx.line = line
  errors : s.host.uartrx.lineErrors = 0
  count : s.host.uartrx.commandsReceived = UInt64.ofNat k
  todo : s.host.todo = todo
  channel : s.host.channel = {}
  quiet : Quiet k s.pipe
  vmm : s.vmm = {}
  owed : s.owed = []

variable {line : List UInt8} {todo : List Op} {k : Nat}

theorem Handling.send_idle (h : Handling line todo k s) : s.host.channel.send = .idle := by
  rw [h.channel]

theorem reachable_prints {ops more : List Op} (hr : (control b uart).Reachable s)
    (h : Handling line (ops ++ more) k s) (hops : Prints ops) :
    ∃ t, (control b uart).Reachable t ∧ Handling line more k t :=
  ⟨_, hr.reaches (reaches_prints hops (h.quiet.emit .uartrx) h.send_idle h.todo),
    h.line, h.errors, h.count, rfl, h.channel, h.quiet, h.vmm, h.owed⟩

theorem reachable_rx (hr : (control b uart).Reachable s) (h : Handling line [] k s) (e : RxEvent) :
    (control b uart).Reachable (s.setHost (s.host.rx e)) := by
  have hstep : (control b uart).step s (.rx e) = some (s.setHost (s.host.rx e)) := by
    show s.step b (.rx e) = _
    simp only [step, h.quiet.emit, HostState.step, h.todo, h.channel]
    rfl
  exact hr.step hstep

theorem reachable_chars (cs : List UInt8) (hr : (control b uart).Reachable s)
    (h : Handling line [] k s) (hcs : ∀ c ∈ cs, 0x20 ≤ c ∧ c < 0x7f)
    (hroom : line.length + cs.length ≤ Uartrx.lineMax) :
    ∃ t, (control b uart).Reachable t ∧ Handling (line ++ cs) [] k t := by
  induction cs generalizing s line with
  | nil =>
    rw [List.append_nil]
    exact ⟨s, hr, h⟩
  | cons c cs ih =>
    rw [List.length_cons] at hroom
    have hc := hcs c List.mem_cons_self
    have hlt : s.host.uartrx.line.length < Uartrx.lineMax := by
      rw [h.line]
      omega
    obtain ⟨hops, herrors⟩ := rx_char_ops s.host.uartrx hc hlt
    obtain ⟨hrec, hline, -⟩ := s.host.uartrx.rx_char (e := { byte := c }) hc hlt
    rw [h.line] at hline
    rw [h.errors] at herrors
    have hcount := hrec.commandsReceived
    rw [h.count] at hcount
    have hprints : Prints [Op.putc c, .flush] := by simp
    obtain ⟨m, hm, hmid⟩ := reachable_prints (reachable_rx hr h { byte := c })
      ⟨hline, herrors, hcount.trans (UInt64.add_zero _), hops.trans (List.append_nil _).symm,
        h.channel, h.quiet, h.vmm, h.owed⟩ hprints
    obtain ⟨t, ht, hend⟩ := ih hm hmid (fun d hd => hcs d (List.mem_cons_of_mem c hd)) (by
      rw [List.length_append, List.length_singleton]
      omega)
    rw [List.append_assoc] at hend
    exact ⟨t, ht, hend⟩

theorem recordAct_of_verb {rec : TraceRecord} (h : rec.addr ≠ cmdVerbTraceDump) :
    recordAct rec = .call .uartrx rec := by
  rw [recordAct, if_neg]
  intro he
  exact h (congrArg TraceRecord.addr he)

/-- A line with one record, up to the operations after the record. -/
theorem reachable_line {rec : TraceRecord} {after : List Op} (hr : (control b uart).Reachable s)
    (h : Handling line [] k s) (hrun : (s.host.uartrx.runLine line {}).2 = .traceEmit rec :: after)
    (hafter : recordsOf after = []) (hact : recordAct rec = .call .uartrx rec) :
    ∃ t, (control b uart).Reachable t ∧ Handling [] (after ++ prompt) (k + 1) t := by
  obtain ⟨hops, herrors⟩ := rx_cr_ops s.host.uartrx h.errors
  have hended := s.host.uartrx.rx_eol (e := { byte := 0x0d }) (Or.inl rfl)
  rw [h.line, hrun] at hops
  have hrecs : recordsOf (s.host.uartrx.rx { byte := 0x0d }).2 = [rec] := by
    rw [hops, recordsOf_append, (prints_consolePuts _).recordsOf_eq, List.cons_append,
      recordsOf_cons, recordsOf_append, hafter, prints_prompt.recordsOf_eq]
    rfl
  have hcount : (s.host.uartrx.rx { byte := 0x0d }).1.commandsReceived = UInt64.ofNat (k + 1) := by
    rw [(s.host.uartrx.rx_handled _).count, hrecs, h.count, ← ofNat_succ]
    rfl
  -- The editor has counted the command; the record is still to be emitted.
  have hm := (reachable_rx hr h { byte := 0x0d }).reaches
    (reaches_prints (prints_consolePuts _) (h.quiet.emit .uartrx) h.send_idle hops)
  have hrecord : (control b uart).Reaches _ _ _ := reaches_record
    (s := s.setHost ((s.host.rx { byte := 0x0d }).skip (.traceEmit rec :: after ++ prompt)))
    h.quiet h.send_idle rfl hact
  exact ⟨_, hm.reaches hrecord, hended.line, herrors, hcount, rfl, h.channel, h.quiet.next rec,
    h.vmm, h.owed⟩

/-- Any number of lines with an unknown command. -/
theorem reachable_unknowns (b : Build) (uart : UartConfig) (k : Nat) :
    ∃ t, (control b uart).Reachable t ∧ Handling [] [] k t := by
  induction k with
  | zero =>
    have hquiet : Quiet 0 {} := ⟨fun _ => rfl, rfl, rfl, rfl, rfl, rfl, rfl, rfl, rfl⟩
    exact reachable_prints (s := { host := { todo := uartrxInit uart } })
      ⟨[], (Automaton.reaches_nil _).mpr rfl⟩
      ⟨rfl, rfl, rfl, (List.append_nil _).symm, rfl, hquiet, rfl, rfl⟩ (prints_uartrxInit uart)
  | succ k ih =>
    obtain ⟨s, hs, hprompt⟩ := ih
    obtain ⟨m, hm, hmid⟩ := reachable_chars [0x78] hs hprompt
      (List.all_iff_forall_prop.mp (by decide)) (by decide)
    have hrun : (m.host.uartrx.runLine [0x78] {}).2 =
        .traceEmit (Pipeline.recordCommand cmdVerbNone (m.host.uartrx.commandsReceived + 1)
          cmdRejectedVerb 0) :: consolePuts (ascii "unknown command; type help\n") := rfl
    have hverb : cmdVerbNone ≠ cmdVerbTraceDump := by decide
    obtain ⟨t, ht, hend⟩ := reachable_line hm hmid hrun (prints_consolePuts _).recordsOf_eq
      (recordAct_of_verb hverb)
    rw [← List.append_nil (consolePuts _ ++ prompt)] at hend
    exact reachable_prints ht hend (prints_append.mpr ⟨prints_consolePuts _, prints_prompt⟩)

/-- The line `guest-start`, up to the call of `cmd_to_vmm`. -/
theorem reachable_guestStart (b : Build) (uart : UartConfig) (k : Nat) :
    ∃ t, (control b uart).Reachable t ∧ Handling [] (.cmdToVmm
      { id := UInt64.ofNat (k + 1), verb := cmdVerbGuestStart, arg := 0 } :: prompt) (k + 1) t := by
  obtain ⟨s, hs, hprompt⟩ := reachable_unknowns b uart k
  obtain ⟨m, hm, hmid⟩ := reachable_chars (ascii "guest-start") hs hprompt
      (List.all_iff_forall_prop.mp (by decide)) (by decide)
  have hrun : (m.host.uartrx.runLine (ascii "guest-start") {}).2 =
      [.traceEmit (Pipeline.recordCommand cmdVerbGuestStart (m.host.uartrx.commandsReceived + 1)
          cmdAccepted 0),
        .cmdToVmm
          { id := m.host.uartrx.commandsReceived + 1, verb := cmdVerbGuestStart, arg := 0 }] := by
    with_unfolding_all rfl
  have hverb : cmdVerbGuestStart ≠ cmdVerbTraceDump := by decide
  rw [hmid.count, ofNat_succ] at hrun
  exact reachable_line hm hmid hrun rfl (recordAct_of_verb hverb)

/-- What a `guest-start` that succeeds finds. -/
def startEnv : StartEnv := { load := some { pc := 0x80000000, dtb := 0, initrd := 0 }, write := .ok () }

/-- uartrx queues the command, and the VMM runs it. -/
theorem reaches_begun {id : UInt64} {k : Nat}
    (h : Handling [] (.cmdToVmm { id, verb := cmdVerbGuestStart, arg := 0 } :: prompt) k s) :
    ∃ t, (control linuxBuild uart).Reaches s
      (List.replicate 8 .uartrx ++ .notified :: List.replicate 5 (.vmm startEnv)) t ∧
      t.pipe = s.pipe ∧ t.owed = [guestRecord guestStarted 1 0 0x80000000] := by
  obtain ⟨⟨u, todo, channel, recs⟩, ⟨ring, emit, traceDump, requests, tracer, done, archive, dumps,
    cntpct, submitted, published, drained⟩, vmm, owed⟩ := s
  obtain ⟨-, -, -, rfl, rfl, ⟨hemit, -, -, -, -, -, -, -, -⟩, rfl, rfl⟩ := h
  obtain rfl : emit = fun _ => .idle := funext hemit
  with_unfolding_all exact ⟨_, rfl, rfl, rfl⟩

/-- The VMM emits the first record that it owes. -/
theorem reaches_owed {k : Nat} {rec : TraceRecord} {recs : List TraceRecord} (h : Quiet k s.pipe)
    (howed : s.owed = rec :: recs) :
    (control b uart).Reaches s (List.replicate 9 (.vmm startEnv))
      { s with pipe := emitted s.pipe .vmm rec, owed := recs } := by
  have hcall : s.step b (.vmm startEnv) =
      some (({ s with owed := recs } : System).setPipe (s.pipe.startEmit .vmm rec)) := by
    simp [step, vmmOp, howed, Pipeline.step, h.emit, setPipe]
  rw [List.replicate_succ, Automaton.reaches_cons]
  exact ⟨_, hcall, reaches_vmm (emits h .vmm rec)⟩

/-- A guest that is started by command `k + 1`. -/
theorem reachable_started (uart : UartConfig) (k : Nat) :
    ∃ t g, (control linuxBuild uart).Reachable t ∧ t.pipe.published.length = k + 2 ∧
      t.pipe.published[k + 1]? = some g ∧ effect g ∧ g.seq = UInt64.ofNat (k + 1) := by
  obtain ⟨s, hs, hcalling⟩ := reachable_guestStart linuxBuild uart k
  obtain ⟨m, hm, hpipe, howed⟩ := @reaches_begun uart _ _ _ hcalling
  have hquiet : Quiet (k + 1) m.pipe := hpipe ▸ hcalling.quiet
  have hlen := hquiet.published
  refine ⟨_, stamped m.pipe .vmm (guestRecord guestStarted 1 0 0x80000000),
    (hs.reaches hm).reaches (reaches_owed hquiet howed), ?_, ?_, ?_, hquiet.nextSeq⟩
  · show (m.pipe.published ++ [_]).length = k + 2
    rw [List.length_append, hlen]
    rfl
  · show (m.pipe.published ++ [_])[k + 1]? = _
    rw [← hlen]
    exact List.getElem?_concat_length
  · exact ⟨rfl, Or.inl rfl⟩

/-- The first command starts the guest. -/
theorem lifecycle_explained_guestStart :
    ∃ t g, (control linuxBuild {}).Reachable t ∧ t.pipe.published[1]? = some g ∧ effect g ∧
      ∃ f : Nat → Nat,
        (∀ j g, t.pipe.published[j]? = some g → effect g →
          f j < j ∧ ∃ c, t.pipe.published[f j]? = some c ∧ cause c g ∧
            (j < 2 ^ 64 → c.seq < g.seq)) ∧
        (∀ i j g h, i < j → t.pipe.published[i]? = some g → effect g →
          t.pipe.published[j]? = some h → effect h → f i < f j) := by
  obtain ⟨t, g, ht, -, hg, heffect, -⟩ := reachable_started {} 0
  exact ⟨t, g, ht, hg, heffect, lifecycle_explained ht⟩

/-- The STARTED record of command 2^64 has the sequence number zero. -/
theorem wrapped_seq_unexplained :
    ∃ t, (control linuxBuild {}).Reachable t ∧ ¬∃ f : Nat → Nat,
      ∀ j g, t.pipe.published[j]? = some g → effect g →
        ∃ c, t.pipe.published[f j]? = some c ∧ cause c g ∧ c.seq < g.seq := by
  obtain ⟨t, g, ht, -, hg, heffect, hseq⟩ := reachable_started {} (2 ^ 64 - 1)
  refine ⟨t, ht, ?_⟩
  rintro ⟨f, hf⟩
  obtain ⟨c, -, -, hlt⟩ := hf _ g hg heffect
  have hzero : g.seq = 0 := hseq
  rw [hzero] at hlt
  exact absurd hlt (UInt64.not_lt_zero)

end System
end Control
end TensorSel4
