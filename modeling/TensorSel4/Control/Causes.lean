/-
Every STARTED and STOPPED_BY_COMMAND record has its own accepted command before
it in the trace.

`Inv` counts the records of accepted commands that are still unused: those of
the effects that the VMM has yet to publish, then those of the commands queued
but not begun, then that of the command uartrx is about to queue.
-/
import TensorSel4.Automaton.Causes
import TensorSel4.Control.Moves
import TensorSel4.Vmm.Activity

namespace TensorSel4
namespace Control

open Command Trace Uartrx Vmm

/-- A record of the lifecycle that a host command brings about. -/
def effect (g : TraceRecord) : Prop :=
  g.kind = kindGuest ∧ (g.addr = guestStarted ∨ g.addr = guestStoppedByCommand)

instance : DecidablePred effect := fun _ => inferInstanceAs (Decidable (_ ∧ _))

/-- The verb that brings about the record. -/
def verbFor (g : TraceRecord) (verb : UInt64) : Prop :=
  g.addr = guestStarted ∧ verb = cmdVerbGuestStart ∨
    g.addr = guestStoppedByCommand ∧ verb = cmdVerbGuestStop

/-- The record of an accepted command with that verb. -/
def accepts (c : TraceRecord) (verb : UInt64) : Prop :=
  c.kind = kindCmd ∧ c.flags = cmdAccepted ∧ c.addr = verb

def cause (c g : TraceRecord) : Prop := ∃ verb, accepts c verb ∧ verbFor g verb

/-- The records of `xs` stand at the positions `is`. -/
def Marks {β : Type} (events : List TraceRecord) (R : TraceRecord → β → Prop) (is : List Nat)
    (xs : List β) : Prop := List.Forall₂ (fun i x => ∃ c, events[i]? = some c ∧ R c x) is xs

namespace Marks

variable {β : Type} {events : List TraceRecord} {R : TraceRecord → β → Prop} {is : List Nat}
  {xs ys : List β}

theorem append (h : Marks events R is xs) (e : TraceRecord) : Marks (events ++ [e]) R is xs :=
  List.Forall₂.imp (fun _ _ ⟨c, hc, hR⟩ => ⟨c, Explained.getElem?_append_of_some hc e, hR⟩) h

theorem sublist (h : Marks events R is xs) (hys : ys.Sublist xs) :
    ∃ js, js.Sublist is ∧ Marks events R js ys := by
  induction hys generalizing is with
  | slnil => exact ⟨[], List.nil_sublist _, .nil⟩
  | cons x hsub ih =>
    cases h with
    | cons hx hrest =>
      obtain ⟨js, hjs, hmarks⟩ := ih hrest
      exact ⟨js, hjs.cons _, hmarks⟩
  | cons_cons x hsub ih =>
    cases h with
    | cons hx hrest =>
      obtain ⟨js, hjs, hmarks⟩ := ih hrest
      exact ⟨_, hjs.cons_cons _, .cons hx hmarks⟩

/-- The record just published is that of one more. -/
theorem concat (h : Marks events R is xs) {e : TraceRecord} {x : β} (hR : R e x) :
    Marks (events ++ [e]) R (is ++ [events.length]) (xs ++ [x]) :=
  List.rel_append (h.append e) (.cons ⟨e, List.getElem?_concat_length, hR⟩ .nil)

end Marks

/-- The records that a step of the lifecycle adds. -/
theorem step_records {b : Build} {l l' : Lifecycle} {e : Event} (h : Lifecycle.Step b l e l') :
    ∃ recs, l'.trace = l.trace ++ recs ∧ ((∀ r ∈ recs, ¬effect r) ∨
      ∃ cmd env g, e = .command cmd env ∧ recs = [g] ∧ verbFor g cmd.verb) := by
  cases h with
  | unchanged | notLoaded =>
    exact ⟨[], (List.append_nil _).symm, Or.inl fun r hr => absurd hr List.not_mem_nil⟩
  | notWritten hverb | started hverb =>
    exact ⟨[_], rfl, Or.inr ⟨_, _, _, rfl, rfl, Or.inl ⟨rfl, hverb⟩⟩⟩
  | stopped hverb => exact ⟨[_], rfl, Or.inr ⟨_, _, _, rfl, rfl, Or.inr ⟨rfl, hverb⟩⟩⟩
  | resumed =>
    exact ⟨_, rfl, Or.inl fun r hr hg => (exitRecords_activity hr).not_guest hg.1⟩
  | refused =>
    refine ⟨_, List.append_assoc _ _ _, Or.inl fun r hr hg => ?_⟩
    rcases List.mem_append.mp hr with hr | hr
    · exact (exitRecords_activity hr).not_guest hg.1
    · rw [List.mem_singleton.mp hr] at hg
      have haddr : guestStoppedByFault = guestStarted ∨
          guestStoppedByFault = guestStoppedByCommand := hg.2
      exact absurd haddr (by decide)

theorem newRecords_eq {s t : VmmState} {recs : List TraceRecord} (h : t.trace = s.trace ++ recs) :
    newRecords s t = recs := by
  rw [newRecords, h, List.drop_left]

/-- A command adds at most one effect, and only one of its verb. -/
theorem runCommand_records (b : Build) (s : VmmState) (cmd : CmdEntry) (env : StartEnv) :
    (∀ r ∈ newRecords s (s.runCommand b cmd env), ¬effect r) ∨
      ∃ g, newRecords s (s.runCommand b cmd env) = [g] ∧ verbFor g cmd.verb := by
  obtain ⟨recs, hrecs, hcases⟩ := step_records (VmmState.runCommand_lifecycle b s cmd env)
  rw [newRecords_eq hrecs]
  rcases hcases with hnone | ⟨cmd', env', g, he, hg, hverb⟩
  · exact Or.inl hnone
  · obtain ⟨rfl, -⟩ := Event.command.inj he
    exact Or.inr ⟨g, hg, hverb⟩

theorem exit_records {b : Build} {s t : VmmState} {vcpu : Nat} {f : Fault} {env : CallEnv}
    (h : s.step b (.exit vcpu f env) = some t) : ∀ r ∈ newRecords s t, ¬effect r := by
  obtain ⟨recs, hrecs, hcases⟩ := step_records (VmmState.step_lifecycle h)
  rw [newRecords_eq hrecs]
  rcases hcases with hnone | ⟨cmd, env', g, he, -, -⟩
  · exact hnone
  · cases he

namespace System

/-- The effects that the VMM has handled but not published. -/
def owedEffects (s : System) : List TraceRecord :=
  (((s.pipe.emit .vmm).inFlight ++ s.owed).map TraceRecord.payload).filter fun g => effect g

/-- The commands that `run_command` was not entered with yet. -/
def unbegun (s : System) : List CmdEntry :=
  s.host.channel.queued.drop s.host.channel.begun.length

/-- Where uartrx is with its current command, and the commands whose records are
published and which it has not decided about. -/
inductive Phase (s : System) : List CmdEntry → Prop
  | unrecorded {before after : List Op} {rec : TraceRecord}
      (hemit : (s.pipe.emit .uartrx).inFlight = []) (hsend : s.host.channel.send = .idle)
      (htodo : s.host.todo = before ++ .traceEmit rec :: after)
      (hbefore : recordsOf before = [] ∧ commandsOf before = []) (hafter : recordsOf after = [])
      (hcommands : commandsOf after = (ranBy rec).filter forVmm) (hkind : rec.kind = kindCmd) :
      Phase s []
  | recording {rec : TraceRecord}
      (hemit : (s.pipe.emit .uartrx).inFlight.map TraceRecord.payload = [rec.payload])
      (hsend : s.host.channel.send = .idle) (hrecords : recordsOf s.host.todo = [])
      (hcommands : commandsOf s.host.todo = (ranBy rec).filter forVmm)
      (hkind : rec.kind = kindCmd) : Phase s []
  | recorded (hemit : (s.pipe.emit .uartrx).inFlight = [])
      (hrecords : recordsOf s.host.todo = []) :
      Phase s (s.host.channel.send.pending ++ commandsOf s.host.todo)

structure Balance (s : System) (f : Nat → Nat) (owing waiting : List Nat)
    (waits : List CmdEntry) : Prop where
  phase : s.Phase waits
  explained : Explained effect cause s.pipe.published f (owing ++ waiting)
  owing : Marks s.pipe.published cause owing s.owedEffects
  waiting : Marks s.pipe.published (fun c cmd => accepts c cmd.verb) waiting (s.unbegun ++ waits)

structure Inv (s : System) : Prop where
  channel : s.host.channel.Inv
  balanced : ∃ f owing waiting waits, s.Balance f owing waiting waits

variable {b : Build} {s t : System} {f : Nat → Nat} {owing waiting : List Nat}
  {waits waits' : List CmdEntry}

def Balanced (s : System) : Prop := ∃ f owing waiting waits, s.Balance f owing waiting waits

/-- A step that publishes nothing, owes nothing new and has no command waiting
that did not wait before. -/
theorem Balance.frame (h : s.Balance f owing waiting waits) (hphase : t.Phase waits')
    (hpublished : t.pipe.published = s.pipe.published) (howed : t.owedEffects = s.owedEffects)
    (hwaits : (t.unbegun ++ waits').Sublist (s.unbegun ++ waits)) : t.Balanced := by
  obtain ⟨js, hjs, hmarks⟩ := h.waiting.sublist hwaits
  refine ⟨f, owing, js, waits', hphase, ?_, ?_, ?_⟩
  · rw [hpublished]
    exact h.explained.sublist (hjs.append_left owing)
  · rw [hpublished, howed]
    exact h.owing
  · rw [hpublished]
    exact hmarks

/-- The VMM publishes a record. -/
theorem Balance.publish_vmm (h : s.Balance f owing waiting waits) {rec : TraceRecord}
    (hphase : t.Phase waits) (hpublished : t.pipe.published = s.pipe.published ++ [rec])
    (howed : s.owedEffects = ([rec.payload].filter fun g => effect g) ++ t.owedEffects)
    (hunbegun : t.unbegun = s.unbegun) : t.Balanced := by
  have howing := h.owing
  rw [howed] at howing
  by_cases heffect : effect rec
  · have hpayload : effect rec.payload := heffect
    rw [List.filter_cons_of_pos (by exact decide_eq_true hpayload), List.filter_nil] at howing
    cases howing with
    | @cons i _ rest _ hi hrest =>
      obtain ⟨c, hc, verb, haccepts, hverb⟩ := hi
      refine ⟨Function.update f s.pipe.published.length i, rest, waiting, waits, hphase,
        ?_, ?_, ?_⟩
      · rw [hpublished]
        exact h.explained.push_effect hc ⟨verb, haccepts, hverb⟩
      · rw [hpublished]
        exact Marks.append hrest rec
      · rw [hpublished, hunbegun]
        exact h.waiting.append rec
  · have hpayload : ¬effect rec.payload := heffect
    rw [List.filter_cons_of_neg (by rw [decide_eq_true_eq]; exact hpayload), List.filter_nil]
      at howing
    refine ⟨f, owing, waiting, waits, hphase, ?_, ?_, ?_⟩
    · rw [hpublished]
      exact h.explained.push_quiet heffect
    · rw [hpublished]
      exact howing.append rec
    · rw [hpublished, hunbegun]
      exact h.waiting.append rec

/-- uartrx publishes the record of a command. -/
theorem Balance.publish_uartrx (h : s.Balance f owing waiting []) {rec : TraceRecord}
    (hphase : t.Phase waits') (hpublished : t.pipe.published = s.pipe.published ++ [rec])
    (howed : t.owedEffects = s.owedEffects) (hunbegun : t.unbegun = s.unbegun)
    (hkind : rec.kind = kindCmd) (hwaits : waits' = (ranBy rec).filter forVmm) : t.Balanced := by
  have heffect : ¬effect rec := by
    rintro ⟨hguest, -⟩
    rw [hkind] at hguest
    exact absurd hguest (by decide)
  have howing : Marks t.pipe.published cause owing t.owedEffects := by
    rw [hpublished, howed]
    exact h.owing.append rec
  have hwaiting := h.waiting
  rw [List.append_nil] at hwaiting
  by_cases hnone : (ranBy rec).filter forVmm = []
  · refine ⟨f, owing, waiting, [], ?_, ?_, howing, ?_⟩
    · rw [← hnone, ← hwaits]
      exact hphase
    · rw [hpublished]
      exact h.explained.push_quiet heffect
    · rw [hpublished, hunbegun, List.append_nil]
      exact hwaiting.append rec
  · have haccepted : accepted rec = true := by
      by_contra hnot
      rw [ranBy_of_not_accepted hnot] at hnone
      exact hnone rfl
    have hone : (ranBy rec).filter forVmm = [commandOf rec] := by
      rw [ranBy_of_accepted haccepted] at hnone ⊢
      by_cases hvmm : forVmm (commandOf rec) = true
      · exact List.filter_cons_of_pos hvmm
      · exact absurd (List.filter_cons_of_neg hvmm) hnone
    refine ⟨f, owing, waiting ++ [s.pipe.published.length], waits', hphase, ?_, howing, ?_⟩
    · rw [hpublished, ← List.append_assoc]
      exact h.explained.push_cause heffect
    · rw [hpublished, hunbegun, hwaits, hone]
      exact hwaiting.concat ⟨hkind, of_decide_eq_true haccepted, rfl⟩

/-- `run_command` is entered: its command no longer waits, and its effect is
owed. -/
theorem Balance.begin (h : s.Balance f owing waiting waits) {cmd : CmdEntry}
    (hphase : t.Phase waits) (hpublished : t.pipe.published = s.pipe.published)
    (hunbegun : s.unbegun = cmd :: t.unbegun) (hnone : s.owedEffects = [])
    (howed : t.owedEffects = [] ∨ ∃ g, t.owedEffects = [g] ∧ verbFor g cmd.verb) :
    t.Balanced := by
  have howing := h.owing
  have hwaiting := h.waiting
  have hexplained := h.explained
  rw [hnone] at howing
  rw [hunbegun, List.cons_append] at hwaiting
  cases howing with
  | nil =>
    cases hwaiting with
    | @cons i _ rest _ hi hrest =>
      rcases howed with howed | ⟨g, howed, hverb⟩
      · refine ⟨f, [], rest, waits, hphase, ?_, ?_, ?_⟩
        · rw [hpublished]
          exact hexplained.sublist (List.sublist_cons_self i rest)
        · rw [howed]
          exact .nil
        · rw [hpublished]
          exact hrest
      · obtain ⟨c, hc, haccepts⟩ := hi
        refine ⟨f, [i], rest, waits, hphase, ?_, ?_, ?_⟩
        · rw [hpublished]
          exact hexplained
        · rw [hpublished, howed]
          exact .cons ⟨c, hc, cmd.verb, haccepts, hverb⟩ .nil
        · rw [hpublished]
          exact hrest

/-! ## Operations of uartrx -/

theorem recordsOf_cons (op : Op) (ops : List Op) :
    recordsOf (op :: ops) = recordsOf [op] ++ recordsOf ops := recordsOf_append [op] ops

theorem commandsOf_cons (op : Op) (ops : List Op) :
    commandsOf (op :: ops) = commandsOf [op] ++ commandsOf ops := commandsOf_append [op] ops

/-- An operation that is neither a record nor a command. -/
theorem Phase.skip (h : s.Phase waits) {op : Op} {ops : List Op}
    (hemit : (s.pipe.emit .uartrx).inFlight = []) (htodo : s.host.todo = op :: ops)
    (hcommand : commandsOf [op] = []) (hrecord : recordsOf [op] = [])
    (hemit' : (t.pipe.emit .uartrx).inFlight = []) (hhost : t.host = s.host.skip ops) :
    t.Phase waits := by
  cases h with
  | @unrecorded before after rec _ hsend htodo' hbefore hafter hcommands hkind =>
    rw [htodo] at htodo'
    cases before with
    | nil =>
      obtain ⟨rfl, -⟩ := List.cons.inj htodo'
      exact absurd hrecord (List.cons_ne_nil _ _)
    | cons op' before =>
      obtain ⟨rfl, hops⟩ := List.cons.inj htodo'
      rw [recordsOf_cons, commandsOf_cons] at hbefore
      refine @Phase.unrecorded t before after rec hemit' ?_ ?_ ?_ hafter hcommands hkind
      · rw [hhost]
        exact hsend
      · rw [hhost]
        exact hops
      · exact ⟨(List.append_eq_nil_iff.mp hbefore.1).2, (List.append_eq_nil_iff.mp hbefore.2).2⟩
  | recording hrec =>
    rw [hemit] at hrec
    exact absurd hrec.symm (List.cons_ne_nil _ _)
  | recorded _ hrecords =>
    rw [htodo, recordsOf_cons, hrecord] at hrecords
    have hsame : s.host.channel.send.pending ++ commandsOf s.host.todo =
        t.host.channel.send.pending ++ commandsOf t.host.todo := by
      rw [htodo, commandsOf_cons, hcommand, hhost]
      rfl
    rw [hsame]
    refine .recorded hemit' ?_
    rw [hhost]
    exact hrecords

/-- uartrx hands the record of its command to `trace_emit`. -/
theorem Phase.record (h : s.Phase waits) {rec : TraceRecord} {ops : List Op}
    (hemit : (s.pipe.emit .uartrx).inFlight = []) (htodo : s.host.todo = .traceEmit rec :: ops)
    (hemit' : (t.pipe.emit .uartrx).inFlight = [rec]) (hhost : t.host = s.host.skip ops) :
    waits = [] ∧ t.Phase [] := by
  cases h with
  | @unrecorded before after rec' _ hsend htodo' hbefore hafter hcommands hkind =>
    rw [htodo] at htodo'
    cases before with
    | nil =>
      obtain ⟨hop, rfl⟩ := List.cons.inj htodo'
      obtain rfl := Op.traceEmit.inj hop
      refine ⟨rfl, @Phase.recording t rec ?_ ?_ ?_ ?_ hkind⟩
      · rw [hemit']
        rfl
      · rw [hhost]
        exact hsend
      · rw [hhost]
        exact hafter
      · rw [hhost]
        exact hcommands
    | cons op before =>
      obtain ⟨rfl, -⟩ := List.cons.inj htodo'
      exact absurd hbefore.1 (List.cons_ne_nil _ _)
  | recording hrec =>
    rw [hemit] at hrec
    exact absurd hrec.symm (List.cons_ne_nil _ _)
  | recorded _ hrecords =>
    rw [htodo] at hrecords
    exact absurd hrecords (List.cons_ne_nil _ _)

/-- uartrx is past its record whenever it handles a command. -/
theorem Phase.recorded_of (h : s.Phase waits) (hemit : (s.pipe.emit .uartrx).inFlight = [])
    (hnot : s.host.channel.send = .idle → ∀ before after rec,
      s.host.todo = before ++ .traceEmit rec :: after → commandsOf before ≠ []) :
    recordsOf s.host.todo = [] ∧
      waits = s.host.channel.send.pending ++ commandsOf s.host.todo := by
  cases h with
  | unrecorded _ hsend htodo hbefore =>
    exact absurd hbefore.2 (hnot hsend _ _ _ htodo)
  | recording hrec =>
    rw [hemit] at hrec
    exact absurd hrec.symm (List.cons_ne_nil _ _)
  | recorded _ hrecords => exact ⟨hrecords, rfl⟩

/-! ## Steps -/

theorem inFlight_idle {p : Producer} (h : s.pipe.emit p = .idle) :
    (s.pipe.emit p).inFlight = [] := by
  rw [h]
  rfl

/-- A step of a producer inside `trace_emit`. -/
theorem Balance.emits (h : s.Balance f owing waiting waits) {pipe : Pipeline} {p : Producer}
    (hpipe : s.pipe.step (.producer p) = some pipe) : (s.setPipe pipe).Balanced := by
  obtain ⟨hother, hcases⟩ := Pipeline.producerStep_inFlight hpipe
  have hphase := h.phase
  cases p with
  | vmm =>
    have huartrx : pipe.emit .uartrx = s.pipe.emit .uartrx := hother .uartrx (by decide)
    have hphase' : (s.setPipe pipe).Phase waits := by
      cases hphase with
      | unrecorded hemit => exact .unrecorded (huartrx ▸ hemit) ‹_› ‹_› ‹_› ‹_› ‹_› ‹_›
      | recording hemit => exact .recording (huartrx ▸ hemit) ‹_› ‹_› ‹_› ‹_›
      | recorded hemit hrecords => exact .recorded (huartrx ▸ hemit) hrecords
    rcases hcases with ⟨hpublished, hflight⟩ | ⟨rec, hflight, hpublished, hdone⟩
    · refine h.frame hphase' hpublished ?_ (List.Sublist.refl _)
      show (((pipe.emit .vmm).inFlight ++ s.owed).map _).filter _ = s.owedEffects
      rw [List.map_append, hflight, ← List.map_append]
      rfl
    · refine h.publish_vmm hphase' hpublished ?_ rfl
      show (((s.pipe.emit .vmm).inFlight ++ s.owed).map _).filter _ =
        _ ++ (((pipe.emit .vmm).inFlight ++ s.owed).map _).filter _
      rw [hflight, hdone, List.singleton_append, List.map_cons, ← List.singleton_append,
        List.filter_append]
      rfl
  | uartrx =>
    have hvmm : pipe.emit .vmm = s.pipe.emit .vmm := hother .vmm (by decide)
    have howed : (s.setPipe pipe).owedEffects = s.owedEffects := by
      show (((pipe.emit .vmm).inFlight ++ s.owed).map _).filter _ = _
      rw [hvmm]
      rfl
    rcases hcases with ⟨hpublished, hflight⟩ | ⟨rec, hflight, hpublished, hdone⟩
    · refine h.frame ?_ hpublished howed (List.Sublist.refl _)
      cases hphase with
      | unrecorded hemit =>
        rw [hemit] at hflight
        exact .unrecorded (List.map_eq_nil_iff.mp hflight) ‹_› ‹_› ‹_› ‹_› ‹_› ‹_›
      | recording hemit => exact .recording (hflight.trans hemit) ‹_› ‹_› ‹_› ‹_›
      | recorded hemit hrecords =>
        rw [hemit] at hflight
        exact .recorded (List.map_eq_nil_iff.mp hflight) hrecords
    · cases hphase with
      | @recording rec' hemit hsend hrecords hcommands hkind =>
        rw [hflight] at hemit
        obtain ⟨hpayload, -⟩ := List.cons.inj hemit
        have hkind' : rec.payload.kind = kindCmd := by
          rw [hpayload]
          exact hkind
        have hran : ranBy rec = ranBy rec' := by
          rw [← ranBy_payload rec, hpayload, ranBy_payload rec']
        refine h.publish_uartrx (.recorded hdone hrecords) hpublished howed rfl hkind' ?_
        show s.host.channel.send.pending ++ commandsOf s.host.todo = _
        rw [hsend, hcommands, hran]
        rfl
      | unrecorded hemit =>
        rw [hflight] at hemit
        exact absurd hemit (List.cons_ne_nil _ _)
      | recorded hemit =>
        rw [hflight] at hemit
        exact absurd hemit (List.cons_ne_nil _ _)

/-- What waits for the VMM is kept by what waits for uartrx to decide. -/
theorem sender_unbegun (hbegun : s.host.channel.begun.length ≤
      s.host.channel.queued.length) :
    ((s.setHost s.host.sender).unbegun ++
      ((s.setHost s.host.sender).host.channel.send.pending ++ commandsOf s.host.todo)).Sublist
    (s.unbegun ++ (s.host.channel.send.pending ++ commandsOf s.host.todo)) := by
  have hunbegun : (s.setHost s.host.sender).unbegun =
      s.unbegun ++ withOutcome .queued s.host.channel.send.decides := by
    show (withOutcome .queued (s.host.channel.outcomes ++ s.host.channel.send.decides)).drop _ = _
    rw [withOutcome_append]
    exact List.drop_append_of_le_length hbegun
  have hpending : (withOutcome .queued s.host.channel.send.decides ++
      (s.setHost s.host.sender).host.channel.send.pending).Sublist
        s.host.channel.send.pending := by
    rw [← s.host.channel.send.decides_pending s.host.channel.ring]
    exact (List.filter_sublist.map Prod.fst).append (List.Sublist.refl _)
  rw [hunbegun, List.append_assoc, ← List.append_assoc (withOutcome _ _)]
  exact (hpending.append_right _).append_left _

theorem begun_le (h : s.host.channel.Inv) :
    s.host.channel.begun.length ≤ s.host.channel.queued.length := by
  rw [h.begun]
  exact List.length_take_le' _ _

/-- The command that `run_command` is entered with is the first that waits. -/
theorem unbegun_begins (h : s.host.channel.Inv) {tail verb arg : UInt64}
    (hrun : s.host.channel.run = .readId tail verb arg) :
    s.unbegun = { id := (s.host.channel.ring.entry tail).id, verb, arg } ::
      (s.setHost { s.host with channel := s.host.channel.receiver }).unbegun := by
  have hnext := h.receiver
  have hle := begun_le (s := s.setHost { s.host with channel := s.host.channel.receiver }) hnext
  have hgrown : s.host.channel.receiver.begun =
      s.host.channel.begun ++ [{ id := (s.host.channel.ring.entry tail).id, verb, arg }] := by
    rw [CmdChannel.receiver, hrun]
    rfl
  have hlt : s.host.channel.begun.length < s.host.channel.queued.length := by
    have hlen : s.host.channel.receiver.begun.length ≤ s.host.channel.queued.length := hle
    rw [hgrown, List.length_append, List.length_singleton] at hlen
    exact hlen
  have hprefix : s.host.channel.receiver.begun <+: s.host.channel.queued := by
    have hb : s.host.channel.receiver.begun = s.host.channel.queued.take _ := hnext.begun
    rw [hb]
    exact List.take_prefix _ _
  obtain ⟨rest, hrest⟩ := hprefix
  have hlast : s.host.channel.queued[s.host.channel.begun.length]? =
      some { id := (s.host.channel.ring.entry tail).id, verb, arg } := by
    rw [← hrest, hgrown, List.append_assoc]
    simp
  obtain ⟨hlt', hget⟩ := List.getElem?_eq_some_iff.mp hlast
  show s.host.channel.queued.drop _ =
    _ :: s.host.channel.queued.drop s.host.channel.receiver.begun.length
  rw [List.drop_eq_getElem_cons hlt', hget, hgrown, List.length_append, List.length_singleton]

/-- A step that leaves the trace ring alone and keeps what waits. -/
theorem Balance.host_moves (h : s.Balance f owing waiting waits) {host : HostState}
    (hphase : (s.setHost host).Phase waits')
    (hwaits : ((s.setHost host).unbegun ++ waits').Sublist (s.unbegun ++ waits)) :
    (s.setHost host).Balanced := h.frame hphase rfl rfl hwaits

theorem Balance.rx (h : s.Balance f owing waiting waits) (e : RxEvent)
    (hemit : s.pipe.emit .uartrx = .idle) (hsend : s.host.channel.send = .idle)
    (htodo : s.host.todo = []) : (s.setHost (s.host.rx e)).Balanced := by
  obtain ⟨-, rfl⟩ := h.phase.recorded_of (inFlight_idle hemit) fun _ before after rec hops => by
    rw [htodo] at hops
    exact absurd hops.symm (List.append_ne_nil_of_right_ne_nil before (List.cons_ne_nil _ _))
  have hnone : s.host.channel.send.pending ++ commandsOf s.host.todo = [] := by
    rw [hsend, htodo]
    rfl
  rw [hnone] at h
  have hrx := s.host.uartrx.rx_handled e
  generalize hops : (s.host.uartrx.rx e).2 = ops at hrx
  cases hrx with
  | quiet hrecords hcommands hcount hran =>
    have hwaits : (s.setHost (s.host.rx e)).host.channel.send.pending ++
        commandsOf (s.setHost (s.host.rx e)).host.todo = [] := by
      show s.host.channel.send.pending ++ commandsOf (s.host.uartrx.rx e).2 = []
      rw [hsend, hops, hcommands]
      rfl
    refine h.host_moves (.recorded (inFlight_idle hemit) ?_) ?_
    · show recordsOf (s.host.uartrx.rx e).2 = []
      rw [hops, hrecords]
    · rw [hwaits]
      exact List.Sublist.refl _
  | line hbefore hafter hcommands hkind hvalue hcount hran =>
    exact h.host_moves (.unrecorded (inFlight_idle hemit) hsend hops hbefore hafter hcommands hkind)
      (List.Sublist.refl _)

theorem Balance.calls (h : s.Balance f owing waiting waits) {cmd : CmdEntry} {ops : List Op}
    (hemit : s.pipe.emit .uartrx = .idle) (hsend : s.host.channel.send = .idle)
    (htodo : s.host.todo = .cmdToVmm cmd :: ops) : (s.setHost (s.host.call cmd ops)).Balanced := by
  obtain ⟨hrecords, rfl⟩ := h.phase.recorded_of (inFlight_idle hemit)
    fun _ before after rec hops => by
      rw [htodo] at hops
      cases before with
      | nil => exact absurd (List.cons.inj hops).1 (fun hop => by cases hop)
      | cons op before =>
        rw [← (List.cons.inj hops).1]
        exact List.cons_ne_nil _ _
  refine h.host_moves (.recorded (inFlight_idle hemit) ?_) ?_
  · rw [htodo] at hrecords
    exact hrecords
  · rw [hsend, htodo]
    exact List.Sublist.refl _

/-- `cmd_to_vmm` has decided about nothing that did not wait. -/
theorem Balance.sends (h : s.Balance f owing waiting waits) (hinv : s.host.channel.Inv)
    (hemit : s.pipe.emit .uartrx = .idle) (hsend : s.host.channel.send ≠ .idle) :
    (s.setHost s.host.sender).Balanced := by
  obtain ⟨hrecords, rfl⟩ := h.phase.recorded_of (inFlight_idle hemit)
    fun hidle => absurd hidle hsend
  have hcommands : commandsOf (s.setHost s.host.sender).host.todo = commandsOf s.host.todo := by
    show commandsOf (s.host.channel.send.messages ++ s.host.todo) = _
    rw [commandsOf_append, (SendPc.prints_messages _).commandsOf_eq]
    rfl
  refine h.host_moves (.recorded (inFlight_idle hemit) ?_) ?_
  · show recordsOf (s.host.channel.send.messages ++ s.host.todo) = []
    rw [recordsOf_append, (SendPc.prints_messages _).recordsOf_eq, hrecords]
    rfl
  · rw [hcommands]
    exact sender_unbegun (begun_le hinv)

theorem Balance.givesUp (h : s.Balance f owing waiting waits) {cmd : CmdEntry}
    (crumb : VmmBreadcrumb) (hsend : s.host.channel.send = .checkDeadline cmd) :
    (s.setHost (s.host.giveUp cmd crumb)).Balanced := by
  have hphase := h.phase
  cases hphase with
  | unrecorded _ hidle =>
    rw [hsend] at hidle
    cases hidle
  | recording _ hidle =>
    rw [hsend] at hidle
    cases hidle
  | recorded hemit hrecords =>
    refine h.host_moves (.recorded hemit ?_) ?_
    · show recordsOf (reportUnfinished cmd.id crumb ++ s.host.todo) = []
      rw [recordsOf_append, (prints_reportUnfinished _ _).recordsOf_eq, hrecords]
      rfl
    · have hcommands : commandsOf (s.setHost (s.host.giveUp cmd crumb)).host.todo =
          commandsOf s.host.todo := by
        show commandsOf (reportUnfinished cmd.id crumb ++ s.host.todo) = _
        rw [commandsOf_append, (prints_reportUnfinished _ _).commandsOf_eq]
        rfl
      rw [hcommands, hsend]
      exact List.Sublist.refl _

/-- A step of the VMM that uartrx cannot see. -/
theorem Phase.vmm_moves (h : s.Phase waits) (hemit : t.pipe.emit .uartrx = s.pipe.emit .uartrx)
    (htodo : t.host.todo = s.host.todo) (hsend : t.host.channel.send = s.host.channel.send) :
    t.Phase waits := by
  cases h with
  | unrecorded hflight hidle hops =>
    exact .unrecorded (hemit ▸ hflight) (hsend.trans hidle) (htodo.trans hops) ‹_› ‹_› ‹_› ‹_›
  | recording hflight hidle hrecords hcommands =>
    exact .recording (hemit ▸ hflight) (hsend.trans hidle) (htodo ▸ hrecords) (htodo ▸ hcommands) ‹_›
  | recorded hflight hrecords =>
    rw [← hsend, ← htodo]
    exact .recorded (hemit ▸ hflight) (htodo ▸ hrecords)

theorem Balance.owes (h : s.Balance f owing waiting waits) {pipe : Pipeline} {rec : TraceRecord}
    {recs : List TraceRecord} (hemit : s.pipe.emit .vmm = .idle) (howed : s.owed = rec :: recs)
    (hpipe : s.pipe.step (.call .vmm rec) = some pipe) :
    Balanced { s with pipe := pipe, owed := recs } := by
  obtain rfl := Pipeline.call_eq hpipe
  refine h.frame (h.phase.vmm_moves ?_ rfl rfl) rfl ?_ (List.Sublist.refl _)
  · show (s.pipe.setEmit .vmm (.exchange rec)).emit .uartrx = _
    exact s.pipe.setEmit_ne (fun h => by cases h) _
  · show (((s.pipe.startEmit .vmm rec).emit .vmm).inFlight ++ recs |>.map _).filter _ =
      (((s.pipe.emit .vmm).inFlight ++ s.owed).map _).filter _
    have hself : (s.pipe.startEmit .vmm rec).emit .vmm = .exchange rec := by
      show (s.pipe.setEmit .vmm (.exchange rec)).emit .vmm = _
      exact Pipeline.setEmit_self _ _ _
    rw [hself, hemit, howed]
    rfl

theorem owedEffects_settled (hemit : s.pipe.emit .vmm = .idle) (howed : s.owed = []) :
    s.owedEffects = [] := by
  rw [owedEffects, hemit, howed]
  rfl

/-- The effects that a handler leaves to be published. -/
theorem owedEffects_handles (vmm : VmmState) (hemit : s.pipe.emit .vmm = .idle) :
    (s.handles vmm).owedEffects =
      ((newRecords s.vmm vmm).map TraceRecord.payload).filter fun g => effect g := by
  show (((s.pipe.emit .vmm).inFlight ++ newRecords s.vmm vmm).map _).filter _ = _
  rw [hemit]
  rfl

theorem filter_payload_of_none {recs : List TraceRecord} (h : ∀ r ∈ recs, ¬effect r) :
    (recs.map TraceRecord.payload).filter (fun g => effect g) = [] := by
  rw [List.filter_eq_nil_iff]
  intro g hg
  obtain ⟨r, hr, rfl⟩ := List.mem_map.mp hg
  have hnot : ¬effect r.payload := h r hr
  rw [decide_eq_true_eq]
  exact hnot

theorem Balance.begins (h : s.Balance f owing waiting waits) (hinv : s.host.channel.Inv)
    {tail verb arg : UInt64} (env : StartEnv) (hemit : s.pipe.emit .vmm = .idle)
    (howed : s.owed = []) (hrun : s.host.channel.run = .readId tail verb arg) :
    ((s.setHost { s.host with channel := s.host.channel.receiver }).handles
      (s.vmm.runCommand b { id := (s.host.channel.ring.entry tail).id, verb, arg }
        env)).Balanced := by
  refine h.begin (h.phase.vmm_moves rfl rfl rfl) rfl (unbegun_begins hinv hrun)
    (owedEffects_settled hemit howed) ?_
  rw [owedEffects_handles _ (by exact hemit)]
  simp only [setHost]
  rcases runCommand_records b s.vmm { id := (s.host.channel.ring.entry tail).id, verb, arg } env
    with hnone | ⟨g, hg, hverb⟩
  · exact Or.inl (filter_payload_of_none hnone)
  · rw [hg]
    by_cases heffect : effect g.payload
    · exact Or.inr ⟨g.payload, List.filter_cons_of_pos (decide_eq_true heffect), hverb⟩
    · refine Or.inl (List.filter_cons_of_neg ?_)
      rw [decide_eq_true_eq]
      exact heffect

theorem Inv.step {a : Act} (h : Inv s) (hs : s.step b a = some t) : Inv t := by
  obtain ⟨hinv, f, owing, waiting, waits, hbal⟩ := h
  cases moves_of_step hs with
  | rx e hemit hsend htodo => exact ⟨hinv, hbal.rx e hemit hsend htodo⟩
  | emits p hpipe => exact ⟨hinv, hbal.emits hpipe⟩
  | @records pipe rec ops hemit htodo hpipe =>
    obtain ⟨hpublished, hnext⟩ := recordAct_step hpipe
    have huartrx : (pipe.emit .uartrx).inFlight = [rec] := by
      rw [hnext, Pipeline.setEmit_self]
      rfl
    have hvmm : pipe.emit .vmm = s.pipe.emit .vmm := by
      rw [hnext]
      exact s.pipe.setEmit_ne (by decide) _
    obtain ⟨rfl, hphase⟩ := hbal.phase.record (t := (s.setPipe pipe).setHost (s.host.skip ops))
      (inFlight_idle hemit) htodo huartrx rfl
    refine ⟨hinv, hbal.frame hphase hpublished ?_ (List.Sublist.refl _)⟩
    show (((pipe.emit .vmm).inFlight ++ s.owed).map _).filter _ = _
    rw [hvmm]
    rfl
  | @requests pipe ops hemit htodo hpipe =>
    obtain ⟨hother, hcases⟩ := Pipeline.producerStep_inFlight hpipe
    rw [inFlight_idle hemit] at hcases
    have hvmm : pipe.emit .vmm = s.pipe.emit .vmm := hother .vmm (by decide)
    rcases hcases with ⟨hpublished, hflight⟩ | ⟨rec, hrec, -, -⟩
    · have hphase := hbal.phase.skip (t := (s.setPipe pipe).setHost (s.host.skip ops))
        (inFlight_idle hemit) htodo rfl rfl (List.map_eq_nil_iff.mp hflight) rfl
      refine ⟨hinv, hbal.frame hphase hpublished ?_ (List.Sublist.refl _)⟩
      show (((pipe.emit .vmm).inFlight ++ s.owed).map _).filter _ = _
      rw [hvmm]
      rfl
    · exact absurd hrec.symm (List.cons_ne_nil _ _)
  | calls hemit hsend htodo => exact ⟨hinv.call _, hbal.calls hemit hsend htodo⟩
  | skips hemit htodo hcommand hrecord =>
    exact ⟨hinv, hbal.host_moves (hbal.phase.skip (inFlight_idle hemit) htodo hcommand hrecord
      (inFlight_idle hemit) rfl) (List.Sublist.refl _)⟩
  | sends hemit hsend => exact ⟨hinv.sender, hbal.sends hinv hemit hsend⟩
  | givesUp crumb hsend => exact ⟨hinv.giveUp, hbal.givesUp crumb hsend⟩
  | notified hrun =>
    exact ⟨hinv.notified hrun, hbal.host_moves (hbal.phase.vmm_moves rfl rfl rfl)
      (List.Sublist.refl _)⟩
  | owes hemit howed hpipe => exact ⟨hinv, hbal.owes hemit howed hpipe⟩
  | begins env hemit howed hrun => exact ⟨hinv.receiver, hbal.begins hinv env hemit howed hrun⟩
  | receives howed hrun =>
    refine ⟨hinv.receiver, hbal.host_moves (hbal.phase.vmm_moves rfl rfl rfl) ?_⟩
    show (s.host.channel.queued.drop (s.host.channel.begun ++ _).length ++ waits).Sublist _
    rw [hrun, List.append_nil]
    exact List.Sublist.refl _
  | @exits vmm vcpu f' env hemit howed hvmm =>
    refine ⟨hinv, hbal.frame (hbal.phase.vmm_moves rfl rfl rfl) rfl ?_ (List.Sublist.refl _)⟩
    rw [owedEffects_handles _ hemit, owedEffects_settled hemit howed]
    exact filter_payload_of_none (exit_records hvmm)
  | @drains pipe a hpipe hpublished hemit =>
    refine ⟨hinv, hbal.frame (hbal.phase.vmm_moves (congrFun hemit _) rfl rfl) hpublished ?_
      (List.Sublist.refl _)⟩
    show (((pipe.emit .vmm).inFlight ++ s.owed).map _).filter _ = _
    rw [hemit]
    rfl

end System
end Control
end TensorSel4
