/-
What one step of the system can be, and what it does to the two rings.
-/
import TensorSel4.Control.System

namespace TensorSel4
namespace Trace
namespace Pipeline

/-- The next operation of a producer publishes its record or keeps it. -/
theorem producerStep_inFlight {s t : Pipeline} {p : Producer} (hs : s.producerStep p = some t) :
    (∀ q, q ≠ p → t.emit q = s.emit q) ∧
      (t.published = s.published ∧
          (t.emit p).inFlight.map TraceRecord.payload =
            (s.emit p).inFlight.map TraceRecord.payload ∨
        ∃ rec, (s.emit p).inFlight = [rec] ∧ t.published = s.published ++ [rec] ∧
          (t.emit p).inFlight = []) := by
  unfold producerStep at hs
  cases hp : s.emit p with
  | idle =>
    simp only [hp, Option.ite_none_right_eq_some, Option.some.injEq] at hs
    obtain ⟨-, rfl⟩ := hs
    refine ⟨fun q _ => rfl, Or.inl ⟨rfl, ?_⟩⟩
    rw [hp]
  | exchange rec =>
    simp only [hp, Option.some.injEq] at hs
    obtain rfl := hs
    refine ⟨fun q hq => s.setEmit_ne hq _, Or.inl ⟨rfl, ?_⟩⟩
    show ((s.setEmit p _).emit p).inFlight.map _ = _
    rw [setEmit_self]
    split <;> rfl
  | spin rec =>
    simp only [hp, Option.some.injEq] at hs
    obtain rfl := hs
    refine ⟨fun q hq => s.setEmit_ne hq _, Or.inl ⟨rfl, ?_⟩⟩
    rw [setEmit_self]
    split <;> rfl
  | loadHead rec =>
    simp only [hp, Option.some.injEq] at hs
    obtain rfl := hs
    refine ⟨fun q hq => s.setEmit_ne hq _, Or.inl ⟨rfl, ?_⟩⟩
    rw [setEmit_self]
    rfl
  | waitForSpace rec head =>
    simp only [hp, Option.some.injEq] at hs
    obtain rfl := hs
    refine ⟨fun q hq => s.setEmit_ne hq _, Or.inl ⟨rfl, ?_⟩⟩
    rw [setEmit_self]
    split <;> rfl
  | fetchSeq rec head | readTime rec head | storeSlot rec head | unlock =>
    simp only [hp, Option.some.injEq] at hs
    obtain rfl := hs
    refine ⟨fun q hq => s.setEmit_ne hq _, Or.inl ⟨rfl, ?_⟩⟩
    show ((s.setEmit p _).emit p).inFlight.map _ = _
    rw [setEmit_self]
    rfl
  | storeHead rec head =>
    simp only [hp, Option.some.injEq] at hs
    obtain rfl := hs
    refine ⟨fun q hq => s.setEmit_ne hq _, Or.inr ⟨rec, rfl, rfl, ?_⟩⟩
    show ((s.setEmit p _).emit p).inFlight = _
    rw [setEmit_self]
    rfl

theorem call_eq {s t : Pipeline} {p : Producer} {rec : TraceRecord}
    (hs : s.step (.call p rec) = some t) : t = s.startEmit p rec := by
  simp only [step, Option.ite_none_right_eq_some, Option.some.injEq] at hs
  exact hs.2.symm

theorem tracerStep_inFlight (s : Pipeline) :
    s.tracerStep.published = s.published ∧ s.tracerStep.emit = s.emit := by
  unfold tracerStep
  cases s.tracer with
  | maybeDump =>
    dsimp only
    split <;> exact ⟨rfl, rfl⟩
  | _ => exact ⟨rfl, rfl⟩

end Pipeline
end Trace

namespace Control

open Command Trace Uartrx Vmm

/-- `trace_emit` is called with the record, whatever the label. -/
theorem recordAct_step {s t : Pipeline} {rec : TraceRecord}
    (hs : s.step (recordAct rec) = some t) :
    t.published = s.published ∧ t.emit = (s.setEmit .uartrx (.exchange rec)).emit := by
  unfold recordAct at hs
  split at hs
  · rename_i hrec
    simp only [Pipeline.step, Option.ite_none_right_eq_some, Option.some.injEq] at hs
    obtain ⟨-, rfl⟩ := hs
    rw [← hrec]
    exact ⟨rfl, rfl⟩
  · rw [Pipeline.call_eq hs]
    exact ⟨rfl, rfl⟩

namespace System

inductive Moves (b : Build) (s : System) : System → Prop
  | rx (e : RxEvent) (hemit : s.pipe.emit .uartrx = .idle) (hsend : s.host.channel.send = .idle)
      (htodo : s.host.todo = []) : Moves b s (s.setHost (s.host.rx e))
  | emits {pipe : Pipeline} (p : Producer) (hpipe : s.pipe.step (.producer p) = some pipe) :
      Moves b s (s.setPipe pipe)
  | records {pipe : Pipeline} {rec : TraceRecord} {ops : List Op}
      (hemit : s.pipe.emit .uartrx = .idle) (htodo : s.host.todo = .traceEmit rec :: ops)
      (hpipe : s.pipe.step (recordAct rec) = some pipe) :
      Moves b s ((s.setPipe pipe).setHost (s.host.skip ops))
  | requests {pipe : Pipeline} {ops : List Op} (hemit : s.pipe.emit .uartrx = .idle)
      (htodo : s.host.todo = .requestDump :: ops)
      (hpipe : s.pipe.step (.producer .uartrx) = some pipe) :
      Moves b s ((s.setPipe pipe).setHost (s.host.skip ops))
  | calls {cmd : CmdEntry} {ops : List Op} (hemit : s.pipe.emit .uartrx = .idle)
      (hsend : s.host.channel.send = .idle) (htodo : s.host.todo = .cmdToVmm cmd :: ops) :
      Moves b s (s.setHost (s.host.call cmd ops))
  | skips {op : Op} {ops : List Op} (hemit : s.pipe.emit .uartrx = .idle)
      (htodo : s.host.todo = op :: ops) (hcommand : commandsOf [op] = [])
      (hrecord : recordsOf [op] = []) : Moves b s (s.setHost (s.host.skip ops))
  | sends (hemit : s.pipe.emit .uartrx = .idle) (hsend : s.host.channel.send ≠ .idle) :
      Moves b s (s.setHost s.host.sender)
  | givesUp {cmd : CmdEntry} (crumb : VmmBreadcrumb)
      (hsend : s.host.channel.send = .checkDeadline cmd) :
      Moves b s (s.setHost (s.host.giveUp cmd crumb))
  | notified (hrun : s.host.channel.run = .idle) :
      Moves b s (s.setHost { s.host with channel := s.host.channel.notified })
  | owes {pipe : Pipeline} {rec : TraceRecord} {recs : List TraceRecord}
      (hemit : s.pipe.emit .vmm = .idle) (howed : s.owed = rec :: recs)
      (hpipe : s.pipe.step (.call .vmm rec) = some pipe) :
      Moves b s { s with pipe := pipe, owed := recs }
  | begins {tail verb arg : UInt64} (env : StartEnv) (hemit : s.pipe.emit .vmm = .idle)
      (howed : s.owed = []) (hrun : s.host.channel.run = .readId tail verb arg) :
      Moves b s ((s.setHost { s.host with channel := s.host.channel.receiver }).handles
        (s.vmm.runCommand b { id := (s.host.channel.ring.entry tail).id, verb, arg } env))
  | receives (howed : s.owed = []) (hrun : s.host.channel.run.begins s.host.channel.ring = []) :
      Moves b s (s.setHost { s.host with channel := s.host.channel.receiver })
  | exits {vmm : VmmState} {vcpu : Nat} {f : Fault} {env : CallEnv}
      (hemit : s.pipe.emit .vmm = .idle) (howed : s.owed = [])
      (hvmm : s.vmm.step b (.exit vcpu f env) = some vmm) : Moves b s (s.handles vmm)
  | drains {pipe : Pipeline} {a : Trace.Act} (hpipe : s.pipe.step a = some pipe)
      (hpublished : pipe.published = s.pipe.published) (hemit : pipe.emit = s.pipe.emit) :
      Moves b s (s.setPipe pipe)

variable {b : Build} {s t : System}

theorem settled_iff : s.settled = true ↔ s.pipe.emit .vmm = .idle ∧ s.owed = [] := by
  unfold settled
  constructor
  · intro h
    split at h
    · rename_i hemit howed
      exact ⟨hemit, howed⟩
    · cases h
  · rintro ⟨hemit, howed⟩
    rw [hemit, howed]

theorem moves_of_uartrxOp (hemit : s.pipe.emit .uartrx = .idle) (h : s.uartrxOp = some t) :
    Moves b s t := by
  unfold uartrxOp at h
  split at h
  · rename_i rec ops hsend htodo
    obtain ⟨pipe, hpipe, rfl⟩ := Option.map_eq_some_iff.mp h
    exact .records hemit htodo hpipe
  · rename_i ops hsend htodo
    obtain ⟨pipe, hpipe, rfl⟩ := Option.map_eq_some_iff.mp h
    exact .requests hemit htodo hpipe
  · rename_i hrec hdump
    obtain ⟨host, hhost, rfl⟩ := Option.map_eq_some_iff.mp h
    cases HostState.moves_of_step hhost with
    | call hsend htodo => exact .calls hemit hsend htodo
    | @skip op ops hsend htodo hop =>
      refine .skips hemit htodo hop ?_
      cases op with
      | traceEmit rec => exact absurd htodo (hrec rec ops hsend)
      | _ => rfl
    | sender hsend => exact .sends hemit hsend

theorem moves_of_vmmOp {env : StartEnv} (hemit : s.pipe.emit .vmm = .idle)
    (h : s.vmmOp b env = some t) : Moves b s t := by
  unfold vmmOp at h
  split at h
  · rename_i rec recs howed
    obtain ⟨pipe, hpipe, rfl⟩ := Option.map_eq_some_iff.mp h
    exact .owes hemit howed hpipe
  · rename_i tail verb arg howed hrun
    obtain ⟨host, hhost, rfl⟩ := Option.map_eq_some_iff.mp h
    cases HostState.moves_of_step hhost with
    | receiver => exact .begins env hemit howed hrun
  · rename_i howed hnot
    obtain ⟨host, hhost, rfl⟩ := Option.map_eq_some_iff.mp h
    cases HostState.moves_of_step hhost with
    | receiver =>
      refine .receives howed ?_
      cases hrun : s.host.channel.run with
      | readId tail verb arg => exact absurd hrun (hnot tail verb arg)
      | _ => rfl

theorem moves_of_step {a : Act} (h : s.step b a = some t) : Moves b s t := by
  cases a with
  | rx e =>
    simp only [step] at h
    split at h
    · rename_i hemit
      obtain ⟨host, hhost, rfl⟩ := Option.map_eq_some_iff.mp h
      cases HostState.moves_of_step hhost with
      | rx _ hsend htodo => exact .rx e hemit hsend htodo
    · cases h
  | uartrx =>
    simp only [step] at h
    split at h
    · rename_i hemit
      exact moves_of_uartrxOp hemit h
    · obtain ⟨pipe, hpipe, rfl⟩ := Option.map_eq_some_iff.mp h
      exact .emits .uartrx hpipe
  | timeOut crumb =>
    obtain ⟨host, hhost, rfl⟩ := Option.map_eq_some_iff.mp h
    cases HostState.moves_of_step hhost with
    | giveUp _ hsend => exact .givesUp crumb hsend
  | notified =>
    simp only [step] at h
    split at h
    · obtain ⟨host, hhost, rfl⟩ := Option.map_eq_some_iff.mp h
      cases HostState.moves_of_step hhost with
      | notified hrun => exact .notified hrun
    · cases h
  | vmm env =>
    simp only [step] at h
    split at h
    · rename_i hemit
      exact moves_of_vmmOp hemit h
    · obtain ⟨pipe, hpipe, rfl⟩ := Option.map_eq_some_iff.mp h
      exact .emits .vmm hpipe
  | exit vcpu f env =>
    simp only [step] at h
    split at h
    · rename_i hsettled hrun
      obtain ⟨hemit, howed⟩ := settled_iff.mp hsettled
      obtain ⟨vmm, hvmm, rfl⟩ := Option.map_eq_some_iff.mp h
      exact .exits hemit howed hvmm
    · cases h
  | tracer =>
    simp only [step] at h
    obtain ⟨pipe, hpipe, rfl⟩ := Option.map_eq_some_iff.mp h
    have hsame := hpipe
    obtain rfl := Option.some.inj hsame
    exact .drains hpipe s.pipe.tracerStep_inFlight.1 s.pipe.tracerStep_inFlight.2
  | tick time =>
    obtain ⟨pipe, hpipe, rfl⟩ := Option.map_eq_some_iff.mp h
    have hsame := hpipe
    simp only [Pipeline.step, Option.ite_none_right_eq_some, Option.some.injEq] at hsame
    obtain ⟨-, rfl⟩ := hsame
    exact .drains hpipe rfl rfl

end System
end Control
end TensorSel4
