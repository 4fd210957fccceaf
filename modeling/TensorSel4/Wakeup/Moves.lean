/-
What one step of the system can be.
-/
import TensorSel4.Wakeup.System

namespace TensorSel4
namespace Wakeup

open Command Console Control Mirror Trace Uartrx Vmm

namespace System

inductive Moves (s : System) : System → Prop
  -- The command ring.
  | reads (e : RxEvent) (htodo : s.host.todo = [])
      (hhost : s.host.step (.rx e) = some (s.host.rx e)) :
      Moves s (s.setHost (s.host.rx e))
  | calls {cmd : CmdEntry} {ops : List Op} (hsend : s.host.channel.send = .idle)
      (htodo : s.host.todo = .cmdToVmm cmd :: ops)
      (hhost : s.host.step .uartrx = some (s.host.call cmd ops)) :
      Moves s (s.setHost (s.host.call cmd ops))
  | sends (hbusy : s.host.channel.send ≠ .idle) (hsend : ∀ cmd, s.host.channel.send ≠ .notify cmd)
      (hhost : s.host.step .uartrx = some s.host.sender) : Moves s (s.setHost s.host.sender)
  | signals {cmd : CmdEntry} (hsend : s.host.channel.send = .notify cmd)
      (hhost : s.host.step .uartrx = some s.host.sender) :
      Moves s { s.setHost s.host.sender with toVmm := true }
  | givesUp {cmd : CmdEntry} (crumb : VmmBreadcrumb)
      (hsend : s.host.channel.send = .checkDeadline cmd)
      (hhost : s.host.step (.timeOut crumb) = some (s.host.giveUp cmd crumb)) :
      Moves s (s.setHost (s.host.giveUp cmd crumb))
  | vmmNotified {host : HostState} (hhost : s.host.step .notified = some host)
      (hrun : host.channel.run = .loadTail) (htodo : host.todo = s.host.todo)
      (hsend : host.channel.send = s.host.channel.send) :
      Moves s { s.setHost host with toVmm := false }
  | runs {host : HostState} (hrun : s.host.channel.run ≠ .idle)
      (hhost : s.host.step .vmm = some host)
      (hchannel : host.channel = s.host.channel.receiver) (htodo : host.todo = s.host.todo) :
      Moves s (s.setHost host)
  -- uartrx's other operations.
  | records {rec : TraceRecord} {ops : List Op} {pipe : Pipeline}
      (htodo : s.host.todo = .traceEmit rec :: ops)
      (hhost : s.host.step .uartrx = some (s.host.skip ops))
      (hpipe : s.pipe.step (recordAct rec) = some pipe) :
      Moves s ((s.setPipe pipe).setHost (s.host.skip ops))
  | requests {ops : List Op} {pipe : Pipeline} (htodo : s.host.todo = .requestDump :: ops)
      (hhost : s.host.step .uartrx = some (s.host.skip ops)) (hemit : s.pipe.emit .uartrx = .idle)
      (hpipe : s.pipe.step (.producer .uartrx) = some pipe) :
      Moves s ((s.setPipe pipe).setHost (s.host.skip ops))
  | putcs {c : UInt8} {ops : List Op} {console : ConsoleState} (htodo : s.host.todo = .putc c :: ops)
      (hhost : s.host.step .uartrx = some (s.host.skip ops))
      (hconsole : s.uartrxConsole.step .uartrx (.call c) = some console) :
      Moves s ((s.setConsole .uartrx console).setHost (s.host.skip ops))
  | flushes {ops : List Op} (hput : s.uartrxConsole.put = .idle)
      (hsend : s.host.channel.send = .idle) (htodo : s.host.todo = .flush :: ops)
      (hhost : s.host.step .uartrx = some (s.host.skip ops)) :
      Moves s ((s.notifyTracer .uartrx).setHost (s.host.skip ops))
  -- `trace_emit` and the functions that put a byte.
  | notifies (p : Producer) :
      Moves s { s.notifyTracer p with owed := Function.update s.owed p false }
  | emits (p : Producer) {pipe : Pipeline} (hemit : s.pipe.emit p ≠ .idle)
      (hpipe : s.pipe.step (.producer p) = some pipe) :
      Moves s { s.setPipe pipe with
        owed := Function.update s.owed p (emitNotifies s.pipe.ring (s.pipe.emit p)) }
  | puts (p : Producer) {console : ConsoleState} (hput : (s.console p).put ≠ .idle)
      (hquiet : putNotifies (s.console p).put = false)
      (hconsole : (s.console p).step (consoleProducer p) .producer = some console) :
      Moves s (s.setConsole p console)
  | putsNotify (p : Producer) {console : ConsoleState} (hput : (s.console p).put ≠ .idle)
      (hconsole : (s.console p).step (consoleProducer p) .producer = some console) :
      Moves s ((s.setConsole p console).notifyTracer p)
  -- The VMM's handlers.
  | faults : Moves s { s with handling := true }
  | leaves : Moves s { s with handling := false }
  | vmmRecords {rec : TraceRecord} {pipe : Pipeline}
      (hpipe : s.pipe.step (.call .vmm rec) = some pipe) : Moves s (s.setPipe pipe)
  | vmmPuts {c : UInt8} {console : ConsoleState} (hput : s.vmmConsole.put = .idle)
      (hconsole : s.vmmConsole.step .vmm (.call c) = some console) :
      Moves s (s.setConsole .vmm console)
  -- The tracer.
  | tracerNotified (p : Producer) (htracer : s.tracer = .waiting) :
      Moves s { (s.setPipe s.pipe.tracerStep).goTo .drainTrace with
        toTracer := Function.update s.toTracer p false }
  | drainsTrace (htracer : s.tracer = .drainTrace) (hpipe : s.pipe.tracer ≠ .drainConsole) :
      Moves s (s.setPipe s.pipe.tracerStep)
  | drainsVmm {console : ConsoleState} (htracer : s.tracer = .drainTrace)
      (hpipe : s.pipe.tracer = .drainConsole)
      (hconsole : s.vmmConsole.step .vmm .drainConsole = some console) :
      Moves s ((s.setConsole .vmm console).goTo (.drainConsole .vmm))
  | drainsUartrx {console : ConsoleState} (htracer : s.tracer = .drainConsole .vmm)
      (hdrain : s.vmmConsole.drain = .idle)
      (hconsole : s.uartrxConsole.step .uartrx .drainConsole = some console) :
      Moves s ((s.setConsole .uartrx console).goTo (.drainConsole .uartrx))
  | drains (p : Producer) {console : ConsoleState} (htracer : s.tracer = .drainConsole p)
      (hconsole : (s.console p).step (consoleProducer p) .tracer = some console) :
      Moves s (s.setConsole p console)
  | outputs (p : Producer) {c : UInt8} {console : ConsoleState}
      (htracer : s.tracer = .drainConsole p) (hmirror : s.mirror.put = .idle)
      (hconsole : (s.console p).step (consoleProducer p) .tracer = some console) :
      Moves s ((s.setConsole p console).setMirror (s.mirror.call c))
  | drained (htracer : s.tracer = .drainConsole .uartrx) (hdrain : s.uartrxConsole.drain = .idle)
      (hmirror : s.mirror.put = .idle) :
      Moves s ((s.setPipe s.pipe.tracerStep).goTo .maybeDump)
  | checksDump (htracer : s.tracer = .maybeDump) (hpipe : s.pipe.tracer = .maybeDump) :
      Moves s ((s.setPipe s.pipe.tracerStep).goTo
        (if s.pipe.dumpRequests = s.pipe.dumpsDone then .mirrorNotify else .maybeDump))
  | dumps (text : List UInt8) (htracer : s.tracer = .maybeDump)
      (hpipe : s.pipe.tracer = .dumpArchive) :
      Moves s ((s.setPipe s.pipe.tracerStep).goTo (.puts text))
  | putsText {c : UInt8} {text : List UInt8} (htracer : s.tracer = .puts (c :: text))
      (hmirror : s.mirror.put = .idle) :
      Moves s ((s.setMirror (s.mirror.call c)).goTo (.puts text))
  | putText (htracer : s.tracer = .puts []) (hmirror : s.mirror.put = .idle) :
      Moves s (s.goTo .mirrorNotify)
  | mirrorNotifies (htracer : s.tracer = .mirrorNotify) (hmirror : s.mirror.put = .idle) :
      Moves s ((s.setMirror s.mirror.mirrorNotify).goTo .waiting)
  | mirrors (hmirror : s.mirror.put ≠ .idle) : Moves s (s.setMirror s.mirror.putStep)
  -- fbcon and the counter.
  | fbcon {a : Mirror.Act} {mirror : MirrorState} (hmirror : s.mirror.step a = some mirror)
      (hput : mirror.put = s.mirror.put) (hpending : mirror.pending = s.mirror.pending) :
      Moves s (s.setMirror mirror)
  | ticks {time : UInt64} : Moves s (s.setPipe { s.pipe with cntpct := time })

variable {s t : System} {p : Producer}

/-! ## The producers -/

theorem inEmit_eq_false (h : s.inEmit p = false) : s.owed p = false ∧ s.pipe.emit p = .idle := by
  simpa [inEmit] using h

theorem inPut_eq_false (h : s.inPut p = false) : (s.console p).put = .idle := by
  simpa [inPut] using h

theorem settled_eq_true (h : s.settled p = true) :
    s.inEmit p = false ∧ (s.console p).put = .idle := by
  simpa [settled, inPut] using h

theorem moves_of_emitStep (hin : s.inEmit p = true) (h : s.emitStep p = some t) : Moves s t := by
  unfold emitStep at h
  split at h
  · obtain rfl := Option.some.inj h
    exact .notifies p
  · next howed =>
    obtain ⟨pipe, hpipe, rfl⟩ := Option.map_eq_some_iff.mp h
    have hemit : s.pipe.emit p ≠ .idle := by simpa [inEmit, howed] using hin
    exact .emits p hemit hpipe

theorem moves_of_putStep (hin : s.inPut p = true) (h : s.putStep p = some t) : Moves s t := by
  have hput : (s.console p).put ≠ .idle := by simpa [inPut] using hin
  obtain ⟨console, hconsole, rfl⟩ := Option.map_eq_some_iff.mp h
  split
  · exact .putsNotify p hput hconsole
  · next hquiet => exact .puts p hput (Bool.eq_false_iff.mpr hquiet) hconsole

theorem moves_of_uartrxOp (hemit : s.pipe.emit .uartrx = .idle) (hput : s.uartrxConsole.put = .idle)
    (h : s.uartrxOp = some t) : Moves s t := by
  unfold uartrxOp at h
  split at h
  case h_1 rec ops hsend htodo =>
    obtain ⟨pipe, hpipe, rfl⟩ := Option.map_eq_some_iff.mp h
    exact .records htodo (by simp [HostState.step, hsend, htodo]) hpipe
  case h_2 ops hsend htodo =>
    obtain ⟨pipe, hpipe, rfl⟩ := Option.map_eq_some_iff.mp h
    exact .requests htodo (by simp [HostState.step, hsend, htodo]) hemit hpipe
  case h_3 c ops hsend htodo =>
    obtain ⟨console, hconsole, rfl⟩ := Option.map_eq_some_iff.mp h
    exact .putcs htodo (by simp [HostState.step, hsend, htodo]) hconsole
  case h_4 ops hsend htodo =>
    obtain rfl := Option.some.inj h
    exact .flushes hput hsend htodo (by simp [HostState.step, hsend, htodo])
  case h_5 cmd hsend =>
    obtain ⟨host, hhost, rfl⟩ := Option.map_eq_some_iff.mp h
    cases HostState.moves_of_step hhost with
    | sender => exact .signals hsend hhost
    | call hidle | skip hidle =>
      rw [hsend] at hidle
      cases hidle
  case h_6 =>
    rename_i hnotify hrec hdump hputc hflush
    obtain ⟨host, hhost, rfl⟩ := Option.map_eq_some_iff.mp h
    cases HostState.moves_of_step hhost with
    | call hsend htodo => exact .calls hsend htodo hhost
    | @skip op ops hsend htodo hop =>
      cases op with
      | putc c => exact absurd htodo (hputc c ops hsend)
      | flush => exact absurd htodo (hflush ops hsend)
      | traceEmit rec => exact absurd htodo (hrec rec ops hsend)
      | requestDump => exact absurd htodo (hdump ops hsend)
      | cmdToVmm cmd => cases hop
    | sender hsend => exact .sends hsend hnotify hhost

theorem moves_of_uartrxStep (h : s.uartrxStep = some t) : Moves s t := by
  unfold uartrxStep at h
  split at h
  · next hin => exact moves_of_emitStep hin h
  · next hemit =>
    split at h
    · next hin => exact moves_of_putStep hin h
    · next hput =>
      exact moves_of_uartrxOp (inEmit_eq_false (Bool.eq_false_iff.mpr hemit)).2
        (inPut_eq_false (Bool.eq_false_iff.mpr hput)) h

theorem moves_of_runStep {host : HostState} (hhost : s.host.step .vmm = some host) :
    Moves s (s.setHost host) := by
  have hstep := hhost
  cases HostState.moves_of_step hhost with
  | receiver hrun => exact .runs hrun hstep rfl rfl

theorem moves_of_vmmStep (h : s.vmmStep = some t) : Moves s t := by
  unfold vmmStep at h
  split at h
  · next hin => exact moves_of_emitStep hin h
  · split at h
    · next hin => exact moves_of_putStep hin h
    · split at h
      · split at h
        · obtain rfl := Option.some.inj h
          exact .leaves
        · cases h
      · obtain ⟨host, hhost, rfl⟩ := Option.map_eq_some_iff.mp h
        exact moves_of_runStep hhost

theorem vmmRuns_settled (h : s.vmmRuns = true) : s.settled .vmm = true := by
  unfold vmmRuns at h
  split at h
  · exact (Bool.and_eq_true_iff.mp h).2
  · exact h
  · cases h

/-! ## The tracer -/

theorem moves_of_drainStep (htracer : s.tracer = .drainConsole p) (hmirror : s.mirror.put = .idle)
    (h : s.drainStep p = some t) : Moves s t := by
  unfold drainStep at h
  cases hdrain : (s.console p).drain with
  | idle =>
    cases p with
    | vmm =>
      rw [hdrain] at h
      obtain ⟨console, hconsole, rfl⟩ := Option.map_eq_some_iff.mp h
      exact .drainsUartrx htracer hdrain hconsole
    | uartrx =>
      rw [hdrain] at h
      obtain rfl := Option.some.inj h
      exact .drained htracer hdrain hmirror
  | output tail =>
    rw [hdrain] at h
    obtain ⟨console, hconsole, rfl⟩ := Option.map_eq_some_iff.mp h
    exact .outputs p htracer hmirror hconsole
  | loadTail | loadHead tail | storeTail tail =>
    rw [hdrain] at h
    obtain ⟨console, hconsole, rfl⟩ := Option.map_eq_some_iff.mp h
    exact .drains p htracer hconsole

theorem moves_of_tracerStep (h : s.tracerStep = some t) : Moves s t := by
  unfold tracerStep at h
  split at h
  case h_1 => cases h
  case h_2 hmirror htracer =>
    split at h
    · next hpipe =>
      obtain ⟨console, hconsole, rfl⟩ := Option.map_eq_some_iff.mp h
      exact .drainsVmm htracer hpipe hconsole
    · next hpipe =>
      obtain rfl := Option.some.inj h
      exact .drainsTrace htracer hpipe
  case h_3 p hmirror htracer => exact moves_of_drainStep htracer hmirror h
  case h_4 hmirror htracer =>
    unfold dumpStep at h
    split at h
    · next hpipe =>
      obtain rfl := Option.some.inj h
      exact .checksDump htracer hpipe
    · next hpipe =>
      obtain rfl := Option.some.inj h
      exact .dumps _ htracer hpipe
    · cases h
  case h_5 hmirror htracer =>
    obtain rfl := Option.some.inj h
    exact .putText htracer hmirror
  case h_6 c text hmirror htracer =>
    obtain rfl := Option.some.inj h
    exact .putsText htracer hmirror
  case h_7 hmirror htracer =>
    obtain rfl := Option.some.inj h
    exact .mirrorNotifies htracer hmirror
  case h_8 hwaiting hdrainTrace hdrainConsole hmaybeDump hnil hcons hnotify =>
    obtain rfl := Option.some.inj h
    refine .mirrors ?_
    intro hidle
    cases htracer : s.tracer with
    | waiting => exact hwaiting hidle htracer
    | drainTrace => exact hdrainTrace hidle htracer
    | drainConsole p => exact hdrainConsole p hidle htracer
    | maybeDump => exact hmaybeDump hidle htracer
    | puts text =>
      cases text with
      | nil => exact hnil hidle htracer
      | cons c text => exact hcons c text hidle htracer
    | mirrorNotify => exact hnotify hidle htracer

/-- fbcon leaves the tracer's side of the mirror alone. -/
theorem moves_of_fbcon {a : Mirror.Act} {mirror : MirrorState} (ha : a = .notified ∨ a = .fbcon)
    (hmirror : s.mirror.step a = some mirror) : Moves s (s.setMirror mirror) := by
  refine .fbcon hmirror ?_ ?_ <;> rcases ha with rfl | rfl <;>
    simp only [MirrorState.step] at hmirror <;> split at hmirror <;> cases hmirror <;>
    first
    | rfl
    | (unfold MirrorState.fbconStep; split <;> rfl)

/-! ## All steps -/

theorem moves_of_step {a : Act} (h : s.step a = some t) : Moves s t := by
  cases a with
  | rx e =>
    simp only [step, Option.ite_none_right_eq_some] at h
    obtain ⟨host, hhost, rfl⟩ := Option.map_eq_some_iff.mp h.2
    have hstep := hhost
    cases HostState.moves_of_step hhost with
    | rx _ _ htodo => exact .reads e htodo hstep
  | uartrx => exact moves_of_uartrxStep h
  | timeOut crumb =>
    obtain ⟨host, hhost, rfl⟩ := Option.map_eq_some_iff.mp h
    have hstep := hhost
    cases HostState.moves_of_step hhost with
    | giveUp _ hsend => exact .givesUp crumb hsend hstep
  | vmmNotified =>
    simp only [step, Option.ite_none_right_eq_some] at h
    obtain ⟨host, hhost, rfl⟩ := Option.map_eq_some_iff.mp h.2
    have hstep := hhost
    cases HostState.moves_of_step hhost with
    | notified => exact .vmmNotified hstep rfl rfl rfl
  | fault =>
    simp only [step, Option.ite_none_right_eq_some, Option.some.injEq] at h
    obtain ⟨-, rfl⟩ := h
    exact .faults
  | traceEmit rec =>
    simp only [step, Option.ite_none_right_eq_some] at h
    obtain ⟨pipe, hpipe, rfl⟩ := Option.map_eq_some_iff.mp h.2
    exact .vmmRecords hpipe
  | putchar c =>
    simp only [step, Option.ite_none_right_eq_some] at h
    obtain ⟨console, hconsole, rfl⟩ := Option.map_eq_some_iff.mp h.2
    exact .vmmPuts (settled_eq_true (vmmRuns_settled h.1)).2 hconsole
  | vmm => exact moves_of_vmmStep h
  | tracerNotified p =>
    simp only [step, Option.ite_none_right_eq_some, Option.some.injEq] at h
    obtain ⟨⟨htracer, -⟩, rfl⟩ := h
    exact .tracerNotified p htracer
  | tracer => exact moves_of_tracerStep h
  | fbconNotified =>
    obtain ⟨mirror, hmirror, rfl⟩ := Option.map_eq_some_iff.mp h
    exact moves_of_fbcon (Or.inl rfl) hmirror
  | fbcon =>
    obtain ⟨mirror, hmirror, rfl⟩ := Option.map_eq_some_iff.mp h
    exact moves_of_fbcon (Or.inr rfl) hmirror
  | tick time =>
    obtain ⟨pipe, hpipe, rfl⟩ := Option.map_eq_some_iff.mp h
    simp only [Pipeline.step, Option.ite_none_right_eq_some, Option.some.injEq] at hpipe
    obtain ⟨-, rfl⟩ := hpipe
    exact .ticks

end System
end Wakeup
end TensorSel4
