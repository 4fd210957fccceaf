/-
No wakeup is lost.

For each ring the invariant says who will see to what is left in it: a
notification is pending (`called`), the reader has yet to find the ring empty, or
the writer has yet to notify.  When all the protection domains wait and no
notification is pending, none of these holds, so nothing is left.
-/
import TensorSel4.Control.Moves
import TensorSel4.Wakeup.Places

namespace TensorSel4
namespace Wakeup

open Command Console Control Mirror Trace Uartrx Vmm

namespace System

variable {uart : UartConfig} {screen : Option Fbcon.Screen} {s t : System} {p : Producer}

/-- A notification of the tracer is pending. -/
def called (s : System) : Prop := ∃ p, s.toTracer p = true

theorem called_notifyTracer (s : System) (p : Producer) : (s.notifyTracer p).called :=
  ⟨p, Function.update_self _ _ _⟩

structure Awake (s : System) : Prop where
  trace : s.pipe.ring.head ≠ s.pipe.ring.tail →
    (∃ p, s.inEmit p = true) ∨ s.called ∨ s.tracer = .drainTrace ∧ s.pipe.tracer ≠ .drainConsole
  vmmConsole : HoldsLine s.vmmConsole.ring →
    s.vmmConsole.put.owesLine ∨ s.called ∨ s.tracer = .drainTrace ∨ s.vmmConsole.drain ≠ .idle
  uartrxConsole : s.uartrxConsole.ring.head ≠ s.uartrxConsole.ring.tail →
    s.host.todo ≠ [] ∨ s.called ∨ s.tracer = .drainTrace ∨ s.tracer = .drainConsole .vmm ∨
      s.uartrxConsole.drain ≠ .idle
  dump : s.pipe.dumpRequests ≠ s.pipe.dumpsDone →
    s.host.todo ≠ [] ∨ s.called ∨ s.tracer = .drainTrace ∨ (∃ p, s.tracer = .drainConsole p) ∨
      s.tracer = .maybeDump ∧ s.pipe.tracer = .maybeDump
  command : s.host.channel.ring.head ≠ s.host.channel.ring.tail →
    (∃ cmd, s.host.channel.send = .notify cmd) ∨ s.toVmm = true ∨ s.host.channel.run ≠ .idle

theorem awake_start (uart : UartConfig) (screen : Option Fbcon.Screen) :
    Awake (wakeup uart screen).start where
  trace h := absurd rfl h
  vmmConsole h := absurd h (not_holdsLine_of_empty rfl)
  uartrxConsole h := absurd rfl h
  dump h := absurd rfl h
  command h := absurd rfl h

/-! ## The trace ring -/

/-- Unless the producer is back, a notification follows what it did. -/
theorem emit_notifies {pipe pipe' : Pipeline} (hbusy : pipe.emit p ≠ .idle)
    (hs : pipe.producerStep p = some pipe') :
    pipe'.emit p ≠ .idle ∨ emitNotifies pipe.ring (pipe.emit p) = true := by
  unfold Pipeline.producerStep at hs
  cases hpc : pipe.emit p with
  | idle => exact absurd hpc hbusy
  | unlock => exact Or.inr rfl
  | exchange rec | spin rec | waitForSpace rec head =>
    simp only [hpc, Option.some.injEq] at hs
    subst hs
    left
    show (pipe.setEmit p _).emit p ≠ .idle
    rw [Pipeline.setEmit_self]
    split <;> exact nofun
  | loadHead rec | fetchSeq rec head | readTime rec head | storeSlot rec head
  | storeHead rec head =>
    simp only [hpc, Option.some.injEq] at hs
    subst hs
    left
    show (pipe.setEmit p _).emit p ≠ .idle
    rw [Pipeline.setEmit_self]
    exact nofun

theorem inEmit_of_emit (h : s.pipe.emit p ≠ .idle) : s.inEmit p = true := by
  simp [inEmit, h]

theorem recordAct_frame {rec : TraceRecord} {pipe : Pipeline}
    (hpipe : s.pipe.step (recordAct rec) = some pipe) :
    pipe.emit .uartrx ≠ .idle ∧ pipe.dumpRequests = s.pipe.dumpRequests := by
  unfold recordAct at hpipe
  split at hpipe <;>
    simp only [Pipeline.step, Option.ite_none_right_eq_some, Option.some.injEq] at hpipe <;>
    obtain ⟨-, rfl⟩ := hpipe
  · refine ⟨?_, rfl⟩
    show (s.pipe.setEmit .uartrx _).emit .uartrx ≠ .idle
    rw [Pipeline.setEmit_self]
    intro h
    cases h
  · refine ⟨?_, rfl⟩
    show (s.pipe.setEmit .uartrx _).emit .uartrx ≠ .idle
    rw [Pipeline.setEmit_self]
    intro h
    cases h

/-- Behind `drain_trace` the tracer leaves the trace ring alone. -/
theorem tracerStep_ring {pipe : Pipeline} (h : ∀ tail, pipe.tracer ≠ .storeTail tail) :
    pipe.tracerStep.ring = pipe.ring := by
  unfold Pipeline.tracerStep
  cases hpc : pipe.tracer with
  | storeTail tail => exact absurd hpc (h tail)
  | maybeDump =>
    dsimp only
    split <;> rfl
  | _ => rfl

theorem Awake.trace_moves (h : Awake s) (hp : Placed uart screen s) (hm : Moves s t) :
    t.pipe.ring.head ≠ t.pipe.ring.tail → (∃ p, t.inEmit p = true) ∨ t.called ∨
      t.tracer = .drainTrace ∧ t.pipe.tracer ≠ .drainConsole := by
  have hstaged := hp.staged
  -- The tracer is past the trace ring, so somebody else sees to it.
  have hpast : s.tracer ≠ .drainTrace → s.pipe.ring.head ≠ s.pipe.ring.tail →
      (∃ p, s.inEmit p = true) ∨ s.called := by
    intro htracer hne
    rcases h.trace hne with hin | hcalled | ⟨hdraining, -⟩
    · exact Or.inl hin
    · exact Or.inr hcalled
    · exact absurd hdraining htracer
  have hkept : (∃ p, s.inEmit p = true) ∨ s.called → ∀ {c : Prop},
      (∃ p, s.inEmit p = true) ∨ s.called ∨ c := by
    rintro (hin | hcalled) c
    · exact Or.inl hin
    · exact Or.inr (Or.inl hcalled)
  have hbehind : (∀ tail, s.pipe.tracer ≠ .storeTail tail) → s.tracer ≠ .drainTrace →
      ∀ {pc : NotifiedPc} {c : Prop}, s.pipe.tracerStep.ring.head ≠ s.pipe.tracerStep.ring.tail →
        (∃ p, ((s.setPipe s.pipe.tracerStep).goTo pc).inEmit p = true) ∨ s.called ∨ c := by
    intro hpc htracer pc c hne
    rw [tracerStep_ring hpc] at hne
    show (∃ p, (s.owed p || decide (s.pipe.tracerStep.emit p ≠ .idle)) = true) ∨ _
    rw [s.pipe.tracerStep_inFlight.2]
    exact hkept (hpast htracer hne)
  cases hm with
  | @records rec ops pipe _ _ hpipe =>
    exact fun _ => Or.inl ⟨.uartrx, inEmit_of_emit (recordAct_frame hpipe).1⟩
  | @vmmRecords rec pipe hpipe =>
    refine fun _ => Or.inl ⟨.vmm, inEmit_of_emit ?_⟩
    show pipe.emit .vmm ≠ .idle
    rw [Pipeline.call_eq hpipe]
    show (s.pipe.setEmit .vmm _).emit .vmm ≠ .idle
    rw [Pipeline.setEmit_self]
    intro h
    cases h
  | requests _ _ hemit hpipe =>
    simp only [Pipeline.step, Pipeline.producerStep, hemit, Option.ite_none_right_eq_some,
      Option.some.injEq] at hpipe
    obtain ⟨-, rfl⟩ := hpipe
    exact h.trace
  | @emits p pipe hemit hpipe =>
    refine fun _ => Or.inl ⟨p, ?_⟩
    rcases emit_notifies hemit hpipe with hbusy | hnotifies
    · exact inEmit_of_emit hbusy
    · show (Function.update s.owed p _ p || _) = true
      rw [Function.update_self, hnotifies, Bool.true_or]
  | notifies p => exact fun _ => Or.inr (Or.inl (called_notifyTracer s p))
  | flushes => exact fun _ => Or.inr (Or.inl (called_notifyTracer s .uartrx))
  | @putsNotify p console => exact fun _ => Or.inr (Or.inl (called_notifyTracer s p))
  | tracerNotified _ htracer =>
    rw [htracer] at hstaged
    refine fun _ => Or.inr (Or.inr ⟨rfl, ?_⟩)
    show s.pipe.tracerStep.tracer ≠ .drainConsole
    rw [Pipeline.tracerStep, show s.pipe.tracer = .idle from hstaged]
    intro h
    cases h
  | drainsTrace htracer hnot =>
    rw [htracer] at hstaged
    show s.pipe.tracerStep.ring.head ≠ s.pipe.tracerStep.ring.tail → _ ∨ _ ∨
      s.tracer = .drainTrace ∧ s.pipe.tracerStep.tracer ≠ .drainConsole
    unfold Pipeline.tracerStep
    cases hpc : s.pipe.tracer <;> rw [hpc] at hstaged
    case loadHead tail =>
      have htail := hp.traceTail tail hpc
      intro hne
      refine Or.inr (Or.inr ⟨htracer, ?_⟩)
      dsimp only
      rw [if_neg (fun he => hne (htail ▸ he).symm)]
      intro h
      cases h
    case drainTrace | archiveRecord | storeTail =>
      refine fun _ => Or.inr (Or.inr ⟨htracer, ?_⟩)
      intro h
      cases h
    case drainConsole => exact absurd hpc hnot
    case idle | maybeDump | dumpArchive => exact hstaged.elim
  | drainsVmm htracer hpc _ =>
    intro hne
    rcases h.trace hne with hin | hcalled | ⟨-, hnot⟩
    · exact Or.inl hin
    · exact Or.inr (Or.inl hcalled)
    · exact absurd hpc hnot
  | drainsUartrx htracer _ _ | putsText htracer _ | putText htracer _
  | mirrorNotifies htracer _ =>
    exact fun hne => hkept (hpast (by simp [htracer]) hne)
  | drained htracer _ _ =>
    rw [htracer] at hstaged
    have hpc : s.pipe.tracer = .drainConsole := hstaged
    exact hbehind (by simp [hpc]) (by simp [htracer])
  | checksDump htracer hpc | dumps _ htracer hpc =>
    exact hbehind (by simp [hpc]) (by simp [htracer])
  | _ => exact h.trace

/-! ## The console rings -/

theorem Awake.vmmConsole_moves (h : Awake s) (hp : Placed uart screen s) (hm : Moves s t) :
    HoldsLine t.vmmConsole.ring → t.vmmConsole.put.owesLine ∨ t.called ∨
      t.tracer = .drainTrace ∨ t.vmmConsole.drain ≠ .idle := by
  have hcoherent : s.vmmConsole.Coherent := hp.coherent .vmm
  have hpast : s.tracer ≠ .drainTrace → ∀ {pc : NotifiedPc}, HoldsLine s.vmmConsole.ring →
      s.vmmConsole.put.owesLine ∨ s.called ∨ pc = .drainTrace ∨ s.vmmConsole.drain ≠ .idle := by
    intro htracer pc hline
    rcases h.vmmConsole hline with howes | hcalled | hdraining | hdrain
    · exact Or.inl howes
    · exact Or.inr (Or.inl hcalled)
    · exact absurd hdraining htracer
    · exact Or.inr (Or.inr (Or.inr hdrain))
  have hdrained : ∀ {console : ConsoleState}, s.vmmConsole.step .vmm .tracer = some console →
      HoldsLine console.ring → console.put.owesLine ∨ s.called ∨ s.tracer = .drainTrace ∨
        console.drain ≠ .idle := by
    intro console hconsole hline
    by_cases hidle : console.drain = .idle
    · exact absurd hline (not_holdsLine_of_empty (hcoherent.drained hconsole hidle))
    · exact Or.inr (Or.inr (Or.inr hidle))
  cases hm with
  | @puts p console _ hquiet hconsole =>
    cases p with
    | uartrx => exact h.vmmConsole
    | vmm =>
      intro hline
      have howed : s.vmmConsole.put.owesLine → console.put.owesLine := by
        intro howes
        rcases ConsoleState.owesLine_producer hconsole howes with howes' | hnotify
        · exact howes'
        · rw [show (s.console .vmm).put = .notifyLine from hnotify] at hquiet
          cases hquiet
      have hdrain : console.drain = s.vmmConsole.drain := (ConsoleState.producer_eq hconsole).2.2
      show console.put.owesLine ∨ s.called ∨ s.tracer = .drainTrace ∨ console.drain ≠ .idle
      rw [hdrain]
      rcases hcoherent.producer_line hconsole hline with hold | howes
      · rcases h.vmmConsole hold with howes | hrest
        · exact Or.inl (howed howes)
        · exact Or.inr hrest
      · exact Or.inl (howed howes)
  | @vmmPuts c console hput hconsole =>
    obtain ⟨hring, -, hdrain⟩ := ConsoleState.call_eq hconsole
    show HoldsLine console.ring → console.put.owesLine ∨ s.called ∨ s.tracer = .drainTrace ∨
      console.drain ≠ .idle
    rw [hring, hdrain]
    intro hline
    rcases h.vmmConsole hline with howes | hrest
    · rw [hput] at howes
      exact howes.elim
    · exact Or.inr hrest
  | notifies p => exact fun _ => Or.inr (Or.inl (called_notifyTracer s p))
  | flushes => exact fun _ => Or.inr (Or.inl (called_notifyTracer s .uartrx))
  | @putsNotify p console => exact fun _ => Or.inr (Or.inl (called_notifyTracer s p))
  | tracerNotified => exact fun _ => Or.inr (Or.inr (Or.inl rfl))
  | @drainsVmm console _ _ hconsole =>
    refine fun _ => Or.inr (Or.inr (Or.inr ?_))
    show console.drain ≠ .idle
    rw [(ConsoleState.drainConsole_eq hconsole).2.2]
    exact nofun
  | drains p _ hconsole | outputs p _ _ hconsole =>
    cases p with
    | uartrx => exact h.vmmConsole
    | vmm => exact hdrained hconsole
  | drainsUartrx htracer _ _ | drained htracer _ _ | checksDump htracer _ | dumps _ htracer _
  | putsText htracer _ | putText htracer _ | mirrorNotifies htracer _ =>
    exact hpast (by simp [htracer])
  | _ => exact h.vmmConsole

/-- uartrx does not come to the end of its operations without a notification. -/
theorem todo_moves (hp : Placed uart screen s) (hm : Moves s t) (hne : s.host.todo ≠ []) :
    t.host.todo ≠ [] ∨ t.called := by
  have hflushes := hp.flushes
  cases hm with
  | reads _ htodo _ => exact absurd htodo hne
  | calls _ htodo _ | records htodo _ _ | requests htodo _ _ _ | putcs htodo _ _ =>
    rw [htodo] at hflushes
    exact Or.inl (hflushes.rest nofun).1
  | sends | signals | givesUp => exact Or.inl (List.append_ne_nil_of_right_ne_nil _ hne)
  | @vmmNotified host _ _ htodo _ | @runs host _ _ _ htodo =>
    left
    show host.todo ≠ []
    rw [htodo]
    exact hne
  | flushes => exact Or.inr (called_notifyTracer s .uartrx)
  | _ => exact Or.inl hne

theorem Awake.uartrxConsole_moves (h : Awake s) (hp : Placed uart screen s) (hm : Moves s t) :
    t.uartrxConsole.ring.head ≠ t.uartrxConsole.ring.tail →
      t.host.todo ≠ [] ∨ t.called ∨ t.tracer = .drainTrace ∨ t.tracer = .drainConsole .vmm ∨
        t.uartrxConsole.drain ≠ .idle := by
  have hcoherent : s.uartrxConsole.Coherent := hp.coherent .uartrx
  have htodo := todo_moves hp hm
  have hpast : s.tracer ≠ .drainTrace → s.tracer ≠ .drainConsole .vmm → ∀ {pc : NotifiedPc},
      s.uartrxConsole.ring.head ≠ s.uartrxConsole.ring.tail →
        s.host.todo ≠ [] ∨ s.called ∨ pc = .drainTrace ∨ pc = .drainConsole .vmm ∨
          s.uartrxConsole.drain ≠ .idle := by
    intro htracer hvmm pc hne
    rcases h.uartrxConsole hne with htodo | hcalled | hdraining | hdraining | hdrain
    · exact Or.inl htodo
    · exact Or.inr (Or.inl hcalled)
    · exact absurd hdraining htracer
    · exact absurd hdraining hvmm
    · exact Or.inr (Or.inr (Or.inr (Or.inr hdrain)))
  have hdrained : ∀ {console : ConsoleState}, s.uartrxConsole.step .uartrx .tracer = some console →
      console.ring.head ≠ console.ring.tail →
        s.host.todo ≠ [] ∨ s.called ∨ s.tracer = .drainTrace ∨ s.tracer = .drainConsole .vmm ∨
          console.drain ≠ .idle := by
    intro console hconsole hne
    by_cases hidle : console.drain = .idle
    · exact absurd (hcoherent.drained hconsole hidle) hne
    · exact Or.inr (Or.inr (Or.inr (Or.inr hidle)))
  cases hm with
  | reads | calls | sends | signals | givesUp | vmmNotified | runs | records | requests =>
    intro hne
    rcases h.uartrxConsole hne with hmore | hrest
    · rcases htodo hmore with hmore' | hcalled
      · exact Or.inl hmore'
      · exact Or.inr (Or.inl hcalled)
    · exact Or.inr hrest
  | @putcs c ops console htodo' hhost hconsole =>
    obtain ⟨hring, -, hdrain⟩ := ConsoleState.call_eq hconsole
    show console.ring.head ≠ console.ring.tail → ops ≠ [] ∨ s.called ∨ s.tracer = .drainTrace ∨
      s.tracer = .drainConsole .vmm ∨ console.drain ≠ .idle
    rw [hring, hdrain]
    intro hne
    rcases h.uartrxConsole hne with hmore | hrest
    · rcases htodo hmore with hmore' | hcalled
      · exact Or.inl hmore'
      · exact Or.inr (Or.inl hcalled)
    · exact Or.inr hrest
  | puts p hput _ _ =>
    cases p with
    | vmm => exact h.uartrxConsole
    | uartrx => exact fun _ => Or.inl (hp.inside (Or.inl hput))
  | notifies p => exact fun _ => Or.inr (Or.inl (called_notifyTracer s p))
  | flushes => exact fun _ => Or.inr (Or.inl (called_notifyTracer s .uartrx))
  | @putsNotify p console => exact fun _ => Or.inr (Or.inl (called_notifyTracer s p))
  | tracerNotified => exact fun _ => Or.inr (Or.inr (Or.inl rfl))
  | drainsVmm => exact fun _ => Or.inr (Or.inr (Or.inr (Or.inl rfl)))
  | @drainsUartrx console _ _ hconsole =>
    refine fun _ => Or.inr (Or.inr (Or.inr (Or.inr ?_)))
    show console.drain ≠ .idle
    rw [(ConsoleState.drainConsole_eq hconsole).2.2]
    exact nofun
  | drains p _ hconsole | outputs p _ _ hconsole =>
    cases p with
    | vmm => exact h.uartrxConsole
    | uartrx => exact hdrained hconsole
  | drained htracer _ _ | checksDump htracer _ | dumps _ htracer _ | putsText htracer _
  | putText htracer _ | mirrorNotifies htracer _ =>
    exact hpast (by simp [htracer]) (by simp [htracer])
  | _ => exact h.uartrxConsole

/-! ## The dump requests -/

theorem Awake.dump_moves (h : Awake s) (hp : Placed uart screen s) (hm : Moves s t) :
    t.pipe.dumpRequests ≠ t.pipe.dumpsDone →
      t.host.todo ≠ [] ∨ t.called ∨ t.tracer = .drainTrace ∨ (∃ p, t.tracer = .drainConsole p) ∨
        t.tracer = .maybeDump ∧ t.pipe.tracer = .maybeDump := by
  have hstaged := hp.staged
  have htodo := todo_moves hp hm
  cases hm with
  | reads | calls | sends | signals | givesUp | vmmNotified | runs | putcs =>
    intro hne
    rcases h.dump hne with hmore | hrest
    · rcases htodo hmore with hmore' | hcalled
      · exact Or.inl hmore'
      · exact Or.inr (Or.inl hcalled)
    · exact Or.inr hrest
  | @records rec ops pipe htodo' _ hpipe =>
    have hflushes := hp.flushes
    rw [htodo'] at hflushes
    exact fun _ => Or.inl (hflushes.rest nofun).1
  | requests htodo' _ _ _ =>
    have hflushes := hp.flushes
    rw [htodo'] at hflushes
    exact fun _ => Or.inl (hflushes.rest nofun).1
  | @emits p pipe hemit hpipe =>
    obtain ⟨htracer, -, hdone⟩ := pipe_frame hpipe nofun
    have hrequests : pipe.dumpRequests = s.pipe.dumpRequests := by
      rcases Pipeline.producerStep_cases hpipe with ⟨rfl, ⟨hidle, -⟩, -⟩ | ⟨pc, ring, published, rfl, -⟩
      · exact absurd hidle hemit
      · rfl
    show pipe.dumpRequests ≠ pipe.dumpsDone → s.host.todo ≠ [] ∨ s.called ∨ _ ∨ _ ∨
      s.tracer = .maybeDump ∧ pipe.tracer = .maybeDump
    rw [hrequests, hdone, htracer]
    exact h.dump
  | @vmmRecords rec pipe hpipe =>
    rw [Pipeline.call_eq hpipe]
    exact h.dump
  | notifies p => exact fun _ => Or.inr (Or.inl (called_notifyTracer s p))
  | flushes => exact fun _ => Or.inr (Or.inl (called_notifyTracer s .uartrx))
  | @putsNotify p console => exact fun _ => Or.inr (Or.inl (called_notifyTracer s p))
  | tracerNotified => exact fun _ => Or.inr (Or.inr (Or.inl rfl))
  | drainsTrace htracer _ => exact fun _ => Or.inr (Or.inr (Or.inl htracer))
  | drainsVmm | drainsUartrx => exact fun _ => Or.inr (Or.inr (Or.inr (Or.inl ⟨_, rfl⟩)))
  | drained htracer _ _ =>
    rw [htracer] at hstaged
    refine fun _ => Or.inr (Or.inr (Or.inr (Or.inr ⟨rfl, ?_⟩)))
    show s.pipe.tracerStep.tracer = .maybeDump
    rw [Pipeline.tracerStep, show s.pipe.tracer = .drainConsole from hstaged]
  | checksDump _ hpc =>
    intro hne
    refine absurd ?_ hne
    show s.pipe.tracerStep.dumpRequests = s.pipe.tracerStep.dumpsDone
    rw [Pipeline.tracerStep, hpc]
    dsimp only
    split
    · next he => exact he
    · rfl
  | dumps _ htracer hpc =>
    have hpast : s.pipe.tracerStep.dumpRequests = s.pipe.dumpRequests ∧
        s.pipe.tracerStep.dumpsDone = s.pipe.dumpsDone := by
      rw [Pipeline.tracerStep, hpc]
      exact ⟨rfl, rfl⟩
    show s.pipe.tracerStep.dumpRequests ≠ s.pipe.tracerStep.dumpsDone → _
    rw [hpast.1, hpast.2]
    intro hne
    rcases h.dump hne with hmore | hcalled | hdraining | ⟨p, hdraining⟩ | ⟨-, hchecking⟩
    · exact Or.inl hmore
    · exact Or.inr (Or.inl hcalled)
    · simp [htracer] at hdraining
    · simp [htracer] at hdraining
    · simp [hpc] at hchecking
  | putsText htracer _ | putText htracer _ | mirrorNotifies htracer _ =>
    intro hne
    rcases h.dump hne with hmore | hcalled | hdraining | ⟨p, hdraining⟩ | ⟨hdraining, -⟩
    · exact Or.inl hmore
    · exact Or.inr (Or.inl hcalled)
    all_goals simp [htracer] at hdraining
  | _ => exact h.dump

/-! ## The command ring -/

/-- uartrx notifies the VMM of each command that it queues. -/
theorem sendStep_ring (ring : CmdRing) (pc : SendPc) :
    (sendStep ring pc).1.head = ring.head ∧ (sendStep ring pc).1.tail = ring.tail ∨
      ∃ cmd, (sendStep ring pc).2 = .notify cmd := by
  cases pc with
  | storeHead cmd head => exact Or.inr ⟨cmd, rfl⟩
  | _ => exact Or.inl ⟨rfl, rfl⟩

/-- The VMM leaves `run_commands` when it finds the ring empty. -/
theorem receiver_empty {channel : CmdChannel} (h : channel.Inv) (hbusy : channel.run ≠ .idle)
    (hidle : channel.receiver.run = .idle) :
    channel.receiver.ring.head = channel.receiver.ring.tail := by
  have hrunning := h.running
  unfold CmdChannel.receiver at hidle ⊢
  dsimp only at hidle ⊢
  cases hpc : channel.run <;> rw [hpc] at hidle hrunning
  case idle => exact absurd hpc hbusy
  case loadHead tail =>
    obtain rfl : tail = channel.ring.tail := hrunning
    unfold runStep at hidle
    dsimp only at hidle
    split at hidle
    · next he => exact he.symm
    · cases hidle
  all_goals cases hidle

theorem Awake.command_moves (h : Awake s) (hp : Placed uart screen s) (hm : Moves s t) :
    t.host.channel.ring.head ≠ t.host.channel.ring.tail →
      (∃ cmd, t.host.channel.send = .notify cmd) ∨ t.toVmm = true ∨
        t.host.channel.run ≠ .idle := by
  have hinv : s.host.channel.Inv := (HostState.inv_of_reachable hp.host).channel
  have hsent : (∀ cmd, s.host.channel.send ≠ .notify cmd) →
      s.host.channel.ring.head ≠ s.host.channel.ring.tail →
        s.toVmm = true ∨ s.host.channel.run ≠ .idle := by
    intro hnot hne
    rcases h.command hne with ⟨cmd, hnotify⟩ | hrest
    · exact absurd hnotify (hnot cmd)
    · exact hrest
  cases hm with
  | calls hsend _ _ => exact fun hne => Or.inr (hsent (by simp [hsend]) hne)
  | sends _ hsend _ =>
    intro hne
    rcases sendStep_ring s.host.channel.ring s.host.channel.send with ⟨hhead, htail⟩ | hnotify
    · refine Or.inr (hsent hsend ?_)
      rw [← hhead, ← htail]
      exact hne
    · exact Or.inl hnotify
  | signals => exact fun _ => Or.inr (Or.inl rfl)
  | givesUp _ hsend _ => exact fun hne => Or.inr (hsent (by simp [hsend]) hne)
  | @vmmNotified host _ hrun _ _ =>
    refine fun _ => Or.inr (Or.inr ?_)
    show host.channel.run ≠ .idle
    rw [hrun]
    exact nofun
  | @runs host hrun _ hchannel _ =>
    show host.channel.ring.head ≠ host.channel.ring.tail → _ ∨ _ ∨ host.channel.run ≠ .idle
    rw [hchannel]
    intro hne
    refine Or.inr (Or.inr fun hidle => ?_)
    exact hne (receiver_empty hinv hrun hidle)
  | _ => exact h.command

/-! ## All of it -/

theorem Awake.moves (h : Awake s) (hp : Placed uart screen s) (hm : Moves s t) : Awake t where
  trace := h.trace_moves hp hm
  vmmConsole := h.vmmConsole_moves hp hm
  uartrxConsole := h.uartrxConsole_moves hp hm
  dump := h.dump_moves hp hm
  command := h.command_moves hp hm

theorem inv_of_reachable (hs : (wakeup uart screen).Reachable s) :
    Placed uart screen s ∧ Awake s := by
  refine Automaton.reachable_induction (I := fun s => Placed uart screen s ∧ Awake s)
    ⟨placed_start uart screen, awake_start uart screen⟩ ?_ hs
  intro s a t hI ht
  have hm := moves_of_step ht
  exact ⟨hI.1.moves hm, hI.2.moves hI.1 hm⟩

/-! ## At rest -/

/-- Whatever the interleaving, nothing is left behind where everybody waits: the
rings are empty, but for an unfinished line of the VMM, the VMM has completed the
last command that was queued, and the tracer has seen every dump request. -/
theorem no_lost_wakeup (hs : (wakeup uart screen).Reachable s) (hq : s.Quiescent) :
    s.pipe.ring.head = s.pipe.ring.tail ∧
      s.uartrxConsole.ring.head = s.uartrxConsole.ring.tail ∧
      s.host.channel.ring.head = s.host.channel.ring.tail ∧
      s.mirror.ring.head = s.mirror.ring.tail ∧
      ¬HoldsLine s.vmmConsole.ring ∧
      s.host.channel.ring.completedId = lastId s.host.channel.queued ∧
      s.pipe.dumpsDone = s.pipe.dumpRequests := by
  obtain ⟨hp, h⟩ := inv_of_reachable hs
  have hcalled : ¬s.called := by
    rintro ⟨p, hset⟩
    simp [hq.toTracer] at hset
  have hrun : s.host.channel.run = .idle := by
    have hvmm := hq.vmm
    unfold vmmWaits at hvmm
    split at hvmm
    · assumption
    · cases hvmm
  have hvmm : s.settled .vmm = true := by
    have hvmm := hq.vmm
    rw [vmmWaits, hrun] at hvmm
    exact (Bool.and_eq_true_iff.mp hvmm).2
  have hinv := (HostState.inv_of_reachable hp.host).channel
  have hcommand : s.host.channel.ring.head = s.host.channel.ring.tail := by
    by_contra hne
    rcases h.command hne with ⟨cmd, hsend⟩ | hset | hbusy
    · simp [hq.send] at hsend
    · simp [hq.toVmm] at hset
    · exact hbusy hrun
  refine ⟨?_, ?_, hcommand, ?_, ?_, ?_, ?_⟩
  · by_contra hne
    rcases h.trace hne with ⟨p, hin⟩ | hset | ⟨htracer, -⟩
    · cases p with
      | vmm => simp [(settled_eq_true hvmm).1] at hin
      | uartrx => simp [(settled_eq_true hq.uartrx).1] at hin
    · exact hcalled hset
    · simp [hq.tracer] at htracer
  · by_contra hne
    rcases h.uartrxConsole hne with htodo | hset | htracer | htracer | hdrain
    · exact htodo hq.todo
    · exact hcalled hset
    · simp [hq.tracer] at htracer
    · simp [hq.tracer] at htracer
    · have htracer := hp.drains .uartrx hdrain
      simp [hq.tracer] at htracer
  · have hput : s.mirror.put = .idle := by
      by_contra hbusy
      have hmirrors := hp.mirrors hbusy
      rw [hq.tracer] at hmirrors
      exact hmirrors
    have hpending : s.mirror.pending = false :=
      Bool.eq_false_iff.mpr fun hset => hp.pending hset hq.tracer
    exact (MirrorState.inv_of_reachable hp.mirror).empty hput hpending hq.toFbcon hq.fbcon
  · intro hline
    rcases h.vmmConsole hline with howes | hset | htracer | hdrain
    · rw [show s.vmmConsole.put = .idle from (settled_eq_true hvmm).2] at howes
      exact howes
    · exact hcalled hset
    · simp [hq.tracer] at htracer
    · have htracer := hp.drains .vmm hdrain
      simp [hq.tracer] at htracer
  · have htaken := (CmdChannel.empty_iff hinv).mp hcommand.symm
    rw [hinv.completed, hrun, htaken]
    exact congrArg lastId List.take_length
  · by_contra hne
    rcases h.dump (fun he => hne he.symm) with htodo | hset | htracer | ⟨p, htracer⟩ | ⟨htracer, -⟩
    · exact htodo hq.todo
    · exact hcalled hset
    all_goals simp [hq.tracer] at htracer

/-- uartrx starts and prompts, and the tracer and fbcon show the text. -/
def startUp : List Act :=
  .vmm :: List.replicate 607 .uartrx ++ .tracerNotified .uartrx :: List.replicate 862 .tracer ++
    .fbconNotified :: List.replicate 245 .fbcon

theorem no_lost_wakeup_startUp :
    ∃ s, (wakeup {} none).Reaches (wakeup {} none).start startUp s ∧ s.Quiescent ∧
      s.mirror.ring.head = 121 ∧ s.mirror.ring.head = s.mirror.ring.tail := by
  have hrun : ((wakeup {} none).run (wakeup {} none).start startUp).any
      (fun s => decide (s.Quiescent ∧ s.mirror.ring.head = 121)) = true := by
    decide +kernel
  obtain ⟨s, hs, hdecide⟩ := (Option.any_eq_true _ _).mp hrun
  obtain ⟨hq, hhead⟩ := of_decide_eq_true hdecide
  exact ⟨s, hs, hq, hhead, (no_lost_wakeup ⟨startUp, hs⟩ hq).2.2.2.1⟩

end System
end Wakeup
end TensorSel4
