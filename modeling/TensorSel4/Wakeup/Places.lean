/-
Where the tracer and uartrx are.

The tracer goes through the rings in one order, so its place in `notified`
determines which ring's reader is at work.  uartrx always has the flush at the
end of its list of operations still before it.
-/
import TensorSel4.Console.Newline
import TensorSel4.Mirror.Caught
import TensorSel4.Trace.DumpRequest
import TensorSel4.Wakeup.Moves

namespace TensorSel4
namespace Wakeup

open Command Console Control Mirror Trace Uartrx Vmm

/-- The trace ring's reader is where `notified` says. -/
def Staged : NotifiedPc → Trace.TracerPc → Prop
  | .waiting, pc | .puts _, pc | .mirrorNotify, pc => pc = .idle
  | .drainTrace, .idle | .drainTrace, .maybeDump | .drainTrace, .dumpArchive => False
  | .drainTrace, _ => True
  | .drainConsole _, pc => pc = .drainConsole
  | .maybeDump, pc => pc = .maybeDump ∨ pc = .dumpArchive

/-- In `drain_trace`, the tracer's `tail` is the ring's. -/
def TailKnown (pipe : Pipeline) : Prop :=
  ∀ tail, pipe.tracer = .loadHead tail → tail = pipe.ring.tail

/-- The tracer may be in `mirror_putc`. -/
def NotifiedPc.mirrors : NotifiedPc → Prop
  | .drainConsole _ | .puts _ => True
  | _ => False

/-- The operations of uartrx end with a notification of the tracer. -/
def FlushesLast (todo : List Op) : Prop := todo ≠ [] → ∃ ops, todo = ops ++ [.flush]

theorem FlushesLast.rest {op : Op} {ops : List Op} (h : FlushesLast (op :: ops))
    (hop : op ≠ .flush) : ops ≠ [] ∧ FlushesLast ops := by
  obtain ⟨before, hbefore⟩ := h (List.cons_ne_nil _ _)
  cases before with
  | nil => exact absurd (List.cons.inj hbefore).1 hop
  | cons first before =>
    have hops : ops = before ++ [.flush] := (List.cons.inj hbefore).2
    refine ⟨?_, fun _ => ⟨before, hops⟩⟩
    rw [hops]
    exact List.append_ne_nil_of_right_ne_nil _ (List.cons_ne_nil _ _)

theorem FlushesLast.tail {op : Op} {ops : List Op} (h : FlushesLast (op :: ops)) :
    FlushesLast ops := by
  by_cases hop : op = .flush
  · intro hne
    obtain ⟨before, hbefore⟩ := h (List.cons_ne_nil _ _)
    cases before with
    | nil => exact absurd (List.cons.inj hbefore).2 hne
    | cons first before => exact ⟨before, (List.cons.inj hbefore).2⟩
  · exact (h.rest hop).2

theorem FlushesLast.append {todo : List Op} (h : FlushesLast todo) (hne : todo ≠ [])
    (more : List Op) : FlushesLast (more ++ todo) := by
  obtain ⟨ops, rfl⟩ := h hne
  exact fun _ => ⟨more ++ ops, (List.append_assoc _ _ _).symm⟩

namespace System

/-- uartrx is in a function that its list of operations does not show. -/
def uartrxInside (s : System) : Prop :=
  s.uartrxConsole.put ≠ .idle ∨ s.host.channel.send ≠ .idle

structure Placed (uart : UartConfig) (screen : Option Fbcon.Screen) (s : System) : Prop where
  host : (Command.host uart).Reachable s.host
  mirror : (Mirror.mirror screen).Reachable s.mirror
  coherent : ∀ p, (s.console p).Coherent
  traceTail : TailKnown s.pipe
  staged : Staged s.tracer s.pipe.tracer
  drains : ∀ p, (s.console p).drain ≠ .idle → s.tracer = .drainConsole p
  mirrors : s.mirror.put ≠ .idle → s.tracer.mirrors
  pending : s.mirror.pending = true → s.tracer ≠ .waiting
  flushes : FlushesLast s.host.todo
  inside : s.uartrxInside → s.host.todo ≠ []

variable {uart : UartConfig} {screen : Option Fbcon.Screen} {s t : System} {p : Producer}

theorem flushesLast_uartrxInit (uart : UartConfig) : FlushesLast (uartrxInit uart) :=
  fun _ => ⟨_, (List.append_assoc (logUartConfig uart) (consolePuts (ascii "> ")) [.flush]).symm⟩

theorem placed_start (uart : UartConfig) (screen : Option Fbcon.Screen) :
    Placed uart screen (wakeup uart screen).start where
  host := ⟨[], (Automaton.reaches_nil _).mpr rfl⟩
  mirror := ⟨[], (Automaton.reaches_nil _).mpr rfl⟩
  coherent p := by cases p <;> exact ConsoleState.coherent_start
  traceTail _ h := by cases h
  staged := rfl
  drains p h := by cases p <;> exact absurd rfl h
  mirrors h := absurd rfl h
  pending h := by cases h
  flushes := flushesLast_uartrxInit uart
  inside h := by rcases h with h | h <;> exact absurd rfl h

/-- What holds of the console that changed and of the other. -/
theorem forall_setConsole {P : Producer → ConsoleState → Prop} {console : ConsoleState}
    (hself : P p console) (hother : ∀ q, q ≠ p → P q (s.console q)) (q : Producer) :
    P q ((s.setConsole p console).console q) := by
  by_cases hq : q = p
  · subst hq
    cases q <;> exact hself
  · cases p <;> cases q <;> first | exact absurd rfl hq | exact hother _ hq

/-! ## The parts that have a history of their own -/

theorem host_moves (h : (Command.host uart).Reachable s.host) (hm : Moves s t) :
    (Command.host uart).Reachable t.host := by
  have hnext : ∀ {a : Command.Act} {host : HostState}, s.host.step a = some host →
      (Command.host uart).Reachable host := fun hhost => h.step hhost
  cases hm with
  | reads _ _ hhost | calls _ _ hhost | sends _ _ hhost | signals _ hhost
  | givesUp _ _ hhost | vmmNotified hhost | runs _ hhost
  | records _ hhost | requests _ hhost | putcs _ hhost
  | flushes _ _ _ hhost => exact hnext hhost
  | _ => exact h

theorem mirror_moves (h : (Mirror.mirror screen).Reachable s.mirror) (hm : Moves s t) :
    (Mirror.mirror screen).Reachable t.mirror := by
  have hnext : ∀ {a : Mirror.Act} {mirror : MirrorState}, s.mirror.step a = some mirror →
      (Mirror.mirror screen).Reachable mirror := fun hmirror => h.step hmirror
  have hcall : ∀ c, s.mirror.put = .idle → (Mirror.mirror screen).Reachable (s.mirror.call c) := by
    intro c hidle
    refine hnext (a := .putc c) ?_
    simp only [MirrorState.step, hidle]
  cases hm with
  | outputs _ _ hidle _ => exact hcall _ hidle
  | putsText _ hidle => exact hcall _ hidle
  | mirrorNotifies _ hidle =>
    refine hnext (a := .mirrorNotify) ?_
    simp only [MirrorState.step, hidle]
    rfl
  | mirrors hbusy =>
    refine hnext (a := .tracer) ?_
    unfold MirrorState.step
    dsimp only
    split
    · next hidle => exact absurd hidle hbusy
    · rfl
  | fbcon hmirror => exact hnext hmirror
  | _ => exact h

theorem coherent_moves (h : ∀ p, (s.console p).Coherent) (hm : Moves s t) :
    ∀ p, (t.console p).Coherent := by
  have hset : ∀ {p : Producer} {console : ConsoleState} {a : Console.Act},
      (s.console p).step (consoleProducer p) a = some console →
        ∀ q, ((s.setConsole p console).console q).Coherent := fun hconsole =>
    forall_setConsole (P := fun _ c => c.Coherent) ((h _).step hconsole) (fun q _ => h q)
  cases hm with
  | putcs _ _ hconsole => exact hset (p := .uartrx) hconsole
  | puts p _ _ hconsole => exact hset hconsole
  | putsNotify p _ hconsole => exact hset hconsole
  | vmmPuts _ hconsole => exact hset (p := .vmm) hconsole
  | drainsVmm _ _ hconsole => exact hset (p := .vmm) hconsole
  | drainsUartrx _ _ hconsole => exact hset (p := .uartrx) hconsole
  | drains p _ hconsole => exact hset hconsole
  | outputs p _ _ hconsole => exact hset hconsole
  | _ => exact fun p => h p

/-! ## The tracer -/

theorem producerStep_tail {pipe pipe' : Pipeline} (hs : pipe.producerStep p = some pipe') :
    pipe'.ring.tail = pipe.ring.tail := by
  unfold Pipeline.producerStep at hs
  split at hs
  case h_1 =>
    simp only [Option.ite_none_right_eq_some, Option.some.injEq] at hs
    obtain ⟨-, rfl⟩ := hs
    rfl
  all_goals
    obtain rfl := Option.some.inj hs
    rfl

/-- Nobody but the tracer moves the tracer, the tail of the trace ring and
`dumps_done`. -/
theorem pipe_frame {pipe : Pipeline} {a : Trace.Act} (hpipe : s.pipe.step a = some pipe)
    (ha : a ≠ .tracer) :
    pipe.tracer = s.pipe.tracer ∧ pipe.ring.tail = s.pipe.ring.tail ∧
      pipe.dumpsDone = s.pipe.dumpsDone := by
  obtain ⟨htracer, -, -, -, hdone⟩ := Pipeline.step_not_tracer hpipe ha
  refine ⟨htracer, ?_, hdone⟩
  cases a with
  | tracer => exact absurd rfl ha
  | producer p => exact producerStep_tail hpipe
  | call | traceDump | tick =>
    simp only [Pipeline.step, Option.ite_none_right_eq_some, Option.some.injEq] at hpipe
    obtain ⟨-, rfl⟩ := hpipe
    rfl

theorem recordAct_ne_tracer (rec : TraceRecord) : recordAct rec ≠ .tracer := by
  unfold recordAct
  split <;> exact nofun

theorem staged_moves (h : Staged s.tracer s.pipe.tracer) (hm : Moves s t) :
    Staged t.tracer t.pipe.tracer := by
  have hpipe : ∀ {a : Trace.Act} {pipe : Pipeline}, s.pipe.step a = some pipe → a ≠ .tracer →
      Staged s.tracer pipe.tracer := by
    intro a pipe hstep ha
    rw [(pipe_frame hstep ha).1]
    exact h
  cases hm with
  | records _ _ hstep => exact hpipe hstep (recordAct_ne_tracer _)
  | requests _ _ _ hstep => exact hpipe hstep nofun
  | emits _ _ hstep => exact hpipe hstep nofun
  | vmmRecords hstep => exact hpipe hstep nofun
  | tracerNotified _ htracer =>
    rw [htracer] at h
    show Staged .drainTrace s.pipe.tracerStep.tracer
    rw [Pipeline.tracerStep, show s.pipe.tracer = .idle from h]
    trivial
  | drainsTrace htracer hnot =>
    rw [htracer] at h
    show Staged s.tracer s.pipe.tracerStep.tracer
    rw [htracer]
    unfold Pipeline.tracerStep
    cases hpc : s.pipe.tracer <;> rw [hpc] at h
    case loadHead tail =>
      dsimp only
      split <;> trivial
    case drainConsole => exact absurd hpc hnot
    case idle | maybeDump | dumpArchive => exact h.elim
    all_goals trivial
  | drainsVmm _ hpc _ => exact hpc
  | drainsUartrx htracer _ _ =>
    rw [htracer] at h
    exact h
  | drained htracer _ _ =>
    rw [htracer] at h
    show s.pipe.tracerStep.tracer = .maybeDump ∨ _
    rw [Pipeline.tracerStep, show s.pipe.tracer = .drainConsole from h]
    exact Or.inl rfl
  | checksDump _ hpc =>
    show Staged (if _ then _ else _) s.pipe.tracerStep.tracer
    rw [Pipeline.tracerStep, hpc]
    dsimp only
    split
    · rfl
    · exact Or.inr rfl
  | dumps _ _ hpc =>
    show s.pipe.tracerStep.tracer = .idle
    rw [Pipeline.tracerStep, hpc]
  | putsText htracer _ | putText htracer _ | mirrorNotifies htracer _ =>
    rw [htracer] at h
    exact h
  | _ => exact h

theorem tailKnown_tracerStep (pipe : Pipeline) : TailKnown pipe.tracerStep := by
  unfold Pipeline.tracerStep
  cases hpc : pipe.tracer with
  | drainTrace | storeTail tail =>
    rintro tail ⟨rfl⟩
    rfl
  | loadHead tail =>
    intro tail' htail
    dsimp only at htail
    split at htail <;> cases htail
  | maybeDump =>
    intro tail htail
    dsimp only at htail
    split at htail <;> cases htail
  | _ =>
    intro tail htail
    cases htail

theorem tailKnown_moves (h : TailKnown s.pipe) (hm : Moves s t) : TailKnown t.pipe := by
  have hpipe : ∀ {a : Trace.Act} {pipe : Pipeline}, s.pipe.step a = some pipe → a ≠ .tracer →
      TailKnown pipe := by
    intro a pipe hstep ha tail htail
    obtain ⟨htracer, hring, -⟩ := pipe_frame hstep ha
    rw [htracer] at htail
    rw [hring]
    exact h tail htail
  cases hm with
  | records _ _ hstep => exact hpipe hstep (recordAct_ne_tracer _)
  | requests _ _ _ hstep => exact hpipe hstep nofun
  | emits _ _ hstep => exact hpipe hstep nofun
  | vmmRecords hstep => exact hpipe hstep nofun
  | tracerNotified | drainsTrace | drained | checksDump | dumps => exact tailKnown_tracerStep _
  | _ => exact h

theorem drains_moves (h : ∀ p, (s.console p).drain ≠ .idle → s.tracer = .drainConsole p)
    (hm : Moves s t) : ∀ p, (t.console p).drain ≠ .idle → t.tracer = .drainConsole p := by
  -- A reader that is at work is the one that `notified` is in.
  have hidle : ∀ {pc : NotifiedPc}, (∀ p, s.tracer ≠ .drainConsole p) →
      ∀ p, (s.console p).drain ≠ .idle → pc = .drainConsole p :=
    fun hnot p hp => absurd (h p hp) (hnot p)
  have hset : ∀ {p : Producer} {console : ConsoleState}, console.drain = (s.console p).drain →
      ∀ q, ((s.setConsole p console).console q).drain ≠ .idle → s.tracer = .drainConsole q := by
    intro p console hdrain
    refine forall_setConsole (P := fun q c => c.drain ≠ .idle → s.tracer = .drainConsole q) ?_
      (fun q _ => h q)
    rw [hdrain]
    exact h p
  cases hm with
  | putcs _ _ hconsole => exact hset (p := .uartrx) (ConsoleState.call_eq hconsole).2.2
  | vmmPuts _ hconsole => exact hset (p := .vmm) (ConsoleState.call_eq hconsole).2.2
  | puts p _ _ hconsole => exact hset (ConsoleState.producer_eq hconsole).2.2
  | putsNotify p _ hconsole => exact hset (ConsoleState.producer_eq hconsole).2.2
  | tracerNotified _ htracer => exact hidle (by simp [htracer])
  | drainsVmm htracer _ hconsole =>
    refine forall_setConsole (s := s) (p := .vmm) (P := fun q c => c.drain ≠ .idle →
      NotifiedPc.drainConsole .vmm = .drainConsole q) (fun _ => rfl) ?_
    intro q _
    exact hidle (by simp [htracer]) q
  | drainsUartrx htracer hvmm hconsole =>
    refine forall_setConsole (s := s) (p := .uartrx) (P := fun q c => c.drain ≠ .idle →
      NotifiedPc.drainConsole .uartrx = .drainConsole q) (fun _ => rfl) ?_
    intro q hq hdrain
    cases q with
    | vmm => exact absurd hvmm hdrain
    | uartrx => exact absurd rfl hq
  | drains p htracer _ | outputs p htracer _ _ =>
    exact forall_setConsole (P := fun q c => c.drain ≠ .idle → s.tracer = .drainConsole q)
      (fun _ => htracer) (fun q _ => h q)
  | drained htracer huartrx _ =>
    intro q hdrain
    have hq : s.tracer = .drainConsole q := h q hdrain
    rw [htracer] at hq
    cases hq
    exact absurd huartrx hdrain
  | checksDump htracer _ | dumps _ htracer _ | putsText htracer _ | putText htracer _
  | mirrorNotifies htracer _ => exact hidle (by simp [htracer])
  | _ => exact fun p => h p

theorem mirrors_moves (h : s.mirror.put ≠ .idle → s.tracer.mirrors) (hm : Moves s t) :
    t.mirror.put ≠ .idle → t.tracer.mirrors := by
  have hidle : ¬s.tracer.mirrors → s.mirror.put = .idle := fun hnot => by
    by_contra hput
    exact hnot (h hput)
  cases hm with
  | outputs p htracer _ _ =>
    intro _
    show s.tracer.mirrors
    rw [htracer]
    trivial
  | putsText => exact fun _ => trivial
  | drainsVmm | drainsUartrx => exact fun _ => trivial
  | mirrors hput => exact fun _ => h hput
  | fbcon _ hput _ =>
    intro hnot
    rw [show (s.setMirror _).mirror.put = s.mirror.put from hput] at hnot
    exact h hnot
  | tracerNotified _ htracer | checksDump htracer _ | dumps _ htracer _ =>
    have hput := hidle (by rw [htracer]; exact id)
    exact fun hnot => absurd hput hnot
  | drained _ _ hput | putText _ hput => exact fun hnot => absurd hput hnot
  | mirrorNotifies _ hput =>
    intro hnot
    refine absurd ?_ hnot
    show s.mirror.mirrorNotify.put = .idle
    unfold MirrorState.mirrorNotify
    split <;> exact hput
  | _ => exact h

theorem pending_moves (h : s.mirror.pending = true → s.tracer ≠ .waiting)
    (hmirrors : s.mirror.put ≠ .idle → s.tracer.mirrors) (hm : Moves s t) :
    t.mirror.pending = true → t.tracer ≠ .waiting := by
  cases hm with
  | mirrors hput =>
    intro _ htracer
    have hwaiting := hmirrors hput
    rw [show s.tracer = .waiting from htracer] at hwaiting
    exact hwaiting
  | fbcon _ _ hpending =>
    intro hset
    rw [show (s.setMirror _).mirror.pending = s.mirror.pending from hpending] at hset
    exact h hset
  | mirrorNotifies =>
    intro hset
    have hset : s.mirror.mirrorNotify.pending = true := hset
    have hclear : s.mirror.mirrorNotify.pending = false := by
      unfold MirrorState.mirrorNotify
      split
      · rfl
      · next hnot => exact Bool.eq_false_iff.mpr hnot
    rw [hclear] at hset
    cases hset
  | checksDump =>
    intro _
    show (if _ then NotifiedPc.mirrorNotify else .maybeDump) ≠ .waiting
    split <;> exact nofun
  | tracerNotified | drainsVmm | drainsUartrx | drained | dumps | putsText | putText =>
    exact fun _ => nofun
  | _ => exact h

/-! ## uartrx -/

theorem flushes_moves (h : FlushesLast s.host.todo) (hinside : s.uartrxInside → s.host.todo ≠ [])
    (hm : Moves s t) : FlushesLast t.host.todo := by
  cases hm with
  | reads e _ _ =>
    intro hne
    rcases s.host.uartrx.rx_ends_with_flush e with hnone | hops
    · exact absurd hnone hne
    · exact hops
  | calls _ htodo _ | records htodo _ _ | requests htodo _ _ _ | putcs htodo _ _
  | flushes _ _ htodo _ =>
    rw [htodo] at h
    exact h.tail
  | sends hbusy _ _ => exact h.append (hinside (Or.inr hbusy)) _
  | signals hsend _ => exact h.append (hinside (Or.inr (by rw [hsend]; exact nofun))) _
  | givesUp _ hsend _ => exact h.append (hinside (Or.inr (by rw [hsend]; exact nofun))) _
  | @vmmNotified host _ _ htodo _ | @runs host _ _ _ htodo =>
    show FlushesLast host.todo
    rw [htodo]
    exact h
  | _ => exact h

theorem inside_moves (h : s.uartrxInside → s.host.todo ≠ []) (hflushes : FlushesLast s.host.todo)
    (hm : Moves s t) : t.uartrxInside → t.host.todo ≠ [] := by
  have hmore : ∀ more, s.host.channel.send ≠ .idle → more ++ s.host.todo ≠ [] := fun _ hbusy =>
    List.append_ne_nil_of_right_ne_nil _ (h (Or.inr hbusy))
  cases hm with
  | reads e htodo _ => exact fun hin => absurd htodo (h hin)
  | calls _ htodo _ | records htodo _ _ | requests htodo _ _ _ | putcs htodo _ _ =>
    rw [htodo] at hflushes
    exact fun _ => (hflushes.rest nofun).1
  | sends hbusy _ _ => exact fun _ => hmore _ hbusy
  | signals hsend _ => exact fun _ => hmore _ (by rw [hsend]; exact nofun)
  | givesUp _ hsend _ => exact fun _ => hmore _ (by rw [hsend]; exact nofun)
  | @vmmNotified host _ _ htodo hsend =>
    intro hin
    show host.todo ≠ []
    rw [htodo]
    rcases hin with hput | hbusy
    · exact h (Or.inl hput)
    · exact h (Or.inr (hsend ▸ hbusy))
  | @runs host _ _ hchannel htodo =>
    intro hin
    show host.todo ≠ []
    rw [htodo]
    rcases hin with hput | hbusy
    · exact h (Or.inl hput)
    · refine h (Or.inr fun hidle => hbusy ?_)
      show host.channel.send = .idle
      rw [hchannel]
      exact hidle
  | flushes hput hsend _ _ =>
    rintro (hput' | hbusy)
    · exact absurd hput hput'
    · exact absurd hsend hbusy
  | puts p hput _ _ | putsNotify p hput _ =>
    cases p with
    | vmm => exact h
    | uartrx => exact fun _ => h (Or.inl hput)
  | drains p _ hconsole | outputs p _ _ hconsole =>
    cases p with
    | vmm => exact h
    | uartrx =>
      rintro (hput | hbusy)
      · exact h (Or.inl fun hidle => hput ((ConsoleState.tracer_eq hconsole).2.2.trans hidle))
      · exact h (Or.inr hbusy)
  | drainsUartrx _ _ hconsole =>
    rintro (hput | hbusy)
    · exact h (Or.inl fun hidle => hput ((ConsoleState.drainConsole_eq hconsole).2.1.trans hidle))
    · exact h (Or.inr hbusy)
  | _ => exact h

/-! ## All of it -/

theorem Placed.moves (h : Placed uart screen s) (hm : Moves s t) : Placed uart screen t where
  host := host_moves h.host hm
  mirror := mirror_moves h.mirror hm
  coherent := coherent_moves h.coherent hm
  traceTail := tailKnown_moves h.traceTail hm
  staged := staged_moves h.staged hm
  drains := drains_moves h.drains hm
  mirrors := mirrors_moves h.mirrors hm
  pending := pending_moves h.pending h.mirrors hm
  flushes := flushes_moves h.flushes h.inside hm
  inside := inside_moves h.inside h.flushes hm

end System
end Wakeup
end TensorSel4
