/-
Run brackets: STARTED(1), a stop of run 1, STARTED(2), a stop of run 2, and so on.

`runBrackets` reads the GUEST records of a trace one by one and accepts exactly
the traces of that shape.  Its state is the number of runs begun and whether
the last of them is open.  `Unbrackets` names the two events that break the
shape: a `guest-start` that has recorded STARTED and then fails to write the
vCPU's registers, and a fault stop while no run is open.
-/
import TensorSel4.Vmm.Activity

namespace TensorSel4
namespace Vmm

open Trace

def guestRecords (trace : List TraceRecord) : List TraceRecord :=
  trace.filter fun r => r.kind = kindGuest

def bracketStep : Nat × Bool → TraceRecord → Option (Nat × Bool)
  | (n, false), r =>
    if r.addr = guestStarted ∧ r.value = UInt64.ofNat (n + 1) then some (n + 1, true) else none
  | (n, true), r =>
    if (r.addr = guestStoppedByCommand ∨ r.addr = guestStoppedByFault) ∧
      r.value = UInt64.ofNat n then some (n, false) else none

def runBrackets : Automaton (Nat × Bool) TraceRecord where
  start := (0, false)
  step := bracketStep

theorem guestRecords_guest (trace : List TraceRecord) (event run : UInt64) (vcpu : Nat)
    (pc : UInt64) : guestRecords (trace ++ [guestRecord event run vcpu pc]) =
      guestRecords trace ++ [guestRecord event run vcpu pc] := by
  simp [guestRecords, guestRecord]

theorem guestRecords_exit (trace : List TraceRecord) (b : Build) (vcpu : Nat) (f : Fault)
    (env : CallEnv) : guestRecords (trace ++ exitRecords b vcpu f env) = guestRecords trace := by
  have hnone : (exitRecords b vcpu f env).filter (fun r => r.kind = kindGuest) = [] := by
    refine List.filter_eq_nil_iff.mpr fun r hr => ?_
    simpa using (exitRecords_activity hr).not_guest
  rw [guestRecords, List.filter_append, hnone, List.append_nil, guestRecords]

namespace Lifecycle

/-- The GUEST records are brackets, the last of them open exactly while the
guest is running, and `run` is the number of the last run. -/
def Bracketed (l : Lifecycle) : Prop :=
  ∃ n, l.run = UInt64.ofNat n ∧
    runBrackets.Reaches runBrackets.start (guestRecords l.trace) (n, decide (l.state = .running))

def Unbrackets (b : Build) (l : Lifecycle) : Event → Prop
  | .command cmd env =>
    cmd.verb = cmdVerbGuestStart ∧ l.state ≠ .running ∧
      (guestSelectVcpu cmd.arg).toNat < b.numVcpus ∧ env.load.isSome ∧ env.write ≠ .ok ()
  | .exit _ f env => l.state ≠ .running ∧ resumes b f env = false

theorem Bracketed.congr {l l' : Lifecycle} (h : l.Bracketed) (hrun : l'.run = l.run)
    (htrace : guestRecords l'.trace = guestRecords l.trace)
    (hstate : l'.state = .running ↔ l.state = .running) : l'.Bracketed := by
  obtain ⟨n, hn, hr⟩ := h
  refine ⟨n, hrun.trans hn, ?_⟩
  rw [htrace, decide_eq_decide.mpr hstate]
  exact hr

/-- After a STARTED record, the brackets say that the run is open. -/
theorem begun_brackets {l : Lifecycle} (hl : l.Bracketed) (hstate : l.state ≠ .running)
    (vcpu : Nat) (pc : UInt64) : ∃ n, (l.begun vcpu pc).run = UInt64.ofNat n ∧
      runBrackets.Reaches runBrackets.start (guestRecords (l.begun vcpu pc).trace) (n, true) := by
  obtain ⟨n, hn, hr⟩ := hl
  have hnext : l.run + 1 = UInt64.ofNat (n + 1) := by rw [hn, UInt64.ofNat_add]; rfl
  refine ⟨n + 1, hnext, ?_⟩
  rw [decide_eq_false hstate] at hr
  rw [begun, guestRecords_guest]
  refine (runBrackets.reaches_snoc).mpr ⟨_, hr, ?_⟩
  exact if_pos ⟨rfl, hnext⟩

/-- A stop record closes an open run, and is out of place anywhere else. -/
theorem stop_bracketed_iff {l : Lifecycle} (l' : Lifecycle) {event : UInt64} (pc : UInt64)
    (hl : l.Bracketed) (hevent : event = guestStoppedByCommand ∨ event = guestStoppedByFault)
    (hstate : l'.state ≠ .running) (hrun : l'.run = l.run)
    (htrace : guestRecords l'.trace =
      guestRecords l.trace ++ [guestRecord event l.run l.runVcpu pc]) :
    l'.Bracketed ↔ l.state = .running := by
  obtain ⟨n, hn, hr⟩ := hl
  rw [Bracketed, htrace, decide_eq_false hstate]
  constructor
  · rintro ⟨m, -, hm⟩
    obtain ⟨q, hq, hstep⟩ := (runBrackets.reaches_snoc).mp hm
    obtain rfl := Option.some.inj (hr.symm.trans hq)
    by_contra hno
    have hnone : bracketStep (n, false) (guestRecord event l.run l.runVcpu pc) = none := by
      refine if_neg fun h => ?_
      have haddr : event = guestStarted := h.1
      rcases hevent with rfl | rfl <;> exact absurd haddr (by decide)
    rw [decide_eq_false hno] at hstep
    exact absurd (hnone.symm.trans hstep) (by simp)
  · intro hrunning
    rw [decide_eq_true hrunning] at hr
    exact ⟨n, hrun.trans hn, (runBrackets.reaches_snoc).mpr ⟨_, hr, if_pos ⟨hevent, hn⟩⟩⟩

theorem bracketed_step_iff {b : Build} {l l' : Lifecycle} {e : Event} (hl : l.Bracketed)
    (h : Step b l e l') : l'.Bracketed ↔ ¬l.Unbrackets b e := by
  cases h with
  | unchanged hquiet =>
    refine iff_of_true hl ?_
    rintro ⟨hverb, hstate, -⟩
    rcases hquiet with ⟨-, hrun⟩ | ⟨hstop, -⟩ | ⟨hno, -⟩
    · exact hstate hrun
    · rw [hstop] at hverb
      exact absurd hverb (by decide)
    · exact hno hverb
  | notLoaded hverb hstate hload =>
    refine iff_of_true (hl.congr rfl rfl (iff_of_false (by simp) hstate)) ?_
    rintro ⟨-, -, hlt, hsome, -⟩
    rcases hload with hle | hnone
    · exact Nat.not_lt.mpr hle hlt
    · rw [hnone] at hsome
      exact Bool.false_ne_true hsome
  | @notWritten cmd env boot err hverb hstate hvcpu hload hwrite =>
    refine iff_of_false ?_ (not_not_intro ⟨hverb, hstate, hvcpu, by rw [hload]; rfl, ?_⟩)
    · rintro ⟨n, -, hn⟩
      obtain ⟨m, -, hm⟩ := begun_brackets hl hstate (guestSelectVcpu cmd.arg).toNat boot.pc
      have heq := Option.some.inj (hn.symm.trans hm)
      simp at heq
    · rw [hwrite]
      simp
  | @started cmd env boot hverb hstate hvcpu hload hwrite =>
    refine iff_of_true ?_ fun hd => hd.2.2.2.2 hwrite
    obtain ⟨n, hn, hr⟩ := begun_brackets hl hstate (guestSelectVcpu cmd.arg).toNat boot.pc
    exact ⟨n, hn, hr⟩
  | stopped hverb hstate =>
    refine iff_of_true ?_ (fun hd => hd.2.1 hstate)
    exact (stop_bracketed_iff l.stoppedByCommand 0 hl (Or.inl rfl) (by simp [stoppedByCommand])
      rfl (guestRecords_guest _ _ _ _ _)).mpr hstate
  | @resumed vcpu f env hvcpu hon hresumes =>
    refine iff_of_true (hl.congr rfl (guestRecords_exit _ _ _ _ _) Iff.rfl) fun hd => ?_
    exact Bool.false_ne_true (hd.2.symm.trans hresumes)
  | @refused vcpu f env hvcpu hon hresumes =>
    rw [stop_bracketed_iff ((l.exited b vcpu f env).stoppedByFault vcpu (stopPc env)) (stopPc env)
      hl (Or.inr rfl) (by simp [stoppedByFault]) rfl]
    · simp [Unbrackets, hresumes]
    · show guestRecords (l.trace ++ exitRecords b vcpu f env ++ _) = _
      rw [guestRecords_guest, guestRecords_exit]
      rfl

end Lifecycle

/-- In a run, the GUEST records are well-formed brackets all the time exactly
when every `guest-start` that gets as far as the vCPU's registers can write
them, and no fault stop happens while the guest is not running. -/
theorem guest_records_bracketed_iff {b : Build} {es : List Event} {s : VmmState}
    (hr : (vmm b).Reaches (vmm b).start es s) :
    (vmm b).ReachesAvoiding (fun t e => t.lifecycle.Unbrackets b e) (vmm b).start es s ↔
      ∀ fs t, fs <+: es → (vmm b).Reaches (vmm b).start fs t → t.lifecycle.Bracketed := by
  refine Automaton.reachesAvoiding_iff (fun s e t hs hstep => ?_) ?_ hr
  · exact Lifecycle.bracketed_step_iff hs (VmmState.step_lifecycle hstep)
  · exact ⟨0, rfl, rfl⟩

theorem guest_records_bracketed_iff_startStop : ∃ s,
    (vmm linuxBuild).Reaches (vmm linuxBuild).start [linuxStart, .guestStop] s ∧
      s.lifecycle.Bracketed := by
  have hr : (vmm linuxBuild).Reaches (vmm linuxBuild).start [linuxStart, .guestStop] _ := rfl
  refine ⟨_, hr, (guest_records_bracketed_iff hr).mp ?_ _ _ List.prefix_rfl hr⟩
  refine ⟨fun h => ?_, _, rfl, fun h => ?_, _, rfl, rfl⟩
  · exact h.2.2.2.2 rfl
  · exact absurd h.1 (by decide)

/-- A `guest-start` whose `seL4_TCB_WriteRegisters` fails. -/
def unwrittenStart : Event :=
  .guestStart 0
    { load := some { pc := 0x80000000, dtb := 0x8f000000, initrd := 0x8d000000 }
      write := .error 1 }

/-- STARTED(1) is followed by STARTED(2). -/
theorem started_twice : ∃ s, (vmm linuxBuild).Reaches (vmm linuxBuild).start
    [unwrittenStart, linuxStart] s ∧
    (guestRecords s.trace).map (fun r => (r.addr, r.value)) =
      [(guestStarted, 1), (guestStarted, 2)] ∧
    ¬s.lifecycle.Bracketed := by
  refine ⟨_, rfl, rfl, ?_⟩
  rintro ⟨n, -, hn⟩
  have hnone : (none : Option (Nat × Bool)) = some (n, true) := hn
  exact nomatch hnone

end Vmm
end TensorSel4
