/-
The guest's state and the vCPUs that are on.

`guest_control.c` keeps its state and the vCPUs' power together in
`guest_control_start`, `guest_control_stop` and `guest_control_fault_stopped`.
libvmm's PSCI turns vCPUs on and off without telling it, and the two stops turn
off one vCPU.  `Desyncs` is what goes wrong there, and
`guest_state_agrees_iff` says that nothing else does.
-/
import TensorSel4.Vmm.Lifecycle

namespace TensorSel4
namespace Vmm

open Trace

namespace Lifecycle

/-- The guest is running exactly when some vCPU is on. -/
def Agrees (b : Build) (l : Lifecycle) : Prop :=
  l.state = .running ↔ ∃ v, v < b.numVcpus ∧ l.vcpuOn v = true

/-- The events after which the guest's state no longer agrees with the vCPUs: an
emulated PSCI call that leaves none on, and a stop while another one is on. -/
def Desyncs (b : Build) (l : Lifecycle) : Event → Prop
  | .command cmd _ =>
    cmd.verb = cmdVerbGuestStop ∧ l.state = .running ∧
      ∃ v, v < b.numVcpus ∧ v ≠ l.runVcpu ∧ l.vcpuOn v = true
  | .exit vcpu f env =>
    if resumes b f env then
      psciCall b f env = true ∧ ∀ v, v < b.numVcpus → env.powered v = false
    else
      ∃ v, v < b.numVcpus ∧ v ≠ vcpu ∧ powerAfter b l.vcpuOn f env v = true

theorem off_of_agrees {b : Build} {l : Lifecycle} (hl : l.Agrees b) (h : l.state ≠ .running)
    {v : Nat} (hv : v < b.numVcpus) : l.vcpuOn v = false := by
  by_contra hon
  exact h (hl.mpr ⟨v, hv, Bool.eq_true_of_not_eq_false hon⟩)

theorem agrees_of_off {b : Build} {l : Lifecycle} (hstate : l.state ≠ .running)
    (hoff : ∀ v, v < b.numVcpus → l.vcpuOn v = false) : l.Agrees b := by
  refine iff_of_false hstate ?_
  rintro ⟨v, hv, hon⟩
  rw [hoff v hv] at hon
  exact Bool.false_ne_true hon

/-- A stop leaves the state in agreement unless another vCPU is on. -/
theorem agrees_stop_iff {b : Build} {l : Lifecycle} (on : Nat → Bool) (w : Nat)
    (hstate : l.state ≠ .running) (hon : l.vcpuOn = Function.update on w false) :
    l.Agrees b ↔ ¬∃ v, v < b.numVcpus ∧ v ≠ w ∧ on v = true := by
  have hiff : (∃ v, v < b.numVcpus ∧ l.vcpuOn v = true) ↔
      ∃ v, v < b.numVcpus ∧ v ≠ w ∧ on v = true := by
    refine exists_congr fun v => and_congr_right fun _ => ?_
    by_cases hv : v = w
    · rw [hon, hv, Function.update_self]
      simp
    · rw [hon, Function.update_of_ne hv]
      simp [hv]
  rw [Agrees, hiff]
  simp [hstate]

theorem agrees_step_iff {b : Build} {l l' : Lifecycle} {e : Event} (hl : l.Agrees b)
    (h : Step b l e l') : l'.Agrees b ↔ ¬l.Desyncs b e := by
  cases h with
  | unchanged hquiet =>
    refine iff_of_true hl ?_
    rintro ⟨hverb, hrun, -⟩
    rcases hquiet with ⟨hstart, -⟩ | ⟨-, hno⟩ | ⟨-, hno⟩
    · rw [hstart] at hverb
      exact absurd hverb (by decide)
    · exact hno hrun
    · exact hno hverb
  | notLoaded hverb hstate =>
    refine iff_of_true (agrees_of_off (by simp) ?_) fun hd => hstate hd.2.1
    exact fun v hv => off_of_agrees hl hstate hv
  | notWritten hverb hstate =>
    refine iff_of_true (agrees_of_off (by simp) ?_) fun hd => hstate hd.2.1
    exact fun v hv => off_of_agrees hl hstate hv
  | started hverb hstate hvcpu =>
    refine iff_of_true (iff_of_true rfl ⟨_, hvcpu, ?_⟩) fun hd => hstate hd.2.1
    exact Function.update_self _ _ _
  | stopped hverb hstate =>
    rw [agrees_stop_iff l.vcpuOn l.runVcpu (by simp [stoppedByCommand]) rfl]
    simp [Desyncs, hverb, hstate]
  | @resumed vcpu f env hvcpu hon hresumes =>
    have hrun : l.state = .running := hl.mpr ⟨vcpu, hvcpu, hon⟩
    simp only [Desyncs, hresumes, if_true]
    show (l.state = .running ↔ ∃ v, v < b.numVcpus ∧ powerAfter b l.vcpuOn f env v = true) ↔ _
    by_cases hpsci : psciCall b f env = true
    · simp [hrun, powerAfter, hpsci]
    · refine iff_of_true (iff_of_true hrun ⟨vcpu, hvcpu, ?_⟩) fun hd => hpsci hd.1
      simpa [powerAfter, hpsci] using hon
  | @refused vcpu f env hvcpu hon hresumes =>
    rw [agrees_stop_iff (powerAfter b l.vcpuOn f env) vcpu
      (by simp [stoppedByFault]) rfl]
    simp [Desyncs, hresumes]

end Lifecycle

/-- In a run, the guest's state agrees with the vCPUs all the time exactly when
no PSCI call that is resumed turns the last vCPU off and no stop happens while
a vCPU other than the stopped one is on. -/
theorem guest_state_agrees_iff {b : Build} {es : List Event} {s : VmmState}
    (hr : (vmm b).Reaches (vmm b).start es s) :
    (vmm b).ReachesAvoiding (fun t e => t.lifecycle.Desyncs b e) (vmm b).start es s ↔
      ∀ fs t, fs <+: es → (vmm b).Reaches (vmm b).start fs t → t.lifecycle.Agrees b := by
  refine Automaton.reachesAvoiding_iff (fun s e t hs hstep => ?_) ?_ hr
  · exact Lifecycle.agrees_step_iff hs (VmmState.step_lifecycle hstep)
  · exact Lifecycle.agrees_of_off (fun h => nomatch h) fun _ _ => rfl

theorem guest_state_agrees_iff_startStop : ∃ s,
    (vmm linuxBuild).Reaches (vmm linuxBuild).start [linuxStart, .guestStop] s ∧
      s.lifecycle.Agrees linuxBuild := by
  have hr : (vmm linuxBuild).Reaches (vmm linuxBuild).start [linuxStart, .guestStop] _ := rfl
  refine ⟨_, hr, (guest_state_agrees_iff hr).mp ?_ _ _ List.prefix_rfl hr⟩
  refine ⟨fun h => ?_, _, rfl, fun h => ?_, _, rfl, rfl⟩
  · exact absurd h.1 (by decide)
  · obtain ⟨v, hv, hne, -⟩ := h.2.2
    exact hne (Nat.lt_one_iff.mp hv)

/-- The guest calls PSCI's CPU_OFF, which `smc_handle` carries out. -/
def cpuOff : Event :=
  .exit 0 (.vcpuFault 0x5c000000)
    { trapRegs := .ok { x := Function.update (fun _ => 0) 0 0x84000002 } }

/-- After CPU_OFF no vCPU is on, and the guest's state is still running. -/
theorem running_without_vcpu : ∃ s, (vmm linuxBuild).Reaches (vmm linuxBuild).start
    [linuxStart, cpuOff] s ∧ s.state = .running ∧ ¬s.lifecycle.Agrees linuxBuild := by
  refine ⟨_, rfl, rfl, fun h => ?_⟩
  obtain ⟨v, -, hon⟩ := h.mp rfl
  exact Bool.false_ne_true hon

end Vmm
end TensorSel4
