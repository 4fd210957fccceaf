/-
The guest's lifecycle: the VMM's state without its console, its calls and its
messages.

`Lifecycle.Step` is what one event can do to it, guards included.  It is an
abstraction of the VMM, and `step_lifecycle` says that every step of the VMM is
one of its steps, so an invariant of `Lifecycle.Step` is one of the VMM.
-/
import TensorSel4.Vmm.Exit

namespace TensorSel4
namespace Vmm

open Trace

structure Lifecycle where
  state : GuestState
  run : UInt64
  runVcpu : Nat
  vcpuOn : Nat → Bool
  trace : List TraceRecord

def VmmState.lifecycle (s : VmmState) : Lifecycle :=
  { state := s.state, run := s.run, runVcpu := s.runVcpu, vcpuOn := s.vcpuOn, trace := s.trace }

namespace Lifecycle

/-- A run that has its number and its STARTED record, but no vCPU on yet. -/
def begun (l : Lifecycle) (vcpu : Nat) (pc : UInt64) : Lifecycle :=
  { l with
    run := l.run + 1
    runVcpu := vcpu
    trace := l.trace ++ [guestRecord guestStarted (l.run + 1) vcpu pc] }

def stoppedByCommand (l : Lifecycle) : Lifecycle :=
  { l with
    state := .stoppedByCommand
    vcpuOn := Function.update l.vcpuOn l.runVcpu false
    trace := l.trace ++ [guestRecord guestStoppedByCommand l.run l.runVcpu 0] }

def exited (l : Lifecycle) (b : Build) (vcpu : Nat) (f : Fault) (env : CallEnv) : Lifecycle :=
  { l with
    vcpuOn := powerAfter b l.vcpuOn f env
    trace := l.trace ++ exitRecords b vcpu f env }

def stoppedByFault (l : Lifecycle) (vcpu : Nat) (pc : UInt64) : Lifecycle :=
  { l with
    state := .stoppedByFault
    vcpuOn := Function.update l.vcpuOn vcpu false
    trace := l.trace ++ [guestRecord guestStoppedByFault l.run l.runVcpu pc] }

inductive Step (b : Build) (l : Lifecycle) : Event → Lifecycle → Prop
  | unchanged {cmd : CmdEntry} {env : StartEnv}
      (hquiet : cmd.verb = cmdVerbGuestStart ∧ l.state = .running ∨
        cmd.verb = cmdVerbGuestStop ∧ l.state ≠ .running ∨
        cmd.verb ≠ cmdVerbGuestStart ∧ cmd.verb ≠ cmdVerbGuestStop) :
      Step b l (.command cmd env) l
  | notLoaded {cmd : CmdEntry} {env : StartEnv}
      (hverb : cmd.verb = cmdVerbGuestStart) (hstate : l.state ≠ .running)
      (hload : b.numVcpus ≤ (guestSelectVcpu cmd.arg).toNat ∨ env.load = none) :
      Step b l (.command cmd env) { l with state := .startFailed }
  | notWritten {cmd : CmdEntry} {env : StartEnv} {boot : GuestBoot} {err : Nat}
      (hverb : cmd.verb = cmdVerbGuestStart) (hstate : l.state ≠ .running)
      (hvcpu : (guestSelectVcpu cmd.arg).toNat < b.numVcpus) (hload : env.load = some boot)
      (hwrite : env.write = .error err) :
      Step b l (.command cmd env)
        { l.begun (guestSelectVcpu cmd.arg).toNat boot.pc with state := .startFailed }
  | started {cmd : CmdEntry} {env : StartEnv} {boot : GuestBoot}
      (hverb : cmd.verb = cmdVerbGuestStart) (hstate : l.state ≠ .running)
      (hvcpu : (guestSelectVcpu cmd.arg).toNat < b.numVcpus) (hload : env.load = some boot)
      (hwrite : env.write = .ok ()) :
      Step b l (.command cmd env)
        { l.begun (guestSelectVcpu cmd.arg).toNat boot.pc with
          state := .running
          vcpuOn := Function.update l.vcpuOn (guestSelectVcpu cmd.arg).toNat true }
  | stopped {cmd : CmdEntry} {env : StartEnv}
      (hverb : cmd.verb = cmdVerbGuestStop) (hstate : l.state = .running) :
      Step b l (.command cmd env) l.stoppedByCommand
  | resumed {vcpu : Nat} {f : Fault} {env : CallEnv}
      (hvcpu : vcpu < b.numVcpus) (hon : l.vcpuOn vcpu = true) (h : resumes b f env = true) :
      Step b l (.exit vcpu f env) (l.exited b vcpu f env)
  | refused {vcpu : Nat} {f : Fault} {env : CallEnv}
      (hvcpu : vcpu < b.numVcpus) (hon : l.vcpuOn vcpu = true) (h : resumes b f env = false) :
      Step b l (.exit vcpu f env) ((l.exited b vcpu f env).stoppedByFault vcpu (stopPc env))

end Lifecycle

namespace VmmState

theorem start_lifecycle (b : Build) (s : VmmState) (cmd : CmdEntry) (env : StartEnv)
    (hverb : cmd.verb = cmdVerbGuestStart) :
    Lifecycle.Step b s.lifecycle (.command cmd env)
      (s.guestControlStart b.numVcpus cmd.arg env).lifecycle := by
  by_cases hrun : s.state = .running
  · rw [guestControlStart, if_pos hrun]
    exact .unchanged (Or.inl ⟨hverb, hrun⟩)
  rw [guestControlStart, if_neg hrun]
  unfold bootFresh
  by_cases hvcpu : b.numVcpus ≤ (guestSelectVcpu cmd.arg).toNat
  · simp only [hvcpu, if_true]
    exact .notLoaded hverb hrun (Or.inl hvcpu)
  simp only [hvcpu, if_false]
  have hlt := Nat.lt_of_not_le hvcpu
  cases hload : env.load with
  | none => exact .notLoaded hverb hrun (Or.inr hload)
  | some boot =>
    cases hwrite : env.write with
    | error err => exact .notWritten hverb hrun hlt hload hwrite
    | ok u => exact .started hverb hrun hlt hload hwrite

theorem status_lifecycle (s : VmmState) : s.guestControlStatus.lifecycle = s.lifecycle := by
  unfold guestControlStatus
  cases s.state <;> rfl

theorem stop_lifecycle (b : Build) (s : VmmState) (cmd : CmdEntry) (env : StartEnv)
    (hverb : cmd.verb = cmdVerbGuestStop) :
    Lifecycle.Step b s.lifecycle (.command cmd env) s.guestControlStop.lifecycle := by
  by_cases hrun : s.state = .running
  · rw [guestControlStop, if_pos hrun]
    exact .stopped hverb hrun
  · rw [guestControlStop, if_neg hrun, status_lifecycle]
    exact .unchanged (Or.inr (Or.inl ⟨hverb, hrun⟩))

theorem runCommand_lifecycle (b : Build) (s : VmmState) (cmd : CmdEntry) (env : StartEnv) :
    Lifecycle.Step b s.lifecycle (.command cmd env) (s.runCommand b cmd env).lifecycle := by
  unfold runCommand
  by_cases hstart : cmd.verb = cmdVerbGuestStart
  · rw [if_pos hstart]
    exact start_lifecycle b s cmd env hstart
  rw [if_neg hstart]
  by_cases hstop : cmd.verb = cmdVerbGuestStop
  · rw [if_pos hstop]
    exact stop_lifecycle b s cmd env hstop
  rw [if_neg hstop]
  have hquiet : Lifecycle.Step b s.lifecycle (.command cmd env) s.lifecycle :=
    .unchanged (Or.inr (Or.inr ⟨hstart, hstop⟩))
  by_cases hstatus : cmd.verb = cmdVerbStatus
  · rw [if_pos hstatus, status_lifecycle]
    exact hquiet
  rw [if_neg hstatus]
  by_cases hregs : cmd.verb = cmdVerbGuestRegs
  · rw [if_pos hregs]
    unfold guestControlRegs
    split <;> exact hquiet
  · rw [if_neg hregs]
    exact hquiet

theorem handleFault_lifecycle_resumed {b : Build} {f : Fault} {env : CallEnv}
    (h : resumes b f env = true) (s : VmmState) (vcpu : Nat) :
    (s.handleFault b vcpu f env).1.lifecycle = s.lifecycle.exited b vcpu f env := by
  obtain ⟨⟨hstate, hrun, hvcpu, htrace⟩, -, hon⟩ := handleFault_resumed h s vcpu
  simp only [lifecycle, Lifecycle.exited, hstate, hrun, hvcpu, htrace, hon]

theorem handleFault_lifecycle_stopped {b : Build} {f : Fault} {env : CallEnv}
    (h : resumes b f env = false) (s : VmmState) (vcpu : Nat) :
    (s.handleFault b vcpu f env).1.lifecycle =
      (s.lifecycle.exited b vcpu f env).stoppedByFault vcpu (stopPc env) := by
  obtain ⟨-, hstate, hrun, hvcpu, htrace, hon⟩ := handleFault_stopped h s vcpu
  simp only [lifecycle, Lifecycle.exited, Lifecycle.stoppedByFault, hstate, hrun, hvcpu, htrace,
    hon]

/-- The VMM refines the lifecycle. -/
theorem step_lifecycle {b : Build} {s t : VmmState} {e : Event} (hs : s.step b e = some t) :
    Lifecycle.Step b s.lifecycle e t.lifecycle := by
  cases e with
  | command cmd env =>
    obtain rfl := Option.some.inj hs
    exact runCommand_lifecycle b s cmd env
  | exit vcpu f env =>
    simp only [step, Option.ite_none_right_eq_some, Option.some.injEq] at hs
    obtain ⟨⟨hlt, hon⟩, rfl⟩ := hs
    cases h : resumes b f env with
    | true =>
      rw [handleFault_lifecycle_resumed h]
      exact .resumed hlt hon h
    | false =>
      rw [handleFault_lifecycle_stopped h]
      exact .refused hlt hon h

end VmmState
end Vmm
end TensorSel4
