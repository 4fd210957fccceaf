/-
In a VMM with one vCPU, guest activity is recorded only inside its run.

A vCPU that is off delivers no exit, and with one vCPU it is on only while the
guest is running.  So whenever an exit is delivered, the last GUEST record is
STARTED of the current run, and the exit's records extend the trace from there.
-/
import TensorSel4.Vmm.RunBrackets

namespace TensorSel4
namespace Vmm

open Trace

def lastGuest (tr : List TraceRecord) : Option TraceRecord := (guestRecords tr).getLast?

/-- How many runs a trace says have begun, which is the current run's number. -/
def runsBegun (tr : List TraceRecord) : Nat :=
  (guestRecords tr).countP fun r => r.addr = guestStarted

structure ActivityInRuns (tr : List TraceRecord) : Prop where
  /-- Before an MMIO or SMC record, the last GUEST record is STARTED of the
  current run. -/
  started : ∀ i r, tr[i]? = some r → r.activity → ∃ g, lastGuest (tr.take i) = some g ∧
    g.addr = guestStarted ∧ g.value = UInt64.ofNat (runsBegun (tr.take i))
  /-- After an UNHANDLED record comes STOPPED_BY_FAULT of the same run. -/
  refused : ∀ i r, tr[i]? = some r → r.unhandled → ∃ g, tr[i + 1]? = some g ∧
    g.kind = kindGuest ∧ g.addr = guestStoppedByFault ∧
    g.value = UInt64.ofNat (runsBegun (tr.take i))

theorem guestRecords_not_guest {rs : List TraceRecord} (h : ∀ r ∈ rs, r.kind ≠ kindGuest)
    (tr : List TraceRecord) : guestRecords (tr ++ rs) = guestRecords tr := by
  have hnone : rs.filter (fun r => r.kind = kindGuest) = [] :=
    List.filter_eq_nil_iff.mpr fun r hr => by simpa using h r hr
  rw [guestRecords, List.filter_append, hnone, List.append_nil, guestRecords]

theorem runsBegun_guest (tr : List TraceRecord) (event run : UInt64) (vcpu : Nat)
    (pc : UInt64) : runsBegun (tr ++ [guestRecord event run vcpu pc]) =
      runsBegun tr + if event = guestStarted then 1 else 0 := by
  rw [runsBegun, guestRecords_guest, List.countP_append, runsBegun]
  simp [guestRecord]

/-- The two properties of a longer trace, from those of its new part. -/
theorem ActivityInRuns.append {tr rs : List TraceRecord} (h : ActivityInRuns tr)
    (hstarted : ∀ j r, rs[j]? = some r → r.activity →
      ∃ g, lastGuest (tr ++ rs.take j) = some g ∧ g.addr = guestStarted ∧
        g.value = UInt64.ofNat (runsBegun (tr ++ rs.take j)))
    (hrefused : ∀ j r, rs[j]? = some r → r.unhandled → ∃ g, rs[j + 1]? = some g ∧
      g.kind = kindGuest ∧ g.addr = guestStoppedByFault ∧
      g.value = UInt64.ofNat (runsBegun (tr ++ rs.take j))) :
    ActivityInRuns (tr ++ rs) := by
  have htake : ∀ i, tr.length ≤ i → (tr ++ rs).take i = tr ++ rs.take (i - tr.length) :=
    fun i hi => by rw [List.take_append, List.take_of_length_le hi]
  constructor
  · intro i r hr hact
    by_cases hi : i < tr.length
    · rw [List.getElem?_append_left hi] at hr
      rw [List.take_append_of_le_length (Nat.le_of_lt hi)]
      exact h.started i r hr hact
    · rw [List.getElem?_append_right (Nat.not_lt.mp hi)] at hr
      rw [htake i (Nat.not_lt.mp hi)]
      exact hstarted _ r hr hact
  · intro i r hr hun
    by_cases hi : i < tr.length
    · rw [List.getElem?_append_left hi] at hr
      rw [List.take_append_of_le_length (Nat.le_of_lt hi)]
      obtain ⟨g, hg, hrest⟩ := h.refused i r hr hun
      obtain ⟨hnext, -⟩ := List.getElem?_eq_some_iff.mp hg
      exact ⟨g, by rw [List.getElem?_append_left hnext, hg], hrest⟩
    · rw [List.getElem?_append_right (Nat.not_lt.mp hi)] at hr
      rw [htake i (Nat.not_lt.mp hi), List.getElem?_append_right (by omega),
        show i + 1 - tr.length = i - tr.length + 1 by omega]
      exact hrefused _ r hr hun

/-- A GUEST record is no activity. -/
theorem ActivityInRuns.guest {tr : List TraceRecord} (h : ActivityInRuns tr)
    (event run : UInt64) (vcpu : Nat) (pc : UInt64) :
    ActivityInRuns (tr ++ [guestRecord event run vcpu pc]) := by
  have hnone : ∀ (j : Nat) (r : TraceRecord),
      [guestRecord event run vcpu pc][j]? = some r → ¬r.activity := by
    intro j r hr hact
    obtain rfl := List.mem_singleton.mp (List.mem_of_getElem? hr)
    exact hact.not_guest rfl
  exact h.append (fun j r hr hact => absurd hact (hnone j r hr))
    (fun j r hr hun => absurd hun.activity (hnone j r hr))

namespace Lifecycle

/-- The invariant of a VMM with one vCPU. -/
structure OneVcpu (l : Lifecycle) : Prop where
  vcpu : l.runVcpu = 0
  running : l.vcpuOn 0 = true → l.state = .running
  begun : l.state = .running → ∃ g, lastGuest l.trace = some g ∧ g.addr = guestStarted ∧
    g.value = l.run
  run : l.run = UInt64.ofNat (runsBegun l.trace)
  activity : ActivityInRuns l.trace

/-- The records of an exit, and STOPPED_BY_FAULT if it stops the guest. -/
theorem OneVcpu.exit_activity {l : Lifecycle} (hl : l.OneVcpu) (hstate : l.state = .running)
    (b : Build) (vcpu : Nat) (f : Fault) (env : CallEnv) (pc : UInt64) :
    (resumes b f env = true → ActivityInRuns (l.trace ++ exitRecords b vcpu f env)) ∧
      ActivityInRuns (l.trace ++ exitRecords b vcpu f env ++
        [guestRecord guestStoppedByFault l.run l.runVcpu pc]) := by
  obtain ⟨done, last, hsplit⟩ := exitRecords_split b vcpu f env
  have hguest : ∀ qs, (∀ r ∈ qs, r ∈ exitRecords b vcpu f env) →
      guestRecords (l.trace ++ qs) = guestRecords l.trace := fun qs hqs =>
    guestRecords_not_guest (fun r hr => (exitRecords_activity (hqs r hr)).not_guest) l.trace
  have hstarted : ∀ qs, (∀ r ∈ qs, r ∈ exitRecords b vcpu f env) →
      ∃ g, lastGuest (l.trace ++ qs) = some g ∧ g.addr = guestStarted ∧
        g.value = UInt64.ofNat (runsBegun (l.trace ++ qs)) := by
    intro qs hqs
    rw [lastGuest, runsBegun, hguest qs hqs]
    obtain ⟨g, hg, haddr, hvalue⟩ := hl.begun hstate
    exact ⟨g, hg, haddr, hvalue.trans hl.run⟩
  have hunhandled : ∀ (j : Nat) (r : TraceRecord),
      (exitRecords b vcpu f env)[j]? = some r → r.unhandled →
      last ≠ [] ∧ j + 1 = (exitRecords b vcpu f env).length := by
    intro j r hr hun
    have hlen := hsplit.length
    obtain ⟨hj, -⟩ := List.getElem?_eq_some_iff.mp hr
    rw [hsplit.eq] at hr hj ⊢
    rw [List.length_append] at hj ⊢
    by_cases hlt : j < done.length
    · rw [List.getElem?_append_left hlt] at hr
      exact absurd hun (hsplit.handled r (List.mem_of_getElem? hr)).2
    · refine ⟨fun hnil => ?_, by omega⟩
      rw [hnil, List.length_nil] at hj
      omega
  have htake : ∀ j, j ≤ (exitRecords b vcpu f env).length → ∀ pc',
      ((exitRecords b vcpu f env) ++ [guestRecord guestStoppedByFault l.run l.runVcpu pc']).take j =
        (exitRecords b vcpu f env).take j := fun j hj _ => List.take_append_of_le_length hj
  constructor
  · intro hresumes
    refine hl.activity.append (fun j r _ _ => ?_) fun j r hr hun => ?_
    · exact hstarted _ fun r hr => List.mem_of_mem_take hr
    · exact absurd (hsplit.resumed hresumes) (hunhandled j r hr hun).1
  · rw [List.append_assoc]
    refine hl.activity.append (fun j r hr hact => ?_) fun j r hr hun => ?_
    · by_cases hj : j < (exitRecords b vcpu f env).length
      · rw [htake j (Nat.le_of_lt hj)]
        exact hstarted _ fun r hr => List.mem_of_mem_take hr
      · rw [List.getElem?_append_right (Nat.not_lt.mp hj)] at hr
        obtain rfl := List.mem_singleton.mp (List.mem_of_getElem? hr)
        exact absurd rfl hact.not_guest
    · by_cases hj : j < (exitRecords b vcpu f env).length
      · rw [List.getElem?_append_left hj] at hr
        obtain ⟨-, hnext⟩ := hunhandled j r hr hun
        rw [htake j (Nat.le_of_lt hj), List.getElem?_append_right (by omega), hnext, Nat.sub_self]
        refine ⟨_, rfl, rfl, rfl, ?_⟩
        rw [runsBegun, hguest _ fun r hr => List.mem_of_mem_take hr]
        exact hl.run
      · rw [List.getElem?_append_right (Nat.not_lt.mp hj)] at hr
        obtain rfl := List.mem_singleton.mp (List.mem_of_getElem? hr)
        exact absurd rfl hun.activity.not_guest

/-- A run that has begun, whether or not its vCPU could be started. -/
theorem OneVcpu.begun_run {l : Lifecycle} (hl : l.OneVcpu) (vcpu : Nat) (pc : UInt64) :
    (∃ g, lastGuest (l.begun vcpu pc).trace = some g ∧ g.addr = guestStarted ∧
      g.value = (l.begun vcpu pc).run) ∧
    (l.begun vcpu pc).run = UInt64.ofNat (runsBegun (l.begun vcpu pc).trace) ∧
    ActivityInRuns (l.begun vcpu pc).trace := by
  refine ⟨⟨guestRecord guestStarted (l.run + 1) vcpu pc, ?_, rfl, rfl⟩, ?_,
    hl.activity.guest _ _ _ _⟩
  · show (guestRecords (l.trace ++ [guestRecord _ _ _ _])).getLast? = _
    rw [guestRecords_guest, List.getLast?_concat]
  · show l.run + 1 = UInt64.ofNat (runsBegun (l.trace ++ [guestRecord _ _ _ _]))
    rw [runsBegun_guest, if_pos rfl, UInt64.ofNat_add, ← hl.run]
    rfl

theorem OneVcpu.step {b : Build} (hone : b.numVcpus = 1) {l l' : Lifecycle} {e : Event}
    (hl : l.OneVcpu) (h : Step b l e l') : l'.OneVcpu := by
  cases h with
  | unchanged hquiet => exact hl
  | notLoaded hverb hstate =>
    refine { hl with running := fun hon => ?_, begun := fun hrun => ?_ }
    · exact absurd (hl.running hon) hstate
    · exact nomatch hrun
  | @notWritten cmd env boot err hverb hstate hvcpu =>
    obtain ⟨-, hrun, hactivity⟩ := hl.begun_run (guestSelectVcpu cmd.arg).toNat boot.pc
    refine ⟨?_, fun hon => ?_, fun hfalse => ?_, hrun, hactivity⟩
    · exact Nat.lt_one_iff.mp (hone ▸ hvcpu)
    · exact absurd (hl.running hon) hstate
    · exact nomatch hfalse
  | @started cmd env boot hverb hstate hvcpu =>
    obtain ⟨hg, hrun, hactivity⟩ := hl.begun_run (guestSelectVcpu cmd.arg).toNat boot.pc
    exact ⟨Nat.lt_one_iff.mp (hone ▸ hvcpu), fun _ => rfl, fun _ => hg, hrun, hactivity⟩
  | stopped hverb hstate =>
    refine ⟨hl.vcpu, fun hon => ?_, fun hrun => (nomatch hrun), ?_,
      hl.activity.guest _ _ _ _⟩
    · have hoff : Function.update l.vcpuOn l.runVcpu false 0 = true := hon
      rw [hl.vcpu, Function.update_self] at hoff
      exact absurd hoff Bool.false_ne_true
    · show l.run = UInt64.ofNat (runsBegun (l.trace ++ [guestRecord _ _ _ _]))
      rw [runsBegun_guest, if_neg (by decide)]
      exact hl.run
  | @resumed vcpu f env hvcpu hon hresumes =>
    obtain rfl : vcpu = 0 := Nat.lt_one_iff.mp (hone ▸ hvcpu)
    have hstate := hl.running hon
    have hrecords := guestRecords_exit l.trace b 0 f env
    refine ⟨hl.vcpu, fun _ => hstate, fun hrun => ?_, ?_,
      (hl.exit_activity hstate b 0 f env 0).1 hresumes⟩
    · show ∃ g, (guestRecords (l.trace ++ exitRecords b 0 f env)).getLast? = _ ∧ _
      rw [hrecords]
      exact hl.begun hrun
    · show l.run = UInt64.ofNat (runsBegun (l.trace ++ exitRecords b 0 f env))
      rw [runsBegun, hrecords]
      exact hl.run
  | @refused vcpu f env hvcpu hon hresumes =>
    obtain rfl : vcpu = 0 := Nat.lt_one_iff.mp (hone ▸ hvcpu)
    refine ⟨hl.vcpu, fun hon' => ?_, fun hrun => (nomatch hrun), ?_,
      (hl.exit_activity (hl.running hon) b 0 f env (stopPc env)).2⟩
    · have hoff : Function.update (powerAfter b l.vcpuOn f env) 0 false 0 = true := hon'
      rw [Function.update_self] at hoff
      exact absurd hoff Bool.false_ne_true
    · show l.run = UInt64.ofNat (runsBegun (l.trace ++ exitRecords b 0 f env ++
        [guestRecord _ _ _ _]))
      rw [runsBegun_guest, if_neg (by decide), runsBegun, guestRecords_exit]
      exact hl.run

end Lifecycle

/-- With one vCPU, every MMIO and SMC record lies inside the current run, and an
UNHANDLED one is followed by that run's STOPPED_BY_FAULT. -/
theorem activity_in_runs {b : Build} (hone : b.numVcpus = 1) {s : VmmState}
    (hs : (vmm b).Reachable s) : ActivityInRuns s.trace := by
  have hl : s.lifecycle.OneVcpu := by
    refine Automaton.reachable_induction (A := vmm b) (I := fun t => t.lifecycle.OneVcpu) ?_ ?_ hs
    · refine ⟨rfl, fun hon => absurd hon Bool.false_ne_true, fun hrun => (nomatch hrun), rfl, ?_⟩
      constructor <;> exact fun i r hr => absurd hr (by simp [vmm, VmmState.lifecycle])
    · exact fun t e u ht hstep => ht.step hone (VmmState.step_lifecycle hstep)
  exact hl.activity

/-- The guest makes an SMC that the policy refuses. -/
def refusedSmc : Event :=
  .exit 0 (.vcpuFault 0x5c000000)
    { trapRegs := .ok { x := Function.update (fun _ => 0) 0 0x82000000 } }

theorem activity_in_runs_refusedSmc : ∃ s,
    (vmm linuxBuild).Reaches (vmm linuxBuild).start [linuxStart, refusedSmc] s ∧
      s.trace.length = 7 ∧ ActivityInRuns s.trace :=
  ⟨_, rfl, rfl, activity_in_runs (b := linuxBuild) rfl ⟨[linuxStart, refusedSmc], rfl⟩⟩

end Vmm
end TensorSel4
