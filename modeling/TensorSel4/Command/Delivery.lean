/-
What the command ring delivers.

The counters name positions in the list of queued commands: `head` is its
length, `tail` the number of slots freed.  The capacity divides 2^64, so the
slots are right even where the counters wrap.  The receiver works on the command
at position `taken` throughout, whose slot the sender cannot reach.
-/
import TensorSel4.Command.Ring

namespace TensorSel4
namespace Command

open RingBuffer Vmm

/-- The id of the last command of a list, zero where there is none. -/
def lastId (cmds : List CmdEntry) : UInt64 := (cmds.getLast?.map CmdEntry.id).getD 0

/-- How many commands `run_command` was entered with beyond the freed slots. -/
def RunPc.began : RunPc → Nat
  | .running .. | .reloadId _ | .storeCompleted .. | .storeTail _ => 1
  | _ => 0

/-- How many it has returned from. -/
def RunPc.left : RunPc → Nat
  | .reloadId _ | .storeCompleted .. | .storeTail _ => 1
  | _ => 0

/-- How many are in `completed_id`. -/
def RunPc.completed : RunPc → Nat
  | .storeTail _ => 1
  | _ => 0

theorem RunPc.left_le (pc : RunPc) : pc.left ≤ pc.began := by
  cases pc with
  | running => exact Nat.zero_le 1
  | _ => exact Nat.le_refl _

theorem RunPc.began_le_one (pc : RunPc) : pc.began ≤ 1 := by
  cases pc with
  | running | reloadId | storeCompleted | storeTail => exact Nat.le_refl _
  | _ => exact Nat.zero_le _

theorem RunPc.completed_le (pc : RunPc) : pc.completed ≤ pc.left := by
  cases pc with
  | reloadId | storeCompleted => exact Nat.zero_le 1
  | _ => exact Nat.le_refl _

@[simp] theorem withOutcome_append (o : Outcome) (xs ys : List (CmdEntry × Outcome)) :
    withOutcome o (xs ++ ys) = withOutcome o xs ++ withOutcome o ys := by
  simp [withOutcome]

@[simp] theorem withOutcome_nil (o : Outcome) : withOutcome o [] = [] := rfl

theorem slot_ofNat (n : Nat) : slot (UInt64.ofNat n) = n % cmdRingCapacity := by
  rw [slot, UInt64.toNat_ofNat', cmdRingCapacity]
  omega

namespace CmdChannel

/-- The receiver is at the oldest command, of which `P` is known. -/
def Takes (s : CmdChannel) (tail : UInt64) (P : CmdEntry → Prop) : Prop :=
  tail = s.ring.tail ∧ ∃ cmd, s.queued[s.taken]? = some cmd ∧ P cmd

/-- The next slot is free, and `P` holds of what is in it. -/
def HasRoom (s : CmdChannel) (head : UInt64) (P : CmdEntry → Prop) : Prop :=
  head = s.ring.head ∧ s.queued.length < s.taken + cmdRingCapacity ∧ P (s.ring.entry head)

def Running (s : CmdChannel) : RunPc → Prop
  | .idle | .loadTail => True
  | .loadHead tail => tail = s.ring.tail
  | .readVerb tail | .reloadId tail | .storeTail tail => s.Takes tail fun _ => True
  | .readArg tail verb => s.Takes tail fun cmd => cmd.verb = verb
  | .readId tail verb arg => s.Takes tail fun cmd => cmd.verb = verb ∧ cmd.arg = arg
  | .running tail cmd => s.Takes tail fun c => c = cmd
  | .storeCompleted tail id => s.Takes tail fun cmd => cmd.id = id

def Sending (s : CmdChannel) : SendPc → Prop
  | .idle | .loadHead _ | .drop _ => True
  | .loadTail _ head => head = s.ring.head
  | .storeId _ head => s.HasRoom head fun _ => True
  | .storeVerb cmd head => s.HasRoom head fun e => e.id = cmd.id
  | .storeArg cmd head => s.HasRoom head fun e => e.id = cmd.id ∧ e.verb = cmd.verb
  | .storeHead cmd head => s.HasRoom head fun e => e = cmd
  | .notify cmd | .waitForVmm cmd | .checkDeadline cmd => s.queued.getLast? = some cmd

structure Inv (s : CmdChannel) : Prop where
  head : s.ring.head = UInt64.ofNat s.queued.length
  tail : s.ring.tail = UInt64.ofNat s.taken
  taken_le : s.taken ≤ s.queued.length
  room : s.queued.length ≤ s.taken + cmdRingCapacity
  window : Window cmdRingCapacity s.ring.entries s.queued s.taken
  sending : s.Sending s.send
  running : s.Running s.run
  begun : s.begun = s.queued.take (s.taken + s.run.began)
  returned : s.returned = s.queued.take (s.taken + s.run.left)
  completed : s.ring.completedId = lastId (s.queued.take (s.taken + s.run.completed))

theorem inv_start : Inv {} where
  head := rfl
  tail := rfl
  taken_le := Nat.le_refl _
  room := Nat.zero_le _
  window := Window.nil
  sending := trivial
  running := trivial
  begun := rfl
  returned := rfl
  completed := rfl

variable {s t : CmdChannel}

/-! ## What each side leaves alone -/

theorem Takes.frame {tail : UInt64} {P : CmdEntry → Prop} (h : s.Takes tail P)
    (htail : t.ring.tail = s.ring.tail) (htaken : t.taken = s.taken)
    (hqueued : s.queued <+: t.queued) : t.Takes tail P := by
  obtain ⟨rfl, cmd, hcmd, hP⟩ := h
  refine ⟨htail.symm, cmd, ?_, hP⟩
  obtain ⟨more, hmore⟩ := hqueued
  have hlt := (List.getElem?_eq_some_iff.mp hcmd).1
  rw [htaken, ← hmore, List.getElem?_append_left hlt, hcmd]

theorem Running.frame {pc : RunPc} (h : s.Running pc) (htail : t.ring.tail = s.ring.tail)
    (htaken : t.taken = s.taken) (hqueued : s.queued <+: t.queued) : t.Running pc := by
  cases pc with
  | idle | loadTail => trivial
  | loadHead tail =>
    show tail = t.ring.tail
    rw [htail]
    exact h
  | readVerb | reloadId | storeTail | readArg | readId | running | storeCompleted =>
    exact Takes.frame h htail htaken hqueued

theorem HasRoom.frame {head : UInt64} {P : CmdEntry → Prop} (h : s.HasRoom head P)
    (hring : t.ring.head = s.ring.head) (hentries : t.ring.entries = s.ring.entries)
    (hqueued : t.queued = s.queued) (htaken : s.taken ≤ t.taken) : t.HasRoom head P := by
  obtain ⟨hhead, hlt, hP⟩ := h
  refine ⟨hring ▸ hhead, ?_, ?_⟩
  · rw [hqueued]
    omega
  · rw [CmdRing.entry, hentries]
    exact hP

theorem Sending.frame {pc : SendPc} (h : s.Sending pc)
    (hring : t.ring.head = s.ring.head) (hentries : t.ring.entries = s.ring.entries)
    (hqueued : t.queued = s.queued) (htaken : s.taken ≤ t.taken) : t.Sending pc := by
  cases pc with
  | idle | loadHead | drop => trivial
  | loadTail cmd head =>
    show head = t.ring.head
    rw [hring]
    exact h
  | storeId | storeVerb | storeArg | storeHead =>
    simp only [Sending] at h ⊢
    exact h.frame hring hentries hqueued htaken
  | notify cmd | waitForVmm cmd | checkDeadline cmd =>
    show t.queued.getLast? = some cmd
    rw [hqueued]
    exact h

/-- While `run_command` is at a command, that command is queued. -/
theorem Running.began_le {pc : RunPc} (h : s.Running pc) (hle : s.taken ≤ s.queued.length) :
    s.taken + pc.began ≤ s.queued.length := by
  cases pc with
  | idle | loadTail | loadHead | readVerb | readArg | readId => exact hle
  | running | reloadId | storeCompleted | storeTail =>
    obtain ⟨-, cmd, hcmd, -⟩ := h
    exact (List.getElem?_eq_some_iff.mp hcmd).1

/-! ## The sender -/

/-- A step of the sender that leaves the ring alone and decides nothing. -/
theorem Inv.send_moves (h : Inv s) {pc : SendPc} {answered : List CmdEntry}
    (hpc : s.Sending pc) : Inv { s with send := pc, answered := answered } :=
  { h with
    sending := hpc.frame rfl rfl rfl (Nat.le_refl _)
    running := h.running.frame rfl rfl List.prefix_rfl }

theorem slot_head (h : Inv s) : slot s.ring.head = s.queued.length % cmdRingCapacity := by
  rw [h.head, slot_ofNat]

/-- Writing a field of the free slot. -/
theorem Inv.store_entry (h : Inv s) {head : UInt64} {P : CmdEntry → Prop}
    (hroom : s.HasRoom head P) (e : CmdEntry) {pc : SendPc}
    {answered : List CmdEntry}
    (hpc : ∀ t : CmdChannel, t.HasRoom head (fun e' => e' = e) → t.Sending pc) :
    Inv { s with ring := s.ring.setEntry head e, send := pc, answered := answered } := by
  obtain ⟨rfl, hlt, -⟩ := hroom
  refine { h with window := ?_, sending := hpc _ ⟨rfl, hlt, ?_⟩, running := ?_ }
  · show Window _ (Function.update s.ring.entries (slot s.ring.head) e) s.queued _
    rw [slot_head h]
    exact h.window.store hlt e
  · show Function.update s.ring.entries (slot s.ring.head) e (slot s.ring.head) = e
    exact Function.update_self _ _ _
  · exact h.running.frame rfl rfl List.prefix_rfl

/-- The store to `head` queues the command. -/
theorem Inv.store_head (h : Inv s) {cmd : CmdEntry} {head : UInt64} {answered : List CmdEntry}
    (hroom : s.HasRoom head fun e => e = cmd) :
    Inv { s with
      ring := { s.ring with head := head + 1 }
      send := .notify cmd
      outcomes := s.outcomes ++ [(cmd, .queued)]
      answered := answered } := by
  obtain ⟨rfl, hlt, hslot⟩ := hroom
  have hqueued : withOutcome .queued (s.outcomes ++ [(cmd, .queued)]) = s.queued ++ [cmd] := by
    simp [withOutcome, queued]
  have hlen : (s.queued ++ [cmd]).length = s.queued.length + 1 := by simp
  have hbegan := h.running.began_le h.taken_le
  have hleft : s.taken + s.run.left ≤ s.queued.length :=
    Nat.le_trans (Nat.add_le_add_left s.run.left_le _) hbegan
  have hcompleted : s.taken + s.run.completed ≤ s.queued.length :=
    Nat.le_trans (Nat.add_le_add_left s.run.completed_le _) hleft
  refine ⟨?_, h.tail, ?_, ?_, ?_, ?_, ?_, ?_, ?_, ?_⟩
  · show s.ring.head + 1 = UInt64.ofNat (withOutcome _ _).length
    rw [hqueued, hlen, h.head, ofNat_succ]
  · show s.taken ≤ (withOutcome _ _).length
    rw [hqueued, hlen]
    omega
  · show (withOutcome _ _).length ≤ _
    rw [hqueued, hlen]
    exact hlt
  · show Window _ s.ring.entries (withOutcome _ _) _
    have hpush := h.window.push
    rw [← slot_head h] at hpush
    rw [hqueued, ← hslot]
    exact hpush
  · show (withOutcome _ _).getLast? = some cmd
    rw [hqueued, List.getLast?_concat]
  · refine h.running.frame rfl rfl ?_
    show s.queued <+: withOutcome _ _
    rw [hqueued]
    exact List.prefix_append _ _
  · show s.begun = (withOutcome _ _).take _
    rw [hqueued, List.take_append_of_le_length hbegan]
    exact h.begun
  · show s.returned = (withOutcome _ _).take _
    rw [hqueued, List.take_append_of_le_length hleft]
    exact h.returned
  · show s.ring.completedId = lastId ((withOutcome _ _).take _)
    rw [hqueued, List.take_append_of_le_length hcompleted]
    exact h.completed

/-- A command that is dropped is not queued. -/
theorem Inv.drops (h : Inv s) (cmd : CmdEntry) {answered : List CmdEntry} :
    Inv { s with
      send := .idle, outcomes := s.outcomes ++ [(cmd, .dropped)], answered := answered } := by
  have hqueued : withOutcome .queued (s.outcomes ++ [(cmd, .dropped)]) = s.queued := by
    simp [withOutcome, queued]
  refine ⟨?_, h.tail, ?_, ?_, ?_, trivial, ?_, ?_, ?_, ?_⟩
  · show s.ring.head = UInt64.ofNat (withOutcome _ _).length
    rw [hqueued]
    exact h.head
  · show s.taken ≤ (withOutcome _ _).length
    rw [hqueued]
    exact h.taken_le
  · show (withOutcome _ _).length ≤ _
    rw [hqueued]
    exact h.room
  · show Window _ s.ring.entries (withOutcome _ _) _
    rw [hqueued]
    exact h.window
  · refine h.running.frame rfl rfl ?_
    show s.queued <+: withOutcome _ _
    rw [hqueued]
  · show s.begun = (withOutcome _ _).take _
    rw [hqueued]
    exact h.begun
  · show s.returned = (withOutcome _ _).take _
    rw [hqueued]
    exact h.returned
  · show s.ring.completedId = lastId ((withOutcome _ _).take _)
    rw [hqueued]
    exact h.completed

theorem room_of_not_noRoom (h : Inv s) (hroom : ¬noRoom s.ring.head s.ring.tail) :
    s.queued.length < s.taken + cmdRingCapacity := by
  have hle := h.taken_le
  have hroom' := h.room
  have hsub : s.ring.head - s.ring.tail = UInt64.ofNat (s.queued.length - s.taken) := by
    rw [h.head, h.tail, UInt64.ofNat_sub hle]
  have hcap : cmdRingCapacity = 64 := rfl
  rw [noRoom, hsub, UInt64.le_iff_toNat_le, UInt64.toNat_ofNat', UInt64.toNat_ofNat'] at hroom
  omega

theorem Inv.call (h : Inv s) (cmd : CmdEntry) : Inv (s.call cmd) := h.send_moves trivial

theorem Inv.giveUp (h : Inv s) : Inv s.giveUp := h.send_moves trivial

/-- The sender's side of the invariant, operation by operation. -/
theorem Inv.sender (h : Inv s) : Inv s.sender := by
  have hs := h.sending
  rw [CmdChannel.sender]
  cases hsend : s.send with
  | idle =>
    simp only [sendStep, SendPc.decides, List.append_nil]
    exact h.send_moves trivial
  | loadHead cmd =>
    simp only [sendStep, SendPc.decides, List.append_nil]
    exact h.send_moves rfl
  | loadTail cmd head =>
    rw [hsend] at hs
    obtain rfl : head = s.ring.head := hs
    simp only [sendStep, SendPc.decides, List.append_nil]
    by_cases hroom : noRoom s.ring.head s.ring.tail
    · rw [if_pos hroom]
      exact h.send_moves trivial
    · rw [if_neg hroom]
      exact h.send_moves ⟨rfl, room_of_not_noRoom h hroom, trivial⟩
  | drop cmd =>
    simp only [sendStep, SendPc.decides]
    exact h.drops cmd
  | storeId cmd head =>
    rw [hsend] at hs
    have hroom : s.HasRoom head fun _ => True := hs
    simp only [sendStep, SendPc.decides, List.append_nil]
    refine h.store_entry hroom _ ?_
    rintro t ⟨hhead, hlt, hentry⟩
    exact ⟨hhead, hlt, by rw [hentry]⟩
  | storeVerb cmd head =>
    rw [hsend] at hs
    have hroom : s.HasRoom head fun e => e.id = cmd.id := hs
    have hid := hroom.2.2
    simp only [sendStep, SendPc.decides, List.append_nil]
    refine h.store_entry hroom _ ?_
    rintro t ⟨hhead, hlt, hentry⟩
    exact ⟨hhead, hlt, by rw [hentry]; exact ⟨hid, rfl⟩⟩
  | storeArg cmd head =>
    rw [hsend] at hs
    have hroom : s.HasRoom head fun e => e.id = cmd.id ∧ e.verb = cmd.verb := hs
    obtain ⟨hid, hverb⟩ := hroom.2.2
    simp only [sendStep, SendPc.decides, List.append_nil]
    refine h.store_entry hroom _ ?_
    rintro t ⟨hhead, hlt, hentry⟩
    exact ⟨hhead, hlt, by rw [hentry, hid, hverb]⟩
  | storeHead cmd head =>
    rw [hsend] at hs
    simp only [sendStep, SendPc.decides]
    exact h.store_head hs
  | notify cmd | checkDeadline cmd =>
    rw [hsend] at hs
    simp only [sendStep, SendPc.decides, List.append_nil]
    exact h.send_moves hs
  | waitForVmm cmd =>
    rw [hsend] at hs
    simp only [sendStep, SendPc.decides, List.append_nil]
    by_cases hwait : s.ring.completedId < cmd.id
    · rw [if_pos hwait]
      exact h.send_moves hs
    · rw [if_neg hwait]
      exact h.send_moves trivial

/-! ## The receiver -/

/-- The receiver reads what was queued. -/
theorem Takes.entry {tail : UInt64} {P : CmdEntry → Prop} (ht : s.Takes tail P) (h : Inv s) :
    s.queued[s.taken]? = some (s.ring.entry tail) ∧ P (s.ring.entry tail) := by
  obtain ⟨rfl, cmd, hcmd, hP⟩ := ht
  have hlt := (List.getElem?_eq_some_iff.mp hcmd).1
  have hslot := h.window s.taken (Nat.le_refl _) hlt
  rw [← slot_ofNat, ← h.tail] at hslot
  obtain rfl : cmd = s.ring.entry s.ring.tail := Option.some.inj (hcmd.symm.trans hslot)
  exact ⟨hcmd, hP⟩

/-- A step of the receiver inside one phase of a command. -/
theorem Inv.run_moves (h : Inv s) {pc : RunPc} (hpc : s.Running pc)
    (hbegan : pc.began = s.run.began) (hleft : pc.left = s.run.left)
    (hcompleted : pc.completed = s.run.completed) : Inv { s with run := pc } := by
  refine { h with sending := ?_, running := ?_, begun := ?_, returned := ?_, completed := ?_ }
  · exact h.sending.frame rfl rfl rfl (Nat.le_refl _)
  · exact Running.frame hpc rfl rfl List.prefix_rfl
  · show s.begun = s.queued.take (s.taken + pc.began)
    rw [hbegan]
    exact h.begun
  · show s.returned = s.queued.take (s.taken + pc.left)
    rw [hleft]
    exact h.returned
  · show s.ring.completedId = lastId (s.queued.take (s.taken + pc.completed))
    rw [hcompleted]
    exact h.completed

/-- The commands up to and including the one the receiver is at. -/
theorem take_current {cmd : CmdEntry} (hcmd : s.queued[s.taken]? = some cmd) :
    s.queued.take (s.taken + 1) = s.queued.take s.taken ++ [cmd] := by
  rw [List.take_add_one, hcmd, Option.toList_some]

theorem Inv.begins (h : Inv s) {tail verb arg : UInt64} (hrun : s.run = .readId tail verb arg) :
    Inv { s with
      run := .running tail { id := (s.ring.entry tail).id, verb, arg }
      begun := s.begun ++ [{ id := (s.ring.entry tail).id, verb, arg }] } := by
  have hr := h.running
  rw [hrun] at hr
  obtain ⟨hcmd, hverb, harg⟩ := Takes.entry hr h
  have hread : ({ id := (s.ring.entry tail).id, verb, arg } : CmdEntry) = s.ring.entry tail := by
    rw [← hverb, ← harg]
  have hbegun := h.begun
  have hreturned := h.returned
  have hcompleted := h.completed
  rw [hrun] at hbegun hreturned hcompleted
  rw [hread]
  refine ⟨h.head, h.tail, h.taken_le, h.room, h.window, ?_, ?_, ?_, hreturned, hcompleted⟩
  · exact h.sending.frame rfl rfl rfl (Nat.le_refl _)
  · exact ⟨hr.1, _, hcmd, rfl⟩
  · show s.begun ++ _ = s.queued.take (s.taken + 1)
    rw [take_current hcmd, hbegun]
    rfl

theorem Inv.returns (h : Inv s) {tail : UInt64} {cmd : CmdEntry} (hrun : s.run = .running tail cmd) :
    Inv { s with run := .reloadId tail, returned := s.returned ++ [cmd] } := by
  have hr := h.running
  rw [hrun] at hr
  obtain ⟨htail, c, hcmd, rfl⟩ := hr
  have hbegun := h.begun
  have hreturned := h.returned
  have hcompleted := h.completed
  rw [hrun] at hbegun hreturned hcompleted
  refine ⟨h.head, h.tail, h.taken_le, h.room, h.window, ?_, ?_, hbegun, ?_, hcompleted⟩
  · exact h.sending.frame rfl rfl rfl (Nat.le_refl _)
  · exact ⟨htail, c, hcmd, trivial⟩
  · show s.returned ++ _ = s.queued.take (s.taken + 1)
    rw [take_current hcmd, hreturned]
    rfl

theorem Inv.completes (h : Inv s) {tail id : UInt64} (hrun : s.run = .storeCompleted tail id) :
    Inv { s with ring := { s.ring with completedId := id }, run := .storeTail tail } := by
  have hr := h.running
  rw [hrun] at hr
  obtain ⟨htail, cmd, hcmd, rfl⟩ := hr
  have hbegun := h.begun
  have hreturned := h.returned
  rw [hrun] at hbegun hreturned
  refine ⟨h.head, h.tail, h.taken_le, h.room, h.window, ?_, ?_, hbegun, hreturned, ?_⟩
  · exact h.sending.frame rfl rfl rfl (Nat.le_refl _)
  · exact ⟨htail, cmd, hcmd, trivial⟩
  · show cmd.id = lastId (s.queued.take (s.taken + 1))
    rw [take_current hcmd, lastId, List.getLast?_concat]
    rfl

/-- The store to `tail` frees the slot, after `completed_id` named its command. -/
theorem Inv.frees (h : Inv s) {tail : UInt64} (hrun : s.run = .storeTail tail) :
    Inv { s with
      ring := { s.ring with tail := tail + 1 }, run := .loadHead (tail + 1), taken := s.taken + 1 } := by
  have hr := h.running
  rw [hrun] at hr
  obtain ⟨rfl, cmd, hcmd, -⟩ := hr
  have hlt := (List.getElem?_eq_some_iff.mp hcmd).1
  have hroom := h.room
  have hbegun := h.begun
  have hreturned := h.returned
  have hcompleted := h.completed
  rw [hrun] at hbegun hreturned hcompleted
  refine ⟨h.head, ?_, hlt, ?_, h.window.advance (Nat.le_succ _), ?_, rfl, hbegun, hreturned,
    hcompleted⟩
  · show s.ring.tail + 1 = UInt64.ofNat (s.taken + 1)
    rw [h.tail, ofNat_succ]
  · show s.queued.length ≤ s.taken + 1 + cmdRingCapacity
    omega
  · exact h.sending.frame rfl rfl rfl (Nat.le_succ _)

theorem Inv.notified (h : Inv s) (hrun : s.run = .idle) : Inv s.notified :=
  h.run_moves trivial (by rw [hrun]; rfl) (by rw [hrun]; rfl) (by rw [hrun]; rfl)

/-- The receiver finds the ring empty exactly when every command is taken. -/
theorem empty_iff (h : Inv s) : s.ring.tail = s.ring.head ↔ s.taken = s.queued.length := by
  have hle := h.taken_le
  have hroom := h.room
  have hcap : cmdRingCapacity = 64 := rfl
  rw [h.tail, h.head, ← UInt64.toNat_inj, UInt64.toNat_ofNat', UInt64.toNat_ofNat']
  omega

theorem Inv.receiver (h : Inv s) : Inv s.receiver := by
  have hr := h.running
  rw [CmdChannel.receiver]
  cases hrun : s.run with
  | idle =>
    simp only [runStep, RunPc.begins, RunPc.returns, RunPc.frees, List.append_nil, Nat.add_zero]
    rw [← hrun]
    exact h
  | loadTail =>
    simp only [runStep, RunPc.begins, RunPc.returns, RunPc.frees, List.append_nil, Nat.add_zero]
    exact h.run_moves rfl (by rw [hrun]; rfl) (by rw [hrun]; rfl) (by rw [hrun]; rfl)
  | loadHead tail =>
    rw [hrun] at hr
    obtain rfl : tail = s.ring.tail := hr
    simp only [runStep, RunPc.begins, RunPc.returns, RunPc.frees, List.append_nil, Nat.add_zero]
    by_cases hempty : s.ring.tail = s.ring.head
    · rw [if_pos hempty]
      exact h.run_moves trivial (by rw [hrun]; rfl) (by rw [hrun]; rfl) (by rw [hrun]; rfl)
    · rw [if_neg hempty]
      have hne : s.taken ≠ s.queued.length := fun he => hempty ((empty_iff h).mpr he)
      have hle := h.taken_le
      have hcmd := List.getElem?_eq_getElem (l := s.queued) (i := s.taken) (by omega)
      exact h.run_moves ⟨rfl, _, hcmd, trivial⟩ (by rw [hrun]; rfl) (by rw [hrun]; rfl)
        (by rw [hrun]; rfl)
  | readVerb tail =>
    rw [hrun] at hr
    simp only [runStep, RunPc.begins, RunPc.returns, RunPc.frees, List.append_nil, Nat.add_zero]
    have hcmd := (Takes.entry hr h).1
    exact h.run_moves ⟨hr.1, _, hcmd, rfl⟩ (by rw [hrun]; rfl) (by rw [hrun]; rfl)
      (by rw [hrun]; rfl)
  | readArg tail verb =>
    rw [hrun] at hr
    simp only [runStep, RunPc.begins, RunPc.returns, RunPc.frees, List.append_nil, Nat.add_zero]
    obtain ⟨hcmd, hverb⟩ := Takes.entry hr h
    exact h.run_moves ⟨hr.1, _, hcmd, hverb, rfl⟩ (by rw [hrun]; rfl) (by rw [hrun]; rfl)
      (by rw [hrun]; rfl)
  | readId tail verb arg =>
    simp only [runStep, RunPc.begins, RunPc.returns, RunPc.frees, List.append_nil, Nat.add_zero]
    exact h.begins hrun
  | running tail cmd =>
    simp only [runStep, RunPc.begins, RunPc.returns, RunPc.frees, List.append_nil, Nat.add_zero]
    exact h.returns hrun
  | reloadId tail =>
    rw [hrun] at hr
    simp only [runStep, RunPc.begins, RunPc.returns, RunPc.frees, List.append_nil, Nat.add_zero]
    have hcmd := (Takes.entry hr h).1
    exact h.run_moves ⟨hr.1, _, hcmd, rfl⟩ (by rw [hrun]; rfl) (by rw [hrun]; rfl)
      (by rw [hrun]; rfl)
  | storeCompleted tail id =>
    simp only [runStep, RunPc.begins, RunPc.returns, RunPc.frees, List.append_nil, Nat.add_zero]
    exact h.completes hrun
  | storeTail tail =>
    simp only [runStep, RunPc.begins, RunPc.returns, RunPc.frees, List.append_nil]
    exact h.frees hrun

end CmdChannel
end Command
end TensorSel4
