/-
Every accepted command of the VMM's is queued or dropped, the queued ones run
once each and in order, and a wait that succeeds tells the truth.

The last part and the order of the ids need the ids to be distinct, so they hold
as long as fewer than 2^64 commands were received.
-/
import TensorSel4.Command.Host

namespace TensorSel4
namespace Command

open Bytes RingBuffer Trace Uartrx Vmm

/-- The command that `cmd_to_vmm` has not decided about yet. -/
def SendPc.pending : SendPc → List CmdEntry
  | .loadHead cmd | .loadTail cmd _ | .drop cmd | .storeId cmd _ | .storeVerb cmd _ |
    .storeArg cmd _ | .storeHead cmd _ => [cmd]
  | .idle | .notify _ | .waitForVmm _ | .checkDeadline _ => []

/-- A step of `cmd_to_vmm` keeps its command until it decides about it. -/
theorem SendPc.decides_pending (ring : CmdRing) (pc : SendPc) :
    pc.decides.map Prod.fst ++ (sendStep ring pc).2.pending = pc.pending := by
  cases pc with
  | loadTail cmd head =>
    show [] ++ (if noRoom head ring.tail then SendPc.drop cmd else .storeId cmd head).pending = [cmd]
    split
    · rfl
    · rfl
  | waitForVmm cmd =>
    show [] ++ (if ring.completedId < cmd.id then SendPc.checkDeadline cmd else .idle).pending = []
    split
    · rfl
    · rfl
  | _ => rfl

namespace HostState

/-- What one step can be. -/
inductive Moves (s : HostState) : Act → HostState → Prop
  | rx (e : RxEvent) (hsend : s.channel.send = .idle) (htodo : s.todo = []) :
      Moves s (.rx e) (s.rx e)
  | call {cmd : CmdEntry} {ops : List Op} (hsend : s.channel.send = .idle)
      (htodo : s.todo = .cmdToVmm cmd :: ops) : Moves s .uartrx (s.call cmd ops)
  | skip {op : Op} {ops : List Op} (hsend : s.channel.send = .idle) (htodo : s.todo = op :: ops)
      (hop : commandsOf [op] = []) : Moves s .uartrx (s.skip ops)
  | sender (hsend : s.channel.send ≠ .idle) : Moves s .uartrx s.sender
  | giveUp {cmd : CmdEntry} (crumb : VmmBreadcrumb) (hsend : s.channel.send = .checkDeadline cmd) :
      Moves s (.timeOut crumb) (s.giveUp cmd crumb)
  | notified (hrun : s.channel.run = .idle) :
      Moves s .notified { s with channel := s.channel.notified }
  | receiver (hrun : s.channel.run ≠ .idle) : Moves s .vmm { s with channel := s.channel.receiver }

theorem moves_of_step {s t : HostState} {a : Act} (h : s.step a = some t) : Moves s a t := by
  cases a with
  | rx e =>
    simp only [step] at h
    split at h
    · rename_i hsend htodo
      obtain rfl := Option.some.inj h
      exact .rx e hsend htodo
    · cases h
  | uartrx =>
    simp only [step] at h
    split at h
    · cases h
    · rename_i hsend htodo
      obtain rfl := Option.some.inj h
      exact .call hsend htodo
    · rename_i op ops hop hsend htodo
      obtain rfl := Option.some.inj h
      refine .skip hsend htodo ?_
      cases op with
      | cmdToVmm cmd => exact absurd rfl (hop cmd)
      | _ => rfl
    · rename_i hnil hcmd hcons
      obtain rfl := Option.some.inj h
      refine .sender fun hsend => ?_
      cases htodo : s.todo with
      | nil => exact hnil hsend htodo
      | cons op ops => exact hcons op ops hsend htodo
  | timeOut crumb =>
    simp only [step] at h
    split at h
    · rename_i cmd hsend
      obtain rfl := Option.some.inj h
      exact .giveUp crumb hsend
    · cases h
  | notified =>
    simp only [step] at h
    split at h
    · rename_i hrun
      obtain rfl := Option.some.inj h
      exact .notified hrun
    · cases h
  | vmm =>
    simp only [step] at h
    split at h
    · cases h
    · rename_i hrun
      obtain rfl := Option.some.inj h
      exact .receiver hrun

structure Inv (s : HostState) : Prop where
  channel : s.channel.Inv
  ran : s.uartrx.ran = (s.records.filter accepted).map commandOf
  account : s.channel.outcomes.map Prod.fst ++ (s.channel.send.pending ++ commandsOf s.todo) =
    s.uartrx.ran.filter forVmm

theorem inv_start (uart : UartConfig) : Inv { todo := uartrxInit uart } where
  channel := CmdChannel.inv_start
  ran := rfl
  account := by
    show [] ++ ([] ++ commandsOf (uartrxInit uart)) = []
    rw [(prints_uartrxInit uart).commandsOf_eq]
    rfl

variable {s t : HostState}

theorem Inv.rx (h : Inv s) (e : RxEvent) (hsend : s.channel.send = .idle) (htodo : s.todo = []) :
    Inv (s.rx e) := by
  have hrx := s.uartrx.rx_handled e
  have hold := h.account
  rw [hsend, htodo] at hold
  have hdone : s.channel.outcomes.map Prod.fst = s.uartrx.ran.filter forVmm := by
    rw [← hold]
    exact (List.append_nil _).symm
  refine ⟨h.channel, ?_, ?_⟩
  · show (s.uartrx.rx e).1.ran =
      ((s.records ++ recordsOf (s.uartrx.rx e).2).filter accepted).map commandOf
    rw [List.filter_append, List.map_append, ← h.ran, hrx.ran]
  · show s.channel.outcomes.map Prod.fst ++ (s.channel.send.pending ++ commandsOf (s.uartrx.rx e).2) =
      (s.uartrx.rx e).1.ran.filter forVmm
    rw [hsend, hdone, hrx.ran, List.filter_append, hrx.commands]
    rfl

/-- A step that changes neither what was accepted nor what is pending. -/
theorem Inv.moves (h : Inv s) {channel : CmdChannel} {todo : List Op} (hchannel : channel.Inv)
    (hmoves : channel.outcomes.map Prod.fst ++ (channel.send.pending ++ commandsOf todo) =
      s.channel.outcomes.map Prod.fst ++ (s.channel.send.pending ++ commandsOf s.todo)) :
    Inv { s with channel := channel, todo := todo } :=
  ⟨hchannel, h.ran, hmoves.trans h.account⟩

theorem Inv.step {a : Act} (h : Inv s) (hs : s.step a = some t) : Inv t := by
  cases moves_of_step hs with
  | rx e hsend htodo => exact h.rx e hsend htodo
  | @call cmd ops hsend htodo =>
    refine h.moves (h.channel.call cmd) ?_
    rw [hsend, htodo]
    rfl
  | @skip op ops hsend htodo hop =>
    refine h.moves h.channel ?_
    have hops : commandsOf s.todo = commandsOf ops := by
      rw [htodo, ← List.singleton_append, commandsOf_append, hop]
      rfl
    rw [hops]
  | sender hsend =>
    refine h.moves h.channel.sender ?_
    show (s.channel.outcomes ++ s.channel.send.decides).map Prod.fst ++
      ((sendStep s.channel.ring s.channel.send).2.pending ++
        commandsOf (s.channel.send.messages ++ s.todo)) = _
    rw [commandsOf_append, (SendPc.prints_messages _).commandsOf_eq, List.nil_append,
      List.map_append, ← s.channel.send.decides_pending s.channel.ring]
    simp only [List.append_assoc]
  | @giveUp cmd crumb hsend =>
    refine h.moves h.channel.giveUp ?_
    rw [hsend, commandsOf_append, (prints_reportUnfinished _ _).commandsOf_eq]
    rfl
  | notified hrun => exact h.moves (h.channel.notified hrun) rfl
  | receiver hrun => exact h.moves h.channel.receiver rfl

/-! ## Ids -/

/-- The last of a prefix of `cmds` is before the last of `cmds`, unless the
prefix is all of it. -/
theorem mem_take_of_lastId {cmds : List CmdEntry} {cmd : CmdEntry} {n : Nat}
    (hincreasing : cmds.Pairwise fun a b => a.id < b.id) (hlast : cmds.getLast? = some cmd)
    (hpos : 0 < cmd.id) (hle : ¬lastId (cmds.take n) < cmd.id) : cmd ∈ cmds.take n := by
  obtain ⟨init, rfl⟩ := List.getLast?_eq_some_iff.mp hlast
  rcases Nat.lt_or_ge init.length n with hlt | hge
  · have hall : (init ++ [cmd]).length ≤ n := by
      rw [List.length_append, List.length_singleton]
      exact hlt
    rw [List.take_of_length_le hall]
    simp
  · rw [List.take_append_of_le_length hge] at hle
    refine absurd ?_ hle
    rw [lastId]
    cases hget : (init.take n).getLast? with
    | none => exact hpos
    | some c =>
      have hmem : c ∈ init := List.mem_of_mem_take (List.mem_of_getLast? hget)
      exact (List.pairwise_append.mp hincreasing).2.2 c hmem cmd (List.mem_singleton.mpr rfl)

theorem queued_sublist (h : Inv s) : s.channel.queued.Sublist s.uartrx.ran := by
  have hqueued : s.channel.queued.Sublist (s.channel.outcomes.map Prod.fst) :=
    List.filter_sublist.map _
  have hdone : s.channel.outcomes.map Prod.fst <+: s.uartrx.ran.filter forVmm := ⟨_, h.account⟩
  exact (hqueued.trans hdone.sublist).trans List.filter_sublist

/-- What holds while the ids are distinct. -/
structure Distinct (s : HostState) : Prop where
  count : s.uartrx.commandsReceived = UInt64.ofNat s.records.length
  ids : ∀ cmd ∈ s.uartrx.ran, 0 < cmd.id ∧ cmd.id ≤ s.uartrx.commandsReceived
  increasing : s.uartrx.ran.Pairwise fun a b => a.id < b.id
  answered : ∀ cmd ∈ s.channel.answered, cmd ∈ s.channel.returned

theorem distinct_start (uart : UartConfig) : Distinct { todo := uartrxInit uart } where
  count := rfl
  ids := fun _ hcmd => absurd hcmd List.not_mem_nil
  increasing := .nil
  answered := fun _ hcmd => absurd hcmd List.not_mem_nil

theorem pairwise_of_length_le_one {cmds : List CmdEntry} {R : CmdEntry → CmdEntry → Prop}
    (h : cmds.length ≤ 1) : cmds.Pairwise R := by
  cases cmds with
  | nil => exact .nil
  | cons cmd rest =>
    cases rest with
    | nil => exact List.pairwise_singleton _ _
    | cons => simp at h

theorem Distinct.rx (h : Distinct s) (e : RxEvent) (hfew : (s.rx e).records.length < 2 ^ 64) :
    Distinct (s.rx e) := by
  have hrx := s.uartrx.rx_handled e
  have hlen : (s.rx e).records.length = s.records.length + (recordsOf (s.uartrx.rx e).2).length :=
    List.length_append
  have hcount : (s.uartrx.rx e).1.commandsReceived = UInt64.ofNat (s.rx e).records.length := by
    rw [hrx.count, h.count, hlen, UInt64.ofNat_add]
  have hle : s.uartrx.commandsReceived ≤ (s.uartrx.rx e).1.commandsReceived := by
    rw [hcount, h.count, UInt64.le_iff_toNat_le, UInt64.toNat_ofNat', UInt64.toNat_ofNat']
    omega
  have hnew : ∀ cmd ∈ ((recordsOf (s.uartrx.rx e).2).filter accepted).map commandOf,
      cmd.id = (s.uartrx.rx e).1.commandsReceived ∧
        s.uartrx.commandsReceived < (s.uartrx.rx e).1.commandsReceived := by
    intro cmd hcmd
    obtain ⟨rec, hrec, rfl⟩ := List.mem_map.mp hcmd
    have hmem := List.mem_of_mem_filter hrec
    refine ⟨hrx.value.2 rec hmem, ?_⟩
    have hpos := List.length_pos_of_mem hmem
    rw [hcount, h.count, UInt64.lt_iff_toNat_lt, UInt64.toNat_ofNat', UInt64.toNat_ofNat']
    omega
  refine ⟨hcount, ?_, ?_, h.answered⟩
  · show ∀ cmd ∈ (s.uartrx.rx e).1.ran, 0 < cmd.id ∧ cmd.id ≤ (s.uartrx.rx e).1.commandsReceived
    intro cmd hcmd
    rw [hrx.ran] at hcmd
    rcases List.mem_append.mp hcmd with hcmd | hcmd
    · exact ⟨(h.ids cmd hcmd).1, UInt64.le_trans (h.ids cmd hcmd).2 hle⟩
    · obtain ⟨hid, hlt⟩ := hnew cmd hcmd
      rw [hid]
      exact ⟨UInt64.lt_of_le_of_lt UInt64.zero_le hlt, UInt64.le_refl _⟩
  · show (s.uartrx.rx e).1.ran.Pairwise _
    rw [hrx.ran]
    refine List.pairwise_append.mpr ⟨h.increasing, ?_, ?_⟩
    · have hone : (((recordsOf (s.uartrx.rx e).2).filter accepted).map commandOf).length ≤ 1 := by
        rw [List.length_map]
        exact Nat.le_trans (List.length_filter_le _ _) hrx.value.1
      exact pairwise_of_length_le_one hone
    · intro a ha b hb
      obtain ⟨hid, hlt⟩ := hnew b hb
      rw [hid]
      exact UInt64.lt_of_le_of_lt (h.ids a ha).2 hlt

/-- A step that receives no byte. -/
theorem Distinct.moves (h : Distinct s) {channel : CmdChannel} {todo : List Op}
    (hanswered : ∀ cmd ∈ channel.answered, cmd ∈ channel.returned) :
    Distinct { s with channel := channel, todo := todo } :=
  ⟨h.count, h.ids, h.increasing, hanswered⟩

/-- A wait succeeds only for a command that `run_command` has returned from. -/
theorem Distinct.sender (h : Distinct s) (hinv : Inv s) : Distinct s.sender := by
  refine h.moves fun cmd hcmd => ?_
  rcases List.mem_append.mp hcmd with hcmd | hcmd
  · exact h.answered cmd hcmd
  cases hsend : s.channel.send with
  | waitForVmm c =>
    have hlast : s.channel.queued.getLast? = some c := by
      have hsending := hinv.channel.sending
      rw [hsend] at hsending
      exact hsending
    rw [hsend, SendPc.answers] at hcmd
    split at hcmd
    · exact absurd hcmd List.not_mem_nil
    rename_i hle
    obtain rfl := List.mem_singleton.mp hcmd
    have hmem : cmd ∈ s.uartrx.ran :=
      (queued_sublist hinv).subset (List.mem_of_getLast? hlast)
    rw [hinv.channel.completed] at hle
    have htake := mem_take_of_lastId (h.increasing.sublist (queued_sublist hinv)) hlast
      (h.ids cmd hmem).1 hle
    show cmd ∈ s.channel.returned
    rw [hinv.channel.returned]
    refine List.take_subset_take_left _ ?_ htake
    have hcompleted := s.channel.run.completed_le
    omega
  | _ =>
    rw [hsend] at hcmd
    exact absurd hcmd List.not_mem_nil

theorem Distinct.step {a : Act} (h : Distinct s) (hinv : Inv s) (hs : s.step a = some t)
    (hfew : t.records.length < 2 ^ 64) : Distinct t := by
  cases moves_of_step hs with
  | rx e hsend htodo => exact h.rx e hfew
  | call hsend htodo => exact h.moves h.answered
  | skip hsend htodo hop => exact h.moves h.answered
  | sender hsend => exact h.sender hinv
  | giveUp crumb hsend => exact h.moves h.answered
  | notified hrun => exact h.moves h.answered
  | receiver hrun =>
    refine h.moves fun cmd hcmd => ?_
    exact List.mem_append_left _ (h.answered cmd hcmd)

theorem inv_of_reachable {uart : UartConfig} (hs : (host uart).Reachable s) : Inv s :=
  Automaton.reachable_induction (inv_start uart) (fun _ _ _ hI ht => hI.step ht) hs

theorem records_le {a : Act} (hs : s.step a = some t) : s.records.length ≤ t.records.length := by
  cases moves_of_step hs with
  | rx e hsend htodo =>
    show _ ≤ (s.records ++ _).length
    rw [List.length_append]
    exact Nat.le_add_right _ _
  | _ => exact Nat.le_refl _

theorem distinct_of_reachable {uart : UartConfig} (hs : (host uart).Reachable s)
    (hfew : s.records.length < 2 ^ 64) : Distinct s := by
  have hboth : Inv s ∧ Distinct s := by
    refine Automaton.reachable_induction_guarded (G := fun s => s.records.length < 2 ^ 64)
      (I := fun s => Inv s ∧ Distinct s) ?_ ⟨inv_start uart, distinct_start uart⟩ ?_ hs hfew
    · intro s a t ht hG
      exact Nat.lt_of_le_of_lt (records_le ht) hG
    · rintro s a t ⟨hI, hD⟩ hG ht
      exact ⟨hI.step ht, hD.step hI ht hG⟩
  exact hboth.2

theorem reported_of_dropped (hdropped : s.sender.channel.dropped ≠ s.channel.dropped) :
    s.sender.todo = reportDropped ++ s.todo := by
  have hgrows : s.sender.channel.dropped =
      s.channel.dropped ++ withOutcome .dropped s.channel.send.decides := withOutcome_append _ _ _
  show s.channel.send.messages ++ s.todo = _
  cases hsend : s.channel.send with
  | drop cmd => rfl
  | _ =>
    rw [hsend] at hgrows
    exact absurd (hgrows.trans (List.append_nil _)) hdropped

/-! ## The command ring -/

/-- The receiver runs a prefix of what was queued, each command once and as it
was written, and all of it once the ring is empty; an entry stays in its slot
until the slot is freed, which is after its command returned.  What has become
of the accepted commands of the VMM's, and those still on their way to the ring,
are all of them.  While the ids are distinct they increase, and a wait that
succeeded was for a command that had returned. -/
theorem delivery {uart : UartConfig} (hs : (host uart).Reachable s) :
    (s.channel.begun <+: s.channel.queued ∧ s.channel.returned <+: s.channel.begun ∧
      s.channel.begun.length ≤ s.channel.returned.length + 1 ∧
      (s.channel.ring.tail = s.channel.ring.head → s.channel.returned = s.channel.queued)) ∧
    (Window cmdRingCapacity s.channel.ring.entries s.channel.queued s.channel.taken ∧
      s.channel.taken ≤ s.channel.returned.length) ∧
    s.channel.outcomes.map Prod.fst ++ (s.channel.send.pending ++ commandsOf s.todo) =
      ((s.records.filter accepted).map commandOf).filter forVmm ∧
    (∀ a t, s.step a = some t → t.channel.dropped ≠ s.channel.dropped →
      t.todo = reportDropped ++ s.todo) ∧
    (s.records.length < 2 ^ 64 →
      (s.channel.queued.Pairwise fun a b => a.id < b.id) ∧
        ∀ cmd ∈ s.channel.answered, cmd ∈ s.channel.returned) := by
  have h := inv_of_reachable hs
  have hleft := s.channel.run.left_le
  have hbegan := h.channel.running.began_le h.channel.taken_le
  have htaken := h.channel.taken_le
  refine ⟨⟨?_, ?_, ?_, ?_⟩, ⟨h.channel.window, ?_⟩, ?_, ?_, ?_⟩
  · rw [h.channel.begun]
    exact List.take_prefix _ _
  · rw [h.channel.begun, h.channel.returned]
    exact List.take_prefix_take_left (by omega)
  · have hone : s.channel.run.began ≤ 1 := s.channel.run.began_le_one
    rw [h.channel.begun, h.channel.returned, List.length_take, List.length_take]
    omega
  · intro hempty
    rw [h.channel.returned]
    have hall := (CmdChannel.empty_iff h.channel).mp hempty
    exact List.take_of_length_le (by omega)
  · rw [h.channel.returned, List.length_take]
    omega
  · rw [← h.ran]
    exact h.account
  · intro a t ht hdropped
    cases moves_of_step ht with
    | sender hsend => exact reported_of_dropped hdropped
    | _ => exact absurd rfl hdropped
  · intro hfew
    have hdistinct := distinct_of_reachable hs hfew
    exact ⟨hdistinct.increasing.sublist (queued_sublist h), hdistinct.answered⟩

/-! ## Runs to a prompt -/

/-- uartrx carries out operations on the other rings. -/
theorem reaches_skip {uart : UartConfig} {ops more : List Op} (hops : commandsOf ops = [])
    (hsend : s.channel.send = .idle) (htodo : s.todo = ops ++ more) :
    (host uart).Reaches s (List.replicate ops.length .uartrx) (s.skip more) := by
  induction ops generalizing s with
  | nil => exact (Automaton.reaches_nil _).mpr (by rw [skip, ← List.nil_append more, ← htodo])
  | cons op ops ih =>
    have hop : commandsOf [op] = [] ∧ commandsOf ops = [] := by
      rw [← List.singleton_append, commandsOf_append] at hops
      exact List.append_eq_nil_iff.mp hops
    have hstep : s.step .uartrx = some (s.skip (ops ++ more)) := by
      simp only [step, hsend, htodo, List.cons_append]
      cases op with
      | cmdToVmm cmd => exact absurd hop.1 (List.cons_ne_nil _ _)
      | _ => rfl
    exact (Automaton.reaches_cons _).mpr ⟨_, hstep, ih hop.2 hsend rfl⟩

theorem reachable_started (uart : UartConfig) : (host uart).Reachable {} :=
  ⟨_, reaches_skip (prints_uartrxInit uart).commandsOf_eq rfl (List.append_nil _).symm⟩

/-- uartrx waits for the next byte of a line, the ring was never used, and `k`
commands were received. -/
structure Typing (line : List UInt8) (k : Nat) (s : HostState) : Prop where
  line : s.uartrx.line = line
  todo : s.todo = []
  channel : s.channel = {}
  records : s.records.length = k
  count : s.uartrx.commandsReceived = UInt64.ofNat k

variable {uart : UartConfig} {line line' : List UInt8} {k : Nat}

/-- A byte is received, and the operations before the command it queues are
carried out. -/
theorem reachable_rx (hr : (host uart).Reachable s) (h : Typing line k s) (e : RxEvent)
    {ops more : List Op} (hops : (s.uartrx.rx e).2 = ops ++ more) (hnone : commandsOf ops = []) :
    (host uart).Reachable ((s.rx e).skip more) := by
  have hstep : (host uart).step s (.rx e) = some (s.rx e) := by
    show s.step (.rx e) = _
    simp only [step, h.todo, h.channel]
  have hsend : (s.rx e).channel.send = .idle := by
    show s.channel.send = .idle
    rw [h.channel]
  exact (hr.step hstep).reaches (reaches_skip hnone hsend hops)

/-- A byte that queues no command. -/
theorem reachable_byte {e : RxEvent} {recs : List TraceRecord} (hr : (host uart).Reachable s)
    (h : Typing line k s)
    (hrec : UartrxState.Records s.uartrx (s.uartrx.rx e).1 (s.uartrx.rx e).2 recs)
    (hline : (s.uartrx.rx e).1.line = line') (hnone : ∀ rec ∈ recs, accepted rec = false) :
    ∃ t, (host uart).Reachable t ∧ Typing line' (k + recs.length) t := by
  have hcommands : commandsOf (s.uartrx.rx e).2 = [] := by
    have hnil : recs.filter accepted = [] := by
      rw [List.filter_eq_nil_iff]
      intro rec hmem
      rw [hnone rec hmem]
      exact Bool.false_ne_true
    rw [(s.uartrx.rx_handled e).commands, hrec.records, hnil]
    rfl
  refine ⟨_, reachable_rx hr h e (List.append_nil _).symm hcommands, hline, rfl, h.channel, ?_, ?_⟩
  · show (s.records ++ recordsOf (s.uartrx.rx e).2).length = _
    rw [hrec.records, List.length_append, h.records]
  · show (s.uartrx.rx e).1.commandsReceived = _
    rw [hrec.commandsReceived, h.count, UInt64.ofNat_add]

theorem reachable_chars (cs : List UInt8) (hr : (host uart).Reachable s) (h : Typing line k s)
    (hcs : ∀ c ∈ cs, 0x20 ≤ c ∧ c < 0x7f) (hroom : line.length + cs.length ≤ Uartrx.lineMax) :
    ∃ t, (host uart).Reachable t ∧ Typing (line ++ cs) k t := by
  induction cs generalizing s line with
  | nil =>
    rw [List.append_nil]
    exact ⟨s, hr, h⟩
  | cons c cs ih =>
    rw [List.length_cons] at hroom
    have hlt : s.uartrx.line.length < Uartrx.lineMax := by
      rw [h.line]
      omega
    obtain ⟨hrec, hline, -⟩ := s.uartrx.rx_char (e := { byte := c }) (hcs c List.mem_cons_self) hlt
    rw [h.line] at hline
    obtain ⟨m, hm, hmid⟩ := reachable_byte hr h hrec hline
      fun rec hmem => absurd hmem List.not_mem_nil
    obtain ⟨t, ht, hend⟩ := ih hm hmid (fun d hd => hcs d (List.mem_cons_of_mem c hd)) (by
      rw [List.length_append, List.length_singleton]
      omega)
    rw [List.append_assoc] at hend
    exact ⟨t, ht, hend⟩

/-- Any number of lines with an unknown command. -/
theorem reachable_unknowns (uart : UartConfig) (k : Nat) :
    ∃ t, (host uart).Reachable t ∧ Typing [] k t := by
  induction k with
  | zero => exact ⟨{}, reachable_started uart, rfl, rfl, rfl, rfl, rfl⟩
  | succ k ih =>
    obtain ⟨s, hs, hprompt⟩ := ih
    obtain ⟨m, hm, hmid⟩ := reachable_chars [0x78] hs hprompt
      (List.all_iff_forall_prop.mp (by decide)) (by decide)
    have hended := m.uartrx.rx_eol (e := { byte := 0x0d }) (Or.inl rfl)
    have hrecs : UartrxState.recordsOfLine m.uartrx.commandsReceived m.uartrx.line =
        [Pipeline.recordCommand cmdVerbNone (m.uartrx.commandsReceived + 1) cmdRejectedVerb 0] := by
      rw [hmid.line]
      rfl
    have hrec := hended.toRecords
    rw [hrecs] at hrec
    refine reachable_byte hm hmid hrec hended.line ?_
    intro rec hmem
    rw [List.mem_singleton.mp hmem]
    rfl

theorem split_at_command {ops : List Op} {cmd : CmdEntry} (h : commandsOf ops = [cmd]) :
    ∃ before after, ops = before ++ .cmdToVmm cmd :: after ∧ commandsOf before = [] := by
  obtain ⟨before, op, after, hops, hbefore, hop, -⟩ := List.filterMap_eq_cons_iff.mp h
  refine ⟨before, after, ?_, List.filterMap_eq_nil_iff.mpr hbefore⟩
  cases op with
  | cmdToVmm c =>
    obtain rfl : c = cmd := Option.some.inj hop
    exact hops
  | _ => exact absurd hop (Option.some_ne_none _).symm

/-- The line `status`, up to the call of `cmd_to_vmm`. -/
theorem reachable_status (uart : UartConfig) (k : Nat) :
    ∃ t, (host uart).Reachable t ∧ t.records.length = k + 1 ∧
      t.channel = ({} : CmdChannel).call
        { id := UInt64.ofNat (k + 1), verb := cmdVerbStatus, arg := 0 } := by
  obtain ⟨s, hs, hprompt⟩ := reachable_unknowns uart k
  obtain ⟨m, hm, hmid⟩ := reachable_chars (ascii "status") hs hprompt
      (List.all_iff_forall_prop.mp (by decide)) (by decide)
  have hrecs : recordsOf (m.uartrx.rx { byte := 0x0d }).2 =
      [Pipeline.recordCommand cmdVerbStatus (m.uartrx.commandsReceived + 1) cmdAccepted 0] := by
    have hended := m.uartrx.rx_eol (e := { byte := 0x0d }) (Or.inl rfl)
    rw [hended.records, hmid.line]
    rfl
  have hcommands : commandsOf (m.uartrx.rx { byte := 0x0d }).2 =
      [{ id := UInt64.ofNat (k + 1), verb := cmdVerbStatus, arg := 0 }] := by
    rw [(m.uartrx.rx_handled _).commands, hrecs, hmid.count, ofNat_succ]
    rfl
  obtain ⟨before, after, hops, hbefore⟩ := split_at_command hcommands
  have hcall : (host uart).step ((m.rx { byte := 0x0d }).skip (.cmdToVmm
      { id := UInt64.ofNat (k + 1), verb := cmdVerbStatus, arg := 0 } :: after)) .uartrx =
      some ((m.rx { byte := 0x0d }).call
        { id := UInt64.ofNat (k + 1), verb := cmdVerbStatus, arg := 0 } after) := by
    show HostState.step _ .uartrx = _
    simp only [step, skip, rx, hmid.channel]
    rfl
  refine ⟨_, (reachable_rx hm hmid _ hops hbefore).step hcall, ?_, ?_⟩
  · show (m.records ++ recordsOf (m.uartrx.rx { byte := 0x0d }).2).length = k + 1
    rw [hrecs, List.length_append, hmid.records]
    rfl
  · show m.channel.call _ = _
    rw [hmid.channel]

/-- The VMM runs the one command, and then the wait for it succeeds. -/
theorem delivery_status : ∃ t, (host {}).Reachable t ∧ t.channel.answered.length = 1 ∧
    ∀ cmd ∈ t.channel.answered, cmd ∈ t.channel.returned := by
  obtain ⟨⟨u, todo, channel, records⟩, hs, hlen, rfl⟩ := reachable_status {} 0
  have hrun : ∃ t : HostState, (host {}).run
      { uartrx := u, todo := todo, records := records,
        channel := ({} : CmdChannel).call { id := 1, verb := cmdVerbStatus, arg := 0 } }
      (List.replicate 7 .uartrx ++ .notified :: List.replicate 10 .vmm ++ [.uartrx]) = some t ∧
      t.records = records ∧ t.channel.answered.length = 1 := by
    with_unfolding_all exact ⟨_, rfl, rfl, rfl⟩
  obtain ⟨t, ht, hrecords, hone⟩ := hrun
  have hfew : t.records.length < 2 ^ 64 := by
    rw [hrecords, hlen]
    decide
  exact ⟨t, hs.reaches ht, hone, ((delivery (hs.reaches ht)).2.2.2.2 hfew).2⟩

/-- After 2^64 - 1 other commands the id is zero, and the wait for it succeeds
before the VMM has looked at the ring. -/
theorem wrapped_id_answered : ∃ t, (host {}).Reachable t ∧
    ¬∀ cmd ∈ t.channel.answered, cmd ∈ t.channel.returned := by
  obtain ⟨⟨u, todo, channel, records⟩, hs, -, rfl⟩ := reachable_status {} (2 ^ 64 - 1)
  have hid : UInt64.ofNat (2 ^ 64 - 1 + 1) = 0 := rfl
  rw [hid] at hs
  have hrun : ∃ t : HostState, (host {}).run
      { uartrx := u, todo := todo, records := records,
        channel := ({} : CmdChannel).call { id := 0, verb := cmdVerbStatus, arg := 0 } }
      (List.replicate 8 .uartrx) = some t ∧
      t.channel.answered = [{ id := 0, verb := cmdVerbStatus, arg := 0 }] ∧
      t.channel.returned = [] := by
    with_unfolding_all exact ⟨_, rfl, rfl, rfl⟩
  obtain ⟨t, ht, hanswered, hreturned⟩ := hrun
  refine ⟨t, hs.reaches ht, fun hall => ?_⟩
  rw [hanswered, hreturned] at hall
  exact absurd (hall _ List.mem_cons_self) List.not_mem_nil

end HostState
end Command
end TensorSel4
