/-
What a start clears, and what it does not.

A history is the VMM with its guest's RAM: commands, exits, and the guest's own
stores.  Every successful `guest-start` gives the vCPU the same RAM and
registers, whatever came before.  The one thing that survives is the unfinished
line in the UART emulation, which no start resets: `runs_do_not_leak_iff` says
that the lines of two runs agree exactly when the lines they found did.
-/
import TensorSel4.Vmm.Boot
import TensorSel4.Vmm.GuestImage

namespace TensorSel4
namespace Vmm

open Command

namespace ExynosUartEmul

/-! ## The lines that bytes print -/

/-- What `bytes` add to the lines printed. -/
def linesOf (u : ExynosUartEmul) (bytes : List UInt8) : List (List UInt8) :=
  (bytes.foldl consolePutc u).printed.drop u.printed.length

/-- The unfinished lines are as long, and print the same. -/
structure SameLine (u v : ExynosUartEmul) : Prop where
  length : u.line.length = v.line.length
  shown : u.line.takeWhile (· ≠ 0) = v.line.takeWhile (· ≠ 0)

/-- The lines that one byte prints. -/
def putLines (u : ExynosUartEmul) (c : UInt8) : List (List UInt8) :=
  if c = 0x0d then []
  else if c = 0x0a ∨ u.line.length = consoleLineMax - 1 then [guestLine u.line]
  else []

theorem consolePutc_printed (u : ExynosUartEmul) (c : UInt8) :
    (u.consolePutc c).printed = u.printed ++ u.putLines c := by
  unfold consolePutc putLines
  by_cases hcr : c = 0x0d
  · rw [if_pos hcr, if_pos hcr, List.append_nil]
  rw [if_neg hcr, if_neg hcr]
  by_cases hnl : c = 0x0a
  · rw [if_pos hnl, if_pos (Or.inl hnl)]
    rfl
  rw [if_neg hnl]
  by_cases hfull : u.line.length = consoleLineMax - 1
  · rw [dif_pos hfull, if_pos (Or.inr hfull)]
    rfl
  · rw [dif_neg hfull, if_neg (not_or.mpr ⟨hnl, hfull⟩), List.append_nil]
    rfl

/-- The unfinished line after one byte. -/
def lineAfter (u : ExynosUartEmul) (c : UInt8) : List UInt8 :=
  if c = 0x0d then u.line
  else if c = 0x0a then []
  else if u.line.length = consoleLineMax - 1 then [c]
  else u.line ++ [c]

theorem consolePutc_line (u : ExynosUartEmul) (c : UInt8) :
    (u.consolePutc c).line = u.lineAfter c := by
  unfold consolePutc lineAfter
  split_ifs <;> rfl

theorem foldl_printed (u : ExynosUartEmul) (bytes : List UInt8) :
    (bytes.foldl consolePutc u).printed = u.printed ++ u.linesOf bytes := by
  have hgrows : u.printed <+: (bytes.foldl consolePutc u).printed := by
    induction bytes generalizing u with
    | nil => exact List.prefix_rfl
    | cons c bytes ih =>
      have hput : u.printed <+: (u.consolePutc c).printed := by
        rw [consolePutc_printed]
        exact List.prefix_append _ _
      exact hput.trans (ih (u.consolePutc c))
  exact (List.prefix_iff_eq_append.mp hgrows).symm

theorem linesOf_nil (u : ExynosUartEmul) : u.linesOf [] = [] := List.drop_length

theorem linesOf_append (u : ExynosUartEmul) (bytes more : List UInt8) :
    u.linesOf (bytes ++ more) = u.linesOf bytes ++ (bytes.foldl consolePutc u).linesOf more := by
  have h := foldl_printed u (bytes ++ more)
  rw [List.foldl_append, foldl_printed, foldl_printed u bytes, List.append_assoc] at h
  exact (List.append_cancel_left h).symm

theorem linesOf_cons (u : ExynosUartEmul) (c : UInt8) (bytes : List UInt8) :
    u.linesOf (c :: bytes) = u.putLines c ++ (u.consolePutc c).linesOf bytes := by
  have h := linesOf_append u [c] bytes
  have hone := foldl_printed u [c]
  rw [List.foldl_cons, List.foldl_nil, consolePutc_printed] at hone
  rw [List.append_cancel_left hone]
  exact h

/-! ## Two lines that print the same -/

theorem takeWhile_append_congr {α : Type} {p : α → Bool} {as bs : List α}
    (hlen : as.length = bs.length) (h : as.takeWhile p = bs.takeWhile p) (cs : List α) :
    (as ++ cs).takeWhile p = (bs ++ cs).takeWhile p := by
  rw [List.takeWhile_append, List.takeWhile_append, h, hlen]
  by_cases hall : (bs.takeWhile p).length = bs.length
  · rw [if_pos hall, if_pos hall]
    have hbs : bs.takeWhile p = bs := (List.takeWhile_prefix p).eq_of_length hall
    have has : as.takeWhile p = as :=
      (List.takeWhile_prefix p).eq_of_length (by rw [h, hall, hlen])
    rw [← has, h, hbs]
  · rw [if_neg hall, if_neg hall]

theorem SameLine.consolePutc {u v : ExynosUartEmul} (h : SameLine u v) (c : UInt8) :
    SameLine (u.consolePutc c) (v.consolePutc c) := by
  have hlen := h.length
  have hshown := h.shown
  constructor
  · rw [consolePutc_line, consolePutc_line, lineAfter, lineAfter, hlen]
    split_ifs
    · exact hlen
    · rfl
    · rfl
    · rw [List.length_append, List.length_append, hlen]
  · rw [consolePutc_line, consolePutc_line, lineAfter, lineAfter, hlen]
    split_ifs
    · exact hshown
    · rfl
    · rfl
    · exact takeWhile_append_congr hlen hshown [c]

theorem SameLine.putLines {u v : ExynosUartEmul} (h : SameLine u v) (c : UInt8) :
    u.putLines c = v.putLines c := by
  have hline : guestLine u.line = guestLine v.line := by
    rw [guestLine, guestLine, h.shown]
  rw [ExynosUartEmul.putLines, ExynosUartEmul.putLines, h.length, hline]

theorem SameLine.linesOf {u v : ExynosUartEmul} (h : SameLine u v) (bytes : List UInt8) :
    u.linesOf bytes = v.linesOf bytes := by
  induction bytes generalizing u v with
  | nil => rw [linesOf_nil, linesOf_nil]
  | cons c bytes ih => rw [linesOf_cons, linesOf_cons, h.putLines c, ih (h.consolePutc c)]

/-- Bytes that still fit in the line print nothing. -/
theorem linesOf_fits (u : ExynosUartEmul) (n : Nat) (hn : u.line.length + n < consoleLineMax) :
    u.linesOf (List.replicate n 0x78) = [] ∧
      ((List.replicate n 0x78).foldl consolePutc u).line.length = u.line.length + n := by
  induction n with
  | zero => exact ⟨linesOf_nil u, rfl⟩
  | succ n ih =>
    obtain ⟨hlines, hlen⟩ := ih (by omega)
    have hroom : ((List.replicate n 0x78).foldl consolePutc u).line.length ≠
        consoleLineMax - 1 := by omega
    have hcr : (0x78 : UInt8) ≠ 0x0d := by decide
    have hnl : (0x78 : UInt8) ≠ 0x0a := by decide
    rw [List.replicate_succ', linesOf_append, hlines, linesOf_cons, linesOf_nil, putLines,
      if_neg hcr, if_neg (not_or.mpr ⟨hnl, hroom⟩)]
    refine ⟨rfl, ?_⟩
    rw [List.foldl_append, List.foldl_cons, List.foldl_nil, consolePutc_line, lineAfter,
      if_neg hcr, if_neg hnl, if_neg hroom, List.length_append, hlen]
    rfl

/-- The byte that no longer fits prints the line. -/
theorem linesOf_overflows (u : ExynosUartEmul) :
    u.linesOf (List.replicate (consoleLineMax - u.line.length) 0x78) ≠ [] := by
  have hbound := u.bounded
  obtain ⟨n, hn⟩ : ∃ n, consoleLineMax - u.line.length = n + 1 :=
    ⟨consoleLineMax - 1 - u.line.length, by simp only [consoleLineMax] at *; omega⟩
  obtain ⟨hlines, hlen⟩ := linesOf_fits u n (by omega)
  have hfull : ((List.replicate n 0x78).foldl consolePutc u).line.length =
      consoleLineMax - 1 := by omega
  rw [hn, List.replicate_succ', linesOf_append, linesOf_cons, putLines, if_neg (by decide),
    if_pos (Or.inr hfull), hlines]
  exact List.cons_ne_nil _ _

theorem length_le_of_linesOf {u v : ExynosUartEmul}
    (h : ∀ bytes, u.linesOf bytes = v.linesOf bytes) : v.line.length ≤ u.line.length := by
  by_contra hlt
  have hfits := linesOf_fits u (consoleLineMax - v.line.length) (by
    have hbound := v.bounded
    simp only [consoleLineMax] at *
    omega)
  exact linesOf_overflows v ((h _).symm.trans hfits.1)

/-- Two consoles print the same lines whatever is written, exactly when their
unfinished lines print the same. -/
theorem linesOf_eq_iff (u v : ExynosUartEmul) :
    (∀ bytes, u.linesOf bytes = v.linesOf bytes) ↔ SameLine u v := by
  refine ⟨fun h => ?_, fun h bytes => h.linesOf bytes⟩
  have hlen : u.line.length = v.line.length :=
    Nat.le_antisymm (length_le_of_linesOf fun bytes => (h bytes).symm) (length_le_of_linesOf h)
  have hflush := h [0x0a]
  rw [linesOf_cons, linesOf_cons, linesOf_nil, linesOf_nil, List.append_nil,
    List.append_nil] at hflush
  have hline : guestLine u.line = guestLine v.line := List.singleton_inj.mp hflush
  exact ⟨hlen, List.append_cancel_left hline⟩

end ExynosUartEmul

/-! ## The VMM with its guest's RAM -/

variable {b : HostedBuild}

structure Hosted (b : HostedBuild) where
  vmm : VmmState := {}
  ram : GuestRam b.ramSize := zeroGuestRam b.ramSize

inductive HostedEvent (b : HostedBuild)
  | command (cmd : CmdEntry) (write : SeL4Result Unit)
  | exit (vcpu : Nat) (f : Fault) (env : CallEnv)
  /-- The guest's own stores, which need no exit, leave `ram`. -/
  | stores (ram : GuestRam b.ramSize)

namespace Hosted

/-- The command gets as far as `guest_image_load`. -/
def loads (s : Hosted b) (cmd : CmdEntry) : Prop :=
  cmd.verb = cmdVerbGuestStart ∧ s.vmm.state ≠ .running ∧
    (guestSelectVcpu cmd.arg).toNat < b.numVcpus

instance (s : Hosted b) (cmd : CmdEntry) : Decidable (s.loads cmd) :=
  inferInstanceAs (Decidable (_ ∧ _ ∧ _))

def runCommand (s : Hosted b) (cmd : CmdEntry) (write : SeL4Result Unit) : Hosted b :=
  let loaded := b.guestImageLoad s.ram cmd.arg
  { vmm := s.vmm.runCommand b.toBuild cmd { load := loaded.2, write }
    ram := if s.loads cmd then loaded.1 else s.ram }

def step (s : Hosted b) : HostedEvent b → Option (Hosted b)
  | .command cmd write => some (s.runCommand cmd write)
  | .exit vcpu f env => (s.vmm.step b.toBuild (.exit vcpu f env)).map fun vmm => { s with vmm }
  | .stores ram => some { s with ram }

end Hosted

def hosted (b : HostedBuild) : Automaton (Hosted b) (HostedEvent b) where
  start := {}
  step := Hosted.step

/-- The history `es` reaches `s`, and the `guest-start` of `select` that comes
next succeeds and leaves `t`. -/
structure StartHistory (b : HostedBuild) (select : UInt64) (es : List (HostedEvent b))
    (s t : Hosted b) : Prop where
  reaches : (hosted b).Reaches (hosted b).start es s
  starts : ∃ id write, s.step (.command { id, verb := cmdVerbGuestStart, arg := select } write) =
    some t
  stopped : s.vmm.state ≠ .running
  running : t.vmm.state = .running

/-- The calls made from `s` to `t`. -/
def callsSince (s t : VmmState) : List Call := t.calls.drop s.calls.length

/-- Two starts give the guest the same RAM and the same registers. -/
structure SameGuest (select : UInt64) (s₁ t₁ s₂ t₂ : Hosted b) : Prop where
  ram : t₁.ram = t₂.ram
  vcpu : ∃ boot, callsSince s₁.vmm t₁.vmm = bootCalls (guestSelectVcpu select).toNat boot (.ok ()) ∧
    callsSince s₂.vmm t₂.vmm = bootCalls (guestSelectVcpu select).toNat boot (.ok ())

/-! ## What a successful start leaves -/

theorem VmmState.bootFresh_running {s : VmmState} {numVcpus : Nat} {select : UInt64}
    {env : StartEnv} (h : (s.bootFresh numVcpus select env).1.state = .running) :
    (guestSelectVcpu select).toNat < numVcpus ∧ (∃ boot, env.load = some boot) ∧
      env.write = .ok () := by
  unfold bootFresh at h
  dsimp only at h
  by_cases hvcpu : numVcpus ≤ (guestSelectVcpu select).toNat
  · rw [if_pos hvcpu] at h
    exact GuestState.noConfusion h
  rw [if_neg hvcpu] at h
  refine ⟨Nat.lt_of_not_le hvcpu, ?_⟩
  cases hload : env.load with
  | none =>
    rw [hload] at h
    exact GuestState.noConfusion h
  | some boot =>
    rw [hload] at h
    cases hwrite : env.write with
    | error err =>
      rw [hwrite] at h
      exact GuestState.noConfusion h
    | ok u => exact ⟨⟨boot, rfl⟩, rfl⟩

theorem VmmState.guestControlStart_state (s : VmmState) (numVcpus : Nat) (select : UInt64)
    (env : StartEnv) (hstate : s.state ≠ .running) :
    (s.guestControlStart numVcpus select env).state =
      (s.bootFresh numVcpus select env).1.state := by
  rw [guestControlStart, if_neg hstate]
  rcases s.bootFresh numVcpus select env with ⟨t, started⟩
  cases started <;> rfl

/-- What is in the hands of the guest after a successful start. -/
theorem StartHistory.given {select : UInt64} {es : List (HostedEvent b)} {s t : Hosted b}
    (h : StartHistory b select es s t) :
    ∃ boot, (b.guestImageLoad s.ram select).2 = some boot ∧
      t.ram = (b.guestImageLoad s.ram select).1 ∧
      callsSince s.vmm t.vmm = bootCalls (guestSelectVcpu select).toNat boot (.ok ()) ∧
      t.vmm.uart = s.vmm.uart := by
  obtain ⟨id, write, hstep⟩ := h.starts
  obtain rfl : s.runCommand { id, verb := cmdVerbGuestStart, arg := select } write = t :=
    Option.some.inj hstep
  have hrunning : (s.vmm.guestControlStart b.numVcpus select
      { load := (b.guestImageLoad s.ram select).2, write }).state = .running := h.running
  rw [VmmState.guestControlStart_state _ _ _ _ h.stopped] at hrunning
  obtain ⟨hvcpu, ⟨boot, hload⟩, hwrite⟩ := VmmState.bootFresh_running hrunning
  obtain ⟨hcalls, huart⟩ := s.vmm.guestControlStart_effect b.numVcpus select
    { load := (b.guestImageLoad s.ram select).2, write } h.stopped
  refine ⟨boot, hload, if_pos ⟨rfl, h.stopped, hvcpu⟩, ?_, huart⟩
  show (VmmState.guestControlStart _ _ _ _).calls.drop _ = _
  rw [hcalls, List.drop_left, startCalls_of_load hvcpu hload, hwrite]

theorem StartHistory.sameGuest {select : UInt64} {es₁ es₂ : List (HostedEvent b)}
    {s₁ t₁ s₂ t₂ : Hosted b} (h₁ : StartHistory b select es₁ s₁ t₁)
    (h₂ : StartHistory b select es₂ s₂ t₂) : SameGuest select s₁ t₁ s₂ t₂ := by
  obtain ⟨boot, hload₁, hram₁, hcalls₁, -⟩ := h₁.given
  obtain ⟨boot', hload₂, hram₂, hcalls₂, -⟩ := h₂.given
  obtain ⟨hboot, hram⟩ := b.guestImageLoad_forgets select s₁.ram s₂.ram
  have hsome : (b.guestImageLoad s₁.ram select).2.isSome = true := by
    rw [hload₁]
    rfl
  obtain rfl : boot = boot' := Option.some.inj (hload₁.symm.trans (hboot.trans hload₂))
  exact ⟨hram₁.trans ((hram hsome).trans hram₂.symm), boot, hcalls₁, hcalls₂⟩

/-! ## The bytes that a run's exits write to UTXH -/

def Callback.utxhBytes (lib : Libvmm) (offset fsr : UInt64) (regs : UserContext) :
    Callback → List UInt8
  | .uart _ =>
    if lib.faultIsWrite fsr = true ∧ offset = exynosUartUtxh then
      [(lib.faultGetData regs fsr &&& 0xff).toUInt8]
    else []
  | .forward _ => []
  | .libvmm => []

def Fault.utxhBytes (b : Build) (env : CallEnv) : Fault → List UInt8
  | .vmFault _ addr fsr =>
    match b.handlers.find? (·.covers addr) with
    | none => []
    | some h => h.callback.utxhBytes b.lib (addr - h.base) fsr env.faultRegs
  | .vcpuFault _ => []
  | .other _ => []

def HostedEvent.utxhBytes : HostedEvent b → List UInt8
  | .exit _ f env => f.utxhBytes b.toBuild env
  | .command _ _ => []
  | .stores _ => []

namespace VmmState

theorem callback_uart (b : Build) (s : VmmState) (c : Callback) (vcpu : Nat)
    (offset fsr : UInt64) (regs : UserContext) (env : CallEnv) :
    (s.callback b c vcpu offset fsr regs env).1.uart =
      (c.utxhBytes b.lib offset fsr regs).foldl ExynosUartEmul.consolePutc s.uart := by
  cases c with
  | uart gpa =>
    by_cases hwrite : b.lib.faultIsWrite fsr = true
    · by_cases hutxh : offset = exynosUartUtxh
      · rw [Callback.utxhBytes, if_pos ⟨hwrite, hutxh⟩, callback, uartFault, if_pos hwrite,
          uartWrite, if_pos hutxh]
        rfl
      · rw [Callback.utxhBytes, if_neg fun h => hutxh h.2, callback, uartFault, if_pos hwrite,
          uartWrite, if_neg hutxh]
        rfl
    · rw [Callback.utxhBytes, if_neg fun h => hwrite h.1, callback, uartFault, if_neg hwrite,
        uartRead]
      cases uartReadValue offset <;> rfl
  | forward fwd =>
    have hsupported : (s.forwardAccessSupported b.lib fwd offset fsr).1.uart = s.uart := by
      unfold forwardAccessSupported
      split_ifs <;> rfl
    unfold callback forwardFault
    dsimp only
    rcases hr : s.forwardAccessSupported b.lib fwd offset fsr with ⟨t, supported⟩
    rw [hr] at hsupported
    cases supported <;> exact hsupported
  | libvmm => rfl

theorem guestFaultHandle_uart (b : Build) (s : VmmState) (vcpu : Nat) (f : Fault)
    (env : CallEnv) :
    (s.guestFaultHandle b vcpu f env).1.uart =
      (f.utxhBytes b env).foldl ExynosUartEmul.consolePutc s.uart := by
  have hfault : (s.faultHandle b vcpu f env).1.uart =
      (f.utxhBytes b env).foldl ExynosUartEmul.consolePutc s.uart := by
    unfold faultHandle Fault.utxhBytes
    cases f with
    | vmFault ip addr fsr =>
      dsimp only
      unfold vmFaultHandle
      cases b.handlers.find? (·.covers addr) with
      | none => rfl
      | some h =>
        have hc := callback_uart b s h.callback vcpu (addr - h.base) fsr env.faultRegs env
        dsimp only
        rcases hr : s.callback b h.callback vcpu (addr - h.base) fsr env.faultRegs env
          with ⟨t, regs⟩
        rw [hr] at hc
        cases regs <;> exact hc
    | vcpuFault hsr => rfl
    | other label => rfl
  unfold guestFaultHandle
  rcases hr : s.faultHandle b vcpu f env with ⟨t, handled⟩
  rw [hr] at hfault
  cases handled with
  | true => exact hfault
  | false => cases f <;> exact hfault

@[simp] theorem traceEmit_uart (s : VmmState) (r : Trace.TraceRecord) :
    (s.traceEmit r).uart = s.uart := rfl

@[simp] theorem call_uart (s : VmmState) (c : Call) : (s.call c).uart = s.uart := rfl

@[simp] theorem smcTraceExit_uart (s : VmmState) (vcpu : Nat) (pc hsr : UInt64) (flags : UInt8)
    (r : UserContext) : (s.smcTraceExit vcpu pc hsr flags r).uart = s.uart := by
  simp only [smcTraceExit, smcTraceRegs, smcTraceEmit, traceEmit_uart]

theorem smcPolicyHandle_uart (s : VmmState) (vcpu : Nat) (hsr : UInt64) (env : CallEnv) :
    (s.smcPolicyHandle vcpu hsr env).1.uart = s.uart := by
  have hact : ∀ (t : VmmState) regs, (t.smcAct vcpu hsr regs env).1.uart = t.uart := by
    intro t regs
    unfold smcAct
    cases smcPolicy (regs.x 0).toUInt32 with
    | emulatePsci =>
      unfold smcEmulatePsci
      dsimp only
      split
      · rfl
      · cases env.psciRegs <;> rfl
    | forward =>
      unfold smcForwardAndResume
      dsimp only
      split
      · rw [call_uart, smcTraceExit_uart, call_uart]
      · rw [smcTraceExit_uart, call_uart]
    | unhandled => rfl
  unfold smcPolicyHandle
  cases env.trapRegs with
  | error err => rfl
  | ok regs =>
    have h := hact (s.smcTraceEnter vcpu regs.pc hsr regs) regs
    dsimp only [readRegs]
    rcases hr : (s.smcTraceEnter vcpu regs.pc hsr regs).smcAct vcpu hsr regs env with ⟨t, handled⟩
    rw [hr] at h
    cases handled <;> exact h

theorem handleFault_uart (b : Build) (s : VmmState) (vcpu : Nat) (f : Fault) (env : CallEnv) :
    (s.handleFault b vcpu f env).1.uart =
      (f.utxhBytes b env).foldl ExynosUartEmul.consolePutc s.uart := by
  have hdispatch : (s.faultDispatch b vcpu f env).1.1.uart =
      (f.utxhBytes b env).foldl ExynosUartEmul.consolePutc s.uart := by
    unfold faultDispatch
    cases f with
    | vmFault ip addr fsr => exact guestFaultHandle_uart b s vcpu (.vmFault ip addr fsr) env
    | vcpuFault hsr =>
      cases hf : smcFaultHsr b.lib (.vcpuFault hsr) with
      | none => exact guestFaultHandle_uart b s vcpu (.vcpuFault hsr) env
      | some hsr' => exact smcPolicyHandle_uart s vcpu hsr' env
    | other label => exact guestFaultHandle_uart b s vcpu (.other label) env
  unfold handleFault
  rcases hr : s.faultDispatch b vcpu f env with ⟨⟨t, handled⟩, stop⟩
  rw [hr] at hdispatch
  cases handled with
  | true => exact hdispatch
  | false =>
    rw [← hdispatch]
    show (t.guestControlFaultStopped vcpu stop env.stopRegs).uart = t.uart
    unfold guestControlFaultStopped
    cases env.stopRegs <;> rfl

theorem runCommand_uart (b : Build) (s : VmmState) (cmd : CmdEntry) (env : StartEnv) :
    (s.runCommand b cmd env).uart = s.uart := by
  have hstatus : ∀ t : VmmState, t.guestControlStatus.uart = t.uart := by
    intro t
    unfold guestControlStatus
    cases t.state <;> rfl
  unfold runCommand
  split_ifs
  · by_cases hstate : s.state = .running
    · rw [guestControlStart, if_pos hstate]
      rfl
    · exact (guestControlStart_effect s _ _ env hstate).2
  · unfold guestControlStop
    split
    · rfl
    · exact hstatus _
  · exact hstatus s
  · unfold guestControlRegs
    split <;> rfl
  · rfl

end VmmState

theorem Hosted.step_uart {s t : Hosted b} {e : HostedEvent b} (hs : s.step e = some t) :
    t.vmm.uart = e.utxhBytes.foldl ExynosUartEmul.consolePutc s.vmm.uart := by
  cases e with
  | command cmd write =>
    obtain rfl := Option.some.inj hs
    exact VmmState.runCommand_uart _ _ _ _
  | exit vcpu f env =>
    obtain ⟨v, hv, rfl⟩ := Option.map_eq_some_iff.mp hs
    simp only [VmmState.step, Option.ite_none_right_eq_some, Option.some.injEq] at hv
    obtain ⟨-, rfl⟩ := hv
    exact VmmState.handleFault_uart _ _ _ _ _
  | stores ram =>
    obtain rfl := Option.some.inj hs
    rfl

/-- The console of a run depends on the bytes written in it and on the line it
found. -/
theorem hosted_uart {s t : Hosted b} {es : List (HostedEvent b)}
    (hr : (hosted b).Reaches s es t) :
    t.vmm.uart = (es.flatMap HostedEvent.utxhBytes).foldl ExynosUartEmul.consolePutc s.vmm.uart := by
  induction es generalizing s with
  | nil =>
    rw [Automaton.reaches_nil] at hr
    exact hr ▸ rfl
  | cons e es ih =>
    obtain ⟨m, hm, hrest⟩ := (Automaton.reaches_cons _).mp hr
    rw [ih hrest, List.flatMap_cons, List.foldl_append, Hosted.step_uart hm]

/-- Every two successful starts of one selection give the guest the same RAM and
registers.  The lines that the two runs print for the same bytes agree exactly
when the unfinished lines before the starts did. -/
theorem runs_do_not_leak_iff {select : UInt64} {es₁ es₂ : List (HostedEvent b)}
    {s₁ t₁ s₂ t₂ : Hosted b} (h₁ : StartHistory b select es₁ s₁ t₁)
    (h₂ : StartHistory b select es₂ s₂ t₂) :
    (∀ fs u, (hosted b).Reaches t₁ fs u → u.vmm.uart.printed =
        t₁.vmm.uart.printed ++ t₁.vmm.uart.linesOf (fs.flatMap HostedEvent.utxhBytes)) ∧
      ((SameGuest select s₁ t₁ s₂ t₂ ∧
          ∀ bytes, t₁.vmm.uart.linesOf bytes = t₂.vmm.uart.linesOf bytes) ↔
        ExynosUartEmul.SameLine s₁.vmm.uart s₂.vmm.uart) := by
  refine ⟨fun fs u hu => ?_, ?_⟩
  · rw [hosted_uart hu, ExynosUartEmul.foldl_printed]
  · obtain ⟨-, -, -, -, huart₁⟩ := h₁.given
    obtain ⟨-, -, -, -, huart₂⟩ := h₂.given
    rw [huart₁, huart₂, ExynosUartEmul.linesOf_eq_iff]
    exact and_iff_right (h₁.sameGuest h₂)

/-- A VMM with a harness of four bytes. -/
def smallHarnessBuild : HostedBuild where
  toBuild := linuxBuild
  loader := .harness
  ramSize := 16
  ramGpa := 0x80000000
  dtbGpa := 0
  initrdGpa := 0
  harnessImage := [0x1f, 0x20, 0x03, 0xd5]
  kernelImage := []
  dtbImages _ := []
  initrdImage := []
  linuxSetupImages _ ram := (0, ram)

def harnessStart : HostedEvent smallHarnessBuild :=
  .command { id := 1, verb := cmdVerbGuestStart, arg := guestSelectHarness } (.ok ())

def harnessStop : HostedEvent smallHarnessBuild :=
  .command { id := 2, verb := cmdVerbGuestStop, arg := 0 } (.ok ())

/-- The guest writes an `a` to UTXH. -/
def harnessPutc : HostedEvent smallHarnessBuild :=
  .exit 0 (.vmFault 0x80000000 0x10870020 0x40)
    { faultRegs := { x := Function.update (fun _ => 0) 0 0x61 } }

theorem runs_do_not_leak_iff_twice : ∃ s₁ t₁ s₂ t₂ : Hosted smallHarnessBuild,
    StartHistory smallHarnessBuild guestSelectHarness [] s₁ t₁ ∧
      StartHistory smallHarnessBuild guestSelectHarness [harnessStart, harnessStop] s₂ t₂ ∧
      SameGuest guestSelectHarness s₁ t₁ s₂ t₂ ∧
      ∀ bytes, t₁.vmm.uart.linesOf bytes = t₂.vmm.uart.linesOf bytes := by
  have h₁ : StartHistory smallHarnessBuild guestSelectHarness [] _ _ :=
    { reaches := rfl, starts := ⟨1, .ok (), rfl⟩, stopped := by decide, running := rfl }
  have h₂ : StartHistory smallHarnessBuild guestSelectHarness [harnessStart, harnessStop] _ _ :=
    { reaches := rfl, starts := ⟨1, .ok (), rfl⟩, stopped := by decide, running := rfl }
  exact ⟨_, _, _, _, h₁, h₂, (runs_do_not_leak_iff h₁ h₂).2.mpr ⟨rfl, rfl⟩⟩

/-- The second run's first line begins with the first run's last byte. -/
theorem unfinished_line_leaks : ∃ s₁ t₁ s₂ t₂ : Hosted smallHarnessBuild,
    StartHistory smallHarnessBuild guestSelectHarness [] s₁ t₁ ∧
      StartHistory smallHarnessBuild guestSelectHarness [harnessStart, harnessPutc, harnessStop]
        s₂ t₂ ∧
      t₁.vmm.uart.linesOf [0x0a] = [ExynosUartEmul.guestPrompt] ∧
      t₂.vmm.uart.linesOf [0x0a] = [ExynosUartEmul.guestPrompt ++ [0x61]] := by
  refine ⟨_, _, _, _, ⟨rfl, ⟨1, .ok (), rfl⟩, ?_, rfl⟩, ⟨rfl, ⟨1, .ok (), rfl⟩, ?_, rfl⟩, rfl, rfl⟩
  · decide
  · decide

end Vmm
end TensorSel4
