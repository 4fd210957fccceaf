/-
The board that a guest sees.

`Guest` is a guest on the VMM as the hardware and libvmm have it: its registers at
each exit, the syndromes that its accesses raise, and what the devices, EL3 and
libvmm answer.  `onVmm` runs a program as that guest, each access an exit of the
VMM's automaton.  `onBoard` has no VMM in it: a UART that is always ready, a
read-only watchdog, libvmm's interrupt controller, PSCI, SMCCC_VERSION, and nothing
else.  Every program does the same on both.
-/
import TensorSel4.Platform.Program
import TensorSel4.Vmm.Machine

namespace TensorSel4
namespace Vmm

/-- The syndrome of a 32-bit load into `x[rt]`, as libvmm reads it. -/
structure LoadsWord (lib : Libvmm) (fsr : UInt64) (rt : Fin 31) : Prop where
  read : lib.faultIsWrite fsr = false
  width : lib.faultGetWidthBytes fsr = 4
  emulates : ∀ (regs : UserContext) (offset : UInt64) (val : UInt32),
    ((lib.faultEmulateWrite regs offset fsr val.toUInt64).x rt).toUInt32 = val

/-- The syndrome of a 32-bit store of `x[rt]`. -/
structure StoresWord (lib : Libvmm) (fsr : UInt64) (rt : Fin 31) : Prop where
  write : lib.faultIsWrite fsr = true
  data : ∀ regs : UserContext, (lib.faultGetData regs fsr).toUInt32 = (regs.x rt).toUInt32

/-- What happens at a guest's `n`-th exit. -/
structure Guest (b : Build) (Var : Type) where
  vcpu : Nat
  regs : Nat → UserContext
  /-- The register that a load or a store uses. -/
  rt : Nat → Fin 31
  loadFsr : Nat → UInt64
  storeFsr : Nat → UInt64
  smcHsr : Nat → UInt64
  deviceWord : Nat → UInt32
  /-- What libvmm's own handler resumes with. -/
  vgic : Nat → Option UserContext
  /-- The registers after `smc_handle`, and which vCPUs it leaves on. -/
  psci : Nat → Option UserContext
  powered : Nat → Nat → Bool
  response : Nat → SmcContext
  advance : Nat → Bool
  value : Nat → Var → UInt64
  exists_vcpu : vcpu < b.numVcpus
  loads : ∀ n, LoadsWord b.lib (loadFsr n) (rt n)
  stores : ∀ n, StoresWord b.lib (storeFsr n) (rt n)
  smcs : ∀ n, b.lib.hsrExceptionClass (smcHsr n) = b.lib.hsrSmc64Exception

abbrev GuestProgram (Var : Type) := Program UInt64 UInt32 UInt64 Var

variable {b : Build} {Var : Type}

theorem smcX0_lt : 0 < 8 := Nat.zero_lt_succ 7

/-- `x0` of a call, or of its response. -/
def smcX0 (r : SmcContext) : UInt64 := r ⟨0, smcX0_lt⟩

def UserContext.set (regs : UserContext) (i : Fin 31) (v : UInt64) : UserContext :=
  { regs with x := Function.update regs.x i v }

namespace Guest

/-! ## On the VMM -/

/-- The VMM, and the exits so far. -/
structure World where
  vmm : VmmState
  exits : List Event := []

/-- The registers to resume with are the last ones that were written back, or those that
`smc_handle` has left. -/
def resumedRegs (s t : VmmState) (env : CallEnv) : UserContext :=
  match (t.calls.drop s.calls.length).getLast? with
  | some (.faultAdvanceVcpu _ regs) => regs
  | _ => env.psciRegs.toOption.getD {}

def exit (g : Guest b Var) (w : World) (f : Fault) (env : CallEnv) : World × Option UserContext :=
  if w.vmm.vcpuOn g.vcpu then
    match w.vmm.handleFault b g.vcpu f env with
    | (t, resumed) =>
      ({ vmm := t, exits := w.exits ++ [.exit g.vcpu f env] },
        if resumed && t.vcpuOn g.vcpu then some (resumedRegs w.vmm t env) else none)
  else (w, none)

def loadEnv (g : Guest b Var) (n : Nat) : CallEnv where
  faultRegs := g.regs n
  libvmmHandler := g.vgic n
  deviceWord := g.deviceWord n
  stopRegs := .ok (g.regs n)

def storeRegs (g : Guest b Var) (n : Nat) (v : UInt32) : UserContext :=
  (g.regs n).set (g.rt n) v.toUInt64

def storeEnv (g : Guest b Var) (n : Nat) (v : UInt32) : CallEnv where
  faultRegs := g.storeRegs n v
  libvmmHandler := g.vgic n
  stopRegs := .ok (g.storeRegs n v)

def smcRegs (g : Guest b Var) (n : Nat) (x0 : UInt64) : UserContext := (g.regs n).set 0 x0

def smcEnv (g : Guest b Var) (n : Nat) (x0 : UInt64) : CallEnv where
  trapRegs := .ok (g.smcRegs n x0)
  smcHandle := (g.psci n).isSome
  powered := g.powered n
  psciRegs := .ok ((g.psci n).getD {})
  response := g.response n
  advance := g.advance n
  stopRegs := .ok (g.smcRegs n x0)

def onVmm (g : Guest b Var) : Platform World UInt64 UInt32 UInt64 Var where
  load w a :=
    let n := w.exits.length
    match g.exit w (.vmFault (g.regs n).pc a (g.loadFsr n)) (g.loadEnv n) with
    | (w, regs) => (w, regs.map fun regs => (regs.x (g.rt n)).toUInt32)
  store w a v :=
    let n := w.exits.length
    match g.exit w (.vmFault (g.regs n).pc a (g.storeFsr n)) (g.storeEnv n v) with
    | (w, regs) => (w, regs.isSome)
  call w x0 :=
    let n := w.exits.length
    match g.exit w (.vcpuFault (g.smcHsr n)) (g.smcEnv n x0) with
    | (w, regs) => (w, regs.map fun regs => regs.x 0)
  value w v := g.value w.exits.length v

/-! ## On the board -/

structure Board where
  on : Bool := true
  exits : Nat := 0
  /-- The bytes written to the UART. -/
  written : List UInt8 := []
  /-- The reads of devices and the calls of EL3. -/
  outside : List Call := []
  /-- What the guest was stopped for. -/
  refused : Option GuestFault := none

namespace Board

def refuse (t : Board) (fault : GuestFault) : Board := { t with on := false, refused := some fault }

def outsideCall (t : Board) (c : Call) : Board := { t with outside := t.outside ++ [c] }

def write (t : Board) (c : UInt8) : Board := { t with written := t.written ++ [c] }

end Board

/-- An access that the board answers, or memory that is not there. -/
def answerOr {α : Type} (t : Board) (a : UInt64) : Option (Board × α) → Board × Option α
  | some (t, x) => (t, some x)
  | none => (t.refuse { kind := .memory, detail := a }, none)

def boardLoad (g : Guest b Var) (t : Board) (a : UInt64) : Option (Board × UInt32) :=
  match b.handlers.find? (·.covers a) with
  | none => none
  | some h =>
    match h.callback with
    | .uart _ => (uartReadValue (a - h.base)).map fun v => (t, v)
    | .forward fwd =>
      if (a - h.base) &&& 3 = 0 then
        some (t.outsideCall (.deviceRead (fwd.vmmVaddr + (a - h.base))), g.deviceWord t.exits)
      else none
    | .libvmm => (g.vgic t.exits).map fun regs => (t, (regs.x (g.rt t.exits)).toUInt32)

def boardStore (g : Guest b Var) (t : Board) (a : UInt64) (v : UInt32) : Option (Board × Unit) :=
  match b.handlers.find? (·.covers a) with
  | none => none
  | some h =>
    match h.callback with
    | .uart _ => if a - h.base = exynosUartUtxh then some (t.write v.toUInt8, ()) else none
    | .forward _ => none
    | .libvmm => (g.vgic t.exits).map fun _ => (t, ())

def boardSmc (g : Guest b Var) (t : Board) (x0 : UInt64) : Board × Option UInt64 :=
  let refuse := fun t : Board => (t.refuse { kind := .smc, detail := x0 }, none)
  match smcPolicy x0.toUInt32 with
  | .emulatePsci =>
    match g.psci t.exits with
    | none => refuse t
    | some regs =>
      if g.powered t.exits g.vcpu then (t, some (regs.x 0)) else ({ t with on := false }, none)
  | .forward =>
    let t' := t.outsideCall (.armSmcCall (smcRequest (g.smcRegs t.exits x0)))
    if g.advance t.exits then (t', some (smcX0 (g.response t.exits))) else refuse t'
  | .unhandled => refuse t

/-- One exit, if the vCPU is on. -/
def Board.exit {α : Type} (t : Board) (f : Board → Board × Option α) : Board × Option α :=
  if t.on then
    match f t with
    | (u, x) => ({ u with exits := t.exits + 1 }, x)
  else (t, none)

def onBoard (g : Guest b Var) : Platform Board UInt64 UInt32 UInt64 Var where
  load t a := t.exit fun t => answerOr t a (g.boardLoad t a)
  store t a v :=
    match t.exit fun t => answerOr t a (g.boardStore t a v) with
    | (t, r) => (t, r.isSome)
  call t x0 := t.exit fun t => g.boardSmc t x0
  value t v := g.value t.exits v

/-! ## What the board answers -/

section

variable (g : Guest b Var) {t : Board} {h : VmExceptionHandler} {offset x0 : UInt64}
  {fwd : MmioForward} {regs : UserContext}

/-- The UART is ready whenever it is asked. -/
theorem await_uart (ht : t.on = true) {gpa : UInt64}
    (hfind : b.handlers.find? (·.covers (h.base + exynosUartUtrstat)) = some h)
    (hcallback : h.callback = .uart gpa) (polls : Nat) :
    g.onBoard.await (h.base + exynosUartUtrstat) (fun v => v &&& exynosUartUtrstatTxfe != 0)
      (polls + 1) t = ({ t with exits := t.exits + 1 }, none) := by
  have hread : uartReadValue exynosUartUtrstat =
      some (exynosUartUtrstatTxe ||| exynosUartUtrstatTxfe) := by decide
  have hready : ((exynosUartUtrstatTxe ||| exynosUartUtrstatTxfe) &&& exynosUartUtrstatTxfe != 0) =
      true := by decide
  simp only [Platform.await, onBoard, Board.exit, ht, if_true, boardLoad, hfind, hcallback,
    add_sub_cancel_left, hread, Option.map_some, answerOr, hready]

theorem store_uart (ht : t.on = true) {gpa : UInt64}
    (hfind : b.handlers.find? (·.covers (h.base + exynosUartUtxh)) = some h)
    (hcallback : h.callback = .uart gpa) (v : UInt32) :
    g.onBoard.store t (h.base + exynosUartUtxh) v =
      ({ t with exits := t.exits + 1, written := t.written ++ [v.toUInt8] }, true) := by
  simp [onBoard, Board.exit, ht, boardStore, hfind, hcallback, answerOr, Board.write]

theorem load_forward (ht : t.on = true)
    (hfind : b.handlers.find? (·.covers (h.base + offset)) = some h)
    (hcallback : h.callback = .forward fwd) (haligned : offset &&& 3 = 0) :
    g.onBoard.load t (h.base + offset) =
      ({ t with
          exits := t.exits + 1
          outside := t.outside ++ [.deviceRead (fwd.vmmVaddr + offset)] },
        some (g.deviceWord t.exits)) := by
  simp [onBoard, Board.exit, ht, boardLoad, hfind, hcallback, haligned, answerOr,
    Board.outsideCall]

/-- The watchdog is read-only. -/
theorem store_forward (ht : t.on = true)
    (hfind : b.handlers.find? (·.covers (h.base + offset)) = some h)
    (hcallback : h.callback = .forward fwd) (v : UInt32) :
    g.onBoard.store t (h.base + offset) v =
      ({ t with
          on := false
          exits := t.exits + 1
          refused := some { kind := .memory, detail := h.base + offset } }, false) := by
  simp [onBoard, Board.exit, ht, boardStore, hfind, hcallback, answerOr, Board.refuse]

theorem store_libvmm (ht : t.on = true) {a : UInt64}
    (hfind : b.handlers.find? (·.covers a) = some h) (hcallback : h.callback = .libvmm)
    (hregs : g.vgic t.exits = some regs) (v : UInt32) :
    g.onBoard.store t a v = ({ t with exits := t.exits + 1 }, true) := by
  simp [onBoard, Board.exit, ht, boardStore, hfind, hcallback, answerOr, hregs]

/-- The calls of the PSCI range are libvmm's. -/
theorem call_psci (ht : t.on = true) (hservice : smcccService x0.toUInt32 = smcccServiceStd)
    (hfunc : smcccFuncNumber x0.toUInt32 < psciMax) (hregs : g.psci t.exits = some regs)
    (hpowered : g.powered t.exits g.vcpu = true) :
    g.onBoard.call t x0 = ({ t with exits := t.exits + 1 }, some (regs.x 0)) := by
  have hpolicy := smcPolicy_emulatePsci.mpr ⟨hservice, hfunc⟩
  simp [onBoard, Board.exit, ht, boardSmc, hpolicy, hregs, hpowered]

/-- SMCCC_VERSION is EL3's. -/
theorem call_version (ht : t.on = true) (hx0 : x0.toUInt32 = smcccVersionFid)
    (hadvance : g.advance t.exits = true) :
    g.onBoard.call t x0 =
      ({ t with
          exits := t.exits + 1
          outside := t.outside ++ [.armSmcCall (smcRequest (g.smcRegs t.exits x0))] },
        some (smcX0 (g.response t.exits))) := by
  have hpolicy := smcPolicy_forward.mpr hx0
  simp [onBoard, Board.exit, ht, boardSmc, hpolicy, hadvance, Board.outsideCall]

/-- Every other call is refused. -/
theorem call_unhandled (ht : t.on = true)
    (hpsci : ¬(smcccService x0.toUInt32 = smcccServiceStd ∧ smcccFuncNumber x0.toUInt32 < psciMax))
    (hversion : x0.toUInt32 ≠ smcccVersionFid) :
    g.onBoard.call t x0 =
      ({ t with
          on := false
          exits := t.exits + 1
          refused := some { kind := .smc, detail := x0 } }, none) := by
  have hpolicy : smcPolicy x0.toUInt32 = .unhandled := by
    rw [smcPolicy, if_neg hpsci, if_neg hversion]
  simp [onBoard, Board.exit, ht, boardSmc, hpolicy, Board.refuse]

end

/-! ## The same on both -/

/-- A read of a device, or a call of EL3. -/
def isOutside : Call → Bool
  | .deviceRead _ | .armSmcCall _ => true
  | _ => false

/-- Only the histories that no handler reads were added to. -/
structure OnlyTraced (s u : VmmState) : Prop where
  state : u.state = s.state
  uart : u.uart = s.uart
  calls : u.calls = s.calls
  vcpuOn : u.vcpuOn = s.vcpuOn

namespace OnlyTraced

theorem refl (s : VmmState) : OnlyTraced s s := ⟨rfl, rfl, rfl, rfl⟩

variable {s u : VmmState} (h : OnlyTraced s u)

include h in
theorem emit (r : Trace.TraceRecord) : OnlyTraced s (u.traceEmit r) :=
  ⟨h.state, h.uart, h.calls, h.vcpuOn⟩

include h in
theorem log (l : Log) : OnlyTraced s (u.logVmm l) := ⟨h.state, h.uart, h.calls, h.vcpuOn⟩

include h in
theorem enter (vcpu : Nat) (pc hsr : UInt64) (r : UserContext) :
    OnlyTraced s (u.smcTraceEnter vcpu pc hsr r) := (((h.emit _).emit _).emit _).emit _

include h in
theorem exit (vcpu : Nat) (pc hsr : UInt64) (flags : UInt8) (r : UserContext) :
    OnlyTraced s (u.smcTraceExit vcpu pc hsr flags r) := (((h.emit _).emit _).emit _).emit _

end OnlyTraced

/-- What one exit did to the VMM is what it did to the board, and the answers are the same. -/
structure Exited {α : Type} (g : Guest b Var) (s : VmmState) (env : CallEnv)
    (read : UserContext → α) (o : VmmState × Bool) (t : Board) (r : Board × Option α) : Prop where
  answer : (if o.2 && o.1.vcpuOn g.vcpu then some (read (resumedRegs s o.1 env)) else none) = r.2
  uart : ∃ bytes : List UInt8, r.1.written = t.written ++ bytes ∧
    o.1.uart = bytes.foldl ExynosUartEmul.consolePutc s.uart
  outside : ∃ calls : List Call, r.1.outside = t.outside ++ calls ∧
    o.1.calls.filter isOutside = s.calls.filter isOutside ++ calls
  on : o.1.vcpuOn g.vcpu = r.1.on
  running : r.1.refused = none → o.1.state = s.state
  refused : ∀ fault, r.1.refused = some fault →
    o.1.state = .stoppedByFault ∧ o.1.lastFault.fault = fault
  off : r.1.on = true → r.1.refused = none

section

variable {α : Type} (g : Guest b Var) {s u : VmmState} {t t' : Board} {env : CallEnv}
  {read : UserContext → α} {calls : List Call}

/-- An exit that stops the guest. -/
theorem exited_refused {fault stop : GuestFault} {regs : UserContext} (before : List Call)
    (hbefore : u.calls = s.calls ++ before) (huart : u.uart = s.uart)
    (hwritten : t'.written = t.written) (houtside : t'.outside = t.outside ++ calls)
    (hcalls : before.filter isOutside = calls)
    (hstop : stop = if fault.kind = .smc then { fault with detail := regs.x 0 } else fault) :
    Exited g s env read (u.guestControlFaultStopped g.vcpu fault (.ok regs), false) t
      (t'.refuse stop, none) := by
  refine ⟨rfl, ⟨[], ?_, huart⟩, ⟨calls, houtside, ?_⟩, ?_, ?_, ?_, ?_⟩
  · rw [List.append_nil]
    exact hwritten
  · show (u.calls ++ [Call.vcpuStop g.vcpu]).filter isOutside = _
    rw [hbefore, List.filter_append, List.filter_append, hcalls]
    exact List.append_nil _
  · exact Function.update_self ..
  · intro h
    cases h
  · intro fault' h
    cases h
    exact ⟨rfl, hstop.symm⟩
  · intro h
    cases h

/-- An exit after which libvmm writes `regs` back. -/
theorem exited_advanced {bytes : List UInt8} {x : α} {regs : UserContext} (before : List Call)
    (hbefore : u.calls = s.calls ++ before ++ [.faultAdvanceVcpu g.vcpu regs])
    (huart : u.uart = bytes.foldl ExynosUartEmul.consolePutc s.uart)
    (hwritten : t'.written = t.written ++ bytes) (houtside : t'.outside = t.outside ++ calls)
    (hcalls : before.filter isOutside = calls) (hon : u.vcpuOn g.vcpu = true)
    (ht : t'.on = true) (hnone : t'.refused = none) (hstate : u.state = s.state)
    (hread : read regs = x) : Exited g s env read (u, true) t (t', some x) := by
  refine ⟨?_, ⟨bytes, hwritten, huart⟩, ⟨calls, houtside, ?_⟩, hon.trans ht.symm, fun _ => hstate,
    ?_, fun _ => hnone⟩
  · have hregs : resumedRegs s u env = regs := by
      rw [resumedRegs, hbefore, List.append_assoc, List.drop_left, List.getLast?_concat]
    dsimp only
    rw [hon, hregs, hread]
    rfl
  · dsimp only
    rw [hbefore, List.append_assoc, List.filter_append, List.filter_append, hcalls]
    exact congrArg _ (List.append_nil _)
  · intro fault h
    rw [hnone] at h
    cases h

/-- A PSCI call that libvmm has handled; it may have switched the vCPU off. -/
theorem exited_psci {regs : UserContext} {on : Bool}
    (henv : env.psciRegs = .ok regs) (hcalls : u.calls = s.calls) (huart : u.uart = s.uart)
    (hon : u.vcpuOn g.vcpu = on) (hstate : u.state = s.state) (ht : t.on = true)
    (hnone : t.refused = none) : Exited g s env read (u, true) t
      (if on = true then (t, some (read regs)) else ({ t with on := false }, none)) := by
  have hregs : resumedRegs s u env = regs := by
    rw [resumedRegs, hcalls, List.drop_length, henv]
    rfl
  have houtside : u.calls.filter isOutside = s.calls.filter isOutside ++ [] := by
    rw [hcalls, List.append_nil]
  cases on with
  | false =>
    refine ⟨?_, ⟨[], (List.append_nil _).symm, huart⟩, ⟨[], (List.append_nil _).symm, houtside⟩,
      hon, fun _ => hstate, ?_, ?_⟩
    · dsimp only
      rw [hon]
      rfl
    · intro fault h
      cases hnone.symm.trans h
    · intro h
      cases h
  | true =>
    refine ⟨?_, ⟨[], (List.append_nil _).symm, huart⟩, ⟨[], (List.append_nil _).symm, houtside⟩,
      hon.trans ht.symm, fun _ => hstate, ?_, fun _ => hnone⟩
    · dsimp only
      rw [hon, hregs]
      rfl
    · intro fault h
      cases hnone.symm.trans h

/-- `val & 0xff`, as the UART takes a byte. -/
theorem low_byte {data : UInt64} {v : UInt32} (h : data.toUInt32 = v) :
    (data &&& 0xff).toUInt8 = v.toUInt8 := by
  subst h
  apply UInt8.toNat_inj.mp
  have hand : data.toNat &&& 255 = data.toNat % 2 ^ 8 := Nat.and_two_pow_sub_one_eq_mod data.toNat 8
  show ((data &&& 0xff).toNat % 2 ^ 8) = (data.toNat % 2 ^ 32) % 2 ^ 8
  rw [UInt64.toNat_and]
  show (data.toNat &&& 255) % 2 ^ 8 = _
  rw [hand]
  omega

theorem load_exited (a : UInt64) (hon : s.vcpuOn g.vcpu = true) (ht : t.on = true)
    (hnone : t.refused = none) :
    Exited g s (g.loadEnv t.exits) (fun regs => (regs.x (g.rt t.exits)).toUInt32)
      (s.handleFault b g.vcpu (.vmFault (g.regs t.exits).pc a (g.loadFsr t.exits))
        (g.loadEnv t.exits)) t (answerOr t a (g.boardLoad t a)) := by
  have hload := g.loads t.exits
  unfold VmmState.handleFault VmmState.faultDispatch VmmState.guestFaultHandle
    VmmState.faultHandle VmmState.vmFaultHandle boardLoad
  simp only [smcFaultHsr]
  cases hfind : b.handlers.find? (·.covers a) with
  | none =>
    exact exited_refused g [] (List.append_nil s.calls).symm rfl rfl
          (List.append_nil _).symm rfl rfl
  | some h =>
    dsimp only
    cases hc : h.callback with
    | uart gpa =>
      simp only [VmmState.callback, VmmState.uartFault, hload.read, Bool.false_eq_true, if_false,
        VmmState.uartRead, loadEnv]
      cases uartReadValue (a - h.base) with
      | none =>
        exact exited_refused g [] (List.append_nil s.calls).symm rfl rfl
          (List.append_nil _).symm rfl rfl
      | some val =>
        exact exited_advanced g [] (by rw [List.append_nil]; rfl) rfl
          (List.append_nil _).symm (List.append_nil _).symm rfl hon ht hnone rfl
          (hload.emulates _ _ val)
    | forward fwd =>
      simp only [VmmState.callback, VmmState.forwardFault, VmmState.forwardAccessSupported,
        hload.read, Bool.false_eq_true, if_false, hload.width, ne_eq, not_true_eq_false, false_or]
      by_cases haligned : (a - h.base) &&& 3 = 0
      · simp only [haligned, not_true_eq_false, if_false, if_true]
        exact exited_advanced g [_] rfl rfl (List.append_nil _).symm rfl rfl hon ht hnone rfl
          (hload.emulates _ _ _)
      · simp only [haligned, not_false_eq_true, if_true, if_false]
        exact exited_refused g [] (List.append_nil s.calls).symm rfl rfl
          (List.append_nil _).symm rfl rfl
    | libvmm =>
      simp only [VmmState.callback, loadEnv]
      cases hregs : g.vgic t.exits with
      | none =>
        exact exited_refused g [] (List.append_nil s.calls).symm rfl rfl
          (List.append_nil _).symm rfl rfl
      | some regs =>
        exact exited_advanced g [] (by rw [List.append_nil]; rfl) rfl
          (List.append_nil _).symm (List.append_nil _).symm rfl hon ht hnone rfl rfl

theorem store_exited (a : UInt64) (v : UInt32) (hon : s.vcpuOn g.vcpu = true) (ht : t.on = true)
    (hnone : t.refused = none) :
    Exited g s (g.storeEnv t.exits v) (fun _ => ())
      (s.handleFault b g.vcpu (.vmFault (g.regs t.exits).pc a (g.storeFsr t.exits))
        (g.storeEnv t.exits v)) t (answerOr t a (g.boardStore t a v)) := by
  have hstore := g.stores t.exits
  unfold VmmState.handleFault VmmState.faultDispatch VmmState.guestFaultHandle
    VmmState.faultHandle VmmState.vmFaultHandle boardStore
  simp only [smcFaultHsr]
  cases hfind : b.handlers.find? (·.covers a) with
  | none =>
    exact exited_refused g [] (List.append_nil s.calls).symm rfl rfl
          (List.append_nil _).symm rfl rfl
  | some h =>
    dsimp only
    cases hc : h.callback with
    | uart gpa =>
      simp only [VmmState.callback, VmmState.uartFault, hstore.write, if_true, VmmState.uartWrite]
      by_cases hutxh : a - h.base = exynosUartUtxh
      · have hbyte : (b.lib.faultGetData (g.storeRegs t.exits v) (g.storeFsr t.exits) &&&
            0xff).toUInt8 = v.toUInt8 := by
          apply low_byte
          rw [hstore.data, storeRegs]
          show (Function.update (g.regs t.exits).x (g.rt t.exits) v.toUInt64 (g.rt t.exits)).toUInt32 = v
          rw [Function.update_self, UInt32.toUInt32_toUInt64]
        simp only [hutxh, if_true, storeEnv, hbyte]
        exact exited_advanced g [] (by rw [List.append_nil]; rfl) rfl rfl (List.append_nil _).symm
          rfl hon ht hnone rfl rfl
      · simp only [hutxh, if_false]
        exact exited_refused g [] (List.append_nil s.calls).symm rfl rfl
          (List.append_nil _).symm rfl rfl
    | forward fwd =>
      simp only [VmmState.callback, VmmState.forwardFault, VmmState.forwardAccessSupported,
        hstore.write, if_true]
      exact exited_refused g [] (List.append_nil s.calls).symm rfl rfl
          (List.append_nil _).symm rfl rfl
    | libvmm =>
      simp only [VmmState.callback, storeEnv]
      cases hregs : g.vgic t.exits with
      | none =>
        exact exited_refused g [] (List.append_nil s.calls).symm rfl rfl
          (List.append_nil _).symm rfl rfl
      | some regs =>
        exact exited_advanced g [] (by rw [List.append_nil]; rfl) rfl (List.append_nil _).symm
          (List.append_nil _).symm rfl hon ht hnone rfl rfl

theorem smc_exited (x0 : UInt64) (hon : s.vcpuOn g.vcpu = true) (ht : t.on = true)
    (hnone : t.refused = none) :
    Exited g s (g.smcEnv t.exits x0) (fun regs => regs.x 0)
      (s.handleFault b g.vcpu (.vcpuFault (g.smcHsr t.exits)) (g.smcEnv t.exits x0)) t
      (g.boardSmc t x0) := by
  have hx0 : (g.smcRegs t.exits x0).x 0 = x0 := by
    show Function.update (g.regs t.exits).x 0 x0 0 = x0
    exact Function.update_self ..
  have hdetail : ({ kind := .smc, detail := x0 } : GuestFault) =
      if ({} : GuestFault).kind = .smc then
        { ({} : GuestFault) with detail := (g.smcRegs t.exits x0).x 0 } else {} := by
    rw [hx0]
    rfl
  unfold VmmState.handleFault VmmState.faultDispatch VmmState.smcPolicyHandle VmmState.smcAct
    boardSmc
  simp only [smcFaultHsr, g.smcs t.exits, if_true, smcEnv, VmmState.readRegs, hx0]
  have henter := (OnlyTraced.refl s).enter g.vcpu (g.smcRegs t.exits x0).pc (g.smcHsr t.exits)
    (g.smcRegs t.exits x0)
  generalize s.smcTraceEnter g.vcpu (g.smcRegs t.exits x0).pc (g.smcHsr t.exits)
    (g.smcRegs t.exits x0) = v at henter
  cases hpolicy : smcPolicy x0.toUInt32 with
  | emulatePsci =>
    dsimp only
    cases hpsci : g.psci t.exits with
    | none =>
      exact exited_refused g [] (henter.calls.trans (List.append_nil _).symm) henter.uart rfl
        (List.append_nil _).symm rfl hdetail
    | some regs =>
      simp only [VmmState.smcEmulatePsci, Option.isSome_some, reduceCtorEq, if_false,
        VmmState.readRegs, Option.getD_some]
      have hexit := (OnlyTraced.refl { v with vcpuOn := g.powered t.exits }).exit g.vcpu
        (g.smcRegs t.exits x0).pc (g.smcHsr t.exits) 0 regs
      generalize VmmState.smcTraceExit _ g.vcpu (g.smcRegs t.exits x0).pc (g.smcHsr t.exits) 0
        regs = u at hexit
      exact exited_psci g rfl (hexit.calls.trans henter.calls) (hexit.uart.trans henter.uart)
        (congrFun hexit.vcpuOn g.vcpu) (hexit.state.trans henter.state) ht hnone
  | forward =>
    simp only [VmmState.smcForwardAndResume]
    have hexit := (OnlyTraced.refl (v.call (.armSmcCall (smcRequest (g.smcRegs t.exits x0))))).exit
      g.vcpu (g.smcRegs t.exits x0).pc (g.smcHsr t.exits) Trace.smcForwarded
      (smcResponse (g.smcRegs t.exits x0) (g.response t.exits))
    generalize VmmState.smcTraceExit _ g.vcpu (g.smcRegs t.exits x0).pc (g.smcHsr t.exits)
      Trace.smcForwarded _ = u at hexit
    have hcalls : u.calls = s.calls ++ [.armSmcCall (smcRequest (g.smcRegs t.exits x0))] := by
      rw [hexit.calls, ← henter.calls]
      rfl
    cases hadvance : g.advance t.exits with
    | false =>
      simp only [Bool.false_eq_true, if_false]
      exact exited_refused g [_] hcalls (hexit.uart.trans henter.uart) rfl rfl rfl hdetail
    | true =>
      simp only [if_true]
      have huart : u.uart = ([] : List UInt8).foldl ExynosUartEmul.consolePutc s.uart :=
        hexit.uart.trans henter.uart
      exact exited_advanced g [_] (congrArg (· ++ _) hcalls) huart
        (List.append_nil _).symm rfl rfl
        ((congrFun (hexit.vcpuOn.trans henter.vcpuOn) g.vcpu).trans hon) ht hnone
        (hexit.state.trans henter.state) rfl
  | unhandled =>
    exact exited_refused g [] (henter.calls.trans (List.append_nil _).symm) henter.uart rfl
      (List.append_nil _).symm rfl hdetail

end

/-! ## Whole programs -/

/-- The VMM in `w`, started in `s`, is what the board `t` says. -/
structure Follows (g : Guest b Var) (s : VmmState) (w : World) (t : Board) : Prop where
  reaches : (vmm b).Reaches s w.exits w.vmm
  exits : w.exits.length = t.exits
  uart : w.vmm.uart = t.written.foldl ExynosUartEmul.consolePutc s.uart
  outside : w.vmm.calls.filter isOutside = s.calls.filter isOutside ++ t.outside
  on : w.vmm.vcpuOn g.vcpu = t.on
  running : t.refused = none → w.vmm.state = .running
  refused : ∀ fault, t.refused = some fault →
    w.vmm.state = .stoppedByFault ∧ w.vmm.lastFault.fault = fault
  off : t.on = true → t.refused = none

section

variable {α : Type} {g : Guest b Var} {s : VmmState} {w : World} {t : Board}

theorem Follows.exit (h : Follows g s w t) (f : Fault) (env : CallEnv) {read : UserContext → α}
    (act : Board → Board × Option α)
    (he : t.on = true → Exited g w.vmm env read (w.vmm.handleFault b g.vcpu f env) t (act t)) :
    Follows g s (g.exit w f env).1 (t.exit act).1 ∧
      (g.exit w f env).2.map read = (t.exit act).2 := by
  rw [Guest.exit, Board.exit]
  cases hon : t.on with
  | false =>
    rw [h.on.trans hon, if_neg Bool.false_ne_true, if_neg Bool.false_ne_true]
    exact ⟨h, rfl⟩
  | true =>
    rw [h.on.trans hon, if_pos rfl, if_pos rfl]
    obtain ⟨hanswer, ⟨bytes, hwritten, huart⟩, ⟨calls, houtside, hcalls⟩, hon', hrunning,
      hrefused, hoff⟩ := he hon
    dsimp only
    refine ⟨⟨?_, ?_, ?_, ?_, hon', ?_, hrefused, hoff⟩, ?_⟩
    · apply (Automaton.reaches_snoc _).mpr
      refine ⟨w.vmm, h.reaches, ?_⟩
      show (if g.vcpu < b.numVcpus ∧ w.vmm.vcpuOn g.vcpu = true then _ else none) = _
      rw [if_pos ⟨g.exists_vcpu, h.on.trans hon⟩]
    · rw [List.length_append, h.exits]
      rfl
    · rw [huart, h.uart, hwritten, List.foldl_append]
    · rw [hcalls, h.outside, houtside, List.append_assoc]
    · intro hnone
      rw [hrunning hnone]
      exact h.running (h.off hon)
    · rw [← hanswer]
      split <;> rfl

theorem onVmm_simulates (g : Guest b Var) (s : VmmState) :
    Platform.Simulates g.onVmm g.onBoard (Follows g s) := by
  constructor
  · intro w t h a
    have he := h.exit (.vmFault (g.regs t.exits).pc a (g.loadFsr t.exits)) (g.loadEnv t.exits)
      (fun t => answerOr t a (g.boardLoad t a))
      fun hon => load_exited g a (h.on.trans hon) hon (h.off hon)
    rw [← h.exits] at he
    exact he
  · intro w t h a v
    have he := h.exit (.vmFault (g.regs t.exits).pc a (g.storeFsr t.exits)) (g.storeEnv t.exits v)
      (fun t => answerOr t a (g.boardStore t a v))
      fun hon => store_exited g a v (h.on.trans hon) hon (h.off hon)
    rw [← h.exits] at he
    refine ⟨he.1, ?_⟩
    have hsome := congrArg Option.isSome he.2
    rw [Option.isSome_map] at hsome
    exact hsome
  · intro w t h x0
    have he := h.exit (.vcpuFault (g.smcHsr t.exits)) (g.smcEnv t.exits x0)
      (fun t => g.boardSmc t x0) fun hon => smc_exited g x0 (h.on.trans hon) hon (h.off hon)
    rw [← h.exits] at he
    exact he
  · intro w t h v
    show g.value w.exits.length v = g.value t.exits v
    rw [h.exits]

theorem follows_start (hrunning : s.state = .running) (hon : s.vcpuOn g.vcpu = true) :
    Follows g s ⟨s, []⟩ {} := by
  refine ⟨rfl, rfl, rfl, (List.append_nil _).symm, hon, fun _ => hrunning, ?_, fun _ => rfl⟩
  intro fault h
  cases h

/-- A guest does on the VMM what it does on the board, whatever its program: it gets the same
answers and gets equally far, its exits are a run of the VMM, the VMM has put the same bytes
through the UART emulation and made the same accesses outside, and the guest was stopped
exactly where the board has nothing to answer, and for that. -/
theorem vmm_is_board (b : Build) {Var : Type} (g : Guest b Var) (polls : Nat)
    (p : GuestProgram Var) {s : VmmState} (hrunning : s.state = .running)
    (hon : s.vcpuOn g.vcpu = true) :
    (g.onVmm.run polls p ⟨s, []⟩).2 = (g.onBoard.run polls p {}).2 ∧
      Follows g s (g.onVmm.run polls p ⟨s, []⟩).1 (g.onBoard.run polls p {}).1 := by
  have h := (onVmm_simulates g s).run polls p (follows_start hrunning hon)
  exact ⟨h.2, h.1⟩

end

end Guest

/-! ## A guest of the Linux build, with a watchdog -/

def boardBuild : Build :=
  { linuxBuild with
    watchdog := some
      { name := "watchdog_cl0", gpa := 0x10060000, size := 0x100, vmmVaddr := 0x2000000 } }

theorem aarch64_loads : LoadsWord .aarch64 0x810000 1 where
  read := by decide
  width := by decide
  emulates regs offset val := by
    have hreg : Libvmm.syndromeReg 0x810000 = 1 := by decide
    have hmask : UInt64.ofNat (2 ^ (8 * Libvmm.syndromeWidth 0x810000) - 1) = 0xffffffff := by
      decide
    simp only [Libvmm.aarch64, hreg]
    show (Function.update regs.x 1 _ 1).toUInt32 = val
    have hones : (0xffffffff : UInt32) = -1 := by decide
    rw [Function.update_self, hmask]
    simp [hones]

theorem aarch64_stores : StoresWord .aarch64 0x810040 1 where
  write := by decide
  data regs := by
    have hreg : Libvmm.syndromeReg 0x810040 = 1 := by decide
    simp only [Libvmm.aarch64, hreg]
    rfl

theorem board_vcpu : 0 < boardBuild.numVcpus := by decide

theorem aarch64_smcs :
    Libvmm.aarch64.hsrExceptionClass 0x5c000000 = Libvmm.aarch64.hsrSmc64Exception := by decide

/-- No interrupt controller is accessed, the watchdog reads 0x8021, PSCI answers 1.1 and EL3
answers 1.5. -/
def boardGuest : Guest boardBuild Unit where
  vcpu := 0
  regs _ := {}
  rt _ := 1
  loadFsr _ := 0x810000
  storeFsr _ := 0x810040
  smcHsr _ := 0x5c000000
  deviceWord _ := 0x8021
  vgic _ := none
  psci _ := some (({} : UserContext).set 0 0x10001)
  powered _ vcpu := vcpu = 0
  response _ _ := 0x10005
  advance _ := true
  value _ _ := 0
  exists_vcpu := board_vcpu
  loads _ := aarch64_loads
  stores _ := aarch64_stores
  smcs _ := aarch64_smcs

/-- Waits for the UART and writes what it reads of the watchdog, of PSCI and of EL3, and then
asks for memory that is not there. -/
def hello : GuestProgram Unit :=
  .load 0x10060000 fun wtcon => .call 0x84000000 fun psci => .call 0x80000000 fun smccc =>
  .await (0x10870000 + exynosUartUtrstat) (fun v => v &&& exynosUartUtrstatTxfe != 0) <|
  .store (0x10870000 + exynosUartUtxh) wtcon <|
  .store (0x10870000 + exynosUartUtxh) psci.toUInt32 <|
  .store (0x10870000 + exynosUartUtxh) smccc.toUInt32 <|
  .load 0xdead0000 fun _ => .done

def boardStarted : VmmState := VmmState.runCommand boardBuild {}
  { id := 1, verb := cmdVerbGuestStart, arg := 0 }
  { load := some { pc := 0x80000000, dtb := 0x8f000000, initrd := 0x8d000000 }, write := .ok () }

theorem vmm_is_board_hello :
    boardStarted.state = .running ∧ boardStarted.vcpuOn boardGuest.vcpu = true ∧
      let o := boardGuest.onVmm.run 1 hello ⟨boardStarted, []⟩
      o.2 = .halted ∧
      Guest.Follows boardGuest boardStarted o.1 (boardGuest.onBoard.run 1 hello {}).1 ∧
      o.1.vmm.uart = [0x21, 0x01, 0x05].foldl ExynosUartEmul.consolePutc boardStarted.uart ∧
      o.1.vmm.calls.filter Guest.isOutside = boardStarted.calls.filter Guest.isOutside ++
        [.deviceRead 0x2000000, .armSmcCall (smcRequest (boardGuest.smcRegs 2 0x80000000))] ∧
      o.1.vmm.lastFault.fault = { kind := .memory, detail := 0xdead0000 } := by
  obtain ⟨hending, hfollows⟩ :=
    Guest.vmm_is_board boardBuild boardGuest 1 hello (s := boardStarted) rfl rfl
  have houtside : (boardGuest.onBoard.run 1 hello {}).1.outside =
      [.deviceRead 0x2000000, .armSmcCall (smcRequest (boardGuest.smcRegs 2 0x80000000))] := rfl
  have hrefused : (boardGuest.onBoard.run 1 hello {}).1.refused =
      some { kind := .memory, detail := 0xdead0000 } := rfl
  exact ⟨rfl, rfl, hending.trans rfl, hfollows, hfollows.uart,
    hfollows.outside.trans (by rw [houtside]), (hfollows.refused _ hrefused).2⟩

end Vmm
end TensorSel4
