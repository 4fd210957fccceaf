/-
The VMM's state and `vmm/guest_control.c`.

`vcpuOn` is libvmm's record of which vCPUs are on.  `trace` holds the records
handed to `trace_emit`, `calls` the calls with an effect outside the VMM, and
`log` the messages of `LOG_VMM` and `LOG_VMM_ERR`: three histories that no
function reads.  The exit counters of `guest_stats.c` and the breadcrumb are
left out, since only messages read them.
-/
import TensorSel4.Trace.Record
import TensorSel4.Vmm.ExynosUartEmul
import TensorSel4.Vmm.Libvmm

namespace TensorSel4
namespace Vmm

open Trace

inductive GuestState
  | notStarted
  | running
  | stoppedByCommand
  | stoppedByFault
  | startFailed
  deriving DecidableEq

inductive GuestFaultKind
  | smc
  | memory
  | vcpu
  | other
  deriving DecidableEq

structure GuestFault where
  kind : GuestFaultKind := .smc
  detail : UInt64 := 0
  deriving DecidableEq

structure FaultStop where
  pc : UInt64 := 0
  fault : GuestFault := {}
  deriving DecidableEq

/-- `struct guest_boot`. -/
structure GuestBoot where
  pc : UInt64
  dtb : UInt64
  initrd : UInt64

/-- The VMM's messages, with the values they print. -/
inductive Log
  | writeRegistersFailed (vcpu : Nat) (err : Nat)
  | noSuchVcpu (vcpu numVcpus : Nat)
  | imageNotLoaded (select : UInt64)
  | failedToStart (run : UInt64) (vcpu : Nat)
  | startRefused (run : UInt64)
  | started (run select : UInt64) (vcpu : Nat)
  | stopRefused
  | stopped (run : UInt64)
  | notStarted
  | running (run : UInt64)
  | stoppedByCommand (run : UInt64)
  | stoppedByFault (run : UInt64) (stop : FaultStop)
  | startFailed (run : UInt64)
  | regsRefused
  | regs (run : UInt64)
  | readRegistersFailed (err : Nat)
  | notVmmCommand (id verb : UInt64)
  | smcNotHandled (x0 pc : UInt64)
  | uartReadUnemulated (offset : UInt64)
  | uartWriteUnemulated (offset : UInt64)
  | writeNotForwarded (name : String) (offset : UInt64)
  | widthNotForwarded (name : String) (width : Nat) (offset : UInt64)

/-- libvmm's boot vCPU. -/
def guestBootVcpuId : Nat := 0

def guestSelectVcpu (select : UInt64) : UInt64 := (select >>> 16) &&& 0xff

/-- The outcomes of the two calls a `guest-start` makes that can fail. -/
structure StartEnv where
  load : Option GuestBoot
  write : SeL4Result Unit

def spsrPmodeEl1h : UInt64 := 5
def spsrFiqMaskBit : UInt64 := (1 : UInt64) <<< 6
def spsrIrqMaskBit : UInt64 := (1 : UInt64) <<< 7
def spsrAsyncAbortMaskBit : UInt64 := (1 : UInt64) <<< 8

structure VmmState where
  state : GuestState := .notStarted
  run : UInt64 := 0
  runVcpu : Nat := guestBootVcpuId
  lastFault : FaultStop := {}
  uart : ExynosUartEmul := {}
  vcpuOn : Nat → Bool := fun _ => false
  trace : List TraceRecord := []
  calls : List Call := []
  log : List Log := []

def guestRecord (event run : UInt64) (vcpu : Nat) (pc : UInt64) : TraceRecord :=
  { pc, addr := event, value := run, vcpu := UInt16.ofNat vcpu, kind := kindGuest }

namespace VmmState

def traceEmit (s : VmmState) (rec : TraceRecord) : VmmState :=
  { s with trace := s.trace ++ [rec] }

def call (s : VmmState) (c : Call) : VmmState := { s with calls := s.calls ++ [c] }

def logVmm (s : VmmState) (l : Log) : VmmState := { s with log := s.log ++ [l] }

def vcpuSetOn (s : VmmState) (vcpu : Nat) (on : Bool) : VmmState :=
  { s with vcpuOn := Function.update s.vcpuOn vcpu on }

def traceGuestEvent (s : VmmState) (event pc : UInt64) : VmmState :=
  s.traceEmit (guestRecord event s.run s.runVcpu pc)

def startVcpu (s : VmmState) (vcpu : Nat) (boot : GuestBoot) (write : SeL4Result Unit) :
    VmmState × Bool :=
  let regs : UserContext :=
    { pc := boot.pc
      spsr := spsrPmodeEl1h ||| spsrAsyncAbortMaskBit ||| spsrIrqMaskBit ||| spsrFiqMaskBit
      x := Function.update (fun _ => 0) 0 boot.dtb }
  let s := s.call (.writeRegisters vcpu regs)
  match write with
  | .error err => (s.logVmm (.writeRegistersFailed vcpu err), false)
  | .ok () => ((s.vcpuSetOn vcpu true).call (.vcpuRestart vcpu regs.pc), true)

/-- From `run_vcpu = vcpu` to the STARTED record. -/
def beginRun (s : VmmState) (vcpu : Nat) (boot : GuestBoot) : VmmState :=
  let s := { s with runVcpu := vcpu }
  let s := s.call (.vcpuReset vcpu)
  let s := { s with run := s.run + 1 }
  s.traceGuestEvent guestStarted boot.pc

def bootFresh (s : VmmState) (numVcpus : Nat) (select : UInt64) (env : StartEnv) :
    VmmState × Bool :=
  let vcpu := (guestSelectVcpu select).toNat
  if numVcpus ≤ vcpu then
    ({ s.logVmm (.noSuchVcpu vcpu numVcpus) with state := .startFailed }, false)
  else
    match env.load with
    | none => ({ s.logVmm (.imageNotLoaded select) with state := .startFailed }, false)
    | some boot =>
      match (s.beginRun vcpu boot).startVcpu vcpu boot env.write with
      | (s, false) =>
        ({ s.logVmm (.failedToStart s.run s.runVcpu) with state := .startFailed }, false)
      | (s, true) => ({ s with state := .running }, true)

def guestControlStart (s : VmmState) (numVcpus : Nat) (select : UInt64) (env : StartEnv) :
    VmmState :=
  if s.state = .running then
    s.logVmm (.startRefused s.run)
  else
    match s.bootFresh numVcpus select env with
    | (s, false) => s
    | (s, true) => s.logVmm (.started s.run select s.runVcpu)

def printFaultStop (s : VmmState) : VmmState := s.logVmm (.stoppedByFault s.run s.lastFault)

def guestControlStatus (s : VmmState) : VmmState :=
  match s.state with
  | .notStarted => s.logVmm .notStarted
  | .running => s.logVmm (.running s.run)
  | .stoppedByCommand => s.logVmm (.stoppedByCommand s.run)
  | .stoppedByFault => s.printFaultStop
  | .startFailed => s.logVmm (.startFailed s.run)

def guestControlRegs (s : VmmState) : VmmState :=
  if s.state = .notStarted then
    s.logVmm .regsRefused
  else
    (s.logVmm (.regs s.run)).call (.printRegs s.runVcpu)

/-- `microkit_vcpu_stop` and `vcpu_set_on(vcpu, false)`. -/
def vcpuOff (s : VmmState) (vcpu : Nat) : VmmState :=
  (s.call (.vcpuStop vcpu)).vcpuSetOn vcpu false

def guestControlStop (s : VmmState) : VmmState :=
  if s.state = .running then
    let s := { s.vcpuOff s.runVcpu with state := .stoppedByCommand }
    (s.traceGuestEvent guestStoppedByCommand 0).logVmm (.stopped s.run)
  else
    (s.logVmm .stopRefused).guestControlStatus

def guestControlFaultStopped (s : VmmState) (vcpu : Nat) (fault : GuestFault)
    (read : SeL4Result UserContext) : VmmState :=
  let (s, regs) : VmmState × UserContext :=
    match read with
    | .error err => (s.logVmm (.readRegistersFailed err), {})
    | .ok regs => (s, regs)
  let s := s.vcpuOff vcpu
  let fault := if fault.kind = .smc then { fault with detail := regs.x 0 } else fault
  let s := { s with lastFault := { pc := regs.pc, fault }, state := .stoppedByFault }
  (s.traceGuestEvent guestStoppedByFault regs.pc).printFaultStop

end VmmState
end Vmm
end TensorSel4
