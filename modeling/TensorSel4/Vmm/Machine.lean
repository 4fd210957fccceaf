/-
`vmm/vmm.c`: the commands, the guest's exits, and the VMM as an automaton.

Its labels are the commands that uartrx queued and the exits of vCPUs that are
on, each with the outcomes of the calls made while it is handled.  libvmm's
`fault_handle` passes a memory fault to the first handler registered for the
address, and resumes the guest with the handler's registers if it accepts.
-/
import TensorSel4.Automaton.Run
import TensorSel4.Vmm.Mmio
import TensorSel4.Vmm.SmcPolicy

namespace TensorSel4
namespace Vmm

open Trace

/-- The callbacks of `fault_register_vm_exception_handler`. -/
inductive Callback
  | uart (gpa : UInt64)
  | forward (fwd : MmioForward)
  /-- One of libvmm's own. -/
  | libvmm

structure VmExceptionHandler where
  base : UInt64
  size : UInt64
  callback : Callback

def VmExceptionHandler.covers (h : VmExceptionHandler) (addr : UInt64) : Bool :=
  h.base ≤ addr && addr - h.base < h.size

def exynosUartEmulInit (gpa size : UInt64) : VmExceptionHandler :=
  { base := gpa, size, callback := .uart gpa }

def mmioForwardReadOnlyInit (fwd : MmioForward) : Option VmExceptionHandler :=
  if fwd.vmmVaddr = 0 ∨ fwd.size = 0 then none
  else some { base := fwd.gpa, size := fwd.size, callback := .forward fwd }

/-- A build of the VMM for a board. -/
structure Build where
  lib : Libvmm
  numVcpus : Nat
  /-- The regions that `guest_init` registers handlers of libvmm's for. -/
  libvmmRegions : List (UInt64 × UInt64)
  uartGpa : UInt64
  uartSize : UInt64
  watchdog : Option MmioForward

/-- The handlers that `init` leaves registered. -/
def Build.handlers (b : Build) : List VmExceptionHandler :=
  (b.libvmmRegions.map fun r => { base := r.1, size := r.2, callback := .libvmm }) ++
    exynosUartEmulInit b.uartGpa b.uartSize ::
    (b.watchdog.bind mmioForwardReadOnlyInit).toList

/-- `guests/linux/guest_map.h`. -/
def linuxBuild : Build where
  lib := .aarch64
  numVcpus := 1
  libvmmRegions := [(0x10400000, 0x10000), (0x10440000, 0x20000)]
  uartGpa := 0x10870000
  uartSize := 0x100
  watchdog := none

/-- The fault message that a vCPU's exit delivers. -/
inductive Fault
  | vmFault (ip addr fsr : UInt64)
  | vcpuFault (hsr : UInt64)
  | other (label : UInt64)

def guestFaultOf : Fault → GuestFault
  | .vmFault _ addr _ => { kind := .memory, detail := addr }
  | .vcpuFault hsr => { kind := .vcpu, detail := hsr }
  | .other label => { kind := .other, detail := label }

def smcFaultHsr (lib : Libvmm) : Fault → Option UInt64
  | .vcpuFault hsr =>
    if lib.hsrExceptionClass hsr = lib.hsrSmc64Exception then some hsr else none
  | _ => none

def cmdVerbGuestStart : UInt64 := 4
def cmdVerbGuestStop : UInt64 := 5
def cmdVerbStatus : UInt64 := 6
def cmdVerbGuestRegs : UInt64 := 7

/-- `struct cmd_entry`. -/
structure CmdEntry where
  id : UInt64
  verb : UInt64
  arg : UInt64

namespace VmmState

def runCommand (b : Build) (s : VmmState) (cmd : CmdEntry) (env : StartEnv) : VmmState :=
  if cmd.verb = cmdVerbGuestStart then s.guestControlStart b.numVcpus cmd.arg env
  else if cmd.verb = cmdVerbGuestStop then s.guestControlStop
  else if cmd.verb = cmdVerbStatus then s.guestControlStatus
  else if cmd.verb = cmdVerbGuestRegs then s.guestControlRegs
  else s.logVmm (.notVmmCommand cmd.id cmd.verb)

def callback (b : Build) (s : VmmState) (c : Callback) (vcpu : Nat) (offset fsr : UInt64)
    (regs : UserContext) (env : CallEnv) : VmmState × Option UserContext :=
  match c with
  | .uart gpa => s.uartFault b.lib gpa vcpu offset fsr regs
  | .forward fwd => s.forwardFault b.lib fwd vcpu offset fsr regs env
  | .libvmm => (s, env.libvmmHandler)

/-- libvmm's handling of a memory fault. -/
def vmFaultHandle (b : Build) (s : VmmState) (vcpu : Nat) (addr fsr : UInt64)
    (regs : UserContext) (env : CallEnv) : VmmState × Bool :=
  match b.handlers.find? (·.covers addr) with
  | none => (s, false)
  | some h =>
    match s.callback b h.callback vcpu (addr - h.base) fsr regs env with
    | (s, none) => (s, false)
    | (s, some regs) => (s.call (.faultAdvanceVcpu vcpu regs), true)

/-- `fault_handle`. -/
def faultHandle (b : Build) (s : VmmState) (vcpu : Nat) (f : Fault) (env : CallEnv) :
    VmmState × Bool :=
  match f with
  | .vmFault _ addr fsr => s.vmFaultHandle b vcpu addr fsr env.faultRegs env
  | _ => (s, env.libvmmHandler.isSome)

def guestFaultHandle (b : Build) (s : VmmState) (vcpu : Nat) (f : Fault) (env : CallEnv) :
    VmmState × Bool :=
  match s.faultHandle b vcpu f env with
  | (s, true) => (s, true)
  | (s, false) =>
    match f with
    | .vmFault ip addr fsr => (s.mmioTraceUnhandled b.lib vcpu ip addr fsr, false)
    | _ => (s, false)

/-- The two ways `handle_fault` handles an exit, with what it stops for. -/
def faultDispatch (b : Build) (s : VmmState) (vcpu : Nat) (f : Fault) (env : CallEnv) :
    (VmmState × Bool) × GuestFault :=
  match smcFaultHsr b.lib f with
  | some hsr => (s.smcPolicyHandle vcpu hsr env, {})
  | none => (s.guestFaultHandle b vcpu f env, guestFaultOf f)

/-- `handle_fault`, with whether it resumes the vCPU. -/
def handleFault (b : Build) (s : VmmState) (vcpu : Nat) (f : Fault) (env : CallEnv) :
    VmmState × Bool :=
  match s.faultDispatch b vcpu f env with
  | ((s, true), _) => (s, true)
  | ((s, false), stop) => (s.guestControlFaultStopped vcpu stop env.stopRegs, false)

end VmmState

inductive Event
  | command (cmd : CmdEntry) (env : StartEnv)
  | exit (vcpu : Nat) (f : Fault) (env : CallEnv)

namespace Event

def guestStart (select : UInt64) (env : StartEnv) : Event :=
  .command { id := 1, verb := cmdVerbGuestStart, arg := select } env

def guestStop : Event :=
  .command { id := 1, verb := cmdVerbGuestStop, arg := 0 } { load := none, write := .ok () }

end Event

/-- A `guest-start` of Linux whose calls all succeed. -/
def linuxStart : Event :=
  .guestStart 0
    { load := some { pc := 0x80000000, dtb := 0x8f000000, initrd := 0x8d000000 }, write := .ok () }

namespace VmmState

/-- A vCPU that is off does not exit. -/
def step (b : Build) (s : VmmState) : Event → Option VmmState
  | .command cmd env => some (s.runCommand b cmd env)
  | .exit vcpu f env =>
    if vcpu < b.numVcpus ∧ s.vcpuOn vcpu = true then some (s.handleFault b vcpu f env).1
    else none

end VmmState

def vmm (b : Build) : Automaton VmmState Event where
  start := {}
  step := VmmState.step b

end Vmm
end TensorSel4
