/-
`vmm/mmio_trace.c`, `uart_fault` of `vmm/exynos_uart_emul.c` and
`vmm/mmio_forward.c`.

A handler returns the registers to resume the vCPU with, or `none` where the
source returns false.
-/
import TensorSel4.Vmm.GuestControl

namespace TensorSel4
namespace Vmm

open Trace

/-- `struct mmio_forward`. -/
structure MmioForward where
  name : String
  gpa : UInt64
  size : UInt64
  vmmVaddr : UInt64

variable (lib : Libvmm)

def mmioRecord (vcpu : Nat) (pc addr fsr : UInt64) (flags : UInt8) (value : UInt64) :
    TraceRecord :=
  { pc, addr, value, esr := fsr.toUInt32, vcpu := UInt16.ofNat vcpu, kind := kindMmio,
    size := UInt8.ofNat (lib.faultGetWidthBytes fsr),
    flags := flags ||| if lib.faultIsWrite fsr then mmioWrite else 0 }

namespace VmmState

def mmioTraceEmit (s : VmmState) (vcpu : Nat) (pc addr fsr : UInt64) (flags : UInt8)
    (value : UInt64) : VmmState :=
  s.traceEmit (mmioRecord lib vcpu pc addr fsr flags value)

def mmioTrace (s : VmmState) (vcpu : Nat) (regs : UserContext) (addr fsr : UInt64)
    (flags : UInt8) (value : UInt64) : VmmState :=
  s.mmioTraceEmit lib vcpu regs.pc addr fsr flags value

def mmioTraceUnhandled (s : VmmState) (vcpu : Nat) (pc addr fsr : UInt64) : VmmState :=
  s.mmioTraceEmit lib vcpu pc addr fsr mmioUnhandled 0

def uartRead (s : VmmState) (gpa : UInt64) (vcpu : Nat) (offset fsr : UInt64)
    (regs : UserContext) : VmmState × Option UserContext :=
  match uartReadValue offset with
  | none => (s.logVmm (.uartReadUnemulated offset), none)
  | some val =>
    let regs := lib.faultEmulateWrite regs offset fsr val.toUInt64
    (s.mmioTrace lib vcpu regs (gpa + offset) fsr 0 val.toUInt64, some regs)

def uartWrite (s : VmmState) (gpa : UInt64) (vcpu : Nat) (offset fsr : UInt64)
    (regs : UserContext) : VmmState × Option UserContext :=
  if offset = exynosUartUtxh then
    let val := lib.faultGetData regs fsr
    let s := s.mmioTrace lib vcpu regs (gpa + offset) fsr 0 val
    ({ s with uart := s.uart.consolePutc (val &&& 0xff).toUInt8 }, some regs)
  else
    (s.logVmm (.uartWriteUnemulated offset), none)

def uartFault (s : VmmState) (gpa : UInt64) (vcpu : Nat) (offset fsr : UInt64)
    (regs : UserContext) : VmmState × Option UserContext :=
  if lib.faultIsWrite fsr then s.uartWrite lib gpa vcpu offset fsr regs
  else s.uartRead lib gpa vcpu offset fsr regs

def forwardAccessSupported (s : VmmState) (fwd : MmioForward) (offset fsr : UInt64) :
    VmmState × Bool :=
  if lib.faultIsWrite fsr then
    (s.logVmm (.writeNotForwarded fwd.name offset), false)
  else if lib.faultGetWidthBytes fsr ≠ 4 ∨ offset &&& 3 ≠ 0 then
    (s.logVmm (.widthNotForwarded fwd.name (lib.faultGetWidthBytes fsr) offset), false)
  else
    (s, true)

def forwardFault (s : VmmState) (fwd : MmioForward) (vcpu : Nat) (offset fsr : UInt64)
    (regs : UserContext) (env : CallEnv) : VmmState × Option UserContext :=
  match s.forwardAccessSupported lib fwd offset fsr with
  | (s, false) => (s, none)
  | (s, true) =>
    let s := s.call (.deviceRead (fwd.vmmVaddr + offset))
    let val := env.deviceWord.toUInt64
    let regs := lib.faultEmulateWrite regs offset fsr val
    (s.mmioTrace lib vcpu regs (fwd.gpa + offset) fsr mmioForwarded val, some regs)

end VmmState
end Vmm
end TensorSel4
