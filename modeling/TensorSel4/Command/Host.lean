/-
uartrx as the command ring's sender.

uartrx handles one received byte at a time.  The line editor says which
operations the byte causes (`todo`), and `cmd_to_vmm` is carried out against the
ring, adding its own reports to them.  Operations on the other rings are single
steps here.  `records` is history: the records of the commands received.
-/
import TensorSel4.Command.Delivery
import TensorSel4.Uartrx.Commands

namespace TensorSel4
namespace Command

open Bytes Trace Uartrx Vmm

def vmmPhaseIdle : UInt64 := 0
def vmmPhaseFault : UInt64 := 1
def vmmPhaseNotified : UInt64 := 2

def vmmPhaseName (phase : UInt64) : List UInt8 :=
  if phase = vmmPhaseIdle then ascii "idle in its event loop"
  else if phase = vmmPhaseFault then ascii "inside fault()"
  else if phase = vmmPhaseNotified then ascii "inside notified()"
  else ascii "in an unknown phase"

/-- `struct vmm_breadcrumb`, as far as it is reported, with `since` as the
milliseconds since then. -/
structure VmmBreadcrumb where
  seq : UInt64 := 0
  phase : UInt64 := 0
  ms : UInt64 := 0
  label : UInt64 := 0
  mr0 : UInt64 := 0
  mr1 : UInt64 := 0
  consoleWaits : UInt64 := 0

def consolePuthex64 (val : UInt64) : List Op :=
  consolePuts (ascii "0x") ++ (List.range 16).map fun i =>
    .putc ((ascii "0123456789abcdef").getD ((val.toNat >>> (60 - 4 * i)) % 16) 0)

def reportVmmBreadcrumb (crumb : VmmBreadcrumb) : List Op :=
  consolePuts (ascii "UARTRX|WARN: VMM breadcrumb: ") ++ consolePuts (vmmPhaseName crumb.phase) ++
  consolePuts (ascii " for ") ++ consolePutdec crumb.ms ++
  consolePuts (ascii " ms, label/ch ") ++ consolePutdec crumb.label ++
  consolePuts (ascii " mr0 ") ++ consolePuthex64 crumb.mr0 ++
  consolePuts (ascii " mr1 ") ++ consolePuthex64 crumb.mr1 ++
  consolePuts (ascii ", seq ") ++ consolePutdec crumb.seq ++
  consolePuts (ascii ", console waits ") ++ consolePutdec crumb.consoleWaits ++
  consolePuts (ascii "\n")

/-- What `cmd_to_vmm` does when the ring is full. -/
def reportDropped : List Op :=
  consolePuts (ascii "UARTRX|ERROR: the VMM has too many commands queued; command dropped\n")

/-- What `cmd_to_vmm` does when the wait fails. -/
def reportUnfinished (id : UInt64) (crumb : VmmBreadcrumb) : List Op :=
  consolePuts (ascii "UARTRX|WARN: the VMM did not finish command ") ++ consolePutdec id ++
  consolePuts (ascii " within 2 s\n") ++ reportVmmBreadcrumb crumb

/-- The UART's registers that uartrx logs when it starts. -/
structure UartConfig where
  ulcon : UInt32 := 0
  ucon : UInt32 := 0
  ufcon : UInt32 := 0
  uintm : UInt32 := 0

def logUartReg (name : List UInt8) (val : UInt32) : List Op :=
  consolePuts (ascii "UARTRX|INFO: ") ++ consolePuts name ++ consolePuts (ascii " ") ++
  consolePuthex32 val ++ consolePuts (ascii "\n")

def logUartConfig (uart : UartConfig) : List Op :=
  logUartReg (ascii "ULCON") uart.ulcon ++ logUartReg (ascii "UCON") uart.ucon ++
  logUartReg (ascii "UFCON") uart.ufcon ++ logUartReg (ascii "UINTM") uart.uintm ++ [.flush]

/-- `init`, up to the loop that polls for bytes. -/
def uartrxInit (uart : UartConfig) : List Op := logUartConfig uart ++ prompt

def SendPc.messages : SendPc → List Op
  | .drop _ => reportDropped
  | _ => []

@[simp]
theorem prints_consolePuthex64 (val : UInt64) : Prints (consolePuthex64 val) := by
  apply prints_append.mpr
  refine ⟨prints_consolePuts _, ?_⟩
  intro op hop
  obtain ⟨i, -, rfl⟩ := List.mem_map.mp hop
  rfl

theorem prints_reportUnfinished (id : UInt64) (crumb : VmmBreadcrumb) :
    Prints (reportUnfinished id crumb) := by
  simp [reportUnfinished, reportVmmBreadcrumb, consolePutdec]

theorem prints_uartrxInit (uart : UartConfig) : Prints (uartrxInit uart) := by
  simp [uartrxInit, logUartConfig, logUartReg]

theorem SendPc.prints_messages (pc : SendPc) : Prints pc.messages := by
  cases pc with
  | drop => exact prints_consolePuts _
  | _ => exact prints_nil

structure HostState where
  uartrx : UartrxState := {}
  todo : List Op := []
  channel : CmdChannel := {}
  records : List TraceRecord := []

inductive Act
  /-- uartrx reads a byte. -/
  | rx (e : RxEvent)
  /-- The next operation of uartrx. -/
  | uartrx
  /-- The deadline of `wait_for_vmm` has passed. -/
  | timeOut (crumb : VmmBreadcrumb)
  /-- The VMM is notified on uartrx's channel. -/
  | notified
  /-- The next operation of `run_commands`. -/
  | vmm

namespace HostState

def rx (s : HostState) (e : RxEvent) : HostState :=
  { s with
    uartrx := (s.uartrx.rx e).1
    todo := (s.uartrx.rx e).2
    records := s.records ++ recordsOf (s.uartrx.rx e).2 }

/-- An operation that is none of the command ring's. -/
def skip (s : HostState) (ops : List Op) : HostState := { s with todo := ops }

def call (s : HostState) (cmd : CmdEntry) (ops : List Op) : HostState :=
  { s with todo := ops, channel := s.channel.call cmd }

def sender (s : HostState) : HostState :=
  { s with todo := s.channel.send.messages ++ s.todo, channel := s.channel.sender }

def giveUp (s : HostState) (cmd : CmdEntry) (crumb : VmmBreadcrumb) : HostState :=
  { s with todo := reportUnfinished cmd.id crumb ++ s.todo, channel := s.channel.giveUp }

def step (s : HostState) : Act → Option HostState
  | .rx e =>
    match s.channel.send, s.todo with
    | .idle, [] => some (s.rx e)
    | _, _ => none
  | .uartrx =>
    match s.channel.send, s.todo with
    | .idle, [] => none
    | .idle, .cmdToVmm cmd :: ops => some (s.call cmd ops)
    | .idle, _ :: ops => some (s.skip ops)
    | _, _ => some s.sender
  | .timeOut crumb =>
    match s.channel.send with
    | .checkDeadline cmd => some (s.giveUp cmd crumb)
    | _ => none
  | .notified =>
    match s.channel.run with
    | .idle => some { s with channel := s.channel.notified }
    | _ => none
  | .vmm =>
    match s.channel.run with
    | .idle => none
    | _ => some { s with channel := s.channel.receiver }

end HostState

/-- All interleavings, from the zeroed memory of boot and the start of uartrx. -/
def host (uart : UartConfig) : Automaton HostState Act where
  start := { todo := uartrxInit uart }
  step := HostState.step

end Command
end TensorSel4
