/-
The harness's program.

`harness.c`, `harness_uart.c` and `lab_run` of `lab.c` as a guest's program: the
accesses and calls that leave the guest, and the values that it reads and prints.
Barriers, TLB maintenance and system registers do not leave it.  The accesses of the
page-table rounds are those of `WalkRounds`, on the memory and the cache that the
rounds before them have left.  Modes 1 to 7 never return, so a program is cut after
some number of reports.
-/
import TensorSel4.Bytes.Decimal
import TensorSel4.Harness.Vectors
import TensorSel4.Harness.WalkRounds
import TensorSel4.Uartrx.Args
import TensorSel4.Vmm.Board

namespace TensorSel4
namespace Harness
namespace Transcript

open Bytes Translation Uartrx Vmm

def harnessUartGpa : UInt64 := 0x10870000
def harnessWatchdogGpa : UInt64 := 0x10060000
def harnessWatchdogWtcon : UInt64 := 0x00
def psciVersionFid : UInt64 := 0x84000000
def smcccVersion : UInt64 := 0x80000000
def harnessUnhandledSmcFid : UInt64 := 0x82000000
def gicdBase : UInt64 := 0x10400000
def gicrBase : UInt64 := 0x10440000
def gicrFrameSize : UInt64 := 0x20000
def gicrSgiOffset : UInt64 := 0x10000
def gicdCtlr : UInt64 := 0x0000
def gicdCtlrEnableG1ns : UInt32 := (1 : UInt32) <<< 1
def gicdCtlrAreNs : UInt32 := (1 : UInt32) <<< 4
def gicrIsenabler0 : UInt64 := 0x0100
def tlbiReportEvery : UInt64 := 1000000
def walkReportEvery : UInt64 := 100000

/-- What the harness reads of its own processor, and the counters of `lab_irq`. -/
inductive Var
  | timerIrqs
  | spuriousIrqs
  | mpidr
  | mmfr1
  | tcr
  | sctlr
  | esr
  | elr
  | far

abbrev Prog := GuestProgram Var

/-- The image, the processor and the RAM that the harness runs on. -/
structure Lab where
  layout : Layout
  cpu : Hafdbs
  /-- By report and round. -/
  gaps : Nat → Nat → Gaps
  /-- What the hardware does before `report_hw_update` reads the descriptor. -/
  reading : Nat → List Mmu.Idle
  words : Words
  zeroed : Zeroed layout words

/-- The rounds before a report. -/
@[irreducible]
def Lab.batch (lab : Lab) (n : Nat) : List Gaps :=
  (List.range walkReportEvery.toNat).map (lab.gaps n)

/-! ## harness_uart.c -/

def uartPutc (c : UInt8) (k : Prog) : Prog :=
  .await (harnessUartGpa + exynosUartUtrstat) (fun v => v &&& exynosUartUtrstatTxfe != 0)
    (.store (harnessUartGpa + exynosUartUtxh) c.toUInt32 k)

def uartPuts (s : List UInt8) (k : Prog) : Prog := s.foldr uartPutc k

/-- `"0123456789abcdef"[(val >> shift) & 0xf]` -/
def hexDigitAt (val : UInt64) (shift : Nat) : UInt8 :=
  (ascii "0123456789abcdef").getD ((val >>> UInt64.ofNat shift) &&& 0xf).toNat 0

/-- The digits from `shift = 4 * (digits - 1)` down. -/
def hexText (val : UInt64) : Nat → List UInt8
  | 0 => []
  | digits + 1 => hexDigitAt val (4 * digits) :: hexText val digits

def uartPuthex (val : UInt64) (digits : Nat) (k : Prog) : Prog :=
  uartPuts (ascii "0x") (uartPuts (hexText val digits) k)

def uartPuthex32 (val : UInt32) (k : Prog) : Prog := uartPuthex val.toUInt64 8 k

def uartPuthex64 (val : UInt64) (k : Prog) : Prog := uartPuthex val 16 k

/-- The buffer is filled as `decimal` fills it. -/
def uartPutdec (val : UInt64) (k : Prog) : Prog := uartPuts (decimal val) k

/-! ## lab.c -/

def report (mode done : UInt64) (what : String) (k : Prog) : Prog :=
  uartPuts (ascii "harness mode ") <| uartPutdec mode <| uartPuts (ascii ": ") <|
  uartPutdec done <| uartPuts (ascii what) <| uartPuts (ascii ", timer irqs ") <|
  .value .timerIrqs fun irqs => uartPutdec irqs <| uartPuts (ascii ", spurious ") <|
  .value .spuriousIrqs fun irqs => uartPutdec irqs <| uartPuts (ascii "\n") k

/-- It waits for ever after its line, with interrupts masked. -/
def labBadException (vector esr elr far : UInt64) : Prog :=
  uartPuts (ascii "harness: unexpected exception, vector ") <| uartPutdec vector <|
  uartPuts (ascii " ESR ") <| uartPuthex64 esr <| uartPuts (ascii " ELR ") <|
  uartPuthex64 elr <| uartPuts (ascii " FAR ") <| uartPuthex64 far <|
  uartPuts (ascii "\n") .more

/-- What a load or a store that faults goes on with.  Without `vectors` the harness has not set
`VBAR_EL1`, and where the processor goes is not the harness's code. -/
def dataAbort (vectors : Bool) : Prog :=
  match vectors, labVectors[vectorIndex .currentSpx .sync]? with
  | true, some (.badEntry vector) =>
    .value .esr fun esr => .value .elr fun elr => .value .far fun far =>
      labBadException vector esr elr far
  | _, _ => .more

def gicrSgiBase (mpidr : UInt64) : UInt64 :=
  gicrBase + (mpidr &&& 0xff) * gicrFrameSize + gicrSgiOffset

def timerIrqsOn (k : Prog) : Prog :=
  .store (gicdBase + gicdCtlr) (gicdCtlrAreNs ||| gicdCtlrEnableG1ns) <|
  .value .mpidr fun mpidr =>
    .store (gicrSgiBase mpidr + gicrIsenabler0) ((1 : UInt32) <<< vtimerIntid.toUInt32) <|
    uartPuts (ascii "harness: virtual timer firing every 100 us\n") k

def putReg (name : String) (val : UInt64) (k : Prog) : Prog :=
  uartPuts (ascii "harness: ") <| uartPuts (ascii name) <| uartPuts (ascii " ") <|
  uartPuthex64 val <| uartPuts (ascii "\n") k

def reportMmuRegs (k : Prog) : Prog :=
  .value .mmfr1 fun mmfr1 => .value .tcr fun tcr => .value .sctlr fun sctlr =>
    putReg "ID_AA64MMFR1_EL1" mmfr1 <| putReg "TCR_EL1" tcr <| putReg "SCTLR_EL1" sctlr k

def mmuOnLine (hwUpdates : Bool) : String :=
  if hwUpdates then "on\n" else "off\n"

/-- What `mmu_on` prints once the MMU is on. -/
def mmuOnReport (hwUpdates : Bool) (k : Prog) : Prog :=
  uartPuts (ascii "harness: MMU on, identity map, hardware AF and dirty updates ") <|
  uartPuts (ascii (mmuOnLine hwUpdates)) <| reportMmuRegs k

/-- `tlbi_forever`, for `reports` reports. -/
def tlbiForever (mode : UInt64) : Nat → UInt64 → Prog
  | 0, _ => .more
  | reports + 1, done =>
    report mode (done + tlbiReportEvery) " broadcast tlbi"
      (tlbiForever mode reports (done + tlbiReportEvery))

def hwUpdateLine (desc : UInt64) : String :=
  if updatedByHardware desc then
    "harness: hardware set AF and cleared the read-only bit\n"
  else "harness: FAIL: the descriptor was not updated by hardware\n"

def reportHwUpdate (desc : UInt64) (k : Prog) : Prog :=
  putReg "test page descriptor" desc <| uartPuts (ascii (hwUpdateLine desc)) k

/-- The loop of `walk_forever`; `s` is what the rounds so far have left. -/
def walkReports (lab : Lab) (mode : UInt64) (vectors : Bool) (walk : Walk) :
    Nat → Nat → UInt64 → Mmu → Prog
  | 0, _, _, _ => .more
  | reports + 1, n, done, s =>
    let r := regime lab.layout walk.hwUpdates lab.cpu
    let next (s : Mmu) : Prog :=
      report mode (done + walkReportEvery) " pte resets + tlbi + touch"
        (walkReports lab mode vectors walk reports (n + 1) (done + walkReportEvery) s)
    match walkRounds lab.layout lab.cpu walk (lab.batch n) s with
    | none => dataAbort vectors
    | some s =>
      if done = 0 ∧ walk.hwUpdates then
        match (s.idles r (lab.reading n)).load r (slot lab.layout) with
        | none => dataAbort vectors
        | some (desc, s) => reportHwUpdate desc (next s)
      else next s

def tlbiLine (broadcast : Bool) : String :=
  if broadcast then "harness: broadcast tlbi\n" else "harness: local tlbi\n"

def walkForever (lab : Lab) (mode : UInt64) (vectors : Bool) (walk : Walk) (reports : Nat) :
    Prog :=
  uartPuts (ascii (tlbiLine walk.broadcast)) <|
    walkReports lab mode vectors walk reports 0 0 (mmuOn lab.layout walk.hwUpdates lab.words)

def walkWith (lab : Lab) (mode : UInt64) (timer hwUpdates broadcast : Bool) (reports : Nat) :
    Prog :=
  let walk : Walk := { hwUpdates, broadcast }
  mmuOnReport hwUpdates <|
  if timer then timerIrqsOn (walkForever lab mode true walk reports)
  else walkForever lab mode false walk reports

def labRun (lab : Lab) (mode : UInt64) (reports : Nat) (k : Prog) : Prog :=
  uartPuts (ascii "harness mode ") <| uartPutdec mode <| uartPuts (ascii "\n") <|
  if mode = 1 then tlbiForever mode reports 0
  else if mode = 2 then timerIrqsOn (tlbiForever mode reports 0)
  else if mode = 3 then walkWith lab mode false true true reports
  else if mode = 4 then walkWith lab mode true true true reports
  else if mode = 5 then walkWith lab mode true false true reports
  else if mode = 6 then walkWith lab mode true true false reports
  else if mode = 7 then walkWith lab mode true false false reports
  else uartPuts (ascii "harness: unknown mode; modes are 1 to 7\n") k

/-! ## harness.c -/

def regression : Prog :=
  uartPuts (ascii "WTCON=") <|
  .load (harnessWatchdogGpa + harnessWatchdogWtcon) fun wtcon => uartPuthex32 wtcon <|
  uartPuts (ascii "\n") <| uartPuts (ascii "PSCI_VERSION=") <|
  .call psciVersionFid fun version => uartPuthex32 version.toUInt32 <|
  uartPuts (ascii "\n") <| uartPuts (ascii "SMCCC_VERSION=") <|
  .call smcccVersion fun version => uartPuthex32 version.toUInt32 <|
  uartPuts (ascii "\n") <|
  .call harnessUnhandledSmcFid fun _ => uartPuts (ascii "resumed\n") .done

def harnessMain (lab : Lab) (mode : UInt64) (reports : Nat) : Prog :=
  uartPuts (ascii "hello\n") <|
  if mode ≠ 0 then labRun lab mode reports regression else regression

end Transcript
end Harness
end TensorSel4
