/-
What uartrx does outside its own memory, and the functions that its commands run.

Handling a received byte is a list of operations on the shared rings.
`cmd_to_vmm` is one of them here and is taken apart in `Command/Ring.lean`.  The
kernel's debug calls touch none of the rings; the text that `cs_sample_all`
prints and the times that `seL4_DebugTLBIStress` returns are the environment's.
-/
import TensorSel4.Bytes.Decimal
import TensorSel4.Trace.Pipeline
import TensorSel4.Uartrx.Args

namespace TensorSel4
namespace Uartrx

open Bytes Trace Vmm

inductive Op
  /-- `console_putc`. -/
  | putc (c : UInt8)
  /-- `console_flush`. -/
  | flush
  | traceEmit (rec : TraceRecord)
  /-- The increment of `dump_requests`. -/
  | requestDump
  | cmdToVmm (cmd : CmdEntry)

/-- What the calls outside the repository return while one line is handled. -/
structure HostEnv where
  samples : List UInt8 := []
  tlbiWorst : Nat → UInt64 := fun _ => 0

def consolePuts (s : List UInt8) : List Op := s.map .putc

def consolePutdec (val : UInt64) : List Op := consolePuts (decimal val)

def consolePuthex32 (val : UInt32) : List Op :=
  consolePuts (ascii "0x") ++ (List.range 8).map fun i =>
    .putc ((ascii "0123456789abcdef").getD ((val.toNat >>> (28 - 4 * i)) % 16) 0)

def prompt : List Op := consolePuts (ascii "> ") ++ [.flush]

/-! ## Commands -/

def cmdVerbNone : UInt64 := 0
def cmdVerbPing : UInt64 := 1
def cmdVerbHelp : UInt64 := 3
def cmdVerbGicDump : UInt64 := 8
def cmdVerbPcSample : UInt64 := 9
def cmdVerbTlbiStress : UInt64 := 10

def cmdHelp : List Op :=
  consolePuts (ascii "commands:\n") ++
  consolePuts (ascii "  help         this list\n") ++
  consolePuts (ascii "  ping         answers pong\n") ++
  consolePuts (ascii "  trace-dump   print every trace record recorded so far\n") ++
  consolePuts (ascii ("  guest-start [linux | harness N] [vcpu K]  start a guest from a fresh image " ++
    "(refused while one runs)\n")) ++
  consolePuts (ascii ("               vcpu 0 = CPU 3 (A520), 1 = CPU 6 (A720), 2 = CPU 7 (X4); " ++
    "1 and 2 only in the lab build\n")) ++
  consolePuts (ascii "  guest-stop   stop the running guest (refused if none is running)\n") ++
  consolePuts (ascii "  status       show whether the guest is running, and why it stopped\n") ++
  consolePuts (ascii ("  guest-regs   print the guest vCPU's registers " ++
    "(stalls the vCPU's core)\n")) ++
  consolePuts (ascii ("  gic-dump     print every core's GIC redistributor state " ++
    "(debug kernel)\n")) ++
  consolePuts (ascii "  pc-sample    sample every core's PC, EL and security state via CoreSight\n") ++
  consolePuts (ascii "  tlbi-stress  10M broadcast TLB invalidations from CPU 2 (debug kernel)\n")

def cmdPing : List Op := consolePuts (ascii "pong\n")

def cmdPcSample (env : HostEnv) : List Op :=
  consolePuts (ascii ("sampling every core's PC through CoreSight " ++
    "(exynos-coresight sequence)\n")) ++ consolePuts env.samples

def tlbiStressBatches : Nat := 1000
def tlbiStressBatch : Nat := 10000
def tlbiStressReportEvery : Nat := 100

def tlbiStressProgress (batches : Nat) (worst : UInt64) : List Op :=
  consolePuts (ascii "tlbi-stress: ") ++
  consolePutdec (UInt64.ofNat (batches * tlbiStressBatch)) ++
  consolePuts (ascii " broadcast invalidations completed, worst tlbi+dsb ") ++
  consolePutdec worst ++ consolePuts (ascii " ticks\n") ++ [.flush]

/-- The largest of the first `n` batches' times. -/
def tlbiWorstOf (env : HostEnv) (n : Nat) : UInt64 :=
  (List.range n).foldl (fun worst i => max worst (env.tlbiWorst i)) 0

def cmdTlbiStress (env : HostEnv) : List Op :=
  consolePuts (ascii ("tlbi-stress: tlbi vaale1is + dsb ish from CPU 2 in the kernel; " ++
    "don't type until it finishes\n")) ++ [.flush] ++
  ((List.range tlbiStressBatches).flatMap fun i =>
    if (i + 1) % tlbiStressReportEvery = 0 then
      tlbiStressProgress (i + 1) (tlbiWorstOf env (i + 1))
    else []) ++
  consolePuts (ascii "tlbi-stress: done\n")

def cmdGicDump : List Op :=
  consolePuts (ascii "dumping GIC state; the kernel prints it directly\n") ++ [.flush]

def cmdTraceDump : List Op := consolePuts (ascii "dumping trace\n") ++ [.requestDump]

structure Command where
  name : List UInt8
  verb : UInt64
  run : HostEnv → CmdEntry → List Op

def commands : List Command :=
  [ { name := ascii "help", verb := cmdVerbHelp, run := fun _ _ => cmdHelp },
    { name := ascii "ping", verb := cmdVerbPing, run := fun _ _ => cmdPing },
    { name := ascii "trace-dump", verb := cmdVerbTraceDump, run := fun _ _ => cmdTraceDump },
    { name := ascii "guest-start", verb := cmdVerbGuestStart, run := fun _ cmd => [.cmdToVmm cmd] },
    { name := ascii "guest-stop", verb := cmdVerbGuestStop, run := fun _ cmd => [.cmdToVmm cmd] },
    { name := ascii "status", verb := cmdVerbStatus, run := fun _ cmd => [.cmdToVmm cmd] },
    { name := ascii "guest-regs", verb := cmdVerbGuestRegs, run := fun _ cmd => [.cmdToVmm cmd] },
    { name := ascii "gic-dump", verb := cmdVerbGicDump, run := fun _ _ => cmdGicDump },
    { name := ascii "pc-sample", verb := cmdVerbPcSample, run := fun env _ => cmdPcSample env },
    { name := ascii "tlbi-stress", verb := cmdVerbTlbiStress,
      run := fun env _ => cmdTlbiStress env } ]

def lookup (verb : List UInt8) : Option Command := commands.find? fun c => wordIs verb c.name

/-- The records that operations emit. -/
def recordsOf (ops : List Op) : List TraceRecord :=
  ops.filterMap fun
    | .traceEmit rec => some rec
    | _ => none

/-! ## Operations that only print -/

@[simp]
def Op.prints : Op → Bool
  | .putc _ | .flush => true
  | _ => false

/-- The operations print and do nothing else. -/
def Prints (ops : List Op) : Prop := ∀ op ∈ ops, op.prints = true

@[simp]
theorem prints_nil : Prints [] := List.forall_mem_nil _

@[simp]
theorem prints_cons {op : Op} {ops : List Op} :
    Prints (op :: ops) ↔ op.prints = true ∧ Prints ops := List.forall_mem_cons

@[simp]
theorem prints_append {ops more : List Op} : Prints (ops ++ more) ↔ Prints ops ∧ Prints more :=
  List.forall_mem_append

@[simp]
theorem prints_consolePuts (s : List UInt8) : Prints (consolePuts s) := by
  intro op hop
  obtain ⟨c, -, rfl⟩ := List.mem_map.mp hop
  rfl

@[simp]
theorem prints_consolePuthex32 (val : UInt32) : Prints (consolePuthex32 val) := by
  apply prints_append.mpr
  refine ⟨prints_consolePuts _, ?_⟩
  intro op hop
  obtain ⟨i, -, rfl⟩ := List.mem_map.mp hop
  rfl

@[simp]
theorem prints_prompt : Prints prompt := by simp [prompt]

theorem prints_tlbiStressProgress (batches : Nat) (worst : UInt64) :
    Prints (tlbiStressProgress batches worst) := by
  simp [tlbiStressProgress, consolePutdec]

theorem prints_cmdTlbiStress (env : HostEnv) : Prints (cmdTlbiStress env) := by
  have hloop : Prints ((List.range tlbiStressBatches).flatMap fun i =>
      if (i + 1) % tlbiStressReportEvery = 0 then
        tlbiStressProgress (i + 1) (tlbiWorstOf env (i + 1))
      else []) := by
    intro op hop
    obtain ⟨i, -, hop⟩ := List.mem_flatMap.mp hop
    split at hop
    · exact prints_tlbiStressProgress _ _ op hop
    · cases hop
  simp [cmdTlbiStress, hloop]

/-- The verbs of the commands that are queued. -/
def vmmVerbs : List UInt64 := [cmdVerbGuestStart, cmdVerbGuestStop, cmdVerbStatus, cmdVerbGuestRegs]

/-- The VMM's commands are queued, `trace-dump` requests the dump, and the others print. -/
theorem run_cases {cmd : Command} (h : cmd ∈ commands) (env : HostEnv) (e : CmdEntry) :
    (Prints (cmd.run env e) ∨ cmd.run env e = cmdTraceDump) ∧ cmd.verb ∉ vmmVerbs ∨
      cmd.run env e = [.cmdToVmm e] ∧ cmd.verb ∈ vmmVerbs := by
  simp only [commands, List.mem_cons, List.not_mem_nil, or_false] at h
  rcases h with rfl | rfl | rfl | rfl | rfl | rfl | rfl | rfl | rfl | rfl
  · exact Or.inl ⟨Or.inl (by simp [cmdHelp]), by decide⟩
  · exact Or.inl ⟨Or.inl (prints_consolePuts _), by decide⟩
  · exact Or.inl ⟨Or.inr rfl, by decide⟩
  · exact Or.inr ⟨rfl, by simp [vmmVerbs]⟩
  · exact Or.inr ⟨rfl, by simp [vmmVerbs]⟩
  · exact Or.inr ⟨rfl, by simp [vmmVerbs]⟩
  · exact Or.inr ⟨rfl, by simp [vmmVerbs]⟩
  · exact Or.inl ⟨Or.inl (by simp [cmdGicDump]), by decide⟩
  · exact Or.inl ⟨Or.inl (by simp [cmdPcSample]), by decide⟩
  · exact Or.inl ⟨Or.inl (prints_cmdTlbiStress env), by decide⟩

/-! ## No command emits a record -/

theorem recordsOf_append (ops more : List Op) :
    recordsOf (ops ++ more) = recordsOf ops ++ recordsOf more := List.filterMap_append

theorem Prints.recordsOf_eq {ops : List Op} (h : Prints ops) : recordsOf ops = [] := by
  apply List.filterMap_eq_nil_iff.mpr
  intro op hop
  have hprints := h op hop
  cases op with
  | traceEmit => cases hprints
  | _ => rfl

theorem recordsOf_run {cmd : Command} (h : cmd ∈ commands) (env : HostEnv) (e : CmdEntry) :
    recordsOf (cmd.run env e) = [] := by
  rcases run_cases h env e with ⟨hprints | hrun, -⟩ | ⟨hrun, -⟩
  · exact hprints.recordsOf_eq
  · rw [hrun, cmdTraceDump, recordsOf_append, (prints_consolePuts _).recordsOf_eq]
    rfl
  · rw [hrun]
    rfl

end Uartrx
end TensorSel4
