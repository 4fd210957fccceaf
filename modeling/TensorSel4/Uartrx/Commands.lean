/-
What handling one byte does with commands.

At most one line ends with a byte.  If it holds a command, its record is emitted
first, and what follows queues exactly the command of that record, where it was
accepted and is one of the VMM's.
-/
import TensorSel4.Uartrx.LineEndings

namespace TensorSel4
namespace Uartrx

open Text Trace Vmm

/-- The verbs that `run_command` handles. -/
def forVmm (cmd : CmdEntry) : Bool :=
  cmd.verb = cmdVerbGuestStart ∨ cmd.verb = cmdVerbGuestStop ∨ cmd.verb = cmdVerbStatus ∨
    cmd.verb = cmdVerbGuestRegs

/-- The commands that operations hand to `cmd_to_vmm`. -/
def commandsOf (ops : List Op) : List CmdEntry :=
  ops.filterMap fun
    | .cmdToVmm cmd => some cmd
    | _ => none

theorem commandsOf_append (ops more : List Op) :
    commandsOf (ops ++ more) = commandsOf ops ++ commandsOf more := List.filterMap_append

theorem Prints.commandsOf_eq {ops : List Op} (h : Prints ops) : commandsOf ops = [] := by
  apply List.filterMap_eq_nil_iff.mpr
  intro op hop
  have hprints := h op hop
  cases op with
  | cmdToVmm => cases hprints
  | _ => rfl

theorem commandsOf_cmdTraceDump : commandsOf cmdTraceDump = [] := by
  rw [cmdTraceDump, commandsOf_append, (prints_consolePuts _).commandsOf_eq]
  rfl

theorem forVmm_iff (e : CmdEntry) : forVmm e = true ↔ e.verb ∈ vmmVerbs := by
  simp [forVmm, vmmVerbs]

/-- A command goes to the VMM exactly if its verb is one of the VMM's. -/
theorem commandsOf_run {cmd : Command} (h : cmd ∈ commands) (env : HostEnv) (e : CmdEntry)
    (hverb : e.verb = cmd.verb) : commandsOf (cmd.run env e) = [e].filter forVmm := by
  have hvmm := forVmm_iff e
  rw [hverb] at hvmm
  rcases run_cases h env e with ⟨hlocal, hnot⟩ | ⟨hrun, hyes⟩
  · rw [List.filter_cons_of_neg (mt hvmm.mp hnot), List.filter_nil]
    rcases hlocal with hprints | hdump
    · exact hprints.commandsOf_eq
    · rw [hdump]
      exact commandsOf_cmdTraceDump
  · rw [hrun, List.filter_cons_of_pos (hvmm.mpr hyes)]
    rfl

/-- The command that a record says has run. -/
def ranBy (rec : TraceRecord) : List CmdEntry := ([rec].filter accepted).map commandOf

theorem ranBy_of_accepted {rec : TraceRecord} (h : accepted rec = true) :
    ranBy rec = [commandOf rec] := by
  rw [ranBy, List.filter_cons_of_pos h]
  rfl

theorem ranBy_of_not_accepted {rec : TraceRecord} (h : ¬accepted rec = true) : ranBy rec = [] := by
  rw [ranBy, List.filter_cons_of_neg h]
  rfl

/-- `trace_emit` stamps a record without changing what it says. -/
theorem ranBy_payload (rec : TraceRecord) : ranBy rec.payload = ranBy rec := by
  by_cases h : accepted rec = true
  · rw [ranBy_of_accepted h]
    exact ranBy_of_accepted h
  · rw [ranBy_of_not_accepted h]
    exact ranBy_of_not_accepted h

/-- What the operations of one byte do with commands. -/
inductive Handled (u t : UartrxState) : List Op → Prop
  | quiet {ops : List Op} (hrecords : recordsOf ops = []) (hcommands : commandsOf ops = [])
      (hcount : t.commandsReceived = u.commandsReceived) (hran : t.ran = u.ran) :
      Handled u t ops
  | line {before after : List Op} {rec : TraceRecord}
      (hbefore : recordsOf before = [] ∧ commandsOf before = [])
      (hafter : recordsOf after = []) (hcommands : commandsOf after = (ranBy rec).filter forVmm)
      (hkind : rec.kind = kindCmd) (hvalue : rec.value = u.commandsReceived + 1)
      (hcount : t.commandsReceived = u.commandsReceived + 1) (hran : t.ran = u.ran ++ ranBy rec) :
      Handled u t (before ++ .traceEmit rec :: after)

theorem Handled.first {u t : UartrxState} {after : List Op} {rec : TraceRecord}
    (hafter : recordsOf after = []) (hcommands : commandsOf after = (ranBy rec).filter forVmm)
    (hkind : rec.kind = kindCmd) (hvalue : rec.value = u.commandsReceived + 1)
    (hcount : t.commandsReceived = u.commandsReceived + 1) (hran : t.ran = u.ran ++ ranBy rec) :
    Handled u t (.traceEmit rec :: after) :=
  @Handled.line u t [] after rec ⟨rfl, rfl⟩ hafter hcommands hkind hvalue hcount hran

/-- Only the counter and the history of the line editor matter. -/
theorem Handled.congr {u u' t t' : UartrxState} {ops : List Op} (h : Handled u t ops)
    (hu : u'.commandsReceived = u.commandsReceived ∧ u'.ran = u.ran)
    (ht : t'.commandsReceived = t.commandsReceived ∧ t'.ran = t.ran) : Handled u' t' ops := by
  cases h with
  | quiet hrecords hcommands hcount hran =>
    exact .quiet hrecords hcommands (by rw [ht.1, hu.1, hcount]) (by rw [ht.2, hu.2, hran])
  | line hbefore hafter hcommands hkind hvalue hcount hran =>
    exact .line hbefore hafter hcommands hkind (by rw [hu.1, hvalue]) (by rw [ht.1, hu.1, hcount])
      (by rw [ht.2, hu.2, hran])

namespace Handled

variable {u t : UartrxState} {ops : List Op}

theorem recordsOf_line {before after : List Op} (rec : TraceRecord)
    (hbefore : recordsOf before = []) (hafter : recordsOf after = []) :
    recordsOf (before ++ .traceEmit rec :: after) = [rec] := by
  rw [recordsOf_append, hbefore, List.nil_append]
  exact congrArg (rec :: ·) hafter

theorem commandsOf_line {before after : List Op} (rec : TraceRecord)
    (hbefore : commandsOf before = []) :
    commandsOf (before ++ .traceEmit rec :: after) = commandsOf after := by
  rw [commandsOf_append, hbefore, List.nil_append]
  rfl

theorem ran (h : Handled u t ops) :
    t.ran = u.ran ++ ((recordsOf ops).filter accepted).map commandOf := by
  cases h with
  | quiet hrecords hcommands hcount hran =>
    rw [hrecords, hran]
    exact (List.append_nil _).symm
  | line hbefore hafter hcommands hkind hvalue hcount hran =>
    rw [recordsOf_line _ hbefore.1 hafter, hran, ranBy]

theorem commands (h : Handled u t ops) :
    commandsOf ops = (((recordsOf ops).filter accepted).map commandOf).filter forVmm := by
  cases h with
  | quiet hrecords hcommands hcount hran =>
    rw [hrecords, hcommands]
    rfl
  | line hbefore hafter hcommands hkind hvalue hcount hran =>
    rw [recordsOf_line _ hbefore.1 hafter, commandsOf_line _ hbefore.2, hcommands, ranBy]

theorem count (h : Handled u t ops) :
    t.commandsReceived = u.commandsReceived + UInt64.ofNat (recordsOf ops).length := by
  cases h with
  | quiet hrecords hcommands hcount hran =>
    rw [hrecords, hcount]
    exact (UInt64.add_zero _).symm
  | line hbefore hafter hcommands hkind hvalue hcount hran =>
    rw [recordsOf_line _ hbefore.1 hafter, hcount]
    rfl

/-- A new record carries the number that the counter has afterwards. -/
theorem value (h : Handled u t ops) :
    (recordsOf ops).length ≤ 1 ∧ ∀ rec ∈ recordsOf ops, rec.value = t.commandsReceived := by
  cases h with
  | quiet hrecords hcommands hcount hran =>
    rw [hrecords]
    exact ⟨Nat.zero_le _, fun rec hrec => absurd hrec List.not_mem_nil⟩
  | line hbefore hafter hcommands hkind hvalue hcount hran =>
    rw [recordsOf_line _ hbefore.1 hafter]
    refine ⟨Nat.le_refl _, fun rec hrec => ?_⟩
    rw [List.mem_singleton.mp hrec, hvalue, hcount]

end Handled

namespace UartrxState

/-- The operations around a line's say nothing about commands. -/
theorem handled_around {u t : UartrxState} {ops first last : List Op} (h : Handled u t ops)
    (hfirst : recordsOf first = [] ∧ commandsOf first = [])
    (hlast : recordsOf last = [] ∧ commandsOf last = []) : Handled u t (first ++ ops ++ last) := by
  cases h with
  | quiet hrecords hcommands hcount hran =>
    refine .quiet ?_ ?_ hcount hran
    · rw [recordsOf_append, recordsOf_append, hfirst.1, hrecords, hlast.1]
      rfl
    · rw [commandsOf_append, commandsOf_append, hfirst.2, hcommands, hlast.2]
      rfl
  | @line before after rec hbefore hafter hcommands hkind hvalue hcount hran =>
    have hops : first ++ (before ++ .traceEmit rec :: after) ++ last =
        (first ++ before) ++ .traceEmit rec :: (after ++ last) := by
      simp only [List.append_assoc, List.cons_append]
    rw [hops]
    refine .line ⟨?_, ?_⟩ ?_ ?_ hkind hvalue hcount hran
    · rw [recordsOf_append, hfirst.1, hbefore.1]
      rfl
    · rw [commandsOf_append, hfirst.2, hbefore.2]
      rfl
    · rw [recordsOf_append, hafter, hlast.1]
      rfl
    · rw [commandsOf_append, hcommands, hlast.2, List.append_nil]

theorem runCommand_handled (u : UartrxState) (s : List UInt8) (env : HostEnv) :
    Handled u (u.runCommand s env).1 (u.runCommand s env).2 := by
  unfold runCommand
  dsimp only
  cases hcmd : lookup (firstWord s) with
  | none =>
    exact .first (prints_consolePuts _).recordsOf_eq (prints_consolePuts _).commandsOf_eq rfl rfl
      rfl (List.append_nil _).symm
  | some cmd =>
    dsimp only
    have hmem : cmd ∈ commands := List.mem_of_find?_eq_some hcmd
    cases hargs : parseArgs cmd.verb (afterWord s) with
    | none =>
      exact .first (prints_consolePuts _).recordsOf_eq (prints_consolePuts _).commandsOf_eq rfl
        rfl rfl (List.append_nil _).symm
    | some arg =>
      exact .first (recordsOf_run hmem env _) (commandsOf_run hmem env _ rfl) rfl rfl rfl rfl

theorem runLine_handled (u : UartrxState) (s : List UInt8) (env : HostEnv) :
    Handled u (u.runLine s env).1 (u.runLine s env).2 := by
  unfold runLine
  split
  · exact .quiet rfl rfl rfl rfl
  · exact u.runCommand_handled _ env

theorem endLine_handled (u : UartrxState) (env : HostEnv) :
    Handled u (u.endLine env).1 (u.endLine env).2 := by
  have hfirst : Prints (consolePuts (ascii "\n") ++ u.reportLineErrors) :=
    prints_append.mpr ⟨prints_consolePuts _, u.prints_reportLineErrors⟩
  exact (handled_around (u.runLine_handled u.line env) ⟨hfirst.recordsOf_eq, hfirst.commandsOf_eq⟩
    ⟨prints_prompt.recordsOf_eq, prints_prompt.commandsOf_eq⟩).congr ⟨rfl, rfl⟩ ⟨rfl, rfl⟩

theorem rx_handled (u : UartrxState) (e : RxEvent) : Handled u (u.rx e).1 (u.rx e).2 := by
  unfold rx rxByte
  dsimp only
  split
  · exact .quiet rfl rfl rfl rfl
  split
  · exact (endLine_handled _ e.env).congr ⟨rfl, rfl⟩ ⟨rfl, rfl⟩
  split
  · unfold eraseChar
    split
    · exact .quiet rfl rfl rfl rfl
    · exact .quiet rfl rfl rfl rfl
  split
  · unfold addChar
    split
    · exact .quiet rfl rfl rfl rfl
    · exact .quiet rfl rfl rfl rfl
  · exact .quiet rfl rfl rfl rfl

end UartrxState
end Uartrx
end TensorSel4
