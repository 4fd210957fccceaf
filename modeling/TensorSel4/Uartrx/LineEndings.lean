/-
Line endings and CMD records.

`CmdRecord` says what the record of one line holds, in terms of the line and of
the command table.  `Serves` says what the received bytes do to the rings: they
print, and each command's record is followed by the operations of that command if
the record accepts it and by a refusal if not.  `lines_recorded_once` feeds any
lines with any mixture of terminators to `rx_byte`: the records are one per
non-blank line, numbered from 1, and do not depend on the terminators.
-/
import TensorSel4.Uartrx.Line

namespace TensorSel4
namespace Uartrx

open Text Trace Vmm

inductive Ending
  | cr
  | lf
  | crlf
  deriving DecidableEq

def Ending.bytes : Ending → List UInt8
  | .cr => [0x0d]
  | .lf => [0x0a]
  | .crlf => [0x0d, 0x0a]

/-- What is received when `lines` are typed. -/
def wire (lines : List (List UInt8 × Ending)) : List UInt8 :=
  lines.flatMap fun l => l.1 ++ l.2.bytes

structure IsLine (s : List UInt8) : Prop where
  length : s.length ≤ lineMax
  printable : ∀ c ∈ s, 0x20 ≤ c ∧ c < 0x7f

/-- The line without the spaces around it. -/
def strip (s : List UInt8) : List UInt8 :=
  (s.dropWhile fun c => c = space).rdropWhile fun c => c = space

def firstToken (s : List UInt8) : List UInt8 := (strip s).takeWhile fun c => c ≠ space

def arguments (s : List UInt8) : List UInt8 :=
  ((strip s).dropWhile fun c => c ≠ space).dropWhile fun c => c = space

def nonBlank (lines : List (List UInt8)) : List (List UInt8) :=
  lines.filter fun s => s.any fun c => c ≠ space

/-- What the record of the line `s` says of it. -/
inductive Outcome (s : List UInt8) (rec : TraceRecord) : Prop
  | rejectedVerb (hnone : ∀ cmd ∈ commands, cmd.name ≠ firstToken s)
      (hflags : rec.flags = cmdRejectedVerb) (haddr : rec.addr = 0) (hpc : rec.pc = 0)
  | rejectedArgs {cmd : Command} (hcmd : cmd ∈ commands) (hname : cmd.name = firstToken s)
      (hargs : parseArgs cmd.verb (arguments s) = none)
      (hflags : rec.flags = cmdRejectedArgs) (haddr : rec.addr = cmd.verb) (hpc : rec.pc = 0)
  | accepted {cmd : Command} {arg : UInt64} (hcmd : cmd ∈ commands)
      (hname : cmd.name = firstToken s) (hargs : parseArgs cmd.verb (arguments s) = some arg)
      (hflags : rec.flags = cmdAccepted) (haddr : rec.addr = cmd.verb) (hpc : rec.pc = arg)

/-- The record of a line, when `k` commands were received before it. -/
structure CmdRecord (k : Nat) (s : List UInt8) (rec : TraceRecord) : Prop where
  kind : rec.kind = kindCmd
  value : rec.value = UInt64.ofNat (k + 1)
  outcome : Outcome s rec

/-- The command that an accepted record says has run. -/
def commandOf (rec : TraceRecord) : CmdEntry :=
  { id := rec.value, verb := rec.addr, arg := rec.pc }

def accepted (rec : TraceRecord) : Bool := rec.flags = cmdAccepted

/-- What is done about a command besides its record. -/
inductive Answer (env : HostEnv) (rec : TraceRecord) : List Op → Prop
  | run {cmd : Command} (hcmd : cmd ∈ commands) (hverb : cmd.verb = rec.addr)
      (hflags : rec.flags = cmdAccepted) : Answer env rec (cmd.run env (commandOf rec))
  | badArguments (hflags : rec.flags = cmdRejectedArgs) :
      Answer env rec (consolePuts (ascii "bad arguments; type help\n"))
  | unknown (hflags : rec.flags = cmdRejectedVerb) :
      Answer env rec (consolePuts (ascii "unknown command; type help\n"))

/-- What handling the bytes `es` does: it prints, and to each record there is an
answer, made while the byte that ended its line is handled. -/
inductive Serves : List RxEvent → List Op → List TraceRecord → Prop
  | nil : Serves [] [] []
  | quiet {e : RxEvent} {es : List RxEvent} {ops more : List Op} {recs : List TraceRecord}
      (h : Prints ops) (hrest : Serves es more recs) : Serves (e :: es) (ops ++ more) recs
  | command {e : RxEvent} {es : List RxEvent} {before answer more : List Op} {rec : TraceRecord}
      {recs : List TraceRecord} (hbefore : Prints before) (h : Answer e.env rec answer)
      (hrest : Serves es more recs) :
      Serves (e :: es) (before ++ .traceEmit rec :: (answer ++ prompt) ++ more) (rec :: recs)

/-! ## The command table -/

theorem lookup_eq_none {word : List UInt8} (h : lookup word = none) :
    ∀ cmd ∈ commands, cmd.name ≠ word := by
  intro cmd hcmd hname
  have hword := List.find?_eq_none.mp h cmd hcmd
  exact hword ((wordIs_iff word cmd.name).mpr hname.symm)

theorem lookup_eq_some {word : List UInt8} {cmd : Command} (h : lookup word = some cmd) :
    cmd ∈ commands ∧ cmd.name = word := by
  rw [lookup] at h
  have hword := List.find?_some h
  exact ⟨List.mem_of_find?_eq_some h, ((wordIs_iff word cmd.name).mp hword).symm⟩

/-- Commands of one name have one verb. -/
theorem verb_of_name : ∀ cmd ∈ commands, ∀ cmd' ∈ commands, cmd.name = cmd'.name →
    cmd.verb = cmd'.verb := by
  have hnames : (commands.map Command.name).Nodup := by decide
  intro cmd hcmd cmd' hcmd' hname
  rw [List.inj_on_of_nodup_map hnames hcmd hcmd' hname]

/-- The line settles what its record says. -/
theorem Outcome.unique {s : List UInt8} {rec rec' : TraceRecord} (h : Outcome s rec)
    (h' : Outcome s rec') : rec.flags = rec'.flags ∧ rec.addr = rec'.addr ∧ rec.pc = rec'.pc := by
  cases h with
  | rejectedVerb hnone hflags haddr hpc =>
    cases h' with
    | rejectedVerb _ hflags' haddr' hpc' => simp [hflags, haddr, hpc, hflags', haddr', hpc']
    | rejectedArgs hcmd' hname' => exact absurd hname' (hnone _ hcmd')
    | accepted hcmd' hname' => exact absurd hname' (hnone _ hcmd')
  | rejectedArgs hcmd hname hargs hflags haddr hpc =>
    cases h' with
    | rejectedVerb hnone' => exact absurd hname (hnone' _ hcmd)
    | rejectedArgs hcmd' hname' _ hflags' haddr' hpc' =>
      have hverb := verb_of_name _ hcmd _ hcmd' (hname.trans hname'.symm)
      simp [hflags, haddr, hpc, hflags', haddr', hpc', hverb]
    | accepted hcmd' hname' hargs' =>
      rw [verb_of_name _ hcmd _ hcmd' (hname.trans hname'.symm), hargs'] at hargs
      cases hargs
  | accepted hcmd hname hargs hflags haddr hpc =>
    cases h' with
    | rejectedVerb hnone' => exact absurd hname (hnone' _ hcmd)
    | rejectedArgs hcmd' hname' hargs' =>
      rw [verb_of_name _ hcmd _ hcmd' (hname.trans hname'.symm), hargs'] at hargs
      cases hargs
    | accepted hcmd' hname' hargs' hflags' haddr' hpc' =>
      have hverb := verb_of_name _ hcmd _ hcmd' (hname.trans hname'.symm)
      rw [hverb, hargs'] at hargs
      cases hargs
      simp [hflags, haddr, hpc, hflags', haddr', hpc', hverb]

/-! ## One line -/

/-- The record that `run_line` emits for the command `s`. -/
def lineRecord (id : UInt64) (s : List UInt8) : TraceRecord :=
  match lookup (UartrxState.firstWord s) with
  | none => Pipeline.recordCommand cmdVerbNone id cmdRejectedVerb 0
  | some cmd =>
    match parseArgs cmd.verb (UartrxState.afterWord s) with
    | none => Pipeline.recordCommand cmd.verb id cmdRejectedArgs 0
    | some arg => Pipeline.recordCommand cmd.verb id cmdAccepted arg

theorem trimmed_eq_strip (s : List UInt8) : UartrxState.trimmed s = strip s := by
  have hprefix : (strip s) <+: s.drop (skipSpaces s) := by
    rw [strip, skipSpaces, drop_gapLen]
    exact List.rdropWhile_prefix _ _
  rw [UartrxState.trimmed]
  show (s.drop (skipSpaces s)).take (trimSpaces (s.drop (skipSpaces s))) = _
  rw [trimSpaces, skipSpaces, drop_gapLen]
  rw [skipSpaces, drop_gapLen] at hprefix
  exact (List.prefix_iff_eq_take.mp hprefix).symm

theorem strip_eq_nil_iff (s : List UInt8) : strip s = [] ↔ (s.any fun c => c ≠ space) = false := by
  rw [strip, List.rdropWhile_eq_nil_iff, List.any_eq_false]
  constructor
  · intro h c hc hne
    have hne : c ≠ space := of_decide_eq_true hne
    have hmem : c ∈ s.dropWhile fun c => c = space := by
      by_contra hnot
      have hsplit := List.takeWhile_append_dropWhile (p := fun c => decide (c = space)) (l := s)
      rw [← hsplit, List.mem_append] at hc
      have hspace := List.mem_takeWhile_imp (p := fun c => decide (c = space))
        (hc.resolve_right hnot)
      exact hne (of_decide_eq_true hspace)
    exact hne (of_decide_eq_true (h c hmem))
  · intro h c hc
    have hall := h c ((List.dropWhile_sublist _).mem hc)
    simpa using hall

theorem lineRecord_spec (k : Nat) (s : List UInt8) :
    CmdRecord k s (lineRecord (UInt64.ofNat (k + 1)) (strip s)) := by
  have hword : UartrxState.firstWord (strip s) = firstToken s := take_wordLen space _
  have hafter : UartrxState.afterWord (strip s) = arguments s := by
    rw [UartrxState.afterWord, ← List.drop_drop, skipSpaces, drop_gapLen, tokenLen, drop_wordLen]
    rfl
  unfold lineRecord
  rw [hword, hafter]
  cases hcmd : lookup (firstToken s) with
  | none => exact ⟨rfl, rfl, .rejectedVerb (lookup_eq_none hcmd) rfl rfl rfl⟩
  | some cmd =>
    obtain ⟨hmem, hname⟩ := lookup_eq_some hcmd
    dsimp only
    cases hargs : parseArgs cmd.verb (arguments s) with
    | none => exact ⟨rfl, rfl, .rejectedArgs hmem hname hargs rfl rfl rfl⟩
    | some arg => exact ⟨rfl, rfl, .accepted hmem hname hargs rfl rfl rfl⟩

namespace UartrxState

/-- What a step does that the records depend on. -/
structure Records (u t : UartrxState) (ops : List Op) (recs : List TraceRecord) : Prop where
  commandsReceived : t.commandsReceived = u.commandsReceived + UInt64.ofNat recs.length
  records : recordsOf ops = recs
  ran : t.ran = u.ran ++ (recs.filter accepted).map commandOf

theorem runCommand_records (u : UartrxState) (s : List UInt8) (env : HostEnv) :
    Records u (u.runCommand s env).1 (u.runCommand s env).2
      [lineRecord (u.commandsReceived + 1) s] := by
  unfold runCommand lineRecord
  dsimp only
  cases hcmd : lookup (firstWord s) with
  | none =>
    refine ⟨rfl, ?_, (List.append_nil _).symm⟩
    exact congrArg _ ((prints_consolePuts _).recordsOf_eq)
  | some cmd =>
    dsimp only
    cases hargs : parseArgs cmd.verb (afterWord s) with
    | none =>
      refine ⟨rfl, ?_, (List.append_nil _).symm⟩
      exact congrArg _ ((prints_consolePuts _).recordsOf_eq)
    | some arg =>
      refine ⟨rfl, ?_, rfl⟩
      exact congrArg _ (recordsOf_run (List.mem_of_find?_eq_some hcmd) env _)

/-- The records of the line `s`. -/
def recordsOfLine (n : UInt64) (s : List UInt8) : List TraceRecord :=
  if strip s = [] then [] else [lineRecord (n + 1) (strip s)]

theorem runLine_records (u : UartrxState) (s : List UInt8) (env : HostEnv) :
    Records u (u.runLine s env).1 (u.runLine s env).2 (recordsOfLine u.commandsReceived s) := by
  unfold runLine recordsOfLine
  rw [trimmed_eq_strip]
  split
  · refine ⟨?_, rfl, (List.append_nil _).symm⟩
    exact (UInt64.add_zero _).symm
  · exact u.runCommand_records (strip s) env

theorem runLine_lastWasCr (u : UartrxState) (s : List UInt8) (env : HostEnv) :
    (u.runLine s env).1.lastWasCr = u.lastWasCr := by
  unfold runLine runCommand
  split
  · rfl
  dsimp only
  cases lookup (firstWord (trimmed s)) with
  | none => rfl
  | some cmd =>
    dsimp only
    cases parseArgs cmd.verb (afterWord (trimmed s)) <;> rfl

theorem prints_reportLineErrors (u : UartrxState) : Prints u.reportLineErrors := by
  unfold reportLineErrors
  split
  · exact prints_nil
  · simp

/-- The end of a line, and whether a CR ended it. -/
structure Ended (u t : UartrxState) (ops : List Op) (s : List UInt8) (cr : Bool) : Prop extends
    Records u t ops (recordsOfLine u.commandsReceived s) where
  line : t.line = []
  lastWasCr : t.lastWasCr = cr

theorem endLine_ended (u : UartrxState) (env : HostEnv) :
    Ended u (u.endLine env).1 (u.endLine env).2 u.line u.lastWasCr := by
  have hrun := u.runLine_records u.line env
  refine ⟨⟨hrun.commandsReceived, ?_, hrun.ran⟩, rfl, u.runLine_lastWasCr u.line env⟩
  show recordsOf (consolePuts (ascii "\n") ++ u.reportLineErrors ++ (u.runLine u.line env).2 ++
    prompt) = _
  rw [recordsOf_append, recordsOf_append, recordsOf_append, (prints_consolePuts _).recordsOf_eq,
    u.prints_reportLineErrors.recordsOf_eq, hrun.records, prints_prompt.recordsOf_eq,
    List.append_nil]
  rfl

/-! ## One byte -/

theorem Records.refl (u : UartrxState) : Records u u [] [] :=
  ⟨(UInt64.add_zero _).symm, rfl, (List.append_nil _).symm⟩

theorem Records.trans {u t v : UartrxState} {ops more : List Op} {recs recs' : List TraceRecord}
    (h : Records u t ops recs) (h' : Records t v more recs') :
    Records u v (ops ++ more) (recs ++ recs') := by
  refine ⟨?_, ?_, ?_⟩
  · rw [h'.commandsReceived, h.commandsReceived, List.length_append, UInt64.ofNat_add,
      UInt64.add_assoc]
  · rw [recordsOf_append, h.records, h'.records]
  · rw [h'.ran, h.ran, List.filter_append, List.map_append, List.append_assoc]

theorem rx_char (u : UartrxState) {e : RxEvent} (he : 0x20 ≤ e.byte ∧ e.byte < 0x7f)
    (hroom : u.line.length < lineMax) :
    Records u (u.rx e).1 (u.rx e).2 [] ∧ (u.rx e).1.line = u.line ++ [e.byte] ∧
      (u.rx e).1.lastWasCr = false := by
  have hlt : ∀ d : UInt8, d < 0x20 → e.byte ≠ d := by
    rintro d hd rfl
    exact absurd (UInt8.lt_of_lt_of_le hd he.1) (UInt8.lt_irrefl _)
  have hdel : e.byte ≠ asciiDel := by
    intro h
    rw [h] at he
    exact absurd he.2 (UInt8.lt_irrefl _)
  have hcr := hlt 0x0d (by decide)
  have hlf := hlt 0x0a (by decide)
  have hbs := hlt asciiBs (by decide)
  unfold rx rxByte
  dsimp only
  rw [if_neg (fun h => hlf h.1), if_neg (not_or.mpr ⟨hcr, hlf⟩), if_neg (not_or.mpr ⟨hbs, hdel⟩),
    if_pos he, addChar, dif_neg (Nat.ne_of_lt hroom)]
  exact ⟨⟨(UInt64.add_zero _).symm, rfl, (List.append_nil _).symm⟩, rfl, decide_eq_false hcr⟩

theorem rx_eol (u : UartrxState) {e : RxEvent}
    (he : e.byte = 0x0d ∨ e.byte = 0x0a ∧ u.lastWasCr = false) :
    Ended u (u.rx e).1 (u.rx e).2 u.line (e.byte = 0x0d) := by
  have hnot : ¬(e.byte = 0x0a ∧ u.lastWasCr = true) := by
    rintro ⟨hlf, hafter⟩
    rcases he with hcr | ⟨-, hbefore⟩
    · rw [hcr] at hlf
      exact absurd hlf (by decide)
    · rw [hbefore] at hafter
      exact Bool.noConfusion hafter
  unfold rx rxByte
  dsimp only
  rw [if_neg hnot, if_pos (he.imp_right And.left)]
  have h := endLine_ended { u with
    lastWasCr := e.byte = 0x0d, lineErrors := u.lineErrors ||| e.uerstat } e.env
  exact ⟨⟨h.commandsReceived, h.records, h.ran⟩, h.line, h.lastWasCr⟩

/-- The LF of a CRLF. -/
theorem rx_lf_after_cr (u : UartrxState) {e : RxEvent} (he : e.byte = 0x0a)
    (hafter : u.lastWasCr = true) :
    Records u (u.rx e).1 (u.rx e).2 [] ∧ (u.rx e).1.line = u.line := by
  unfold rx rxByte
  dsimp only
  rw [if_pos ⟨he, hafter⟩]
  exact ⟨⟨(UInt64.add_zero _).symm, rfl, (List.append_nil _).symm⟩, rfl⟩

/-! ## What is run -/

theorem recordsOf_answer {env : HostEnv} {rec : TraceRecord} {ops : List Op}
    (h : Answer env rec ops) : recordsOf ops = [] := by
  cases h with
  | run hcmd => exact recordsOf_run hcmd env _
  | badArguments => exact (prints_consolePuts _).recordsOf_eq
  | unknown => exact (prints_consolePuts _).recordsOf_eq

/-- A command has its record, then its answer. -/
theorem runCommand_answer (u : UartrxState) (s : List UInt8) (env : HostEnv) :
    ∃ rec answer, (u.runCommand s env).2 = .traceEmit rec :: answer ∧ Answer env rec answer := by
  unfold runCommand
  dsimp only
  cases hcmd : lookup (firstWord s) with
  | none => exact ⟨_, _, rfl, .unknown rfl⟩
  | some cmd =>
    dsimp only
    cases hargs : parseArgs cmd.verb (afterWord s) with
    | none => exact ⟨_, _, rfl, .badArguments rfl⟩
    | some arg => exact ⟨_, _, rfl, .run (lookup_eq_some hcmd).1 rfl rfl⟩

theorem endLine_serves (u : UartrxState) (env : HostEnv) :
    Prints (u.endLine env).2 ∨ ∃ before rec answer, Prints before ∧ Answer env rec answer ∧
      (u.endLine env).2 = before ++ .traceEmit rec :: (answer ++ prompt) := by
  have hfirst : Prints (consolePuts (ascii "\n") ++ u.reportLineErrors) :=
    prints_append.mpr ⟨prints_consolePuts _, u.prints_reportLineErrors⟩
  have hops : (u.endLine env).2 =
      consolePuts (ascii "\n") ++ u.reportLineErrors ++ (u.runLine u.line env).2 ++ prompt := rfl
  rw [hops]
  unfold runLine
  split
  · exact .inl (by simp [prints_reportLineErrors])
  · obtain ⟨rec, answer, hrun, hanswer⟩ := u.runCommand_answer (trimmed u.line) env
    refine .inr ⟨_, rec, answer, hfirst, hanswer, ?_⟩
    rw [hrun, List.append_assoc, List.cons_append]

/-- One byte prints, or ends the line of a command. -/
theorem rx_serves (u : UartrxState) (e : RxEvent) :
    Prints (u.rx e).2 ∨ ∃ before rec answer, Prints before ∧ Answer e.env rec answer ∧
      (u.rx e).2 = before ++ .traceEmit rec :: (answer ++ prompt) := by
  unfold rx rxByte
  dsimp only
  split
  · exact .inl prints_nil
  split
  · exact endLine_serves _ e.env
  split
  · unfold eraseChar
    split
    · exact .inl prints_nil
    · exact .inl (by simp)
  split
  · unfold addChar
    split
    · exact .inl prints_nil
    · exact .inl (by simp)
  · exact .inl prints_nil

theorem rxAll_serves (u : UartrxState) (es : List RxEvent) :
    Serves es (u.rxAll es).2 (recordsOf (u.rxAll es).2) := by
  induction es generalizing u with
  | nil => exact .nil
  | cons e es ih =>
    rw [rxAll, recordsOf_append]
    rcases u.rx_serves e with hprints | ⟨before, rec, answer, hbefore, hanswer, hops⟩
    · rw [hprints.recordsOf_eq, List.nil_append]
      exact .quiet hprints (ih _)
    · have hrecs : recordsOf (u.rx e).2 = [rec] := by
        have hrest : recordsOf (answer ++ prompt) = [] := by
          rw [recordsOf_append, recordsOf_answer hanswer, prints_prompt.recordsOf_eq]
          rfl
        rw [hops, recordsOf_append, hbefore.recordsOf_eq]
        exact congrArg (rec :: ·) hrest
      rw [hrecs, hops]
      exact .command hbefore hanswer (ih _)

/-! ## Lines -/

theorem rxAll_chars {es : List RxEvent} (u : UartrxState)
    (hes : ∀ e ∈ es, 0x20 ≤ e.byte ∧ e.byte < 0x7f) (hroom : u.line.length + es.length ≤ lineMax) :
    Records u (u.rxAll es).1 (u.rxAll es).2 [] ∧
      (u.rxAll es).1.line = u.line ++ es.map RxEvent.byte ∧
      (u.rxAll es).1.lastWasCr = (es.isEmpty && u.lastWasCr) := by
  induction es generalizing u with
  | nil => exact ⟨Records.refl u, (List.append_nil _).symm, rfl⟩
  | cons e es ih =>
    rw [List.length_cons] at hroom
    obtain ⟨hrec, hline, hcr⟩ := u.rx_char (hes e List.mem_cons_self) (by omega)
    have hlen : (u.rx e).1.line.length + es.length ≤ lineMax := by
      rw [hline, List.length_append, List.length_singleton]
      omega
    obtain ⟨hrec', hline', hcr'⟩ := ih (u.rx e).1 (fun f hf => hes f (List.mem_cons_of_mem e hf)) hlen
    refine ⟨hrec.trans hrec', ?_, ?_⟩
    · show ((u.rx e).1.rxAll es).1.line = _
      rw [hline', hline, List.append_assoc]
      rfl
    · show ((u.rx e).1.rxAll es).1.lastWasCr = _
      rw [hcr', hcr, Bool.and_false]
      rfl

/-- An end of line, whichever it is.  After a CR, an LF that ends an empty line is
taken for the second half of a CRLF, and an empty line has no record either way. -/
theorem rxAll_ending {es : List RxEvent} (u : UartrxState) (end' : Ending)
    (hes : es.map RxEvent.byte = end'.bytes) (hafter : u.lastWasCr = true → u.line = []) :
    Records u (u.rxAll es).1 (u.rxAll es).2 (recordsOfLine u.commandsReceived u.line) ∧
      (u.rxAll es).1.line = [] := by
  cases end' with
  | cr =>
    obtain ⟨e, rfl, hcr⟩ := List.map_eq_singleton_iff.mp hes
    have hended := u.rx_eol (Or.inl hcr)
    refine ⟨?_, hended.line⟩
    rw [rxAll, rxAll, List.append_nil]
    exact hended.toRecords
  | lf =>
    obtain ⟨e, rfl, hlf⟩ := List.map_eq_singleton_iff.mp hes
    rw [rxAll, rxAll, List.append_nil]
    cases hlast : u.lastWasCr with
    | false =>
      have hended := u.rx_eol (Or.inr ⟨hlf, hlast⟩)
      exact ⟨hended.toRecords, hended.line⟩
    | true =>
      obtain ⟨hrec, hline⟩ := u.rx_lf_after_cr hlf hlast
      have hempty := hafter hlast
      rw [hline, hempty]
      exact ⟨hrec, rfl⟩
  | crlf =>
    obtain ⟨e, fs, rfl, hcr, hes⟩ := List.map_eq_cons_iff.mp hes
    obtain ⟨f, rfl, hlf⟩ := List.map_eq_singleton_iff.mp hes
    have hended := u.rx_eol (Or.inl hcr)
    have hlast : (u.rx e).1.lastWasCr = true := by
      rw [hended.lastWasCr]
      exact decide_eq_true hcr
    obtain ⟨hrec, hline⟩ := (u.rx e).1.rx_lf_after_cr hlf hlast
    rw [rxAll, rxAll, rxAll, List.append_nil]
    have hboth := hended.toRecords.trans hrec
    rw [List.append_nil] at hboth
    exact ⟨hboth, hline.trans hended.line⟩

theorem rxAll_line {es : List RxEvent} (u : UartrxState) (hempty : u.line = []) {s : List UInt8}
    (hs : IsLine s) (end' : Ending) (hes : es.map RxEvent.byte = s ++ end'.bytes) :
    Records u (u.rxAll es).1 (u.rxAll es).2 (recordsOfLine u.commandsReceived s) ∧
      (u.rxAll es).1.line = [] := by
  obtain ⟨fs, gs, rfl, hfs, hgs⟩ := List.map_eq_append_iff.mp hes
  have hlen : fs.length = s.length := by rw [← hfs, List.length_map]
  have hprint : ∀ e ∈ fs, 0x20 ≤ e.byte ∧ e.byte < 0x7f := by
    intro e he
    apply hs.printable
    rw [← hfs]
    exact List.mem_map_of_mem he
  obtain ⟨hrec, hline, hcr⟩ := u.rxAll_chars hprint (by
    have hfits := hs.length
    rw [hempty, List.length_nil]
    omega)
  rw [hempty, List.nil_append, hfs] at hline
  have hcount : (u.rxAll fs).1.commandsReceived = u.commandsReceived := by
    rw [hrec.commandsReceived]
    exact UInt64.add_zero _
  obtain ⟨hrec', hline'⟩ := (u.rxAll fs).1.rxAll_ending end' hgs (by
    rw [hcr, hline]
    intro h
    rw [Bool.and_eq_true, List.isEmpty_iff] at h
    rw [← hfs, h.1]
    rfl)
  rw [hline, hcount] at hrec'
  rw [rxAll_append]
  exact ⟨hrec.trans hrec', hline'⟩

end UartrxState

/-- The records of a list of lines, when `k` commands were received before. -/
def lineRecords (k : Nat) : List (List UInt8) → List TraceRecord
  | [] => []
  | s :: lines =>
    if strip s = [] then lineRecords k lines
    else lineRecord (UInt64.ofNat (k + 1)) (strip s) :: lineRecords (k + 1) lines

theorem lineRecords_spec (k : Nat) (lines : List (List UInt8)) :
    List.Forall₂ (fun line rec => CmdRecord line.2 line.1 rec) ((nonBlank lines).zipIdx k)
      (lineRecords k lines) := by
  induction lines generalizing k with
  | nil => exact .nil
  | cons s lines ih =>
    unfold lineRecords nonBlank
    by_cases hblank : strip s = []
    · rw [if_pos hblank, List.filter_cons_of_neg (by
        rw [(strip_eq_nil_iff s).mp hblank]
        exact Bool.false_ne_true)]
      exact ih k
    · rw [if_neg hblank, List.filter_cons_of_pos (by
        rw [← Bool.not_eq_false]
        exact mt (strip_eq_nil_iff s).mpr hblank), List.zipIdx_cons]
      exact .cons (lineRecord_spec k s) (ih (k + 1))

theorem UartrxState.rxAll_wire {typed : List (List UInt8 × Ending)} {es : List RxEvent}
    (u : UartrxState) (hempty : u.line = []) (k : Nat)
    (hcount : u.commandsReceived = UInt64.ofNat k) (hlines : ∀ l ∈ typed, IsLine l.1)
    (hes : es.map RxEvent.byte = wire typed) :
    Records u (u.rxAll es).1 (u.rxAll es).2 (lineRecords k (typed.map Prod.fst)) := by
  induction typed generalizing u es k with
  | nil =>
    rw [List.map_eq_nil_iff.mp hes]
    exact Records.refl u
  | cons l typed ih =>
    obtain ⟨fs, gs, rfl, hfs, hgs⟩ := List.map_eq_append_iff.mp hes
    obtain ⟨hrec, hline⟩ := u.rxAll_line hempty (hlines l List.mem_cons_self) l.2 hfs
    have hrest : ∀ l' ∈ typed, IsLine l'.1 := fun l' h => hlines l' (List.mem_cons_of_mem l h)
    have hnext := hrec.commandsReceived
    rw [rxAll_append]
    unfold recordsOfLine at hrec hnext
    rw [List.map_cons, lineRecords]
    by_cases hblank : strip l.1 = []
    · rw [if_pos hblank] at hrec hnext ⊢
      exact hrec.trans (ih _ hline k (by rw [hnext, hcount]; exact UInt64.add_zero _) hrest hgs)
    · rw [if_neg hblank] at hrec hnext ⊢
      have hsucc : u.commandsReceived + 1 = UInt64.ofNat (k + 1) := by
        rw [hcount, UInt64.ofNat_add]
        rfl
      rw [hsucc] at hrec
      exact hrec.trans (ih _ hline (k + 1) (hnext.trans hsucc) hrest hgs)

/-- The lines settle what their records say. -/
theorem cmdRecords_unique {lines : List (List UInt8 × Nat)} {recs recs' : List TraceRecord}
    (h : List.Forall₂ (fun line rec => CmdRecord line.2 line.1 rec) lines recs)
    (h' : List.Forall₂ (fun line rec => CmdRecord line.2 line.1 rec) lines recs') :
    recs.map (fun rec => (rec.value, rec.flags, rec.addr, rec.pc)) =
      recs'.map (fun rec => (rec.value, rec.flags, rec.addr, rec.pc)) := by
  induction h generalizing recs' with
  | nil =>
    cases h'
    rfl
  | cons hrec _ ih =>
    cases h' with
    | cons hrec' hrest' =>
      have hvalue := hrec.value.trans hrec'.value.symm
      obtain ⟨hflags, haddr, hpc⟩ := hrec.outcome.unique hrec'.outcome
      rw [List.map_cons, List.map_cons, ih hrest', hvalue, hflags, haddr, hpc]

/-- `ping`, a blank line, `ping` with an argument, an unknown word and a command for
the VMM. -/
def sampleLines : List (List UInt8) :=
  [ascii "ping", ascii "  ", ascii "ping 1", ascii "pong", ascii "guest-start harness 2"]

end Uartrx
end TensorSel4
