/-
What the harness prints, line by line.

Each line is given with what it reads: `value n` is what the harness reads after `n`
exits.  A byte takes two exits, the load that finds the UART ready and the store, so
the exit at which a line starts gives the exit at which each of its values is read.
-/
import TensorSel4.Harness.Lab
import TensorSel4.Vmm.FreshStart

namespace TensorSel4
namespace Harness
namespace Transcript

open Bytes Uartrx Vmm

/-- Lines, each with its line feed. -/
def text (lines : List (List UInt8)) : List UInt8 := lines.flatMap (· ++ [0x0a])

theorem text_append (ls ls' : List (List UInt8)) : text (ls ++ ls') = text ls ++ text ls' :=
  List.flatMap_append

/-- The exits after `lines`, from exit `n`. -/
def after (n : Nat) (lines : List (List UInt8)) : Nat := n + 2 * (text lines).length

theorem after_append (n : Nat) (ls ls' : List (List UInt8)) :
    after n (ls ++ ls') = after (after n ls) ls' := by
  simp only [after, text_append, List.length_append]
  omega

/-! ## The reports -/

/-- The counters are read while the line is printed. -/
def reportLine (value : Nat → Var → UInt64) (n : Nat) (mode done : UInt64) (what : String) :
    List UInt8 :=
  let head := ascii "harness mode " ++ decimal mode ++ ascii ": " ++ decimal done ++ ascii what ++
    ascii ", timer irqs "
  let irqs := head ++ decimal (value (n + 2 * head.length) .timerIrqs) ++ ascii ", spurious "
  irqs ++ decimal (value (n + 2 * irqs.length) .spuriousIrqs)

/-- The lines of the reports from the one after `done` on. -/
def tlbiLines (value : Nat → Var → UInt64) (mode : UInt64) :
    Nat → UInt64 → Nat → List (List UInt8)
  | 0, _, _ => []
  | reports + 1, done, n =>
    let line := reportLine value n mode (done + tlbiReportEvery) " broadcast tlbi"
    line :: tlbiLines value mode reports (done + tlbiReportEvery) (after n [line])

def regLine (name : String) (val : UInt64) : List UInt8 :=
  ascii "harness: " ++ ascii name ++ ascii " " ++ ascii "0x" ++ hexText val 16

/-- The descriptor as the rounds leave it. -/
def hwUpdateLines (lab : Lab) : List (List UInt8) :=
  [regLine "test page descriptor" (word lab.layout (writtenAttrs true)),
    ascii "harness: hardware set AF and cleared the read-only bit"]

def walkLines (lab : Lab) (value : Nat → Var → UInt64) (mode : UInt64) (hwUpdates : Bool) :
    Nat → UInt64 → Nat → List (List UInt8)
  | 0, _, _ => []
  | reports + 1, done, n =>
    let update := if done = 0 ∧ hwUpdates then hwUpdateLines lab else []
    let line := reportLine value (after n update) mode (done + walkReportEvery)
      " pte resets + tlbi + touch"
    update ++ line ::
      walkLines lab value mode hwUpdates reports (done + walkReportEvery)
        (after n (update ++ [line]))

def exceptionLine (vector esr elr far : UInt64) : List UInt8 :=
  ascii "harness: unexpected exception, vector " ++ decimal vector ++ ascii " ESR " ++
    (ascii "0x" ++ hexText esr 16) ++ ascii " ELR " ++ (ascii "0x" ++ hexText elr 16) ++
    ascii " FAR " ++ (ascii "0x" ++ hexText far 16)

/-- The entry of the vector table for an exception of the harness itself is the fifth. -/
def abortLines (value : Nat → Var → UInt64) (n : Nat) (vectors : Bool) : List (List UInt8) :=
  if vectors then [exceptionLine 4 (value n .esr) (value n .elr) (value n .far)] else []

def tlbiName (broadcast : Bool) : String :=
  if broadcast then "harness: broadcast tlbi" else "harness: local tlbi"

/-- A processor that does not make both updates faults in the first round that needs them. -/
def foreverLines (lab : Lab) (value : Nat → Var → UInt64) (mode : UInt64) (vectors : Bool)
    (walk : Walk) (reports n : Nat) : List (List UInt8) :=
  let tlbi := ascii (tlbiName walk.broadcast)
  tlbi ::
    if walk.hwUpdates ∧ lab.cpu ≠ .dirty ∧ reports ≠ 0 then
      abortLines value (after n [tlbi]) vectors
    else walkLines lab value mode walk.hwUpdates reports 0 (after n [tlbi])

/-! ## The modes -/

def timerLine : List UInt8 := ascii "harness: virtual timer firing every 100 us"

/-- `lines`, after the timer has been turned on with two stores to the interrupt controller. -/
def withTimer (timer : Bool) (n : Nat) (lines : Nat → List (List UInt8)) : List (List UInt8) :=
  if timer then timerLine :: lines (after (n + 2) [timerLine]) else lines n

def mmuOnText (hwUpdates : Bool) : List UInt8 :=
  ascii "harness: MMU on, identity map, hardware AF and dirty updates " ++
    ascii (if hwUpdates then "on" else "off")

/-- The three registers are read after the first line. -/
def mmuLines (value : Nat → Var → UInt64) (n : Nat) (hwUpdates : Bool) : List (List UInt8) :=
  let read := value (after n [mmuOnText hwUpdates])
  [mmuOnText hwUpdates, regLine "ID_AA64MMFR1_EL1" (read .mmfr1), regLine "TCR_EL1" (read .tcr),
    regLine "SCTLR_EL1" (read .sctlr)]

/-- What a mode does. -/
inductive LabMode
  | tlbi (timer : Bool)
  | walk (timer hwUpdates broadcast : Bool)

def labMode (mode : UInt64) : Option LabMode :=
  if mode = 1 then some (.tlbi false)
  else if mode = 2 then some (.tlbi true)
  else if mode = 3 then some (.walk false true true)
  else if mode = 4 then some (.walk true true true)
  else if mode = 5 then some (.walk true false true)
  else if mode = 6 then some (.walk true true false)
  else if mode = 7 then some (.walk true false false)
  else none

/-- The lines of a mode after its first. -/
def LabMode.lines (lab : Lab) (value : Nat → Var → UInt64) (mode : UInt64) (reports n : Nat) :
    LabMode → List (List UInt8)
  | .tlbi timer => withTimer timer n (tlbiLines value mode reports 0)
  | .walk timer hwUpdates broadcast =>
    let mmu := mmuLines value n hwUpdates
    mmu ++ withTimer timer (after n mmu)
      (foreverLines lab value mode timer { hwUpdates, broadcast } reports)

def modeLine (mode : UInt64) : List UInt8 := ascii "harness mode " ++ decimal mode

def unknownModeLine : List UInt8 := ascii "harness: unknown mode; modes are 1 to 7"

/-- The lines of `lab_run`. -/
def labLines (lab : Lab) (value : Nat → Var → UInt64) (mode : UInt64) (reports n : Nat) :
    List (List UInt8) :=
  modeLine mode :: match labMode mode with
    | some m => m.lines lab value mode reports (after n [modeLine mode])
    | none => [unknownModeLine]

/-- The lines up to the regression run, if it gets there. -/
def firstLines (lab : Lab) (value : Nat → Var → UInt64) (mode : UInt64) (reports n : Nat) :
    List (List UInt8) :=
  ascii "hello" ::
    if mode ≠ 0 then labLines lab value mode reports (after n [ascii "hello"]) else []

/-! ## The regression run -/

def valueLine (name : String) (val : UInt32) : List UInt8 :=
  ascii name ++ ascii "0x" ++ hexText val.toUInt64 8

def wtconAt (n : Nat) : Nat := n + 2 * (ascii "WTCON=").length

/-- `0x`, eight digits and the line feed are eleven bytes. -/
def psciAt (n : Nat) : Nat := wtconAt n + 1 + 2 * (11 + (ascii "PSCI_VERSION=").length)

def smcccAt (n : Nat) : Nat := psciAt n + 1 + 2 * (11 + (ascii "SMCCC_VERSION=").length)

/-- The watchdog's register, and the answers of libvmm and of EL3. -/
def regressionLines {b : Build} (g : Guest b Var) (n : Nat) : List (List UInt8) :=
  [valueLine "WTCON=" (g.deviceWord (wtconAt n)),
    valueLine "PSCI_VERSION=" (((g.psci (psciAt n)).getD {}).x 0).toUInt32,
    valueLine "SMCCC_VERSION=" (smcX0 (g.response (smcccAt n))).toUInt32]

/-! ## Lines that the UART emulation shows -/

/-- Bytes that the UART emulation shows as they are. -/
def Shown (l : List UInt8) : Prop := ∀ c ∈ l, c ≠ 0 ∧ c ≠ 0x0a ∧ c ≠ 0x0d

theorem Shown.append {l l' : List UInt8} (h : Shown l) (h' : Shown l') : Shown (l ++ l') := by
  intro c hc
  rcases List.mem_append.mp hc with hc | hc
  · exact h c hc
  · exact h' c hc

theorem shown_decimal (val : UInt64) : Shown (decimal val) := by
  intro c hc
  rw [decimal_eq] at hc
  obtain ⟨d, hd, rfl⟩ := List.mem_map.mp hc
  have hdigit := Nat.isDigit_of_mem_toDigits (by omega) (by omega) hd
  obtain ⟨hlow, hhigh⟩ : 48 ≤ d.toNat ∧ d.toNat ≤ 57 := by
    simpa [Char.isDigit, UInt32.le_iff_toNat_le] using hdigit
  have hval : (UInt8.ofNat d.toNat).toNat = d.toNat := by
    rw [UInt8.toNat_ofNat']
    omega
  refine ⟨?_, ?_, ?_⟩
  · intro hc
    rw [hc] at hval
    exact absurd (hval ▸ hlow) (by decide)
  · intro hc
    rw [hc] at hval
    exact absurd (hval ▸ hlow) (by decide)
  · intro hc
    rw [hc] at hval
    exact absurd (hval ▸ hlow) (by decide)

theorem shown_hexText (val : UInt64) (digits : Nat) : Shown (hexText val digits) := by
  have hdigits : ∀ n : Fin 16, (ascii "0123456789abcdef").getD n 0 ≠ 0 ∧
      (ascii "0123456789abcdef").getD n 0 ≠ 0x0a ∧ (ascii "0123456789abcdef").getD n 0 ≠ 0x0d := by
    decide
  induction digits with
  | zero => exact fun c hc => absurd hc List.not_mem_nil
  | succ digits ih =>
    intro c hc
    rcases List.mem_cons.mp hc with rfl | hc
    · have hlt : ((val >>> UInt64.ofNat (4 * digits)) &&& 0xf).toNat < 16 := by
        have hand := Nat.and_two_pow_sub_one_eq_mod (val >>> UInt64.ofNat (4 * digits)).toNat 4
        rw [UInt64.toNat_and]
        show (val >>> UInt64.ofNat (4 * digits)).toNat &&& (2 ^ 4 - 1) < 16
        omega
      exact hdigits ⟨_, hlt⟩
    · exact ih c hc

theorem hexText_length (val : UInt64) (digits : Nat) : (hexText val digits).length = digits := by
  induction digits with
  | zero => rfl
  | succ digits ih => exact congrArg (· + 1) ih

/-- A line that is shown in one piece. -/
structure Whole (l : List UInt8) : Prop where
  shown : Shown l
  fits : l.length < consoleLineMax

open ExynosUartEmul in
theorem foldl_shown {l : List UInt8} (h : Shown l) (u : ExynosUartEmul)
    (hfits : u.line.length + l.length < consoleLineMax) :
    (l.foldl consolePutc u).line = u.line ++ l ∧ (l.foldl consolePutc u).printed = u.printed := by
  induction l generalizing u with
  | nil => exact ⟨(List.append_nil _).symm, rfl⟩
  | cons c l ih =>
    obtain ⟨-, hlf, hcr⟩ := h c List.mem_cons_self
    rw [List.length_cons] at hfits
    have hroom : u.line.length ≠ consoleLineMax - 1 := by omega
    have hline : (u.consolePutc c).line = u.line ++ [c] := by
      rw [consolePutc_line, lineAfter, if_neg hcr, if_neg hlf, if_neg hroom]
    have hprinted : (u.consolePutc c).printed = u.printed := by
      rw [consolePutc_printed, putLines, if_neg hcr, if_neg (not_or.mpr ⟨hlf, hroom⟩),
        List.append_nil]
    have hrest := ih (fun d hd => h d (List.mem_cons_of_mem c hd)) (u.consolePutc c) (by
      rw [hline, List.length_append, List.length_singleton]
      omega)
    rw [hline, hprinted, List.append_assoc] at hrest
    exact hrest

open ExynosUartEmul in
theorem foldl_text {lines : List (List UInt8)} (h : ∀ l ∈ lines, Whole l) (u : ExynosUartEmul)
    (hu : u.line = []) :
    ((text lines).foldl consolePutc u).line = [] ∧
      ((text lines).foldl consolePutc u).printed = u.printed ++ lines.map (guestPrompt ++ ·) := by
  induction lines generalizing u with
  | nil => exact ⟨hu, (List.append_nil _).symm⟩
  | cons l lines ih =>
    have hl := h l List.mem_cons_self
    obtain ⟨hline, hprinted⟩ := foldl_shown hl.shown u (by
      rw [hu, List.length_nil, Nat.zero_add]
      exact hl.fits)
    rw [hu, List.nil_append] at hline
    have hguest : guestLine l = guestPrompt ++ l := by
      have hall : l.takeWhile (· ≠ 0) = l := by
        rw [List.takeWhile_eq_self_iff]
        exact fun c hc => decide_eq_true (hl.shown c hc).1
      rw [guestLine, hall]
    have hcr : (0x0a : UInt8) ≠ 0x0d := by decide
    have hline' : ((l.foldl consolePutc u).consolePutc 0x0a).line = [] := by
      rw [consolePutc_line, lineAfter, if_neg hcr, if_pos rfl]
    have hprinted' : ((l.foldl consolePutc u).consolePutc 0x0a).printed =
        u.printed ++ [guestPrompt ++ l] := by
      rw [consolePutc_printed, putLines, if_neg hcr, if_pos (Or.inl rfl), hprinted, hline, hguest]
    have hrest := ih (fun l' hl' => h l' (List.mem_cons_of_mem l hl')) _ hline'
    rw [hprinted', List.append_assoc] at hrest
    simp only [text, List.flatMap_cons, List.foldl_append, List.map_cons]
    exact hrest

/-- The harness's texts, but for their line feeds. -/
def literals : List String :=
  ["hello", "harness mode ", ": ", " broadcast tlbi", " pte resets + tlbi + touch",
    ", timer irqs ", ", spurious ", "harness: virtual timer firing every 100 us", "harness: ", " ",
    "0x", "harness: MMU on, identity map, hardware AF and dirty updates ", "on", "off",
    "ID_AA64MMFR1_EL1", "TCR_EL1", "SCTLR_EL1", "test page descriptor",
    "harness: hardware set AF and cleared the read-only bit",
    "harness: FAIL: the descriptor was not updated by hardware", "harness: broadcast tlbi",
    "harness: local tlbi", "harness: unknown mode; modes are 1 to 7", "WTCON=", "PSCI_VERSION=",
    "SMCCC_VERSION=", "harness: unexpected exception, vector ", " ESR ", " ELR ", " FAR "]

theorem literals_shown : ∀ s ∈ literals, Shown (ascii s) ∧ (ascii s).length ≤ 64 := by
  unfold Shown
  decide +kernel

theorem shown_literal {s : String} (h : s ∈ literals) : Shown (ascii s) := (literals_shown s h).1

theorem literal_length {s : String} (h : s ∈ literals) : (ascii s).length ≤ 64 :=
  (literals_shown s h).2

theorem whole_literal {s : String} (h : s ∈ literals) : Whole (ascii s) :=
  ⟨shown_literal h, Nat.lt_of_le_of_lt (literal_length h) (by decide)⟩

theorem whole_modeLine (mode : UInt64) : Whole (modeLine mode) := by
  have hmode : "harness mode " ∈ literals := by simp [literals]
  refine ⟨(shown_literal hmode).append (shown_decimal mode), ?_⟩
  have h := literal_length hmode
  have h' := decimal_length mode
  rw [modeLine, List.length_append, consoleLineMax]
  omega

theorem shown_reportLine (value : Nat → Var → UInt64) (n : Nat) (mode done : UInt64)
    {what : String} (hwhat : what ∈ literals) : Shown (reportLine value n mode done what) := by
  have hmode : "harness mode " ∈ literals := by simp [literals]
  have hcolon : ": " ∈ literals := by simp [literals]
  have hirqs : ", timer irqs " ∈ literals := by simp [literals]
  have hspurious : ", spurious " ∈ literals := by simp [literals]
  have hhead := (((((shown_literal hmode).append (shown_decimal mode)).append
    (shown_literal hcolon)).append (shown_decimal done)).append (shown_literal hwhat)).append
    (shown_literal hirqs)
  exact ((hhead.append (shown_decimal _)).append (shown_literal hspurious)).append
    (shown_decimal _)

theorem whole_reportLine (value : Nat → Var → UInt64) (n : Nat) (mode done : UInt64)
    {what : String} (hwhat : what ∈ literals) : Whole (reportLine value n mode done what) := by
  refine ⟨shown_reportLine value n mode done hwhat, ?_⟩
  have h₁ : (ascii "harness mode ").length = 13 := by decide
  have h₂ : (ascii ": ").length = 2 := by decide
  have h₃ : (ascii ", timer irqs ").length = 13 := by decide
  have h₄ : (ascii ", spurious ").length = 11 := by decide
  have hw := literal_length hwhat
  simp only [reportLine, List.length_append, consoleLineMax]
  -- whatever is read, a number has at most 20 digits
  generalize value _ .timerIrqs = irqs
  generalize value _ .spuriousIrqs = spurious
  have hd₁ := decimal_length mode
  have hd₂ := decimal_length done
  have hd₃ := decimal_length irqs
  have hd₄ := decimal_length spurious
  omega

theorem whole_regLine {name : String} (hname : name ∈ literals) (val : UInt64) :
    Whole (regLine name val) := by
  have hharness : "harness: " ∈ literals := by simp [literals]
  have hspace : " " ∈ literals := by simp [literals]
  have hprefix : "0x" ∈ literals := by simp [literals]
  constructor
  · exact ((((shown_literal hharness).append (shown_literal hname)).append
      (shown_literal hspace)).append (shown_literal hprefix)).append (shown_hexText val 16)
  · have h₁ : (ascii "harness: ").length = 9 := by decide
    have h₂ : (ascii " ").length = 1 := by decide
    have h₃ : (ascii "0x").length = 2 := by decide
    have h := literal_length hname
    simp only [regLine, List.length_append, hexText_length, consoleLineMax]
    omega

theorem whole_valueLine {name : String} (hname : name ∈ literals) (val : UInt32) :
    Whole (valueLine name val) := by
  have hprefix : "0x" ∈ literals := by simp [literals]
  refine ⟨((shown_literal hname).append (shown_literal hprefix)).append (shown_hexText _ 8), ?_⟩
  have h := literal_length hname
  have h' := literal_length hprefix
  simp only [valueLine, List.length_append, hexText_length, consoleLineMax]
  omega

theorem whole_exceptionLine (vector esr elr far : UInt64) :
    Whole (exceptionLine vector esr elr far) := by
  have hhead : "harness: unexpected exception, vector " ∈ literals := by simp [literals]
  have hesr : " ESR " ∈ literals := by simp [literals]
  have helr : " ELR " ∈ literals := by simp [literals]
  have hfar : " FAR " ∈ literals := by simp [literals]
  have hhex : ∀ val, Shown (ascii "0x" ++ hexText val 16) := fun val =>
    (shown_literal (by simp [literals])).append (shown_hexText val 16)
  refine ⟨((((((shown_literal hhead).append (shown_decimal vector)).append
    (shown_literal hesr)).append (hhex esr)).append (shown_literal helr)).append
    (hhex elr)).append (shown_literal hfar) |>.append (hhex far), ?_⟩
  have h₁ : (ascii "harness: unexpected exception, vector ").length = 38 := by decide
  have h₂ : (ascii " ESR ").length = 5 := by decide
  have h₃ : (ascii " ELR ").length = 5 := by decide
  have h₄ : (ascii " FAR ").length = 5 := by decide
  have h₅ : (ascii "0x").length = 2 := by decide
  have hd := decimal_length vector
  simp only [exceptionLine, List.length_append, hexText_length, consoleLineMax]
  omega

/-! ## The lines of a run are whole -/

theorem Whole.cons {l : List UInt8} {ls : List (List UInt8)} (h : Whole l)
    (hs : ∀ l ∈ ls, Whole l) : ∀ l' ∈ l :: ls, Whole l' := by
  intro l' hl'
  rcases List.mem_cons.mp hl' with rfl | hl'
  · exact h
  · exact hs l' hl'

theorem whole_nil : ∀ l ∈ ([] : List (List UInt8)), Whole l := by simp

theorem whole_append {ls ls' : List (List UInt8)} (h : ∀ l ∈ ls, Whole l)
    (h' : ∀ l ∈ ls', Whole l) : ∀ l ∈ ls ++ ls', Whole l := by
  intro l hl
  rcases List.mem_append.mp hl with hl | hl
  · exact h l hl
  · exact h' l hl

section

variable (lab : Lab) (value : Nat → Var → UInt64) (mode done : UInt64)

theorem whole_tlbiLines (reports n : Nat) : ∀ l ∈ tlbiLines value mode reports done n, Whole l := by
  induction reports generalizing done n with
  | zero => exact whole_nil
  | succ reports ih => exact (whole_reportLine value n mode _ (by simp [literals])).cons (ih _ _)

theorem whole_hwUpdateLines : ∀ l ∈ hwUpdateLines lab, Whole l :=
  (whole_regLine (by simp [literals]) _).cons ((whole_literal (by simp [literals])).cons whole_nil)

theorem whole_walkLines (hwUpdates : Bool) (reports n : Nat) :
    ∀ l ∈ walkLines lab value mode hwUpdates reports done n, Whole l := by
  induction reports generalizing done n with
  | zero => exact whole_nil
  | succ reports ih =>
    apply whole_append
    · split
      · exact whole_hwUpdateLines lab
      · exact whole_nil
    · exact (whole_reportLine value _ mode _ (by simp [literals])).cons (ih _ _)

theorem whole_foreverLines (vectors : Bool) (walk : Walk) (reports n : Nat) :
    ∀ l ∈ foreverLines lab value mode vectors walk reports n, Whole l := by
  apply Whole.cons
  · unfold tlbiName
    split <;> exact whole_literal (by simp [literals])
  · split
    · unfold abortLines
      split
      · exact (whole_exceptionLine _ _ _ _).cons whole_nil
      · exact whole_nil
    · exact whole_walkLines lab value mode 0 walk.hwUpdates reports _

theorem whole_mmuLines (n : Nat) (hwUpdates : Bool) : ∀ l ∈ mmuLines value n hwUpdates, Whole l := by
  have hmmu : "harness: MMU on, identity map, hardware AF and dirty updates " ∈ literals := by
    simp [literals]
  have hon : (if hwUpdates then "on" else "off") ∈ literals := by
    cases hwUpdates <;> simp [literals]
  have hline : Whole (mmuOnText hwUpdates) := by
    refine ⟨(shown_literal hmmu).append (shown_literal hon), ?_⟩
    have h := literal_length hmmu
    have h' := literal_length hon
    rw [mmuOnText, List.length_append, consoleLineMax]
    omega
  have hreg : ∀ name ∈ ["ID_AA64MMFR1_EL1", "TCR_EL1", "SCTLR_EL1"], ∀ val,
      Whole (regLine name val) := by
    intro name hname val
    apply whole_regLine
    simp only [List.mem_cons, List.not_mem_nil, or_false] at hname
    simp only [literals, List.mem_cons]
    tauto
  exact hline.cons ((hreg _ (by simp) _).cons ((hreg _ (by simp) _).cons
    ((hreg _ (by simp) _).cons whole_nil)))

theorem whole_withTimer (timer : Bool) (n : Nat) {lines : Nat → List (List UInt8)}
    (h : ∀ n, ∀ l ∈ lines n, Whole l) : ∀ l ∈ withTimer timer n lines, Whole l := by
  cases timer with
  | false => exact h n
  | true => exact (whole_literal (by simp [literals])).cons (h _)

theorem whole_labLines (reports n : Nat) : ∀ l ∈ labLines lab value mode reports n, Whole l := by
  apply (whole_modeLine mode).cons
  cases labMode mode with
  | none => exact (whole_literal (by simp [literals])).cons whole_nil
  | some m =>
    cases m with
    | tlbi timer =>
      exact whole_withTimer timer _ fun n => whole_tlbiLines value mode 0 reports n
    | walk timer hwUpdates broadcast =>
      apply whole_append (whole_mmuLines value _ hwUpdates)
      exact whole_withTimer timer _ fun n => whole_foreverLines lab value mode timer _ reports n

theorem whole_firstLines (reports n : Nat) :
    ∀ l ∈ firstLines lab value mode reports n, Whole l := by
  apply (whole_literal (by simp [literals])).cons
  split
  · exact whole_labLines lab value mode reports _
  · exact whole_nil

end

theorem whole_regressionLines {b : Build} (g : Guest b Var) (n : Nat) :
    ∀ l ∈ regressionLines g n, Whole l :=
  (whole_valueLine (by simp [literals]) _).cons ((whole_valueLine (by simp [literals]) _).cons
    ((whole_valueLine (by simp [literals]) _).cons whole_nil))

end Transcript
end Harness
end TensorSel4
