/-
The harness on the VMM.

`Puts` is the rule for the harness's program on the board: what a piece of it writes,
how many exits that takes, and what the program goes on with.  With it the program
prints the lines of `Lines`, and by `Guest.onVmm_simulates` it prints them on the VMM.
-/
import TensorSel4.Harness.Lines

namespace TensorSel4
namespace Harness
namespace Transcript

open Bytes Translation Uartrx Vmm

/-! ## On the board -/

/-- The watchdog's region forwards to the device. -/
def Forwards (b : Build) (fwd : MmioForward) : Prop :=
  ∃ h, b.handlers.find? (·.covers harnessWatchdogGpa) = some h ∧ h.base = harnessWatchdogGpa ∧
    h.callback = .forward fwd

/-- The memory map of `guest_map.h`. -/
structure HarnessMap (b : Build) : Prop where
  uart : ∀ offset ∈ [exynosUartUtrstat, exynosUartUtxh], ∃ h gpa,
    b.handlers.find? (·.covers (harnessUartGpa + offset)) = some h ∧ h.base = harnessUartGpa ∧
      h.callback = .uart gpa
  watchdog : ∃ fwd, Forwards b fwd
  gicd : ∃ h, b.handlers.find? (·.covers (gicdBase + gicdCtlr)) = some h ∧ h.callback = .libvmm
  gicr : ∀ vcpu < b.numVcpus, ∃ h,
    b.handlers.find? (·.covers (gicrBase + UInt64.ofNat vcpu * gicrFrameSize + gicrSgiOffset +
      gicrIsenabler0)) = some h ∧ h.callback = .libvmm

variable {b : Build}

/-- libvmm's interrupt controller takes every store, PSCI answers and leaves the vCPU on, and
libvmm can always step over an SMC. -/
structure Answering (g : Guest b Var) : Prop where
  psci : ∀ n, ∃ regs, g.psci n = some regs
  powered : ∀ n, g.powered n g.vcpu = true
  advance : ∀ n, g.advance n = true
  vgic : ∀ n, ∃ regs, g.vgic n = some regs
  mpidr : ∀ n, g.value n .mpidr &&& 0xff = UInt64.ofNat g.vcpu

open Vmm.Guest (Board)

/-- The board has got `bs` and made `other` exits besides, and is otherwise as before. -/
structure Wrote (t : Board) (bs : List UInt8) (other : Nat) (t' : Board) : Prop where
  on : t'.on = true
  exits : t'.exits = t.exits + 2 * bs.length + other
  written : t'.written = t.written ++ bs
  outside : t'.outside = t.outside
  refused : t'.refused = t.refused

theorem Wrote.refl {t : Board} (h : t.on = true) : Wrote t [] 0 t :=
  ⟨h, rfl, (List.append_nil _).symm, rfl, rfl⟩

theorem Wrote.trans {t t' t'' : Board} {bs bs' : List UInt8} {other other' : Nat}
    (h : Wrote t bs other t') (h' : Wrote t' bs' other' t'') :
    Wrote t (bs ++ bs') (other + other') t'' := by
  refine ⟨h'.on, ?_, ?_, h'.outside.trans h.outside, h'.refused.trans h.refused⟩
  · rw [h'.exits, h.exits, List.length_append]
    omega
  · rw [h'.written, h.written, List.append_assoc]

/-- After whole lines the next one starts. -/
theorem Wrote.after {t t' : Board} {lines : List (List UInt8)}
    (h : Wrote t (text lines) 0 t') : t'.exits = after t.exits lines := h.exits

section

variable {g : Guest b Var} {polls : Nat} {t : Board} {lab : Lab}
  {Q : Board × Platform.Ending → Prop}

/-- From `t` on, `p` puts `bs` and then does what `k` does. -/
def Puts (g : Guest b Var) (polls : Nat) (t : Board) (p : Prog) (bs : List UInt8) (other : Nat)
    (k : Prog) : Prop :=
  ∃ t', Wrote t bs other t' ∧ g.onBoard.run polls p t = g.onBoard.run polls k t'

theorem Puts.refl (ht : t.on = true) (p : Prog) : Puts g polls t p [] 0 p := ⟨t, .refl ht, rfl⟩

theorem Puts.seq {p q k : Prog} {bs bs' : List UInt8} {other : Nat}
    (h : Puts g polls t p bs 0 q)
    (h' : ∀ t', Wrote t bs 0 t' → Puts g polls t' q bs' other k) :
    Puts g polls t p (bs ++ bs') other k := by
  obtain ⟨t', hwrote, hrun⟩ := h
  obtain ⟨t'', hwrote', hrun'⟩ := h' t' hwrote
  have htrans := hwrote.trans hwrote'
  rw [Nat.zero_add] at htrans
  exact ⟨t'', htrans, hrun.trans hrun'⟩

/-- An access that writes nothing to the UART. -/
theorem Puts.access {p q k : Prog} {bs : List UInt8} {other other' : Nat}
    (h : Puts g polls t p [] other q)
    (h' : ∀ t', Wrote t [] other t' → Puts g polls t' q bs other' k) :
    Puts g polls t p bs (other + other') k := by
  obtain ⟨t', hwrote, hrun⟩ := h
  obtain ⟨t'', hwrote', hrun'⟩ := h' t' hwrote
  exact ⟨t'', hwrote.trans hwrote', hrun.trans hrun'⟩

theorem Puts.value {v : Var} {p : UInt64 → Prog} {k : Prog} {bs : List UInt8} {other : Nat}
    (h : Puts g polls t (p (g.value t.exits v)) bs other k) :
    Puts g polls t (.value v p) bs other k := by
  obtain ⟨t', hwrote, hrun⟩ := h
  refine ⟨t', hwrote, ?_⟩
  rw [← hrun, Platform.run]
  rfl

/-- To know what `p` does, it is enough to know what `k` does after it. -/
theorem Puts.run {p k : Prog} {bs : List UInt8} {other : Nat} (h : Puts g polls t p bs other k)
    (h' : ∀ t', Wrote t bs other t' → Q (g.onBoard.run polls k t')) :
    Q (g.onBoard.run polls p t) := by
  obtain ⟨t', hwrote, hrun⟩ := h
  rw [hrun]
  exact h' t' hwrote

/-- Lines after lines. -/
theorem Puts.lines {p q k : Prog} {ls ls' : List (List UInt8)} {other : Nat}
    (h : Puts g polls t p (text ls) 0 q)
    (h' : ∀ t', t'.on = true → t'.exits = after t.exits ls →
      Puts g polls t' q (text ls') other k) :
    Puts g polls t p (text (ls ++ ls')) other k := by
  rw [text_append]
  exact h.seq fun t' hwrote => h' t' hwrote.on hwrote.after

/-- Lines after a line. -/
theorem Puts.line {p q k : Prog} {l : List UInt8} {ls : List (List UInt8)} {other : Nat}
    (h : Puts g polls t p (text [l]) 0 q)
    (h' : ∀ t', t'.on = true → t'.exits = after t.exits [l] →
      Puts g polls t' q (text ls) other k) :
    Puts g polls t p (text (l :: ls)) other k := h.lines h'

theorem run_uartPutc (hb : HarnessMap b) (hpolls : 0 < polls) (ht : t.on = true) (c : UInt8)
    (k : Prog) : Puts g polls t (uartPutc c k) [c] 0 k := by
  obtain ⟨polls, rfl⟩ := Nat.exists_eq_succ_of_ne_zero (Nat.ne_of_gt hpolls)
  obtain ⟨h, gpa, hfind, hbase, hcallback⟩ := hb.uart exynosUartUtrstat (by simp)
  obtain ⟨h', gpa', hfind', hbase', hcallback'⟩ := hb.uart exynosUartUtxh (by simp)
  refine ⟨{ t with exits := t.exits + 1 + 1, written := t.written ++ [c] },
    ⟨ht, rfl, rfl, rfl, rfl⟩, ?_⟩
  have hwait := g.await_uart ht (hbase ▸ hfind) hcallback polls
  have hstore := g.store_uart (t := { t with exits := t.exits + 1 }) ht (hbase' ▸ hfind')
    hcallback' c.toUInt32
  rw [hbase] at hwait
  rw [hbase', UInt8.toUInt8_toUInt32] at hstore
  rw [uartPutc, Platform.run, hwait]
  dsimp only
  rw [Platform.run, hstore]

theorem run_uartPuts (hb : HarnessMap b) (hpolls : 0 < polls) (ht : t.on = true) (bs : List UInt8)
    (k : Prog) : Puts g polls t (uartPuts bs k) bs 0 k := by
  induction bs generalizing t with
  | nil => exact .refl ht k
  | cons c bs ih =>
    exact (run_uartPutc hb hpolls ht c (uartPuts bs k)).seq fun _ hwrote => ih hwrote.on

theorem uartPuts_append (bs bs' : List UInt8) (k : Prog) :
    uartPuts bs (uartPuts bs' k) = uartPuts (bs ++ bs') k := (List.foldr_append ..).symm

/-- The text of a line with its line feed. -/
theorem run_line (hb : HarnessMap b) (hpolls : 0 < polls) (ht : t.on = true) {bs l : List UInt8}
    (hl : bs = l ++ [0x0a]) (k : Prog) : Puts g polls t (uartPuts bs k) (text [l]) 0 k := by
  have h := run_uartPuts (g := g) hb hpolls ht bs k
  rw [hl] at h ⊢
  simpa only [text, List.flatMap_singleton] using h

theorem ascii_lf : ascii "\n" = [0x0a] := rfl

/-! ## The reports -/

theorem report_puts (hb : HarnessMap b) (hpolls : 0 < polls) (ht : t.on = true)
    (mode done : UInt64) (what : String) (k : Prog) :
    Puts g polls t (report mode done what k) (text [reportLine g.value t.exits mode done what]) 0
      k := by
  simp only [report, uartPutdec, uartPuts_append, reportLine, text, List.flatMap_singleton]
  have hhead : ascii "harness mode " ++ (decimal mode ++ (ascii ": " ++ (decimal done ++
      (ascii what ++ ascii ", timer irqs ")))) = ascii "harness mode " ++ decimal mode ++
      ascii ": " ++ decimal done ++ ascii what ++ ascii ", timer irqs " := by
    simp only [List.append_assoc]
  rw [hhead]
  generalize ascii "harness mode " ++ decimal mode ++ ascii ": " ++ decimal done ++ ascii what ++
    ascii ", timer irqs " = head
  have hirqs : head ++ decimal (g.value (t.exits + 2 * head.length) .timerIrqs) ++
      ascii ", spurious " = head ++ (decimal (g.value (t.exits + 2 * head.length) .timerIrqs) ++
      ascii ", spurious ") := List.append_assoc ..
  rw [hirqs, List.append_assoc, ← ascii_lf]
  apply Puts.seq
  · apply Puts.seq (run_uartPuts hb hpolls ht head _)
    intro t₁ h₁
    apply Puts.value
    rw [h₁.exits]
    exact run_uartPuts hb hpolls h₁.on _ _
  · intro t₂ h₂
    apply Puts.value
    rw [h₂.exits]
    exact run_uartPuts hb hpolls h₂.on _ k

theorem tlbiForever_puts (hb : HarnessMap b) (hpolls : 0 < polls) (ht : t.on = true)
    (mode : UInt64) (reports : Nat) (done : UInt64) :
    Puts g polls t (tlbiForever mode reports done)
      (text (tlbiLines g.value mode reports done t.exits)) 0 .more := by
  induction reports generalizing t done with
  | zero => exact .refl ht _
  | succ reports ih =>
    apply (report_puts hb hpolls ht mode (done + tlbiReportEvery) " broadcast tlbi" _).line
    intro t' ht' hexits
    rw [← hexits]
    exact ih ht' _

theorem putReg_puts (hb : HarnessMap b) (hpolls : 0 < polls) (ht : t.on = true) (name : String)
    (val : UInt64) (k : Prog) :
    Puts g polls t (putReg name val k) (text [regLine name val]) 0 k := by
  simp only [putReg, uartPuthex64, uartPuthex, uartPuts_append]
  apply run_line hb hpolls ht
  simp only [regLine, List.append_assoc, ascii_lf]

theorem ascii_hwUpdateLine {desc : UInt64} (h : updatedByHardware desc = true) :
    ascii (hwUpdateLine desc) =
      ascii "harness: hardware set AF and cleared the read-only bit" ++ [0x0a] := by
  rw [hwUpdateLine, if_pos h]
  simp [ascii]

theorem reportHwUpdate_puts (hb : HarnessMap b) (hpolls : 0 < polls) (ht : t.on = true)
    (k : Prog) :
    Puts g polls t (reportHwUpdate (word lab.layout (writtenAttrs true)) k)
      (text (hwUpdateLines lab)) 0 k := by
  have hline := ascii_hwUpdateLine (updatedByHardware_word (L := lab.layout) true)
  apply (putReg_puts hb hpolls ht "test page descriptor" _ _).line
  intro t' ht' _
  exact run_line hb hpolls ht' hline k

theorem dataAbort_puts (hb : HarnessMap b) (hpolls : 0 < polls) (ht : t.on = true)
    (vectors : Bool) :
    Puts g polls t (dataAbort vectors) (text (abortLines g.value t.exits vectors)) 0 .more := by
  cases vectors with
  | false => exact .refl ht _
  | true =>
    have habort : dataAbort true = .value .esr fun esr => .value .elr fun elr =>
      .value .far fun far => labBadException 4 esr elr far := rfl
    rw [habort]
    apply Puts.value
    apply Puts.value
    apply Puts.value
    simp only [labBadException, uartPutdec, uartPuthex64, uartPuthex, uartPuts_append]
    apply run_line hb hpolls ht
    simp only [exceptionLine, List.append_assoc, ascii_lf]

theorem batch_ne_nil (lab : Lab) (n : Nat) : lab.batch n ≠ [] := by
  have hevery : walkReportEvery.toNat ≠ 0 := by decide
  unfold Lab.batch
  simp only [ne_eq, List.map_eq_nil_iff, List.range_eq_nil]
  exact hevery

theorem walkReports_puts (hb : HarnessMap b) (hpolls : 0 < polls) (ht : t.on = true)
    {walk : Walk} (hcan : walk.hwUpdates = true → lab.cpu = .dirty) (mode : UInt64)
    (vectors : Bool) (reports n : Nat) (done : UInt64) {fresh : Bool} {c : UInt64} {s : Mmu}
    (h : Coherent fresh lab.layout c s) :
    Puts g polls t (walkReports lab mode vectors walk reports n done s)
      (text (walkLines lab g.value mode walk.hwUpdates reports done t.exits)) 0 .more := by
  induction reports generalizing t n done fresh c s with
  | zero =>
    rw [walkReports, walkLines]
    exact .refl ht _
  | succ reports ih =>
    obtain ⟨s₁, hs₁, h₁, -, -⟩ := walkRounds_some h (lab.batch n) fun _ => hcan
    rw [if_neg (batch_ne_nil lab n)] at h₁
    -- a report, and the ones after it
    have hreport : ∀ {t : Board} {c : UInt64} {s : Mmu}, t.on = true →
        Coherent fresh lab.layout c s →
        Puts g polls t (report mode (done + walkReportEvery) " pte resets + tlbi + touch"
          (walkReports lab mode vectors walk reports (n + 1) (done + walkReportEvery) s))
          (text (reportLine g.value t.exits mode (done + walkReportEvery)
            " pte resets + tlbi + touch" :: walkLines lab g.value mode walk.hwUpdates reports
              (done + walkReportEvery) (after t.exits [reportLine g.value t.exits mode
                (done + walkReportEvery) " pte resets + tlbi + touch"]))) 0 .more := by
      intro t c s ht hs
      apply (report_puts hb hpolls ht mode (done + walkReportEvery) " pte resets + tlbi + touch"
        _).line
      intro t' ht' hexits
      rw [← hexits]
      exact ih ht' _ _ hs
    rw [walkReports, walkLines, hs₁]
    by_cases hfirst : done = 0 ∧ walk.hwUpdates = true
    · obtain ⟨c₂, hc₂, h₂, -⟩ := h₁.idles (r := regime lab.layout walk.hwUpdates lab.cpu) rfl rfl
        (lab.reading n)
      obtain ⟨s₃, hs₃, h₃⟩ := h₂.load_slot (r := regime lab.layout walk.hwUpdates lab.cpu) rfl rfl
      have hc : c₂ = writtenAttrs true := by
        rw [hfirst.2] at hc₂
        rcases hc₂ with rfl | ⟨-, rfl⟩
        · rfl
        · exact writtenAttrs_seen true
      rw [hc] at hs₃
      simp only [if_pos hfirst, hs₃]
      apply (reportHwUpdate_puts hb hpolls ht _).lines
      intro t' ht' hexits
      rw [after_append, ← hexits]
      exact hreport ht' h₃
    · simp only [if_neg hfirst]
      exact hreport ht h₁

theorem walkReports_faults (hb : HarnessMap b) (hpolls : 0 < polls) (ht : t.on = true)
    {walk : Walk} (hw : walk.hwUpdates = true) (hcpu : lab.cpu ≠ .dirty) (mode : UInt64)
    (vectors : Bool) (reports n : Nat) (done : UInt64) {fresh : Bool} {c : UInt64} {s : Mmu}
    (h : Coherent fresh lab.layout c s) :
    Puts g polls t (walkReports lab mode vectors walk (reports + 1) n done s)
      (text (abortLines g.value t.exits vectors)) 0 .more := by
  obtain ⟨gap, gaps, hbatch⟩ := List.exists_cons_of_ne_nil (batch_ne_nil lab n)
  have hfault : walkRounds lab.layout lab.cpu walk (lab.batch n) s = none := by
    rw [hbatch]
    exact walkRounds_none h hw hcpu gap gaps
  rw [walkReports, hfault]
  exact dataAbort_puts hb hpolls ht vectors

theorem walkForever_puts (hb : HarnessMap b) (hpolls : 0 < polls) (ht : t.on = true)
    (mode : UInt64) (vectors : Bool) (walk : Walk) (reports : Nat) :
    Puts g polls t (walkForever lab mode vectors walk reports)
      (text (foreverLines lab g.value mode vectors walk reports t.exits)) 0 .more := by
  have hline : ascii (tlbiLine walk.broadcast) = ascii (tlbiName walk.broadcast) ++ [0x0a] := by
    cases walk.broadcast <;> simp [ascii, tlbiLine, tlbiName]
  have hstart := coherent_mmuOn lab.zeroed walk.hwUpdates
  apply (run_line hb hpolls ht hline _).line
  intro t' ht' hexits
  rw [← hexits]
  by_cases hfaults : walk.hwUpdates = true ∧ lab.cpu ≠ .dirty ∧ reports ≠ 0
  · rw [if_pos hfaults]
    obtain ⟨hw, hcpu, hreports⟩ := hfaults
    obtain ⟨reports, rfl⟩ := Nat.exists_eq_succ_of_ne_zero hreports
    exact walkReports_faults hb hpolls ht' hw hcpu mode vectors reports 0 0 hstart
  · rw [if_neg hfaults]
    cases reports with
    | zero =>
      rw [walkReports, walkLines]
      exact .refl ht' _
    | succ reports =>
      have hcan : walk.hwUpdates = true → lab.cpu = .dirty := by
        intro hw
        by_contra hcpu
        exact hfaults ⟨hw, hcpu, Nat.succ_ne_zero reports⟩
      exact walkReports_puts hb hpolls ht' hcan mode vectors _ 0 0 hstart

/-! ## The modes -/

theorem run_gicStore {a : UInt64} (v : UInt32) (hg : Answering g) (ht : t.on = true)
    (hfind : ∃ h, b.handlers.find? (·.covers a) = some h ∧ h.callback = .libvmm) (k : Prog) :
    Puts g polls t (.store a v k) [] 1 k := by
  obtain ⟨h, hfind, hcallback⟩ := hfind
  obtain ⟨regs, hregs⟩ := hg.vgic t.exits
  refine ⟨{ t with exits := t.exits + 1 }, ⟨ht, rfl, (List.append_nil _).symm, rfl, rfl⟩, ?_⟩
  rw [Platform.run, g.store_libvmm ht hfind hcallback hregs v]

/-- Two stores, and the line. -/
theorem timerIrqsOn_puts (hb : HarnessMap b) (hg : Answering g) (hpolls : 0 < polls)
    (ht : t.on = true) {lines : Nat → List (List UInt8)} {k : Prog}
    (hk : ∀ t', t'.on = true → Puts g polls t' k (text (lines t'.exits)) 0 .more) :
    Puts g polls t (timerIrqsOn k) (text (withTimer true t.exits lines)) (1 + (1 + 0)) .more := by
  have hgicr : ∀ n, ∃ h, b.handlers.find?
      (·.covers (gicrSgiBase (g.value n .mpidr) + gicrIsenabler0)) = some h ∧
      h.callback = .libvmm := by
    intro n
    rw [gicrSgiBase, hg.mpidr]
    exact hb.gicr g.vcpu g.exists_vcpu
  have hline : ascii "harness: virtual timer firing every 100 us\n" = timerLine ++ [0x0a] := by
    simp [ascii, timerLine]
  refine (run_gicStore _ hg ht hb.gicd _).access ?_
  intro t₁ h₁
  apply Puts.value
  refine (run_gicStore _ hg h₁.on (hgicr _) _).access ?_
  intro t₂ h₂
  apply (run_line hb hpolls h₂.on hline k).line
  intro t₃ ht₃ hexits
  have hn : t₃.exits = after (t.exits + 2) [timerLine] := by
    rw [hexits, h₂.exits, h₁.exits]
    rfl
  rw [← hn]
  exact hk t₃ ht₃

/-- The stores that turn the timer on. -/
def gicStores (timer : Bool) : Nat := if timer then 2 else 0

theorem withTimer_puts (hb : HarnessMap b) (hg : Answering g) (hpolls : 0 < polls)
    (ht : t.on = true) (timer : Bool) {lines : Nat → List (List UInt8)} {k : Prog}
    (hk : ∀ t', t'.on = true → Puts g polls t' k (text (lines t'.exits)) 0 .more) :
    Puts g polls t (if timer then timerIrqsOn k else k)
      (text (withTimer timer t.exits lines)) (gicStores timer) .more := by
  cases timer with
  | false => exact hk t ht
  | true => exact timerIrqsOn_puts hb hg hpolls ht hk

theorem mmuOnReport_puts (hb : HarnessMap b) (hpolls : 0 < polls) (ht : t.on = true)
    (hwUpdates : Bool) (k : Prog) :
    Puts g polls t (mmuOnReport hwUpdates k) (text (mmuLines g.value t.exits hwUpdates)) 0 k := by
  have hline : ascii "harness: MMU on, identity map, hardware AF and dirty updates " ++
      ascii (mmuOnLine hwUpdates) = mmuOnText hwUpdates ++ [0x0a] := by
    cases hwUpdates <;> simp [ascii, mmuOnLine, mmuOnText]
  simp only [mmuOnReport, uartPuts_append]
  apply (run_line hb hpolls ht hline _).line
  intro t₁ ht₁ hexits
  rw [← hexits]
  apply Puts.value
  apply Puts.value
  apply Puts.value
  apply (putReg_puts hb hpolls ht₁ "ID_AA64MMFR1_EL1" _ _).line
  intro t₂ ht₂ _
  apply (putReg_puts hb hpolls ht₂ "TCR_EL1" _ _).line
  intro t₃ ht₃ _
  exact putReg_puts hb hpolls ht₃ "SCTLR_EL1" _ k

def LabMode.prog (lab : Lab) (mode : UInt64) (reports : Nat) : LabMode → Prog
  | .tlbi timer =>
    if timer then timerIrqsOn (tlbiForever mode reports 0) else tlbiForever mode reports 0
  | .walk timer hwUpdates broadcast => walkWith lab mode timer hwUpdates broadcast reports

theorem labRun_eq (lab : Lab) (mode : UInt64) (reports : Nat) (k : Prog) :
    labRun lab mode reports k = uartPuts (modeLine mode ++ [0x0a])
      (match labMode mode with
        | some m => m.prog lab mode reports
        | none => uartPuts (unknownModeLine ++ [0x0a]) k) := by
  have hunknown : ascii "harness: unknown mode; modes are 1 to 7\n" =
      unknownModeLine ++ [0x0a] := by
    simp [ascii, unknownModeLine]
  simp only [labRun, uartPutdec, uartPuts_append, modeLine, List.append_assoc, hunknown, ascii_lf]
  congr 1
  unfold labMode
  split_ifs <;> rfl

theorem walkWith_puts (hb : HarnessMap b) (hg : Answering g) (hpolls : 0 < polls)
    (ht : t.on = true) (mode : UInt64) (timer hwUpdates broadcast : Bool) (reports : Nat) :
    Puts g polls t (walkWith lab mode timer hwUpdates broadcast reports)
      (text (LabMode.lines lab g.value mode reports t.exits (.walk timer hwUpdates broadcast)))
      (gicStores timer) .more := by
  have hprog : walkWith lab mode timer hwUpdates broadcast reports = mmuOnReport hwUpdates
      (if timer then
        timerIrqsOn (walkForever lab mode timer { hwUpdates, broadcast } reports)
      else walkForever lab mode timer { hwUpdates, broadcast } reports) := by
    cases timer <;> rfl
  rw [hprog]
  apply (mmuOnReport_puts hb hpolls ht hwUpdates _).lines
  intro t' ht' hexits
  rw [← hexits]
  exact withTimer_puts hb hg hpolls ht' timer
    fun t'' ht'' => walkForever_puts hb hpolls ht'' mode timer _ reports

def LabMode.stores : LabMode → Nat
  | .tlbi timer => gicStores timer
  | .walk timer _ _ => gicStores timer

theorem labMode_puts (hb : HarnessMap b) (hg : Answering g) (hpolls : 0 < polls)
    (ht : t.on = true) (mode : UInt64) (reports : Nat) (m : LabMode) :
    Puts g polls t (m.prog lab mode reports) (text (m.lines lab g.value mode reports t.exits))
      m.stores .more := by
  cases m with
  | tlbi timer =>
    exact withTimer_puts hb hg hpolls ht timer
      fun t' ht' => tlbiForever_puts hb hpolls ht' mode reports 0
  | walk timer hwUpdates broadcast =>
    exact walkWith_puts hb hg hpolls ht mode timer hwUpdates broadcast reports

def labStores (mode : UInt64) : Nat := ((labMode mode).map LabMode.stores).getD 0

theorem labRun_puts (hb : HarnessMap b) (hg : Answering g) (hpolls : 0 < polls)
    (ht : t.on = true) (mode : UInt64) (reports : Nat) (k : Prog) :
    Puts g polls t (labRun lab mode reports k) (text (labLines lab g.value mode reports t.exits))
      (labStores mode) (if (labMode mode).isSome then .more else k) := by
  rw [labRun_eq, labLines, labStores]
  cases labMode mode with
  | some m =>
    apply (run_line hb hpolls ht rfl _).line
    intro t' ht' hexits
    dsimp only
    rw [← hexits]
    exact labMode_puts hb hg hpolls ht' mode reports m
  | none =>
    apply (run_line hb hpolls ht rfl _).line
    intro t' ht' _
    exact run_line hb hpolls ht' rfl k

theorem harnessMain_puts (hb : HarnessMap b) (hg : Answering g) (hpolls : 0 < polls)
    (ht : t.on = true) (mode : UInt64) (reports : Nat) :
    Puts g polls t (harnessMain lab mode reports)
      (text (firstLines lab g.value mode reports t.exits)) (labStores mode)
      (if (labMode mode).isSome then .more else regression) := by
  have hhello : ascii "hello\n" = ascii "hello" ++ [0x0a] := rfl
  apply (run_line hb hpolls ht hhello _).line
  intro t' ht' hexits
  rw [← hexits]
  by_cases hmode : mode = 0
  · have hnone : labMode mode = none := by
      rw [hmode]
      rfl
    rw [if_neg (not_not.mpr hmode), if_neg (not_not.mpr hmode), labStores, hnone]
    exact .refl ht' regression
  · rw [if_pos hmode, if_pos hmode]
    exact labRun_puts hb hg hpolls ht' mode reports regression

/-! ## The regression run -/

/-- One exit that reads a device or calls outside, and otherwise changes nothing. -/
structure Touched (t : Board) (calls : List Call) (t' : Board) : Prop where
  on : t'.on = true
  exits : t'.exits = t.exits + 1
  written : t'.written = t.written
  outside : t'.outside = t.outside ++ calls

theorem run_wtcon {fwd : MmioForward} (hf : Forwards b fwd) (ht : t.on = true)
    {k : UInt32 → Prog} (h : ∀ t', Touched t [.deviceRead fwd.vmmVaddr] t' →
      Q (g.onBoard.run polls (k (g.deviceWord t.exits)) t')) :
    Q (g.onBoard.run polls (.load (harnessWatchdogGpa + harnessWatchdogWtcon) k) t) := by
  obtain ⟨region, hfind, hbase, hcallback⟩ := hf
  have haddr : harnessWatchdogGpa = region.base + harnessWatchdogWtcon := by
    rw [hbase]
    decide
  have hvaddr : fwd.vmmVaddr + harnessWatchdogWtcon = fwd.vmmVaddr := UInt64.add_zero _
  rw [haddr] at hfind
  have hload := g.load_forward ht hfind hcallback (by decide)
  rw [hbase, hvaddr] at hload
  rw [Platform.run, hload]
  exact h _ ⟨ht, rfl, rfl, rfl⟩

theorem run_psciVersion (hg : Answering g) (ht : t.on = true) {k : UInt64 → Prog}
    (h : ∀ t', Touched t [] t' →
      Q (g.onBoard.run polls (k (((g.psci t.exits).getD {}).x 0)) t')) :
    Q (g.onBoard.run polls (.call psciVersionFid k) t) := by
  obtain ⟨regs, hregs⟩ := hg.psci t.exits
  have hservice : smcccService psciVersionFid.toUInt32 = smcccServiceStd := by decide
  have hcall := g.call_psci ht hservice (by decide) hregs (hg.powered t.exits)
  rw [hregs] at h
  rw [Platform.run, hcall]
  exact h _ ⟨ht, rfl, rfl, (List.append_nil _).symm⟩

theorem run_smcccVersion (hg : Answering g) (ht : t.on = true) {k : UInt64 → Prog}
    (h : ∀ t', Touched t [.armSmcCall (smcRequest (g.smcRegs t.exits smcccVersion))] t' →
      Q (g.onBoard.run polls (k (smcX0 (g.response t.exits))) t')) :
    Q (g.onBoard.run polls (.call smcccVersion k) t) := by
  rw [Platform.run, g.call_version ht (by decide) (hg.advance t.exits)]
  exact h _ ⟨ht, rfl, rfl, rfl⟩

theorem run_unhandled (ht : t.on = true) (k : UInt64 → Prog) :
    g.onBoard.run polls (.call harnessUnhandledSmcFid k) t =
      ({ t with
        on := false
        exits := t.exits + 1
        refused := some { kind := .smc, detail := harnessUnhandledSmcFid } }, .halted) := by
  rw [Platform.run, g.call_unhandled ht (by decide) (by decide)]

/-- What the regression run reads and calls outside. -/
def regressionCalls (g : Guest b Var) (fwd : MmioForward) (n : Nat) : List Call :=
  [.deviceRead fwd.vmmVaddr, .armSmcCall (smcRequest (g.smcRegs (smcccAt n) smcccVersion))]

/-- The board after the regression run: the SMC that the VMM does not handle ends it. -/
structure Regressed (g : Guest b Var) (fwd : MmioForward) (t : Board)
    (o : Board × Platform.Ending) : Prop where
  halted : o.2 = .halted
  written : o.1.written = t.written ++ text (regressionLines g t.exits)
  outside : o.1.outside = t.outside ++ regressionCalls g fwd t.exits
  refused : o.1.refused = some { kind := .smc, detail := harnessUnhandledSmcFid }

theorem regression_run (hb : HarnessMap b) {fwd : MmioForward} (hf : Forwards b fwd)
    (hg : Answering g) (hpolls : 0 < polls) (ht : t.on = true) :
    Regressed g fwd t (g.onBoard.run polls regression t) := by
  have hdigits : ∀ (val : UInt64) (bs : List UInt8),
      (ascii "0x" ++ (hexText val 8 ++ (ascii "\n" ++ bs))).length = 11 + bs.length := by
    intro val bs
    have hx : (ascii "0x").length = 2 := rfl
    have hlf : (ascii "\n").length = 1 := rfl
    simp only [List.length_append, hexText_length, hx, hlf]
    omega
  simp only [regression, uartPuthex32, uartPuthex, uartPuts_append]
  apply (run_uartPuts hb hpolls ht _ _).run
  intro t₁ h₁
  have hwtcon : t₁.exits = wtconAt t.exits := h₁.exits
  apply run_wtcon hf h₁.on
  intro t₂ h₂
  apply (run_uartPuts hb hpolls h₂.on _ _).run
  intro t₃ h₃
  have hpsci : t₃.exits = psciAt t.exits := by
    rw [h₃.exits, h₂.exits, hwtcon, psciAt, hdigits, Nat.add_zero]
  apply run_psciVersion hg h₃.on
  intro t₄ h₄
  apply (run_uartPuts hb hpolls h₄.on _ _).run
  intro t₅ h₅
  have hsmccc : t₅.exits = smcccAt t.exits := by
    rw [h₅.exits, h₄.exits, hpsci, smcccAt, hdigits, Nat.add_zero]
  apply run_smcccVersion hg h₅.on
  intro t₆ h₆
  apply (run_uartPuts hb hpolls h₆.on _ _).run
  intro t₇ h₇
  rw [run_unhandled h₇.on]
  refine ⟨rfl, ?_, ?_, rfl⟩
  · show t₇.written = _
    rw [h₇.written, h₆.written, h₅.written, h₄.written, h₃.written, h₂.written, h₁.written]
    rw [hwtcon, hpsci, hsmccc]
    simp only [text, regressionLines, valueLine, List.flatMap_cons,
      List.flatMap_nil, List.append_nil, List.append_assoc, ascii_lf]
  · show t₇.outside = _
    rw [h₇.outside, h₆.outside, h₅.outside, h₄.outside, h₃.outside, h₂.outside, h₁.outside,
      hsmccc]
    simp [regressionCalls]

end

/-! ## On the VMM -/

/-- The VMM after `guest-start`. -/
def started (b : Build) (s : VmmState) (id select : UInt64) (boot : GuestBoot) : VmmState :=
  s.runCommand b { id, verb := cmdVerbGuestStart, arg := select }
    { load := some boot, write := .ok () }

/-- What `guest-start` has done when the guest runs. -/
structure Started (s : VmmState) (vcpu : Nat) (mode : UInt64) (t : VmmState) : Prop where
  state : t.state = .running
  vcpuOn : t.vcpuOn vcpu = true
  uart : t.uart = s.uart
  /-- The vCPU starts with the mode in x0, and nothing outside is touched. -/
  calls : ∃ regs pc, regs.x 0 = mode ∧ t.calls = s.calls ++
    [.vcpuReset vcpu, .writeRegisters vcpu regs, .vcpuRestart vcpu pc]

theorem started_of_idle {b : HostedBuild} {s : VmmState} (hidle : s.state ≠ .running)
    {ram : GuestRam b.ramSize} {select : UInt64} {boot : GuestBoot}
    (hload : (b.guestImageHarnessLoad ram select).2 = some boot)
    (hvcpu : (guestSelectVcpu select).toNat < b.numVcpus) (id : UInt64) :
    boot.dtb = Command.guestSelectHarnessMode select ∧
      Started s (guestSelectVcpu select).toNat (Command.guestSelectHarnessMode select)
        (started b.toBuild s id select boot) := by
  have hdtb : boot.dtb = Command.guestSelectHarnessMode select := by
    unfold HostedBuild.guestImageHarnessLoad at hload
    dsimp only at hload
    split_ifs at hload
    obtain rfl := Option.some.inj hload
    rfl
  refine ⟨hdtb, ?_⟩
  have hboot : started b.toBuild s id select boot =
      s.guestControlStart b.numVcpus select { load := some boot, write := .ok () } := rfl
  have heffect := VmmState.guestControlStart_effect s b.numVcpus select
    { load := some boot, write := .ok () } hidle
  rw [startCalls_of_load hvcpu rfl] at heffect
  rw [hboot, ← hdtb]
  refine ⟨?_, ?_, heffect.2, _, _, ?_, heffect.1⟩
  · unfold VmmState.guestControlStart VmmState.bootFresh
    rw [if_neg hidle, if_neg (Nat.not_le_of_lt hvcpu)]
    rfl
  · unfold VmmState.guestControlStart VmmState.bootFresh
    rw [if_neg hidle, if_neg (Nat.not_le_of_lt hvcpu)]
    exact Function.update_self ..
  · show Function.update (fun _ => (0 : UInt64)) 0 boot.dtb (0 : Fin 31) = boot.dtb
    exact Function.update_self ..

open ExynosUartEmul (guestPrompt)

/-- The VMM after the harness has run in it, from the VMM state `s` in which it was started:
modes 1 to 7 report for ever or wait for ever, and the others get to the regression run. -/
def Ran {b : HostedBuild} (g : Guest b.toBuild Var) (lab : Lab) (fwd : MmioForward) (s : VmmState)
    (mode : UInt64) (reports : Nat) (w : Guest.World) (ending : Platform.Ending) : Prop :=
  let lines := firstLines lab g.value mode reports 0
  let outside := w.vmm.calls.filter Guest.isOutside
  if (labMode mode).isSome then
    ending = .more ∧ w.vmm.state = .running ∧
      w.vmm.uart.printed = s.uart.printed ++ lines.map (guestPrompt ++ ·) ∧
      outside = s.calls.filter Guest.isOutside
  else
    ending = .halted ∧ w.vmm.state = .stoppedByFault ∧
      w.vmm.lastFault.fault = { kind := .smc, detail := harnessUnhandledSmcFid } ∧
      w.vmm.uart.printed = s.uart.printed ++
        (lines ++ regressionLines g (after 0 lines)).map (guestPrompt ++ ·) ∧
      outside = s.calls.filter Guest.isOutside ++ regressionCalls g fwd (after 0 lines)

/-- `guests/harness/guest_map.h`, with a harness of four bytes. -/
def harnessBuild : HostedBuild where
  lib := .aarch64
  numVcpus := 1
  libvmmRegions := [(gicdBase, 0x10000), (gicrBase, 0x20000)]
  uartGpa := harnessUartGpa
  uartSize := 0x100
  watchdog := some
    { name := "watchdog_cl0", gpa := harnessWatchdogGpa, size := 0x100, vmmVaddr := 0x2000000 }
  loader := .harness
  ramSize := 16
  ramGpa := 0x80000000
  dtbGpa := 0
  initrdGpa := 0
  harnessImage := [0x1f, 0x20, 0x03, 0xd5]
  kernelImage := []
  dtbImages _ := []
  initrdImage := []
  linuxSetupImages _ ram := (0, ram)

theorem harnessBuild_forwards : ∃ fwd, Forwards harnessBuild.toBuild fwd :=
  ⟨_, _, rfl, rfl, rfl⟩

theorem harnessBuild_map : HarnessMap harnessBuild.toBuild where
  uart := by
    intro offset hoffset
    rcases List.mem_pair.mp hoffset with rfl | rfl
    · exact ⟨_, _, rfl, rfl, rfl⟩
    · exact ⟨_, _, rfl, rfl, rfl⟩
  watchdog := harnessBuild_forwards
  gicd := ⟨_, rfl, rfl⟩
  gicr := by
    intro vcpu hvcpu
    obtain rfl := Nat.lt_one_iff.mp hvcpu
    exact ⟨_, rfl, rfl⟩

theorem harness_vcpu : 0 < harnessBuild.toBuild.numVcpus := by decide

/-- Each counter is the number of exits so far and its own number, PSCI and EL3 answer 1.1, and
the watchdog reads 0x8021. -/
def harnessGuest : Guest harnessBuild.toBuild Var where
  vcpu := 0
  regs _ := {}
  rt _ := 1
  loadFsr _ := 0x810000
  storeFsr _ := 0x810040
  smcHsr _ := 0x5c000000
  deviceWord _ := 0x8021
  vgic _ := some {}
  psci _ := some (({} : UserContext).set 0 0x10001)
  powered _ vcpu := vcpu = 0
  response _ _ := 0x10001
  advance _ := true
  value
    | n, .timerIrqs => UInt64.ofNat n
    | n, .spuriousIrqs => UInt64.ofNat n + 1
    | _, .mpidr => 0x80000000
    | _, .mmfr1 => 0x10212122
    | _, .tcr => 0x18200803519
    | _, .sctlr => 0x30d01805
    | _, .esr => 0x9600004f
    | _, .elr => 0x80000a14
    | _, .far => 0x80006000
  exists_vcpu := harness_vcpu
  loads _ := aarch64_loads
  stores _ := aarch64_stores
  smcs _ := aarch64_smcs

theorem harnessGuest_answering : Answering harnessGuest where
  psci _ := ⟨_, rfl⟩
  powered _ := rfl
  advance _ := rfl
  vgic _ := ⟨_, rfl⟩
  mpidr _ := by
    show (0x80000000 : UInt64) &&& 0xff = 0
    decide

def sampleLab (cpu : Hafdbs) : Lab where
  layout := sampleLayout
  cpu := cpu
  gaps _ _ := sampleGaps
  reading _ := [.evict 0x80005, .prefetch 0x80006000]
  words _ := 0
  zeroed := zeroed_sample

/-- On a processor that sets the flag only. -/
example : (firstLines (sampleLab .flag) harnessGuest.value 4 1 0).drop 8 = [
    ascii "harness: unexpected exception, vector 4 ESR 0x000000009600004f" ++
      ascii " ELR 0x0000000080000a14 FAR 0x0000000080006000"] := by
  decide +kernel

end Transcript
end Harness
end TensorSel4
