/-
The loop of `freezewatch/freezewatch.c` that watches for a frozen console.

Other cores run between any two reads, so an iteration brings each value that
the loop reads by itself: the rings and the UART once for the stall timers and
once more for the latch.  A value that a short circuit skips is not looked at.
What `report_freeze` prints besides its reason is left out.
-/
import Mathlib.Data.UInt

namespace TensorSel4
namespace Freezewatch

def exynosUartUfstatRxcount : UInt32 := 0xff
def exynosUartUfstatRxfull : UInt32 := (1 : UInt32) <<< 8
def exynosUartUtrstatTxe : UInt32 := (1 : UInt32) <<< 2

def txStallSeconds : UInt64 := 3
def rxStallSeconds : UInt64 := 4

/-- The heads and tails that one `output_pending` loads. -/
structure RingReads where
  vmmHead : UInt64
  vmmTail : UInt64
  uartrxHead : UInt64
  uartrxTail : UInt64

def ringPending (head tail : UInt64) : Bool := head != tail

def outputPending (rings : RingReads) : Bool :=
  ringPending rings.vmmHead rings.vmmTail || ringPending rings.uartrxHead rings.uartrxTail

def txStuck (rings : RingReads) (utrstat : UInt32) : Bool :=
  outputPending rings && utrstat &&& exynosUartUtrstatTxe != 0

def rxStuck (ufstat : UInt32) : Bool :=
  ufstat &&& (exynosUartUfstatRxcount ||| exynosUartUfstatRxfull) != 0

structure Stall where
  since : UInt64 := 0
  limit : UInt64

/-- The timer after `stalled`, and what `stalled` returns. -/
def Stall.stalled (s : Stall) (stuck : Bool) (now : UInt64) : Stall × Bool :=
  if stuck then
    let since := if s.since = 0 then now else s.since
    ({ s with since }, decide (s.limit ≤ now - since))
  else ({ s with since := 0 }, false)

/-- What one iteration reads, in program order. -/
structure Iteration where
  now : UInt64
  timerRings : RingReads
  utrstat : UInt32
  timerUfstat : UInt32
  latchRings : RingReads
  latchUfstat : UInt32

inductive Condition
  | tx
  | rx

namespace Condition

/-- The iteration's stall timer reads the condition as stuck. -/
def stuck (it : Iteration) : Condition → Bool
  | tx => txStuck it.timerRings it.utrstat
  | rx => rxStuck it.timerUfstat

def limit (freq : UInt64) : Condition → UInt64
  | tx => freq * txStallSeconds
  | rx => freq * rxStallSeconds

def why : Condition → String
  | tx => "console output pending and the UART idle for 3 s"
  | rx => "received characters unread for 4 s"

end Condition

/-- The locals of `watch_forever`. -/
structure Watch where
  tx : Stall
  rx : Stall
  reported : Bool := false

namespace Watch

def start (freq : UInt64) : Watch where
  tx := { limit := Condition.tx.limit freq }
  rx := { limit := Condition.rx.limit freq }

/-- The latch's own look at the console. -/
def Quiet (it : Iteration) : Prop :=
  ¬outputPending it.latchRings ∧ ¬rxStuck it.latchUfstat

instance (it : Iteration) : Decidable (Quiet it) := inferInstanceAs (Decidable (_ ∧ _))

/-- `reported` when the iteration decides whether to report. -/
def latch (w : Watch) (it : Iteration) : Bool := if Quiet it then false else w.reported

/-- One iteration, with the reason of the report it issues. -/
def step (w : Watch) (it : Iteration) : Watch × Option String :=
  let tx := w.tx.stalled (txStuck it.timerRings it.utrstat) it.now
  let rx := w.rx.stalled (rxStuck it.timerUfstat) it.now
  if w.latch it = false ∧ (tx.2 ∨ rx.2) then
    ({ tx := tx.1, rx := rx.1, reported := true },
      some (if rx.2 then Condition.rx.why else Condition.tx.why))
  else ({ tx := tx.1, rx := rx.1, reported := w.latch it }, none)

def stall (w : Watch) : Condition → Stall
  | .tx => w.tx
  | .rx => w.rx

/-- `tx_fired` and `rx_fired`. -/
def fired (w : Watch) (it : Iteration) (c : Condition) : Bool :=
  ((w.stall c).stalled (c.stuck it) it.now).2

end Watch

/-- `watch_forever` before its iteration `n`. -/
def watch (freq : UInt64) (env : Nat → Iteration) : Nat → Watch
  | 0 => Watch.start freq
  | n + 1 => ((watch freq env n).step (env n)).1

/-- The report of iteration `n`. -/
def report (freq : UInt64) (env : Nat → Iteration) (n : Nat) : Option String :=
  ((watch freq env n).step (env n)).2

/-- The counter is positive and never goes back. -/
structure Clock (env : Nat → Iteration) : Prop where
  pos : ∀ n, (env n).now ≠ 0
  mono : ∀ m n, m ≤ n → (env m).now ≤ (env n).now

/-! ## One iteration -/

namespace Watch

variable {w : Watch} {it : Iteration}

theorem step_stall (w : Watch) (it : Iteration) (c : Condition) :
    (w.step it).1.stall c = ((w.stall c).stalled (c.stuck it) it.now).1 := by
  unfold step
  dsimp only
  split <;> cases c <;> rfl

theorem step_reported (w : Watch) (it : Iteration) :
    (w.step it).1.reported = true ↔ (w.step it).2 ≠ none ∨ w.latch it = true := by
  unfold step
  dsimp only
  split <;> simp

theorem step_report {why : String} (h : (w.step it).2 = some why) :
    w.latch it = false ∧ ∃ c, Condition.why c = why ∧ w.fired it c = true := by
  unfold step at h
  dsimp only at h
  split at h
  · next hfire =>
    obtain ⟨hlatch, hfired⟩ := hfire
    refine ⟨hlatch, ?_⟩
    by_cases hrx : w.fired it .rx = true
    · exact ⟨.rx, (if_pos hrx).symm.trans (Option.some.inj h), hrx⟩
    · have htx : w.fired it .tx = true := hfired.resolve_right hrx
      exact ⟨.tx, (if_neg hrx).symm.trans (Option.some.inj h), htx⟩
  · cases h

theorem latch_eq_true (w : Watch) (it : Iteration) :
    w.latch it = true ↔ w.reported = true ∧ ¬Quiet it := by
  unfold latch
  split <;> simp [*]

theorem stuck_of_fired {c : Condition} (h : w.fired it c = true) : c.stuck it = true := by
  unfold fired Stall.stalled at h
  split at h
  · assumption
  · cases h

/-- A timer that fired was running or starts now, and its limit has passed. -/
theorem limit_of_fired {c : Condition} (h : w.fired it c = true) :
    (w.stall c).limit ≤ it.now - (if (w.stall c).since = 0 then it.now else (w.stall c).since) := by
  have hstuck := stuck_of_fired h
  unfold fired Stall.stalled at h
  rw [if_pos hstuck] at h
  exact of_decide_eq_true h

end Watch

/-! ## The timers -/

variable {freq : UInt64} {env : Nat → Iteration}

theorem watch_limit (c : Condition) (n : Nat) :
    ((watch freq env n).stall c).limit = c.limit freq := by
  induction n with
  | zero => cases c <;> rfl
  | succ n ih =>
    rw [watch, Watch.step_stall, ← ih]
    unfold Stall.stalled
    split <;> rfl

/-- A running timer holds the counter of the iteration from which on its
condition was read as stuck. -/
def Timing (env : Nat → Iteration) (c : Condition) (since : UInt64) (n : Nat) : Prop :=
  since = 0 ∨ ∃ j < n, since = (env j).now ∧ ∀ i, j ≤ i → i < n → c.stuck (env i) = true

theorem watch_timing (c : Condition) (n : Nat) :
    Timing env c ((watch freq env n).stall c).since n := by
  induction n with
  | zero => cases c <;> exact Or.inl rfl
  | succ n ih =>
    rw [watch, Watch.step_stall]
    unfold Stall.stalled
    by_cases hstuck : c.stuck (env n) = true
    · rw [if_pos hstuck]
      dsimp only
      split
      · refine Or.inr ⟨n, by omega, rfl, ?_⟩
        intro i hge hlt
        obtain rfl : i = n := by omega
        exact hstuck
      · next hne =>
        obtain ⟨j, hj, hsince, hall⟩ := ih.resolve_left hne
        refine Or.inr ⟨j, by omega, hsince, ?_⟩
        intro i hge hlt
        rcases Nat.lt_succ_iff_lt_or_eq.mp hlt with hi | rfl
        · exact hall i hge hi
        · exact hstuck
    · rw [if_neg hstuck]
      exact Or.inl rfl

/-- A timer fires only after its condition was read as stuck for its limit. -/
theorem stalled_for_limit (hclock : Clock env) {c : Condition} {n : Nat}
    (h : (watch freq env n).fired (env n) c = true) :
    ∃ j ≤ n, (∀ i, j ≤ i → i ≤ n → c.stuck (env i) = true) ∧
      (env j).now.toNat + (c.limit freq).toNat ≤ (env n).now.toNat := by
  have hstuck := Watch.stuck_of_fired h
  have hlimit := Watch.limit_of_fired h
  rw [watch_limit] at hlimit
  have hpassed : ∀ j, j ≤ n → c.limit freq ≤ (env n).now - (env j).now →
      (env j).now.toNat + (c.limit freq).toNat ≤ (env n).now.toNat := by
    intro j hj hle
    have hmono := hclock.mono j n hj
    have hsub := UInt64.toNat_sub_of_le _ _ hmono
    have hlenat := UInt64.le_iff_toNat_le.mp hle
    have hmononat := UInt64.le_iff_toNat_le.mp hmono
    omega
  by_cases hzero : ((watch freq env n).stall c).since = 0
  · rw [if_pos hzero] at hlimit
    refine ⟨n, Nat.le_refl n, ?_, hpassed n (Nat.le_refl n) hlimit⟩
    intro i hge hle
    obtain rfl : i = n := by omega
    exact hstuck
  · rw [if_neg hzero] at hlimit
    obtain ⟨j, hj, hsince, hall⟩ := (watch_timing c n).resolve_left hzero
    rw [hsince] at hlimit
    refine ⟨j, by omega, ?_, hpassed j (by omega) hlimit⟩
    intro i hge hle
    rcases Nat.lt_or_eq_of_le hle with hi | rfl
    · exact hall i hge hi
    · exact hstuck

/-! ## The latch -/

/-- The iteration re-arms the latch although a timer of it reads its condition
as stuck. -/
def RearmsStuck (w : Watch) (it : Iteration) : Prop :=
  w.reported = true ∧ Watch.Quiet it ∧ (Condition.tx.stuck it = true ∨ Condition.rx.stuck it = true)

instance (w : Watch) (it : Iteration) : Decidable (RearmsStuck w it) :=
  inferInstanceAs (Decidable (_ ∧ _ ∧ _))

/-- Without a report and without a quiet look, the latch stays set. -/
theorem reported_of_not_quiet {m n : Nat} (hm : (watch freq env m).reported = true) (hmn : m ≤ n)
    (hquiet : ∀ i, m ≤ i → i < n → ¬Watch.Quiet (env i)) :
    (watch freq env n).reported = true := by
  induction n with
  | zero =>
    obtain rfl : m = 0 := by omega
    exact hm
  | succ n ih =>
    rcases Nat.lt_or_eq_of_le hmn with hlt | rfl
    · have hn := ih (by omega) fun i hge hi => hquiet i hge (by omega)
      rw [watch, Watch.step_reported, Watch.latch_eq_true]
      exact Or.inr ⟨hn, hquiet n (by omega) (by omega)⟩
    · exact hm

/-- Between two reports the latch was re-armed. -/
theorem rearmed_between {m n : Nat} (hmn : m < n) (hm : report freq env m ≠ none)
    (hn : report freq env n ≠ none) :
    ∃ i, m < i ∧ i ≤ n ∧ Watch.Quiet (env i) ∧ (watch freq env i).reported = true := by
  have hset : (watch freq env (m + 1)).reported = true :=
    ((watch freq env m).step_reported (env m)).mpr (Or.inl hm)
  obtain ⟨why, hwhy⟩ := Option.ne_none_iff_exists'.mp hn
  have hlatch := (Watch.step_report hwhy).1
  have hexists : ∃ i, m < i ∧ i ≤ n ∧ Watch.Quiet (env i) := by
    by_contra hnone
    have hall : ∀ i, m < i → i ≤ n → ¬Watch.Quiet (env i) := by
      intro i hgt hle hq
      exact hnone ⟨i, hgt, hle, hq⟩
    have hreported := reported_of_not_quiet hset hmn fun i hge hlt => hall i hge (by omega)
    have htrue := ((watch freq env n).latch_eq_true (env n)).mpr
      ⟨hreported, hall n hmn (Nat.le_refl n)⟩
    rw [hlatch] at htrue
    cases htrue
  have hfirst := Nat.find_spec hexists
  refine ⟨Nat.find hexists, hfirst.1, hfirst.2.1, hfirst.2.2, ?_⟩
  refine reported_of_not_quiet hset hfirst.1 ?_
  intro i hge hlt hq
  exact Nat.find_min hexists hlt ⟨hge, by omega, hq⟩

/-- A report means that its condition was stuck for its limit.  Where no iteration
re-arms the latch over a stuck reading, a condition that fires a report was read
as not stuck since the report before it. -/
theorem freeze_reported_once (freq : UInt64) (env : Nat → Iteration) (hclock : Clock env)
    (hsettled : ∀ n, ¬RearmsStuck (watch freq env n) (env n)) :
    (∀ n why, report freq env n = some why → ∃ c : Condition, c.why = why ∧
      ∃ j ≤ n, (∀ i, j ≤ i → i ≤ n → c.stuck (env i) = true) ∧
        (env j).now.toNat + (c.limit freq).toNat ≤ (env n).now.toNat) ∧
    ∀ m n, m < n → report freq env m ≠ none → report freq env n ≠ none →
      ∀ c, (watch freq env n).fired (env n) c = true →
        ∃ i, m < i ∧ i < n ∧ c.stuck (env i) = false := by
  constructor
  · intro n why h
    obtain ⟨-, c, hc, hfired⟩ := Watch.step_report h
    exact ⟨c, hc, stalled_for_limit hclock hfired⟩
  · intro m n hmn hm hn c hfired
    obtain ⟨i, hgt, hle, hquiet, hreported⟩ := rearmed_between hmn hm hn
    have hnot : c.stuck (env i) = false := by
      by_contra hstuck
      rw [Bool.not_eq_false] at hstuck
      refine hsettled i ⟨hreported, hquiet, ?_⟩
      cases c with
      | tx => exact Or.inl hstuck
      | rx => exact Or.inr hstuck
    refine ⟨i, hgt, ?_, hnot⟩
    rcases Nat.lt_or_eq_of_le hle with hlt | rfl
    · exact hlt
    · rw [Watch.stuck_of_fired hfired] at hnot
      cases hnot

/-! ## Two runs -/

def pendingRings : RingReads := ⟨1, 0, 0, 0⟩

def idleRings : RingReads := ⟨0, 0, 0, 0⟩

/-- Two values of a counter at 24576000 Hz, 3 s apart. -/
def sampleNow : Nat → UInt64
  | 0 => 1
  | _ => 73728001

/-- Output pending and the UART idle whenever a timer looks; the latch finds
`latchRings`. -/
def sampleReads (latchRings : Nat → RingReads) (n : Nat) : Iteration where
  now := sampleNow n
  timerRings := pendingRings
  utrstat := exynosUartUtrstatTxe
  timerUfstat := 0
  latchRings := latchRings n
  latchUfstat := 0

theorem sampleReads_clock (latchRings : Nat → RingReads) : Clock (sampleReads latchRings) where
  pos := by
    intro n
    cases n <;> simp [sampleReads, sampleNow]
  mono := by
    intro m n h
    cases m <;> cases n <;> simp [sampleReads, sampleNow] at h ⊢

theorem freeze_reported_once_pending :
    report 24576000 (sampleReads fun _ => pendingRings) 1 = some Condition.tx.why ∧
      ∃ c : Condition, c.why = Condition.tx.why ∧ ∃ j ≤ 1,
        (∀ i, j ≤ i → i ≤ 1 → c.stuck (sampleReads (fun _ => pendingRings) i) = true) ∧
        (sampleNow j).toNat + (c.limit 24576000).toNat ≤ 73728001 := by
  have hreport : report 24576000 (sampleReads fun _ => pendingRings) 1 = some Condition.tx.why := by
    decide
  refine ⟨hreport, (freeze_reported_once 24576000 _ (sampleReads_clock _) ?_).1 1 _ hreport⟩
  rintro n ⟨-, hquiet, -⟩
  exact hquiet.1 rfl

/-- The rings empty out between the two looks of iteration 2: the stall reported in
iteration 1 is reported again, and every look of the timer read it as stuck. -/
theorem freeze_reported_twice :
    ¬∀ (freq : UInt64) (env : Nat → Iteration), Clock env → ∀ m n, m < n →
      report freq env m ≠ none → report freq env n ≠ none →
      ∀ c, (watch freq env n).fired (env n) c = true →
        ∃ i, m ≤ i ∧ i ≤ n ∧ c.stuck (env i) = false := by
  intro h
  obtain ⟨i, -, -, hi⟩ := h 24576000
    (sampleReads fun n => if n = 2 then idleRings else pendingRings) (sampleReads_clock _) 1 2
    (by decide) (by decide) (by decide) .tx (by decide)
  have hstuck : txStuck pendingRings exynosUartUtrstatTxe = true := by decide
  exact Bool.false_ne_true (hi.symm.trans hstuck)

end Freezewatch
end TensorSel4
