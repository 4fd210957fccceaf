/-
The harness's interrupts: `vectors.S`, and `lab_irq` of `lab.c`.

The vector table sends an IRQ that is taken at EL1 with `SP_EL1` to `lab_irq_entry`,
and every other exception to `lab_bad_entry` with its index in `x0`.  The compiled
`lab_irq` is any function that keeps the procedure call standard and leaves in its
two counters what the source does.  An interrupt is then as good as the update of
the two counters alone, `countIrq`, to a main program that keeps nothing it needs
below its stack pointer; it may well read the counters, as `report` does.
-/
import TensorSel4.Assembly.Frame

namespace TensorSel4
namespace Harness

open Assembly

def vtimerIntid : UInt64 := 27
def intidSpuriousMin : UInt64 := 1020
def timerPeriodTicks : UInt64 := 2458

/-! ## The vectors -/

inductive ExceptionSource where
  | currentSp0
  | currentSpx
  | lower64
  | lower32

inductive ExceptionKind where
  | sync
  | irq
  | fiq
  | serror

/-- The entry of the table that the processor starts at; entries are 128 bytes. -/
def vectorIndex (source : ExceptionSource) (kind : ExceptionKind) : Nat :=
  let row := match source with
    | .currentSp0 => 0
    | .currentSpx => 1
    | .lower64 => 2
    | .lower32 => 3
  let column := match kind with
    | .sync => 0
    | .irq => 1
    | .fiq => 2
    | .serror => 3
  4 * row + column

inductive Target where
  | irqEntry
  | badEntry (vector : UInt64)
deriving DecidableEq

/-- `.irp n, 0, 1, 2, 3, 4`, the branch to `lab_irq_entry`, `.irp n, 6, ..., 15`. -/
def labVectors : List Target :=
  [.badEntry 0, .badEntry 1, .badEntry 2, .badEntry 3, .badEntry 4, .irqEntry, .badEntry 6,
    .badEntry 7, .badEntry 8, .badEntry 9, .badEntry 10, .badEntry 11, .badEntry 12, .badEntry 13,
    .badEntry 14, .badEntry 15]

theorem labVectors_irq : labVectors[vectorIndex .currentSpx .irq]? = some .irqEntry := rfl

/-! ## The entry -/

def labIrqStores : List Instr :=
  [.stp 0 1 0, .stp 2 3 16, .stp 4 5 32, .stp 6 7 48, .stp 8 9 64, .stp 10 11 80, .stp 12 13 96,
    .stp 14 15 112, .stp 16 17 128, .stp 18 29 144, .str 30 160]

def labIrqLoads : List Instr :=
  [.ldp 0 1 0, .ldp 2 3 16, .ldp 4 5 32, .ldp 6 7 48, .ldp 8 9 64, .ldp 10 11 80, .ldp 12 13 96,
    .ldp 14 15 112, .ldp 16 17 128, .ldp 18 29 144, .ldr 30 160]

/-- `lab_irq_entry`, where `bl lab_irq` leaves `link` in `x30`. -/
def labIrqEntry (link : UInt64) : List Instr := handlerCode (22 * 8) labIrqStores labIrqLoads link

def labIrqSlots : List Slot :=
  [(0, 0), (1, 8), (2, 16), (3, 24), (4, 32), (5, 40), (6, 48), (7, 56), (8, 64), (9, 72),
    (10, 80), (11, 88), (12, 96), (13, 104), (14, 112), (15, 120), (16, 128), (17, 136),
    (18, 144), (29, 152), (30, 160)]

theorem run_labIrqStores (call : Cpu → Cpu) (s : Cpu) :
    run call labIrqStores s = save labIrqSlots s := rfl

theorem run_labIrqLoads (call : Cpu → Cpu) (s : Cpu) :
    run call labIrqLoads s = restore labIrqSlots s := rfl

theorem labIrqSlots_covers {r : Nat} (hr : r ≤ 30) :
    r ∈ labIrqSlots.map Prod.fst ∨ 19 ≤ r ∧ r ≤ 29 := by
  simp only [labIrqSlots, List.map_cons, List.map_nil, List.mem_cons, List.not_mem_nil, or_false]
  omega

theorem labIrqSlots_lt : ∀ p ∈ labIrqSlots, p.2 < 22 * 8 := by
  decide

/-! ## `lab_irq` -/

structure Counters where
  timerIrqs : UInt64
  spuriousIrqs : UInt64

inductive SysWrite where
  | cntvTval (ticks : UInt64)
  | eoir (iar : UInt64)
deriving DecidableEq

def labIrq (iar : UInt64) (c : Counters) : Counters × List SysWrite :=
  if intidSpuriousMin ≤ iar &&& 0xffffff then
    ({ c with spuriousIrqs := c.spuriousIrqs + 1 }, [])
  else if iar &&& 0xffffff = vtimerIntid then
    ({ c with timerIrqs := c.timerIrqs + 1 }, [.cntvTval timerPeriodTicks, .eoir iar])
  else (c, [.eoir iar])

def labIrqs : List UInt64 → Counters → Counters × List SysWrite
  | [], c => (c, [])
  | iar :: iars, c =>
    let t := labIrq iar c
    let u := labIrqs iars t.1
    (u.1, t.2 ++ u.2)

def isSpurious (iar : UInt64) : Bool := decide (intidSpuriousMin ≤ iar &&& 0xffffff)

def isTimer (iar : UInt64) : Bool := decide (iar &&& 0xffffff = vtimerIntid)

theorem not_spurious_of_timer {iar : UInt64} (h : isTimer iar = true) : isSpurious iar = false := by
  rw [isTimer, decide_eq_true_iff] at h
  rw [isSpurious, h]
  decide

theorem labIrqs_timer (iars : List UInt64) (c : Counters) :
    (labIrqs iars c).1.timerIrqs = c.timerIrqs + UInt64.ofNat (iars.countP isTimer) := by
  induction iars generalizing c with
  | nil => simp [labIrqs]
  | cons iar iars ih =>
    rw [labIrqs, ih, labIrq]
    by_cases ht : isTimer iar = true
    · have hs : ¬intidSpuriousMin ≤ iar &&& 0xffffff :=
        of_decide_eq_false (not_spurious_of_timer ht)
      rw [if_neg hs, if_pos (of_decide_eq_true ht), List.countP_cons_of_pos ht, UInt64.ofNat_add,
        UInt64.add_assoc, UInt64.add_comm 1]
      rfl
    · rw [List.countP_cons_of_neg ht, if_neg (c := iar &&& 0xffffff = vtimerIntid)]
      · split <;> rfl
      · intro h
        exact ht (decide_eq_true h)

theorem labIrqs_spurious (iars : List UInt64) (c : Counters) :
    (labIrqs iars c).1.spuriousIrqs = c.spuriousIrqs + UInt64.ofNat (iars.countP isSpurious) := by
  induction iars generalizing c with
  | nil => simp [labIrqs]
  | cons iar iars ih =>
    rw [labIrqs, ih, labIrq]
    by_cases hs : isSpurious iar = true
    · rw [if_pos (of_decide_eq_true hs), List.countP_cons_of_pos hs, UInt64.ofNat_add,
        UInt64.add_assoc, UInt64.add_comm 1]
      rfl
    · rw [List.countP_cons_of_neg hs, if_neg (c := intidSpuriousMin ≤ iar &&& 0xffffff)]
      · split <;> rfl
      · intro h
        exact hs (decide_eq_true h)

def SysWrite.isEoir : SysWrite → Bool
  | .eoir _ => true
  | .cntvTval _ => false

/-- Every acknowledged interrupt is ended once and in order, and a spurious one never. -/
theorem labIrqs_eoir (iars : List UInt64) (c : Counters) :
    (labIrqs iars c).2.filter SysWrite.isEoir =
      (iars.filter fun iar => !isSpurious iar).map .eoir := by
  induction iars generalizing c with
  | nil => rfl
  | cons iar iars ih =>
    rw [labIrqs, List.filter_append, ih, labIrq, List.filter_cons]
    by_cases hs : isSpurious iar = true
    · rw [if_pos (of_decide_eq_true hs), hs]
      rfl
    · have hs' : ¬intidSpuriousMin ≤ iar &&& 0xffffff := fun h => hs (decide_eq_true h)
      rw [if_neg hs', Bool.eq_false_iff.mpr hs]
      split <;> rfl

/-! ## Interrupts of the main program -/

/-- The words of the two counters. -/
structure CounterWords where
  timer : UInt64
  spurious : UInt64
  distinct : timer ≠ spurious

namespace CounterWords

variable (w : CounterWords)

def Owned (a : UInt64) : Prop := a = w.timer ∨ a = w.spurious

def read (s : Cpu) : Counters := ⟨s.mem w.timer, s.mem w.spurious⟩

/-- What an interrupt is for: `lab_irq` on the counters, and nothing else. -/
def countIrq (iar : UInt64) (s : Cpu) : Cpu :=
  let c := (labIrq iar (w.read s)).1
  { s with
    mem := Function.update (Function.update s.mem w.timer c.timerIrqs) w.spurious c.spuriousIrqs }

/-- `f iar` is `lab_irq` compiled, where the interrupt controller returns `iar`. -/
structure Compiled (depth : Nat) (f : UInt64 → Cpu → Cpu) : Prop where
  callee : ∀ iar, Callee w.Owned depth (f iar)
  counts : ∀ iar s, Room w.Owned depth s.sp → w.read (f iar s) = (labIrq iar (w.read s)).1

/-- The main program at `s`: it has left the handler its stack, it depends on the live words and
on none of that stack, and it does not write the counters. -/
structure Mainline {ι : Type} (n : Nat) (live : Cpu → UInt64 → Prop) (step : ι → Cpu → Cpu)
    (s : Cpu) : Prop where
  room : Room w.Owned n s.sp
  outside : ∀ a, live s a → ¬Below s.sp n a
  counters : ∀ a, w.Owned a → live s a
  steady : ∀ iar a, live (w.countIrq iar s) a → live s a
  agree : ∀ i t, Agree live s t → Agree live (step i s) (step i t)
  keeps : ∀ i, w.read (step i s) = w.read s

theorem read_countIrq (iar : UInt64) (s : Cpu) :
    w.read (w.countIrq iar s) = (labIrq iar (w.read s)).1 := by
  simp only [read, countIrq]
  rw [Function.update_of_ne w.distinct, Function.update_self, Function.update_self]

theorem countIrq_mem {a : UInt64} (h : ¬w.Owned a) (iar : UInt64) (s : Cpu) :
    (w.countIrq iar s).mem a = s.mem a := by
  obtain ⟨ht, hs⟩ := not_or.mp h
  simp only [countIrq]
  rw [Function.update_of_ne hs, Function.update_of_ne ht]

/-- A word of the counters is a part of them. -/
theorem mem_of_read {s t : Cpu} (h : w.read t = w.read s) {a : UInt64} (ha : w.Owned a) :
    t.mem a = s.mem a := by
  rcases ha with rfl | rfl
  · exact congrArg Counters.timerIrqs h
  · exact congrArg Counters.spuriousIrqs h

theorem read_of_mem {s t : Cpu} (h : ∀ a, w.Owned a → t.mem a = s.mem a) : w.read t = w.read s := by
  rw [read, read, h _ (.inl rfl), h _ (.inr rfl)]

end CounterWords

/-- An IRQ from the vector at `vbar`, taken with exceptions masked. -/
def takeIrq (f : UInt64 → Cpu → Cpu) (vbar masked link iar : UInt64) (s : Cpu) : Cpu :=
  run (f iar) (labIrqEntry link)
    (takeException s (vbar + 128 * UInt64.ofNat (vectorIndex .currentSpx .irq)) masked)

/-- The stack of an interrupt: the frame of `lab_irq_entry`, and what `lab_irq` uses. -/
def irqStack (depth : Nat) : Nat := (22 * 8 : UInt64).toNat + depth

section

variable {w : CounterWords} {depth : Nat} {f : UInt64 → Cpu → Cpu} {vbar masked link : UInt64}

theorem takeIrq_resumed (hf : w.Compiled depth f) (iar : UInt64) {s : Cpu}
    (hroom : Room w.Owned (irqStack depth) s.sp) :
    Resumed w.Owned (irqStack depth) s (takeIrq f vbar masked link iar s) :=
  resumed_of_frame (hf.callee iar) (run_labIrqStores _) (run_labIrqLoads _) (by decide) (by decide)
    labIrqSlots_lt (fun _ => labIrqSlots_covers) hroom _ masked

theorem takeIrq_counts (hf : w.Compiled depth f) (iar : UInt64) {s : Cpu}
    (hroom : Room w.Owned (irqStack depth) s.sp) :
    w.read (takeIrq f vbar masked link iar s) = (labIrq iar (w.read s)).1 := by
  obtain ⟨u, hmem, hfits, hu⟩ := handler_mem link (run_labIrqStores (f iar))
    (run_labIrqLoads (f iar)) labIrqSlots_lt hroom
    (vbar + 128 * UInt64.ofNat (vectorIndex .currentSpx .irq)) masked
  have hread : w.read u = w.read s := w.read_of_mem fun a ha => hu a (hroom.apart a ha)
  have hout : w.read (takeIrq f vbar masked link iar s) = w.read (f iar u) := by
    apply w.read_of_mem
    intro a _
    exact congrFun hmem a
  rw [hout, hf.counts iar u hfits, hread]

variable {ι : Type} {live : Cpu → UInt64 → Prop} {step : ι → Cpu → Cpu} {s₀ : Cpu}

/-- An interrupt is its update of the counters. -/
theorem takeIrq_agree (hf : w.Compiled depth f) {s t : Cpu}
    (hm : w.Mainline (irqStack depth) live step s) (h : Agree live s t) (iar : UInt64) :
    Agree live (w.countIrq iar s) (takeIrq f vbar masked link iar t) := by
  have hroom : Room w.Owned (irqStack depth) t.sp := h.sp.symm ▸ hm.room
  have hresumed : Resumed w.Owned (irqStack depth) t (takeIrq f vbar masked link iar t) :=
    takeIrq_resumed hf iar hroom
  have hread : w.read t = w.read s := w.read_of_mem fun a ha => h.memory a (hm.counters a ha)
  have hcounts : w.read (takeIrq f vbar masked link iar t) = w.read (w.countIrq iar s) := by
    rw [takeIrq_counts hf iar hroom, hread, w.read_countIrq]
  constructor
  · intro r hr
    rw [hresumed.regs r hr, h.regs r hr]
    rfl
  · exact hresumed.sp.trans h.sp
  · exact hresumed.pc.trans h.pc
  · exact hresumed.pstate.trans h.pstate
  · intro a ha
    have hlive : live s a := hm.steady iar a ha
    by_cases howned : w.Owned a
    · exact w.mem_of_read hcounts howned
    · rw [hresumed.memory a (h.sp.symm ▸ hm.outside a hlive) howned, h.memory a hlive,
        w.countIrq_mem howned]

/-- The ideal run counts its interrupts. -/
theorem interrupted_counts
    (hm : ∀ s, Reached step w.countIrq s₀ s → w.Mainline (irqStack depth) live step s)
    (l : List (ι ⊕ UInt64)) {s : Cpu} (hs : Reached step w.countIrq s₀ s) :
    w.read (interrupted step w.countIrq l s) =
      (labIrqs (l.filterMap Sum.getRight?) (w.read s)).1 := by
  induction l generalizing s with
  | nil => rfl
  | cons x l ih =>
    cases x with
    | inl i =>
      rw [interrupted, ih (hs.step i), (hm s hs).keeps]
      rfl
    | inr iar =>
      rw [interrupted, ih (hs.handle iar), w.read_countIrq]
      rfl

/-- Interrupts at any points of the main program, any number of them, are as good as adding to
the counters there: they leave it the same in every register and in all the memory that it
depends on, the counters included.  These have counted every timer interrupt and every spurious
one since. -/
theorem interrupts_transparent (hf : w.Compiled depth f)
    (hm : ∀ s, Reached step w.countIrq s₀ s → w.Mainline (irqStack depth) live step s)
    (l : List (ι ⊕ UInt64)) :
    let s := interrupted step w.countIrq l s₀
    let t := interrupted step (takeIrq f vbar masked link) l s₀
    Agree live s t ∧
      (w.read t).timerIrqs =
        (w.read s₀).timerIrqs + UInt64.ofNat ((l.filterMap Sum.getRight?).countP isTimer) ∧
      (w.read t).spuriousIrqs =
        (w.read s₀).spuriousIrqs +
          UInt64.ofNat ((l.filterMap Sum.getRight?).countP isSpurious) := by
  intro s t
  have hagree : Agree live s t := interrupted_agree (fun s hs => (hm s hs).agree)
    (fun s hs iar t h => takeIrq_agree hf (hm s hs) h iar) l .start (Agree.refl live s₀)
  have hlast : Reached step w.countIrq s₀ s := Reached.interrupted .start l
  have hread : w.read t = w.read s :=
    w.read_of_mem fun a ha => hagree.memory a ((hm s hlast).counters a ha)
  have hcounts : w.read s = (labIrqs (l.filterMap Sum.getRight?) (w.read s₀)).1 :=
    interrupted_counts hm l .start
  refine ⟨hagree, ?_, ?_⟩
  · rw [hread, hcounts, labIrqs_timer]
  · rw [hread, hcounts, labIrqs_spurious]

end

/-! ## A program that reads a counter -/

theorem sampleWords_distinct : (0x80001000 : UInt64) ≠ 0x80001008 := by decide

def counterWords : CounterWords := ⟨0x80001000, 0x80001008, sampleWords_distinct⟩

/-- `lab_irq` with a saved register on its stack. -/
def labIrqSaving (iar : UInt64) (s : Cpu) : Cpu :=
  counterWords.countIrq iar { s with
    mem := Function.update s.mem (s.sp - 16) (s.regs 30)
    regs := Function.update s.regs 0 iar }

theorem compiled_labIrqSaving : counterWords.Compiled 16 labIrqSaving := by
  have hslot (s : Cpu) (hroom : Room counterWords.Owned 16 s.sp) : Below s.sp 16 (s.sp - 16) := by
    have hfits := hroom.fits
    have hsub : (s.sp - 16).toNat = s.sp.toNat - 16 :=
      UInt64.toNat_sub_of_le _ _ (UInt64.le_iff_toNat_le.mpr hfits)
    rw [Below, hsub]
    omega
  constructor
  · intro iar
    refine ⟨fun _ _ => rfl, ?_, fun _ _ => rfl, fun _ _ => rfl, ?_⟩
    · intro s _ r hlow _
      have hne : r ≠ 0 := by omega
      exact Function.update_of_ne hne ..
    · intro s hroom a hout hfree
      have hne : a ≠ s.sp - 16 := by
        rintro rfl
        exact hout (hslot s hroom)
      rw [labIrqSaving, counterWords.countIrq_mem hfree]
      exact Function.update_of_ne hne ..
  · intro iar s hroom
    rw [labIrqSaving, counterWords.read_countIrq]
    have hread : counterWords.read { s with
        mem := Function.update s.mem (s.sp - 16) (s.regs 30)
        regs := Function.update s.regs 0 iar } = counterWords.read s := by
      apply counterWords.read_of_mem
      intro a ha
      have hne : a ≠ s.sp - 16 := by
        rintro rfl
        exact hroom.apart _ ha (hslot s hroom)
      exact Function.update_of_ne hne ..
    rw [hread]

/-- A loop that loads the timer's counter, pushes it, reads a device and pops the counter into
`x2`. -/
def pollCounter (status : UInt64) (s : Cpu) : Cpu :=
  if s.pc = 0x80000100 then
    { s with regs := Function.update s.regs 1 (s.mem counterWords.timer), pc := 0x80000104 }
  else if s.pc = 0x80000104 then
    { s with
      sp := s.sp - 16
      mem := Function.update s.mem (s.sp - 16) (s.regs 1)
      pc := 0x80000108 }
  else if s.pc = 0x80000108 then
    { s with regs := Function.update s.regs 1 status, pc := 0x8000010c }
  else
    { s with
      regs := Function.update s.regs 2 (s.mem s.sp)
      sp := s.sp + 16
      pc := 0x80000100 }

section

variable {s : Cpu} (status : UInt64)

theorem pollCounter_load (hpc : s.pc = 0x80000100) : pollCounter status s =
    { s with regs := Function.update s.regs 1 (s.mem counterWords.timer), pc := 0x80000104 } :=
  if_pos hpc

theorem pollCounter_push (hpc : s.pc = 0x80000104) : pollCounter status s =
    { s with
      sp := s.sp - 16
      mem := Function.update s.mem (s.sp - 16) (s.regs 1)
      pc := 0x80000108 } := by
  rw [pollCounter, if_neg (by rw [hpc]; decide), if_pos hpc]

theorem pollCounter_device (hpc : s.pc = 0x80000108) : pollCounter status s =
    { s with regs := Function.update s.regs 1 status, pc := 0x8000010c } := by
  rw [pollCounter, if_neg (by rw [hpc]; decide), if_neg (by rw [hpc]; decide), if_pos hpc]

theorem pollCounter_pop (hpc : s.pc = 0x8000010c) : pollCounter status s =
    { s with
      regs := Function.update s.regs 2 (s.mem s.sp)
      sp := s.sp + 16
      pc := 0x80000100 } := by
  rw [pollCounter, if_neg (by rw [hpc]; decide), if_neg (by rw [hpc]; decide),
    if_neg (by rw [hpc]; decide)]

end

/-- The pushed word is live until it is popped, the counters always. -/
def pollLive (s : Cpu) (a : UInt64) : Prop :=
  counterWords.Owned a ∨ (s.pc = 0x80000108 ∨ s.pc = 0x8000010c) ∧ a = s.sp

/-- Where the loop can be. -/
def OnTrack (s : Cpu) : Prop :=
  (s.pc = 0x80000100 ∨ s.pc = 0x80000104) ∧ s.sp = 0x80010000 ∨
    (s.pc = 0x80000108 ∨ s.pc = 0x8000010c) ∧ s.sp = 0x8000fff0

theorem onTrack_pollCounter {s : Cpu} (h : OnTrack s) (status : UInt64) :
    OnTrack (pollCounter status s) := by
  rcases h with ⟨hpc | hpc, hsp⟩ | ⟨hpc | hpc, hsp⟩ <;>
    simp [pollCounter, OnTrack, hpc, hsp]

theorem room_onTrack {s : Cpu} (h : OnTrack s) : Room counterWords.Owned (irqStack 16) s.sp := by
  have hroom (sp : UInt64) (hsp : sp = 0x80010000 ∨ sp = 0x8000fff0) :
      Room counterWords.Owned (irqStack 16) sp := by
    constructor
    · rcases hsp with rfl | rfl <;> decide
    · intro a ha
      rw [Below]
      rcases ha with rfl | rfl <;> rcases hsp with rfl | rfl <;> decide
  rcases h with ⟨-, hsp⟩ | ⟨-, hsp⟩
  · exact hroom _ (.inl hsp)
  · exact hroom _ (.inr hsp)

theorem agree_pollCounter {s t : Cpu} (h : OnTrack s) (hagree : Agree pollLive s t)
    (status : UInt64) : Agree pollLive (pollCounter status s) (pollCounter status t) := by
  have hregs (r : Nat) {v v' : UInt64} (hv : v' = v) (q : Nat) (hq : q ≤ 30) :
      Function.update t.regs r v' q = Function.update s.regs r v q := by
    by_cases hqr : q = r
    · rw [hqr, Function.update_self, Function.update_self, hv]
    · rw [Function.update_of_ne hqr, Function.update_of_ne hqr, hagree.regs q hq]
  have hcounter (a : UInt64) (ha : counterWords.Owned a) : t.mem a = s.mem a :=
    hagree.memory a (.inl ha)
  rcases h with ⟨hpc | hpc, hsp⟩ | ⟨hpc | hpc, hsp⟩
  · rw [pollCounter_load status hpc, pollCounter_load status (hagree.pc.trans hpc)]
    refine ⟨hregs 1 (hcounter _ (.inl rfl)), hagree.sp, rfl, hagree.pstate, ?_⟩
    intro a ha
    exact hcounter a (ha.resolve_right (by simp))
  · rw [pollCounter_push status hpc, pollCounter_push status (hagree.pc.trans hpc), hagree.sp,
      hagree.regs 1 (by omega)]
    refine ⟨hagree.regs, rfl, rfl, hagree.pstate, ?_⟩
    intro a ha
    show Function.update t.mem _ _ a = Function.update s.mem _ _ a
    by_cases hslot : a = s.sp - 16
    · rw [hslot, Function.update_self, Function.update_self]
    · rw [Function.update_of_ne hslot, Function.update_of_ne hslot]
      exact hcounter a (ha.resolve_right fun h => hslot h.2)
  · rw [pollCounter_device status hpc, pollCounter_device status (hagree.pc.trans hpc)]
    refine ⟨hregs 1 rfl, hagree.sp, rfl, hagree.pstate, ?_⟩
    intro a ha
    rcases ha with ha | ⟨-, ha⟩
    · exact hcounter a ha
    · exact hagree.memory a (.inr ⟨.inl hpc, ha⟩)
  · have hslot : t.mem s.sp = s.mem s.sp := hagree.memory s.sp (.inr ⟨.inr hpc, rfl⟩)
    rw [pollCounter_pop status hpc, pollCounter_pop status (hagree.pc.trans hpc), hagree.sp]
    refine ⟨hregs 2 hslot, rfl, rfl, hagree.pstate, ?_⟩
    intro a ha
    exact hcounter a (ha.resolve_right (by simp))

theorem read_pollCounter {s : Cpu} (h : OnTrack s) (status : UInt64) :
    counterWords.read (pollCounter status s) = counterWords.read s := by
  rcases h with ⟨hpc | hpc, hsp⟩ | ⟨hpc | hpc, -⟩
  · rw [pollCounter_load status hpc]
    rfl
  · rw [pollCounter_push status hpc]
    apply counterWords.read_of_mem
    intro a ha
    have hne : a ≠ s.sp - 16 := by
      rw [hsp]
      rcases ha with rfl | rfl <;> decide
    exact Function.update_of_ne hne ..
  · rw [pollCounter_device status hpc]
    rfl
  · rw [pollCounter_pop status hpc]
    rfl

theorem mainline_pollCounter {s : Cpu} (h : OnTrack s) :
    counterWords.Mainline (irqStack 16) pollLive pollCounter s := by
  have hroom := room_onTrack h
  refine ⟨hroom, ?_, fun _ => .inl, fun _ _ ha => ha,
    fun status _ hagree => agree_pollCounter h hagree status, read_pollCounter h⟩
  intro a ha
  rcases ha with ha | ⟨-, rfl⟩
  · exact hroom.apart a ha
  · exact fun hbelow => Nat.lt_irrefl _ hbelow.2

def polling : Cpu where
  regs := fun _ => 0
  sp := 0x80010000
  pc := 0x80000100
  pstate := 0
  elr := 0
  spsr := 0
  mem := fun _ => 0

/-- A timer interrupt before the load and one behind the push, then a spurious one: the loop gets
one interrupt out of the counter, which has two in the end. -/
theorem interrupts_counting :
    let t := interrupted pollCounter (takeIrq labIrqSaving 0x80000800 0x3c5 0x80000a00)
      [.inr 27, .inl 0, .inl 0, .inr 27, .inl 5, .inr 1023, .inl 0] polling
    t.regs 1 = 5 ∧ t.regs 2 = 1 ∧ t.sp = 0x80010000 ∧ (counterWords.read t).timerIrqs = 2 ∧
      (counterWords.read t).spuriousIrqs = 1 := by
  have htrack (s : Cpu) (h : Reached pollCounter counterWords.countIrq polling s) : OnTrack s := by
    induction h with
    | start => exact .inl ⟨.inl rfl, rfl⟩
    | step _ status ih => exact onTrack_pollCounter ih status
    | handle _ iar ih => exact ih
  obtain ⟨hagree, htimer, hspurious⟩ := interrupts_transparent compiled_labIrqSaving
    (fun s hs => mainline_pollCounter (htrack s hs))
    [.inr 27, .inl 0, .inl 0, .inr 27, .inl 5, .inr 1023, .inl 0]
  refine ⟨hagree.regs 1 (by omega), ?_, hagree.sp, htimer, hspurious⟩
  exact hagree.regs 2 (by omega)

end Harness
end TensorSel4
