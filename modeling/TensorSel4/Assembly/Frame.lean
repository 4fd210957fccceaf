/-
Straight-line AArch64 code that keeps registers in a frame across a call.

Only what such code does is here: it moves the stack pointer, stores and loads
registers at offsets from it, calls, and returns from an exception.  Memory is by
64-bit words, and the program counter stands still within the code.  A store or a
load of a pair is two slots, so the code is `save`, the call and `restore`, and
what a register holds at the end is a fact about its slot.

A handler made of such code takes the stack below the code that it interrupts, its
frame and what its call uses, and leaves everything else but the words it owns.
Code that depends on neither runs as if only those words were changed in between.
-/
import Mathlib.Data.UInt

namespace TensorSel4
namespace Assembly

structure Cpu where
  /-- `x0` to `x30`. -/
  regs : Nat → UInt64
  sp : UInt64
  pc : UInt64
  pstate : UInt64
  elr : UInt64
  spsr : UInt64
  mem : UInt64 → UInt64

inductive Instr where
  | subSp (n : UInt64)
  | addSp (n : UInt64)
  | stp (a b : Nat) (off : UInt64)
  | str (a : Nat) (off : UInt64)
  | ldp (a b : Nat) (off : UInt64)
  | ldr (a : Nat) (off : UInt64)
  | bl (link : UInt64)
  | eret

/-- A register and the offset of its place in the frame. -/
abbrev Slot := Nat × UInt64

def put (s : Cpu) (p : Slot) : Cpu :=
  { s with mem := Function.update s.mem (s.sp + p.2) (s.regs p.1) }

def get (s : Cpu) (p : Slot) : Cpu :=
  { s with regs := Function.update s.regs p.1 (s.mem (s.sp + p.2)) }

def save (slots : List Slot) (s : Cpu) : Cpu := slots.foldl put s

def restore (slots : List Slot) (s : Cpu) : Cpu := slots.foldl get s

def exec (call : Cpu → Cpu) (s : Cpu) : Instr → Cpu
  | .subSp n => { s with sp := s.sp - n }
  | .addSp n => { s with sp := s.sp + n }
  | .stp a b off => put (put s (a, off)) (b, off + 8)
  | .str a off => put s (a, off)
  | .ldp a b off => get (get s (a, off)) (b, off + 8)
  | .ldr a off => get s (a, off)
  | .bl link => call { s with regs := Function.update s.regs 30 link }
  | .eret => { s with pc := s.elr, pstate := s.spsr }

def run (call : Cpu → Cpu) (code : List Instr) (s : Cpu) : Cpu := code.foldl (exec call) s

/-! ## Frames -/

section

variable {slots : List Slot} {s : Cpu}

@[simp] theorem save_nil (s : Cpu) : save [] s = s := rfl

@[simp] theorem save_cons (p : Slot) (slots : List Slot) (s : Cpu) :
    save (p :: slots) s = save slots (put s p) := rfl

@[simp] theorem restore_nil (s : Cpu) : restore [] s = s := rfl

@[simp] theorem restore_cons (p : Slot) (slots : List Slot) (s : Cpu) :
    restore (p :: slots) s = restore slots (get s p) := rfl

/-- Saving changes nothing but memory. -/
theorem save_eq (slots : List Slot) (s : Cpu) :
    save slots s = { s with mem := (save slots s).mem } := by
  induction slots generalizing s with
  | nil => rfl
  | cons p slots ih =>
    rw [save_cons, ih]
    rfl

/-- Restoring changes nothing but registers. -/
theorem restore_eq (slots : List Slot) (s : Cpu) :
    restore slots s = { s with regs := (restore slots s).regs } := by
  induction slots generalizing s with
  | nil => rfl
  | cons p slots ih =>
    rw [restore_cons, ih]
    rfl

theorem save_mem_of_notMem {a : UInt64} (ha : ∀ p ∈ slots, a ≠ s.sp + p.2) :
    (save slots s).mem a = s.mem a := by
  induction slots generalizing s with
  | nil => rfl
  | cons p slots ih =>
    have hne := ha p List.mem_cons_self
    rw [save_cons, ih (s := put s p) (fun q hq => ha q (List.mem_cons_of_mem p hq))]
    exact Function.update_of_ne hne ..

theorem save_mem (hoffs : (slots.map Prod.snd).Nodup) {p : Slot} (hp : p ∈ slots) :
    (save slots s).mem (s.sp + p.2) = s.regs p.1 := by
  induction slots generalizing s with
  | nil => cases hp
  | cons q slots ih =>
    obtain ⟨hq, hrest⟩ := List.nodup_cons.mp hoffs
    rw [save_cons]
    rcases List.mem_cons.mp hp with rfl | hp
    · rw [save_mem_of_notMem]
      · exact Function.update_self ..
      · intro q' hq' heq
        apply hq
        have hoff : p.2 = q'.2 := add_left_cancel heq
        rw [hoff]
        exact List.mem_map_of_mem hq'
    · exact ih hrest hp

theorem restore_regs_of_notMem {r : Nat} (hr : r ∉ slots.map Prod.fst) :
    (restore slots s).regs r = s.regs r := by
  induction slots generalizing s with
  | nil => rfl
  | cons p slots ih =>
    obtain ⟨hp, hrest⟩ := not_or.mp (fun h => hr (List.mem_cons.mpr h))
    rw [restore_cons, ih hrest]
    exact Function.update_of_ne hp ..

theorem restore_regs (hregs : (slots.map Prod.fst).Nodup) {p : Slot} (hp : p ∈ slots) :
    (restore slots s).regs p.1 = s.mem (s.sp + p.2) := by
  induction slots generalizing s with
  | nil => cases hp
  | cons q slots ih =>
    obtain ⟨hq, hrest⟩ := List.nodup_cons.mp hregs
    rw [restore_cons]
    rcases List.mem_cons.mp hp with rfl | hp
    · rw [restore_regs_of_notMem hq]
      exact Function.update_self ..
    · exact ih hrest hp

end

/-! ## Calls -/

/-- The `n` bytes below the stack pointer. -/
def Below (sp : UInt64) (n : Nat) (a : UInt64) : Prop :=
  sp.toNat ≤ a.toNat + n ∧ a.toNat < sp.toNat

/-- Room for `n` bytes of stack, with none of the words of `owned` in it. -/
structure Room (owned : UInt64 → Prop) (n : Nat) (sp : UInt64) : Prop where
  fits : n ≤ sp.toNat
  apart : ∀ a, owned a → ¬Below sp n a

/-- What the procedure call standard says of a function that uses `depth` bytes of stack and
writes to the words of `owned`, wherever it has the room; exceptions stay masked while it
runs. -/
structure Callee (owned : UInt64 → Prop) (depth : Nat) (call : Cpu → Cpu) : Prop where
  sp : ∀ s, Room owned depth s.sp → (call s).sp = s.sp
  saved : ∀ s, Room owned depth s.sp → ∀ r, 19 ≤ r → r ≤ 29 → (call s).regs r = s.regs r
  elr : ∀ s, Room owned depth s.sp → (call s).elr = s.elr
  spsr : ∀ s, Room owned depth s.sp → (call s).spsr = s.spsr
  memory : ∀ s, Room owned depth s.sp → ∀ a, ¬Below s.sp depth a → ¬owned a →
    (call s).mem a = s.mem a

/-- `t` is `s` again for code that looks neither at the `n` bytes below its stack pointer nor at
the words of `owned`. -/
structure Resumed (owned : UInt64 → Prop) (n : Nat) (s t : Cpu) : Prop where
  regs : ∀ r, r ≤ 30 → t.regs r = s.regs r
  sp : t.sp = s.sp
  pc : t.pc = s.pc
  pstate : t.pstate = s.pstate
  memory : ∀ a, ¬Below s.sp n a → ¬owned a → t.mem a = s.mem a

/-- An exception is taken: the state to return to is kept in the exception registers. -/
def takeException (s : Cpu) (vector pstate : UInt64) : Cpu :=
  { s with elr := s.pc, spsr := s.pstate, pc := vector, pstate := pstate }

def handlerCode (size : UInt64) (stores loads : List Instr) (link : UInt64) : List Instr :=
  .subSp size :: (stores ++ .bl link :: (loads ++ [.addSp size, .eret]))

theorem run_append (call : Cpu → Cpu) (code code' : List Instr) (s : Cpu) :
    run call (code ++ code') s = run call code' (run call code s) :=
  List.foldl_append

theorem run_cons (call : Cpu → Cpu) (i : Instr) (code : List Instr) (s : Cpu) :
    run call (i :: code) s = run call code (exec call s i) := rfl

section

variable {owned : UInt64 → Prop} {sp size : UInt64} {depth : Nat}

theorem sub_toNat (hroom : Room owned (size.toNat + depth) sp) :
    (sp - size).toNat = sp.toNat - size.toNat := by
  have hfits := hroom.fits
  apply UInt64.toNat_sub_of_le
  rw [UInt64.le_iff_toNat_le]
  omega

/-- A place in the frame is on the handler's stack, and not on that of its call. -/
theorem frame_address (hroom : Room owned (size.toNat + depth) sp) {off : UInt64}
    (hoff : off < size) :
    Below sp (size.toNat + depth) (sp - size + off) ∧
      ¬Below (sp - size) depth (sp - size + off) := by
  have hfits := hroom.fits
  have hsub := sub_toNat hroom
  have hsp := sp.toNat_lt
  rw [UInt64.lt_iff_toNat_lt] at hoff
  have hadd : (sp - size + off).toNat = sp.toNat - size.toNat + off.toNat := by
    rw [UInt64.toNat_add, hsub]
    omega
  rw [Below, Below, hadd, hsub]
  omega

/-- The call's stack is below the frame. -/
theorem below_call (hroom : Room owned (size.toNat + depth) sp) {a : UInt64}
    (h : Below (sp - size) depth a) : Below sp (size.toNat + depth) a := by
  have hfits := hroom.fits
  rw [Below, sub_toNat hroom] at h
  rw [Below]
  omega

theorem Room.call (hroom : Room owned (size.toNat + depth) sp) : Room owned depth (sp - size) := by
  have hfits := hroom.fits
  refine ⟨?_, fun a ha hbelow => hroom.apart a ha (below_call hroom hbelow)⟩
  rw [sub_toNat hroom]
  omega

end

section

variable {owned : UInt64 → Prop} {call : Cpu → Cpu} {slots : List Slot} {size link : UInt64}
  {depth : Nat} {stores loads : List Instr}

/-- A handler whose frame has every register that a call may change returns to the state that
it interrupted. -/
theorem resumed_of_frame (hcall : Callee owned depth call)
    (hstores : ∀ s, run call stores s = save slots s)
    (hloads : ∀ s, run call loads s = restore slots s)
    (hregs : (slots.map Prod.fst).Nodup) (hoffs : (slots.map Prod.snd).Nodup)
    (hframe : ∀ p ∈ slots, p.2 < size)
    (hall : ∀ r ≤ 30, r ∈ slots.map Prod.fst ∨ 19 ≤ r ∧ r ≤ 29)
    {s : Cpu} (hroom : Room owned (size.toNat + depth) s.sp) (vector pstate : UInt64) :
    Resumed owned (size.toNat + depth) s
      (run call (handlerCode size stores loads link) (takeException s vector pstate)) := by
  let s₁ : Cpu := { takeException s vector pstate with sp := s.sp - size }
  let s₂ := save slots s₁
  let s₃ : Cpu := { s₂ with regs := Function.update s₂.regs 30 link }
  let s₄ := call s₃
  let s₅ := restore slots s₄
  have hrun : run call (handlerCode size stores loads link) (takeException s vector pstate) =
      { s₅ with sp := s₅.sp + size, pc := s₅.elr, pstate := s₅.spsr } := by
    rw [handlerCode, run_cons, run_append, run_cons, run_append, hstores, hloads]
    rfl
  have hs₂ : s₂ = { s₁ with mem := s₂.mem } := save_eq slots s₁
  have hs₅ : s₅ = { s₄ with regs := s₅.regs } := restore_eq slots s₄
  have hsp₂ : s₂.sp = s.sp - size := by rw [hs₂]
  have hroom₃ : Room owned depth s₃.sp := by
    show Room owned depth s₂.sp
    rw [hsp₂]
    exact hroom.call
  have hsp₄ : s₄.sp = s.sp - size := (hcall.sp s₃ hroom₃).trans hsp₂
  have hsp₅ : s₅.sp = s.sp - size := by rw [hs₅, hsp₄]
  have hkept : ∀ a, ¬Below (s.sp - size) depth a → ¬owned a → s₄.mem a = s₂.mem a := by
    intro a ha hout
    exact hcall.memory s₃ hroom₃ a (hsp₂ ▸ ha) hout
  rw [hrun]
  constructor
  · intro r hr
    show s₅.regs r = s.regs r
    by_cases hin : r ∈ slots.map Prod.fst
    · obtain ⟨p, hp, rfl⟩ := List.mem_map.mp hin
      obtain ⟨hin, hout⟩ := frame_address hroom (hframe p hp)
      have hfree : ¬owned (s.sp - size + p.2) := fun h => hroom.apart _ h hin
      have hslot : s₅.regs p.1 = s₄.mem (s₄.sp + p.2) := restore_regs hregs hp
      rw [hslot, hsp₄, hkept _ hout hfree]
      exact save_mem hoffs hp
    · obtain ⟨h19, h29⟩ := (hall r hr).resolve_left hin
      have hrest : s₅.regs r = s₄.regs r := restore_regs_of_notMem hin
      have hne : r ≠ 30 := by omega
      rw [hrest]
      show (call s₃).regs r = _
      rw [hcall.saved s₃ hroom₃ r h19 h29]
      show Function.update s₂.regs 30 link r = _
      rw [Function.update_of_ne hne, hs₂]
      rfl
  · show s₅.sp + size = s.sp
    rw [hsp₅, sub_add_cancel]
  · show s₅.elr = s.pc
    rw [hs₅]
    show (call s₃).elr = _
    rw [hcall.elr s₃ hroom₃]
    show s₂.elr = _
    rw [hs₂]
    rfl
  · show s₅.spsr = s.pstate
    rw [hs₅]
    show (call s₃).spsr = _
    rw [hcall.spsr s₃ hroom₃]
    show s₂.spsr = _
    rw [hs₂]
    rfl
  · intro a ha hout
    show s₅.mem a = s.mem a
    rw [hs₅]
    show s₄.mem a = _
    rw [hkept a (fun h => ha (below_call hroom h)) hout]
    apply save_mem_of_notMem
    intro p hp heq
    apply ha
    rw [heq]
    exact (frame_address hroom (hframe p hp)).1

/-- The call sees the memory of the interrupted code outside the handler's stack, and what it
leaves in memory is what the handler leaves. -/
theorem handler_mem (link : UInt64) (hstores : ∀ s, run call stores s = save slots s)
    (hloads : ∀ s, run call loads s = restore slots s) (hframe : ∀ p ∈ slots, p.2 < size)
    {s : Cpu} (hroom : Room owned (size.toNat + depth) s.sp) (vector pstate : UInt64) :
    ∃ u, (run call (handlerCode size stores loads link) (takeException s vector pstate)).mem =
        (call u).mem ∧
      Room owned depth u.sp ∧
      ∀ a, ¬Below s.sp (size.toNat + depth) a → u.mem a = s.mem a := by
  let s₁ : Cpu := { takeException s vector pstate with sp := s.sp - size }
  let s₂ := save slots s₁
  let s₃ : Cpu := { s₂ with regs := Function.update s₂.regs 30 link }
  refine ⟨s₃, ?_, ?_, ?_⟩
  · rw [handlerCode, run_cons, run_append, run_cons, run_append, hstores, hloads]
    show (restore slots (call s₃)).mem = _
    rw [restore_eq]
  · have hs₂ : s₂ = { s₁ with mem := s₂.mem } := save_eq slots s₁
    show Room owned depth s₂.sp
    rw [hs₂]
    exact hroom.call
  · intro a ha
    apply save_mem_of_notMem
    intro p hp heq
    apply ha
    rw [heq]
    exact (frame_address hroom (hframe p hp)).1

end

/-! ## Interrupted runs -/

/-- `t` is `s` for code that depends on the registers and on the words that are `live`. -/
structure Agree (live : Cpu → UInt64 → Prop) (s t : Cpu) : Prop where
  regs : ∀ r, r ≤ 30 → t.regs r = s.regs r
  sp : t.sp = s.sp
  pc : t.pc = s.pc
  pstate : t.pstate = s.pstate
  memory : ∀ a, live s a → t.mem a = s.mem a

theorem Agree.refl (live : Cpu → UInt64 → Prop) (s : Cpu) : Agree live s s :=
  ⟨fun _ _ => rfl, rfl, rfl, rfl, fun _ _ => rfl⟩

section

variable {ι α : Type}

/-- The code's own steps, each with what it reads from outside, and handlers between them. -/
def interrupted (step : ι → Cpu → Cpu) (handle : α → Cpu → Cpu) : List (ι ⊕ α) → Cpu → Cpu
  | [], s => s
  | .inl i :: rest, s => interrupted step handle rest (step i s)
  | .inr x :: rest, s => interrupted step handle rest (handle x s)

/-- `s` is where some run from `s₀` gets to. -/
inductive Reached (step : ι → Cpu → Cpu) (handle : α → Cpu → Cpu) (s₀ : Cpu) : Cpu → Prop
  | start : Reached step handle s₀ s₀
  | step {s : Cpu} (h : Reached step handle s₀ s) (i : ι) : Reached step handle s₀ (step i s)
  | handle {s : Cpu} (h : Reached step handle s₀ s) (x : α) : Reached step handle s₀ (handle x s)

variable {live : Cpu → UInt64 → Prop} {step : ι → Cpu → Cpu} {handle ideal : α → Cpu → Cpu}
  {s₀ : Cpu}

theorem Reached.interrupted {s : Cpu} (h : Reached step handle s₀ s) (l : List (ι ⊕ α)) :
    Reached step handle s₀ (interrupted step handle l s) := by
  induction l generalizing s with
  | nil => exact h
  | cons x l ih =>
    cases x with
    | inl i => exact ih (h.step i)
    | inr x => exact ih (h.handle x)

/-- Handlers that do what ideal ones do are as good as those, to code that looks at live words
only; what it depends on has to be live where the ideal run gets to. -/
theorem interrupted_agree
    (hstep : ∀ s, Reached step ideal s₀ s → ∀ i t, Agree live s t →
      Agree live (step i s) (step i t))
    (hhandle : ∀ s, Reached step ideal s₀ s → ∀ x t, Agree live s t →
      Agree live (ideal x s) (handle x t))
    (l : List (ι ⊕ α)) {s t : Cpu} (hs : Reached step ideal s₀ s) (h : Agree live s t) :
    Agree live (interrupted step ideal l s) (interrupted step handle l t) := by
  induction l generalizing s t with
  | nil => exact h
  | cons x l ih =>
    cases x with
    | inl i => exact ih (hs.step i) (hstep s hs i t h)
    | inr x => exact ih (hs.handle x) (hhandle s hs x t h)

end

end Assembly
end TensorSel4
