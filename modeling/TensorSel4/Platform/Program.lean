/-
Programs that touch devices, and the platforms they run on.

A program is what it does next, and what it does after each answer.  A loop that
waits for a device is one command, since how often it loads is up to the device;
`run` lets each such loop load at most `polls` times.  A platform answers an access
or a call, or it does not, and then the program gets no further.

`Simulates.run` is the rule for two platforms: where every command keeps a relation
between their states and is answered alike, so does every program.
-/
import Mathlib.Logic.Basic

namespace TensorSel4

inductive Program (Addr Word Arg Var : Type)
  | done
  /-- The program goes on, and no further than this is looked at. -/
  | more
  | load (a : Addr) (k : Word → Program Addr Word Arg Var)
  | store (a : Addr) (w : Word) (k : Program Addr Word Arg Var)
  /-- `while (!ready(*a)) {}` -/
  | await (a : Addr) (ready : Word → Bool) (k : Program Addr Word Arg Var)
  | call (x : Arg) (k : Arg → Program Addr Word Arg Var)
  /-- A value that is read without leaving the program's own processor. -/
  | value (v : Var) (k : Arg → Program Addr Word Arg Var)

structure Platform (σ Addr Word Arg Var : Type) where
  load : σ → Addr → σ × Option Word
  store : σ → Addr → Word → σ × Bool
  call : σ → Arg → σ × Option Arg
  value : σ → Var → Arg

namespace Platform

inductive Ending
  | done
  | more
  | halted
  | waiting
  deriving DecidableEq

variable {σ τ Addr Word Arg Var : Type}

/-- The loop, and why the program gets no further than it, if it does not. -/
def await (P : Platform σ Addr Word Arg Var) (a : Addr) (ready : Word → Bool) :
    Nat → σ → σ × Option Ending
  | 0, s => (s, some .waiting)
  | polls + 1, s =>
    match P.load s a with
    | (s, none) => (s, some .halted)
    | (s, some w) => if ready w then (s, none) else P.await a ready polls s

def run (P : Platform σ Addr Word Arg Var) (polls : Nat) :
    Program Addr Word Arg Var → σ → σ × Ending
  | .done, s => (s, .done)
  | .more, s => (s, .more)
  | .load a k, s =>
    match P.load s a with
    | (s, none) => (s, .halted)
    | (s, some w) => P.run polls (k w) s
  | .store a w k, s =>
    match P.store s a w with
    | (s, false) => (s, .halted)
    | (s, true) => P.run polls k s
  | .await a ready k, s =>
    match P.await a ready polls s with
    | (s, some ending) => (s, ending)
    | (s, none) => P.run polls k s
  | .call x k, s =>
    match P.call s x with
    | (s, none) => (s, .halted)
    | (s, some y) => P.run polls (k y) s
  | .value v k, s => P.run polls (k (P.value s v)) s

structure Simulates (P : Platform σ Addr Word Arg Var) (Q : Platform τ Addr Word Arg Var)
    (R : σ → τ → Prop) : Prop where
  load : ∀ {s t}, R s t → ∀ a, R (P.load s a).1 (Q.load t a).1 ∧ (P.load s a).2 = (Q.load t a).2
  store : ∀ {s t}, R s t → ∀ a w,
    R (P.store s a w).1 (Q.store t a w).1 ∧ (P.store s a w).2 = (Q.store t a w).2
  call : ∀ {s t}, R s t → ∀ x, R (P.call s x).1 (Q.call t x).1 ∧ (P.call s x).2 = (Q.call t x).2
  value : ∀ {s t}, R s t → ∀ v, P.value s v = Q.value t v

namespace Simulates

variable {P : Platform σ Addr Word Arg Var} {Q : Platform τ Addr Word Arg Var}
  {R : σ → τ → Prop} {s : σ} {t : τ}

theorem await (h : Simulates P Q R) (hR : R s t) (a : Addr) (ready : Word → Bool) (polls : Nat) :
    R (P.await a ready polls s).1 (Q.await a ready polls t).1 ∧
      (P.await a ready polls s).2 = (Q.await a ready polls t).2 := by
  induction polls generalizing s t with
  | zero => exact ⟨hR, rfl⟩
  | succ polls ih =>
    obtain ⟨hload, hanswer⟩ := h.load hR a
    simp only [Platform.await]
    rcases hs : P.load s a with ⟨s', w⟩
    rcases ht : Q.load t a with ⟨t', w'⟩
    rw [hs, ht] at hload hanswer
    obtain rfl : w = w' := hanswer
    cases w with
    | none => exact ⟨hload, rfl⟩
    | some w =>
      dsimp only
      split
      · exact ⟨hload, rfl⟩
      · exact ih hload

theorem run (h : Simulates P Q R) (polls : Nat) (p : Program Addr Word Arg Var) (hR : R s t) :
    R (P.run polls p s).1 (Q.run polls p t).1 ∧ (P.run polls p s).2 = (Q.run polls p t).2 := by
  induction p generalizing s t with
  | done => exact ⟨hR, rfl⟩
  | more => exact ⟨hR, rfl⟩
  | load a k ih =>
    obtain ⟨hload, hanswer⟩ := h.load hR a
    simp only [Platform.run]
    rcases hs : P.load s a with ⟨s', w⟩
    rcases ht : Q.load t a with ⟨t', w'⟩
    rw [hs, ht] at hload hanswer
    obtain rfl : w = w' := hanswer
    cases w with
    | none => exact ⟨hload, rfl⟩
    | some w => exact ih w hload
  | store a w k ih =>
    obtain ⟨hstore, hanswer⟩ := h.store hR a w
    simp only [Platform.run]
    rcases hs : P.store s a w with ⟨s', r⟩
    rcases ht : Q.store t a w with ⟨t', r'⟩
    rw [hs, ht] at hstore hanswer
    obtain rfl : r = r' := hanswer
    cases r with
    | false => exact ⟨hstore, rfl⟩
    | true => exact ih hstore
  | await a ready k ih =>
    obtain ⟨hwait, hanswer⟩ := h.await hR a ready polls
    simp only [Platform.run]
    rcases hs : P.await a ready polls s with ⟨s', r⟩
    rcases ht : Q.await a ready polls t with ⟨t', r'⟩
    rw [hs, ht] at hwait hanswer
    obtain rfl : r = r' := hanswer
    cases r with
    | some ending => exact ⟨hwait, rfl⟩
    | none => exact ih hwait
  | call x k ih =>
    obtain ⟨hcall, hanswer⟩ := h.call hR x
    simp only [Platform.run]
    rcases hs : P.call s x with ⟨s', r⟩
    rcases ht : Q.call t x with ⟨t', r'⟩
    rw [hs, ht] at hcall hanswer
    obtain rfl : r = r' := hanswer
    cases r with
    | none => exact ⟨hcall, rfl⟩
    | some y => exact ih y hcall
  | value v k ih =>
    simp only [Platform.run]
    rw [h.value hR v]
    exact ih (Q.value t v) hR

end Simulates
end Platform
end TensorSel4
