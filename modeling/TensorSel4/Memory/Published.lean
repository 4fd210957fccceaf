/-
Shared memory that one thread writes and another reads, with release and acquire.

The writes are kept in the order in which the writer made them.  A load may return
what the location held after any number `q` of writes from `seen` on: `seen` is how
many writes the reader knows of, and an acquire load that returns a release store
raises it past that store.  Each value is one of the location's `versions`, so what
a load returns is a version number, and numbers only grow with `q`.
-/
import Mathlib.Data.List.Basic

namespace TensorSel4
namespace Published

/-- What holds of every number of writes so far holds after one more, if it holds then. -/
theorem forall_take_append {α : Type*} {log : List α} {w : α} {P : List α → Prop} (h : ∀ q, P (log.take q))
    (hw : P (log ++ [w])) (q : Nat) : P ((log ++ [w]).take q) := by
  by_cases hq : q ≤ log.length
  · rw [List.take_append_of_le_length hq]
    exact h q
  · rw [List.take_of_length_le (by rw [List.length_append, List.length_singleton]; omega)]
    exact hw

variable {Loc Val : Type*} [DecidableEq Loc]

structure Write (Loc Val : Type*) where
  loc : Loc
  val : Val
  release : Bool

/-- The values stored in `l`, the oldest first. -/
def versions (l : Loc) (log : List (Write Loc Val)) : List Val :=
  (log.filter (fun w => w.loc = l)).map Write.val

def count (l : Loc) (log : List (Write Loc Val)) : Nat := (versions l log).length

/-- What `l` holds after its first `n` versions. -/
def version (init : Loc → Val) (l : Loc) (log : List (Write Loc Val)) : Nat → Val
  | 0 => init l
  | n + 1 => (versions l log).getD n (init l)

/-- What `l` holds after the first `q` writes. -/
def valueAt (init : Loc → Val) (l : Loc) (log : List (Write Loc Val)) (q : Nat) : Val :=
  version init l (log.take q) (count l (log.take q))

def current (init : Loc → Val) (l : Loc) (log : List (Write Loc Val)) : Val :=
  valueAt init l log log.length

/-- The writes up to and with the one that a load of `l` after `q` writes returns, if that is
a release store. -/
def released (l : Loc) (log : List (Write Loc Val)) : Nat → Nat
  | 0 => 0
  | q + 1 =>
    match log[q]? with
    | none => released l log q
    | some w => if w.loc = l then (if w.release then q + 1 else 0) else released l log q

section

variable {l : Loc} {log : List (Write Loc Val)} {w : Write Loc Val} {init : Loc → Val}

@[simp] theorem versions_nil (l : Loc) : versions l ([] : List (Write Loc Val)) = [] := rfl

theorem versions_append (l : Loc) (log log' : List (Write Loc Val)) :
    versions l (log ++ log') = versions l log ++ versions l log' := by
  rw [versions, List.filter_append, List.map_append]
  rfl

theorem versions_append_self (l : Loc) (log : List (Write Loc Val)) (v : Val) (r : Bool) :
    versions l (log ++ [⟨l, v, r⟩]) = versions l log ++ [v] := by
  rw [versions_append]
  simp [versions]

theorem versions_append_of_ne (h : w.loc ≠ l) : versions l (log ++ [w]) = versions l log := by
  rw [versions_append]
  simp [versions, h]

theorem count_append_of_ne (h : w.loc ≠ l) : count l (log ++ [w]) = count l log := by
  rw [count, versions_append_of_ne h, count]

/-- The versions of the first writes are the first versions. -/
theorem versions_take (l : Loc) (log : List (Write Loc Val)) (q : Nat) :
    versions l (log.take q) <+: versions l log :=
  ((List.take_prefix q log).filter _).map _

theorem count_take_le (l : Loc) (log : List (Write Loc Val)) (q : Nat) :
    count l (log.take q) ≤ count l log :=
  (versions_take l log q).length_le

theorem count_take_mono (l : Loc) (log : List (Write Loc Val)) {q q' : Nat} (h : q ≤ q') :
    count l (log.take q) ≤ count l (log.take q') := by
  have hle := count_take_le l (log.take q') q
  rwa [List.take_take, Nat.min_eq_left h] at hle

theorem version_congr {log' : List (Write Loc Val)} (h : versions l log' <+: versions l log)
    {n : Nat} (hn : n ≤ count l log') : version init l log' n = version init l log n := by
  cases n with
  | zero => rfl
  | succ n =>
    obtain ⟨rest, hrest⟩ := h
    rw [version, version, ← hrest, List.getD_eq_getElem?_getD, List.getD_eq_getElem?_getD,
      List.getElem?_append_left hn]

/-- A load returns the version with the number of the versions so far. -/
theorem valueAt_eq (init : Loc → Val) (l : Loc) (log : List (Write Loc Val)) (q : Nat) :
    valueAt init l log q = version init l log (count l (log.take q)) :=
  version_congr (versions_take l log q) (Nat.le_refl _)

theorem current_eq (init : Loc → Val) (l : Loc) (log : List (Write Loc Val)) :
    current init l log = version init l log (count l log) := by
  rw [current, valueAt_eq, List.take_length]

theorem version_append {n : Nat} (hn : n ≤ count l log) (w : Write Loc Val) :
    version init l (log ++ [w]) n = version init l log n := by
  have hprefix : versions l log <+: versions l (log ++ [w]) := by
    rw [versions_append]
    exact List.prefix_append ..
  exact (version_congr hprefix hn).symm

/-- Where every store to `l` is a release store, an acquire load makes the reader see as many
versions as it returns. -/
theorem count_released (hrel : ∀ w ∈ log, w.loc = l → w.release = true) (q : Nat) :
    count l (log.take (released l log q)) = count l (log.take q) := by
  induction q with
  | zero => rfl
  | succ q ih =>
    rw [released]
    cases hw : log[q]? with
    | none =>
      have hlen := List.getElem?_eq_none_iff.mp hw
      rw [ih, List.take_of_length_le hlen, List.take_of_length_le (by omega)]
    | some w =>
      have hmem : w ∈ log := List.mem_of_getElem? hw
      have htake : log.take (q + 1) = log.take q ++ [w] := by
        rw [List.take_add_one, hw]
        rfl
      by_cases hloc : w.loc = l
      · simp only [hloc, if_true, hrel w hmem hloc]
      · simp only [hloc, if_false]
        rw [ih, htake, count_append_of_ne hloc]

theorem released_le (l : Loc) (log : List (Write Loc Val)) (q : Nat) : released l log q ≤ q := by
  induction q with
  | zero => exact Nat.le_refl 0
  | succ q ih =>
    rw [released]
    cases log[q]? with
    | none =>
      dsimp only
      omega
    | some w =>
      dsimp only
      split
      · split <;> omega
      · omega

end

end Published
end TensorSel4
