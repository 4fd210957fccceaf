/-
Memory behind a write-back cache, as the processor and as a device see it.

Every word has its values in the order in which the processor stored them.  The
processor reads the last one and the device the one that has been written back.
The cache may write back any words at any time, which only moves them forward.
A clean says how far, and holds only once a barrier has waited for it.
-/
import Mathlib.Logic.Function.Basic

namespace TensorSel4

structure Cached (Loc Val : Type*) where
  version : Loc → Nat → Val
  last : Loc → Nat
  written : Loc → Nat
  cleaned : Loc → Nat
  written_le : ∀ a, written a ≤ last a
  cleaned_le : ∀ a, cleaned a ≤ last a

namespace Cached

variable {Loc Val : Type*}

/-- What the processor reads. -/
def cpu (c : Cached Loc Val) (a : Loc) : Val := c.version a (c.last a)

/-- What the device reads. -/
def mem (c : Cached Loc Val) (a : Loc) : Val := c.version a (c.written a)

/-- Nothing is in the cache yet. -/
def start (m : Loc → Val) : Cached Loc Val where
  version := fun a _ => m a
  last := fun _ => 0
  written := fun _ => 0
  cleaned := fun _ => 0
  written_le := fun _ => Nat.le_refl 0
  cleaned_le := fun _ => Nat.le_refl 0

theorem le_update [DecidableEq Loc] {f g : Loc → Nat} (h : ∀ a, f a ≤ g a) (a b : Loc) :
    f b ≤ Function.update g a (g a + 1) b := by
  by_cases hb : b = a
  · rw [hb, Function.update_self]
    have hle := h a
    omega
  · rw [Function.update_of_ne hb]
    exact h b

def store [DecidableEq Loc] (c : Cached Loc Val) (a : Loc) (v : Val) : Cached Loc Val where
  version := Function.update c.version a (Function.update (c.version a) (c.last a + 1) v)
  last := Function.update c.last a (c.last a + 1)
  written := c.written
  cleaned := c.cleaned
  written_le := le_update c.written_le a
  cleaned_le := le_update c.cleaned_le a

theorem cleaned_upTo_le (c : Cached Loc Val) (s : Loc → Bool) (a : Loc) :
    (if s a then c.last a else c.cleaned a) ≤ c.last a := by
  split
  · exact Nat.le_refl _
  · exact c.cleaned_le a

def clean (c : Cached Loc Val) (s : Loc → Bool) : Cached Loc Val where
  version := c.version
  last := c.last
  written := c.written
  cleaned := fun a => if s a then c.last a else c.cleaned a
  written_le := c.written_le
  cleaned_le := c.cleaned_upTo_le s

def barrier (c : Cached Loc Val) : Cached Loc Val where
  version := c.version
  last := c.last
  written := fun a => max (c.written a) (c.cleaned a)
  cleaned := c.cleaned
  written_le := fun a => Nat.max_le.mpr ⟨c.written_le a, c.cleaned_le a⟩
  cleaned_le := c.cleaned_le

/-- The cache writes words back on its own. -/
def writeBack (c : Cached Loc Val) (upTo : Loc → Nat) : Cached Loc Val where
  version := c.version
  last := c.last
  written := fun a => max (c.written a) (min (upTo a) (c.last a))
  cleaned := c.cleaned
  written_le := fun a => Nat.max_le.mpr ⟨c.written_le a, Nat.min_le_right _ _⟩
  cleaned_le := c.cleaned_le

section

variable (c : Cached Loc Val) (a b : Loc) (v : Val)

@[simp] theorem cpu_start (m : Loc → Val) : (start m).cpu = m := rfl

@[simp] theorem cpu_store [DecidableEq Loc] : (c.store a v).cpu = Function.update c.cpu a v := by
  funext b
  by_cases hb : b = a
  · simp [hb, cpu, store]
  · simp [hb, cpu, store]

@[simp] theorem cpu_clean (s : Loc → Bool) : (c.clean s).cpu = c.cpu := rfl

@[simp] theorem cpu_barrier : c.barrier.cpu = c.cpu := rfl

@[simp] theorem cpu_writeBack (upTo : Loc → Nat) : (c.writeBack upTo).cpu = c.cpu := rfl

theorem last_store_of_ne [DecidableEq Loc] (h : b ≠ a) : (c.store a v).last b = c.last b :=
  Function.update_of_ne h _ _

end

/-! ## Words that a barrier brings to memory, and words that are there -/

/-- A clean after the word's last store. -/
def Cleaned (c : Cached Loc Val) (a : Loc) : Prop := c.cleaned a = c.last a

def Settled (c : Cached Loc Val) (a : Loc) : Prop := c.written a = c.last a

section

variable {c : Cached Loc Val} {a b : Loc}

theorem Settled.mem_eq (h : c.Settled a) : c.mem a = c.cpu a := congrArg (c.version a) h

theorem cleaned_of_clean {s : Loc → Bool} (h : s a = true) : (c.clean s).Cleaned a := if_pos h

theorem Cleaned.clean (h : c.Cleaned a) (s : Loc → Bool) : (c.clean s).Cleaned a := by
  show (if s a then c.last a else c.cleaned a) = c.last a
  split
  · rfl
  · exact h

theorem Cleaned.store [DecidableEq Loc] (h : c.Cleaned b) (hne : b ≠ a) (v : Val) :
    (c.store a v).Cleaned b := h.trans (c.last_store_of_ne a b v hne).symm

theorem Cleaned.barrier (h : c.Cleaned a) : c.barrier.Cleaned a := h

theorem Cleaned.settled (h : c.Cleaned a) : c.barrier.Settled a := by
  have hle := c.written_le a
  show max (c.written a) (c.cleaned a) = c.last a
  rw [show c.cleaned a = c.last a from h]
  omega

theorem Cleaned.writeBack (h : c.Cleaned a) (upTo : Loc → Nat) : (c.writeBack upTo).Cleaned a := h

theorem Settled.writeBack (h : c.Settled a) (upTo : Loc → Nat) : (c.writeBack upTo).Settled a := by
  show max (c.written a) (min (upTo a) (c.last a)) = c.last a
  rw [show c.written a = c.last a from h]
  omega

end

/-! ## What does not depend on the cache's own doing -/

structure Alike (c c' : Cached Loc Val) : Prop where
  version : c'.version = c.version
  last : c'.last = c.last
  cleaned : c'.cleaned = c.cleaned

section

variable {c c' : Cached Loc Val} {a : Loc}

theorem writeBack_alike (c : Cached Loc Val) (upTo : Loc → Nat) : Alike c (c.writeBack upTo) :=
  ⟨rfl, rfl, rfl⟩

theorem Alike.cpu (h : Alike c c') : c'.cpu = c.cpu := by
  funext a
  simp only [Cached.cpu, h.version, h.last]

theorem Alike.cleaned_of (h : Alike c c') (hc : c.Cleaned a) : c'.Cleaned a := by
  unfold Cleaned at *
  rw [h.cleaned, h.last, hc]

theorem Alike.store [DecidableEq Loc] (h : Alike c c') (a : Loc) (v : Val) :
    Alike (c.store a v) (c'.store a v) := by
  constructor
  · simp only [Cached.store, h.version, h.last]
  · simp only [Cached.store, h.last]
  · exact h.cleaned

theorem Alike.clean (h : Alike c c') (s : Loc → Bool) : Alike (c.clean s) (c'.clean s) := by
  constructor
  · exact h.version
  · exact h.last
  · simp only [Cached.clean, h.last, h.cleaned]

theorem Alike.barrier (h : Alike c c') : Alike c.barrier c'.barrier :=
  ⟨h.version, h.last, h.cleaned⟩

end

end Cached
end TensorSel4
