/-
Loads and stores through the translation tables, with a cache of translations.

The hardware may write to the tables: with `flag` it sets the access flag of a
descriptor that a walk uses, with `dirty` it makes a writable-dirty descriptor
writable on the first store.  Between two instructions it may drop any cached
translation or walk for any address; `Idle` is such a step.  A load or a store
that gives `none` is an exception.
-/
import TensorSel4.Translation.Walk

namespace TensorSel4
namespace Translation

structure Regime where
  table : Nat
  below : Nat
  flag : Bool
  dirty : Bool

structure Entry where
  below : Nat
  slot : Nat
  desc : UInt64
deriving DecidableEq

structure Mmu where
  words : Words
  tlb : Nat → Option Entry

namespace Mmu

def write (s : Mmu) (a : Nat) (v : UInt64) : Mmu := { s with words := Function.update s.words a v }

def keep (s : Mmu) (va : Nat) (e : Entry) : Mmu :=
  { s with tlb := Function.update s.tlb (va / 4096) (some e) }

def invalidate (s : Mmu) (page : Nat) : Mmu :=
  { s with tlb := Function.update s.tlb page none }

/-- A walk whose result is cached. -/
def refill (r : Regime) (va : Nat) (s : Mmu) : Option (Entry × Mmu) :=
  match walk s.words r.below r.table va with
  | .fault _ => none
  | .leaf below slot desc =>
    if desc &&& accessFlag ≠ 0 then some (⟨below, slot, desc⟩, s.keep va ⟨below, slot, desc⟩)
    else if r.flag then
      let e : Entry := ⟨below, slot, desc ||| accessFlag⟩
      some (e, (s.write slot e.desc).keep va e)
    else none

def toRead (r : Regime) (va : Nat) (s : Mmu) : Option (Entry × Mmu) :=
  match s.tlb (va / 4096) with
  | some e => some (e, s)
  | none => refill r va s

/-- The first store to a page that is read-only until dirty: the tables are walked again. -/
def markDirty (r : Regime) (va : Nat) (s : Mmu) : Option (Entry × Mmu) :=
  match refill r va s with
  | none => none
  | some (e, s) =>
    if e.desc &&& readOnlyBit = 0 then some (e, s)
    else if e.desc &&& dirtyModifier = 0 then none
    else
      let e' : Entry := { e with desc := e.desc &&& ~~~readOnlyBit }
      some (e', (s.write e.slot e'.desc).keep va e')

def toWrite (r : Regime) (va : Nat) (s : Mmu) : Option (Entry × Mmu) :=
  match toRead r va s with
  | none => none
  | some (e, s) =>
    if e.desc &&& readOnlyBit = 0 then some (e, s)
    else if e.desc &&& dirtyModifier ≠ 0 ∧ r.dirty then markDirty r va s
    else none

def load (r : Regime) (va : Nat) (s : Mmu) : Option (UInt64 × Mmu) :=
  (toRead r va s).map fun t => (t.2.words (outputAddress t.1.below t.1.desc va), t.2)

def store (r : Regime) (va : Nat) (v : UInt64) (s : Mmu) : Option Mmu :=
  (toWrite r va s).map fun t => t.2.write (outputAddress t.1.below t.1.desc va) v

/-- What the hardware may do between two instructions. -/
inductive Idle where
  | evict (page : Nat)
  | prefetch (va : Nat)

def idle (r : Regime) (s : Mmu) : Idle → Mmu
  | .evict page => s.invalidate page
  | .prefetch va => ((refill r va s).map Prod.snd).getD s

def idles (r : Regime) (s : Mmu) (steps : List Idle) : Mmu := steps.foldl (idle r) s

@[simp] theorem write_words (s : Mmu) (a : Nat) (v : UInt64) :
    (s.write a v).words = Function.update s.words a v := rfl

@[simp] theorem write_tlb (s : Mmu) (a : Nat) (v : UInt64) : (s.write a v).tlb = s.tlb := rfl

@[simp] theorem keep_words (s : Mmu) (va : Nat) (e : Entry) : (s.keep va e).words = s.words := rfl

@[simp] theorem keep_tlb (s : Mmu) (va : Nat) (e : Entry) :
    (s.keep va e).tlb = Function.update s.tlb (va / 4096) (some e) := rfl

@[simp] theorem invalidate_words (s : Mmu) (page : Nat) : (s.invalidate page).words = s.words := rfl

@[simp] theorem invalidate_tlb (s : Mmu) (page : Nat) :
    (s.invalidate page).tlb = Function.update s.tlb page none := rfl

section

variable {r : Regime} {s : Mmu} {va below slot : Nat} {desc : UInt64}

theorem refill_fault (h : walk s.words r.below r.table va = .fault below) :
    refill r va s = none := by
  simp only [refill, h]

/-- A walk to a descriptor whose access flag is set changes no word. -/
theorem refill_set (h : walk s.words r.below r.table va = .leaf below slot desc)
    (haf : desc &&& accessFlag ≠ 0) :
    refill r va s = some (⟨below, slot, desc⟩, s.keep va ⟨below, slot, desc⟩) := by
  simp only [refill, h]
  rw [if_pos haf]

theorem refill_clear (h : walk s.words r.below r.table va = .leaf below slot desc)
    (haf : desc &&& accessFlag = 0) :
    refill r va s =
      if r.flag then
        some (⟨below, slot, desc ||| accessFlag⟩,
          (s.write slot (desc ||| accessFlag)).keep va ⟨below, slot, desc ||| accessFlag⟩)
      else none := by
  simp only [refill, h]
  rw [if_neg (by simp [haf])]

end

end Mmu
end Translation
end TensorSel4
