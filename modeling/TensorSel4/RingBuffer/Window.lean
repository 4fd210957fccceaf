/-
Ring buffers indexed by free-running counters.

A ring of `cap` slots keeps item `k` in slot `k % cap`, and its head and tail
counters only grow.  `Window` says that the items from the tail counter on are
still in their slots.  Storing the next item keeps the window exactly because
fewer than `cap` items are in it, which is what the producers' full-ring test
on machine-word counters establishes.
-/
import Mathlib.Data.Int.ModEq
import Mathlib.Data.UInt
import Mathlib.Logic.Function.Basic

namespace TensorSel4
namespace RingBuffer

variable {α : Type*}

/-- Two counters less than a ring apart name different slots. -/
theorem slot_ne {cap k n : Nat} (hk : k < n) (hn : n < k + cap) : k % cap ≠ n % cap := by
  intro he
  have hle : cap ≤ n - k :=
    Nat.le_of_dvd (Nat.sub_pos_of_lt hk) ((Nat.modEq_iff_dvd' (Nat.le_of_lt hk)).mp he)
  omega

/-- The items from `tail` on are in their slots. -/
def Window (cap : Nat) (slots : Nat → α) (items : List α) (tail : Nat) : Prop :=
  ∀ k, tail ≤ k → k < items.length → items[k]? = some (slots (k % cap))

/-- One item more of the same list. -/
theorem prefix_next {xs ys : List α} {x : α} (h : xs <+: ys) (hx : ys[xs.length]? = some x) :
    xs ++ [x] <+: ys := by
  obtain ⟨rest, rfl⟩ := h
  rw [List.getElem?_append_right (Nat.le_refl _), Nat.sub_self] at hx
  cases rest with
  | nil => simp at hx
  | cons b rest =>
    obtain rfl := Option.some.inj hx
    exact ⟨rest, List.append_assoc xs [b] rest⟩

namespace Window

variable {cap tail tail' : Nat} {slots : Nat → α} {items : List α}

theorem nil : Window cap slots [] tail := fun _ _ hk => absurd hk (Nat.not_lt_zero _)

theorem advance (h : Window cap slots items tail) (ht : tail ≤ tail') :
    Window cap slots items tail' := fun k hk => h k (Nat.le_trans ht hk)

/-- Writing the slot of the next item leaves every item of the window alone. -/
theorem store (h : Window cap slots items tail) (hroom : items.length < tail + cap) (x : α) :
    Window cap (Function.update slots (items.length % cap) x) items tail := by
  intro k hk hlt
  rw [Function.update_of_ne (slot_ne hlt (by omega)), h k hk hlt]

/-- Publishing the item already written to its slot. -/
theorem push (h : Window cap slots items tail) :
    Window cap slots (items ++ [slots (items.length % cap)]) tail := by
  intro k hk hlt
  rw [List.length_append, List.length_singleton] at hlt
  rcases Nat.lt_or_eq_of_le (Nat.le_of_lt_succ hlt) with hk' | rfl
  · rw [List.getElem?_append_left hk', h k hk hk']
  · simp

end Window

/-! ## Machine-word counters -/

theorem toNat_succ {n : UInt64} (h : n.toNat + 1 < 2 ^ 64) : (n + 1).toNat = n.toNat + 1 := by
  rw [UInt64.toNat_add, UInt64.toNat_one, Nat.mod_eq_of_lt h]

theorem toNat_sub {head tail : UInt64} (h : tail.toNat ≤ head.toNat) :
    (head - tail).toNat = head.toNat - tail.toNat :=
  UInt64.toNat_sub_of_le head tail (UInt64.le_iff_toNat_le.mpr h)

theorem ofNat_succ (n : Nat) : UInt64.ofNat n + 1 = UInt64.ofNat (n + 1) := by
  rw [UInt64.ofNat_add]
  rfl

end RingBuffer
end TensorSel4
