/-
`memcpy` of the Microkit loader, as `patches/microkit/0008` leaves it.

The loader runs with the MMU off, so a wide access has to be naturally aligned:
`accesses` collects every load and every store, in program order, and no function
reads it.
-/
import TensorSel4.Memory.Words

namespace TensorSel4
namespace Loader

/-- A load or a store of `width` bytes. -/
structure Access where
  addr : UInt64
  width : Nat

structure CopyState where
  mem : Memory
  accesses : List Access := []

namespace CopyState

/-- `*dst++ = *src++` through pointers to `width` bytes. -/
def move (s : CopyState) (dst src : UInt64) (width : Nat) : CopyState where
  mem := s.mem.moveWord dst src width
  accesses := s.accesses ++ [⟨src, width⟩, ⟨dst, width⟩]

end CopyState

def copyWidth (dst src : UInt64) : UInt64 :=
  let misalign := dst ^^^ src
  if misalign &&& 7 = 0 then 8
  else if misalign &&& 3 = 0 then 4
  else 1

/-- `while (n-- > 0)` around one move. -/
def copyLoop (width : Nat) : Nat → UInt64 → UInt64 → CopyState → CopyState
  | 0, _, _, s => s
  | n + 1, dst, src, s =>
    copyLoop width n (dst + UInt64.ofNat width) (src + UInt64.ofNat width) (s.move dst src width)

def copyBytes (dst src sz : UInt64) : CopyState → CopyState := copyLoop 1 sz.toNat dst src

def copyWords64 (dst src n : UInt64) : CopyState → CopyState := copyLoop 8 n.toNat dst src

def copyWords32 (dst src n : UInt64) : CopyState → CopyState := copyLoop 4 n.toNat dst src

/-- The returned pointer, and the memory after the call. -/
def memcpy (dst src sz : UInt64) (mem : Memory) : UInt64 × CopyState :=
  let width := copyWidth dst src
  let head := (width - (dst &&& (width - 1))) &&& (width - 1)
  if width = 1 ∨ sz < head + width then (dst, copyBytes dst src sz { mem })
  else
    let st := copyBytes dst src head { mem }
    let d := dst + head
    let s := src + head
    let sz := sz - head
    let words := sz / width
    let st := if width = 8 then copyWords64 d s words st else copyWords32 d s words st
    let d := d + words * width
    let s := s + words * width
    (dst, copyBytes d s (sz - words * width) st)

/-! ## The loop -/

open Memory

section

variable {m₀ : Memory} {dst src : UInt64} {s : CopyState}

theorem copyLoop_copied {w n o : Nat} (h : Copied m₀ dst src o s.mem)
    (hlt : o + n * w < 2 ^ 64) (hahead : Ahead dst src (o + n * w)) :
    Copied m₀ dst src (o + n * w)
      (copyLoop w n (dst + UInt64.ofNat o) (src + UInt64.ofNat o) s).mem := by
  induction n generalizing o s with
  | zero => simpa [copyLoop] using h
  | succ n ih =>
    have hsum : o + w + n * w = o + (n + 1) * w := by
      rw [Nat.add_mul, Nat.one_mul]
      omega
    have hstep : Copied m₀ dst src (o + w)
        (s.move (dst + UInt64.ofNat o) (src + UInt64.ofNat o) w).mem :=
      h.move (by omega) (hahead.mono (by omega))
    have hrest := ih hstep (by omega) (hsum ▸ hahead)
    rw [hsum] at hrest
    rw [copyLoop, add_offset, add_offset]
    exact hrest

/-- Every access is aligned to its width. -/
def Aligned (s : CopyState) : Prop := ∀ a ∈ s.accesses, a.addr.toNat % a.width = 0

theorem Aligned.move {width : Nat} (h : Aligned s) (hdst : dst.toNat % width = 0)
    (hsrc : src.toNat % width = 0) : Aligned (s.move dst src width) := by
  intro a ha
  rcases List.mem_append.mp ha with ha | ha
  · exact h a ha
  · rcases List.mem_pair.mp ha with rfl | rfl
    · exact hsrc
    · exact hdst

theorem add_width_aligned {a : UInt64} {width : Nat} (hw : width ∣ 2 ^ 64)
    (ha : a.toNat % width = 0) : (a + UInt64.ofNat width).toNat % width = 0 := by
  rw [UInt64.toNat_add, UInt64.toNat_ofNat', Nat.add_mod_mod, Nat.mod_mod_of_dvd _ hw,
    Nat.add_mod_right, ha]

theorem copyLoop_aligned {width n : Nat} (h : Aligned s) (hw : width ∣ 2 ^ 64)
    (hdst : dst.toNat % width = 0) (hsrc : src.toNat % width = 0) :
    Aligned (copyLoop width n dst src s) := by
  induction n generalizing dst src s with
  | zero => exact h
  | succ n ih =>
    exact ih (h.move hdst hsrc) (add_width_aligned hw hdst) (add_width_aligned hw hsrc)

theorem copyBytes_aligned (h : Aligned s) (dst src sz : UInt64) :
    Aligned (copyBytes dst src sz s) :=
  copyLoop_aligned h (Nat.one_dvd _) (Nat.mod_one _) (Nat.mod_one _)

end

/-! ## The width and the head -/

theorem and_seven (a : UInt64) : (a &&& 7).toNat = a.toNat % 8 :=
  Nat.and_two_pow_sub_one_eq_mod a.toNat 3

theorem and_three (a : UInt64) : (a &&& 3).toNat = a.toNat % 4 :=
  Nat.and_two_pow_sub_one_eq_mod a.toNat 2

theorem and_eq_of_xor_and {a b mask : UInt64} (h : (a ^^^ b) &&& mask = 0) :
    a &&& mask = b &&& mask := by
  have hxor : (a &&& mask) ^^^ (b &&& mask) = 0 := by
    rw [← UInt64.toNat_inj] at h ⊢
    rw [UInt64.toNat_and, UInt64.toNat_xor, Nat.and_xor_distrib_right] at h
    rw [UInt64.toNat_xor, UInt64.toNat_and, UInt64.toNat_and]
    exact h
  exact UInt64.xor_eq_zero_iff.mp hxor

/-- The width is one the two addresses agree on. -/
theorem copyWidth_cases (dst src : UInt64) :
    copyWidth dst src = 8 ∧ dst.toNat % 8 = src.toNat % 8 ∨
      copyWidth dst src = 4 ∧ dst.toNat % 4 = src.toNat % 4 ∨ copyWidth dst src = 1 := by
  unfold copyWidth
  dsimp only
  split
  · next h =>
    refine Or.inl ⟨rfl, ?_⟩
    rw [← and_seven, ← and_seven, and_eq_of_xor_and h]
  split
  · next h =>
    refine Or.inr (Or.inl ⟨rfl, ?_⟩)
    rw [← and_three, ← and_three, and_eq_of_xor_and h]
  · exact Or.inr (Or.inr rfl)

/-- `head` for the wide copies: the distance to the next aligned address. -/
def headOf (dst width : UInt64) : UInt64 := (width - (dst &&& (width - 1))) &&& (width - 1)

theorem headOf_toNat {width : UInt64} (hw : width = 8 ∨ width = 4) (dst : UInt64) :
    (headOf dst width).toNat = (width.toNat - dst.toNat % width.toNat) % width.toNat := by
  rcases hw with rfl | rfl
  · have hle : dst &&& 7 ≤ 8 := by
      rw [UInt64.le_iff_toNat_le, and_seven]
      exact Nat.le_of_lt (Nat.mod_lt _ (by omega))
    show ((8 - (dst &&& 7)) &&& 7).toNat = _
    rw [and_seven, UInt64.toNat_sub_of_le _ _ hle, and_seven]
    rfl
  · have hle : dst &&& 3 ≤ 4 := by
      rw [UInt64.le_iff_toNat_le, and_three]
      exact Nat.le_of_lt (Nat.mod_lt _ (by omega))
    show ((4 - (dst &&& 3)) &&& 3).toNat = _
    rw [and_three, UInt64.toNat_sub_of_le _ _ hle, and_three]
    rfl

/-- Behind the head, an address is aligned if it agrees with the destination. -/
theorem headOf_aligned {width : UInt64} (hw : width = 8 ∨ width = 4) {dst a : UInt64}
    (ha : dst.toNat % width.toNat = a.toNat % width.toNat) :
    (a + headOf dst width).toNat % width.toNat = 0 := by
  have hhead := headOf_toNat hw dst
  have hsum : (a + headOf dst width).toNat =
      (a.toNat + (headOf dst width).toNat) % 2 ^ 64 := UInt64.toNat_add a _
  rcases hw with rfl | rfl
  · have hnat : (8 : UInt64).toNat = 8 := rfl
    rw [hnat] at ha hhead ⊢
    omega
  · have hnat : (4 : UInt64).toNat = 4 := rfl
    rw [hnat] at ha hhead ⊢
    omega

/-! ## The copy -/

section

variable {dst src sz : UInt64} {mem : Memory}

/-- The three loops of a wide copy, one behind the other. -/
def wideCopy (width head words : Nat) (dst src : UInt64) (sz : Nat) (mem : Memory) : CopyState :=
  copyLoop 1 (sz - (head + words * width))
    (dst + UInt64.ofNat (head + words * width)) (src + UInt64.ofNat (head + words * width))
    (copyLoop width words (dst + UInt64.ofNat head) (src + UInt64.ofNat head)
      (copyLoop 1 head dst src { mem }))

theorem wideCopy_copied {width head words : Nat} (hsz : head + words * width ≤ sz.toNat)
    (hahead : Ahead dst src sz.toNat) :
    Copied mem dst src sz.toNat (wideCopy width head words dst src sz.toNat mem).mem := by
  have hlt := sz.toNat_lt
  have hhead : Copied mem dst src head (copyLoop 1 head dst src { mem }).mem := by
    have h := copyLoop_copied (s := { mem }) (w := 1) (n := head)
      (Copied.zero mem dst src) (by omega) (hahead.mono (by omega))
    simpa using h
  have hwords := copyLoop_copied hhead (n := words) (w := width) (by omega)
    (hahead.mono (by omega))
  have htail := copyLoop_copied hwords (n := sz.toNat - (head + words * width)) (w := 1)
    (by omega) (hahead.mono (by omega))
  rw [Nat.mul_one, Nat.add_sub_cancel' hsz] at htail
  exact htail

theorem aligned_start (mem : Memory) : Aligned { mem } := fun _ h => absurd h List.not_mem_nil

theorem wideCopy_aligned {width head words : Nat} (hw : width ∣ 2 ^ 64)
    (hdst : (dst + UInt64.ofNat head).toNat % width = 0)
    (hsrc : (src + UInt64.ofNat head).toNat % width = 0) (n : Nat) :
    Aligned (wideCopy width head words dst src n mem) := by
  have hone : 1 ∣ 2 ^ 64 := Nat.one_dvd _
  have hhead : Aligned (copyLoop 1 head dst src { mem }) :=
    copyLoop_aligned (aligned_start mem) hone (Nat.mod_one _) (Nat.mod_one _)
  have hwords := copyLoop_aligned (n := words) hhead hw hdst hsrc
  exact copyLoop_aligned hwords hone (Nat.mod_one _) (Nat.mod_one _)

/-- A copy with room for a head and a word is wide. -/
theorem memcpy_eq_wideCopy (mem : Memory) {width : UInt64} (hwidth : copyWidth dst src = width)
    (hw : width = 8 ∨ width = 4) (hsz : ¬sz < headOf dst width + width) :
    ∃ words, (headOf dst width).toNat + words * width.toNat ≤ sz.toNat ∧
      (memcpy dst src sz mem).2 =
        wideCopy width.toNat (headOf dst width).toNat words dst src sz.toNat mem := by
  have hhead := headOf_toNat hw dst
  have hbound : (headOf dst width).toNat < width.toNat ∧ width.toNat ≤ 8 ∧ 0 < width.toNat := by
    rcases hw with rfl | rfl
    · exact ⟨hhead ▸ Nat.mod_lt _ (by decide), by decide, by decide⟩
    · exact ⟨hhead ▸ Nat.mod_lt _ (by decide), by decide, by decide⟩
  obtain ⟨hlt, h8, hpos⟩ := hbound
  have hroom := hsz
  rw [UInt64.lt_iff_toNat_lt, UInt64.toNat_add, Nat.mod_eq_of_lt (by omega)] at hroom
  have hszlt := sz.toNat_lt
  have hrest : (sz - headOf dst width).toNat = sz.toNat - (headOf dst width).toNat :=
    UInt64.toNat_sub_of_le _ _ (UInt64.le_iff_toNat_le.mpr (by omega))
  have hwords : ((sz - headOf dst width) / width).toNat =
      (sz.toNat - (headOf dst width).toNat) / width.toNat := by
    rw [UInt64.toNat_div, hrest]
  have hle := Nat.div_mul_le_self (sz.toNat - (headOf dst width).toNat) width.toNat
  have hbytes : ((sz - headOf dst width) / width * width).toNat =
      (sz.toNat - (headOf dst width).toNat) / width.toNat * width.toNat := by
    rw [UInt64.toNat_mul, hwords, Nat.mod_eq_of_lt (by omega)]
  have htail : (sz - headOf dst width - (sz - headOf dst width) / width * width).toNat =
      sz.toNat - ((headOf dst width).toNat +
        (sz.toNat - (headOf dst width).toNat) / width.toNat * width.toNat) := by
    rw [UInt64.toNat_sub_of_le _ _ (UInt64.le_iff_toNat_le.mpr (by omega)), hrest, hbytes,
      Nat.sub_sub]
  have hoffset (a : UInt64) : a + headOf dst width + (sz - headOf dst width) / width * width =
      a + UInt64.ofNat ((headOf dst width).toNat +
        (sz.toNat - (headOf dst width).toNat) / width.toNat * width.toNat) := by
    rw [← hbytes, UInt64.ofNat_add, UInt64.ofNat_toNat, UInt64.ofNat_toNat, add_assoc]
  have hwide (s : CopyState) :
      (if width = 8 then copyWords64 (dst + headOf dst width) (src + headOf dst width)
          ((sz - headOf dst width) / width) s
        else copyWords32 (dst + headOf dst width) (src + headOf dst width)
          ((sz - headOf dst width) / width) s) =
      copyLoop width.toNat ((sz.toNat - (headOf dst width).toNat) / width.toNat)
        (dst + headOf dst width) (src + headOf dst width) s := by
    rw [← hwords]
    rcases hw with rfl | rfl <;> rfl
  have hnot : ¬(width = 1 ∨ sz < headOf dst width + width) := by
    rintro (hone | hlt)
    · rcases hw with rfl | rfl <;> cases hone
    · exact hsz hlt
  refine ⟨(sz.toNat - (headOf dst width).toNat) / width.toNat, by omega, ?_⟩
  subst hwidth
  have hbranch : (memcpy dst src sz mem).2 = _ := congrArg Prod.snd (if_neg hnot)
  rw [hbranch, wideCopy, UInt64.ofNat_toNat, ← hoffset, ← hoffset, ← htail, ← hwide]
  rfl

/-- Every copy is a run of bytes, or a wide copy from an aligned head on. -/
theorem memcpy_cases (dst src sz : UInt64) (mem : Memory) :
    (memcpy dst src sz mem).2 = copyLoop 1 sz.toNat dst src { mem } ∨
      ∃ width head words, width ∣ 2 ^ 64 ∧ head + words * width ≤ sz.toNat ∧
        (dst + UInt64.ofNat head).toNat % width = 0 ∧
        (src + UInt64.ofNat head).toNat % width = 0 ∧
        (memcpy dst src sz mem).2 = wideCopy width head words dst src sz.toNat mem := by
  have hwide : ∀ width : UInt64, copyWidth dst src = width → (width = 8 ∨ width = 4) →
      dst.toNat % width.toNat = src.toNat % width.toNat → width.toNat ∣ 2 ^ 64 →
      ¬sz < headOf dst width + width → ∃ width head words, width ∣ 2 ^ 64 ∧
        head + words * width ≤ sz.toNat ∧ (dst + UInt64.ofNat head).toNat % width = 0 ∧
        (src + UInt64.ofNat head).toNat % width = 0 ∧
        (memcpy dst src sz mem).2 = wideCopy width head words dst src sz.toNat mem := by
    intro width hwidth hw hsame hdvd hsz
    obtain ⟨words, hle, heq⟩ := memcpy_eq_wideCopy mem hwidth hw hsz
    refine ⟨width.toNat, (headOf dst width).toNat, words, hdvd, hle, ?_, ?_, heq⟩
    · rw [UInt64.ofNat_toNat]
      exact headOf_aligned hw rfl
    · rw [UInt64.ofNat_toNat]
      exact headOf_aligned hw hsame
  by_cases hshort : copyWidth dst src = 1 ∨ sz < headOf dst (copyWidth dst src) + copyWidth dst src
  · exact Or.inl (congrArg Prod.snd (if_pos hshort))
  · obtain ⟨hne, hroom⟩ := not_or.mp hshort
    right
    rcases copyWidth_cases dst src with ⟨h8, hsame⟩ | ⟨h4, hsame⟩ | h1
    · exact hwide 8 h8 (Or.inl rfl) hsame (by decide) (h8 ▸ hroom)
    · exact hwide 4 h4 (Or.inr rfl) hsame (by decide) (h4 ▸ hroom)
    · exact absurd h1 hne

/-- The word-wise `memcpy` copies like the byte-wise one, and its accesses are
aligned, when the regions are disjoint or the source does not start below the
destination. -/
theorem memcpy_copies (dst src sz : UInt64) (mem : Memory)
    (h : (∀ i j, i < sz → j < sz → dst + i ≠ src + j) ∨
      dst ≤ src ∧ src.toNat + sz.toNat ≤ 2 ^ 64) :
    (memcpy dst src sz mem).1 = dst ∧
      (∀ i, i < sz → (memcpy dst src sz mem).2.mem (dst + i) = mem (src + i)) ∧
      (∀ x, (∀ i, i < sz → x ≠ dst + i) → (memcpy dst src sz mem).2.mem x = mem x) ∧
      ∀ a ∈ (memcpy dst src sz mem).2.accesses, a.addr.toNat % a.width = 0 := by
  have hszlt := sz.toNat_lt
  have hoffset : ∀ i < sz.toNat, UInt64.ofNat i < sz := by
    intro i hi
    rw [UInt64.lt_iff_toNat_lt, toNat_ofNat (by omega)]
    exact hi
  have hahead : Ahead dst src sz.toNat := by
    rcases h with hdisjoint | ⟨hle, hwrap⟩
    · exact ahead_of_disjoint fun i j hi hj => hdisjoint _ _ (hoffset i hi) (hoffset j hj)
    · exact ahead_of_le hle hwrap
  have hboth : Copied mem dst src sz.toNat (memcpy dst src sz mem).2.mem ∧
      Aligned (memcpy dst src sz mem).2 := by
    rcases memcpy_cases dst src sz mem with heq | ⟨width, head, words, hw, hle, hdst, hsrc, heq⟩
    · rw [heq]
      have hcopied := copyLoop_copied (s := { mem }) (w := 1) (n := sz.toNat)
        (Copied.zero mem dst src) (by omega) (hahead.mono (by omega))
      exact ⟨by simpa using hcopied, copyBytes_aligned (aligned_start mem) dst src sz⟩
    · rw [heq]
      exact ⟨wideCopy_copied hle hahead, wideCopy_aligned hw hdst hsrc _⟩
  obtain ⟨hcopied, haligned⟩ := hboth
  obtain ⟨hbytes, hframe⟩ := hcopied.spec hszlt
  refine ⟨?_, ?_, ?_, haligned⟩
  · unfold memcpy
    dsimp only
    split <;> rfl
  · intro i hi
    have hcopy := hbytes i.toNat (UInt64.lt_iff_toNat_lt.mp hi)
    rwa [UInt64.ofNat_toNat] at hcopy
  · intro x hx
    exact hframe x fun i hi => hx _ (hoffset i hi)

/-- Overlapping regions that differ modulo 8 and not modulo 4. -/
theorem memcpy_copies_overlapping :
    (memcpy 0x1001 0x1005 40 UInt64.toUInt8).2.mem (0x1001 + 39) = 0x2c ∧
      (memcpy 0x1001 0x1005 40 UInt64.toUInt8).2.mem 0x1000 = 0x00 := by
  obtain ⟨-, hbytes, hframe, -⟩ := memcpy_copies 0x1001 0x1005 40 UInt64.toUInt8
    (Or.inr ⟨by decide, by decide⟩)
  constructor
  · exact hbytes 39 (by decide)
  · refine hframe 0x1000 ?_
    intro i hi heq
    have hsum := congrArg UInt64.toNat heq
    have hlt := UInt64.lt_iff_toNat_lt.mp hi
    rw [UInt64.toNat_add] at hsum
    have h1 : (0x1000 : UInt64).toNat = 0x1000 := rfl
    have h2 : (0x1001 : UInt64).toNat = 0x1001 := rfl
    have h3 : (40 : UInt64).toNat = 40 := rfl
    omega

end

end Loader
end TensorSel4
