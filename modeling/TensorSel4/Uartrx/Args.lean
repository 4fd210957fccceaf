/-
The arguments of uartrx's commands: `word_is` to `parse_args` of
`uartrx/uartrx.c`.

A pointer with a length is a list of bytes, and an out-parameter with a Boolean
result is an `Option`.  `s + n` with `len - n` is `s.drop n`.
-/
import Mathlib.Data.Bool.AllAny
import Mathlib.Data.Nat.Digits.Defs
import Mathlib.Tactic.Ring
import TensorSel4.Command.Select
import TensorSel4.Text.Words
import TensorSel4.Vmm.Machine

namespace TensorSel4
namespace Uartrx

open TensorSel4.Command Text Vmm

/-- The bytes of a C string, without its terminator. -/
def ascii (s : String) : List UInt8 := s.toList.map fun c => UInt8.ofNat c.toNat

def space : UInt8 := 0x20

def wordIs : List UInt8 → List UInt8 → Bool
  | [], [] => true
  | c :: s, d :: word => c == d && wordIs s word
  | _, _ => false

def tokenLen (s : List UInt8) : Nat := wordLen space s

def skipSpaces (s : List UInt8) : Nat := gapLen space s

/-- The loop of `parse_decimal`. -/
def parseDigits (val : UInt64) : List UInt8 → Option UInt64
  | [] => some val
  | c :: s => if c < 0x30 ∨ 0x39 < c then none else parseDigits (val * 10 + (c - 0x30).toUInt64) s

def parseDecimal (s : List UInt8) : Option UInt64 := if s = [] then none else parseDigits 0 s

def parseHarnessMode (s : List UInt8) : Option UInt64 :=
  if s = [] then some guestSelectHarness
  else
    match parseDecimal s with
    | none => none
    | some mode =>
      if guestSelectHarnessMode (~~~0) < mode then none else some (guestSelectHarness ||| mode)

def parseGuestKind (s : List UInt8) : Option UInt64 :=
  let word := tokenLen s
  let rest := word + skipSpaces (s.drop word)
  if s = [] then some guestSelectDefault
  else if wordIs (s.take word) (ascii "linux") ∧ rest = s.length then some guestSelectLinux
  else if wordIs (s.take word) (ascii "harness") then parseHarnessMode (s.drop rest)
  else none

theorem word_advances {s : List UInt8} (hs : s ≠ []) :
    (s.drop (tokenLen s + skipSpaces (s.drop (tokenLen s)))).length < s.length := by
  obtain ⟨c, r, rfl⟩ := List.exists_cons_of_ne_nil hs
  have hpos : 0 < tokenLen (c :: r) + skipSpaces ((c :: r).drop (tokenLen (c :: r))) := by
    unfold tokenLen skipSpaces
    by_cases hc : c = space
    · rw [wordLen, if_pos hc, List.drop_zero, gapLen, if_pos hc]
      omega
    · rw [wordLen, if_neg hc]
      omega
  rw [List.length_drop, List.length_cons]
  omega

/-- `find_word`: how far the word is, or the length of `s`. -/
def findWord (word s : List UInt8) : Nat :=
  if _hs : s = [] then 0
  else
    let n := tokenLen s
    if wordIs (s.take n) word then 0
    else
      let step := n + skipSpaces (s.drop n)
      step + findWord word (s.drop step)
termination_by s.length
decreasing_by exact word_advances _hs

def trimSpaces (s : List UInt8) : Nat := (s.rdropWhile fun c => c = space).length

def parseVcpu (s : List UInt8) : Option UInt64 :=
  let word := tokenLen s
  let rest := word + skipSpaces (s.drop word)
  if s = [] then some 0
  else
    match parseDecimal (s.drop rest) with
    | none => none
    | some vcpu => if vcpu ≤ guestSelectVcpu (~~~0) then some vcpu else none

def parseGuestSelect (s : List UInt8) : Option UInt64 :=
  let vcpuAt := findWord (ascii "vcpu") s
  match parseGuestKind (s.take (trimSpaces (s.take vcpuAt))), parseVcpu (s.drop vcpuAt) with
  | some select, some vcpu => some (select ||| vcpu <<< guestSelectVcpuShift)
  | _, _ => none

def parseArgs (verb : UInt64) (args : List UInt8) : Option UInt64 :=
  if verb = cmdVerbGuestStart then parseGuestSelect args
  else if args = [] then some 0
  else none

/-! ## Words -/

theorem wordIs_iff (s word : List UInt8) : wordIs s word = true ↔ s = word := by
  induction s generalizing word with
  | nil => cases word <;> simp [wordIs]
  | cons c s ih => cases word <;> simp [wordIs, ih]

/-- The word list splits at the first `word`, and `find_word` finds it. -/
theorem findWord_spaced (word : List UInt8) {ts : List (List UInt8)} {s : List UInt8}
    (h : Spaced space ts s) : ∃ core n back, s = core ++ (List.replicate n space ++ back) ∧
      Spaced space (ts.takeWhile (· ≠ word)) core ∧ Spaced space (ts.dropWhile (· ≠ word)) back ∧
      findWord word s = core.length + n := by
  induction ts generalizing s with
  | nil =>
    have hs : s = [] := h.eq_nil_iff.mpr rfl
    refine ⟨[], 0, [], hs, .nil, .nil, ?_⟩
    rw [findWord, dif_pos hs]
    rfl
  | cons t ts ih =>
    have hne : s ≠ [] := mt h.eq_nil_iff.mp (List.cons_ne_nil _ _)
    have htake : s.take (tokenLen s) = t := h.take_word
    by_cases ht : t = word
    · refine ⟨[], 0, s, rfl, ?_, ?_, ?_⟩
      · rw [List.takeWhile_cons_of_neg (by simpa using ht)]
        exact .nil
      · rw [List.dropWhile_cons_of_neg (by simpa using ht)]
        exact h
      · rw [findWord, dif_neg hne]
        dsimp only
        rw [htake, if_pos ((wordIs_iff t word).mpr ht)]
        rfl
    · rw [List.takeWhile_cons_of_pos (by simpa using ht),
        List.dropWhile_cons_of_pos (by simpa using ht)]
      obtain ⟨-, k, r, hsplit, hr, hk, hnext⟩ := h.scan
      obtain ⟨core, n, back, hcore, hpre, hpost, hfind⟩ := ih h.drop_word
      have hdrop : s.drop (nextWord space s) = r := by
        rw [hnext, hsplit, ← List.append_assoc, List.drop_left' (by simp)]
      have hword := h.isWord t List.mem_cons_self
      have hvalue : findWord word s = t.length + k + (core.length + n) := by
        rw [findWord, dif_neg hne]
        dsimp only
        rw [htake, if_neg (mt (wordIs_iff t word).mp ht)]
        show nextWord space s + findWord word (s.drop (nextWord space s)) = _
        rw [hfind, hnext]
      rw [hdrop] at hcore
      by_cases hnil : ts.takeWhile (· ≠ word) = []
      · refine ⟨t, k + n, back, ?_, ?_, hpost, ?_⟩
        · rw [hsplit, hcore, hpre.eq_nil_iff.mpr hnil, List.nil_append, List.replicate_add,
            List.append_assoc]
        · rw [hnil]
          exact .last hword
        · rw [hvalue, hpre.eq_nil_iff.mpr hnil, List.length_nil]
          omega
      · have hts : ts ≠ [] := by
          rintro rfl
          exact hnil rfl
        obtain ⟨m, rfl⟩ := Nat.exists_eq_succ_of_ne_zero (mt hk.mp hts)
        refine ⟨t ++ (List.replicate (m + 1) space ++ core), n, back, ?_, .cons m hword hnil hpre,
          hpost, ?_⟩
        · rw [hsplit, hcore, List.append_assoc, List.append_assoc]
        · rw [hvalue, List.length_append, List.length_append, List.length_replicate]
          omega

theorem trimSpaces_take {ts : List (List UInt8)} {s core back : List UInt8} {n : Nat}
    (hcore : Spaced space ts core) (hs : s = core ++ (List.replicate n space ++ back)) :
    s.take (trimSpaces (s.take (core.length + n))) = core := by
  have htake : s.take (core.length + n) = core ++ List.replicate n space := by
    rw [hs, ← List.append_assoc, List.take_left' (by simp)]
  rw [trimSpaces, htake, rdropWhile_replicate hcore.getLast_ne, hs, List.take_left]

/-! ## Numerals -/

def IsDigit (c : UInt8) : Prop := 0x30 ≤ c ∧ c ≤ 0x39

instance : DecidablePred IsDigit := fun _ => inferInstanceAs (Decidable (_ ∧ _))

structure IsNumeral (s : List UInt8) : Prop where
  ne_nil : s ≠ []
  digits : ∀ c ∈ s, IsDigit c

/-- The number that a numeral stands for. -/
def numeralValue (s : List UInt8) : Nat :=
  Nat.ofDigits 10 (s.reverse.map fun c => (c - 0x30).toNat)

theorem numeralValue_cons (c : UInt8) (s : List UInt8) :
    numeralValue (c :: s) = (c - 0x30).toNat * 10 ^ s.length + numeralValue s := by
  rw [numeralValue, List.reverse_cons, List.map_append, Nat.ofDigits_append, List.length_map,
    List.length_reverse, List.map_singleton, Nat.ofDigits_singleton]
  show numeralValue s + _ = _
  rw [Nat.mul_comm, Nat.add_comm]

theorem not_isDigit_iff (c : UInt8) : ¬IsDigit c ↔ c < 0x30 ∨ 0x39 < c := by
  rw [IsDigit, not_and_or, UInt8.not_le, UInt8.not_le]

/-- The loop adds the numeral to what was read before, modulo 2^64. -/
theorem parseDigits_of_digits {s : List UInt8} (h : ∀ c ∈ s, IsDigit c) (n : Nat) :
    parseDigits (UInt64.ofNat n) s = some (UInt64.ofNat (n * 10 ^ s.length + numeralValue s)) := by
  induction s generalizing n with
  | nil =>
    rw [parseDigits, List.length_nil, Nat.pow_zero, Nat.mul_one]
    rfl
  | cons c s ih =>
    have hc := h c List.mem_cons_self
    have hstep : UInt64.ofNat n * 10 + (c - 0x30).toUInt64 =
        UInt64.ofNat (n * 10 + (c - 0x30).toNat) := by
      rw [UInt64.ofNat_add, UInt64.ofNat_mul, UInt64.ofNat_uInt8ToNat]
      rfl
    rw [parseDigits, if_neg (mt (not_isDigit_iff c).mpr (not_not.mpr hc)), hstep,
      ih (fun d hd => h d (List.mem_cons_of_mem c hd)), numeralValue_cons, List.length_cons,
      Nat.pow_succ]
    congr 2
    ring

theorem parseDigits_eq_none {s : List UInt8} (h : ¬∀ c ∈ s, IsDigit c) (val : UInt64) :
    parseDigits val s = none := by
  induction s generalizing val with
  | nil => exact absurd (fun _ hc => absurd hc List.not_mem_nil) h
  | cons c s ih =>
    by_cases hc : IsDigit c
    · rw [parseDigits, if_neg (mt (not_isDigit_iff c).mpr (not_not.mpr hc))]
      exact ih (fun hs => h (List.forall_mem_cons.mpr ⟨hc, hs⟩)) _
    · rw [parseDigits, if_pos ((not_isDigit_iff c).mp hc)]

theorem parseDecimal_of_numeral {s : List UInt8} (h : IsNumeral s) :
    parseDecimal s = some (UInt64.ofNat (numeralValue s)) := by
  have hdigits := parseDigits_of_digits h.digits 0
  rw [Nat.zero_mul, Nat.zero_add] at hdigits
  rw [parseDecimal, if_neg h.ne_nil]
  exact hdigits

theorem parseDecimal_eq_none {s : List UInt8} (h : ¬IsNumeral s) : parseDecimal s = none := by
  unfold parseDecimal
  split
  · rfl
  · next hs => exact parseDigits_eq_none (fun hd => h ⟨hs, hd⟩) 0

end Uartrx
end TensorSel4
