/-
`guest-start [linux | harness [N]] [vcpu K]`.

`StartArgs` is the command's grammar over words, and `parseGuestSelect_typed`
computes what uartrx makes of a text that follows it.  The numerals are read
modulo 2^64, so the parser accepts exactly the texts that follow the grammar and
whose numerals are at most 255 modulo 2^64: `guest_start_grammar_iff`.
-/
import TensorSel4.Uartrx.Args

namespace TensorSel4
namespace Uartrx

open TensorSel4.Command Text Vmm

/-- What stands before `vcpu`, with the numerals as they were typed. -/
inductive GuestArg
  | default
  | linux
  | harness (mode : Option (List UInt8))

structure StartArgs where
  guest : GuestArg
  vcpu : Option (List UInt8)

def GuestArg.words : GuestArg → List (List UInt8)
  | .default => []
  | .linux => [ascii "linux"]
  | .harness none => [ascii "harness"]
  | .harness (some n) => [ascii "harness", n]

def vcpuWords : Option (List UInt8) → List (List UInt8)
  | none => []
  | some k => [ascii "vcpu", k]

/-- The numeral that was typed for the mode, if any. -/
def GuestArg.numeral : GuestArg → Option (List UInt8)
  | .harness mode => mode
  | _ => none

/-- A numeral's value, 0 where it is absent. -/
def optValue : Option (List UInt8) → Nat
  | none => 0
  | some n => numeralValue n

namespace StartArgs

def words (a : StartArgs) : List (List UInt8) :=
  a.guest.words ++ vcpuWords a.vcpu

/-- `s` is the words of `a`, separated by one or more spaces. -/
structure Typed (a : StartArgs) (s : List UInt8) : Prop where
  spaced : Spaced space a.words s
  mode : ∀ n ∈ a.guest.numeral, IsNumeral n
  vcpu : ∀ k ∈ a.vcpu, IsNumeral k

def InRange (a : StartArgs) : Prop := optValue a.guest.numeral ≤ 255 ∧ optValue a.vcpu ≤ 255

/-- The numerals fit once they are reduced modulo 2^64. -/
def WrapsInRange (a : StartArgs) : Prop :=
  optValue a.guest.numeral % 2 ^ 64 ≤ 255 ∧ optValue a.vcpu % 2 ^ 64 ≤ 255

instance (a : StartArgs) : Decidable a.WrapsInRange := inferInstanceAs (Decidable (_ ∧ _))

/-- The `GUEST_SELECT_*` macros read what was typed from `select`. -/
structure Decodes (a : StartArgs) (select : UInt64) : Prop where
  guest :
    match a.guest with
    | .default => guestSelectGuest select = guestSelectDefault ∧ guestSelectIsHarness select = false
    | .linux => guestSelectGuest select = guestSelectLinux ∧ guestSelectIsHarness select = false
    | .harness mode => guestSelectIsHarness select = true ∧
        (guestSelectHarnessMode select).toNat = optValue mode
  vcpu : (guestSelectVcpu select).toNat = optValue a.vcpu

end StartArgs

/-- The low sixteen bits of the selection. -/
def GuestArg.kind : GuestArg → UInt64
  | .default => guestSelectDefault
  | .linux => guestSelectLinux
  | .harness mode => guestSelectHarness ||| UInt64.ofNat (optValue mode)

/-! ## What the parsers make of words -/

theorem parseDecimal_spaced {ts : List (List UInt8)} {s : List UInt8} (h : Spaced space ts s)
    {v : UInt64} (hv : parseDecimal s = some v) :
    ∃ n, ts = [n] ∧ IsNumeral n ∧ v = UInt64.ofNat (numeralValue n) := by
  have hnum : IsNumeral s := by
    by_contra hnot
    rw [parseDecimal_eq_none hnot] at hv
    cases hv
  have hspace : space ∉ s := fun hmem => absurd (hnum.digits _ hmem).1 (by decide)
  match ts with
  | [] => exact absurd (h.eq_nil_iff.mpr rfl) hnum.ne_nil
  | [n] =>
    obtain rfl := h.eq_singleton
    rw [parseDecimal_of_numeral hnum] at hv
    exact ⟨s, rfl, hnum, (Option.some.inj hv).symm⟩
  | _ :: _ :: _ => exact absurd h.sep_mem hspace

theorem guestSelectHarnessMode_ones : guestSelectHarnessMode (~~~0) = 255 := by decide

theorem guestSelectVcpu_ones : guestSelectVcpu (~~~0) = 255 := by decide

theorem ofNat_le_255 (n : Nat) : UInt64.ofNat n ≤ 255 ↔ n % 2 ^ 64 ≤ 255 := by
  rw [UInt64.le_iff_toNat_le, UInt64.toNat_ofNat']
  rfl

theorem parseHarnessMode_none : parseHarnessMode [] = some (GuestArg.harness none).kind := by
  decide

theorem parseHarnessMode_numeral {n : List UInt8} (hn : IsNumeral n) :
    parseHarnessMode n = if numeralValue n % 2 ^ 64 ≤ 255 then
      some (GuestArg.harness (some n)).kind else none := by
  rw [parseHarnessMode, if_neg hn.ne_nil, parseDecimal_of_numeral hn]
  dsimp only
  rw [guestSelectHarnessMode_ones]
  by_cases hle : numeralValue n % 2 ^ 64 ≤ 255
  · rw [if_pos hle, if_neg (UInt64.not_lt.mpr ((ofNat_le_255 _).mpr hle))]
    rfl
  · rw [if_neg hle, if_pos (UInt64.not_le.mp (mt (ofNat_le_255 _).mp hle))]

theorem parseGuestKind_cons {t : List UInt8} {ts : List (List UInt8)} {s : List UInt8}
    (h : Spaced space (t :: ts) s) :
    parseGuestKind s = if t = ascii "linux" ∧ ts = [] then some guestSelectLinux
      else if t = ascii "harness" then parseHarnessMode (s.drop (nextWord space s)) else none := by
  have hne : s ≠ [] := mt h.eq_nil_iff.mp (List.cons_ne_nil _ _)
  obtain ⟨-, n, r, hsplit, hr, -, hnext⟩ := h.scan
  have hend : nextWord space s = s.length ↔ ts = [] := by
    rw [← hr.eq_nil_iff, hnext, hsplit, List.length_append, List.length_append,
      List.length_replicate, ← List.length_eq_zero_iff]
    omega
  have hlinux : (wordIs t (ascii "linux") = true ∧ nextWord space s = s.length) ↔
      (t = ascii "linux" ∧ ts = []) := by
    rw [wordIs_iff, hend]
  have hharness := wordIs_iff t (ascii "harness")
  rw [parseGuestKind, if_neg hne, show s.take (tokenLen s) = t from h.take_word]
  show (if wordIs t (ascii "linux") = true ∧ nextWord space s = s.length then _
    else if wordIs t (ascii "harness") = true then parseHarnessMode (s.drop (nextWord space s))
    else none) = _
  simp only [hlinux, hharness]

/-- What `parse_guest_kind` makes of a text that follows the grammar. -/
theorem parseGuestKind_typed {g : GuestArg} {s : List UInt8} (h : Spaced space g.words s)
    (hmode : ∀ n ∈ g.numeral, IsNumeral n) :
    parseGuestKind s = if optValue g.numeral % 2 ^ 64 ≤ 255 then some g.kind else none := by
  have hlinux : ascii "harness" ≠ ascii "linux" := by decide
  match g with
  | .default =>
    rw [h.eq_nil_iff.mpr rfl]
    rfl
  | .linux =>
    rw [parseGuestKind_cons h, if_pos ⟨rfl, rfl⟩]
    rfl
  | .harness none =>
    rw [parseGuestKind_cons h, if_neg fun hl => hlinux hl.1, if_pos rfl,
      h.drop_word.eq_nil_iff.mpr rfl, parseHarnessMode_none]
    rfl
  | .harness (some n) =>
    rw [parseGuestKind_cons h, if_neg fun hl => hlinux hl.1, if_pos rfl,
      h.drop_word.eq_singleton, parseHarnessMode_numeral (hmode n rfl)]
    rfl

/-- What `parse_guest_kind` accepts follows the grammar. -/
theorem parseGuestKind_some {ts : List (List UInt8)} {s : List UInt8} (h : Spaced space ts s)
    {select : UInt64} (hs : parseGuestKind s = some select) :
    ∃ g : GuestArg, g.words = ts ∧ ∀ n ∈ g.numeral, IsNumeral n := by
  match ts with
  | [] => exact ⟨.default, rfl, fun n hn => by cases hn⟩
  | t :: ts =>
    rw [parseGuestKind_cons h] at hs
    split at hs
    · next hlinux =>
      obtain ⟨rfl, rfl⟩ := hlinux
      exact ⟨.linux, rfl, fun n hn => by cases hn⟩
    split at hs
    · next hharness =>
      subst hharness
      have hrest := h.drop_word
      unfold parseHarnessMode at hs
      split at hs
      · next hnil =>
        rw [hrest.eq_nil_iff.mp hnil]
        exact ⟨.harness none, rfl, fun n hn => by cases hn⟩
      · split at hs
        · cases hs
        · next mode hmode =>
          obtain ⟨n, rfl, hn, -⟩ := parseDecimal_spaced hrest hmode
          exact ⟨.harness (some n), rfl, fun m hm => Option.some.inj hm ▸ hn⟩
    · cases hs

theorem parseVcpu_cons {t : List UInt8} {ts : List (List UInt8)} {s : List UInt8}
    (h : Spaced space (t :: ts) s) :
    parseVcpu s = match parseDecimal (s.drop (nextWord space s)) with
      | none => none
      | some vcpu => if vcpu ≤ 255 then some vcpu else none := by
  have hne : s ≠ [] := mt h.eq_nil_iff.mp (List.cons_ne_nil _ _)
  rw [parseVcpu, if_neg hne, guestSelectVcpu_ones]
  rfl

theorem parseVcpu_typed {vcpu : Option (List UInt8)} {s : List UInt8}
    (h : Spaced space (vcpuWords vcpu) s) (hvcpu : ∀ k ∈ vcpu, IsNumeral k) :
    parseVcpu s =
      if optValue vcpu % 2 ^ 64 ≤ 255 then some (UInt64.ofNat (optValue vcpu)) else none := by
  cases vcpu with
  | none =>
    rw [h.eq_nil_iff.mpr rfl]
    rfl
  | some k =>
    rw [parseVcpu_cons h, h.drop_word.eq_singleton, parseDecimal_of_numeral (hvcpu k rfl)]
    simp only [ofNat_le_255]
    rfl

theorem parseVcpu_some {ts : List (List UInt8)} {s : List UInt8}
    (h : Spaced space (ts.dropWhile (· ≠ ascii "vcpu")) s) {v : UInt64}
    (hs : parseVcpu s = some v) :
    ∃ vcpu, vcpuWords vcpu = ts.dropWhile (· ≠ ascii "vcpu") ∧ ∀ k ∈ vcpu, IsNumeral k := by
  match hts : ts.dropWhile (· ≠ ascii "vcpu") with
  | [] => exact ⟨none, rfl, fun k hk => by cases hk⟩
  | t :: us =>
    have ht : t = ascii "vcpu" := by
      have hhead := List.head?_dropWhile_not (fun u => decide (u ≠ ascii "vcpu")) ts
      rw [hts] at hhead
      simpa using hhead
    rw [hts] at h
    rw [parseVcpu_cons h] at hs
    split at hs
    · cases hs
    · next v hv =>
      obtain ⟨k, rfl, hk, -⟩ := parseDecimal_spaced h.drop_word hv
      exact ⟨some k, by rw [ht]; rfl, fun m hm => Option.some.inj hm ▸ hk⟩

/-! ## The whole argument -/

theorem GuestArg.not_vcpu {g : GuestArg} (hmode : ∀ n ∈ g.numeral, IsNumeral n) :
    ∀ t ∈ g.words, t ≠ ascii "vcpu" := by
  have hlinux : ascii "linux" ≠ ascii "vcpu" := by decide
  have hharness : ascii "harness" ≠ ascii "vcpu" := by decide
  intro t ht
  match g with
  | .default => exact absurd ht List.not_mem_nil
  | .linux => exact List.mem_singleton.mp ht ▸ hlinux
  | .harness none => exact List.mem_singleton.mp ht ▸ hharness
  | .harness (some n) =>
    rcases List.mem_pair.mp ht with rfl | rfl
    · exact hharness
    · rintro rfl
      have hv := (hmode _ rfl).digits 0x76 (by decide)
      exact absurd hv.2 (by decide)

theorem GuestArg.words_injective {g g' : GuestArg} (h : g.words = g'.words) : g = g' := by
  have hne : ascii "harness" ≠ ascii "linux" := by decide
  rcases g with - | - | (- | n) <;> rcases g' with - | - | (- | n') <;>
    simp [GuestArg.words, hne, hne.symm] at h ⊢
  exact h

theorem vcpuWords_injective {vcpu vcpu' : Option (List UInt8)}
    (h : vcpuWords vcpu = vcpuWords vcpu') : vcpu = vcpu' := by
  cases vcpu <;> cases vcpu' <;> simp [vcpuWords] at h ⊢
  exact h

theorem vcpuWords_split (vcpu : Option (List UInt8)) :
    (vcpuWords vcpu).takeWhile (· ≠ ascii "vcpu") = [] ∧
      (vcpuWords vcpu).dropWhile (· ≠ ascii "vcpu") = vcpuWords vcpu := by
  cases vcpu with
  | none => exact ⟨rfl, rfl⟩
  | some k =>
    have hneg : ¬decide (ascii "vcpu" ≠ ascii "vcpu") = true := by simp
    exact ⟨List.takeWhile_cons_of_neg hneg, List.dropWhile_cons_of_neg hneg⟩

namespace StartArgs

theorem Typed.split {a : StartArgs} {s : List UInt8} (h : a.Typed s) :
    a.words.takeWhile (· ≠ ascii "vcpu") = a.guest.words ∧
      a.words.dropWhile (· ≠ ascii "vcpu") = vcpuWords a.vcpu := by
  have hguest : ∀ t ∈ a.guest.words, decide (t ≠ ascii "vcpu") = true := fun t ht =>
    decide_eq_true (GuestArg.not_vcpu h.mode t ht)
  obtain ⟨htake, hdrop⟩ := vcpuWords_split a.vcpu
  rw [words, List.takeWhile_append_of_pos hguest, List.dropWhile_append_of_pos hguest, htake,
    hdrop, List.append_nil]
  exact ⟨rfl, rfl⟩

/-- What uartrx makes of a text that follows the grammar. -/
theorem parseGuestSelect_typed {a : StartArgs} {s : List UInt8} (h : a.Typed s) :
    parseGuestSelect s = if a.WrapsInRange then
      some (a.guest.kind ||| UInt64.ofNat (optValue a.vcpu) <<< guestSelectVcpuShift)
      else none := by
  obtain ⟨core, n, back, hs, hcore, hback, hfind⟩ := findWord_spaced (ascii "vcpu") h.spaced
  obtain ⟨htake, hdrop⟩ := h.split
  rw [htake] at hcore
  rw [hdrop] at hback
  have hrest : s.drop (core.length + n) = back := by
    rw [hs, ← List.append_assoc, List.drop_left' (by simp)]
  rw [parseGuestSelect, hfind, trimSpaces_take hcore hs, hrest, parseGuestKind_typed hcore h.mode,
    parseVcpu_typed hback h.vcpu]
  by_cases hmode : optValue a.guest.numeral % 2 ^ 64 ≤ 255
  · by_cases hvcpu : optValue a.vcpu % 2 ^ 64 ≤ 255
    · rw [if_pos hmode, if_pos hvcpu, if_pos ⟨hmode, hvcpu⟩]
    · rw [if_pos hmode, if_neg hvcpu, if_neg fun hw => hvcpu hw.2]
  · rw [if_neg hmode, if_neg (show ¬a.WrapsInRange from fun hw => hmode hw.1)]

/-- What uartrx accepts follows the grammar. -/
theorem typed_of_parseGuestSelect {ts : List (List UInt8)} {s : List UInt8}
    (h : Spaced space ts s) {select : UInt64} (hs : parseGuestSelect s = some select) :
    ∃ a : StartArgs, a.Typed s := by
  obtain ⟨core, n, back, hsplit, hcore, hback, hfind⟩ := findWord_spaced (ascii "vcpu") h
  have hrest : s.drop (core.length + n) = back := by
    rw [hsplit, ← List.append_assoc, List.drop_left' (by simp)]
  rw [parseGuestSelect, hfind, trimSpaces_take hcore hsplit, hrest] at hs
  cases hkind : parseGuestKind core with
  | none =>
    rw [hkind] at hs
    cases hs
  | some kind =>
    cases hvcpu : parseVcpu back with
    | none =>
      rw [hkind, hvcpu] at hs
      cases hs
    | some v =>
      obtain ⟨guest, hguest, hmode⟩ := parseGuestKind_some hcore hkind
      obtain ⟨vcpu, hwords, hnum⟩ := parseVcpu_some hback hvcpu
      refine ⟨⟨guest, vcpu⟩, ?_, hmode, hnum⟩
      show Spaced space (guest.words ++ vcpuWords vcpu) s
      rw [hguest, hwords, List.takeWhile_append_dropWhile]
      exact h

/-- A text follows the grammar in one way. -/
theorem Typed.unique {a a' : StartArgs} {s : List UInt8} (h : a.Typed s) (h' : a'.Typed s) :
    a = a' := by
  have hwords := h.spaced.unique h'.spaced
  obtain ⟨htake, hdrop⟩ := h.split
  obtain ⟨htake', hdrop'⟩ := h'.split
  rw [hwords, htake'] at htake
  rw [hwords, hdrop'] at hdrop
  obtain ⟨guest, vcpu⟩ := a
  obtain ⟨guest', vcpu'⟩ := a'
  obtain rfl : guest = guest' := GuestArg.words_injective htake.symm
  obtain rfl : vcpu = vcpu' := vcpuWords_injective hdrop.symm
  rfl

end StartArgs

/-! ## Reading the selection back -/

theorem harness_mode_table : ∀ m : Fin 256,
    (guestSelectHarness ||| UInt64.ofNat m).toNat < 2 ^ 16 ∧
      guestSelectIsHarness (guestSelectHarness ||| UInt64.ofNat m) = true ∧
      (guestSelectHarnessMode (guestSelectHarness ||| UInt64.ofNat m)).toNat = m := by
  decide +kernel

theorem guestSelect_toNat {kind : UInt64} {v : Nat} (hkind : kind.toNat < 2 ^ 16)
    (hv : v < 2 ^ 8) :
    (kind ||| UInt64.ofNat v <<< guestSelectVcpuShift).toNat = 2 ^ 16 * v + kind.toNat := by
  have hshift : (UInt64.ofNat v <<< guestSelectVcpuShift).toNat = 2 ^ 16 * v := by
    rw [UInt64.toNat_shiftLeft, UInt64.toNat_ofNat', Nat.mod_eq_of_lt (by omega : v < 2 ^ 64),
      Nat.shiftLeft_eq]
    show v * 2 ^ 16 % 2 ^ 64 = 2 ^ 16 * v
    omega
  rw [UInt64.toNat_or, hshift, Nat.or_comm, Nat.two_pow_add_eq_or_of_lt hkind]

theorem guestSelectGuest_toNat (s : UInt64) : (guestSelectGuest s).toNat = s.toNat % 2 ^ 16 := by
  rw [guestSelectGuest, UInt64.toNat_and]
  exact Nat.and_two_pow_sub_one_eq_mod s.toNat 16

theorem guestSelectVcpu_toNat (s : UInt64) :
    (guestSelectVcpu s).toNat = s.toNat / 2 ^ 16 % 2 ^ 8 := by
  rw [guestSelectVcpu, UInt64.toNat_and, UInt64.toNat_shiftRight, Nat.shiftRight_eq_div_pow]
  exact Nat.and_two_pow_sub_one_eq_mod (s.toNat / 2 ^ 16) 8

theorem guestSelectHarnessMode_guest (s : UInt64) :
    guestSelectHarnessMode (guestSelectGuest s) = guestSelectHarnessMode s := by
  rw [guestSelectHarnessMode, guestSelectGuest, UInt64.and_assoc]
  rfl

theorem GuestArg.kind_lt {g : GuestArg} (h : optValue g.numeral ≤ 255) :
    g.kind.toNat < 2 ^ 16 := by
  match g with
  | .default => decide
  | .linux => decide
  | .harness mode => exact (harness_mode_table ⟨optValue mode, Nat.lt_succ_of_le h⟩).1

/-- A selection built from numerals that fit says what was typed. -/
theorem StartArgs.decodes_of_inRange {a : StartArgs} (h : a.InRange) :
    a.Decodes (a.guest.kind ||| UInt64.ofNat (optValue a.vcpu) <<< guestSelectVcpuShift) := by
  obtain ⟨hmode, hvcpu⟩ := h
  have hkind := GuestArg.kind_lt hmode
  have htotal := guestSelect_toNat hkind (Nat.lt_succ_of_le hvcpu)
  have hguest : guestSelectGuest
      (a.guest.kind ||| UInt64.ofNat (optValue a.vcpu) <<< guestSelectVcpuShift) =
        a.guest.kind := by
    rw [← UInt64.toNat_inj, guestSelectGuest_toNat, htotal]
    omega
  have hself : guestSelectGuest a.guest.kind = a.guest.kind := by
    rw [← UInt64.toNat_inj, guestSelectGuest_toNat]
    omega
  have hharness : ∀ b, guestSelectIsHarness a.guest.kind = b → guestSelectIsHarness
      (a.guest.kind ||| UInt64.ofNat (optValue a.vcpu) <<< guestSelectVcpuShift) = b := by
    intro b hb
    rw [guestSelectIsHarness, hguest, ← hb, guestSelectIsHarness, hself]
  refine ⟨?_, ?_⟩
  · match hg : a.guest with
    | .default =>
      rw [hg] at hguest hharness
      exact ⟨hguest, hharness false (by decide)⟩
    | .linux =>
      rw [hg] at hguest hharness
      exact ⟨hguest, hharness false (by decide)⟩
    | .harness mode =>
      rw [hg] at hguest hharness hmode
      obtain ⟨-, his, hvalue⟩ := harness_mode_table ⟨optValue mode, Nat.lt_succ_of_le hmode⟩
      refine ⟨hharness true his, ?_⟩
      rw [← guestSelectHarnessMode_guest, hguest]
      exact hvalue
  · rw [guestSelectVcpu_toNat, htotal]
    omega

/-- `parse_args` accepts `s` for `guest-start` exactly when it follows the grammar
with numerals of at most 255, and the selection says what was typed. -/
def ParsesExactly (s : List UInt8) : Prop :=
  ((parseArgs cmdVerbGuestStart s).isSome = true ↔ ∃ a : StartArgs, a.Typed s ∧ a.InRange) ∧
    ∀ select, parseArgs cmdVerbGuestStart s = some select →
      ∀ a : StartArgs, a.Typed s → a.Decodes select

theorem StartArgs.InRange.wraps {a : StartArgs} (h : a.InRange) : a.WrapsInRange :=
  ⟨(Nat.mod_le _ _).trans h.1, (Nat.mod_le _ _).trans h.2⟩

theorem guest_start_grammar_iff {s : List UInt8} (hhead : s.head? ≠ some space)
    (hlast : s.getLast? ≠ some space) :
    ParsesExactly s ↔ ¬∃ a : StartArgs, a.Typed s ∧ a.WrapsInRange ∧ ¬a.InRange := by
  have hargs : parseArgs cmdVerbGuestStart s = parseGuestSelect s := if_pos rfl
  constructor
  · rintro ⟨haccepts, -⟩ ⟨a, htyped, hwraps, hrange⟩
    rw [hargs, StartArgs.parseGuestSelect_typed htyped, if_pos hwraps] at haccepts
    obtain ⟨a', htyped', hrange'⟩ := haccepts.mp rfl
    exact hrange (htyped'.unique htyped ▸ hrange')
  · intro hnone
    obtain ⟨ts, hspaced⟩ := exists_spaced hhead hlast
    have hinRange : ∀ a : StartArgs, a.Typed s → a.WrapsInRange → a.InRange := by
      intro a htyped hwraps
      by_contra hrange
      exact hnone ⟨a, htyped, hwraps, hrange⟩
    have haccepted : ∀ select, parseGuestSelect s = some select → ∀ a : StartArgs, a.Typed s →
        a.InRange ∧ select = a.guest.kind ||| UInt64.ofNat (optValue a.vcpu) <<<
          guestSelectVcpuShift := by
      intro select hselect a htyped
      rw [StartArgs.parseGuestSelect_typed htyped] at hselect
      split at hselect
      · next hwraps => exact ⟨hinRange a htyped hwraps, (Option.some.inj hselect).symm⟩
      · cases hselect
    rw [ParsesExactly, hargs]
    refine ⟨⟨fun hsome => ?_, ?_⟩, fun select hselect a htyped => ?_⟩
    · obtain ⟨select, hselect⟩ := Option.isSome_iff_exists.mp hsome
      obtain ⟨a, htyped⟩ := StartArgs.typed_of_parseGuestSelect hspaced hselect
      exact ⟨a, htyped, (haccepted select hselect a htyped).1⟩
    · rintro ⟨a, htyped, hrange⟩
      rw [StartArgs.parseGuestSelect_typed htyped, if_pos hrange.wraps]
      rfl
    · obtain ⟨hrange, rfl⟩ := haccepted select hselect a htyped
      exact StartArgs.decodes_of_inRange hrange

def harnessArgs (n : List UInt8) : StartArgs := { guest := .harness (some n), vcpu := none }

theorem harnessArgs_typed {n : List UInt8} (hn : IsNumeral n) :
    (harnessArgs n).Typed (ascii "harness" ++ (List.replicate 1 space ++ n)) := by
  have hspace : space ∉ n := fun hmem => absurd (hn.digits _ hmem).1 (by decide)
  refine ⟨.cons 0 ⟨by decide, by decide⟩ (List.cons_ne_nil _ _) (.last ⟨hn.ne_nil, hspace⟩), ?_, ?_⟩
  · exact fun m hm => Option.some.inj hm ▸ hn
  · exact fun k hk => by cases hk

theorem guest_start_grammar_iff_harness : ParsesExactly (ascii "harness 5") := by
  refine (guest_start_grammar_iff (by decide) (by decide)).mpr ?_
  rintro ⟨a, htyped, -, hrange⟩
  have hfive : (harnessArgs (ascii "5")).Typed (ascii "harness 5") :=
    harnessArgs_typed ⟨by decide, List.all_iff_forall_prop.mp (by decide)⟩
  rw [htyped.unique hfive] at hrange
  exact hrange ⟨by decide, by decide⟩

/-- 2^64 + 5 is accepted as the mode 5. -/
theorem wide_numeral_accepted :
    parseArgs cmdVerbGuestStart (ascii "harness 18446744073709551621") = some 0x105 ∧
      ¬ParsesExactly (ascii "harness 18446744073709551621") := by
  have hwide : (harnessArgs (ascii "18446744073709551621")).Typed
      (ascii "harness 18446744073709551621") :=
    harnessArgs_typed ⟨by decide, List.all_iff_forall_prop.mp (by decide)⟩
  have hparse : parseArgs cmdVerbGuestStart (ascii "harness 18446744073709551621") =
      some 0x105 := by
    rw [parseArgs, if_pos rfl, StartArgs.parseGuestSelect_typed hwide]
    decide
  refine ⟨hparse, fun h => ?_⟩
  obtain ⟨a, htyped, hrange⟩ := h.1.mp (by rw [hparse]; rfl)
  rw [htyped.unique hwide] at hrange
  exact absurd hrange.1 (by decide)

end Uartrx
end TensorSel4
