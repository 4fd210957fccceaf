/-
Words separated by one or more copies of a separator.

`Spaced sep ts s` says that `s` is the words `ts` with separators between them
and none at the ends.  The word list is unique, every text that neither begins
nor ends with a separator has one, and the three functions that scanners are
made of (the length of a word, the length of a gap, trimming the end) act on the
word list.
-/
import Mathlib.Data.List.DropRight

namespace TensorSel4
namespace Text

variable {α : Type} {sep : α}

structure IsWord (sep : α) (t : List α) : Prop where
  ne_nil : t ≠ []
  not_mem : sep ∉ t

inductive Spaced (sep : α) : List (List α) → List α → Prop
  | nil : Spaced sep [] []
  | last {t : List α} (ht : IsWord sep t) : Spaced sep [t] t
  | cons {t : List α} {ts : List (List α)} {s : List α} (n : Nat) (ht : IsWord sep t)
      (hts : ts ≠ []) (hs : Spaced sep ts s) :
      Spaced sep (t :: ts) (t ++ (List.replicate (n + 1) sep ++ s))

namespace Spaced

theorem isWord {ts : List (List α)} {s : List α} (h : Spaced sep ts s) :
    ∀ t ∈ ts, IsWord sep t := by
  induction h with
  | nil => exact fun _ h => absurd h List.not_mem_nil
  | last ht =>
    intro t hmem
    exact List.mem_singleton.mp hmem ▸ ht
  | cons n ht hts hs ih =>
    intro u hmem
    rcases List.mem_cons.mp hmem with rfl | hu
    · exact ht
    · exact ih u hu

theorem eq_nil_iff {ts : List (List α)} {s : List α} (h : Spaced sep ts s) :
    s = [] ↔ ts = [] := by
  cases h with
  | nil => exact iff_of_true rfl rfl
  | last ht => exact iff_of_false ht.ne_nil (List.cons_ne_nil _ _)
  | cons n ht hts hs =>
    refine iff_of_false (fun h => ht.ne_nil ?_) (List.cons_ne_nil _ _)
    exact (List.append_eq_nil_iff.mp h).1

theorem head_ne {t : List α} {ts : List (List α)} {s : List α} (h : Spaced sep (t :: ts) s) :
    ∃ c r, s = c :: r ∧ c ≠ sep := by
  have hword := h.isWord t List.mem_cons_self
  obtain ⟨c, r, rfl⟩ := List.exists_cons_of_ne_nil hword.ne_nil
  have hc : c ≠ sep := fun hc => hword.not_mem (hc ▸ List.mem_cons_self)
  cases h with
  | last _ => exact ⟨c, r, rfl, hc⟩
  | cons n _ _ hs => exact ⟨c, _, List.cons_append, hc⟩

/-- The gap after the first word, and the text that follows it. -/
theorem uncons {t : List α} {ts : List (List α)} {s : List α} (h : Spaced sep (t :: ts) s) :
    ∃ n r, s = t ++ (List.replicate n sep ++ r) ∧ Spaced sep ts r ∧ (n = 0 ↔ ts = []) := by
  cases h with
  | last _ => exact ⟨0, [], by rw [List.replicate_zero, List.append_nil, List.append_nil], .nil,
      iff_of_true rfl rfl⟩
  | cons n _ hts hs => exact ⟨n + 1, _, rfl, hs, iff_of_false (Nat.succ_ne_zero n) hts⟩

theorem getLast_ne {ts : List (List α)} {s : List α} (h : Spaced sep ts s) (hs : s ≠ []) :
    s.getLast hs ≠ sep := by
  induction h with
  | nil => exact absurd rfl hs
  | last ht => exact fun hlast => ht.not_mem (hlast ▸ List.getLast_mem hs)
  | cons n ht hts hrest ih =>
    have hne := mt hrest.eq_nil_iff.mp hts
    rw [List.getLast_append_of_ne_nil _ (List.append_ne_nil_of_right_ne_nil _ hne),
      List.getLast_append_of_ne_nil _ hne]
    exact ih hne

theorem eq_singleton {t s : List α} (h : Spaced sep [t] s) : s = t := by
  obtain ⟨n, r, hs, hr, hn⟩ := h.uncons
  rw [hs, hn.mpr rfl, hr.eq_nil_iff.mpr rfl, List.replicate_zero, List.append_nil, List.append_nil]

theorem sep_mem {t u : List α} {ts : List (List α)} {s : List α} (h : Spaced sep (t :: u :: ts) s) :
    sep ∈ s := by
  obtain ⟨n, r, hs, -, hn⟩ := h.uncons
  obtain ⟨m, rfl⟩ := Nat.exists_eq_succ_of_ne_zero (mt hn.mp (List.cons_ne_nil u ts))
  rw [hs, List.replicate_succ]
  exact List.mem_append_right t List.mem_cons_self

end Spaced

/-! ## Scanning -/

section Scan

variable [DecidableEq α]

/-- How far the first separator is. -/
def wordLen (sep : α) : List α → Nat
  | [] => 0
  | c :: s => if c = sep then 0 else wordLen sep s + 1

/-- How many separators `s` begins with. -/
def gapLen (sep : α) : List α → Nat
  | [] => 0
  | c :: s => if c = sep then gapLen sep s + 1 else 0

theorem take_wordLen (sep : α) (s : List α) :
    s.take (wordLen sep s) = s.takeWhile fun c => c ≠ sep := by
  induction s with
  | nil => rfl
  | cons c s ih =>
    unfold wordLen
    by_cases hc : c = sep
    · rw [if_pos hc, List.takeWhile_cons_of_neg (by simpa using hc)]
      rfl
    · rw [if_neg hc, List.takeWhile_cons_of_pos (by simpa using hc), List.take_succ_cons, ih]

theorem drop_wordLen (sep : α) (s : List α) :
    s.drop (wordLen sep s) = s.dropWhile fun c => c ≠ sep := by
  induction s with
  | nil => rfl
  | cons c s ih =>
    unfold wordLen
    by_cases hc : c = sep
    · rw [if_pos hc, List.dropWhile_cons_of_neg (by simpa using hc)]
      rfl
    · rw [if_neg hc, List.dropWhile_cons_of_pos (by simpa using hc), List.drop_succ_cons, ih]

theorem drop_gapLen (sep : α) (s : List α) :
    s.drop (gapLen sep s) = s.dropWhile fun c => c = sep := by
  induction s with
  | nil => rfl
  | cons c s ih =>
    unfold gapLen
    by_cases hc : c = sep
    · rw [if_pos hc, List.dropWhile_cons_of_pos (by simpa using hc), List.drop_succ_cons, ih]
    · rw [if_neg hc, List.dropWhile_cons_of_neg (by simpa using hc)]
      rfl

theorem wordLen_append {t : List α} (ht : sep ∉ t) (s : List α) :
    wordLen sep (t ++ s) = t.length + wordLen sep s := by
  induction t with
  | nil => exact (Nat.zero_add _).symm
  | cons c t ih =>
    rw [List.mem_cons, not_or] at ht
    rw [List.cons_append, wordLen, if_neg (Ne.symm ht.1), ih ht.2, List.length_cons]
    omega

theorem wordLen_sep (s : List α) : wordLen sep (sep :: s) = 0 := if_pos rfl

theorem gapLen_replicate (n : Nat) (s : List α) :
    gapLen sep (List.replicate n sep ++ s) = n + gapLen sep s := by
  induction n with
  | zero => exact (Nat.zero_add _).symm
  | succ n ih =>
    rw [List.replicate_succ, List.cons_append, gapLen, if_pos rfl, ih]
    omega

theorem Spaced.gapLen {ts : List (List α)} {s : List α} (h : Spaced sep ts s) :
    gapLen sep s = 0 := by
  cases ts with
  | nil =>
    rw [h.eq_nil_iff.mpr rfl]
    rfl
  | cons t ts =>
    obtain ⟨c, r, rfl, hc⟩ := h.head_ne
    exact if_neg hc

/-- Where the second word begins. -/
def nextWord (sep : α) (s : List α) : Nat :=
  wordLen sep s + Text.gapLen sep (s.drop (wordLen sep s))

/-- The first word and the rest, as a scanner finds them. -/
theorem Spaced.scan {t : List α} {ts : List (List α)} {s : List α}
    (h : Spaced sep (t :: ts) s) :
    wordLen sep s = t.length ∧ ∃ n r, s = t ++ (List.replicate n sep ++ r) ∧ Spaced sep ts r ∧
      (n = 0 ↔ ts = []) ∧ nextWord sep s = t.length + n := by
  have ht := h.isWord t List.mem_cons_self
  obtain ⟨n, r, hsplit, hr, hn⟩ := h.uncons
  have hgap : wordLen sep (List.replicate n sep ++ r) = 0 := by
    cases n with
    | zero =>
      rw [hr.eq_nil_iff.mpr (hn.mp rfl)]
      rfl
    | succ n => exact wordLen_sep _
  have hlen : wordLen sep s = t.length := by
    rw [hsplit, wordLen_append ht.not_mem, hgap]
    rfl
  refine ⟨hlen, n, r, hsplit, hr, hn, ?_⟩
  rw [nextWord, hlen, hsplit, List.drop_left, gapLen_replicate, hr.gapLen]
  rfl

theorem Spaced.take_word {t : List α} {ts : List (List α)} {s : List α}
    (h : Spaced sep (t :: ts) s) : s.take (wordLen sep s) = t := by
  obtain ⟨hlen, n, r, hsplit, -⟩ := h.scan
  rw [hlen, hsplit, List.take_left]

theorem Spaced.drop_word {t : List α} {ts : List (List α)} {s : List α}
    (h : Spaced sep (t :: ts) s) : Spaced sep ts (s.drop (nextWord sep s)) := by
  obtain ⟨-, n, r, hsplit, hr, -, hnext⟩ := h.scan
  rw [hnext, hsplit, List.drop_append, List.drop_of_length_le (by omega), List.nil_append,
    Nat.add_sub_cancel_left, List.drop_left' (List.length_replicate)]
  exact hr

/-- A text has one word list. -/
theorem Spaced.unique {ts us : List (List α)} {s : List α} (h : Spaced sep ts s)
    (h' : Spaced sep us s) : ts = us := by
  induction ts generalizing us s with
  | nil => exact (h'.eq_nil_iff.mp (h.eq_nil_iff.mpr rfl)).symm
  | cons t ts ih =>
    cases us with
    | nil => exact absurd (h.eq_nil_iff.mp (h'.eq_nil_iff.mpr rfl)) (List.cons_ne_nil _ _)
    | cons u us =>
      have hword : t = u := h.take_word.symm.trans h'.take_word
      rw [hword, ih h.drop_word h'.drop_word]

end Scan

/-! ## Texts that have words -/

theorem exists_word (sep : α) (s : List α) :
    ∃ t r, s = t ++ r ∧ sep ∉ t ∧ (r = [] ∨ r.head? = some sep) := by
  induction s with
  | nil => exact ⟨[], [], rfl, List.not_mem_nil, Or.inl rfl⟩
  | cons c s ih =>
    by_cases hc : c = sep
    · exact ⟨[], c :: s, rfl, List.not_mem_nil, Or.inr (congrArg some hc)⟩
    · obtain ⟨t, r, rfl, ht, hr⟩ := ih
      refine ⟨c :: t, r, rfl, ?_, hr⟩
      rw [List.mem_cons, not_or]
      exact ⟨Ne.symm hc, ht⟩

theorem exists_gap (sep : α) (s : List α) :
    ∃ n r, s = List.replicate n sep ++ r ∧ r.head? ≠ some sep := by
  induction s with
  | nil => exact ⟨0, [], rfl, fun h => by cases h⟩
  | cons c s ih =>
    by_cases hc : c = sep
    · obtain ⟨n, r, rfl, hr⟩ := ih
      exact ⟨n + 1, r, by rw [hc, List.replicate_succ, List.cons_append], hr⟩
    · exact ⟨0, c :: s, rfl, fun h => hc (Option.some.inj h)⟩

/-- A text that neither begins nor ends with a separator has a word list. -/
theorem exists_spaced {s : List α} (hhead : s.head? ≠ some sep) (hlast : s.getLast? ≠ some sep) :
    ∃ ts, Spaced sep ts s := by
  induction hlen : s.length using Nat.strong_induction_on generalizing s with
  | _ len ih =>
    obtain ⟨t, r, rfl, ht, hr⟩ := exists_word sep s
    by_cases htnil : t = []
    · rcases hr with rfl | hsep
      · rw [htnil]
        exact ⟨[], .nil⟩
      · rw [htnil, List.nil_append] at hhead
        exact absurd hsep hhead
    rcases hr with rfl | hsep
    · rw [List.append_nil]
      exact ⟨[t], .last ⟨htnil, ht⟩⟩
    obtain ⟨n, u, rfl, hu⟩ := exists_gap sep r
    have hn : n ≠ 0 := by
      rintro rfl
      exact hu hsep
    have hune : u ≠ [] := by
      rintro rfl
      obtain ⟨m, rfl⟩ := Nat.exists_eq_succ_of_ne_zero hn
      apply hlast
      rw [List.append_nil, List.replicate_succ', ← List.append_assoc, List.getLast?_concat]
    have hulast : u.getLast? ≠ some sep := by
      rw [List.getLast?_append_of_ne_nil _ (List.append_ne_nil_of_right_ne_nil _ hune),
        List.getLast?_append_of_ne_nil _ hune] at hlast
      exact hlast
    have hshort : u.length < len := by
      rw [← hlen, List.length_append, List.length_append]
      have hpos := List.length_pos_iff.mpr htnil
      omega
    obtain ⟨ts, hts⟩ := ih u.length hshort hu hulast rfl
    obtain ⟨m, rfl⟩ := Nat.exists_eq_succ_of_ne_zero hn
    exact ⟨t :: ts, .cons m ⟨htnil, ht⟩ (mt hts.eq_nil_iff.mpr hune) hts⟩

/-- Trimming does not depend on the separators at the end. -/
theorem rdropWhile_append_replicate [DecidableEq α] (s : List α) (n : Nat) :
    (s ++ List.replicate n sep).rdropWhile (fun c => c = sep) =
      s.rdropWhile (fun c => c = sep) := by
  induction n with
  | zero => rw [List.replicate_zero, List.append_nil]
  | succ n ih =>
    rw [List.replicate_succ', ← List.append_assoc, List.rdropWhile_concat_pos _ _ _ (by simp), ih]

/-- Trimming removes the separators after a text that does not end with one. -/
theorem rdropWhile_replicate [DecidableEq α] {s : List α} (hs : ∀ h : s ≠ [], s.getLast h ≠ sep)
    (n : Nat) : (s ++ List.replicate n sep).rdropWhile (fun c => c = sep) = s := by
  rw [rdropWhile_append_replicate, List.rdropWhile_eq_self_iff]
  intro h hlast
  exact hs h (of_decide_eq_true hlast)

end Text
end TensorSel4
