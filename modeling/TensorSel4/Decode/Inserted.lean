/-
What a line of a dump shows once other text stands in it.

`PrefixFree` is what the other text may be.  A pattern can then match only where
the line's own prefix is, its five characters in one piece, unless characters put
in complete one together with characters of the line; `Joined` says that they do.
What the decoder gets to see of the line is then `shown`.
-/
import TensorSel4.Decode.DumpLines
import TensorSel4.Decode.Tags
import TensorSel4.Text.Insertion

namespace TensorSel4
namespace Decode

open Bytes Text Trace

/-- `TR[HC][0-9]`, at the start of a text. -/
def tagPrefix : List Char → Option Unit
  | 'T' :: 'R' :: t :: c :: _ => if (t = 'H' ∨ t = 'C') ∧ '0' ≤ c ∧ c ≤ '9' then some () else none
  | _ => none

def PrefixFree (s : List Char) : Prop := search tagPrefix s = none

instance (s : List Char) : Decidable (PrefixFree s) := inferInstanceAs (Decidable (_ = _))

/-- The prefix of a line, its digit and the space behind it are in one piece. -/
def Kept (cut : Cut) : Prop := Cut.Untouched ((cut.drop 1).take 4)

instance (cut : Cut) : Decidable (Kept cut) := inferInstanceAs (Decidable (Cut.Untouched _))

/-- The digits behind the prefix, up to the first character that is none. -/
def run (cut : Cut) : List Char := (Cut.outcome (cut.drop 5)).takeWhile isLowerHex

/-- The digits in one piece are not as many as the line has.  Six characters of a
line are no digits: the five of its prefix and the newline. -/
def Torn (cut : Cut) : Prop := (run cut).length + 6 ≠ cut.length

instance (cut : Cut) : Decidable (Torn cut) := inferInstanceAs (Decidable (_ ≠ _))

/-- Characters put into the line and characters of its own make up a prefix
together, or a payload as long as the line's. -/
def Joined (cut : Cut) : Prop :=
  ∃ v, v <:+ cut.marked ∧ ∃ t, tagged (v.map Prod.fst) = some t ∧
    (Mixed (v.take 5) ∨ t.payload.length + 6 = cut.length ∧ Mixed (v.take (5 + t.payload.length)))

/-- What is read at the first character of the line. -/
def shown : Cut → Option Tagged
  | [] => none
  | (_, c) :: cut => tagged (c :: Cut.outcome cut)

/-! ## Texts without a prefix -/

theorem tagged_eq_some_iff {s : List Char} {t : Tagged} :
    tagged s = some t ↔ ∃ c cs, ('0' ≤ c ∧ c ≤ '9') ∧
      ((s = 'T' :: 'R' :: 'H' :: c :: ' ' :: cs ∧
          t = .header (c.toNat - 48, cs.takeWhile isLowerHex)) ∨
        (s = 'T' :: 'R' :: 'C' :: c :: ' ' :: cs ∧
          t = .record (c.toNat - 48, cs.takeWhile isLowerHex))) := by
  rw [tagged]
  cases hheader : taggedLine 'H' s with
  | some p =>
    obtain ⟨c, cs, rfl, hdigit, rfl⟩ := taggedLine_eq_some_iff.mp hheader
    grind
  | none =>
    cases hrecord : taggedLine 'C' s with
    | some p =>
      obtain ⟨c, cs, rfl, hdigit, rfl⟩ := taggedLine_eq_some_iff.mp hrecord
      grind
    | none =>
      simp only [Option.map_none, reduceCtorEq, false_iff]
      rintro ⟨c, cs, hdigit, ⟨rfl, -⟩ | ⟨rfl, -⟩⟩
      · rw [taggedLine_eq_some_iff.mpr ⟨c, cs, rfl, hdigit, rfl⟩] at hheader
        cases hheader
      · rw [taggedLine_eq_some_iff.mpr ⟨c, cs, rfl, hdigit, rfl⟩] at hrecord
        cases hrecord

/-- Four characters of a match are a prefix. -/
theorem tagPrefix_of_tagged {s b : List Char} {t : Tagged} (h : tagged (s ++ b) = some t)
    (hlen : 4 ≤ s.length) : tagPrefix s = some () := by
  match s, hlen with
  | w :: x :: y :: z :: s, _ =>
    obtain ⟨c, cs, hdigit, ⟨hs, -⟩ | ⟨hs, -⟩⟩ := tagged_eq_some_iff.mp h
    · obtain ⟨rfl, rfl, rfl, rfl, -⟩ : w = 'T' ∧ x = 'R' ∧ y = 'H' ∧ z = c ∧ s ++ b = ' ' :: cs := by
        simpa using hs
      exact if_pos ⟨.inl rfl, hdigit⟩
    · obtain ⟨rfl, rfl, rfl, rfl, -⟩ : w = 'T' ∧ x = 'R' ∧ y = 'C' ∧ z = c ∧ s ++ b = ' ' :: cs := by
        simpa using hs
      exact if_pos ⟨.inr rfl, hdigit⟩

theorem tagged_length {s : List Char} {t : Tagged} (h : tagged s = some t) : 5 ≤ s.length := by
  obtain ⟨c, cs, -, ⟨rfl, -⟩ | ⟨rfl, -⟩⟩ := tagged_eq_some_iff.mp h
  · exact Nat.le_add_left 5 cs.length
  · exact Nat.le_add_left 5 cs.length

/-- No suffix of a text without a prefix is long enough to start a match. -/
theorem tagged_of_prefixFree {s v b : List Char} (h : PrefixFree s) (hv : v <:+ s)
    (hlen : 4 ≤ v.length) : tagged (v ++ b) = none := by
  by_contra hne
  obtain ⟨t, ht⟩ := Option.ne_none_iff_exists'.mp hne
  have hprefix := tagPrefix_of_tagged ht hlen
  rw [search_eq_none_iff.mp h v hv] at hprefix
  cases hprefix

theorem silent_of_prefixFree {s : List Char} (h : PrefixFree s) : Silent s := by
  intro v hv
  by_contra hne
  obtain ⟨t, ht⟩ := Option.ne_none_iff_exists'.mp hne
  have hlen : 5 ≤ v.length := tagged_length ht
  rw [← List.append_nil v, tagged_of_prefixFree h hv (by omega)] at ht
  cases ht

/-! ## Where a match can be -/

/-- A line of a dump: its only `T` comes first, a newline last. -/
structure OneT (l : List Char) : Prop where
  first : ∃ body, l = 'T' :: (body ++ ['\n']) ∧ 'T' ∉ body
  long : 6 ≤ l.length

section

variable {cut : Cut} {v : List (Char × Bool)} {t : Tagged}

/-- Without a joined prefix, a match is that of the line itself. -/
theorem match_first (hline : OneT cut.own) (hfree : ∀ p ∈ cut, PrefixFree p.1)
    (hjoined : ¬Joined cut) (hv : v <:+ cut.marked) (hmatch : tagged (v.map Prod.fst) = some t) :
    Kept cut ∧ v = ('T', true) :: Cut.marked (cut.drop 1) := by
  obtain ⟨body, hown, hT⟩ := hline.first
  have hlong : 6 ≤ cut.length := by
    rw [← Cut.own_length]
    exact hline.long
  have hlen : 5 ≤ v.length := by simpa using tagged_length hmatch
  have hpure : ¬Mixed (v.take 5) := fun hmixed => hjoined ⟨v, hv, t, hmatch, .inl hmixed⟩
  rcases Cut.suffix_marked hv with rfl | ⟨u, c, cut', u', hcut, hu, rfl⟩
  · exact absurd hlen (by simp)
  cases u' with
  | cons d u' =>
    -- The match starts in a text put in, so its first five characters are of that text.
    have hown' : ∀ q ∈ (((d :: u').map (·, false)) ++ (c, true) :: Cut.marked cut').take 5,
        q.2 = false := eq_of_not_mixed hpure (p := (d, false)) (by simp)
    have hinside : 4 ≤ (d :: u').length := by
      by_contra hshort
      have hmem : (c, true) ∈
          (((d :: u').map (·, false)) ++ (c, true) :: Cut.marked cut').take 5 := by
        rw [List.take_append]
        apply List.mem_append_right
        have hpos : 5 - ((d :: u').map ((·, false) : Char → Char × Bool)).length =
            (4 - (d :: u').length) + 1 := by
          rw [List.length_map]
          omega
        rw [hpos, List.take_succ_cons]
        exact List.mem_cons_self
      exact absurd (hown' _ hmem) (by simp)
    have hnone := tagged_of_prefixFree (b := c :: Cut.outcome cut')
      (hfree (u, c) (hcut.subset List.mem_cons_self)) hu hinside
    have hsome : tagged ((d :: u') ++ c :: Cut.outcome cut') = some t := by
      simpa [Cut.outcome, Function.comp_def] using hmatch
    rw [hnone] at hsome
    cases hsome
  | nil =>
    have hc : c = 'T' := tagged_head (s := Cut.outcome cut') hmatch
    cases cut with
    | nil => cases hown
    | cons p cut₀ =>
      have hown₀ : p.2 = 'T' ∧ Cut.own cut₀ = body ++ ['\n'] := by simpa using hown
      rcases List.suffix_cons_iff.mp hcut with heq | hcut
      · cases heq
        have hlong' : 4 ≤ cut'.length := by
          rw [List.length_cons] at hlong
          omega
        have hkept : ∀ q ∈ (Cut.marked cut').take 4, q.2 = true := fun q hq =>
          eq_of_not_mixed hpure (p := (c, true)) (by simp) q (by simp [hq])
        exact ⟨Cut.untouched_of_take hlong' hkept, by rw [hc]; rfl⟩
      · have hmem : c ∈ Cut.own cut₀ :=
          List.mem_map_of_mem (f := Prod.snd) (hcut.subset List.mem_cons_self)
        rw [hown₀.2, hc] at hmem
        exact absurd hmem (by simpa using hT)

/-- The line shows what is read at its first character, and nothing else. -/
theorem tags_outcome (hline : OneT cut.own) (hfree : ∀ p ∈ cut, PrefixFree p.1)
    (hjoined : ¬Joined cut) : tags cut.outcome = (shown cut).toList := by
  match cut with
  | [] =>
    obtain ⟨body, hown, -⟩ := hline.first
    cases hown
  | (u, c) :: cut₀ =>
    have hbefore (v : List Char) (hv : v <:+ u) (hne : v ≠ []) :
        tagged (v ++ c :: Cut.outcome cut₀) = none := by
      by_contra hsome
      obtain ⟨t, ht⟩ := Option.ne_none_iff_exists'.mp hsome
      have hsuffix : v.map (·, false) ++ (c, true) :: Cut.marked cut₀ <:+
          Cut.marked ((u, c) :: cut₀) := by
        obtain ⟨a, rfl⟩ := hv
        exact ⟨a.map (·, false), by simp⟩
      obtain ⟨-, heq⟩ := match_first hline hfree hjoined hsuffix
        (by simpa [Cut.outcome, Function.comp_def] using ht)
      cases v with
      | nil => exact hne rfl
      | cons d v => simp at heq
    have hbehind : Silent (Cut.outcome cut₀) := by
      intro v hv
      by_contra hsome
      obtain ⟨t, ht⟩ := Option.ne_none_iff_exists'.mp hsome
      obtain ⟨v', hv', rfl⟩ := List.suffix_map_iff.mp hv
      have hsuffix : v' <:+ Cut.marked ((u, c) :: cut₀) :=
        hv'.trans ((List.suffix_cons _ _).trans (List.suffix_append _ _))
      obtain ⟨-, heq⟩ := match_first hline hfree hjoined hsuffix ht
      have hle : v'.length ≤ (Cut.marked cut₀).length := hv'.length_le
      rw [heq] at hle
      simp at hle
    rw [Cut.outcome_cons, tags_append hbefore, shown]
    cases hshown : tagged (c :: Cut.outcome cut₀) with
    | some t => exact tags_match hshown hbehind
    | none => exact (tags_skip hshown).trans (tags_silent hbehind)

theorem shown_of_kept (h : Kept cut) :
    shown cut = tagged (cut.own.take 5 ++ Cut.outcome (cut.drop 5)) := by
  match cut with
  | [] => rfl
  | (u, c) :: cut₀ =>
    have hrest : Cut.outcome cut₀ = (Cut.own cut₀).take 4 ++ Cut.outcome (cut₀.drop 4) :=
      Cut.outcome_untouched h
    rw [shown, hrest]
    rfl

theorem kept_of_shown (hline : OneT cut.own) (hfree : ∀ p ∈ cut, PrefixFree p.1)
    (hjoined : ¬Joined cut) (h : shown cut = some t) : Kept cut := by
  match cut with
  | [] => cases h
  | (u, c) :: cut₀ =>
    have hsuffix : (c, true) :: Cut.marked cut₀ <:+ Cut.marked ((u, c) :: cut₀) :=
      List.suffix_append _ _
    exact (match_first hline hfree hjoined hsuffix h).1

/-- A line that is not torn shows its payload as it was. -/
theorem run_eq {payload : List Char} (hown : cut.own.drop 5 = payload ++ ['\n'])
    (hhex : ∀ c ∈ payload, isLowerHex c) (hjoined : ¬Joined cut) (htorn : ¬Torn cut)
    (hshown : shown cut = some t) (ht : t.payload = run cut) : run cut = payload := by
  match cut with
  | [] => cases hshown
  | (u, c) :: cut₀ =>
    have hwhole : (run ((u, c) :: cut₀)).length + 6 = cut₀.length + 1 := not_not.mp htorn
    have hlen : cut₀.length = payload.length + 5 := by
      have h := congrArg List.length hown
      rw [List.length_drop, Cut.own_length, List.length_cons, List.length_append,
        List.length_singleton] at h
      omega
    have hrun : (run ((u, c) :: cut₀)).length = payload.length := by omega
    -- As many digits as the line has, and not of both origins: all are the line's.
    have hpure : ¬Mixed (((c, true) :: Cut.marked cut₀).take (5 + payload.length)) := by
      intro hmixed
      apply hjoined
      refine ⟨(c, true) :: Cut.marked cut₀, List.suffix_append _ _, t, hshown, .inr ⟨?_, ?_⟩⟩
      · rw [ht, hrun, List.length_cons]
        omega
      · rw [ht, hrun]
        exact hmixed
    have htrue : ∀ q ∈ (Cut.marked cut₀).take (4 + payload.length), q.2 = true := by
      have hsplit : 5 + payload.length = (4 + payload.length) + 1 := by omega
      intro q hq
      rw [hsplit, List.take_succ_cons] at hpure
      exact eq_of_not_mixed hpure (p := (c, true)) List.mem_cons_self q (List.mem_cons_of_mem _ hq)
    have huntouched : Cut.Untouched (cut₀.take (4 + payload.length)) :=
      Cut.untouched_of_take (by omega) htrue
    have hrest : Cut.Untouched ((cut₀.drop 4).take payload.length) := by
      intro p hp
      apply huntouched
      rw [List.take_drop] at hp
      exact List.mem_of_mem_drop hp
    have hown₀ : (Cut.own (cut₀.drop 4)).take payload.length = payload := by
      have h : Cut.own (cut₀.drop 4) = payload ++ ['\n'] := by
        rw [← hown, Cut.own, Cut.own, List.map_drop]
        rfl
      rw [h, List.take_left]
    have hout : run ((u, c) :: cut₀) =
        payload ++ (Cut.outcome ((cut₀.drop 4).drop payload.length)).takeWhile isLowerHex := by
      rw [run, List.drop_succ_cons, Cut.outcome_untouched hrest, hown₀,
        List.takeWhile_append_of_pos hhex]
    rw [hout, List.length_append] at hrun
    rw [hout, List.append_right_eq_self]
    apply List.eq_nil_of_length_eq_zero
    omega

end

/-! ## Header and record lines -/

section

variable {cut : Cut}

theorem oneT_of_hex {l : List Char} (hl : 'T' ∉ l) (hlen : 4 ≤ l.length) (data : List UInt8) :
    OneT ('T' :: l ++ toHex data ++ ['\n']) := by
  refine ⟨⟨l ++ toHex data, rfl, ?_⟩, ?_⟩
  · intro h
    rcases List.mem_append.mp h with h | h
    · exact hl h
    · exact not_mem_toHex (by decide) data h
  · simp only [List.length_append, List.length_cons, List.length_nil]
    omega

theorem oneT_emitLine_header (data : List UInt8) : OneT (emitLine headerPrefix data) :=
  oneT_of_hex (l := ['R', 'H', '9', ' ']) (by decide) (by decide) data

theorem oneT_emitLine_record (data : List UInt8) : OneT (emitLine recordPrefix data) :=
  oneT_of_hex (l := ['R', 'C', '9', ' ']) (by decide) (by decide) data

theorem oneT_summary (archive : TraceArchive) : OneT (summary archive) := by
  obtain ⟨cs, hcs, hT⟩ := summary_cons archive
  obtain ⟨body, hbody, -, -⟩ := (summary_isLine archive).ended
  have hlong : 6 ≤ (summary archive).length := by
    obtain ⟨cs', hcs'⟩ : ∃ cs', summary archive = 'T' :: 'R' :: 'A' :: 'C' :: 'E' :: 'R' :: cs' :=
      ⟨_, rfl⟩
    rw [hcs']
    exact Nat.le_add_left 6 cs'.length
  cases body with
  | nil =>
    rw [hbody] at hlong
    exact absurd hlong (by decide)
  | cons c body =>
    obtain ⟨rfl, hrest⟩ : c = 'T' ∧ body ++ ['\n'] = 'R' :: 'A' :: cs := by
      rw [hcs] at hbody
      simpa using hbody.symm
    refine ⟨⟨body, hbody, ?_⟩, hlong⟩
    intro hmem
    have hmem' : 'T' ∈ 'R' :: 'A' :: cs := hrest ▸ List.mem_append_left _ hmem
    exact hT (by simpa using hmem')

/-- What a header line shows. -/
theorem shown_header {data : List UInt8} (hown : cut.own = emitLine headerPrefix data)
    (hfree : ∀ p ∈ cut, PrefixFree p.1) (hjoined : ¬Joined cut) :
    shown cut = if Kept cut then some (.header (Trace.version, run cut)) else none := by
  have hline : OneT cut.own := hown ▸ oneT_emitLine_header data
  by_cases hkept : Kept cut
  · rw [if_pos hkept, shown_of_kept hkept, hown, emitLine_header, tagged_eq_some_iff]
    exact ⟨'9', _, by decide, .inl ⟨rfl, rfl⟩⟩
  · rw [if_neg hkept]
    by_contra hne
    obtain ⟨t, ht⟩ := Option.ne_none_iff_exists'.mp hne
    exact hkept (kept_of_shown hline hfree hjoined ht)

theorem shown_record {data : List UInt8} (hown : cut.own = emitLine recordPrefix data)
    (hfree : ∀ p ∈ cut, PrefixFree p.1) (hjoined : ¬Joined cut) :
    shown cut = if Kept cut then some (.record (Trace.version, run cut)) else none := by
  have hline : OneT cut.own := hown ▸ oneT_emitLine_record data
  by_cases hkept : Kept cut
  · rw [if_pos hkept, shown_of_kept hkept, hown, emitLine_record, tagged_eq_some_iff]
    exact ⟨'9', _, by decide, .inr ⟨rfl, rfl⟩⟩
  · rw [if_neg hkept]
    by_contra hne
    obtain ⟨t, ht⟩ := Option.ne_none_iff_exists'.mp hne
    exact hkept (kept_of_shown hline hfree hjoined ht)

/-- The summary shows nothing. -/
theorem shown_summary {archive : TraceArchive} (hown : cut.own = summary archive)
    (hfree : ∀ p ∈ cut, PrefixFree p.1) (hjoined : ¬Joined cut) : shown cut = none := by
  have hline : OneT cut.own := hown ▸ oneT_summary archive
  by_contra hne
  obtain ⟨t, ht⟩ := Option.ne_none_iff_exists'.mp hne
  rw [shown_of_kept (kept_of_shown hline hfree hjoined ht), hown] at ht
  obtain ⟨cs, hcs, -⟩ := summary_cons archive
  obtain ⟨c, cs', -, ⟨h, -⟩ | ⟨h, -⟩⟩ := tagged_eq_some_iff.mp ht
  · rw [hcs] at h
    simp at h
  · rw [hcs] at h
    simp at h

end

end Decode
end TensorSel4
