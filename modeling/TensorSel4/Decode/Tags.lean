/-
The lines of a log that the patterns match, found in the text itself.

`lineTag` is what a line is to the decoder, `tags` what a text is.  Reading a text
from the front, a character at which neither pattern matches can be dropped, so
the tags of a text follow from the places where a pattern matches.
-/
import TensorSel4.Decode.Log
import TensorSel4.Text.Lines

namespace TensorSel4
namespace Decode

open Bytes Text

/-- A line that a pattern matches, with its digit and payload. -/
inductive Tagged
  | header (p : Nat × List Char)
  | record (p : Nat × List Char)
  deriving DecidableEq

namespace Tagged

def payload : Tagged → List Char
  | header p => p.2
  | record p => p.2

def header? : Tagged → Option (Nat × List Char)
  | header p => some p
  | record _ => none

def record? : Tagged → Option (Nat × List Char)
  | header _ => none
  | record p => some p

end Tagged

/-- A match at the start of a text. -/
def tagged (s : List Char) : Option Tagged :=
  match taggedLine 'H' s with
  | some p => some (.header p)
  | none => (taggedLine 'C' s).map .record

/-- What a line is to the decoder, which searches it for a header first. -/
def lineTag (s : List Char) : Option Tagged :=
  match headerLine s with
  | some p => some (.header p)
  | none => (recordLine s).map .record

def tags (s : List Char) : List Tagged := (readLines s).filterMap lineTag

theorem headerLines_tags (s : List Char) :
    headerLines (readLines s) = (tags s).filterMap Tagged.header? := by
  rw [headerLines, tags, List.filterMap_filterMap]
  apply List.filterMap_congr
  intro l _
  rw [lineTag]
  cases headerLine l with
  | some p => rfl
  | none => cases recordLine l <;> rfl

theorem recordLines_tags (s : List Char) :
    recordLines (readLines s) = (tags s).filterMap Tagged.record? := by
  rw [recordLines, tags, List.filterMap_filterMap]
  apply List.filterMap_congr
  intro l _
  rw [lineTag, plainRecordLine]
  cases headerLine l with
  | some p => rfl
  | none => cases recordLine l <;> rfl

theorem tagged_eq_none_iff {s : List Char} :
    tagged s = none ↔ taggedLine 'H' s = none ∧ taggedLine 'C' s = none := by
  rw [tagged]
  cases taggedLine 'H' s with
  | some p => simp
  | none => simp

/-! ## A match does not see past its line -/

/-- A character that a line goes on after. -/
def goesOn (c : Char) : Bool := c != '\n' && c != '\r'

theorem goesOn_of_lowerHex {c : Char} (h : isLowerHex c) : goesOn c := by
  have hn : c ≠ '\n' := by
    rintro rfl
    exact absurd h (by decide)
  have hr : c ≠ '\r' := by
    rintro rfl
    exact absurd h (by decide)
  simp [goesOn, hn, hr]

theorem goesOn_of_digit {c : Char} (h : '0' ≤ c ∧ c ≤ '9') : goesOn c :=
  goesOn_of_lowerHex (by simp [isLowerHex, h])

theorem taggedLine_eq_some_iff {tag : Char} {s : List Char} {p : Nat × List Char} :
    taggedLine tag s = some p ↔ ∃ c cs, s = 'T' :: 'R' :: tag :: c :: ' ' :: cs ∧
      ('0' ≤ c ∧ c ≤ '9') ∧ p = (c.toNat - 48, cs.takeWhile isLowerHex) := by
  constructor
  · intro h
    unfold taggedLine at h
    split at h
    · next t c cs =>
      split at h
      · next hmatch =>
        obtain ⟨rfl, hdigit⟩ := hmatch
        exact ⟨c, cs, rfl, hdigit, (Option.some.inj h).symm⟩
      · cases h
    · cases h
  · rintro ⟨c, cs, rfl, hdigit, rfl⟩
    rw [taggedLine, if_pos ⟨rfl, hdigit⟩]

theorem takeWhile_goesOn_readLines {s l : List Char} {ls : List (List Char)}
    (h : readLines s = l :: ls) : l.takeWhile goesOn = s.takeWhile goesOn := by
  induction s generalizing l ls with
  | nil => cases h
  | cons c s ih =>
    by_cases hn : c = '\n'
    · rw [hn, readLines_newline] at h
      cases h
      rw [hn]
      rfl
    by_cases hr : c = '\r'
    · rw [hr, readLines_return] at h
      rw [hr]
      split at h
      · next hhead =>
        obtain ⟨ds, rfl⟩ := List.head?_eq_some_iff.mp hhead
        rw [readLines_newline] at h
        cases h
        rfl
      · cases h
        rfl
    · have hgoes : goesOn c = true := by simp [goesOn, hn, hr]
      rw [readLines_cons hn hr] at h
      cases hrest : readLines s with
      | nil =>
        rw [hrest] at h
        cases h
        rw [eq_nil_of_readLines hrest]
      | cons l' ls' =>
        rw [hrest] at h
        cases h
        rw [List.takeWhile_cons_of_pos hgoes, List.takeWhile_cons_of_pos hgoes, ih hrest]

theorem taggedLine_takeWhile (tag : Char) (s : List Char) (htag : goesOn tag) :
    taggedLine tag (s.takeWhile goesOn) = taggedLine tag s := by
  cases h : taggedLine tag s with
  | some p =>
    obtain ⟨c, cs, rfl, hdigit, rfl⟩ := taggedLine_eq_some_iff.mp h
    have hcut : ('T' :: 'R' :: tag :: c :: ' ' :: cs).takeWhile goesOn =
        'T' :: 'R' :: tag :: c :: ' ' :: cs.takeWhile goesOn := by
      simp [goesOn_of_digit hdigit, htag, show goesOn 'T' = true from rfl,
        show goesOn 'R' = true from rfl, show goesOn ' ' = true from rfl]
    apply taggedLine_eq_some_iff.mpr
    refine ⟨c, cs.takeWhile goesOn, hcut, hdigit, ?_⟩
    rw [List.takeWhile_takeWhile]
    congr 2
    funext d
    have hd := @goesOn_of_lowerHex d
    grind
  | none =>
    cases hcut : taggedLine tag (s.takeWhile goesOn) with
    | none => rfl
    | some p =>
      obtain ⟨c, cs, heq, hdigit, -⟩ := taggedLine_eq_some_iff.mp hcut
      obtain ⟨rest, hrest⟩ := List.takeWhile_prefix (p := goesOn) (l := s)
      have hs : s = 'T' :: 'R' :: tag :: c :: ' ' :: (cs ++ rest) := by
        rw [← hrest, heq]
        rfl
      rw [taggedLine_eq_some_iff.mpr ⟨c, _, hs, hdigit, rfl⟩] at h
      cases h

theorem tagged_line {c : Char} {s l : List Char} {ls : List (List Char)}
    (h : readLines s = l :: ls) (hc : goesOn c) : tagged (c :: l) = tagged (c :: s) := by
  have hline : (c :: l).takeWhile goesOn = (c :: s).takeWhile goesOn := by
    rw [List.takeWhile_cons_of_pos hc, List.takeWhile_cons_of_pos hc, takeWhile_goesOn_readLines h]
  rw [tagged, tagged, ← taggedLine_takeWhile 'H' (c :: l) (by decide), hline,
    taggedLine_takeWhile 'H' _ (by decide), ← taggedLine_takeWhile 'C' (c :: l) (by decide),
    hline, taggedLine_takeWhile 'C' _ (by decide)]

/-! ## Reading on -/

theorem tags_newline (s : List Char) : tags ('\n' :: s) = tags s := by
  rw [tags, readLines_newline]
  exact List.filterMap_cons_none (by decide)

theorem tags_return (s : List Char) : tags ('\r' :: s) = tags s := by
  rw [tags, readLines_return]
  split
  · rfl
  · exact List.filterMap_cons_none (by decide)

/-- A character at which neither pattern matches. -/
theorem lineTag_cons {c : Char} {l : List Char} (h : tagged (c :: l) = none) :
    lineTag (c :: l) = lineTag l := by
  obtain ⟨hheader, hrecord⟩ := tagged_eq_none_iff.mp h
  rw [lineTag, headerLine, search_skip hheader, recordLine, search_skip hrecord]
  rfl

theorem tags_skip {c : Char} {s : List Char} (h : tagged (c :: s) = none) :
    tags (c :: s) = tags s := by
  by_cases hn : c = '\n'
  · rw [hn, tags_newline]
  by_cases hr : c = '\r'
  · rw [hr, tags_return]
  rw [tags, tags, readLines_cons hn hr]
  cases hs : readLines s with
  | nil =>
    have hnil : s = [] := eq_nil_of_readLines hs
    rw [hnil] at h
    exact List.filterMap_cons_none (lineTag_cons h)
  | cons l ls =>
    have hc : goesOn c = true := by simp [goesOn, hn, hr]
    have hline : lineTag (c :: l) = lineTag l := lineTag_cons ((tagged_line hs hc).trans h)
    rw [List.filterMap_cons, List.filterMap_cons, hline]

/-- A text in which neither pattern matches anywhere. -/
def Silent (s : List Char) : Prop := ∀ v, v <:+ s → tagged v = none

theorem tags_silent {s : List Char} (h : Silent s) : tags s = [] := by
  induction s with
  | nil => rfl
  | cons c s ih =>
    rw [tags_skip (h _ List.suffix_rfl)]
    exact ih fun v hv => h v (hv.trans (List.suffix_cons c s))

/-- A match at the start of a line that has no other. -/
theorem lineTag_match {c : Char} {l : List Char} {t : Tagged} (h : tagged (c :: l) = some t)
    (hl : lineTag l = none) : lineTag (c :: l) = some t := by
  have hheader : headerLine l = none := by
    cases hh : headerLine l with
    | none => rfl
    | some p =>
      rw [lineTag, hh] at hl
      cases hl
  rw [tagged] at h
  cases hmatch : taggedLine 'H' (c :: l) with
  | some p =>
    rw [hmatch] at h
    rw [lineTag, headerLine, search_of_match hmatch]
    exact h
  | none =>
    rw [hmatch] at h
    obtain ⟨p, hp, rfl⟩ := Option.map_eq_some_iff.mp h
    have hnone : headerLine (c :: l) = none := (search_skip hmatch).trans hheader
    rw [lineTag, hnone, recordLine, search_of_match hp]
    rfl

theorem tagged_head {c : Char} {s : List Char} {t : Tagged} (h : tagged (c :: s) = some t) :
    c = 'T' := by
  by_contra hne
  have hpat (tag : Char) : taggedLine tag (c :: s) = none := by
    by_contra hsome
    exact hne (Option.some.inj (taggedLine_head hsome))
  rw [tagged_eq_none_iff.mpr ⟨hpat 'H', hpat 'C'⟩] at h
  cases h

/-- The only match in a text is its tag. -/
theorem tags_match {c : Char} {s : List Char} {t : Tagged} (h : tagged (c :: s) = some t)
    (hs : Silent s) : tags (c :: s) = [t] := by
  have hc : c = 'T' := tagged_head h
  have hrest : (readLines s).filterMap lineTag = [] := tags_silent hs
  rw [tags, readLines_cons (by simp [hc]) (by simp [hc])]
  cases hlines : readLines s with
  | nil =>
    have hnil : s = [] := eq_nil_of_readLines hlines
    rw [hnil] at h
    exact List.filterMap_cons_some (lineTag_match h rfl)
  | cons l ls =>
    have hmatch : tagged (c :: l) = some t := (tagged_line hlines (by simp [hc, goesOn])).trans h
    rw [hlines] at hrest
    have hl : lineTag l = none := by
      by_contra hne
      obtain ⟨t', ht'⟩ := Option.ne_none_iff_exists'.mp hne
      rw [List.filterMap_cons_some ht'] at hrest
      cases hrest
    rw [List.filterMap_cons_none hl] at hrest
    rw [List.filterMap_cons_some (lineTag_match hmatch hl), hrest]

/-- Matches are looked for behind a text in which none starts. -/
theorem tags_append {a b : List Char} (h : ∀ v, v <:+ a → v ≠ [] → tagged (v ++ b) = none) :
    tags (a ++ b) = tags b := by
  induction a with
  | nil => rfl
  | cons c a ih =>
    have hc : tagged (c :: (a ++ b)) = none := h _ List.suffix_rfl (List.cons_ne_nil c a)
    rw [List.cons_append, tags_skip hc]
    exact ih fun v hv => h v (hv.trans (List.suffix_cons c a))

theorem tags_ended (a b : List Char) : tags (a ++ '\n' :: b) = tags (a ++ ['\n']) ++ tags b := by
  rw [tags, readLines_ended, List.filterMap_append]
  rfl

end Decode
end TensorSel4
