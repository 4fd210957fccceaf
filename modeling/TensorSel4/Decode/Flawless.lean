/-
When a log decodes without an error.

`Flawless stream first` says it of the log's lines alone: `first` is the first
valid header, each header line repeats it, and the record line at position `i`
is a whole record of its version with sequence number `i`.  These are exactly
the logs with error count zero, and what they decode to is what their record
lines say.
-/
import TensorSel4.Decode.Log

namespace TensorSel4
namespace Decode

/-- A record line without fault at position `i` of the record lines. -/
def CleanAt (version i : Nat) (p : Nat × List Char) : Prop :=
  p.1 = version ∧ ∃ rec, parseRecord p.2 = .ok rec ∧
    rec.kind ∈ (kindsByVersion version).getD [] ∧ rec.seq = i

structure Flawless (stream : List (List Char)) (first : Header × List Char) : Prop where
  found : firstHeader (headerLines stream) = some first
  repeated : ∀ p ∈ headerLines stream, (readHeader p).isSome ∧ p.2 = first.2
  clean : ∀ i p, (recordLines stream)[i]? = some p → CleanAt first.1.version i p

/-- The records that the record lines spell. -/
def payloadRecords (ps : List (Nat × List Char)) : List Record :=
  ps.filterMap fun p => (parseRecord p.2).toOption

/-! ## Headers -/

theorem headerFault_eq_false_iff {first : Header × List Char} {p : Nat × List Char} :
    headerFault (some first) p = false ↔ (readHeader p).isSome ∧ p.2 = first.2 := by
  rw [headerFault, Bool.or_eq_false_iff, Option.isNone_eq_false_iff, Option.map_some,
    bne_eq_false_iff_eq, Option.some_inj]
  exact and_congr_right fun _ => eq_comm

theorem headerFaults_eq_zero_iff {hs : List (Nat × List Char)} {first : Header × List Char}
    (h : firstHeader hs = some first) :
    headerFaults hs = 0 ↔ ∀ p ∈ hs, (readHeader p).isSome ∧ p.2 = first.2 := by
  rw [headerFaults, h, List.countP_eq_zero]
  refine forall₂_congr fun p _ => ?_
  rw [Bool.not_eq_true, headerFault_eq_false_iff]

/-! ## Records -/

section

variable {version : Nat} {t : Tally} {p : Nat × List Char}

theorem record_errors_eq_zero_iff :
    (t.record version p).errors = 0 ↔ t.errors = 0 ∧ CleanAt version t.expectedSeq p := by
  unfold Tally.record CleanAt
  by_cases hdigit : p.1 = version
  · rw [if_neg (not_not.mpr hdigit)]
    cases hrec : parseRecord p.2 with
    | error e => simp
    | ok rec =>
      by_cases hkind : rec.kind ∈ (kindsByVersion version).getD [] <;>
        by_cases hseq : rec.seq = t.expectedSeq <;> simp [hdigit, hkind, hseq]
  · rw [if_pos hdigit]
    simp [hdigit]

theorem record_of_clean {rec : Record} (hdigit : p.1 = version)
    (hrec : parseRecord p.2 = .ok rec) :
    (t.record version p).expectedSeq = rec.seq + 1 ∧
      (t.record version p).records = t.records ++ [rec] := by
  unfold Tally.record
  rw [if_neg (not_not.mpr hdigit), hrec]
  exact ⟨rfl, rfl⟩

end

theorem getElem?_snoc_iff {α : Type*} {P : Nat → α → Prop} (xs : List α) (x : α) :
    (∀ i y, (xs ++ [x])[i]? = some y → P i y) ↔
      (∀ i y, xs[i]? = some y → P i y) ∧ P xs.length x := by
  constructor
  · intro h
    constructor
    · intro i y hy
      have hlt : i < xs.length := (List.getElem?_eq_some_iff.mp hy).1
      apply h
      rw [List.getElem?_append_left hlt, hy]
    · apply h
      rw [List.getElem?_append_right (Nat.le_refl _), Nat.sub_self]
      rfl
  · intro h i y hy
    rcases Nat.lt_trichotomy i xs.length with hlt | rfl | hgt
    · rw [List.getElem?_append_left hlt] at hy
      exact h.1 i y hy
    · rw [List.getElem?_append_right (Nat.le_refl _), Nat.sub_self] at hy
      cases hy
      exact h.2
    · rw [List.getElem?_append_right (Nat.le_of_lt hgt),
        List.getElem?_eq_none (by rw [List.length_singleton]; omega)] at hy
      cases hy

/-- A tally without errors counts every line. -/
theorem tally_clean {version : Nat} (ps : List (Nat × List Char)) :
    ((tally version ps).errors = 0 ↔ ∀ i p, ps[i]? = some p → CleanAt version i p) ∧
      ((tally version ps).errors = 0 → (tally version ps).expectedSeq = ps.length ∧
        (tally version ps).records = payloadRecords ps) := by
  induction ps using List.reverseRecOn with
  | nil =>
    constructor
    · exact ⟨fun _ => nofun, fun _ => rfl⟩
    · exact fun _ => ⟨rfl, rfl⟩
  | append_singleton ps p ih =>
    obtain ⟨hiff, hclean⟩ := ih
    have hstep : (tally version (ps ++ [p])).errors = 0 ↔
        (tally version ps).errors = 0 ∧ CleanAt version ps.length p := by
      rw [tally_snoc, record_errors_eq_zero_iff]
      refine and_congr_right fun hzero => ?_
      rw [(hclean hzero).1]
    constructor
    · rw [hstep, hiff, getElem?_snoc_iff]
    · intro hzero
      obtain ⟨hzero', hdigit, rec, hrec, -, hseq⟩ := hstep.mp hzero
      obtain ⟨-, hrecords⟩ := hclean hzero'
      obtain ⟨hnext, hlast⟩ := record_of_clean (t := tally version ps) hdigit hrec
      rw [tally_snoc]
      constructor
      · rw [hnext, hseq, List.length_append, List.length_singleton]
      · rw [hlast, hrecords, payloadRecords, payloadRecords, List.filterMap_append]
        simp [hrec, Except.toOption]

/-! ## Logs -/

variable {stream : List (List Char)}

theorem logErrors_eq_zero_iff :
    logErrors stream = 0 ↔ ∃ first, Flawless stream first := by
  rw [logErrors]
  cases hfirst : firstHeader (headerLines stream) with
  | none =>
    constructor
    · intro h
      rw [if_pos rfl] at h
      omega
    · rintro ⟨first, h⟩
      cases hfirst.symm.trans h.found
  | some first =>
    have htally : logTally stream = tally first.1.version (recordLines stream) :=
      logTally_of_some hfirst
    rw [if_neg (Option.some_ne_none first), Nat.add_zero, Nat.add_eq_zero_iff,
      headerFaults_eq_zero_iff hfirst, htally, (tally_clean _).1]
    constructor
    · intro h
      exact ⟨first, hfirst, h.1, h.2⟩
    · rintro ⟨first', h⟩
      have heq : first = first' := Option.some.inj (hfirst.symm.trans h.found)
      rw [heq]
      exact ⟨h.repeated, h.clean⟩

theorem Flawless.records {first : Header × List Char} (h : Flawless stream first) :
    (logTally stream).records = payloadRecords (recordLines stream) := by
  have htally : logTally stream = tally first.1.version (recordLines stream) :=
    logTally_of_some h.found
  rw [htally]
  exact ((tally_clean _).2 ((tally_clean _).1.mpr h.clean)).2

end Decode
end TensorSel4
