/-
Dumps damaged by other console text.

A kernel message can land inside a line of a dump, so a damaged log is the text
of the dump with `PrefixFree` texts put in anywhere.  `Noticed` says when the
decoder reports the damage or none is done, in terms of the dump and of where the
texts were put in.  What breaks a prefix takes the line with it, and the gap shows
only on a record after it: a dump whose last records are lost is not noticed.
-/
import TensorSel4.Decode.Inserted
import TensorSel4.Decode.Passing

namespace TensorSel4
namespace Decode

open Bytes Text Trace

/-! ## Damage on the lines of a log -/

/-- A line of the log that the decoder takes for one of a dump is not as it should be. -/
inductive Damaged (stream : List (List Char)) : Prop
  | noHeader (h : firstHeader (headerLines stream) = none)
  | header (first : Header × List Char) (p : Nat × List Char)
      (h : firstHeader (headerLines stream) = some first) (hp : p ∈ headerLines stream)
      (hbad : ¬((readHeader p).isSome ∧ p.2 = first.2))
  | record (first : Header × List Char) (i : Nat) (p : Nat × List Char)
      (h : firstHeader (headerLines stream) = some first) (hp : (recordLines stream)[i]? = some p)
      (hbad : ¬CleanAt first.1.version i p)

theorem damaged_iff {stream : List (List Char)} :
    Damaged stream ↔ ¬∃ first, Flawless stream first := by
  constructor
  · rintro h ⟨first, hflawless⟩
    cases h with
    | noHeader h => cases h.symm.trans hflawless.found
    | header first' p h hp hbad =>
      have heq : first' = first := Option.some.inj (h.symm.trans hflawless.found)
      rw [heq] at hbad
      exact hbad (hflawless.repeated p hp)
    | record first' i p h hp hbad =>
      have heq : first' = first := Option.some.inj (h.symm.trans hflawless.found)
      rw [heq] at hbad
      exact hbad (hflawless.clean i p hp)
  · intro h
    by_contra hnot
    apply h
    cases hfirst : firstHeader (headerLines stream) with
    | none => exact absurd (Damaged.noHeader hfirst) hnot
    | some first =>
      refine ⟨first, hfirst, ?_, ?_⟩
      · intro p hp
        by_contra hbad
        exact hnot (.header first p hfirst hp hbad)
      · intro i p hp
        by_contra hbad
        exact hnot (.record first i p hfirst hp hbad)

theorem reported_iff (archive : TraceArchive) (log : List Char) (consoleTx : Option Nat) :
    (∃ d, decode (readLines log) consoleTx = .ok d ∧
        (1 ≤ d.errors ∨ d.records = archive.stored.map hostRecord)) ↔
      Damaged (readLines log) ∨
        payloadRecords (recordLines (readLines log)) = archive.stored.map hostRecord := by
  obtain ⟨d, hdecode, -, hrecords, herrors, -⟩ := decode_reads (readLines log) consoleTx
  have hreported : 1 ≤ d.errors ↔ Damaged (readLines log) := by
    rw [damaged_iff, ← logErrors_eq_zero_iff, herrors]
    omega
  have hkept (h : ¬Damaged (readLines log)) :
      d.records = payloadRecords (recordLines (readLines log)) := by
    obtain ⟨first, hflawless⟩ := not_not.mp (mt damaged_iff.mpr h)
    rw [hrecords, hflawless.records]
  constructor
  · rintro ⟨d', hdecode', h⟩
    cases hdecode.symm.trans hdecode'
    by_cases hdamaged : Damaged (readLines log)
    · exact .inl hdamaged
    · rw [← hkept hdamaged]
      exact .inr (h.resolve_left (mt hreported.mp hdamaged))
  · intro h
    refine ⟨d, hdecode, ?_⟩
    by_cases hdamaged : Damaged (readLines log)
    · exact .inl (hreported.mpr hdamaged)
    · rw [hkept hdamaged]
      exact .inr (h.resolve_left hdamaged)

/-- A log without a fault passes for a dump of what its record lines spell. -/
theorem damaged_or_iff {log : List Char} {records : List Record} :
    Damaged (readLines log) ∨ payloadRecords (recordLines (readLines log)) = records ↔
      ∀ version header rs, PassesFor log version header rs → rs.map hostRecord = records := by
  constructor
  · intro h version header rs hpasses
    rw [← hpasses.payloadRecords]
    exact h.resolve_left fun hdamaged => damaged_iff.mp hdamaged hpasses.flawless
  · intro h
    by_cases hdamaged : Damaged (readLines log)
    · exact .inl hdamaged
    · obtain ⟨first, hflawless⟩ := not_not.mp (mt damaged_iff.mpr hdamaged)
      obtain ⟨rs, hpasses⟩ := hflawless.passesFor
      rw [hpasses.payloadRecords]
      exact .inr (h _ _ rs hpasses)

/-! ## What is put into a dump -/

/-- The text of a dump with other text put into it. -/
abbrev DamagedDump (stamp : Stamp) (cntfrq : UInt32) (archive : TraceArchive) :=
  Insertion PrefixFree (dumpArchive stamp cntfrq archive)

def IsHeader (cut : Cut) : Prop := cut.own.take 3 = ['T', 'R', 'H']

def IsRecord (cut : Cut) : Prop := cut.own.take 3 = ['T', 'R', 'C']

instance (cut : Cut) : Decidable (IsHeader cut) := inferInstanceAs (Decidable (_ = _))
instance (cut : Cut) : Decidable (IsRecord cut) := inferInstanceAs (Decidable (_ = _))

/-- The records whose lines keep their prefix. -/
def keptRecords (cuts : List Cut) (rs : List TraceRecord) : List TraceRecord :=
  (((cuts.filter IsRecord).zip rs).filter fun p => Kept p.1).map Prod.snd

/-- Sequence numbers without a gap from zero on, and kinds of the tracer's version. -/
def Numbered (rs : List TraceRecord) : Prop :=
  ∀ (j : Nat) (r : TraceRecord), rs[j]? = some r → r.seq.toNat = j ∧ 1 ≤ r.kind ∧ r.kind ≤ 6

section

variable {stamp : Stamp} {cntfrq : UInt32} {archive : TraceArchive}

/-- The damage is reported, or does none: no header keeps its prefix, or a line
that keeps it loses digits or gains some, or the records of the lines that keep
theirs are not numbered from zero on, or no record loses its line.  Where the texts
put in complete a line of their own out of the dump's characters, the log must not
pass for a dump of other records. -/
inductive Noticed (i : DamagedDump stamp cntfrq archive) : Prop
  | noHeader (hapart : ∀ cut ∈ i.cuts, ¬Joined cut)
      (h : ∀ cut ∈ i.cuts, IsHeader cut → ¬Kept cut)
  | torn (hapart : ∀ cut ∈ i.cuts, ¬Joined cut) (cut : Cut) (hcut : cut ∈ i.cuts)
      (hline : IsHeader cut ∨ IsRecord cut) (hkept : Kept cut) (htorn : Torn cut)
  | number (hapart : ∀ cut ∈ i.cuts, ¬Joined cut) (h : ¬Numbered (keptRecords i.cuts archive.stored))
  | noneLost (hapart : ∀ cut ∈ i.cuts, ¬Joined cut) (h : ∀ cut ∈ i.cuts, IsRecord cut → Kept cut)
  | joined (cut : Cut) (hcut : cut ∈ i.cuts) (hjoined : Joined cut)
      (h : ∀ version header rs, PassesFor i.text version header rs →
        rs.map hostRecord = archive.stored.map hostRecord)

end

/-! ## What the decoder gets to see -/

theorem fromhex_length {hexdata : List Char} {raw : List UInt8} (hhex : ∀ c ∈ hexdata, isLowerHex c)
    (h : fromhex hexdata = .ok raw) : hexdata.length = 2 * raw.length := by
  cases hraw : fromHex hexdata with
  | error e =>
    rw [fromhex, hraw] at h
    cases h
  | ok raw' =>
    rw [fromhex, hraw] at h
    cases h
    exact fromHexAt_length hhex hraw

theorem parseRecord_length {hexdata : List Char} {rec : Record}
    (hhex : ∀ c ∈ hexdata, isLowerHex c) (h : parseRecord hexdata = .ok rec) :
    hexdata.length = 2 * recordSize := by
  cases hraw : fromhex hexdata with
  | error e =>
    rw [parseRecord, hraw] at h
    cases h
  | ok raw =>
    by_cases hlen : raw.length = calcsize recordFormat
    · rw [fromhex_length hhex hraw, hlen]
      rfl
    · rw [parseRecord, hraw] at h
      change (if raw.length ≠ calcsize recordFormat then _ else _) = _ at h
      rw [if_pos hlen] at h
      cases h

theorem parseHeader_length {hexdata : List Char} {header : Header}
    (hhex : ∀ c ∈ hexdata, isLowerHex c) (h : parseHeader hexdata = .ok header) :
    hexdata.length = 2 * headerSize := by
  cases hraw : fromhex hexdata with
  | error e =>
    rw [parseHeader, hraw] at h
    cases h
  | ok raw =>
    by_cases hlen : raw.length = calcsize headerFormat
    · rw [fromhex_length hhex hraw, hlen]
      rfl
    · rw [parseHeader, hraw] at h
      change (if raw.length ≠ calcsize headerFormat then _ else _) = _ at h
      rw [if_pos hlen] at h
      cases h

theorem readHeader_length {p : Nat × List Char} (hhex : ∀ c ∈ p.2, isLowerHex c)
    (h : (readHeader p).isSome) : p.2.length = 2 * headerSize := by
  cases hparse : parseHeader p.2 with
  | error e =>
    rw [readHeader, hparse] at h
    cases h
  | ok header => exact parseHeader_length hhex hparse

/-- A payload that is too short or too long is an error. -/
theorem damaged_of_length {log : List Char} {t : Tagged} (ht : t ∈ tags log)
    (hhex : ∀ c ∈ t.payload, isLowerHex c)
    (hlen : t.payload.length ≠ 2 * (if t.header?.isSome then headerSize else recordSize)) :
    Damaged (readLines log) := by
  apply damaged_iff.mpr
  rintro ⟨first, hflawless⟩
  cases t with
  | header p =>
    have hp : p ∈ headerLines (readLines log) := by
      rw [headerLines_tags]
      exact List.mem_filterMap.mpr ⟨_, ht, rfl⟩
    exact hlen (readHeader_length hhex (hflawless.repeated p hp).1)
  | record p =>
    have hp : p ∈ recordLines (readLines log) := by
      rw [recordLines_tags]
      exact List.mem_filterMap.mpr ⟨_, ht, rfl⟩
    obtain ⟨i, hi⟩ := List.mem_iff_getElem?.mp hp
    obtain ⟨-, rec, hrec, -⟩ := hflawless.clean i p hi
    exact hlen (parseRecord_length hhex hrec)

section

variable {stamp : Stamp} {cntfrq : UInt32} {archive : TraceArchive}

/-- The lines of a dump. -/
theorem mem_dumpArchive {l : List Char} (h : l ∈ dumpArchive stamp cntfrq archive) :
    l = sendHeader stamp cntfrq ∨ (∃ r, l = emitRecord r) ∨ l = summary archive := by
  have hrecords (since : Nat) (rs : List TraceRecord)
      (hl : l ∈ dumpRecords stamp cntfrq since rs) :
      l = sendHeader stamp cntfrq ∨ ∃ r, l = emitRecord r := by
    induction rs generalizing since with
    | nil => exact absurd hl List.not_mem_nil
    | cons r rs ih =>
      unfold dumpRecords at hl
      split at hl
      · rcases List.mem_cons.mp hl with hl | hl
        · exact .inl hl
        · rcases List.mem_cons.mp hl with hl | hl
          · exact .inr ⟨r, hl⟩
          · exact ih _ hl
      · rcases List.mem_cons.mp hl with hl | hl
        · exact .inr ⟨r, hl⟩
        · exact ih _ hl
  rcases List.mem_append.mp h with h | h
  · rcases hrecords _ _ h with h | h
    · exact .inl h
    · exact .inr (.inl h)
  · exact .inr (.inr (List.mem_singleton.mp h))

theorem oneT_of_mem {l : List Char} (h : l ∈ dumpArchive stamp cntfrq archive) : OneT l := by
  rcases mem_dumpArchive h with rfl | ⟨r, rfl⟩ | rfl
  · exact oneT_emitLine_header _
  · exact oneT_emitLine_record _
  · exact oneT_summary archive

end

theorem tags_cuts {cuts : List Cut} {tail : List Char} (hline : ∀ cut ∈ cuts, OneT cut.own)
    (hfree : ∀ cut ∈ cuts, ∀ p ∈ cut, PrefixFree p.1) (hapart : ∀ cut ∈ cuts, ¬Joined cut)
    (htail : PrefixFree tail) : tags (cuts.flatMap Cut.outcome ++ tail) = cuts.filterMap shown := by
  induction cuts with
  | nil => exact tags_silent (silent_of_prefixFree htail)
  | cons cut cuts ih =>
    have hrest := ih (fun c hc => hline c (List.mem_cons_of_mem _ hc))
      (fun c hc => hfree c (List.mem_cons_of_mem _ hc))
      (fun c hc => hapart c (List.mem_cons_of_mem _ hc))
    have hcut := tags_outcome (hline cut List.mem_cons_self) (hfree cut List.mem_cons_self)
      (hapart cut List.mem_cons_self)
    obtain ⟨body, hown, -⟩ := (hline cut List.mem_cons_self).first
    obtain ⟨a, ha⟩ := Cut.outcome_ended (l := 'T' :: body) hown
    rw [ha] at hcut
    rw [List.flatMap_cons, ha, List.append_assoc, List.append_assoc, List.singleton_append,
      tags_ended, hcut, hrest]
    cases hshown : shown cut with
    | none => rw [List.filterMap_cons_none hshown]; rfl
    | some t => rw [List.filterMap_cons_some hshown]; rfl

/-! ## Lines that show what they held -/

/-- A line that shows its payload as it was if it shows anything. -/
structure Fine (cut : Cut) : Prop where
  free : ∀ p ∈ cut, PrefixFree p.1
  apart : ¬Joined cut
  whole : IsHeader cut ∨ IsRecord cut → Kept cut → ¬Torn cut

section

variable {cut : Cut}

theorem isHeader_of_own {data : List UInt8} (h : cut.own = emitLine headerPrefix data) :
    IsHeader cut ∧ ¬IsRecord cut := by
  rw [IsHeader, IsRecord, h, emitLine_header]
  exact ⟨rfl, by simp⟩

theorem isRecord_of_own {data : List UInt8} (h : cut.own = emitLine recordPrefix data) :
    IsRecord cut ∧ ¬IsHeader cut := by
  rw [IsHeader, IsRecord, h, emitLine_record]
  exact ⟨rfl, by simp⟩

theorem not_isRecord_summary {archive : TraceArchive} (h : cut.own = summary archive) :
    ¬IsHeader cut ∧ ¬IsRecord cut := by
  obtain ⟨cs, hcs, -⟩ := summary_cons archive
  rw [IsHeader, IsRecord, h, hcs]
  simp

theorem Fine.shown_header {data : List UInt8} (h : Fine cut)
    (hown : cut.own = emitLine headerPrefix data) :
    shown cut = if Kept cut then some (.header (Trace.version, toHex data)) else none := by
  have hshown := Decode.shown_header hown h.free h.apart
  by_cases hkept : Kept cut
  · rw [if_pos hkept] at hshown ⊢
    have hdrop : cut.own.drop 5 = toHex data ++ ['\n'] := by
      rw [hown, emitLine_header]
      rfl
    rw [hshown, run_eq hdrop (toHex_lowerHex data) h.apart
      (h.whole (.inl (isHeader_of_own hown).1) hkept) hshown rfl]
  · rw [hshown, if_neg hkept, if_neg hkept]

theorem Fine.shown_record {data : List UInt8} (h : Fine cut)
    (hown : cut.own = emitLine recordPrefix data) :
    shown cut = if Kept cut then some (.record (Trace.version, toHex data)) else none := by
  have hshown := Decode.shown_record hown h.free h.apart
  by_cases hkept : Kept cut
  · rw [if_pos hkept] at hshown ⊢
    have hdrop : cut.own.drop 5 = toHex data ++ ['\n'] := by
      rw [hown, emitLine_record]
      rfl
    rw [hshown, run_eq hdrop (toHex_lowerHex data) h.apart
      (h.whole (.inr (isRecord_of_own hown).1) hkept) hshown rfl]
  · rw [hshown, if_neg hkept, if_neg hkept]

end

section

variable {stamp : Stamp} {cntfrq : UInt32} {archive : TraceArchive} {cuts : List Cut}

/-- Headers that show are the dump's. -/
theorem header_of_shown (hown : ∀ cut ∈ cuts, cut.own ∈ dumpArchive stamp cntfrq archive)
    (hfine : ∀ cut ∈ cuts, Fine cut) :
    ∀ p ∈ (cuts.filterMap shown).filterMap Tagged.header?,
      p = (Trace.version, toHex (headerBytes stamp cntfrq)) := by
  intro p hp
  obtain ⟨t, ht, hpt⟩ := List.mem_filterMap.mp hp
  obtain ⟨cut, hcut, hshown⟩ := List.mem_filterMap.mp ht
  have hf := hfine cut hcut
  rcases mem_dumpArchive (hown cut hcut) with h | ⟨r, h⟩ | h
  · rw [hf.shown_header h] at hshown
    split at hshown
    · cases hshown
      cases hpt
      rfl
    · cases hshown
  · rw [hf.shown_record h] at hshown
    split at hshown
    · cases hshown
      cases hpt
    · cases hshown
  · rw [shown_summary h hf.free hf.apart] at hshown
    cases hshown

/-- A header shows if one keeps its prefix. -/
theorem exists_header_iff (hown : ∀ cut ∈ cuts, cut.own ∈ dumpArchive stamp cntfrq archive)
    (hfine : ∀ cut ∈ cuts, Fine cut) :
    (cuts.filterMap shown).filterMap Tagged.header? ≠ [] ↔
      ∃ cut ∈ cuts, IsHeader cut ∧ Kept cut := by
  constructor
  · intro hne
    obtain ⟨p, hp⟩ := List.exists_mem_of_ne_nil _ hne
    obtain ⟨t, ht, hpt⟩ := List.mem_filterMap.mp hp
    obtain ⟨cut, hcut, hshown⟩ := List.mem_filterMap.mp ht
    have hf := hfine cut hcut
    refine ⟨cut, hcut, ?_⟩
    rcases mem_dumpArchive (hown cut hcut) with h | ⟨r, h⟩ | h
    · exact ⟨(isHeader_of_own h).1, kept_of_shown (oneT_of_mem (hown cut hcut)) hf.free hf.apart hshown⟩
    · rw [hf.shown_record h] at hshown
      split at hshown
      · cases hshown
        cases hpt
      · cases hshown
    · rw [shown_summary h hf.free hf.apart] at hshown
      cases hshown
  · intro h
    obtain ⟨cut, hcut, hheader, hkept⟩ := h
    have hshown : shown cut =
        some (.header (Trace.version, toHex (headerBytes stamp cntfrq))) := by
      rcases mem_dumpArchive (hown cut hcut) with h | ⟨r, h⟩ | h
      · rw [(hfine cut hcut).shown_header h, if_pos hkept]
      · exact absurd hheader (isRecord_of_own h).2
      · exact absurd hheader (not_isRecord_summary h).1
    apply List.ne_nil_of_mem
    exact List.mem_filterMap.mpr ⟨_, List.mem_filterMap.mpr ⟨cut, hcut, hshown⟩, rfl⟩

theorem keptRecords_skip {cut : Cut} (h : ¬IsRecord cut) (rs : List TraceRecord) :
    keptRecords (cut :: cuts) rs = keptRecords cuts rs := by
  rw [keptRecords, List.filter_cons_of_neg (by simpa using h)]
  rfl

theorem keptRecords_cons {cut : Cut} (h : IsRecord cut) (r : TraceRecord) (rs : List TraceRecord) :
    keptRecords (cut :: cuts) (r :: rs) =
      if Kept cut then r :: keptRecords cuts rs else keptRecords cuts rs := by
  rw [keptRecords, List.filter_cons_of_pos (by simpa using h), List.zip_cons_cons]
  by_cases hkept : Kept cut
  · rw [List.filter_cons_of_pos (by simpa using hkept), if_pos hkept]
    rfl
  · rw [List.filter_cons_of_neg (by simpa using hkept), if_neg hkept]
    rfl

theorem records_cons {cut : Cut} {r : TraceRecord} (h : Fine cut) (hown : cut.own = emitRecord r)
    (cuts : List Cut) :
    ((cut :: cuts).filterMap shown).filterMap Tagged.record? =
      if Kept cut then (Trace.version, toHex r.bytes) :: (cuts.filterMap shown).filterMap Tagged.record?
      else (cuts.filterMap shown).filterMap Tagged.record? := by
  have hshown := h.shown_record hown
  by_cases hkept : Kept cut
  · rw [if_pos hkept] at hshown
    rw [List.filterMap_cons_some hshown, if_pos hkept]
    rfl
  · rw [if_neg hkept] at hshown
    rw [List.filterMap_cons_none hshown, if_neg hkept]

theorem records_skip {cut : Cut} (h : Fine cut) (hown : cut.own = sendHeader stamp cntfrq)
    (cuts : List Cut) :
    ((cut :: cuts).filterMap shown).filterMap Tagged.record? =
      (cuts.filterMap shown).filterMap Tagged.record? := by
  have hshown := h.shown_header hown
  by_cases hkept : Kept cut
  · rw [if_pos hkept] at hshown
    rw [List.filterMap_cons_some hshown, List.filterMap_cons_none rfl]
  · rw [if_neg hkept] at hshown
    rw [List.filterMap_cons_none hshown]

/-- The records that show are those whose lines keep their prefix. -/
theorem records_shown (since : Nat) (rs : List TraceRecord) {cuts : List Cut}
    (hown : cuts.map Cut.own = dumpRecords stamp cntfrq since rs ++ [summary archive])
    (hfine : ∀ cut ∈ cuts, Fine cut) :
    (cuts.filterMap shown).filterMap Tagged.record? =
      (keptRecords cuts rs).map fun r => (Trace.version, toHex r.bytes) := by
  induction rs generalizing since cuts with
  | nil =>
    obtain ⟨cut, rfl, hcut⟩ := List.map_eq_singleton_iff.mp hown
    have hf := hfine cut List.mem_cons_self
    have hshown : shown cut = none := shown_summary hcut hf.free hf.apart
    rw [List.filterMap_cons_none hshown, keptRecords_skip (not_isRecord_summary hcut).2]
    rfl
  | cons r rs ih =>
    -- A record line, behind the header line if one is due.
    have hrecord (since : Nat) (cuts : List Cut)
        (hown : cuts.map Cut.own =
          emitRecord r :: (dumpRecords stamp cntfrq since rs ++ [summary archive]))
        (hfine : ∀ cut ∈ cuts, Fine cut) :
        (cuts.filterMap shown).filterMap Tagged.record? =
          (keptRecords cuts (r :: rs)).map fun r => (Trace.version, toHex r.bytes) := by
      obtain ⟨cut, cuts, rfl, hcut, hrest⟩ := List.map_eq_cons_iff.mp hown
      have hih := ih since hrest fun c hc => hfine c (List.mem_cons_of_mem _ hc)
      rw [records_cons (hfine cut List.mem_cons_self) hcut, hih,
        keptRecords_cons (isRecord_of_own hcut).1]
      split <;> rfl
    unfold dumpRecords at hown
    split at hown
    · obtain ⟨cut, cuts, rfl, hcut, hrest⟩ := List.map_eq_cons_iff.mp hown
      rw [records_skip (hfine cut List.mem_cons_self) hcut,
        keptRecords_skip (isHeader_of_own hcut).2]
      exact hrecord _ _ hrest fun c hc => hfine c (List.mem_cons_of_mem _ hc)
    · exact hrecord _ _ hown hfine

end

/-! ## When the damage is noticed -/

/-- Lines of one header and of the records `rs` are flawless if these are numbered. -/
theorem flawless_iff {stream : List (List Char)} {stamp : Stamp} {cntfrq : UInt32}
    {rs : List TraceRecord} (hne : headerLines stream ≠ [])
    (hheaders : ∀ p ∈ headerLines stream, p = (Trace.version, toHex (headerBytes stamp cntfrq)))
    (hrecords : recordLines stream = rs.map fun r => (Trace.version, toHex r.bytes)) :
    (∃ first, Flawless stream first) ↔ Numbered rs := by
  have hfound : firstHeader (headerLines stream) =
      some (hostHeader stamp cntfrq, toHex (headerBytes stamp cntfrq)) := by
    cases hlines : headerLines stream with
    | nil => exact absurd hlines hne
    | cons p ps =>
      have hp := hheaders p (hlines ▸ List.mem_cons_self)
      rw [hp, firstHeader, List.findSome?_cons, readHeader_bytes]
      rfl
  have hclean (j : Nat) (r : TraceRecord) :
      CleanAt Trace.version j (Trace.version, toHex r.bytes) ↔
        r.seq.toNat = j ∧ 1 ≤ r.kind ∧ r.kind ≤ 6 := by
    rw [CleanAt, parseRecord_bytes]
    constructor
    · rintro ⟨-, rec, hrec, hkind, hseq⟩
      cases hrec
      exact ⟨hseq, kind_known.mp hkind⟩
    · intro h
      exact ⟨rfl, _, rfl, kind_known.mpr h.2, h.1⟩
  constructor
  · intro h j r hr
    obtain ⟨first, hflawless⟩ := h
    cases hflawless.found.symm.trans hfound
    apply (hclean j r).mp
    apply hflawless.clean
    rw [hrecords, List.getElem?_map, hr]
    rfl
  · intro h
    refine ⟨_, hfound, ?_, ?_⟩
    · intro p hp
      rw [hheaders p hp, readHeader_bytes]
      exact ⟨rfl, rfl⟩
    · intro j p hp
      rw [hrecords, List.getElem?_map] at hp
      obtain ⟨r, hr, rfl⟩ := Option.map_eq_some_iff.mp hp
      exact (hclean j r).mpr (h j r hr)

section

variable {stamp : Stamp} {cntfrq : UInt32} {archive : TraceArchive}
  (i : DamagedDump stamp cntfrq archive)

theorem own_mem {cut : Cut} (h : cut ∈ i.cuts) : cut.own ∈ dumpArchive stamp cntfrq archive := by
  rw [← i.own_cuts]
  exact List.mem_map_of_mem h

theorem tags_text (hapart : ∀ cut ∈ i.cuts, ¬Joined cut) : tags i.text = i.cuts.filterMap shown :=
  tags_cuts (fun _ hc => oneT_of_mem (own_mem i hc)) i.free_cuts hapart i.free_tail

/-- Lines that lose or gain digits are an error. -/
theorem damaged_of_torn (hapart : ∀ cut ∈ i.cuts, ¬Joined cut) {cut : Cut} (hcut : cut ∈ i.cuts)
    (hline : IsHeader cut ∨ IsRecord cut) (hkept : Kept cut) (htorn : Torn cut) :
    Damaged (readLines i.text) := by
  have hfree := i.free_cuts cut hcut
  have hhex : ∀ c ∈ run cut, isLowerHex c := fun c hc => List.mem_takeWhile_imp hc
  have hmem (t : Tagged) (h : shown cut = some t) : t ∈ tags i.text := by
    rw [tags_text i hapart]
    exact List.mem_filterMap.mpr ⟨cut, hcut, h⟩
  have hlen : cut.length = cut.own.length := (Cut.own_length cut).symm
  rcases mem_dumpArchive (own_mem i hcut) with h | ⟨r, h⟩ | h
  · have hshown := shown_header h hfree (hapart cut hcut)
    rw [if_pos hkept] at hshown
    apply damaged_of_length (hmem _ hshown) hhex
    intro heq
    apply htorn
    rw [hlen, h, sendHeader, emitLine_header]
    simp only [List.length_cons, List.length_append, toHex_length, headerBytes_length,
      List.length_nil]
    exact congrArg (· + 6) heq
  · have hshown := shown_record h hfree (hapart cut hcut)
    rw [if_pos hkept] at hshown
    apply damaged_of_length (hmem _ hshown) hhex
    intro heq
    apply htorn
    rw [hlen, h, emitRecord, emitLine_record]
    simp only [List.length_cons, List.length_append, toHex_length, TraceRecord.bytes_length,
      List.length_nil]
    exact congrArg (· + 6) heq
  · have hnot := not_isRecord_summary h
    exact absurd hline (not_or.mpr hnot)

/-- Every record of the archive has its line. -/
theorem recordCuts_length : (i.cuts.filter IsRecord).length = archive.stored.length := by
  have hdump (since : Nat) (rs : List TraceRecord) :
      ((dumpRecords stamp cntfrq since rs).filter (·.take 3 = ['T', 'R', 'C'])).length =
        rs.length := by
    have hheader : (sendHeader stamp cntfrq).take 3 ≠ ['T', 'R', 'C'] := by
      rw [sendHeader, emitLine_header]
      simp
    have hrecord (r : TraceRecord) : (emitRecord r).take 3 = ['T', 'R', 'C'] := by
      rw [emitRecord, emitLine_record]
      rfl
    induction rs generalizing since with
    | nil => rfl
    | cons r rs ih =>
      unfold dumpRecords
      split <;> simp [hheader, hrecord, ih]
  have hsummary : (summary archive).take 3 ≠ ['T', 'R', 'C'] := by
    obtain ⟨cs, hcs, -⟩ := summary_cons archive
    rw [hcs]
    simp
  have hown : (i.cuts.filter IsRecord).map Cut.own =
      (dumpArchive stamp cntfrq archive).filter (·.take 3 = ['T', 'R', 'C']) := by
    have hcuts := congrArg (List.filter fun l => decide (l.take 3 = ['T', 'R', 'C'])) i.own_cuts
    rw [List.filter_map] at hcuts
    exact hcuts
  rw [← List.length_map Cut.own, hown, dumpArchive, List.filter_append, List.length_append,
    dumpTraceLines, hdump]
  simp [hsummary]

theorem keptRecords_of_noneLost (h : ∀ cut ∈ i.cuts, IsRecord cut → Kept cut) :
    keptRecords i.cuts archive.stored = archive.stored := by
  have hall : ∀ p ∈ (i.cuts.filter IsRecord).zip archive.stored, Kept p.1 := by
    intro p hp
    obtain ⟨hcut, hrecord⟩ := List.mem_filter.mp (List.of_mem_zip hp).1
    exact h p.1 hcut (by simpa using hrecord)
  rw [keptRecords, List.filter_eq_self.mpr (by simpa using hall)]
  exact List.map_snd_zip (recordCuts_length i).ge

theorem noneLost_of_length
    (h : (keptRecords i.cuts archive.stored).length = archive.stored.length) :
    ∀ cut ∈ i.cuts, IsRecord cut → Kept cut := by
  have hlen := recordCuts_length i
  have hzip : ((i.cuts.filter IsRecord).zip archive.stored).length = archive.stored.length := by
    rw [List.length_zip]
    omega
  have hcuts : ((i.cuts.filter IsRecord).zip archive.stored).map Prod.fst =
      i.cuts.filter IsRecord := List.map_fst_zip (by omega)
  rw [keptRecords, List.length_map, ← hzip, List.length_filter_eq_length_iff] at h
  intro cut hcut hrecord
  have hmem : cut ∈ i.cuts.filter IsRecord := List.mem_filter.mpr ⟨hcut, by simpa using hrecord⟩
  rw [← hcuts] at hmem
  obtain ⟨p, hp, rfl⟩ := List.mem_map.mp hmem
  simpa using h p hp

/-- Of numbered records, those that keep their lines are numbered too if only the
last ones lose theirs. -/
theorem numbered_keptRecords_iff (h : Numbered archive.stored) :
    Numbered (keptRecords i.cuts archive.stored) ↔
      keptRecords i.cuts archive.stored <+: archive.stored := by
  have hsub : keptRecords i.cuts archive.stored ⊆ archive.stored := by
    intro r hr
    obtain ⟨p, hp, rfl⟩ := List.mem_map.mp hr
    exact (List.of_mem_zip (List.mem_filter.mp hp).1).2
  constructor
  · intro hkept
    rw [List.prefix_iff_getElem?]
    intro j hj
    have hr := List.getElem?_eq_getElem hj
    obtain ⟨k, hk⟩ := List.mem_iff_getElem?.mp (hsub (List.getElem_mem hj))
    have heq : j = k := (hkept j _ hr).1.symm.trans (h k _ hk).1
    subst heq
    exact hk
  · intro hprefix j r hr
    obtain ⟨hj, rfl⟩ := List.getElem?_eq_some_iff.mp hr
    apply h
    rw [List.prefix_iff_getElem?.mp hprefix j hj]

/-- Where no texts join with the dump, what the decoder finds is what was lost. -/
theorem damaged_iff_of_apart (hapart : ∀ cut ∈ i.cuts, ¬Joined cut)
    (hwhole : ∀ cut ∈ i.cuts, IsHeader cut ∨ IsRecord cut → Kept cut → ¬Torn cut) :
    (Damaged (readLines i.text) ↔ (∀ cut ∈ i.cuts, IsHeader cut → ¬Kept cut) ∨
        ¬Numbered (keptRecords i.cuts archive.stored)) ∧
      payloadRecords (recordLines (readLines i.text)) =
        (keptRecords i.cuts archive.stored).map hostRecord := by
  have hfine : ∀ cut ∈ i.cuts, Fine cut :=
    fun cut hcut => ⟨i.free_cuts cut hcut, hapart cut hcut, hwhole cut hcut⟩
  have hown : ∀ cut ∈ i.cuts, cut.own ∈ dumpArchive stamp cntfrq archive :=
    fun _ hcut => own_mem i hcut
  have hheaders := header_of_shown hown hfine
  have hexists := exists_header_iff hown hfine
  have hrecords := records_shown headerInterval archive.stored i.own_cuts hfine
  rw [← tags_text i hapart, ← headerLines_tags] at hheaders hexists
  rw [← tags_text i hapart, ← recordLines_tags] at hrecords
  constructor
  · rw [damaged_iff]
    by_cases hne : headerLines (readLines i.text) = []
    · have hnone : ∀ cut ∈ i.cuts, IsHeader cut → ¬Kept cut := by
        intro cut hcut hheader hkept
        exact hexists.mpr ⟨cut, hcut, hheader, hkept⟩ hne
      have hflawless : ¬∃ first, Flawless (readLines i.text) first := by
        rintro ⟨first, h⟩
        have hfound := h.found
        rw [hne] at hfound
        cases hfound
      exact iff_of_true hflawless (.inl hnone)
    · obtain ⟨cut, hcut, hheader, hkept⟩ := hexists.mp hne
      rw [flawless_iff hne hheaders hrecords]
      constructor
      · exact .inr
      · intro h
        exact h.resolve_left fun hnone => hnone cut hcut hheader hkept
  · rw [hrecords, payloadRecords_stored]

theorem noticed_iff :
    Damaged (readLines i.text) ∨
        payloadRecords (recordLines (readLines i.text)) = archive.stored.map hostRecord ↔
      Noticed i := by
  by_cases hapart : ∀ cut ∈ i.cuts, ¬Joined cut
  · by_cases hwhole : ∀ cut ∈ i.cuts, IsHeader cut ∨ IsRecord cut → Kept cut → ¬Torn cut
    · obtain ⟨hdamaged, hrecords⟩ := damaged_iff_of_apart i hapart hwhole
      rw [hdamaged, hrecords]
      constructor
      · rintro ((hnone | hnumber) | hall)
        · exact .noHeader hapart hnone
        · exact .number hapart hnumber
        · have hlength := congrArg List.length hall
          rw [List.length_map, List.length_map] at hlength
          exact .noneLost hapart (noneLost_of_length i hlength)
      · intro h
        cases h with
        | noHeader _ h => exact .inl (.inl h)
        | torn _ cut hcut hline hkept htorn => exact absurd htorn (hwhole cut hcut hline hkept)
        | number _ h => exact .inl (.inr h)
        | noneLost _ h =>
          rw [keptRecords_of_noneLost i h]
          exact .inr rfl
        | joined cut hcut hjoined _ => exact absurd hjoined (hapart cut hcut)
    · push Not at hwhole
      obtain ⟨cut, hcut, hline, hkept, htorn⟩ := hwhole
      exact iff_of_true (.inl (damaged_of_torn i hapart hcut hline hkept htorn))
        (.torn hapart cut hcut hline hkept htorn)
  · constructor
    · intro h
      push Not at hapart
      obtain ⟨cut, hcut, hjoined⟩ := hapart
      exact .joined cut hcut hjoined (damaged_or_iff.mp h)
    · intro h
      cases h with
      | noHeader h _ | torn h _ _ _ _ _ | number h _ | noneLost h _ => exact absurd h hapart
      | joined _ _ _ h => exact damaged_or_iff.mpr h

end

/-- For all other text put into a dump: the damage is reported, or the records come
out all the same, exactly when it is `Noticed`. -/
theorem damage_reported_iff (stamp : Stamp) (cntfrq : UInt32) (archive : TraceArchive)
    (consoleTx : Option Nat) :
    (∀ log, Inserted PrefixFree (dumpArchive stamp cntfrq archive).flatten log ↔
      ∃ i : DamagedDump stamp cntfrq archive, i.text = log) ∧
    ∀ i : DamagedDump stamp cntfrq archive,
      (∃ d, decode (readLines i.text) consoleTx = .ok d ∧
          (1 ≤ d.errors ∨ d.records = archive.stored.map hostRecord)) ↔ Noticed i := by
  constructor
  · intro log
    exact Insertion.inserted_iff
  · intro i
    exact (reported_iff archive i.text consoleTx).trans (noticed_iff i)

/-! ## Losing the last record -/

/-- A log that has lost record lines of a flawless one, from the last on. -/
theorem Flawless.of_prefix {stream stream' : List (List Char)} {first : Header × List Char}
    (h : Flawless stream first) (hheaders : headerLines stream' = headerLines stream)
    (hrecords : recordLines stream' <+: recordLines stream) : Flawless stream' first := by
  refine ⟨hheaders ▸ h.found, hheaders ▸ h.repeated, ?_⟩
  intro i p hp
  have hlt : i < (recordLines stream').length := (List.getElem?_eq_some_iff.mp hp).1
  apply h.clean
  rw [List.prefix_iff_getElem?.mp hrecords i hlt, ← hp, List.getElem?_eq_getElem hlt]

/-- A record line with `x` inside its prefix. -/
def brokenRecord (r : TraceRecord) : List Char :=
  ['T', 'R', 'x', 'C', '9', ' '] ++ toHex r.bytes ++ ['\n']

theorem brokenRecord_plain (r : TraceRecord) : Plain (brokenRecord r) := by
  have hT : 'T' ∉ 'x' :: 'C' :: '9' :: ' ' :: (toHex r.bytes ++ ['\n']) := by
    have htail : 'T' ∉ toHex r.bytes ++ ['\n'] := not_mem_hex_tail (by decide) (by decide) _
    simpa using htail
  exact ⟨search_taggedLine_other (by decide) hT, search_taggedLine_other (by decide) hT⟩

theorem brokenRecord_isLine (r : TraceRecord) : IsLine (brokenRecord r) :=
  hex_isLine (by decide) (by decide) r.bytes

theorem dumpRecords_snoc (stamp : Stamp) (cntfrq : UInt32) (since : Nat) (rs : List TraceRecord)
    (r : TraceRecord) :
    ∃ pre, dumpRecords stamp cntfrq since (rs ++ [r]) = pre ++ [emitRecord r] := by
  induction rs generalizing since with
  | nil =>
    rw [List.nil_append]
    unfold dumpRecords
    split
    · exact ⟨[sendHeader stamp cntfrq], rfl⟩
    · exact ⟨[], rfl⟩
  | cons r' rs ih =>
    rw [List.cons_append]
    unfold dumpRecords
    split
    · obtain ⟨pre, hpre⟩ := ih 1
      rw [hpre]
      exact ⟨sendHeader stamp cntfrq :: emitRecord r' :: pre, rfl⟩
    · obtain ⟨pre, hpre⟩ := ih (since + 1)
      rw [hpre]
      exact ⟨emitRecord r' :: pre, rfl⟩

/-- The lines of a dump with `x` put into the prefix of its last record. -/
def lastBroken (stamp : Stamp) (cntfrq : UInt32) (archive : TraceArchive) : List (List Char) :=
  (dumpTraceLines stamp cntfrq archive).dropLast ++
    (archive.stored.getLast?.map brokenRecord).toList ++ [summary archive]

section

variable {stamp : Stamp} {cntfrq : UInt32} {archive : TraceArchive}

/-- A dump with a record in it ends with that record. -/
theorem exists_last_record (stamp : Stamp) (cntfrq : UInt32)
    (hcount : 1 ≤ archive.count.toNat) :
    ∃ r pre, dumpTraceLines stamp cntfrq archive = pre ++ [emitRecord r] ∧
      lastBroken stamp cntfrq archive = pre ++ [brokenRecord r] ++ [summary archive] := by
  have hlen : archive.stored.length = archive.count.toNat := archive.stored_length
  have hne : archive.stored ≠ [] := by
    intro h
    rw [h, List.length_nil] at hlen
    omega
  obtain ⟨rs, r, hstored⟩ : ∃ rs r, archive.stored = rs ++ [r] :=
    ⟨_, _, (List.dropLast_concat_getLast hne).symm⟩
  obtain ⟨pre, hpre⟩ := dumpRecords_snoc stamp cntfrq headerInterval rs r
  have hdump : dumpTraceLines stamp cntfrq archive = pre ++ [emitRecord r] := by
    rw [dumpTraceLines, hstored, hpre]
  refine ⟨r, pre, hdump, ?_⟩
  rw [lastBroken, hdump, hstored, List.dropLast_concat, List.getLast?_concat]
  rfl

theorem lastBroken_inserted (hcount : 1 ≤ archive.count.toNat) :
    Inserted PrefixFree (dumpArchive stamp cntfrq archive).flatten
      (lastBroken stamp cntfrq archive).flatten := by
  obtain ⟨r, pre, hdump, hbroken⟩ := exists_last_record stamp cntfrq hcount
  have hfree : PrefixFree ['x'] := by decide
  have h := Inserted.single (by decide) hfree (pre.flatten ++ ['T', 'R'])
    ('C' :: '9' :: ' ' :: (toHex r.bytes ++ ['\n']) ++ summary archive)
  have hbefore : (dumpArchive stamp cntfrq archive).flatten = pre.flatten ++ ['T', 'R'] ++
      ('C' :: '9' :: ' ' :: (toHex r.bytes ++ ['\n']) ++ summary archive) := by
    rw [dumpArchive, hdump, emitRecord, emitLine_record]
    simp
  have hafter : (lastBroken stamp cntfrq archive).flatten = pre.flatten ++ ['T', 'R'] ++
      (['x'] ++ ('C' :: '9' :: ' ' :: (toHex r.bytes ++ ['\n']) ++ summary archive)) := by
    rw [hbroken, brokenRecord]
    simp
  rw [hbefore, hafter]
  exact h

theorem readLines_lastBroken (hcount : 1 ≤ archive.count.toNat) :
    readLines (lastBroken stamp cntfrq archive).flatten = lastBroken stamp cntfrq archive := by
  obtain ⟨r, pre, hdump, hbroken⟩ := exists_last_record stamp cntfrq hcount
  apply readLines_flatten
  intro l hl
  rw [hbroken] at hl
  rcases List.mem_append.mp hl with hl | hl
  · rcases List.mem_append.mp hl with hl | hl
    · apply dumpRecords_isLine stamp cntfrq headerInterval archive.stored
      show l ∈ dumpTraceLines stamp cntfrq archive
      rw [hdump]
      exact List.mem_append_left _ hl
    · rw [List.mem_singleton.mp hl]
      exact brokenRecord_isLine r
  · rw [List.mem_singleton.mp hl]
    exact summary_isLine archive

/-- To the decoder the broken line is not there. -/
theorem lastBroken_lines (stamp : Stamp) (cntfrq : UInt32)
    (hcount : 1 ≤ archive.count.toNat) :
    headerLines (lastBroken stamp cntfrq archive) =
        headerLines (dumpTraceLines stamp cntfrq archive) ∧
      recordLines (lastBroken stamp cntfrq archive) =
        (recordLines (dumpTraceLines stamp cntfrq archive)).dropLast := by
  obtain ⟨r, pre, hdump, hbroken⟩ := exists_last_record stamp cntfrq hcount
  have hplain := brokenRecord_plain r
  have hsummary := summary_plain archive
  have hrecord : headerLine (emitRecord r) = none := headerLine_emitLine_record r.bytes
  rw [hdump, hbroken, headerLines_snoc_of_none _ hsummary.1, headerLines_snoc_of_none _ hplain.1,
    recordLines_snoc_of_none _ hsummary.plainRecordLine,
    recordLines_snoc_of_none _ hplain.plainRecordLine,
    headerLines_snoc_of_none _ hrecord,
    recordLines_snoc_of_some _ (plainRecordLine_emitRecord r), List.dropLast_concat]
  exact ⟨rfl, rfl⟩

end

/-- Every dump can lose its last record to one character without a report. -/
theorem last_record_lost (stamp : Stamp) (cntfrq : UInt32) (archive : TraceArchive)
    (hcount : 1 ≤ archive.count.toNat)
    (hseq : ∀ i < archive.count.toNat, (archive.records i).seq.toNat = i)
    (hkind : ∀ i < archive.count.toNat,
      1 ≤ (archive.records i).kind ∧ (archive.records i).kind ≤ 6) (consoleTx : Option Nat) :
    ∃ d, decode (readLines (lastBroken stamp cntfrq archive).flatten) consoleTx = .ok d ∧
      d.errors = 0 ∧ d.records = (archive.stored.map hostRecord).dropLast := by
  have hrecords := recordLines_dumpRecords stamp cntfrq headerInterval archive.stored
  have hdump : Flawless (dumpTraceLines stamp cntfrq archive)
      (hostHeader stamp cntfrq, toHex (headerBytes stamp cntfrq)) :=
    flawless_of_dump hcount hseq hkind rfl hrecords
  obtain ⟨hheaders', hrecords'⟩ := lastBroken_lines stamp cntfrq hcount
  have hflawless := hdump.of_prefix hheaders' (hrecords' ▸ List.dropLast_prefix _)
  obtain ⟨d, hdecode, -, hrecs, herrors, -⟩ := decode_reads
    (lastBroken stamp cntfrq archive) consoleTx
  rw [readLines_lastBroken hcount]
  refine ⟨d, hdecode, ?_, ?_⟩
  · rw [herrors]
    exact logErrors_eq_zero_iff.mpr ⟨_, hflawless⟩
  · rw [hrecs, hflawless.records, hrecords', dumpTraceLines, hrecords, ← List.map_dropLast,
      payloadRecords_stored, List.map_dropLast]

/-- The dump of one record, its prefix broken by an `x`. -/
theorem only_record_lost :
    1 ≤ sampleArchive.count.toNat ∧
      Inserted PrefixFree (dumpArchive .blank 24576000 sampleArchive).flatten
        (lastBroken .blank 24576000 sampleArchive).flatten ∧
      ∃ d, decode (readLines (lastBroken .blank 24576000 sampleArchive).flatten) none = .ok d ∧
        d.errors = 0 ∧ d.records ≠ sampleArchive.stored.map hostRecord := by
  obtain ⟨d, hdecode, herrors, hrecords⟩ := last_record_lost .blank 24576000 sampleArchive
    (by decide) (fun _ hi => (sampleArchive_records hi).1)
    (fun _ hi => (sampleArchive_records hi).2) none
  refine ⟨by decide, lastBroken_inserted (by decide), d, hdecode, herrors, ?_⟩
  rw [hrecords]
  decide

end Decode
end TensorSel4
