/-
What a clean decode says about a log.

A log that decodes with 0 errors has a valid header, which each of its header
lines repeats, and each of its record lines became the record of its position.
The lines are those of the log: nothing of what they say passes through the
decoder's own state.
-/
import TensorSel4.Decode.Flawless

namespace TensorSel4
namespace Decode

open Bytes

/-- The line is a record line of the version, with 64 bytes that read as `rec`,
of a kind of that version. -/
structure Spells (version : Nat) (s : List Char) (rec : Record) : Prop where
  line : ∃ hexdata raw, plainRecordLine s = some (version, hexdata) ∧
    fromhex hexdata = .ok raw ∧ raw.length = 64 ∧ parseRecord hexdata = .ok rec
  kind : ∃ kinds, kindsByVersion version = some kinds ∧ rec.kind ∈ kinds

theorem fromhex_of_parseRecord {hexdata : List Char} {rec : Record}
    (h : parseRecord hexdata = .ok rec) : ∃ raw, fromhex hexdata = .ok raw ∧ raw.length = 64 := by
  unfold parseRecord at h
  cases hraw : fromhex hexdata with
  | error e =>
    rw [hraw] at h
    cases h
  | ok raw =>
    simp only [hraw, bind, Except.bind] at h
    split at h
    · cases h
    · next hlen => exact ⟨raw, rfl, not_not.mp hlen⟩

theorem kinds_of_mem_getD {version kind : Nat} (h : kind ∈ (kindsByVersion version).getD []) :
    ∃ kinds, kindsByVersion version = some kinds ∧ kind ∈ kinds := by
  cases hkinds : kindsByVersion version with
  | none =>
    rw [hkinds] at h
    exact absurd h List.not_mem_nil
  | some kinds =>
    rw [hkinds] at h
    exact ⟨kinds, rfl, h⟩

/-- A relation on what a partial map finds, as one on the entries it finds it in. -/
theorem forall₂_filter_isSome {α β γ : Type*} {f : α → Option β} {R : β → γ → Prop}
    {xs : List α} {zs : List γ} (h : List.Forall₂ R (xs.filterMap f) zs) :
    List.Forall₂ (fun x z => ∃ y, f x = some y ∧ R y z) (xs.filter fun x => (f x).isSome) zs := by
  induction xs generalizing zs with
  | nil =>
    cases h
    exact .nil
  | cons x xs ih =>
    cases hx : f x with
    | none =>
      rw [List.filterMap_cons_none hx] at h
      rw [List.filter_cons_of_neg (by simp [hx])]
      exact ih h
    | some y =>
      rw [List.filterMap_cons_some hx] at h
      rw [List.filter_cons_of_pos (by simp [hx])]
      cases h with
      | cons hy hrest => exact .cons ⟨y, hx, hy⟩ (ih hrest)

section

variable {version : Nat} {ps : List (Nat × List Char)}

/-- The records of clean record lines, line by line. -/
theorem forall₂_payloadRecords (h : ∀ p ∈ ps, ∃ i, CleanAt version i p) :
    List.Forall₂ (fun p rec => p.1 = version ∧ parseRecord p.2 = .ok rec ∧
      rec.kind ∈ (kindsByVersion version).getD []) ps (payloadRecords ps) := by
  induction ps with
  | nil => exact .nil
  | cons p ps ih =>
    obtain ⟨i, hdigit, rec, hrec, hkind, -⟩ := h p List.mem_cons_self
    have hread : payloadRecords (p :: ps) = rec :: payloadRecords ps := by
      simp [payloadRecords, hrec, Except.toOption]
    have hrest := ih fun q hq => h q (List.mem_cons_of_mem p hq)
    rw [hread]
    exact .cons ⟨hdigit, hrec, hkind⟩ hrest

theorem payloadRecords_seq (h : ∀ i p, ps[i]? = some p → CleanAt version i p) :
    (payloadRecords ps).map Record.seq = List.range ps.length := by
  induction ps using List.reverseRecOn with
  | nil => rfl
  | append_singleton ps p ih =>
    obtain ⟨hall, -, rec, hrec, -, hseq⟩ := (getElem?_snoc_iff ps p).mp h
    have hlast : payloadRecords [p] = [rec] := by
      simp [payloadRecords, hrec, Except.toOption]
    have happend : payloadRecords (ps ++ [p]) = payloadRecords ps ++ payloadRecords [p] :=
      List.filterMap_append
    rw [happend, hlast, List.map_append, ih hall, List.length_append, List.length_singleton,
      List.range_succ, List.map_singleton, hseq]

end

variable {stream : List (List Char)} {first : Header × List Char}

theorem readHeader_eq_some {p : Nat × List Char} {header : Header}
    (h : readHeader p = some header) : parseHeader p.2 = .ok header ∧ p.1 = header.version := by
  unfold readHeader at h
  cases hparse : parseHeader p.2 with
  | error e =>
    rw [hparse] at h
    cases h
  | ok found =>
    rw [hparse] at h
    by_cases hdigit : p.1 = found.version
    · have hsome : some found = some header := (if_pos hdigit).symm.trans h
      cases hsome
      exact ⟨rfl, hdigit⟩
    · cases (if_neg hdigit).symm.trans h

/-- The payload that settled the header reads as it. -/
theorem parseHeader_of_firstHeader {hs : List (Nat × List Char)} (h : firstHeader hs = some first) :
    parseHeader first.2 = .ok first.1 := by
  obtain ⟨p, -, hp⟩ := List.exists_of_findSome?_eq_some h
  obtain ⟨header, hread, rfl⟩ := Option.map_eq_some_iff.mp hp
  exact (readHeader_eq_some hread).1

theorem Flawless.headerLine_eq (h : Flawless stream first) {s : List Char} (hs : s ∈ stream)
    {p : Nat × List Char} (hline : headerLine s = some p) : p = (first.1.version, first.2) := by
  obtain ⟨hread, heq⟩ := h.repeated p (List.mem_filterMap.mpr ⟨s, hs, hline⟩)
  obtain ⟨header, hheader⟩ := Option.isSome_iff_exists.mp hread
  obtain ⟨hparse, hdigit⟩ := readHeader_eq_some hheader
  have hsame : header = first.1 := by
    rw [heq, parseHeader_of_firstHeader h.found] at hparse
    exact (Except.ok.inj hparse).symm
  rw [← hsame, ← hdigit, ← heq]

theorem Flawless.spells (h : Flawless stream first) :
    List.Forall₂ (Spells first.1.version) (stream.filter fun s => (plainRecordLine s).isSome)
      (payloadRecords (recordLines stream)) := by
  have hall : ∀ p ∈ recordLines stream, ∃ i, CleanAt first.1.version i p := by
    intro p hp
    obtain ⟨i, hi⟩ := List.getElem?_of_mem hp
    exact ⟨i, h.clean i p hi⟩
  refine (forall₂_filter_isSome (forall₂_payloadRecords hall)).imp ?_
  rintro s rec ⟨⟨digit, hexdata⟩, hline, hdigit, hrec, hkind⟩
  obtain rfl : digit = first.1.version := hdigit
  obtain ⟨raw, hraw, hlen⟩ := fromhex_of_parseRecord hrec
  exact ⟨⟨hexdata, raw, hline, hraw, hlen, hrec⟩, kinds_of_mem_getD hkind⟩

/-- `decode` never raises.  If it counts no error, there is a header, each header
line repeats it, and the records are those of the record lines, one for each,
numbered from 0 on. -/
theorem clean_decode_sound (stream : List (List Char)) (consoleTx : Option Nat) :
    ∃ d, decode stream consoleTx = .ok d ∧ (d.errors = 0 → ∃ header hexdata,
      d.header = some header ∧ parseHeader hexdata = .ok header ∧
      (∃ s ∈ stream, headerLine s = some (header.version, hexdata)) ∧
      (∀ s ∈ stream, ∀ p, headerLine s = some p → p = (header.version, hexdata)) ∧
      d.records.map Record.seq = List.range d.decoded ∧
      List.Forall₂ (Spells header.version) (stream.filter fun s => (plainRecordLine s).isSome)
        d.records) := by
  obtain ⟨d, hd, hheader, hrecords, herrors, hdecoded⟩ := decode_reads stream consoleTx
  refine ⟨d, hd, ?_⟩
  intro hzero
  obtain ⟨first, h⟩ := logErrors_eq_zero_iff.mp (herrors.symm.trans hzero)
  have hfirst : d.header = some first.1 := by rw [hheader, h.found, Option.map_some]
  have hpayload : d.records = payloadRecords (recordLines stream) := hrecords.trans h.records
  have hline : ∃ s ∈ stream, headerLine s = some (first.1.version, first.2) := by
    obtain ⟨p, hp, -⟩ := List.exists_of_findSome?_eq_some h.found
    obtain ⟨s, hs, hsp⟩ := List.mem_filterMap.mp hp
    exact ⟨s, hs, hsp.trans (congrArg some (h.headerLine_eq hs hsp))⟩
  have hlength : d.decoded = (recordLines stream).length := by
    have hseqs := congrArg List.length (payloadRecords_seq h.clean)
    rw [List.length_map, List.length_range] at hseqs
    rw [hdecoded, hpayload, hseqs]
  refine ⟨first.1, first.2, hfirst, parseHeader_of_firstHeader h.found, hline, ?_, ?_, ?_⟩
  · exact fun s hs p hp => h.headerLine_eq hs hp
  · rw [hpayload, hlength]
    exact payloadRecords_seq h.clean
  · rw [hpayload]
    exact h.spells

end Decode
end TensorSel4
