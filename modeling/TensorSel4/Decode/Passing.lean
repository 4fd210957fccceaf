/-
Logs that pass for a dump.

`PassesFor` says of a log that its header and record lines are those of a dump of
the records `rs`, by a tracer of any version that the decoder reads.  Every payload
of the length of a record is that of some record, so the logs that decode without
an error are exactly these, whatever put their lines there.
-/
import Mathlib.Data.List.SplitLengths
import TensorSel4.Decode.RoundTrip
import TensorSel4.Decode.Sound
import TensorSel4.Decode.Tags

namespace TensorSel4
namespace Decode

open Bytes Text Trace

/-- The log's lines are those of a dump of `rs`: one header of the version, repeated or
not, and the records, numbered from zero on and of kinds of the version. -/
structure PassesFor (log : List Char) (version : Nat) (header : List Char)
    (rs : List TraceRecord) : Prop where
  valid : (readHeader (version, header)).isSome
  headed : headerLines (readLines log) ≠ []
  repeated : ∀ p ∈ headerLines (readLines log), p = (version, header)
  records : recordLines (readLines log) = rs.map fun r => (version, toHex r.bytes)
  numbered : ∀ (j : Nat) (r : TraceRecord), rs[j]? = some r →
    r.seq.toNat = j ∧ r.kind.toNat ∈ (kindsByVersion version).getD []

/-! ## Every payload is that of a record -/

theorem exists_uint64 {bs : List UInt8} (h : bs.length = 8) :
    ∃ x : UInt64, leBytes 8 x.toNat = bs := by
  have hlt : ofLeBytes bs < 2 ^ 64 := (ofLeBytes_lt bs).trans_eq (congrArg (256 ^ ·) h)
  refine ⟨UInt64.ofNat (ofLeBytes bs), ?_⟩
  rw [UInt64.toNat_ofNat', Nat.mod_eq_of_lt hlt, ← h, leBytes_ofLeBytes]

theorem exists_uint32 {bs : List UInt8} (h : bs.length = 4) :
    ∃ x : UInt32, leBytes 4 x.toNat = bs := by
  have hlt : ofLeBytes bs < 2 ^ 32 := (ofLeBytes_lt bs).trans_eq (congrArg (256 ^ ·) h)
  refine ⟨UInt32.ofNat (ofLeBytes bs), ?_⟩
  rw [UInt32.toNat_ofNat', Nat.mod_eq_of_lt hlt, ← h, leBytes_ofLeBytes]

theorem exists_uint16 {bs : List UInt8} (h : bs.length = 2) :
    ∃ x : UInt16, leBytes 2 x.toNat = bs := by
  have hlt : ofLeBytes bs < 2 ^ 16 := (ofLeBytes_lt bs).trans_eq (congrArg (256 ^ ·) h)
  refine ⟨UInt16.ofNat (ofLeBytes bs), ?_⟩
  rw [UInt16.toNat_ofNat', Nat.mod_eq_of_lt hlt, ← h, leBytes_ofLeBytes]

theorem exists_uint8 {bs : List UInt8} (h : bs.length = 1) :
    ∃ x : UInt8, leBytes 1 x.toNat = bs := by
  have hlt : ofLeBytes bs < 2 ^ 8 := (ofLeBytes_lt bs).trans_eq (congrArg (256 ^ ·) h)
  refine ⟨UInt8.ofNat (ofLeBytes bs), ?_⟩
  rw [UInt8.toNat_ofNat', Nat.mod_eq_of_lt hlt, ← h, leBytes_ofLeBytes]

/-- The members of `struct trace_record` take any bytes of its size. -/
theorem exists_record_of_bytes {raw : List UInt8} (h : raw.length = recordSize) :
    ∃ r : TraceRecord, r.bytes = raw := by
  have hsum : [8, 8, 8, 8, 8, 4, 2, 1, 1, 1, 1, 6, 8].sum = raw.length := h.symm
  have hparts := List.map_splitLengths_length raw _ hsum.le
  have hflatten := List.flatten_splitLengths raw _ hsum.ge
  generalize List.splitLengths _ raw = parts at hparts hflatten
  simp only [List.map_eq_cons_iff, List.map_eq_nil_iff] at hparts
  obtain ⟨seq, _, rfl, h0, time, _, rfl, h1, pc, _, rfl, h2, addr, _, rfl, h3, value, _, rfl, h4,
    esr, _, rfl, h5, vcpu, _, rfl, h6, producer, _, rfl, h7, kind, _, rfl, h8, size, _, rfl, h9,
    flags, _, rfl, h10, pad, _, rfl, h11, word, _, rfl, h12, rfl⟩ := hparts
  obtain ⟨seq, rfl⟩ := exists_uint64 h0
  obtain ⟨time, rfl⟩ := exists_uint64 h1
  obtain ⟨pc, rfl⟩ := exists_uint64 h2
  obtain ⟨addr, rfl⟩ := exists_uint64 h3
  obtain ⟨value, rfl⟩ := exists_uint64 h4
  obtain ⟨esr, rfl⟩ := exists_uint32 h5
  obtain ⟨vcpu, rfl⟩ := exists_uint16 h6
  obtain ⟨producer, rfl⟩ := exists_uint8 h7
  obtain ⟨kind, rfl⟩ := exists_uint8 h8
  obtain ⟨size, rfl⟩ := exists_uint8 h9
  obtain ⟨flags, rfl⟩ := exists_uint8 h10
  obtain ⟨word, rfl⟩ := exists_uint64 h12
  let reserved : Vector UInt8 6 := ⟨pad.toArray, by simpa using h11⟩
  refine ⟨⟨seq, time, pc, addr, value, esr, vcpu, producer, kind, size, flags, reserved, word⟩, ?_⟩
  rw [← hflatten, TraceRecord.bytes_eq]
  simp [TraceRecord.members, Member.bytes, reserved]

theorem exists_record_of_parse {hexdata : List Char} {rec : Record}
    (hhex : ∀ c ∈ hexdata, isLowerHex c) (h : parseRecord hexdata = .ok rec) :
    ∃ r : TraceRecord, toHex r.bytes = hexdata ∧ hostRecord r = rec := by
  obtain ⟨raw, hraw, hlen⟩ := fromhex_of_parseRecord h
  obtain ⟨r, rfl⟩ := exists_record_of_bytes hlen
  have hhexdata : toHex r.bytes = hexdata := by
    cases hread : fromHex hexdata with
    | error pos =>
      rw [fromhex, hread] at hraw
      cases hraw
    | ok bs =>
      rw [fromhex, hread] at hraw
      cases hraw
      exact toHex_of_fromHexAt hhex hread
  rw [← hhexdata, parseRecord_bytes] at h
  exact ⟨r, hhexdata, Except.ok.inj h⟩

/-! ## Logs without a fault -/

theorem recordLines_lowerHex {stream : List (List Char)} {p : Nat × List Char}
    (hp : p ∈ recordLines stream) : ∀ c ∈ p.2, isLowerHex c := by
  obtain ⟨s, -, hs⟩ := List.mem_filterMap.mp hp
  have hfound : recordLine s = some p := by
    unfold plainRecordLine at hs
    split at hs
    · cases hs
    · exact hs
  obtain ⟨t, -, ht⟩ := search_eq_some hfound
  obtain ⟨d, cs, -, -, rfl⟩ := taggedLine_eq_some_iff.mp ht
  intro c hc
  exact List.mem_takeWhile_imp hc

/-- The lines of a log without a fault are those of some dump. -/
theorem Flawless.passesFor {log : List Char} {first : Header × List Char}
    (h : Flawless (readLines log) first) : ∃ rs, PassesFor log first.1.version first.2 rs := by
  have hspelt (p : Nat × List Char) (hp : p ∈ recordLines (readLines log)) :
      ∃ r : TraceRecord, (first.1.version, toHex r.bytes) = p := by
    obtain ⟨j, hj⟩ := List.mem_iff_getElem?.mp hp
    obtain ⟨hdigit, rec, hrec, -⟩ := h.clean j p hj
    obtain ⟨r, hr, -⟩ := exists_record_of_parse (recordLines_lowerHex hp) hrec
    refine ⟨r, ?_⟩
    rw [hr, ← hdigit]
  have hrange : recordLines (readLines log) ∈
      Set.range (List.map fun r : TraceRecord => (first.1.version, toHex r.bytes)) := by
    rw [Set.range_list_map]
    exact hspelt
  obtain ⟨rs, hrs⟩ := hrange
  have hrepeated (p : Nat × List Char) (hp : p ∈ headerLines (readLines log)) :
      p = (first.1.version, first.2) := by
    obtain ⟨s, hs, hline⟩ := List.mem_filterMap.mp hp
    exact h.headerLine_eq hs hline
  obtain ⟨p, hp, -⟩ := List.exists_of_findSome?_eq_some h.found
  refine ⟨rs, ?_, List.ne_nil_of_mem hp, hrepeated, hrs.symm, ?_⟩
  · rw [← hrepeated p hp]
    exact (h.repeated p hp).1
  · intro j r hr
    have hline : (recordLines (readLines log))[j]? = some (first.1.version, toHex r.bytes) := by
      rw [← hrs, List.getElem?_map, hr]
      rfl
    obtain ⟨-, rec, hrec, hkind, hseq⟩ := h.clean j _ hline
    rw [parseRecord_bytes] at hrec
    cases hrec
    exact ⟨hseq, hkind⟩

section

variable {log : List Char} {version : Nat} {header : List Char} {rs : List TraceRecord}

theorem PassesFor.flawless (h : PassesFor log version header rs) :
    ∃ first, Flawless (readLines log) first := by
  obtain ⟨host, hhost⟩ := Option.isSome_iff_exists.mp h.valid
  have hversion : version = host.version := (readHeader_eq_some hhost).2
  have hfound : firstHeader (headerLines (readLines log)) = some (host, header) := by
    cases hlines : headerLines (readLines log) with
    | nil => exact absurd hlines h.headed
    | cons p ps =>
      have hp := h.repeated p (hlines ▸ List.mem_cons_self)
      rw [hp, firstHeader, List.findSome?_cons, hhost]
      rfl
  refine ⟨_, hfound, ?_, ?_⟩
  · intro p hp
    rw [h.repeated p hp]
    exact ⟨h.valid, rfl⟩
  · intro j p hp
    rw [h.records, List.getElem?_map] at hp
    obtain ⟨r, hr, rfl⟩ := Option.map_eq_some_iff.mp hp
    obtain ⟨hseq, hkind⟩ := h.numbered j r hr
    exact ⟨hversion, hostRecord r, parseRecord_bytes r, hversion ▸ hkind, hseq⟩

/-- What the record lines spell is the records. -/
theorem PassesFor.payloadRecords (h : PassesFor log version header rs) :
    payloadRecords (recordLines (readLines log)) = rs.map hostRecord := by
  rw [h.records, Decode.payloadRecords, List.filterMap_map, ← List.filterMap_eq_map]
  apply List.filterMap_congr
  intro r _
  simp [parseRecord_bytes, Except.toOption]

end

end Decode
end TensorSel4
