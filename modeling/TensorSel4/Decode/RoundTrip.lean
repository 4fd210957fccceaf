/-
Decoding undoes dumping.

The parsers read back the struct bytes that the tracer printed, and the tally of
a dump whose records are numbered from zero has no error.  `dump_decodes` puts
this together for a dump with other lines between its own.
-/
import TensorSel4.Decode.DumpLines
import TensorSel4.Decode.Flawless

namespace TensorSel4
namespace Decode

open Bytes Text Trace

/-! ## Records -/

theorem fromhex_toHex (bs : List UInt8) : fromhex (toHex bs) = .ok bs := by
  rw [fromhex, fromHex_toHex]

theorem unpack_record (r : TraceRecord) :
    unpack recordFormat r.bytes =
      [.int r.seq.toNat, .int r.time.toNat, .int r.pc.toNat, .int r.addr.toNat,
        .int r.value.toNat, .int r.esr.toNat, .int r.vcpu.toNat, .int r.producer.toNat,
        .int r.kind.toNat, .int r.size.toNat, .int r.flags.toNat, .int r.reserved1.toNat] := by
  have h64 (x : UInt64) : x.toNat < 256 ^ 8 := x.toNat_lt
  have h32 (x : UInt32) : x.toNat < 256 ^ 4 := x.toNat_lt
  have h16 (x : UInt16) : x.toNat < 256 ^ 2 := x.toNat_lt
  have h8 (x : UInt8) : x.toNat < 256 ^ 1 := x.toNat_lt
  rw [TraceRecord.bytes_eq, TraceRecord.members, recordFormat, unpack_word (h64 _),
    unpack_word (h64 _), unpack_word (h64 _), unpack_word (h64 _), unpack_word (h64 _),
    unpack_word (h32 _), unpack_word (h16 _), unpack_word (h8 _), unpack_word (h8 _),
    unpack_word (h8 _), unpack_word (h8 _), unpack_pad (by simp), unpack_word (h64 _), unpack]

theorem parseRecord_bytes (r : TraceRecord) : parseRecord (toHex r.bytes) = .ok (hostRecord r) := by
  have hlen : r.bytes.length = calcsize recordFormat := r.bytes_length
  rw [parseRecord, fromhex_toHex]
  show (if r.bytes.length ≠ calcsize recordFormat then _ else _) = _
  rw [if_neg (not_not.mpr hlen), structUnpack_of_length hlen, unpack_record]
  rfl

/-! ## The header -/

theorem decodeAscii_stamp {bs : List UInt8} (h : ∀ b ∈ bs, b.toNat < 128) (pos : Nat) :
    decodeAscii pos bs = .ok (bs.map fun b => Char.ofNat b.toNat) := by
  induction bs generalizing pos with
  | nil => rfl
  | cons b bs ih =>
    have hb : b.toNat < 128 := h b List.mem_cons_self
    rw [decodeAscii, if_pos hb, ih fun b' hb' => h b' (List.mem_cons_of_mem _ hb')]
    rfl

/-- Stripping the NULs that `copy_field` filled the field with leaves the string. -/
theorem rstrip_copyField {n : Nat} (f : StampField n) :
    (copyField n f.bytes).rdropWhile (· = 0) = f.bytes := by
  have hfill (k : Nat) : (f.bytes ++ List.replicate k 0).rdropWhile (· = 0) = f.bytes := by
    induction k with
    | zero =>
      rw [List.replicate_zero, List.append_nil, List.rdropWhile_eq_self_iff]
      intro hne hlast
      exact f.nulFree (of_decide_eq_true hlast ▸ List.getLast_mem hne)
    | succ k ih =>
      rw [List.replicate_succ', ← List.append_assoc, List.rdropWhile_concat_pos _ _ _ (by decide)]
      exact ih
  rw [copyField_stamp, hfill]

theorem text_copyField {n : Nat} (f : StampField n) :
    text (.bytes (copyField n f.bytes)) = .ok (hostText f) := by
  rw [text, rstrip_copyField, decodeAscii_stamp f.ascii]
  rfl

theorem unpack_headerBytes (stamp : Stamp) (cntfrq : UInt32) :
    unpack headerFormat (headerBytes stamp cntfrq) =
      [.bytes (copyField 8 Trace.magic), .int Trace.version, .int recordSize, .int cntfrq.toNat,
        .bytes (copyField 16 stamp.codename.bytes), .bytes (copyField 32 stamp.buildId.bytes),
        .bytes (copyField 48 stamp.bootloader.bytes), .bytes (copyField 48 stamp.baseband.bytes),
        .bytes (copyField 48 stamp.gitSha.bytes),
        .bytes (copyField 64 stamp.toolchainSha256.bytes),
        .bytes (copyField 64 stamp.dtbSha256.bytes)] := by
  have hlen (n : Nat) (src : List UInt8) : (copyField n src).length = n := copyField_length n src
  have h32 : cntfrq.toNat < 256 ^ 4 := cntfrq.toNat_lt
  rw [headerBytes_eq, headerMembers, headerFormat, unpack_str (hlen _ _), unpack_word (by decide),
    unpack_word (by decide), unpack_word h32, unpack_str (hlen _ _), unpack_str (hlen _ _),
    unpack_str (hlen _ _), unpack_str (hlen _ _), unpack_str (hlen _ _), unpack_str (hlen _ _),
    unpack_str (hlen _ _), unpack]

theorem mapM_text_stamp (stamp : Stamp) :
    [Field.bytes (copyField 16 stamp.codename.bytes), .bytes (copyField 32 stamp.buildId.bytes),
      .bytes (copyField 48 stamp.bootloader.bytes), .bytes (copyField 48 stamp.baseband.bytes),
      .bytes (copyField 48 stamp.gitSha.bytes), .bytes (copyField 64 stamp.toolchainSha256.bytes),
      .bytes (copyField 64 stamp.dtbSha256.bytes)].mapM text =
    .ok [hostText stamp.codename, hostText stamp.buildId, hostText stamp.bootloader,
      hostText stamp.baseband, hostText stamp.gitSha, hostText stamp.toolchainSha256,
      hostText stamp.dtbSha256] := by
  simp only [List.mapM_cons, List.mapM_nil, text_copyField]
  rfl

theorem parseHeader_bytes (stamp : Stamp) (cntfrq : UInt32) :
    parseHeader (toHex (headerBytes stamp cntfrq)) = .ok (hostHeader stamp cntfrq) := by
  have hlen : (headerBytes stamp cntfrq).length = calcsize headerFormat :=
    headerBytes_length stamp cntfrq
  have hmagic : copyField 8 Trace.magic = magic := by decide
  have hversion : Trace.version ∈ versions := by decide
  rw [parseHeader, fromhex_toHex]
  show (if (headerBytes stamp cntfrq).length ≠ calcsize headerFormat then _ else _) = _
  rw [if_neg (not_not.mpr hlen), structUnpack_of_length hlen, unpack_headerBytes]
  simp only [bind, Except.bind]
  rw [if_neg (not_not.mpr hmagic), dif_pos hversion, if_neg (by decide), mapM_text_stamp]
  rfl

theorem readHeader_bytes (stamp : Stamp) (cntfrq : UInt32) :
    readHeader (Trace.version, toHex (headerBytes stamp cntfrq)) =
      some (hostHeader stamp cntfrq) := by
  rw [readHeader, parseHeader_bytes]
  exact if_pos rfl

/-! ## Dumps with other lines in between -/

/-- A line that neither pattern matches. -/
def Plain (s : List Char) : Prop := headerLine s = none ∧ recordLine s = none

theorem Plain.plainRecordLine {s : List Char} (h : Plain s) : plainRecordLine s = none :=
  (plainRecordLine_of_not_header h.1).trans h.2

theorem summary_plain (archive : TraceArchive) : Plain (summary archive) :=
  ⟨headerLine_summary archive, recordLine_summary archive⟩

section

variable {stamp : Stamp} {cntfrq : UInt32} {archive : TraceArchive}
  {console stream : List (List Char)}

theorem headerLines_dumpArchive :
    headerLines (dumpArchive stamp cntfrq archive) =
      headerLines (dumpTraceLines stamp cntfrq archive) :=
  headerLines_snoc_of_none _ (summary_plain archive).1

theorem recordLines_dumpArchive :
    recordLines (dumpArchive stamp cntfrq archive) =
      recordLines (dumpTraceLines stamp cntfrq archive) :=
  recordLines_snoc_of_none _ (summary_plain archive).plainRecordLine

theorem headerLines_mixed (hconsole : ∀ s ∈ console, Plain s)
    (hstream : Interleaved (readLines (dumpArchive stamp cntfrq archive).flatten) console stream) :
    headerLines stream = headerLines (dumpTraceLines stamp cntfrq archive) := by
  rw [readLines_dumpArchive] at hstream
  exact (hstream.filterMap_eq fun s hs => (hconsole s hs).1).trans headerLines_dumpArchive

theorem recordLines_mixed (hconsole : ∀ s ∈ console, Plain s)
    (hstream : Interleaved (readLines (dumpArchive stamp cntfrq archive).flatten) console stream) :
    recordLines stream = recordLines (dumpTraceLines stamp cntfrq archive) := by
  rw [readLines_dumpArchive] at hstream
  exact (hstream.filterMap_eq fun s hs => (hconsole s hs).plainRecordLine).trans
    recordLines_dumpArchive

end

theorem parse_stored (rs : List TraceRecord) :
    (rs.map fun r => (Trace.version, toHex r.bytes)).map (fun p => parseRecord p.2) =
      rs.map fun r => .ok (hostRecord r) := by
  rw [List.map_map]
  exact List.map_congr_left fun r _ => parseRecord_bytes r

theorem payloadRecords_stored (rs : List TraceRecord) :
    payloadRecords (rs.map fun r => (Trace.version, toHex r.bytes)) = rs.map hostRecord := by
  have hrec (r : TraceRecord) :
      (parseRecord (toHex r.bytes)).toOption = some (hostRecord r) := by
    rw [parseRecord_bytes]
    rfl
  rw [payloadRecords, List.filterMap_map, ← List.filterMap_eq_map]
  exact List.filterMap_congr fun r _ => hrec r

/-- Kinds 1 to 6 are those of the tracer's version. -/
theorem kind_known {r : TraceRecord} :
    (hostRecord r).kind ∈ (kindsByVersion Trace.version).getD [] ↔ 1 ≤ r.kind ∧ r.kind ≤ 6 := by
  have hkinds : (kindsByVersion Trace.version).getD [] = [1, 2, 3, 4, 5, 6] := rfl
  have hkind : (hostRecord r).kind = r.kind.toNat := rfl
  rw [hkinds, hkind, UInt8.le_iff_toNat_le, UInt8.le_iff_toNat_le]
  show _ ↔ 1 ≤ r.kind.toNat ∧ r.kind.toNat ≤ 6
  simp only [List.mem_cons, List.not_mem_nil, or_false]
  omega

theorem flawless_of_dump {stamp : Stamp} {cntfrq : UInt32} {archive : TraceArchive}
    {stream : List (List Char)} (hcount : 1 ≤ archive.count.toNat)
    (hseq : ∀ i < archive.count.toNat, (archive.records i).seq.toNat = i)
    (hkind : ∀ i < archive.count.toNat,
      1 ≤ (archive.records i).kind ∧ (archive.records i).kind ≤ 6)
    (hheaders : headerLines stream = headerLines (dumpTraceLines stamp cntfrq archive))
    (hrecords : recordLines stream = archive.stored.map fun r => (Trace.version, toHex r.bytes)) :
    Flawless stream (hostHeader stamp cntfrq, toHex (headerBytes stamp cntfrq)) := by
  refine ⟨?_, ?_, ?_⟩
  · obtain ⟨hs, hhs⟩ := headerLines_dumpTraceLines stamp cntfrq hcount
    rw [hheaders, hhs, firstHeader, List.findSome?_cons, readHeader_bytes]
    rfl
  · intro p hp
    rw [hheaders] at hp
    rw [headerLines_dumpRecords stamp cntfrq _ _ p hp, readHeader_bytes]
    exact ⟨rfl, rfl⟩
  · intro i p hp
    rw [hrecords, TraceArchive.stored, List.map_map, List.getElem?_map] at hp
    obtain ⟨j, hj, rfl⟩ := Option.map_eq_some_iff.mp hp
    obtain ⟨hlt, rfl⟩ := List.getElem?_eq_some_iff.mp hj
    rw [List.length_range] at hlt
    rw [List.getElem_range]
    exact ⟨rfl, _, parseRecord_bytes _, kind_known.mpr (hkind i hlt), hseq i hlt⟩

/-- Decoding undoes dumping, with any plain lines between the dump's own. -/
theorem dump_decodes (stamp : Stamp) (cntfrq : UInt32) (archive : TraceArchive)
    (hcount : 1 ≤ archive.count.toNat)
    (hseq : ∀ i < archive.count.toNat, (archive.records i).seq.toNat = i)
    (hkind : ∀ i < archive.count.toNat,
      1 ≤ (archive.records i).kind ∧ (archive.records i).kind ≤ 6)
    {console stream : List (List Char)} (hconsole : ∀ s ∈ console, Plain s)
    (hstream : Interleaved (readLines (dumpArchive stamp cntfrq archive).flatten) console stream)
    (consoleTx : Option Nat) :
    ∃ d, decode stream consoleTx = .ok d ∧ d.errors = 0 ∧
      d.header = some (hostHeader stamp cntfrq) ∧ d.records = archive.stored.map hostRecord ∧
      (recordLines stream).map (fun p => parseRecord p.2) =
        archive.stored.map fun r => .ok (hostRecord r) := by
  have hheaders := headerLines_mixed hconsole hstream
  have hrecords : recordLines stream =
      archive.stored.map fun r => (Trace.version, toHex r.bytes) :=
    (recordLines_mixed hconsole hstream).trans (recordLines_dumpRecords stamp cntfrq _ _)
  have hflawless := flawless_of_dump hcount hseq hkind hheaders hrecords
  obtain ⟨d, hdecode, hheader, hrecs, herrors, -⟩ := decode_reads stream consoleTx
  refine ⟨d, hdecode, ?_, ?_, ?_, ?_⟩
  · rw [herrors]
    exact logErrors_eq_zero_iff.mpr ⟨_, hflawless⟩
  · rw [hheader, hflawless.found]
    rfl
  · rw [hrecs, hflawless.records, hrecords, payloadRecords_stored]
  · rw [hrecords, parse_stored]

/-- The archive of a trace with a single record. -/
def sampleArchive : TraceArchive := archiveRecord {} { kind := Trace.kindMmio }

theorem sampleArchive_records {i : Nat} (hi : i < sampleArchive.count.toNat) :
    (sampleArchive.records i).seq.toNat = i ∧
      1 ≤ (sampleArchive.records i).kind ∧ (sampleArchive.records i).kind ≤ 6 := by
  have hzero : i = 0 := Nat.lt_one_iff.mp hi
  rw [hzero]
  decide

/-! ## A dump of three records -/

/-- `shiba` -/
def bootCodename : List UInt8 := [0x73, 0x68, 0x69, 0x62, 0x61]

theorem bootCodename_ascii : ∀ b ∈ bootCodename, b.toNat < 128 := by simp [bootCodename]

theorem bootCodename_nulFree : (0 : UInt8) ∉ bootCodename := by decide

theorem bootCodename_fits : bootCodename.length ≤ 16 := by decide

/-- A stamp of which only the codename was known at the build. -/
def bootStamp : Stamp :=
  { Stamp.blank with
    codename := ⟨bootCodename, bootCodename_ascii, bootCodename_nulFree, bootCodename_fits⟩ }

/-- A command of uartrx, a write to the UART and an SMC of the second vCPU. -/
def bootRecords : List TraceRecord :=
  [{ seq := 0, time := 24576000, pc := 2, addr := 4, value := 7, producer := 1,
     kind := Trace.kindCmd, flags := 1 },
    { seq := 1, time := 49152000, pc := 0x80001234, addr := 0x10870020, value := 0x68,
      esr := 0x93810047, kind := Trace.kindMmio, size := 4, flags := 1 },
    { seq := 2, time := 49153000, pc := 0x80005678, addr := 0x84000000, value := 0xffffffffffffffff,
      esr := 0x5e000000, vcpu := 1, kind := Trace.kindSmcEnter }]

def bootArchive : TraceArchive := bootRecords.foldl archiveRecord {}

theorem bootArchive_records {i : Nat} (hi : i < bootArchive.count.toNat) :
    (bootArchive.records i).seq.toNat = i ∧
      1 ≤ (bootArchive.records i).kind ∧ (bootArchive.records i).kind ≤ 6 := by
  have hthree : i < 3 := hi
  match i, hthree with
  | 0, _ | 1, _ | 2, _ => decide

/-- Lines of other domains while the archive is dumped. -/
def bootConsole : List (List Char) := ["guest| TRC 9\n".toList, "VMM|INFO: hello\n".toList]

theorem bootConsole_plain : ∀ s ∈ bootConsole, Plain s := by
  intro s hs
  rcases List.mem_pair.mp hs with rfl | rfl
  · exact ⟨by decide, by decide⟩
  · exact ⟨by decide, by decide⟩

/-- One of them before the first record, the other after it. -/
def bootStream : List (List Char) :=
  match dumpArchive bootStamp 24576000 bootArchive with
  | header :: record :: rest =>
    header :: "guest| TRC 9\n".toList :: record :: "VMM|INFO: hello\n".toList :: rest
  | lines => lines

theorem dump_decodes_threeRecords :
    ∃ d, decode bootStream none = .ok d ∧ d.errors = 0 ∧
      d.header.map (·.stamp.head?) = some (some ("codename", "shiba".toList)) ∧ d.records =
        [{ seq := 0, time := 24576000, pc := 2, addr := 4, value := 7, esr := 0, vcpu := 0,
           producer := 1, kind := 5, size := 0, flags := 1 },
          { seq := 1, time := 49152000, pc := 0x80001234, addr := 0x10870020, value := 0x68,
            esr := 0x93810047, vcpu := 0, producer := 0, kind := 1, size := 4, flags := 1 },
          { seq := 2, time := 49153000, pc := 0x80005678, addr := 0x84000000,
            value := 0xffffffffffffffff, esr := 0x5e000000, vcpu := 1, producer := 0, kind := 2,
            size := 0, flags := 0 }] := by
  have hstream : Interleaved (dumpArchive bootStamp 24576000 bootArchive) bootConsole bootStream :=
    .left (.right (.left (.right (Interleaved.append _ []))))
  rw [← readLines_dumpArchive] at hstream
  obtain ⟨d, hdecode, herrors, hheader, hrecords, -⟩ := dump_decodes bootStamp 24576000 bootArchive
    (by decide) (fun _ hi => (bootArchive_records hi).1)
    (fun _ hi => (bootArchive_records hi).2) bootConsole_plain hstream none
  refine ⟨d, hdecode, herrors, ?_, hrecords⟩
  rw [hheader]
  rfl

end Decode
end TensorSel4
