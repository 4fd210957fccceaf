/-
The lines of a dump, as the decoder's patterns and parsers see them.

`hostRecord` and `hostHeader` are the values that a record and a header of the
tracer ought to have on the host.
-/
import TensorSel4.Decode.Log
import TensorSel4.Trace.Dump

namespace TensorSel4
namespace Decode

open Bytes Text Trace

def hostRecord (r : TraceRecord) : Record where
  seq := r.seq.toNat
  time := r.time.toNat
  pc := r.pc.toNat
  addr := r.addr.toNat
  value := r.value.toNat
  esr := r.esr.toNat
  vcpu := r.vcpu.toNat
  producer := r.producer.toNat
  kind := r.kind.toNat
  size := r.size.toNat
  flags := r.flags.toNat

def hostText {n : Nat} (f : StampField n) : List Char := f.bytes.map fun b => Char.ofNat b.toNat

def hostHeader (stamp : Stamp) (cntfrq : UInt32) : Header where
  version := Trace.version
  cntfrq := cntfrq.toNat
  stamp := [("codename", hostText stamp.codename), ("build_id", hostText stamp.buildId),
    ("bootloader", hostText stamp.bootloader), ("baseband", hostText stamp.baseband),
    ("git_sha", hostText stamp.gitSha), ("toolchain_sha256", hostText stamp.toolchainSha256),
    ("dtb_sha256", hostText stamp.dtbSha256)]
  known := by decide

/-! ## Patterns -/

theorem not_mem_hex_tail {c : Char} (hc : isLowerHex c = false) (hn : c ≠ '\n') (bs : List UInt8) :
    c ∉ toHex bs ++ ['\n'] := by
  intro h
  rcases List.mem_append.mp h with h | h
  · exact not_mem_toHex hc bs h
  · exact hn (List.mem_singleton.mp h)

theorem takeWhile_hex_tail (bs : List UInt8) :
    (toHex bs ++ ['\n']).takeWhile isLowerHex = toHex bs := by
  rw [List.takeWhile_append_of_pos (toHex_lowerHex bs)]
  exact List.append_nil _

theorem emitLine_header (data : List UInt8) :
    emitLine headerPrefix data = 'T' :: 'R' :: 'H' :: '9' :: ' ' :: (toHex data ++ ['\n']) := rfl

theorem emitLine_record (data : List UInt8) :
    emitLine recordPrefix data = 'T' :: 'R' :: 'C' :: '9' :: ' ' :: (toHex data ++ ['\n']) := rfl

theorem headerLine_emitLine (data : List UInt8) :
    headerLine (emitLine headerPrefix data) = some (Trace.version, toHex data) := by
  have hpat : taggedLine 'H' (emitLine headerPrefix data) = some (Trace.version, toHex data) := by
    rw [emitLine_header, taggedLine, takeWhile_hex_tail]
    exact if_pos (by decide)
  exact search_of_match hpat

theorem recordLine_emitLine (data : List UInt8) :
    recordLine (emitLine recordPrefix data) = some (Trace.version, toHex data) := by
  have hpat : taggedLine 'C' (emitLine recordPrefix data) = some (Trace.version, toHex data) := by
    rw [emitLine_record, taggedLine, takeWhile_hex_tail]
    exact if_pos (by decide)
  exact search_of_match hpat

/-- A line whose only `T` starts another tag. -/
theorem search_taggedLine_other {tag t : Char} (ht : t ≠ tag) {cs : List Char}
    (hcs : 'T' ∉ t :: cs) : search (taggedLine tag) ('T' :: 'R' :: t :: cs) = none := by
  have hpat : taggedLine tag ('T' :: 'R' :: t :: cs) = none := by
    unfold taggedLine
    split
    · next heq =>
      cases heq
      exact if_neg fun h => ht h.1
    · rfl
  rw [search_skip hpat]
  apply search_taggedLine_none
  rw [List.mem_cons, not_or]
  exact ⟨by decide, hcs⟩

theorem headerLine_emitLine_record (data : List UInt8) :
    headerLine (emitLine recordPrefix data) = none := by
  have hT : 'T' ∉ toHex data ++ ['\n'] := not_mem_hex_tail (by decide) (by decide) data
  rw [emitLine_record]
  apply search_taggedLine_other (by decide)
  simpa using hT

theorem plainRecordLine_emitRecord (r : TraceRecord) :
    plainRecordLine (emitRecord r) = some (Trace.version, toHex r.bytes) :=
  (plainRecordLine_of_not_header (headerLine_emitLine_record r.bytes)).trans
    (recordLine_emitLine r.bytes)

/-- `put_decimal` prints digits. -/
theorem putDecimal_digits (n : Nat) : ∀ c ∈ putDecimal n, '0' ≤ c ∧ c ≤ '9' := by
  have hdigit : ∀ d < 10, '0' ≤ Char.ofNat (48 + d) ∧ Char.ofNat (48 + d) ≤ '9' := by decide
  induction n using putDecimal.induct with
  | case1 n h =>
    intro c hc
    rw [putDecimal, if_pos h, List.mem_singleton] at hc
    rw [hc]
    exact hdigit n h
  | case2 n h ih =>
    intro c hc
    rw [putDecimal, if_neg h] at hc
    rcases List.mem_append.mp hc with hc | hc
    · exact ih c hc
    · rw [List.mem_singleton.mp hc]
      exact hdigit _ (Nat.mod_lt _ (by decide))

theorem not_mem_putDecimal {c : Char} (h : ¬('0' ≤ c ∧ c ≤ '9')) (n : Nat) : c ∉ putDecimal n :=
  fun hc => h (putDecimal_digits n c hc)

theorem summary_cons (archive : TraceArchive) :
    ∃ cs, summary archive = 'T' :: 'R' :: 'A' :: cs ∧ 'T' ∉ 'A' :: cs := by
  have hdec (n : Nat) : 'T' ∉ putDecimal n := not_mem_putDecimal (by decide) n
  have hhead : 'T' ∉ "ACER|INFO: dumped ".toList := by decide
  have hmid : 'T' ∉ " records, ".toList := by decide
  have htail : 'T' ∉ " not archived (archive full)\n".toList := by decide
  refine ⟨_, rfl, ?_⟩
  show 'T' ∉ "ACER|INFO: dumped ".toList ++ putDecimal archive.count.toNat ++
    " records, ".toList ++ putDecimal archive.notArchived.toNat ++
    " not archived (archive full)\n".toList
  simp only [List.mem_append, not_or]
  exact ⟨⟨⟨⟨hhead, hdec _⟩, hmid⟩, hdec _⟩, htail⟩

theorem headerLine_summary (archive : TraceArchive) : headerLine (summary archive) = none := by
  obtain ⟨cs, hcs, hT⟩ := summary_cons archive
  rw [hcs]
  exact search_taggedLine_other (by decide) hT

theorem recordLine_summary (archive : TraceArchive) : recordLine (summary archive) = none := by
  obtain ⟨cs, hcs, hT⟩ := summary_cons archive
  rw [hcs]
  exact search_taggedLine_other (by decide) hT

/-! ## Lines -/

/-- A prefix without line ends, and hexadecimal digits after it. -/
theorem hex_isLine {pre : List Char} (hn : '\n' ∉ pre) (hr : '\r' ∉ pre) (data : List UInt8) :
    IsLine (pre ++ toHex data ++ ['\n']) := by
  have hmem (c : Char) (hc : isLowerHex c = false) (hp : c ∉ pre) : c ∉ pre ++ toHex data := by
    intro h
    rcases List.mem_append.mp h with h | h
    · exact hp h
    · exact not_mem_toHex hc data h
  exact ⟨_, rfl, hmem _ (by decide) hn, hmem _ (by decide) hr⟩

theorem summary_isLine (archive : TraceArchive) : IsLine (summary archive) := by
  have hdec (c : Char) (hc : ¬('0' ≤ c ∧ c ≤ '9')) (n : Nat) : c ∉ putDecimal n :=
    not_mem_putDecimal hc n
  refine ⟨"TRACER|INFO: dumped ".toList ++ putDecimal archive.count.toNat ++ " records, ".toList ++
    putDecimal archive.notArchived.toNat ++ " not archived (archive full)".toList, ?_, ?_, ?_⟩
  · have htail : " not archived (archive full)\n".toList =
        " not archived (archive full)".toList ++ ['\n'] := by decide
    exact (congrArg _ htail).trans (List.append_assoc _ _ _).symm
  · simp only [List.mem_append, not_or]
    exact ⟨⟨⟨⟨by decide, hdec _ (by decide) _⟩, by decide⟩, hdec _ (by decide) _⟩, by decide⟩
  · simp only [List.mem_append, not_or]
    exact ⟨⟨⟨⟨by decide, hdec _ (by decide) _⟩, by decide⟩, hdec _ (by decide) _⟩, by decide⟩

theorem dumpRecords_isLine (stamp : Stamp) (cntfrq : UInt32) (since : Nat)
    (rs : List TraceRecord) : ∀ l ∈ dumpRecords stamp cntfrq since rs, IsLine l := by
  have hheader : IsLine (sendHeader stamp cntfrq) := hex_isLine (by decide) (by decide) _
  have hrecord (r : TraceRecord) : IsLine (emitRecord r) := hex_isLine (by decide) (by decide) _
  induction rs generalizing since with
  | nil => exact fun l hl => absurd hl List.not_mem_nil
  | cons r rs ih =>
    intro l hl
    unfold dumpRecords at hl
    split at hl
    · rcases List.mem_cons.mp hl with rfl | hl
      · exact hheader
      rcases List.mem_cons.mp hl with rfl | hl
      · exact hrecord r
      · exact ih _ l hl
    · rcases List.mem_cons.mp hl with rfl | hl
      · exact hrecord r
      · exact ih _ l hl

/-- The host reads the lines that the tracer printed. -/
theorem readLines_dumpArchive (stamp : Stamp) (cntfrq : UInt32) (archive : TraceArchive) :
    readLines (dumpArchive stamp cntfrq archive).flatten = dumpArchive stamp cntfrq archive := by
  apply readLines_flatten
  intro l hl
  rcases List.mem_append.mp hl with hl | hl
  · exact dumpRecords_isLine stamp cntfrq _ _ l hl
  · rw [List.mem_singleton.mp hl]
    exact summary_isLine archive

/-! ## The header and record lines of a dump -/

theorem recordLines_dumpRecords (stamp : Stamp) (cntfrq : UInt32) (since : Nat)
    (rs : List TraceRecord) :
    recordLines (dumpRecords stamp cntfrq since rs) =
      rs.map fun r => (Trace.version, toHex r.bytes) := by
  have hheader : plainRecordLine (sendHeader stamp cntfrq) = none :=
    plainRecordLine_of_header (headerLine_emitLine _)
  induction rs generalizing since with
  | nil => rfl
  | cons r rs ih =>
    have hrecord := plainRecordLine_emitRecord r
    unfold dumpRecords
    split
    · rw [recordLines, List.filterMap_cons_none hheader, List.filterMap_cons_some hrecord]
      exact congrArg _ (ih 1)
    · rw [recordLines, List.filterMap_cons_some hrecord]
      exact congrArg _ (ih (since + 1))

/-- Every header line of a dump is the same. -/
theorem headerLines_dumpRecords (stamp : Stamp) (cntfrq : UInt32) (since : Nat)
    (rs : List TraceRecord) :
    ∀ p ∈ headerLines (dumpRecords stamp cntfrq since rs),
      p = (Trace.version, toHex (headerBytes stamp cntfrq)) := by
  have hheader : headerLine (sendHeader stamp cntfrq) =
    some (Trace.version, toHex (headerBytes stamp cntfrq)) := headerLine_emitLine _
  induction rs generalizing since with
  | nil => exact fun p hp => absurd hp List.not_mem_nil
  | cons r rs ih =>
    have hrecord : headerLine (emitRecord r) = none := headerLine_emitLine_record r.bytes
    intro p hp
    unfold dumpRecords at hp
    split at hp
    · rw [headerLines, List.filterMap_cons_some hheader, List.filterMap_cons_none hrecord] at hp
      rcases List.mem_cons.mp hp with rfl | hp
      · rfl
      · exact ih 1 p hp
    · rw [headerLines, List.filterMap_cons_none hrecord] at hp
      exact ih (since + 1) p hp

/-- A dump with a record in it starts with a header. -/
theorem headerLines_dumpTraceLines (stamp : Stamp) (cntfrq : UInt32) {archive : TraceArchive}
    (hcount : 1 ≤ archive.count.toNat) :
    ∃ hs, headerLines (dumpTraceLines stamp cntfrq archive) =
      (Trace.version, toHex (headerBytes stamp cntfrq)) :: hs := by
  have hheader : headerLine (sendHeader stamp cntfrq) =
    some (Trace.version, toHex (headerBytes stamp cntfrq)) := headerLine_emitLine _
  have hlen : archive.stored.length = archive.count.toNat := archive.stored_length
  rw [dumpTraceLines]
  cases hstored : archive.stored with
  | nil =>
    rw [hstored, List.length_nil] at hlen
    omega
  | cons r rs =>
    unfold dumpRecords
    rw [if_pos rfl, headerLines, List.filterMap_cons_some hheader]
    exact ⟨_, rfl⟩

end Decode
end TensorSel4
