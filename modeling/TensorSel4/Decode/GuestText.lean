/-
Guest output in the log of a dump.

The guest writes bytes to the emulated UART, the VMM prints them as lines of
their own, and `read` is whatever the host's text decoding makes of such a line.
A line that matches neither pattern leaves the decoder as it was, so it cannot
change what a dump decodes to, wherever it stands.  A line that matches one is
read like a line of the dump.
-/
import TensorSel4.Decode.RoundTrip
import TensorSel4.Vmm.ExynosUartEmul

namespace TensorSel4
namespace Decode

open Text Trace

/-- The lines the VMM prints for the bytes a guest writes to UTXH. -/
def guestLines (written : List UInt8) : List (List UInt8) :=
  (written.foldl Vmm.ExynosUartEmul.consolePutc {}).printed

def guestText (read : List UInt8 → List Char) (written : List UInt8) : List (List Char) :=
  (guestLines written).map fun line => read line ++ ['\n']

/-- The decoder's result depends on the lines that match a pattern only. -/
theorem decode_congr {stream stream' : List (List Char)}
    (hheaders : headerLines stream = headerLines stream')
    (hrecords : recordLines stream = recordLines stream') (consoleTx : Option Nat) :
    ∃ d d', decode stream consoleTx = .ok d ∧ decode stream' consoleTx = .ok d' ∧
      d.records = d'.records ∧ d.header = d'.header ∧ d.errors = d'.errors := by
  obtain ⟨d, hdecode, hheader, hrecs, herrors, -⟩ := decode_reads stream consoleTx
  obtain ⟨d', hdecode', hheader', hrecs', herrors', -⟩ := decode_reads stream' consoleTx
  have htally : logTally stream = logTally stream' := by
    rw [logTally, logTally, hheaders, hrecords]
  refine ⟨d, d', hdecode, hdecode', ?_, ?_, ?_⟩
  · rw [hrecs, hrecs', htally]
  · rw [hheader, hheader', hheaders]
  · rw [herrors, herrors', logErrors, logErrors, hheaders, htally]

/-- Guest lines that match neither pattern change nothing. -/
theorem guest_text_harmless (read : List UInt8 → List Char) (stamp : Stamp) (cntfrq : UInt32)
    (archive : TraceArchive) (written : List UInt8)
    (hplain : ∀ s ∈ guestText read written, Plain s) {stream : List (List Char)}
    (hstream : Interleaved (readLines (dumpArchive stamp cntfrq archive).flatten)
      (guestText read written) stream) (consoleTx : Option Nat) :
    ∃ d d', decode stream consoleTx = .ok d ∧
      decode (dumpTraceLines stamp cntfrq archive) consoleTx = .ok d' ∧
      d.records = d'.records ∧ d.header = d'.header ∧ d.errors = d'.errors :=
  decode_congr (headerLines_mixed hplain hstream) (recordLines_mixed hplain hstream) consoleTx

/-- `bytes.decode("ascii", errors="replace")`. -/
def asciiText (bs : List UInt8) : List Char :=
  bs.map fun b => if b.toNat < 128 then Char.ofNat b.toNat else Char.ofNat 0xfffd

/-- The bytes of `"hello\nTRC\n"`. -/
def helloTrc : List UInt8 := [0x68, 0x65, 0x6c, 0x6c, 0x6f, 0x0a, 0x54, 0x52, 0x43, 0x0a]

/-- The guest's lines before and after the first record. -/
def helloStream : List (List Char) :=
  match dumpArchive bootStamp 24576000 bootArchive with
  | header :: record :: rest =>
    header :: "guest| hello\n".toList :: record :: "guest| TRC\n".toList :: rest
  | lines => lines

theorem guest_text_harmless_between :
    ∃ d d', decode helloStream none = .ok d ∧
      decode (dumpTraceLines bootStamp 24576000 bootArchive) none = .ok d' ∧
      d.records = d'.records ∧ d.header = d'.header ∧ d.errors = d'.errors := by
  have htext : guestText asciiText helloTrc =
      ["guest| hello\n".toList, "guest| TRC\n".toList] := by decide
  have hplain : ∀ s ∈ guestText asciiText helloTrc, Plain s := by
    intro s hs
    rw [htext] at hs
    rcases List.mem_pair.mp hs with rfl | rfl
    · exact ⟨by decide, by decide⟩
    · exact ⟨by decide, by decide⟩
  have hstream : Interleaved (dumpArchive bootStamp 24576000 bootArchive)
      ["guest| hello\n".toList, "guest| TRC\n".toList] helloStream :=
    .left (.right (.left (.right (Interleaved.append _ []))))
  rw [← readLines_dumpArchive, ← htext] at hstream
  exact guest_text_harmless asciiText bootStamp 24576000 bootArchive helloTrc hplain hstream none

/-! ## A guest line that looks like a record -/

/-- A record line that does not parse, after a log with a header. -/
theorem logErrors_snoc_damaged {stream : List (List Char)} {s : List Char}
    {first : Header × List Char} (hfirst : firstHeader (headerLines stream) = some first)
    (hh : headerLine s = none) {p : Nat × List Char} (hr : recordLine s = some p) {e : PyError}
    (hp : parseRecord p.2 = .error e) : logErrors (stream ++ [s]) = logErrors stream + 1 := by
  have hrecord : ((logTally stream).record first.1.version p).errors =
      (logTally stream).errors + 1 := by
    unfold Tally.record
    rw [hp]
    split <;> rfl
  rw [logErrors, logErrors, headerLines_snoc_of_none stream hh, logTally_snoc_record hfirst hh hr,
    hrecord]
  omega

/-- The guest writes `"TRC9 \n"`, and the dump no longer decodes without an error. -/
theorem guest_text_counts_as_record :
    Interleaved (readLines (dumpArchive .blank 24576000 sampleArchive).flatten)
        (guestText asciiText [0x54, 0x52, 0x43, 0x39, 0x20, 0x0a])
        (dumpArchive .blank 24576000 sampleArchive ++
          guestText asciiText [0x54, 0x52, 0x43, 0x39, 0x20, 0x0a]) ∧
      ∃ d d', decode (dumpArchive .blank 24576000 sampleArchive ++
          guestText asciiText [0x54, 0x52, 0x43, 0x39, 0x20, 0x0a]) none = .ok d ∧
        decode (dumpTraceLines .blank 24576000 sampleArchive) none = .ok d' ∧
        d.errors = 1 ∧ d'.errors = 0 := by
  have htext : guestText asciiText [0x54, 0x52, 0x43, 0x39, 0x20, 0x0a] =
      ["guest| TRC9 \n".toList] := by decide
  have hflawless {stream : List (List Char)}
      (hh : headerLines stream = headerLines (dumpTraceLines .blank 24576000 sampleArchive)) :=
    flawless_of_dump (by decide) (fun _ hi => (sampleArchive_records hi).1)
      (fun _ hi => (sampleArchive_records hi).2) hh
  have hrecords := recordLines_dumpRecords .blank 24576000 headerInterval sampleArchive.stored
  have hdump := hflawless headerLines_dumpArchive (recordLines_dumpArchive.trans hrecords)
  have halone := hflawless rfl hrecords
  obtain ⟨d, hdecode, -, -, herrors, -⟩ := decode_reads
    (dumpArchive .blank 24576000 sampleArchive ++ ["guest| TRC9 \n".toList]) none
  obtain ⟨d', hdecode', -, -, herrors', -⟩ := decode_reads
    (dumpTraceLines .blank 24576000 sampleArchive) none
  refine ⟨?_, d, d', ?_, hdecode', ?_, ?_⟩
  · rw [readLines_dumpArchive]
    exact Interleaved.append _ _
  · rw [htext]
    exact hdecode
  · have hbad : parseRecord [] = .error (.traceError "record is 0 bytes, expected 64") := rfl
    rw [herrors, logErrors_snoc_damaged hdump.found (by decide) (p := (9, [])) (by decide) hbad,
      logErrors_eq_zero_iff.mpr ⟨_, hdump⟩]
  · rw [herrors', logErrors_eq_zero_iff.mpr ⟨_, halone⟩]

end Decode
end TensorSel4
