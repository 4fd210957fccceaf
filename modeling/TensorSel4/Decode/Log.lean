/-
What a log says to the decoder, without the decoder.

Only the digit and the payload of the lines that match a pattern count.  The
header lines settle the header, the first valid one, and each of the others has
to repeat it.  The record lines are read under its version, whether they stand
before it or after it, and a running sequence number tells a gap.  `decode_reads`
says that `decode` never raises and that its header, its records and its error
count are the ones read off the log this way.
-/
import TensorSel4.Decode.Decoder

namespace TensorSel4
namespace Decode

/-! ## The lines that count -/

/-- The header lines of a log: digit and payload. -/
def headerLines (stream : List (List Char)) : List (Nat × List Char) :=
  stream.filterMap headerLine

/-- A record line, which a line that matches both patterns is not. -/
def plainRecordLine (s : List Char) : Option (Nat × List Char) :=
  match headerLine s with
  | some _ => none
  | none => recordLine s

def recordLines (stream : List (List Char)) : List (Nat × List Char) :=
  stream.filterMap plainRecordLine

/-- The header that a header line carries, if it is valid and of the line's digit. -/
def readHeader (p : Nat × List Char) : Option Header :=
  match parseHeader p.2 with
  | .ok header => if p.1 = header.version then some header else none
  | .error _ => none

/-- The first valid header of the header lines, with its payload. -/
def firstHeader (hs : List (Nat × List Char)) : Option (Header × List Char) :=
  hs.findSome? fun p => (readHeader p).map fun header => (header, p.2)

/-- A header line that does not repeat the first valid header. -/
def headerFault (first : Option (Header × List Char)) (p : Nat × List Char) : Bool :=
  (readHeader p).isNone || first.map Prod.snd != some p.2

def headerFaults (hs : List (Nat × List Char)) : Nat := hs.countP (headerFault (firstHeader hs))

/-- What the record lines come to. -/
structure Tally where
  expectedSeq : Nat := 0
  errors : Nat := 0
  records : List Record := []

namespace Tally

def record (version : Nat) (t : Tally) (p : Nat × List Char) : Tally :=
  if p.1 ≠ version then { t with errors := t.errors + 1 }
  else
    match parseRecord p.2 with
    | .error _ => { t with errors := t.errors + 1 }
    | .ok rec =>
      { expectedSeq := rec.seq + 1
        errors := t.errors + (if rec.kind ∈ (kindsByVersion version).getD [] then 0 else 1) +
          (if rec.seq = t.expectedSeq then 0 else 1)
        records := t.records ++ [rec] }

end Tally

def tally (version : Nat) (ps : List (Nat × List Char)) : Tally :=
  ps.foldl (Tally.record version) {}

/-- The tally of a log, empty without a header. -/
def logTally (stream : List (List Char)) : Tally :=
  match firstHeader (headerLines stream) with
  | none => {}
  | some first => tally first.1.version (recordLines stream)

/-- The error count of a log. -/
def logErrors (stream : List (List Char)) : Nat :=
  headerFaults (headerLines stream) + (logTally stream).errors +
    (if firstHeader (headerLines stream) = none then 1 else 0)

/-! ## One more line -/

section

variable {hs : List (Nat × List Char)} {p : Nat × List Char}

theorem firstHeader_snoc (hs : List (Nat × List Char)) (p : Nat × List Char) :
    firstHeader (hs ++ [p]) =
      (firstHeader hs).or ((readHeader p).map fun header => (header, p.2)) := by
  rw [firstHeader, List.findSome?_append, List.findSome?_singleton]
  rfl

theorem firstHeader_snoc_of_some {first : Header × List Char} (h : firstHeader hs = some first) :
    firstHeader (hs ++ [p]) = some first := by
  rw [firstHeader_snoc, h, Option.some_or]

theorem firstHeader_snoc_of_none (h : firstHeader hs = none) :
    firstHeader (hs ++ [p]) = (readHeader p).map fun header => (header, p.2) := by
  rw [firstHeader_snoc, h, Option.none_or]

theorem readHeader_of_firstHeader_none (h : firstHeader hs = none) (hp : p ∈ hs) :
    readHeader p = none := by
  have hnone := List.findSome?_eq_none_iff.mp h p hp
  exact Option.map_eq_none_iff.mp hnone

/-- Before a valid header, every header line is a fault. -/
theorem countP_of_firstHeader_none (h : firstHeader hs = none)
    (first : Option (Header × List Char)) : hs.countP (headerFault first) = hs.length := by
  apply List.countP_eq_length.mpr
  intro p hp
  rw [headerFault, readHeader_of_firstHeader_none h hp]
  rfl

theorem headerFaults_snoc (hs : List (Nat × List Char)) (p : Nat × List Char) :
    headerFaults (hs ++ [p]) =
      headerFaults hs + (if headerFault (firstHeader (hs ++ [p])) p then 1 else 0) := by
  have hsplit : headerFaults (hs ++ [p]) = hs.countP (headerFault (firstHeader (hs ++ [p]))) +
      (if headerFault (firstHeader (hs ++ [p])) p then 1 else 0) := by
    rw [headerFaults, List.countP_append, List.countP_singleton]
  rw [hsplit]
  cases h : firstHeader hs with
  | none =>
    rw [headerFaults, countP_of_firstHeader_none h, countP_of_firstHeader_none h]
  | some first =>
    rw [firstHeader_snoc_of_some h, headerFaults, h]

end

theorem tally_snoc (version : Nat) (ps : List (Nat × List Char)) (p : Nat × List Char) :
    tally version (ps ++ [p]) = (tally version ps).record version p := by
  rw [tally, List.foldl_append, List.foldl_cons, List.foldl_nil]
  rfl

section

variable (stream : List (List Char)) {s : List Char} {p : Nat × List Char}

theorem headerLines_snoc_of_none (h : headerLine s = none) :
    headerLines (stream ++ [s]) = headerLines stream := by
  simp [headerLines, List.filterMap_append, h]

theorem headerLines_snoc_of_some (h : headerLine s = some p) :
    headerLines (stream ++ [s]) = headerLines stream ++ [p] := by
  simp [headerLines, List.filterMap_append, h]

theorem recordLines_snoc_of_none (h : plainRecordLine s = none) :
    recordLines (stream ++ [s]) = recordLines stream := by
  simp [recordLines, List.filterMap_append, h]

theorem recordLines_snoc_of_some (h : plainRecordLine s = some p) :
    recordLines (stream ++ [s]) = recordLines stream ++ [p] := by
  simp [recordLines, List.filterMap_append, h]

end

theorem plainRecordLine_of_header {s : List Char} {p : Nat × List Char}
    (h : headerLine s = some p) : plainRecordLine s = none := by
  rw [plainRecordLine, h]

theorem plainRecordLine_of_not_header {s : List Char} (h : headerLine s = none) :
    plainRecordLine s = recordLine s := by
  rw [plainRecordLine, h]

/-! ## Records -/

theorem kindsByVersion_of_known {version : Nat} (h : version ∈ versions) :
    ∃ kinds, kindsByVersion version = some kinds := by
  have hall : ∀ v ∈ versions, (kindsByVersion v).isSome := by decide
  exact Option.isSome_iff_exists.mp (hall version h)

namespace Decoder

/-- A step that leaves the header and the records held back as they were. -/
structure SameHeader (d d' : Decoder) : Prop where
  header : d'.header = d.header
  headerHex : d'.headerHex = d.headerHex
  pending : d'.pending = d.pending

namespace SameHeader

theorem refl (d : Decoder) : SameHeader d d := ⟨rfl, rfl, rfl⟩

theorem trans {d₁ d₂ d₃ : Decoder} (h : SameHeader d₁ d₂) (h' : SameHeader d₂ d₃) :
    SameHeader d₁ d₃ :=
  ⟨h'.header.trans h.header, h'.headerHex.trans h.headerHex, h'.pending.trans h.pending⟩

end SameHeader

/-- The decoder's counters are those of the tally, with `base` errors besides. -/
structure Tracks (d : Decoder) (base : Nat) (t : Tally) : Prop where
  expectedSeq : d.expectedSeq = t.expectedSeq
  errors : d.errors = base + t.errors
  records : d.records = t.records
  decoded : d.decoded = t.records.length

theorem error_sameHeader (d : Decoder) (lineno : Nat) (msg : String) :
    SameHeader d (d.error lineno msg) := ⟨rfl, rfl, rfl⟩

theorem error_tracks {d : Decoder} {base : Nat} {t : Tally} (h : d.Tracks base t) (lineno : Nat)
    (msg : String) : (d.error lineno msg).Tracks base { t with errors := t.errors + 1 } where
  expectedSeq := h.expectedSeq
  errors := congrArg (· + 1) h.errors
  records := h.records
  decoded := h.decoded

theorem error_tracks_base {d : Decoder} {base : Nat} {t : Tally} (h : d.Tracks base t)
    (lineno : Nat) (msg : String) : (d.error lineno msg).Tracks (base + 1) t where
  expectedSeq := h.expectedSeq
  errors := by
    have he : d.errors = base + t.errors := h.errors
    show d.errors + 1 = base + 1 + t.errors
    omega
  records := h.records
  decoded := h.decoded

theorem except_caught (d : Decoder) (lineno : Nat) (what : String) {e : PyError}
    (h : e.caught.isSome) : ∃ msg, d.except lineno what e = .ok (d.error lineno msg) := by
  obtain ⟨msg, hmsg⟩ := Option.isSome_iff_exists.mp h
  refine ⟨what ++ ": " ++ msg, ?_⟩
  unfold except
  rw [hmsg]

theorem checkKind_sameHeader (d : Decoder) (lineno version : Nat) (kinds : List Nat)
    (rec : Record) : SameHeader d (d.checkKind lineno version kinds rec) := by
  unfold checkKind
  split
  · exact SameHeader.refl d
  · exact error_sameHeader d _ _

theorem checkSeq_sameHeader (d : Decoder) (lineno : Nat) (rec : Record) :
    SameHeader d (d.checkSeq lineno rec) := by
  unfold checkSeq
  split
  · exact SameHeader.refl d
  · exact error_sameHeader d _ _

theorem feed_sameHeader (d : Decoder) (rec : Record) : SameHeader d (d.feed rec) := by
  unfold feed
  dsimp only
  split <;> exact ⟨rfl, rfl, rfl⟩

theorem accept_sameHeader (d : Decoder) (lineno version : Nat) (kinds : List Nat) (rec : Record) :
    SameHeader d (d.accept lineno version kinds rec) := by
  have hprint (d : Decoder) : SameHeader d (d.printRecord rec) := ⟨rfl, rfl, rfl⟩
  exact (checkKind_sameHeader d lineno version kinds rec).trans
    ((checkSeq_sameHeader _ lineno rec).trans ((hprint _).trans (feed_sameHeader _ rec)))

theorem printHeader_sameHeader (d : Decoder) (header : Header) :
    SameHeader d (d.printHeader header) := by
  unfold printHeader
  have hfold (fields : List (String × List Char)) (d : Decoder) :
      SameHeader d (fields.foldl
        (fun d field => d.print ("  " ++ field.1 ++ ": " ++ String.ofList field.2)) d) := by
    induction fields generalizing d with
    | nil => exact SameHeader.refl d
    | cons field fields ih =>
      have hprint : SameHeader d (d.print ("  " ++ field.1 ++ ": " ++ String.ofList field.2)) :=
        ⟨rfl, rfl, rfl⟩
      exact hprint.trans (ih _)
  have hprint (s : String) : SameHeader d (d.print s) := ⟨rfl, rfl, rfl⟩
  exact (hprint _).trans (hfold _ _)

section

variable {d : Decoder} {base : Nat} {t : Tally}

theorem checkKind_tracks (h : d.Tracks base t) (lineno version : Nat) (kinds : List Nat)
    (rec : Record) : (d.checkKind lineno version kinds rec).Tracks base
      { t with errors := t.errors + (if rec.kind ∈ kinds then 0 else 1) } := by
  unfold checkKind
  split
  · exact h
  · exact error_tracks h _ _

theorem checkSeq_tracks (h : d.Tracks base t) (lineno : Nat) (rec : Record) :
    (d.checkSeq lineno rec).Tracks base
      { t with errors := t.errors + (if rec.seq = t.expectedSeq then 0 else 1) } := by
  unfold checkSeq
  rw [h.expectedSeq]
  split
  · exact h
  · exact error_tracks h _ _

theorem printRecord_tracks (h : d.Tracks base t) (rec : Record) :
    (d.printRecord rec).Tracks base
      { t with expectedSeq := rec.seq + 1, records := t.records ++ [rec] } where
  expectedSeq := rfl
  errors := h.errors
  records := congrArg (· ++ [rec]) h.records
  decoded := by
    have hlen : d.decoded = t.records.length := h.decoded
    show d.decoded + 1 = (t.records ++ [rec]).length
    rw [List.length_append, List.length_singleton, hlen]

theorem feed_tracks (h : d.Tracks base t) (rec : Record) : (d.feed rec).Tracks base t := by
  unfold feed
  dsimp only
  split <;> exact ⟨h.expectedSeq, h.errors, h.records, h.decoded⟩

theorem accept_tracks (h : d.Tracks base t) (lineno version : Nat) (kinds : List Nat)
    (rec : Record) : (d.accept lineno version kinds rec).Tracks base
      { expectedSeq := rec.seq + 1
        errors := t.errors + (if rec.kind ∈ kinds then 0 else 1) +
          (if rec.seq = t.expectedSeq then 0 else 1)
        records := t.records ++ [rec] } :=
  feed_tracks (printRecord_tracks (checkSeq_tracks
    (checkKind_tracks h lineno version kinds rec) lineno rec) rec) rec

theorem printHeader_tracks (header : Header) (h : d.Tracks base t) :
    (d.printHeader header).Tracks base t := by
  unfold printHeader
  have hfold (fields : List (String × List Char)) (d : Decoder) (h : d.Tracks base t) :
      (fields.foldl (fun d field => d.print ("  " ++ field.1 ++ ": " ++ String.ofList field.2))
        d).Tracks base t := by
    induction fields generalizing d with
    | nil => exact h
    | cons field fields ih => exact ih _ ⟨h.expectedSeq, h.errors, h.records, h.decoded⟩
  exact hfold _ _ ⟨h.expectedSeq, h.errors, h.records, h.decoded⟩

/-- `record` never raises once there is a header, and does what the tally does. -/
theorem record_tracks {header : Header} (hd : d.header = some header) (h : d.Tracks base t)
    (lineno digit : Nat) (hexdata : List Char) :
    ∃ d', d.record lineno digit hexdata = .ok d' ∧ SameHeader d d' ∧
      d'.Tracks base (t.record header.version (digit, hexdata)) := by
  unfold record Tally.record
  rw [hd]
  dsimp only
  by_cases hdigit : digit = header.version
  · rw [if_neg (not_not.mpr hdigit), if_neg (not_not.mpr hdigit)]
    cases hrec : parseRecord hexdata with
    | error e =>
      obtain ⟨msg, hmsg⟩ := except_caught d lineno "record" (parseRecord_caught hrec)
      exact ⟨_, hmsg, error_sameHeader d _ _, error_tracks h _ _⟩
    | ok rec =>
      obtain ⟨kinds, hkinds⟩ := kindsByVersion_of_known header.known
      rw [hkinds]
      exact ⟨_, rfl, accept_sameHeader d _ _ _ _, accept_tracks h _ _ _ _⟩
  · rw [if_pos hdigit, if_pos hdigit]
    exact ⟨_, rfl, error_sameHeader d _ _, error_tracks h _ _⟩

theorem recordAll_tracks {header : Header} (hd : d.header = some header) (h : d.Tracks base t)
    (args : List (Nat × Nat × List Char)) :
    ∃ d', d.recordAll args = .ok d' ∧ SameHeader d d' ∧
      d'.Tracks base ((args.map Prod.snd).foldl (Tally.record header.version) t) := by
  induction args generalizing d t with
  | nil => exact ⟨d, rfl, SameHeader.refl d, h⟩
  | cons arg args ih =>
    obtain ⟨lineno, digit, hexdata⟩ := arg
    obtain ⟨d₁, hstep, hsame, htracks⟩ := record_tracks hd h lineno digit hexdata
    obtain ⟨d₂, hrest, hsame', htracks'⟩ := ih (hsame.header.trans hd) htracks
    refine ⟨d₂, ?_, hsame.trans hsame', htracks'⟩
    rw [recordAll, hstep]
    exact hrest

end

end Decoder

/-! ## The whole log -/

/-- The decoder has read the lines of `stream`. -/
structure Reads (stream : List (List Char)) (d : Decoder) : Prop where
  header : d.header = (firstHeader (headerLines stream)).map Prod.fst
  headerHex : d.headerHex = (firstHeader (headerLines stream)).map Prod.snd
  pending : firstHeader (headerLines stream) = none → d.pending.map Prod.snd = recordLines stream
  tracks : d.Tracks (headerFaults (headerLines stream)) (logTally stream)

section

variable {stream : List (List Char)} {s : List Char} {first : Header × List Char}

theorem logTally_of_none (h : firstHeader (headerLines stream) = none) : logTally stream = {} := by
  rw [logTally, h]

theorem logTally_of_some (h : firstHeader (headerLines stream) = some first) :
    logTally stream = tally first.1.version (recordLines stream) := by
  rw [logTally, h]

/-- A record line at the end of a log with a header. -/
theorem logTally_snoc_record (h : firstHeader (headerLines stream) = some first)
    (hh : headerLine s = none) {p : Nat × List Char} (hr : recordLine s = some p) :
    logTally (stream ++ [s]) = (logTally stream).record first.1.version p := by
  have hlines := headerLines_snoc_of_none stream hh
  have hrecs := recordLines_snoc_of_some stream ((plainRecordLine_of_not_header hh).trans hr)
  have h' : firstHeader (headerLines (stream ++ [s])) = some first := by rw [hlines, h]
  rw [logTally_of_some h', hrecs, tally_snoc, ← logTally_of_some h]

end

namespace Reads

variable {stream : List (List Char)} {d : Decoder} {s : List Char}

theorem start (consoleTx : Option Nat) : Reads [] { console := { txAddr := consoleTx } } :=
  ⟨rfl, rfl, fun _ => rfl, ⟨rfl, rfl, rfl, rfl⟩⟩

/-- A line that matches no pattern. -/
theorem plain (h : Reads stream d) (hh : headerLine s = none) (hr : recordLine s = none) :
    Reads (stream ++ [s]) d := by
  have hlines := headerLines_snoc_of_none stream hh
  have hrecs := recordLines_snoc_of_none stream ((plainRecordLine_of_not_header hh).trans hr)
  have htally : logTally (stream ++ [s]) = logTally stream := by
    rw [logTally, logTally, hlines, hrecs]
  exact ⟨hlines ▸ h.header, hlines ▸ h.headerHex, fun hnone => hrecs ▸ h.pending (hlines ▸ hnone),
    by rw [hlines, htally]; exact h.tracks⟩

/-- A record line before the header is held back. -/
theorem holdBack (h : Reads stream d) (hh : headerLine s = none) {digit : Nat}
    {hexdata : List Char} (hr : recordLine s = some (digit, hexdata)) (hd : d.header = none)
    (lineno : Nat) :
    Reads (stream ++ [s]) { d with pending := d.pending ++ [(lineno, digit, hexdata)] } := by
  have hlines := headerLines_snoc_of_none stream hh
  have hrecs := recordLines_snoc_of_some stream ((plainRecordLine_of_not_header hh).trans hr)
  have hnone : firstHeader (headerLines stream) = none :=
    Option.map_eq_none_iff.mp (h.header.symm.trans hd)
  have hnone' : firstHeader (headerLines (stream ++ [s])) = none := by rw [hlines, hnone]
  have htally : logTally (stream ++ [s]) = logTally stream := by
    rw [logTally_of_none hnone, logTally_of_none hnone']
  refine ⟨hlines ▸ h.header, hlines ▸ h.headerHex, fun _ => ?_, ?_⟩
  · show (d.pending ++ [(lineno, digit, hexdata)]).map Prod.snd = recordLines (stream ++ [s])
    rw [List.map_append, h.pending hnone, hrecs]
    rfl
  · rw [hlines, htally]
    exact ⟨h.tracks.expectedSeq, h.tracks.errors, h.tracks.records, h.tracks.decoded⟩

/-- A record line after the header. -/
theorem record (h : Reads stream d) (hh : headerLine s = none) {digit : Nat}
    {hexdata : List Char} (hr : recordLine s = some (digit, hexdata)) {header : Header}
    (hd : d.header = some header) (lineno : Nat) :
    ∃ d', d.record lineno digit hexdata = .ok d' ∧ Reads (stream ++ [s]) d' := by
  have hlines := headerLines_snoc_of_none stream hh
  obtain ⟨first, hfirst, rfl⟩ := Option.map_eq_some_iff.mp (h.header.symm.trans hd)
  obtain ⟨d', hstep, hsame, htracks⟩ := Decoder.record_tracks hd h.tracks lineno digit hexdata
  refine ⟨d', hstep, ?_, ?_, ?_, ?_⟩
  · rw [hlines, hsame.header, h.header]
  · rw [hlines, hsame.headerHex, h.headerHex]
  · rw [hlines, hfirst]
    nofun
  · rw [hlines, logTally_snoc_record hfirst hh hr]
    exact htracks

/-- A header line that does not settle the header: an error or nothing. -/
theorem repeated (h : Reads stream d) {p : Nat × List Char} (hh : Decode.headerLine s = some p)
    (hfirst : firstHeader (headerLines stream ++ [p]) = firstHeader (headerLines stream))
    {d' : Decoder} (hsame : Decoder.SameHeader d d')
    (htracks : d'.Tracks (headerFaults (headerLines stream) +
      (if headerFault (firstHeader (headerLines stream)) p then 1 else 0)) (logTally stream)) :
    Reads (stream ++ [s]) d' := by
  have hlines := headerLines_snoc_of_some stream hh
  have hrecs := recordLines_snoc_of_none stream (plainRecordLine_of_header hh)
  have htally : logTally (stream ++ [s]) = logTally stream := by
    rw [logTally, logTally, hlines, hfirst, hrecs]
  refine ⟨?_, ?_, ?_, ?_⟩
  · rw [hlines, hfirst, hsame.header, h.header]
  · rw [hlines, hfirst, hsame.headerHex, h.headerHex]
  · rw [hlines, hfirst, hsame.pending, hrecs]
    exact h.pending
  · rw [hlines, headerFaults_snoc, hfirst, htally]
    exact htracks

theorem fault (h : Reads stream d) {p : Nat × List Char} (hh : Decode.headerLine s = some p)
    (hfirst : firstHeader (headerLines stream ++ [p]) = firstHeader (headerLines stream))
    (hfault : headerFault (firstHeader (headerLines stream)) p = true) (lineno : Nat)
    (msg : String) : Reads (stream ++ [s]) (d.error lineno msg) := by
  refine h.repeated hh hfirst (Decoder.error_sameHeader d _ _) ?_
  rw [if_pos hfault]
  exact Decoder.error_tracks_base h.tracks _ _

/-- A header line without a valid header. -/
theorem invalid (h : Reads stream d) {p : Nat × List Char} (hh : Decode.headerLine s = some p)
    (hread : readHeader p = none) (lineno : Nat) (msg : String) :
    Reads (stream ++ [s]) (d.error lineno msg) := by
  refine h.fault hh ?_ ?_ lineno msg
  · rw [firstHeader_snoc, hread, Option.map_none, Option.or_none]
  · rw [headerFault, hread]
    rfl

/-- The first valid header: the records held back are read now. -/
theorem settle (h : Reads stream d) {digit : Nat} {hexdata : List Char} {header : Header}
    (hh : Decode.headerLine s = some (digit, hexdata))
    (hread : readHeader (digit, hexdata) = some header) (hd : d.header = none) :
    ∃ d', (d.settle hexdata header).recordAll (d.settle hexdata header).pending = .ok d' ∧
      Reads (stream ++ [s]) { d' with pending := [] } := by
  have hlines := headerLines_snoc_of_some stream hh
  have hrecs := recordLines_snoc_of_none stream (plainRecordLine_of_header hh)
  have hnone : firstHeader (headerLines stream) = none :=
    Option.map_eq_none_iff.mp (h.header.symm.trans hd)
  have hfirst :
      firstHeader (headerLines stream ++ [(digit, hexdata)]) = some (header, hexdata) := by
    rw [firstHeader_snoc_of_none hnone, hread]
    rfl
  have hfirst' : firstHeader (headerLines (stream ++ [s])) = some (header, hexdata) := by
    rw [hlines, hfirst]
  have hfaults :
      headerFaults (headerLines (stream ++ [s])) = headerFaults (headerLines stream) := by
    have hgood : headerFault (some (header, hexdata)) (digit, hexdata) = false := by
      simp [headerFault, hread]
    rw [hlines, headerFaults_snoc, hfirst, hgood]
    rfl
  have hsettled : (d.settle hexdata header).Tracks (headerFaults (headerLines stream)) {} := by
    have htracks := h.tracks
    rw [logTally_of_none hnone] at htracks
    exact Decoder.printHeader_tracks header ⟨htracks.expectedSeq, htracks.errors, htracks.records,
      htracks.decoded⟩
  have hsame := Decoder.printHeader_sameHeader
    { d with header := some header, headerHex := some hexdata } header
  have hpending : (d.settle hexdata header).pending = d.pending := hsame.pending
  obtain ⟨d', hall, hsame', htracks'⟩ := Decoder.recordAll_tracks hsame.header hsettled
    (d.settle hexdata header).pending
  refine ⟨d', hall, ?_, ?_, ?_, ?_⟩
  · rw [hfirst']
    exact (hsame.trans hsame').header
  · rw [hfirst']
    exact (hsame.trans hsame').headerHex
  · rw [hfirst']
    nofun
  · rw [hfaults, logTally_of_some hfirst', hrecs, ← h.pending hnone, ← hpending]
    exact ⟨htracks'.expectedSeq, htracks'.errors, htracks'.records, htracks'.decoded⟩

theorem headerLine (h : Reads stream d) {digit : Nat} {hexdata : List Char}
    (hh : Decode.headerLine s = some (digit, hexdata)) (lineno : Nat) :
    ∃ d', d.headerLine lineno digit hexdata = .ok d' ∧ Reads (stream ++ [s]) d' := by
  unfold Decoder.headerLine
  cases hparse : parseHeader hexdata with
  | error e =>
    have hread : readHeader (digit, hexdata) = none := by
      rw [readHeader, hparse]
    obtain ⟨msg, hmsg⟩ := Decoder.except_caught d lineno "header" (parseHeader_caught hparse)
    exact ⟨_, hmsg, h.invalid hh hread lineno msg⟩
  | ok header =>
    by_cases hdigit : digit = header.version
    · have hread : readHeader (digit, hexdata) = some header := by
        rw [readHeader, hparse]
        exact if_pos hdigit
      dsimp only
      rw [if_neg (not_not.mpr hdigit)]
      cases hd : d.header with
      | none =>
        obtain ⟨d', hall, hreads⟩ := h.settle hh hread hd
        refine ⟨_, ?_, hreads⟩
        dsimp only
        rw [hall]
      | some header' =>
        obtain ⟨first, hfirst, -⟩ := Option.map_eq_some_iff.mp (h.header.symm.trans hd)
        have hhex : d.headerHex = some first.2 := by rw [h.headerHex, hfirst]; rfl
        have hstays := firstHeader_snoc_of_some (p := (digit, hexdata)) hfirst
        dsimp only
        rw [hhex]
        by_cases heq : hexdata = first.2
        · have hgood : headerFault (some first) (digit, hexdata) = false := by
            rw [headerFault, hread, Option.map_some, heq]
            simp
          refine ⟨d, if_neg (by rw [heq, not_not]),
            h.repeated hh (hstays.trans hfirst.symm) (Decoder.SameHeader.refl d) ?_⟩
          rw [hfirst, hgood]
          exact h.tracks
        · have hbad : headerFault (some first) (digit, hexdata) = true := by
            simp [headerFault, Ne.symm heq]
          refine ⟨_, if_pos ?_, h.fault hh (hstays.trans hfirst.symm) (hfirst ▸ hbad) lineno _⟩
          rwa [Ne, Option.some_inj]
    · have hread : readHeader (digit, hexdata) = none := by
        rw [readHeader, hparse]
        exact if_neg hdigit
      exact ⟨_, if_pos hdigit, h.invalid hh hread lineno _⟩

/-- One line of the loop. -/
theorem line (h : Reads stream d) (s : List Char) (lineno : Nat) :
    ∃ d', d.line lineno s = .ok d' ∧ Reads (stream ++ [s]) d' := by
  unfold Decoder.line
  cases hh : Decode.headerLine s with
  | some p =>
    obtain ⟨digit, hexdata⟩ := p
    exact h.headerLine hh lineno
  | none =>
    cases hr : recordLine s with
    | none => exact ⟨d, rfl, h.plain hh hr⟩
    | some p =>
      obtain ⟨digit, hexdata⟩ := p
      by_cases hd : d.header = none
      · exact ⟨_, if_pos hd, h.holdBack hh hr hd lineno⟩
      · obtain ⟨header, hsome⟩ := Option.ne_none_iff_exists'.mp hd
        obtain ⟨d', hstep, hreads⟩ := h.record hh hr hsome lineno
        exact ⟨d', (if_neg hd).trans hstep, hreads⟩

theorem lines (h : Reads stream d) (rest : List (List Char)) (lineno : Nat) :
    ∃ d', d.lines lineno rest = .ok d' ∧ Reads (stream ++ rest) d' := by
  induction rest generalizing stream d lineno with
  | nil => exact ⟨d, rfl, by rwa [List.append_nil]⟩
  | cons s rest ih =>
    obtain ⟨d₁, hstep, hreads⟩ := h.line s lineno
    obtain ⟨d₂, hrest, hreads'⟩ := ih hreads (lineno + 1)
    refine ⟨d₂, ?_, ?_⟩
    · rw [Decoder.lines, hstep]
      exact hrest
    · rwa [List.append_assoc] at hreads'

end Reads

/-- `decode` never raises, and its result is read off the log's own lines. -/
theorem decode_reads (stream : List (List Char)) (consoleTx : Option Nat) :
    ∃ d, decode stream consoleTx = .ok d ∧
      d.header = (firstHeader (headerLines stream)).map Prod.fst ∧
      d.records = (logTally stream).records ∧ d.errors = logErrors stream ∧
      d.decoded = d.records.length := by
  obtain ⟨d, hlines, h⟩ := (Reads.start consoleTx).lines stream 1
  rw [List.nil_append] at h
  refine ⟨d.finish, ?_, ?_⟩
  · rw [decode, hlines]
  · have hdec : d.decoded = d.records.length := by rw [h.tracks.decoded, h.tracks.records]
    unfold Decoder.finish
    dsimp only
    cases hfirst : firstHeader (headerLines stream) with
    | none =>
      have hd : d.header = none := by rw [h.header, hfirst]; rfl
      rw [if_pos hd]
      refine ⟨hd, h.tracks.records, ?_, hdec⟩
      show d.errors + 1 = logErrors stream
      rw [logErrors, if_pos hfirst, h.tracks.errors]
    | some first =>
      have hd : d.header = some first.1 := by rw [h.header, hfirst]; rfl
      rw [if_neg (by rw [hd]; nofun)]
      refine ⟨hd, h.tracks.records, ?_, hdec⟩
      show d.errors = logErrors stream
      rw [logErrors, if_neg (by rw [hfirst]; nofun), h.tracks.errors, Nat.add_zero]

end Decode
end TensorSel4
