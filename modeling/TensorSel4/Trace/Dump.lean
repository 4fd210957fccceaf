/-
`dump_archive` and what it prints.

A dump goes to the serial console a line at a time, so it is modelled as the
list of its lines, each with the newline that ends it.  The strings of
`trace_stamp.h` are the program's build stamp: each is a C string that fits its
header field, and `StampField` carries that.
-/
import Mathlib.Data.List.TakeWhile
import TensorSel4.Bytes.Hex
import TensorSel4.Bytes.Layout
import TensorSel4.Text.Lines
import TensorSel4.Trace.Archive

namespace TensorSel4
namespace Trace

open Bytes

/-! ## The build stamp -/

/-- An ASCII string without NUL, for a header field of `n` bytes. -/
structure StampField (n : Nat) where
  bytes : List UInt8
  ascii : ∀ b ∈ bytes, b.toNat < 128
  nulFree : (0 : UInt8) ∉ bytes
  fits : bytes.length ≤ n

structure Stamp where
  codename : StampField 16
  buildId : StampField 32
  bootloader : StampField 48
  baseband : StampField 48
  gitSha : StampField 48
  toolchainSha256 : StampField 64
  dtbSha256 : StampField 64

/-- The stamp of a build without any of the strings. -/
def Stamp.blank : Stamp where
  codename := ⟨[], nofun, nofun, Nat.zero_le _⟩
  buildId := ⟨[], nofun, nofun, Nat.zero_le _⟩
  bootloader := ⟨[], nofun, nofun, Nat.zero_le _⟩
  baseband := ⟨[], nofun, nofun, Nat.zero_le _⟩
  gitSha := ⟨[], nofun, nofun, Nat.zero_le _⟩
  toolchainSha256 := ⟨[], nofun, nofun, Nat.zero_le _⟩
  dtbSha256 := ⟨[], nofun, nofun, Nat.zero_le _⟩

/-- The string `src`, up to its NUL, cut or filled with NULs to `dstLen` bytes. -/
def copyField (dstLen : Nat) (src : List UInt8) : List UInt8 :=
  let copied := (src.takeWhile (· ≠ 0)).take dstLen
  copied ++ List.replicate (dstLen - copied.length) 0

@[simp] theorem copyField_length (n : Nat) (src : List UInt8) : (copyField n src).length = n := by
  have hle : ((src.takeWhile (· ≠ 0)).take n).length ≤ n := List.length_take_le n _
  rw [copyField, List.length_append, List.length_replicate]
  omega

theorem copyField_stamp {n : Nat} (f : StampField n) :
    copyField n f.bytes = f.bytes ++ List.replicate (n - f.bytes.length) 0 := by
  have hwhole : f.bytes.takeWhile (· ≠ 0) = f.bytes := by
    apply List.takeWhile_eq_self_iff.mpr
    intro b hb
    have hne : b ≠ 0 := fun h0 => f.nulFree (h0 ▸ hb)
    simpa using hne
  rw [copyField, hwhole, List.take_of_length_le f.fits]

/-! ## Structs in memory -/

/-- `TRACE_MAGIC`, `"SEL4TRC"`. -/
def magic : List UInt8 := [0x53, 0x45, 0x4c, 0x34, 0x54, 0x52, 0x43]

namespace TraceRecord

def members (r : TraceRecord) : List Member :=
  [.word 8 r.seq.toNat, .word 8 r.time.toNat, .word 8 r.pc.toNat, .word 8 r.addr.toNat,
    .word 8 r.value.toNat, .word 4 r.esr.toNat, .word 2 r.vcpu.toNat, .word 1 r.producer.toNat,
    .word 1 r.kind.toNat, .word 1 r.size.toNat, .word 1 r.flags.toNat, .array r.reserved0.toList,
    .word 8 r.reserved1.toNat]

def bytes (r : TraceRecord) : List UInt8 := structBytes r.members

theorem members_length (r : TraceRecord) :
    (r.members.flatMap Member.bytes).length = recordSize := by
  simp [members, Member.bytes, recordSize]

theorem members_align (r : TraceRecord) : structAlign r.members = 8 := by
  simp [members, structAlign, Member.align]

theorem bytes_eq (r : TraceRecord) : r.bytes = r.members.flatMap Member.bytes := by
  apply structBytes_packed
  · simp [members, Packed, Member.align, Member.bytes]
  · rw [members_align, members_length]
    decide

/-- `sizeof(struct trace_record) == TRACE_RECORD_SIZE`. -/
theorem bytes_length (r : TraceRecord) : r.bytes.length = recordSize := by
  rw [bytes_eq, members_length]

end TraceRecord

/-- The `struct trace_header` that `send_header` fills in. -/
def headerMembers (stamp : Stamp) (cntfrq : UInt32) : List Member :=
  [.array (copyField 8 magic), .word 2 version, .word 2 recordSize, .word 4 cntfrq.toNat,
    .array (copyField 16 stamp.codename.bytes), .array (copyField 32 stamp.buildId.bytes),
    .array (copyField 48 stamp.bootloader.bytes), .array (copyField 48 stamp.baseband.bytes),
    .array (copyField 48 stamp.gitSha.bytes), .array (copyField 64 stamp.toolchainSha256.bytes),
    .array (copyField 64 stamp.dtbSha256.bytes)]

def headerBytes (stamp : Stamp) (cntfrq : UInt32) : List UInt8 :=
  structBytes (headerMembers stamp cntfrq)

section

variable (stamp : Stamp) (cntfrq : UInt32)

theorem headerMembers_length :
    ((headerMembers stamp cntfrq).flatMap Member.bytes).length = headerSize := by
  simp [headerMembers, Member.bytes, headerSize]

theorem headerMembers_align : structAlign (headerMembers stamp cntfrq) = 4 := by
  simp [headerMembers, structAlign, Member.align]

theorem headerBytes_eq :
    headerBytes stamp cntfrq = (headerMembers stamp cntfrq).flatMap Member.bytes := by
  apply structBytes_packed
  · simp [headerMembers, Packed, Member.align, Member.bytes]
  · rw [headerMembers_align, headerMembers_length]
    decide

/-- `sizeof(struct trace_header) == TRACE_HEADER_SIZE`. -/
theorem headerBytes_length : (headerBytes stamp cntfrq).length = headerSize := by
  rw [headerBytes_eq, headerMembers_length]

end

/-! ## Lines -/

def linePrefixLen : Nat := 5
def lineMax : Nat := linePrefixLen + 2 * headerSize + 2

/-- `VERSION_PREFIX(tag, TRACE_VERSION)`. -/
def versionPrefix (tag : List Char) : List Char := tag ++ Nat.toDigits 10 version ++ [' ']

def headerPrefix : List Char := versionPrefix ['T', 'R', 'H']
def recordPrefix : List Char := versionPrefix ['T', 'R', 'C']

def emitLine (pre : List Char) (data : List UInt8) : List Char :=
  pre.take linePrefixLen ++ toHex data ++ ['\n']

/-- The line and the NUL after it fit `line`. -/
theorem emitLine_fits (pre : List Char) {data : List UInt8} (h : data.length ≤ headerSize) :
    (emitLine pre data).length + 1 ≤ lineMax := by
  have hpre : (pre.take linePrefixLen).length ≤ linePrefixLen := List.length_take_le _ _
  rw [emitLine, List.length_append, List.length_append, List.length_singleton, toHex_length,
    lineMax]
  omega

def sendHeader (stamp : Stamp) (cntfrq : UInt32) : List Char :=
  emitLine headerPrefix (headerBytes stamp cntfrq)

def emitRecord (r : TraceRecord) : List Char := emitLine recordPrefix r.bytes

def putDecimal (val : Nat) : List Char :=
  if val < 10 then [Char.ofNat (48 + val)]
  else putDecimal (val / 10) ++ [Char.ofNat (48 + val % 10)]

def summary (archive : TraceArchive) : List Char :=
  "TRACER|INFO: dumped ".toList ++ putDecimal archive.count.toNat ++ " records, ".toList ++
    putDecimal archive.notArchived.toNat ++ " not archived (archive full)\n".toList

/-- The loop of `dump_archive`; `since` is `records_since_header`. -/
def dumpRecords (stamp : Stamp) (cntfrq : UInt32) : Nat → List TraceRecord → List (List Char)
  | _, [] => []
  | since, r :: rs =>
    if since = headerInterval then
      sendHeader stamp cntfrq :: emitRecord r :: dumpRecords stamp cntfrq 1 rs
    else emitRecord r :: dumpRecords stamp cntfrq (since + 1) rs

/-- The `TRH` and `TRC` lines of a dump. -/
def dumpTraceLines (stamp : Stamp) (cntfrq : UInt32) (archive : TraceArchive) : List (List Char) :=
  dumpRecords stamp cntfrq headerInterval archive.stored

def dumpArchive (stamp : Stamp) (cntfrq : UInt32) (archive : TraceArchive) : List (List Char) :=
  dumpTraceLines stamp cntfrq archive ++ [summary archive]

end Trace
end TensorSel4
