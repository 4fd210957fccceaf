/-
`tools/mkcpio.py`: the initramfs with `/init`, `/dev/console` and `/dev/kmsg`.

`entry` pads the name and the data by the length of the entry itself; a reader aligns by
the offset in the archive.  Every entry's length is a multiple of four, so the two agree
from the first entry on.
-/
import TensorSel4.Initramfs.Newc

namespace TensorSel4
namespace Mkcpio

open Bytes Newc

/-! ## The program -/

def pad4 (n : Nat) : Nat := (4 - n % 4) % 4

def zeros (n : Nat) : List UInt8 := List.replicate n 0

/-- `name.encode("ascii")`; any other character is an error. -/
def encodeAscii (cs : List Char) : Option (List UInt8) :=
  if cs.all fun c => c.toNat < 128 then some (bytesOf cs) else none

def hexField (f : Nat) : List UInt8 := bytesOf (paddedHex 8 f)

def entry (ino : Nat) (name : List Char) (mode : Nat) (data : List UInt8 := [])
    (rdev : Nat × Nat := (0, 0)) : Option (List UInt8) :=
  (encodeAscii name).map fun encoded =>
    let nameBytes := encoded ++ [0]
    let fields := [ino, mode, 0, 0, 1, 0, data.length, 0, 0, rdev.1, rdev.2,
      nameBytes.length, 0]
    let header := bytesOf magic ++ fields.flatMap hexField
    let out := header ++ nameBytes ++ zeros (pad4 (header.length + nameBytes.length))
    out ++ data ++ zeros (pad4 data.length)

/-- The arguments of one call of `entry`: a name of ASCII characters without a NUL, and
numbers of 32 bits. -/
structure Item where
  ino : Nat
  name : List Char
  mode : Nat
  data : List UInt8
  rdev : Nat × Nat
  ascii : ∀ c ∈ name, c.toNat < 128
  nul_free : ∀ c ∈ name, c.toNat ≠ 0
  mode_lt : mode < 2 ^ 32
  data_lt : data.length < 2 ^ 32
  rdev_lt : rdev.1 < 2 ^ 32 ∧ rdev.2 < 2 ^ 32

def Item.entry (it : Item) : Option (List UInt8) :=
  Mkcpio.entry it.ino it.name it.mode it.data it.rdev

/-- What a reader is to find. -/
def Item.newc (it : Item) : Newc.Entry where
  ino := it.ino
  mode := it.mode
  rdev := it.rdev
  name := it.name
  data := it.data

/-- `b"".join`. -/
def join : List (Option (List UInt8)) → Option (List UInt8)
  | [] => some []
  | part :: parts => part.bind fun bytes => (join parts).map fun rest => bytes ++ rest

def archive (items : List Item) : Option (List UInt8) :=
  join (items.map Item.entry ++ [entry 0 trailerName 0])

def S_IFDIR : Nat := 0o040000
def S_IFCHR : Nat := 0o020000
def S_IFREG : Nat := 0o100000

/-- The archive `main` writes, for the bytes of the init executable. -/
def main (init : List UInt8) : Option (List UInt8) :=
  join [
    entry 1 "dev".toList (S_IFDIR ||| 0o755),
    entry 2 "dev/console".toList (S_IFCHR ||| 0o600) [] (5, 1),
    entry 3 "dev/kmsg".toList (S_IFCHR ||| 0o600) [] (1, 11),
    entry 4 "init".toList (S_IFREG ||| 0o755) init,
    entry 0 trailerName 0]

/-! ## One entry -/

theorem pad4_dvd (n : Nat) : 4 ∣ n + pad4 n := by
  rw [pad4]
  omega

/-- At a multiple of four the padding of a length is the alignment of the offset. -/
theorem align4_add {off : Nat} (h : 4 ∣ off) (n : Nat) : align4 (off + n) = off + (n + pad4 n) := by
  rw [align4, pad4]
  omega

theorem hexField_length {f : Nat} (h : f < 2 ^ 32) : (hexField f).length = 8 := by
  rw [hexField, bytesOf_length]
  exact paddedHex_length (by omega) (by omega)

theorem hexNumber_hexField (f : Nat) : hexNumber (textOf (hexField f)) = some f := by
  have hnumber := hexNumber_paddedHex 8 f
  have hascii : ∀ c ∈ paddedHex 8 f, c.toNat < 128 := by
    intro c hc
    obtain ⟨d, hd⟩ := hexValue_of_hexFrom hnumber c hc
    exact hexValue_ascii hd
  rw [hexField, textOf_bytesOf hascii]
  exact hnumber

theorem fields_length {fields : List Nat} (h : ∀ f ∈ fields, f < 2 ^ 32) :
    (fields.flatMap hexField).length = 8 * fields.length := by
  induction fields with
  | nil => rfl
  | cons f fields ih =>
    have hrest := ih fun g hg => h g (List.mem_cons_of_mem f hg)
    have hfirst := hexField_length (h f List.mem_cons_self)
    rw [List.flatMap_cons, List.length_append, List.length_cons]
    omega

theorem readFields_fields {fields : List Nat} (h : ∀ f ∈ fields, f < 2 ^ 32)
    (rest : List UInt8) :
    readFields fields.length (fields.flatMap hexField ++ rest) = some fields := by
  induction fields with
  | nil => rfl
  | cons f fields ih =>
    have hlength := hexField_length (h f List.mem_cons_self)
    have hrest := ih fun g hg => h g (List.mem_cons_of_mem f hg)
    rw [List.flatMap_cons, List.append_assoc, List.length_cons, readFields,
      List.take_left' hlength, List.drop_left' hlength, hexNumber_hexField, hrest, if_neg]
    · rfl
    · rw [List.length_append]
      omega

/-! ## An item in the archive -/

/-- The header's other two numbers fit their eight digits. -/
structure Item.Fits (it : Item) : Prop where
  ino_lt : it.ino < 2 ^ 32
  name_lt : it.name.length + 1 < 2 ^ 32

namespace Item

def fields (it : Item) : List Nat :=
  [it.ino, it.mode, 0, 0, 1, 0, it.data.length, 0, 0, it.rdev.1, it.rdev.2, it.name.length + 1, 0]

def header (it : Item) : List UInt8 := bytesOf magic ++ it.fields.flatMap hexField

def nameBytes (it : Item) : List UInt8 := bytesOf it.name ++ [0]

def namePart (it : Item) : List UInt8 :=
  it.nameBytes ++ zeros (pad4 (it.header.length + it.nameBytes.length))

def dataPart (it : Item) : List UInt8 := it.data ++ zeros (pad4 it.data.length)

def bytes (it : Item) : List UInt8 := it.header ++ (it.namePart ++ it.dataPart)

theorem bytes_split (it : Item) : ∃ rest, it.bytes = it.header ++ (bytesOf it.name ++ rest) := by
  refine ⟨[0] ++ (zeros (pad4 (it.header.length + it.nameBytes.length)) ++ it.dataPart), ?_⟩
  rw [bytes, namePart, nameBytes]
  simp only [List.append_assoc]

variable {it : Item}

theorem nameBytes_length : it.nameBytes.length = it.name.length + 1 := by
  rw [nameBytes, List.length_append, bytesOf_length, List.length_singleton]

theorem entry_eq (it : Item) : it.entry = some it.bytes := by
  have hlength : (bytesOf it.name ++ [0]).length = it.name.length + 1 := nameBytes_length
  have hascii : (it.name.all fun c => c.toNat < 128) = true :=
    List.all_eq_true.mpr fun c hc => decide_eq_true (it.ascii c hc)
  rw [entry, Mkcpio.entry, encodeAscii, if_pos hascii, Option.map_some]
  simp only [hlength, bytes, namePart, dataPart, header, nameBytes, fields, List.append_assoc]

theorem fields_lt (h : it.Fits) : ∀ f ∈ it.fields, f < 2 ^ 32 := by
  have hino := h.ino_lt
  have hname := h.name_lt
  have hmode := it.mode_lt
  have hdata := it.data_lt
  have hrdev := it.rdev_lt
  simp only [fields, List.forall_mem_cons]
  simp
  omega

theorem header_length (h : it.Fits) : it.header.length = headerSize := by
  rw [header, List.length_append, fields_length (fields_lt h)]
  rfl

theorem namePart_length (h : it.Fits) :
    it.namePart.length = it.name.length + 1 + pad4 (headerSize + (it.name.length + 1)) := by
  rw [namePart, List.length_append, header_length h, nameBytes_length, zeros,
    List.length_replicate]

theorem dataPart_length : it.dataPart.length = it.data.length + pad4 it.data.length := by
  rw [dataPart, List.length_append, zeros, List.length_replicate]

theorem bytes_length (h : it.Fits) : it.bytes.length =
    headerSize + (it.name.length + 1) + pad4 (headerSize + (it.name.length + 1)) +
      (it.data.length + pad4 it.data.length) := by
  rw [bytes, List.length_append, List.length_append, header_length h, namePart_length h,
    dataPart_length]
  omega

theorem dvd_bytes_length (h : it.Fits) : 4 ∣ it.bytes.length := by
  rw [bytes_length h]
  exact Nat.dvd_add (pad4_dvd _) (pad4_dvd _)

/-- The name's bytes end in the only NUL among them. -/
theorem takeWhile_nameBytes : textOf (it.nameBytes.takeWhile (· ≠ 0)) = it.name := by
  have hpos : ∀ b ∈ bytesOf it.name, decide (b ≠ 0) = true := fun b hb =>
    decide_eq_true (bytesOf_ne_zero it.ascii it.nul_free b hb)
  rw [nameBytes, List.takeWhile_append_of_pos hpos, List.takeWhile_cons_of_neg (by simp),
    List.append_nil, textOf_bytesOf it.ascii]

/-! The reader at the offset of an entry, whatever stands around it. -/

section Reading

variable {before after : List UInt8}

theorem drop_header (h : it.Fits) :
    (before ++ (it.bytes ++ after)).drop (before.length + headerSize) =
      it.namePart ++ (it.dataPart ++ after) := by
  rw [List.drop_length_add_append, bytes, List.append_assoc,
    List.drop_left' (header_length h), List.append_assoc]

theorem readFields_header (h : it.Fits) :
    readFields 13 ((before ++ (it.bytes ++ after)).drop (before.length + 6)) =
      some it.fields := by
  have hmagic : (bytesOf magic).length = 6 := rfl
  rw [List.drop_length_add_append, bytes, header, List.append_assoc, List.append_assoc,
    List.drop_left' hmagic]
  exact readFields_fields (fields_lt h) _

theorem take_magic : textOf (((before ++ (it.bytes ++ after)).drop before.length).take 6) =
    magic := by
  have hmagic : (bytesOf magic).length = 6 := rfl
  rw [List.drop_left, bytes, header, List.append_assoc, List.append_assoc,
    List.take_left' hmagic]
  rfl

theorem take_name (h : it.Fits) :
    ((before ++ (it.bytes ++ after)).drop (before.length + headerSize)).take
      (it.name.length + 1) = it.nameBytes := by
  rw [drop_header h, namePart, List.append_assoc, List.take_left' nameBytes_length]

/-- The name is padded by the length of the entry so far, and read up to a multiple of
four of the archive. -/
theorem dataOff_eq (h : it.Fits) (hbefore : 4 ∣ before.length) :
    align4 (before.length + headerSize + (it.name.length + 1)) =
      before.length + headerSize + it.namePart.length := by
  rw [Nat.add_assoc, align4_add hbefore, namePart_length h]
  omega

theorem take_data (h : it.Fits) (hbefore : 4 ∣ before.length) :
    ((before ++ (it.bytes ++ after)).drop
      (align4 (before.length + headerSize + (it.name.length + 1)))).take it.data.length =
      it.data := by
  rw [dataOff_eq h hbefore, ← List.drop_drop, drop_header h, List.drop_left, dataPart,
    List.append_assoc, List.take_left]

theorem next_eq (h : it.Fits) (hbefore : 4 ∣ before.length) :
    align4 (align4 (before.length + headerSize + (it.name.length + 1)) + it.data.length) =
      before.length + it.bytes.length := by
  have hdata : 4 ∣ align4 (before.length + headerSize + (it.name.length + 1)) := dvd_align4 _
  rw [align4_add hdata, dataOff_eq h hbefore, namePart_length h, bytes_length h]
  omega

theorem readEntry_bytes (h : it.Fits) (hbefore : 4 ∣ before.length) :
    readEntry (before ++ (it.bytes ++ after)) before.length =
      some (it.newc, before.length + it.bytes.length) := by
  have hlast : it.nameBytes.getLast? = some 0 := List.getLast?_concat
  rw [readEntry, if_pos take_magic, readFields_header h]
  simp only [fields, take_name h, take_data h hbefore, next_eq h hbefore, nameBytes_length,
    hlast, and_self, if_true, takeWhile_nameBytes]
  rfl

end Reading

end Item

/-! ## The whole archive -/

theorem trailerName_ascii : ∀ c ∈ trailerName, c.toNat < 128 := by
  unfold trailerName
  simp

theorem trailerName_nul_free : ∀ c ∈ trailerName, c.toNat ≠ 0 := by
  unfold trailerName
  simp

/-- The last entry. -/
def trailer : Item where
  ino := 0
  name := trailerName
  mode := 0
  data := []
  rdev := (0, 0)
  ascii := trailerName_ascii
  nul_free := trailerName_nul_free
  mode_lt := Nat.two_pow_pos 32
  data_lt := Nat.two_pow_pos 32
  rdev_lt := ⟨Nat.two_pow_pos 32, Nat.two_pow_pos 32⟩

theorem trailer_fits : trailer.Fits := ⟨by decide, by decide⟩

/-- The entries of an archive with the offsets of their headers, the first at `off`. -/
def placed : Nat → List Item → List (Nat × Newc.Entry)
  | _, [] => []
  | off, it :: items => (off, it.newc) :: placed (off + it.bytes.length) items

theorem placed_entries (off : Nat) (items : List Item) :
    (placed off items).map Prod.snd = items.map Item.newc := by
  induction items generalizing off with
  | nil => rfl
  | cons it items ih =>
    rw [placed, List.map_cons, List.map_cons, ih]

theorem dvd_flatMap {items : List Item} (h : ∀ it ∈ items, it.Fits) :
    4 ∣ (items.flatMap Item.bytes).length := by
  induction items with
  | nil => exact Nat.dvd_zero 4
  | cons it items ih =>
    rw [List.flatMap_cons, List.length_append]
    exact Nat.dvd_add (Item.dvd_bytes_length (h it List.mem_cons_self))
      (ih fun it' hit => h it' (List.mem_cons_of_mem it hit))

theorem placed_aligned {off : Nat} (hoff : 4 ∣ off) {items : List Item}
    (h : ∀ it ∈ items, it.Fits) : ∀ e ∈ placed off items, 4 ∣ e.1 := by
  induction items generalizing off with
  | nil => simp [placed]
  | cons it items ih =>
    have hnext := Nat.dvd_add hoff (Item.dvd_bytes_length (h it List.mem_cons_self))
    rw [placed, List.forall_mem_cons]
    exact ⟨hoff, ih hnext fun it' hit => h it' (List.mem_cons_of_mem it hit)⟩

theorem archive_eq (items : List Item) :
    archive items = some (items.flatMap Item.bytes ++ trailer.bytes) := by
  induction items with
  | nil =>
    have htrailer : entry 0 trailerName 0 = some trailer.bytes := trailer.entry_eq
    rw [archive, List.map_nil, List.nil_append, join, htrailer]
    simp [join]
  | cons it items ih =>
    rw [archive] at ih
    rw [archive, List.map_cons, List.cons_append, join, ih, it.entry_eq, Option.bind_some,
      Option.map_some, List.flatMap_cons, List.append_assoc]

/-- Each round of the reader takes the next item, until the trailer. -/
theorem readFrom_items {items : List Item} (hfits : ∀ it ∈ items, it.Fits)
    (hname : ∀ it ∈ items, it.name ≠ trailerName) {before : List UInt8}
    (hbefore : 4 ∣ before.length) {fuel : Nat} (hfuel : items.length < fuel) :
    readFrom fuel (before ++ (items.flatMap Item.bytes ++ trailer.bytes)) before.length =
      some (placed before.length items,
        before.length + (items.flatMap Item.bytes).length) := by
  induction items generalizing before fuel with
  | nil =>
    obtain ⟨fuel, rfl⟩ := Nat.exists_eq_add_of_lt hfuel
    have hread : readEntry (before ++ (trailer.bytes ++ [])) before.length =
        some (trailer.newc, before.length + trailer.bytes.length) :=
      Item.readEntry_bytes trailer_fits hbefore
    rw [List.append_nil] at hread
    rw [List.flatMap_nil, List.nil_append, readFrom, hread]
    rfl
  | cons it items ih =>
    obtain ⟨fuel, rfl⟩ := Nat.exists_eq_add_of_lt hfuel
    have hit := hfits it List.mem_cons_self
    have hread : readEntry
        (before ++ (it.bytes ++ (items.flatMap Item.bytes ++ trailer.bytes))) before.length =
        some (it.newc, before.length + it.bytes.length) := Item.readEntry_bytes hit hbefore
    have hnot : it.newc.name ≠ trailerName := hname it List.mem_cons_self
    have hnext : 4 ∣ (before ++ it.bytes).length := by
      rw [List.length_append]
      exact Nat.dvd_add hbefore (Item.dvd_bytes_length hit)
    have hrest := ih (fun it' h => hfits it' (List.mem_cons_of_mem it h))
      (fun it' h => hname it' (List.mem_cons_of_mem it h)) hnext
      (show items.length < (it :: items).length + fuel by rw [List.length_cons]; omega)
    rw [List.append_assoc, List.length_append] at hrest
    rw [List.flatMap_cons, List.append_assoc, readFrom, hread, Option.bind_some]
    simp only [if_neg hnot, hrest, Option.map_some, placed, List.length_append, Nat.add_assoc]

/-- A reader finds the entries of the archive, every header at a multiple of four. -/
def ReadsBack (items : List Item) : Prop :=
  ∃ bytes entries trailer, archive items = some bytes ∧
    Newc.read bytes = some (entries, trailer) ∧ entries.map Prod.snd = items.map Item.newc ∧
    (∀ e ∈ entries, 4 ∣ e.1) ∧ 4 ∣ trailer

theorem bytes_pos (it : Item) : 0 < it.bytes.length := by
  rw [Item.bytes, Item.header, List.append_assoc, List.length_append]
  exact Nat.add_pos_left (by decide) _

theorem length_le_flatMap (items : List Item) :
    items.length ≤ (items.flatMap Item.bytes).length := by
  induction items with
  | nil => exact Nat.zero_le _
  | cons it items ih =>
    have hpos := bytes_pos it
    rw [List.flatMap_cons, List.length_append, List.length_cons]
    omega

theorem read_items {items : List Item} (hfits : ∀ it ∈ items, it.Fits)
    (hname : ∀ it ∈ items, it.name ≠ trailerName) :
    Newc.read (items.flatMap Item.bytes ++ trailer.bytes) =
      some (placed 0 items, (items.flatMap Item.bytes).length) := by
  have hfuel : items.length < (items.flatMap Item.bytes ++ trailer.bytes).length := by
    have hle := length_le_flatMap items
    have hpos := bytes_pos trailer
    rw [List.length_append]
    omega
  have hstart : 4 ∣ ([] : List UInt8).length := Nat.dvd_zero 4
  have hread := readFrom_items hfits hname hstart hfuel
  rw [List.nil_append, List.length_nil, Nat.zero_add] at hread
  exact hread

/-! ## The archive of `main` -/

theorem dev_name : ∀ c ∈ "dev".toList, c.toNat < 128 ∧ c.toNat ≠ 0 := by simp

theorem console_name : ∀ c ∈ "dev/console".toList, c.toNat < 128 ∧ c.toNat ≠ 0 := by simp

theorem kmsg_name : ∀ c ∈ "dev/kmsg".toList, c.toNat < 128 ∧ c.toNat ≠ 0 := by simp

theorem init_name : ∀ c ∈ "init".toList, c.toNat < 128 ∧ c.toNat ≠ 0 := by simp

theorem modes_lt : S_IFDIR ||| 0o755 < 2 ^ 32 ∧ S_IFCHR ||| 0o600 < 2 ^ 32 ∧
    S_IFREG ||| 0o755 < 2 ^ 32 := by decide

theorem rdevs_lt : 5 < 2 ^ 32 ∧ 11 < 2 ^ 32 := by decide

/-- A directory without data. -/
def devItem : Item where
  ino := 1
  name := "dev".toList
  mode := S_IFDIR ||| 0o755
  data := []
  rdev := (0, 0)
  ascii := fun c h => (dev_name c h).1
  nul_free := fun c h => (dev_name c h).2
  mode_lt := modes_lt.1
  data_lt := Nat.two_pow_pos 32
  rdev_lt := ⟨Nat.two_pow_pos 32, Nat.two_pow_pos 32⟩

def consoleItem : Item where
  ino := 2
  name := "dev/console".toList
  mode := S_IFCHR ||| 0o600
  data := []
  rdev := (5, 1)
  ascii := fun c h => (console_name c h).1
  nul_free := fun c h => (console_name c h).2
  mode_lt := modes_lt.2.1
  data_lt := Nat.two_pow_pos 32
  rdev_lt := ⟨rdevs_lt.1, Nat.one_lt_two_pow (Nat.succ_ne_zero 31)⟩

def kmsgItem : Item where
  ino := 3
  name := "dev/kmsg".toList
  mode := S_IFCHR ||| 0o600
  data := []
  rdev := (1, 11)
  ascii := fun c h => (kmsg_name c h).1
  nul_free := fun c h => (kmsg_name c h).2
  mode_lt := modes_lt.2.1
  data_lt := Nat.two_pow_pos 32
  rdev_lt := ⟨Nat.one_lt_two_pow (Nat.succ_ne_zero 31), rdevs_lt.2⟩

def initItem (init : List UInt8) (h : init.length < 2 ^ 32) : Item where
  ino := 4
  name := "init".toList
  mode := S_IFREG ||| 0o755
  data := init
  rdev := (0, 0)
  ascii := fun c h => (init_name c h).1
  nul_free := fun c h => (init_name c h).2
  mode_lt := modes_lt.2.2
  data_lt := h
  rdev_lt := ⟨Nat.two_pow_pos 32, Nat.two_pow_pos 32⟩

def mainItems (init : List UInt8) (h : init.length < 2 ^ 32) : List Item :=
  [devItem, consoleItem, kmsgItem, initItem init h]

theorem main_eq {init : List UInt8} (h : init.length < 2 ^ 32) :
    main init = archive (mainItems init h) := rfl

theorem mainItems_fit {init : List UInt8} (h : init.length < 2 ^ 32) :
    ∀ it ∈ mainItems init h, it.Fits := by
  have hino : 4 < 2 ^ 32 := by decide
  have hname : "init".toList.length + 1 < 2 ^ 32 := by decide
  simp only [mainItems, List.forall_mem_cons]
  exact ⟨⟨by decide, by decide⟩, ⟨by decide, by decide⟩, ⟨by decide, by decide⟩,
    ⟨hino, hname⟩, fun it hit => absurd hit List.not_mem_nil⟩

theorem mainItems_names {init : List UInt8} (h : init.length < 2 ^ 32) :
    ∀ it ∈ mainItems init h, it.name ≠ trailerName := by
  have hinit : "init".toList ≠ trailerName := by decide
  simp only [mainItems, List.forall_mem_cons]
  exact ⟨by decide, by decide, by decide, hinit, fun it hit => absurd hit List.not_mem_nil⟩

/-- The kernel finds the directory, the two devices and the executable, whatever its
bytes. -/
theorem read_main {init : List UInt8} (h : init.length < 2 ^ 32) :
    (main init).bind Newc.read = some (placed 0 (mainItems init h),
      ((mainItems init h).flatMap Item.bytes).length) := by
  rw [main_eq h, archive_eq, Option.bind_some,
    read_items (mainItems_fit h) (mainItems_names h)]

/-- The archive parses back.  The numbers of the header that the caller does not bound are
the inode number and the name's length, and a reader stops at the trailer's name. -/
theorem archive_reads_back (items : List Item) (hfits : ∀ it ∈ items, it.Fits)
    (hname : ∀ it ∈ items, it.name ≠ trailerName) : ReadsBack items :=
  ⟨_, _, _, archive_eq items, read_items hfits hname, placed_entries 0 items,
    placed_aligned (Nat.dvd_zero 4) hfits, dvd_flatMap hfits⟩

/-- An executable of five bytes, so that its data are padded. -/
def elfInit : List UInt8 := [0x7f, 0x45, 0x4c, 0x46, 0x02]

theorem elfInit_lt : elfInit.length < 2 ^ 32 := by decide

theorem archive_reads_back_main : ReadsBack (mainItems elfInit elfInit_lt) :=
  archive_reads_back (mainItems elfInit elfInit_lt) (mainItems_fit elfInit_lt)
    (mainItems_names elfInit_lt)

/-! ## Archives that do not parse back -/

/-- An inode number of nine digits moves the rest of the header. -/
def wideItem : Item := { devItem with ino := 2 ^ 32 }

theorem as_name {k : Nat} : ∀ c ∈ List.replicate k 'a', c.toNat < 128 ∧ c.toNat ≠ 0 := by
  intro c hc
  rw [List.eq_of_mem_replicate hc]
  decide

/-- With its NUL the name is one byte longer than eight digits can say. -/
def longItem : Item :=
  { devItem with
    name := List.replicate (2 ^ 32 - 1) 'a'
    ascii := fun c h => (as_name c h).1
    nul_free := fun c h => (as_name c h).2 }

theorem readsBack_iff (items : List Item) : ReadsBack items ↔
    ∃ entries trailer, Newc.read (items.flatMap Item.bytes ++ Mkcpio.trailer.bytes) =
      some (entries, trailer) ∧ entries.map Prod.snd = items.map Item.newc ∧
      (∀ e ∈ entries, 4 ∣ e.1) ∧ 4 ∣ trailer := by
  rw [ReadsBack, archive_eq]
  constructor
  · rintro ⟨bytes, entries, trailer, hbytes, h⟩
    cases hbytes
    exact ⟨entries, trailer, h⟩
  · rintro ⟨entries, trailer, h⟩
    exact ⟨_, entries, trailer, rfl, h⟩

theorem not_readsBack_of_none {items : List Item}
    (h : readEntry (items.flatMap Item.bytes ++ trailer.bytes) 0 = none) : ¬ ReadsBack items := by
  rw [readsBack_iff]
  rintro ⟨entries, last, hread, -⟩
  rw [Newc.read] at hread
  cases hfuel : (items.flatMap Item.bytes ++ trailer.bytes).length with
  | zero =>
    rw [hfuel, readFrom] at hread
    cases hread
  | succ fuel =>
    rw [hfuel, readFrom, h] at hread
    cases hread

theorem trailer_ends : ¬ ReadsBack [trailer] := by
  have hread : Newc.read ([trailer].flatMap Item.bytes ++ trailer.bytes) = some ([], 0) := by
    decide +kernel
  rw [readsBack_iff, hread]
  rintro ⟨entries, last, h, hentries, -⟩
  cases h
  cases hentries

theorem wideItem_unread : ¬ ReadsBack [wideItem] := by
  apply not_readsBack_of_none
  decide +kernel

/-- The header of `longItem` as a reader sees it, without its last digit. -/
def longFields : List Nat := [1, S_IFDIR ||| 0o755, 0, 0, 1, 0, 0, 0, 0, 0, 0, 2 ^ 28, 0]

theorem longFields_lt : ∀ f ∈ longFields, f < 2 ^ 32 := by decide

theorem longItem_header :
    longItem.header = bytesOf magic ++ (longFields.flatMap hexField ++ bytesOf ['0']) := by
  have hname : longItem.name.length = 2 ^ 32 - 1 := List.length_replicate
  have hlength : longItem.name.length + 1 = 2 ^ 32 := by omega
  rw [Item.header, Item.fields, hlength]
  decide +kernel

/-- The name read is cut inside the `a`s. -/
theorem longItem_name (rest : List UInt8) :
    ((bytesOf ['0'] ++ (bytesOf longItem.name ++ rest)).take (2 ^ 28)).getLast? =
      some (UInt8.ofNat 'a'.toNat) := by
  have hname : bytesOf longItem.name =
      List.replicate (2 ^ 32 - 1) (UInt8.ofNat 'a'.toNat) := List.map_replicate
  have htake : (2 : Nat) ^ 28 = 2 ^ 28 - 1 + 1 := rfl
  have hone : bytesOf ['0'] = [UInt8.ofNat '0'.toNat] := rfl
  rw [hname, hone, htake, List.singleton_append, List.take_succ_cons,
    List.take_append_of_le_length (by rw [List.length_replicate]; omega), List.take_replicate,
    List.getLast?_cons, List.getLast?_replicate]
  rfl

theorem readEntry_longFields {archive : List UInt8}
    (hfields : readFields 13 (archive.drop 6) = some longFields)
    (hlast : ((archive.drop headerSize).take (2 ^ 28)).getLast? ≠ some 0) :
    readEntry archive 0 = none := by
  rw [readEntry]
  split
  · simp only [Nat.zero_add, hfields, longFields]
    exact if_neg fun hread => hlast hread.2.1
  · rfl

theorem longItem_unread : ¬ ReadsBack [longItem] := by
  have hmagic : (bytesOf magic).length = 6 := rfl
  have hdigits : (longFields.flatMap hexField).length = 104 := fields_length longFields_lt
  have hheader : (bytesOf magic ++ longFields.flatMap hexField).length = headerSize := by
    rw [List.length_append, hmagic, hdigits]
    rfl
  have hnot : some (UInt8.ofNat 'a'.toNat) ≠ some 0 := by decide
  obtain ⟨rest, hrest⟩ := longItem.bytes_split
  have hlast := (longItem_name (rest ++ trailer.bytes)).trans_ne hnot
  apply not_readsBack_of_none
  rw [List.flatMap_singleton, hrest, longItem_header]
  simp only [List.append_assoc]
  apply readEntry_longFields
  · rw [List.drop_left' hmagic]
    exact readFields_fields longFields_lt _
  · rw [← List.append_assoc (bytesOf magic), List.drop_left' hheader]
    exact hlast

theorem archives_unread :
    ¬ ReadsBack [trailer] ∧ ¬ ReadsBack [wideItem] ∧ ¬ ReadsBack [longItem] :=
  ⟨trailer_ends, wideItem_unread, longItem_unread⟩

end Mkcpio
end TensorSel4
