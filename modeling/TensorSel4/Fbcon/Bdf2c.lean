/-
`tools/bdf2c.py`: a BDF font as a C table of glyph rows.

A row of a glyph is the number that the program reads, with the word that it read it
from.  The file's name, which goes into messages and a comment, is left out, and a header
is the values that its fixed text is filled with.
-/
import TensorSel4.Bytes.BitRows
import TensorSel4.Bytes.HexNumber
import TensorSel4.Text.Lines
import Mathlib.Data.List.DropRight

namespace TensorSel4
namespace Bdf2c

open Bytes Text

/-! ## Python's texts and numbers -/

/-- White space of `str.split` among ASCII characters. -/
def isWhitespace (c : Char) : Bool := isSpace c || ('\x1c' ≤ c && c ≤ '\x1f')

/-- `raw.split()`. -/
def words (raw : List Char) : List (List Char) :=
  (raw.splitOnP isWhitespace).filter fun word => !word.isEmpty

/-- `raw.split(None, 1)[1]`. -/
def afterKey (raw : List Char) : Option (List Char) :=
  let rest := ((raw.dropWhile isWhitespace).dropWhile fun c => !isWhitespace c).dropWhile
    isWhitespace
  if rest = [] then none else some rest

/-- `strip`. -/
def strip (p : Char → Bool) (cs : List Char) : List Char := (cs.dropWhile p).rdropWhile p

def decimalValue (c : Char) : Option Nat :=
  if '0' ≤ c ∧ c ≤ '9' then some (c.toNat - 48) else none

/-- The digits behind one; `_` may stand between two digits. -/
def moreDigits (value : Char → Option Nat) (base : Nat) : Nat → List Char → Option Nat
  | n, [] => some n
  | n, '_' :: c :: cs => (value c).bind fun d => moreDigits value base (base * n + d) cs
  | n, c :: cs => (value c).bind fun d => moreDigits value base (base * n + d) cs

def digits (value : Char → Option Nat) (base : Nat) : List Char → Option Nat
  | [] => none
  | c :: cs => (value c).bind fun d => moreDigits value base d cs

/-- Base 16 may have its prefix, and `_` behind it. -/
def hexDigits : List Char → Option Nat
  | '0' :: 'x' :: '_' :: cs | '0' :: 'X' :: '_' :: cs => digits hexValue 16 cs
  | '0' :: 'x' :: cs | '0' :: 'X' :: cs => digits hexValue 16 cs
  | cs => digits hexValue 16 cs

def signed (magnitude : List Char → Option Nat) : List Char → Option Int
  | '-' :: cs => (magnitude cs).map fun n => -(n : Int)
  | '+' :: cs => (magnitude cs).map Int.ofNat
  | cs => (magnitude cs).map Int.ofNat

/-- `int(word)`. -/
def int (word : List Char) : Option Int := signed (digits decimalValue 10) word

/-- `int(word, 16)`. -/
def int16 (word : List Char) : Option Int := signed hexDigits word

/-! ## The font -/

def first : Nat := 0x20
def last : Nat := 0x7e

/-- `range(FIRST, LAST + 1)`. -/
def codes : List Nat := List.range' first (last + 1 - first)

/-- A row of a bitmap. -/
structure Row where
  word : List Char
  bits : Int
  read : int16 word = some bits

def readRow (word : List Char) : Option Row :=
  match h : int16 word with
  | some bits => some ⟨word, bits, h⟩
  | none => none

structure Glyph where
  bbx : Option (List Int)
  rows : List Row

/-- `parse`'s variables.  The newest glyph is in front. -/
structure Font where
  cell : Option (List Int)
  glyphs : List (Nat × Glyph)
  copyrightLine : Option (List Char)
  encoding : Option Int
  bbx : Option (List Int)
  rows : Option (List Row)

def Font.empty : Font := ⟨none, [], none, none, none, none⟩

/-- `glyphs[code]`. -/
def Font.glyph (f : Font) (code : Nat) : Option Glyph := f.glyphs.lookup code

/-- What ends the program: `fail` with a message, or an exception. -/
inductive Failure
  | noFontBoundingBox
  | noCopyright
  | cellTooWide (cellW : Int)
  | missingGlyphs (codes : List Nat)
  | doesNotFit (code : Nat)
  | exception
  deriving DecidableEq

/-- `tuple(int(w) for w in words[1:5])`, from the words behind the key. -/
def fourInts (rest : List (List Char)) : Option (List Int) := (rest.take 4).mapM int

/-- One line of the file. -/
def Font.line (f : Font) (raw : List Char) : Option Font :=
  match words raw, f.rows with
  | [], _ => some f
  | key :: _, some rows =>
    if key = "ENDCHAR".toList then
      let glyphs := match f.encoding with
        | some e => if first ≤ e ∧ e ≤ last then (e.toNat, ⟨f.bbx, rows⟩) :: f.glyphs else f.glyphs
        | none => f.glyphs
      some { f with glyphs, encoding := none, bbx := none, rows := none }
    else (readRow key).map fun row => { f with rows := some (rows ++ [row]) }
  | key :: rest, none =>
    if key = "FONTBOUNDINGBOX".toList then
      (fourInts rest).map fun cell => { f with cell := some cell }
    else if key = "COPYRIGHT".toList then
      (afterKey raw).map fun text =>
        { f with copyrightLine := some (strip (· = '"') (strip isWhitespace text)) }
    else if key = "ENCODING".toList then
      (rest.head?.bind int).map fun encoding => { f with encoding := some encoding }
    else if key = "BBX".toList then
      (fourInts rest).map fun bbx => { f with bbx := some bbx }
    else if key = "BITMAP".toList then some { f with rows := some [] }
    else some f

/-- `parse`, of a file's text; a character that is not ASCII is an exception. -/
def parse (text : List Char) : Except Failure Font :=
  if text.any fun c => 128 ≤ c.toNat then .error .exception
  else
    match (readLines text).foldlM Font.line Font.empty with
    | none => .error .exception
    | some f => if f.cell = none then .error .noFontBoundingBox else .ok f

/-! ## The table -/

/-- The bits of one row, in the row that they are placed in. -/
def placeRow (cellW left rowBits : Int) (w : Nat) (bits : Int) (row : Nat) (out : List Nat) :
    List Nat :=
  (List.range w).foldl (fun out (col : Nat) =>
    if (bits >>> (rowBits - 1 - col).toNat) % 2 = 1 then
      setBit out row (cellW - 1 - (left + col)).toNat
    else out) out

/-- The loop over the rows of a glyph whose box is `left` and `top` in the cell. -/
def placeRows (cellW cellH left top w : Int) (rows : List Row) : List Nat :=
  let rowBits := (w + 7) / 8 * 8
  rows.zipIdx.foldl (fun out (row, i) =>
    placeRow cellW left rowBits w.toNat row.bits (top + i).toNat out)
    (List.replicate cellH.toNat 0)

def place (cell : List Int) (code : Nat) (bbx : Option (List Int)) (rows : List Row) :
    Except Failure (List Nat) :=
  match cell, bbx with
  | [cellW, cellH, cellX, cellY], some [w, h, x, y] =>
    let left := x - cellX
    let top := (cellH + cellY) - (h + y)
    if left < 0 ∨ top < 0 ∨ left + w > cellW ∨ top + h > cellH ∨ rows.length ≠ h then
      .error (.doesNotFit code)
    else .ok (placeRows cellW cellH left top w rows)
  | _, _ => .error .exception

/-- The values in the generated header. -/
structure Header where
  copyrightLine : List Char
  fontW : Int
  fontH : Int
  fontRows : List (List Nat)

/-- The rows of the glyphs of these codes. -/
def placeAll (f : Font) (cell : List Int) : List Nat → Except Failure (List (List Nat))
  | [] => .ok []
  | code :: rest =>
    match f.glyph code with
    | none => .error .exception
    | some glyph => do
      let placed ← place cell code glyph.bbx glyph.rows
      let placedRest ← placeAll f cell rest
      .ok (placed :: placedRest)

def render (f : Font) (copyrightLine : List Char) : Except Failure Header :=
  match f.cell with
  | some (cellW :: cellH :: cellRest) =>
    if cellW > 32 then .error (.cellTooWide cellW)
    else
      let missing := codes.filter fun code => (f.glyph code).isNone
      if missing ≠ [] then .error (.missingGlyphs missing)
      else (placeAll f (cellW :: cellH :: cellRest) codes).map fun fontRows =>
        { copyrightLine, fontW := cellW, fontH := cellH, fontRows }
  | _ => .error .exception

/-- `main`, from the font's text to the header. -/
def main (text : List Char) : Except Failure Header := do
  let f ← parse text
  match f.copyrightLine with
  | none => .error .noCopyright
  | some copyrightLine => render f copyrightLine

/-! ## What the font says -/

/-- The bit in this column and row of a glyph. -/
def Glyph.bit (g : Glyph) (w h col row : Int) : Bool :=
  decide (0 ≤ col ∧ col < w ∧ 0 ≤ row ∧ row < h) &&
    hexBit ((g.rows[row.toNat]?.map Row.word).getD []) col.toNat

/-- Dot `gx` of row `gy` of a cell: the glyph stands on the baseline of the font's
bounding box. -/
def Font.dot (f : Font) (code gx gy : Nat) : Bool :=
  match f.cell, f.glyph code with
  | some [_, cellH, cellX, cellY], some g =>
    match g.bbx with
    | some [w, h, x, y] => g.bit w h (gx - (x - cellX)) (gy - ((cellH + cellY) - (h + y)))
    | _ => false
  | _, _ => false

def Glyph.width (g : Glyph) : Int :=
  match g.bbx with
  | some [w, _, _, _] => w
  | _ => 0

/-- Each row is given as `(w + 7) // 8` bytes of two digits. -/
def Glyph.RowBytes (g : Glyph) : Prop :=
  ∀ row ∈ g.rows, (∀ c ∈ row.word, (hexValue c).isSome = true) ∧
    row.word.length = 2 * ((g.width + 7) / 8)

/-! ## Reading a row -/

theorem moreDigits_eq {cs : List Char} (h : ∀ c ∈ cs, (hexValue c).isSome = true) (n : Nat) :
    moreDigits hexValue 16 n cs = hexFrom n cs := by
  induction cs generalizing n with
  | nil => rfl
  | cons c cs ih =>
    have hrest := ih fun d hd => h d (List.mem_cons_of_mem c hd)
    have hne : c ≠ '_' := by
      intro hc
      have hsome := h c List.mem_cons_self
      rw [hc] at hsome
      exact absurd hsome (by decide)
    rw [moreDigits, hexFrom]
    · simp only [hrest]
    · intro d ds hd
      exact absurd hd hne

theorem digits_eq {word : List Char} (h : ∀ c ∈ word, (hexValue c).isSome = true)
    (hne : word ≠ []) : digits hexValue 16 word = hexNumber word := by
  cases word with
  | nil => exact absurd rfl hne
  | cons c cs =>
    have hrest := moreDigits_eq fun d hd => h d (List.mem_cons_of_mem c hd)
    rw [digits, hexNumber, hexFrom]
    simp only [hrest, Nat.mul_zero, Nat.zero_add]

theorem hexDigits_eq {word : List Char} (h : ∀ c ∈ word, (hexValue c).isSome = true) :
    hexDigits word = digits hexValue 16 word := by
  have hx : ¬ (hexValue 'x').isSome = true := by decide
  have hX : ¬ (hexValue 'X').isSome = true := by decide
  unfold hexDigits
  split
  · exact absurd (h 'x' (by simp)) hx
  · exact absurd (h 'X' (by simp)) hX
  · exact absurd (h 'x' (by simp)) hx
  · exact absurd (h 'X' (by simp)) hX
  · rfl

theorem signed_eq {magnitude : List Char → Option Nat} {word : List Char}
    (h : ∀ c ∈ word, (hexValue c).isSome = true) :
    signed magnitude word = (magnitude word).map Int.ofNat := by
  have hminus : ¬ (hexValue '-').isSome = true := by decide
  have hplus : ¬ (hexValue '+').isSome = true := by decide
  unfold signed
  split
  · exact absurd (h '-' List.mem_cons_self) hminus
  · exact absurd (h '+' List.mem_cons_self) hplus
  · rfl

/-- A row of hexadecimal digits is their number. -/
theorem Row.bits_eq (row : Row) (h : ∀ c ∈ row.word, (hexValue c).isSome = true) :
    ∃ v : Nat, hexNumber row.word = some v ∧ row.bits = v := by
  have hread := row.read
  have hne : row.word ≠ [] := by
    intro hnil
    rw [hnil] at hread
    cases hread
  rw [int16, signed_eq h, hexDigits_eq h, digits_eq h hne] at hread
  obtain ⟨v, hv, hbits⟩ := Option.map_eq_some_iff.mp hread
  exact ⟨v, hv, hbits.symm⟩

theorem shiftRight_odd_iff (v k : Nat) : ((v : Int) >>> k) % 2 = 1 ↔ v.testBit k = true := by
  rw [Nat.testBit_eq_decide_div_mod_eq, decide_eq_true_eq, ← Nat.shiftRight_eq_div_pow]
  have hcast : ((v : Int) >>> k) = ((v >>> k : Nat) : Int) := rfl
  omega

/-- Column `col` of a row of bytes. -/
theorem Row.bit_iff {row : Row} {w : Int} (hdigits : ∀ c ∈ row.word, (hexValue c).isSome = true)
    (hlength : row.word.length = 2 * ((w + 7) / 8)) {col : Nat} (hcol : col < w) :
    (row.bits >>> ((w + 7) / 8 * 8 - 1 - col).toNat) % 2 = 1 ↔ hexBit row.word col = true := by
  obtain ⟨v, hv, hbits⟩ := row.bits_eq hdigits
  have hin : col < 4 * row.word.length := by omega
  have hshift : ((w + 7) / 8 * 8 - 1 - col).toNat = 4 * row.word.length - 1 - col := by omega
  rw [hbits, hshift, shiftRight_odd_iff, testBit_hexNumber hv hin]

/-! ## Placing the rows -/

section Placing

variable {cellW left rowBits : Int} {n : Nat} {out : List Nat}

/-- A round of the loop over the columns. -/
theorem bitAt_placeRow {w row : Nat} {bits : Int} (hrow : row < n) (hout : out.length = n) :
    (placeRow cellW left rowBits w bits row out).length = n ∧
      ∀ r b, bitAt (placeRow cellW left rowBits w bits row out) r b = true ↔
        bitAt out r b = true ∨ ∃ col ∈ List.range w, (bits >>> (rowBits - 1 - col).toNat) % 2 = 1 ∧
          r = row ∧ b = (cellW - 1 - (left + col)).toNat := by
  rw [placeRow]
  apply bitAt_foldl _ hout
  intro col _ rows hrows
  by_cases hset : (bits >>> (rowBits - 1 - col).toNat) % 2 = 1
  · rw [if_pos hset, setBit_length]
    refine ⟨hrows, fun r b => ?_⟩
    rw [bitAt_setBit (hrows ▸ hrow)]
    simp only [hset, true_and]
  · rw [if_neg hset]
    refine ⟨hrows, fun r b => ?_⟩
    simp only [hset, false_and, or_false]

end Placing

theorem bitAt_placeRows {cellW cellH left top w : Int} {rows : List Row} (htop : 0 ≤ top)
    (hbottom : top + rows.length ≤ cellH) (r b : Nat) :
    bitAt (placeRows cellW cellH left top w rows) r b = true ↔
      ∃ p ∈ rows.zipIdx, ∃ col ∈ List.range w.toNat,
        (p.1.bits >>> ((w + 7) / 8 * 8 - 1 - col).toNat) % 2 = 1 ∧
          r = (top + p.2).toNat ∧ b = (cellW - 1 - (left + col)).toNat := by
  have hloop : (placeRows cellW cellH left top w rows).length = cellH.toNat ∧
      ∀ r b, bitAt (placeRows cellW cellH left top w rows) r b = true ↔
        bitAt (List.replicate cellH.toNat 0) r b = true ∨
          ∃ p ∈ rows.zipIdx, ∃ col ∈ List.range w.toNat,
            (p.1.bits >>> ((w + 7) / 8 * 8 - 1 - col).toNat) % 2 = 1 ∧
              r = (top + p.2).toNat ∧ b = (cellW - 1 - (left + col)).toNat := by
    rw [placeRows]
    apply bitAt_foldl _ List.length_replicate
    intro p hp out hout
    have hlt := List.snd_lt_of_mem_zipIdx hp
    exact bitAt_placeRow (by omega) hout
  rw [hloop.2 r b, bitAt_zeros]
  simp only [Bool.false_eq_true, false_or]

/-- What `place` has found out when it succeeds. -/
theorem place_ok {cell : List Int} {code : Nat} {bbx : Option (List Int)} {rows : List Row}
    {placed : List Nat} (h : place cell code bbx rows = .ok placed) :
    ∃ cellW cellH cellX cellY w h x y, cell = [cellW, cellH, cellX, cellY] ∧
      bbx = some [w, h, x, y] ∧ 0 ≤ x - cellX ∧ 0 ≤ cellH + cellY - (h + y) ∧
      x - cellX + w ≤ cellW ∧ cellH + cellY - (h + y) + h ≤ cellH ∧ rows.length = h ∧
      placed = placeRows cellW cellH (x - cellX) (cellH + cellY - (h + y)) w rows := by
  unfold place at h
  split at h
  · dsimp only at h
    split at h
    · cases h
    next hfits =>
      have hplaced := Except.ok.inj h
      refine ⟨_, _, _, _, _, _, _, _, rfl, rfl, ?_, ?_, ?_, ?_, ?_, hplaced.symm⟩
      all_goals omega
  · cases h

theorem Glyph.bit_iff (g : Glyph) (w h col row : Int) : g.bit w h col row = true ↔
    (0 ≤ col ∧ col < w ∧ 0 ≤ row ∧ row < h) ∧
      hexBit ((g.rows[row.toNat]?.map Row.word).getD []) col.toNat = true := by
  rw [Glyph.bit, Bool.and_eq_true, decide_eq_true_eq]

/-- The bits of a placed row are turned twice: the first column is the highest bit of the
font's number, and the first dot is the highest bit of the cell's. -/
theorem Glyph.RowBytes.bitAt_placeRows {g : Glyph} (hbytes : g.RowBytes)
    {cellW cellH left top h : Int} (htop : 0 ≤ top) (hright : left + g.width ≤ cellW)
    (hbottom : top + h ≤ cellH) (hrows : g.rows.length = h) {gx gy : Nat} (hgx : gx < cellW) :
    bitAt (placeRows cellW cellH left top g.width g.rows) gy (cellW - 1 - gx).toNat = true ↔
      g.bit g.width h (gx - left) (gy - top) = true := by
  rw [Bdf2c.bitAt_placeRows htop (by omega), Glyph.bit_iff]
  constructor
  · rintro ⟨⟨row, i⟩, hmem, col, hcol, hset, hr, hb⟩
    have hrow := List.mk_mem_zipIdx_iff_getElem?.mp hmem
    have hrowMem := List.mem_of_getElem? hrow
    have hi := (List.getElem?_eq_some_iff.mp hrow).1
    have hw := List.mem_range.mp hcol
    have hcolEq : ((gx : Int) - left).toNat = col := by omega
    have hrowEq : ((gy : Int) - top).toNat = i := by omega
    refine ⟨by omega, ?_⟩
    rw [hrowEq, hrow, hcolEq]
    exact (Row.bit_iff (hbytes row hrowMem).1 (hbytes row hrowMem).2 (by omega)).mp hset
  · rintro ⟨hin, hbit⟩
    obtain ⟨row, hrow⟩ : ∃ row, g.rows[((gy : Int) - top).toNat]? = some row :=
      ⟨_, List.getElem?_eq_getElem (by omega)⟩
    have hrowMem := List.mem_of_getElem? hrow
    rw [hrow] at hbit
    refine ⟨(row, _), List.mk_mem_zipIdx_iff_getElem?.mpr hrow, ((gx : Int) - left).toNat,
      List.mem_range.mpr (by omega), ?_, by omega, by omega⟩
    exact (Row.bit_iff (hbytes row hrowMem).1 (hbytes row hrowMem).2 (by omega)).mpr hbit

/-! ## The table's dots -/

theorem bind_ok {ε α β : Type} {x : Except ε α} {next : α → Except ε β} {b : β}
    (h : x >>= next = .ok b) : ∃ a, x = .ok a ∧ next a = .ok b := by
  cases x with
  | error e => cases h
  | ok a => exact ⟨a, rfl, h⟩

theorem map_ok {ε α β : Type} {x : Except ε α} {f : α → β} {b : β} (h : x.map f = .ok b) :
    ∃ a, x = .ok a ∧ f a = b := by
  cases x with
  | error e => cases h
  | ok a => exact ⟨a, rfl, Except.ok.inj h⟩

theorem placeAll_getElem? {f : Font} {cell : List Int} {cs : List Nat} {table : List (List Nat)}
    (h : placeAll f cell cs = .ok table) {i code : Nat} (hi : cs[i]? = some code) :
    ∃ g placed, f.glyph code = some g ∧ place cell code g.bbx g.rows = .ok placed ∧
      table[i]? = some placed := by
  induction cs generalizing i table with
  | nil => cases hi
  | cons c cs ih =>
    unfold placeAll at h
    split at h
    · cases h
    next g hg =>
      obtain ⟨placed, hplace, hrest⟩ := bind_ok h
      obtain ⟨rest, hall, htable⟩ := bind_ok hrest
      cases htable
      cases i with
      | zero =>
        cases hi
        exact ⟨g, placed, hg, hplace, rfl⟩
      | succ i => exact ih hall hi

theorem render_ok {f : Font} {line : List Char} {header : Header}
    (h : render f line = .ok header) : header.fontW ≤ 32 ∧ ∃ rest,
      f.cell = some (header.fontW :: header.fontH :: rest) ∧
      placeAll f (header.fontW :: header.fontH :: rest) codes = .ok header.fontRows := by
  unfold render at h
  split at h
  next cellW cellH rest hcell =>
    split at h
    · cases h
    next hwidth =>
      dsimp only at h
      split at h
      · cases h
      · obtain ⟨table, hall, rfl⟩ := map_ok h
        exact ⟨Int.not_lt.mp hwidth, rest, hcell, hall⟩
  · cases h

theorem main_ok {text : List Char} {header : Header} (h : main text = .ok header) :
    ∃ f line, parse text = .ok f ∧ render f line = .ok header := by
  obtain ⟨f, hparse, hrest⟩ := bind_ok h
  split at hrest
  · cases hrest
  next line _ => exact ⟨f, line, hparse, hrest⟩

theorem main_fontW {text : List Char} {header : Header} (h : main text = .ok header) :
    header.fontW ≤ 32 := by
  obtain ⟨f, line, -, hrender⟩ := main_ok h
  exact (render_ok hrender).1

theorem codes_getElem? {code : Nat} (hfirst : first ≤ code) (hlast : code ≤ last) :
    codes[code - first]? = some code := by
  rw [codes, List.getElem?_range' (by omega)]
  congr 1
  omega

/-- A table that is generated has the dots of the font. -/
theorem table_bitAt {text : List Char} {header : Header} {f : Font}
    (h : main text = .ok header) (hparse : parse text = .ok f) {code : Nat}
    (hfirst : first ≤ code) (hlast : code ≤ last)
    (hbytes : ∀ g, f.glyph code = some g → g.RowBytes) {gx gy : Nat} (hgx : gx < header.fontW) :
    bitAt (header.fontRows.getD (code - first) []) gy (header.fontW - 1 - gx).toNat =
      f.dot code gx gy := by
  obtain ⟨f', line, hparse', hrender⟩ := main_ok h
  obtain rfl : f' = f := by
    rw [hparse] at hparse'
    exact (Except.ok.inj hparse').symm
  obtain ⟨-, rest, hcell, hall⟩ := render_ok hrender
  obtain ⟨g, placed, hg, hplace, htable⟩ := placeAll_getElem? hall (codes_getElem? hfirst hlast)
  obtain ⟨cellW, cellH, cellX, cellY, w, h, x, y, hlist, hbbx, hleft, htop, hright, hbottom, hrows,
    hplaced⟩ := place_ok hplace
  have hwidth : g.width = w := by rw [Glyph.width, hbbx]
  cases hlist
  rw [List.getD_eq_getElem?_getD, htable, Option.getD_some, hplaced, Font.dot, hcell, hg]
  dsimp only
  rw [hbbx, Bool.eq_iff_iff, ← hwidth]
  exact (hbytes g hg).bitAt_placeRows htop (hwidth ▸ hright) hbottom hrows hgx

end Bdf2c
end TensorSel4
