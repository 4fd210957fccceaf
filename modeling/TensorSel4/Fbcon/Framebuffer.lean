/-
The pixels that fbcon writes: `pixel_row`, `draw_glyph`, `clean_rows` and the
first half of `clear_screen` of `fbcon/fbcon.c`.

A store to the framebuffer is an address and a colour, and each function gives
its stores in program order.
-/
import TensorSel4.Fbcon.Grid

namespace TensorSel4
namespace Fbcon

/-- A store to the framebuffer. -/
structure Pixel where
  addr : UInt64
  color : UInt32

def fg : UInt32 := 0xffffffff
def bg : UInt32 := 0xff000000

/-- What the drawing functions read: the macros, what `read_geometry` found, where
the framebuffer is mapped, and the font of `tools/bdf2c.py`. -/
structure Panel where
  layout : Layout
  geometry : Geometry
  fbVaddr : UInt64
  fontRows : UInt8 → UInt32 → UInt32

/-- A pointer into a pixel row, and the stores up to now. -/
structure Brush where
  px : UInt64
  pixels : List Pixel

/-- `*px++ = color`. -/
def Brush.dab (color : UInt32) (b : Brush) : Brush where
  px := b.px + 4
  pixels := b.pixels ++ [⟨b.px, color⟩]

namespace Panel

def pixelRow (p : Panel) (y : UInt32) : UInt64 :=
  p.fbVaddr + y.toUInt64 * p.geometry.stride.toUInt64

/-- `FONT_FIRST` and `FONT_LAST` are the printable characters. -/
def glyphOf (p : Panel) (ch : UInt8) : UInt32 → UInt32 :=
  p.fontRows (if 0x20 ≤ ch ∧ ch ≤ 0x7e then ch - 0x20 else 0)

def glyphColor (p : Panel) (ch : UInt8) (gy gx : UInt32) : UInt32 :=
  if (p.glyphOf ch gy >>> (p.layout.fontW - 1 - gx)) &&& 1 ≠ 0 then fg else bg

def glyphY (p : Panel) (row gy sy : UInt32) : UInt32 :=
  p.layout.marginTop + row * p.layout.cellH + gy * p.layout.scale + sy

/-- Where the pointer of `draw_glyph` starts in a pixel row. -/
def glyphPx (p : Panel) (col row gy sy : UInt32) : UInt64 :=
  p.pixelRow (p.glyphY row gy sy) + 4 * p.layout.marginSide.toUInt64
    + 4 * (col * p.layout.cellW).toUInt64

def drawGlyph (p : Panel) (col row : UInt32) (ch : UInt8) (pixels : List Pixel) : List Pixel :=
  forRange 0 p.layout.fontH (fun gy => forRange 0 p.layout.scale fun sy pixels =>
    (forRange 0 p.layout.fontW (fun gx =>
      forRange 0 p.layout.scale fun _ => Brush.dab (p.glyphColor ch gy gx))
      ⟨p.glyphPx col row gy sy, pixels⟩).pixels) pixels

/-- `clean_rows`: the range handed to `cache_clean`. -/
def cleanRows (p : Panel) (firstY count : UInt32) : UInt64 × UInt64 :=
  let start := p.pixelRow firstY
  (start, start + count.toUInt64 * p.geometry.stride.toUInt64)

/-- The loop of `clear_screen` over the framebuffer. -/
def clearPixels (p : Panel) (pixels : List Pixel) : List Pixel :=
  forRange 0 p.geometry.height (fun y => forRange 0 p.geometry.width fun x pixels =>
    pixels ++ [⟨p.pixelRow y + 4 * x.toUInt64, bg⟩]) pixels

/-- The range of `clear_screen`. -/
def clearRange (p : Panel) : UInt64 × UInt64 := p.cleanRows 0 p.geometry.height

/-- The range of `draw_row`. -/
def rowRange (p : Panel) (r : UInt32) : UInt64 × UInt64 :=
  p.cleanRows (p.layout.marginTop + r * p.layout.cellH) p.layout.cellH

end Panel

/-! ## Loops that collect -/

theorem exists_lt_succ {P : UInt32 → Prop} (r : UInt32) :
    (∃ r' : UInt32, r'.toNat < r.toNat + 1 ∧ P r') ↔
      (∃ r' : UInt32, r'.toNat < r.toNat ∧ P r') ∨ P r := by
  constructor
  · rintro ⟨r', hr', hP⟩
    by_cases heq : r'.toNat = r.toNat
    · rw [UInt32.toNat_inj.mp heq] at hP
      exact Or.inr hP
    · exact Or.inl ⟨r', by omega, hP⟩
  · rintro (⟨r', hr', hP⟩ | hP)
    · exact ⟨r', by omega, hP⟩
    · exact ⟨r, by omega, hP⟩

/-- What a loop collects is what its rounds collect. -/
theorem mem_forRange {α : Type} {P : UInt32 → α → Prop} {n : UInt32}
    {body : UInt32 → List α → List α} {xs : List α} {a : α}
    (hbody : ∀ r xs, r < n → (a ∈ body r xs ↔ a ∈ xs ∨ P r a)) :
    a ∈ forRange 0 n body xs ↔ a ∈ xs ∨ ∃ r < n, P r a := by
  have hcount := forRange_count (s := xs)
    (fun k t => a ∈ t ↔ a ∈ xs ∨ ∃ r : UInt32, r.toNat < k ∧ P r a) body
    (UInt32.zero_le (a := n)) (by simp) (by
      intro r t _ hr ht
      rw [hbody r t hr, ht, exists_lt_succ, or_assoc])
  exact hcount

namespace Brush

variable {w : Pixel}

theorem forRange_dab (n color : UInt32) (b : Brush) :
    (forRange 0 n (fun _ => dab color) b).px = b.px + UInt64.ofNat (4 * n.toNat) ∧
      (w ∈ (forRange 0 n (fun _ => dab color) b).pixels ↔
        w ∈ b.pixels ∨ ∃ sx < n, w = ⟨b.px + UInt64.ofNat (4 * sx.toNat), color⟩) := by
  have hcount := forRange_count (s := b)
    (fun k t => t.px = b.px + UInt64.ofNat (4 * k) ∧ (w ∈ t.pixels ↔ w ∈ b.pixels ∨
      ∃ sx : UInt32, sx.toNat < k ∧ w = ⟨b.px + UInt64.ofNat (4 * sx.toNat), color⟩))
    (fun _ => dab color) (UInt32.zero_le (a := n)) (by simp) (by
      rintro r t - - ⟨hpx, hmem⟩
      constructor
      · show t.px + 4 = _
        rw [hpx, UInt64.add_assoc, Nat.mul_add, UInt64.ofNat_add]
        rfl
      · show w ∈ t.pixels ++ [_] ↔ _
        rw [List.mem_append, hmem, List.mem_singleton, hpx, exists_lt_succ, or_assoc])
  exact hcount

/-- A pixel row of a glyph. -/
theorem mem_glyphRow (fontW scale : UInt32) (color : UInt32 → UInt32) (b : Brush) :
    w ∈ (forRange 0 fontW (fun gx => forRange 0 scale fun _ => dab (color gx)) b).pixels ↔
      w ∈ b.pixels ∨ ∃ gx < fontW, ∃ sx < scale,
        w = ⟨b.px + UInt64.ofNat (4 * (gx.toNat * scale.toNat + sx.toNat)), color gx⟩ := by
  have hcount := forRange_count (s := b)
    (fun k t => t.px = b.px + UInt64.ofNat (4 * (k * scale.toNat)) ∧ (w ∈ t.pixels ↔
      w ∈ b.pixels ∨ ∃ gx : UInt32, gx.toNat < k ∧ ∃ sx < scale,
        w = ⟨b.px + UInt64.ofNat (4 * (gx.toNat * scale.toNat + sx.toNat)), color gx⟩))
    (fun gx => forRange 0 scale fun _ => dab (color gx)) (UInt32.zero_le (a := fontW))
    (by simp) (by
      rintro gx t - - ⟨hpx, hmem⟩
      obtain ⟨hpx', hmem'⟩ := forRange_dab (w := w) scale (color gx) t
      have hnext : ∀ k, b.px + UInt64.ofNat (4 * (gx.toNat * scale.toNat)) + UInt64.ofNat (4 * k) =
          b.px + UInt64.ofNat (4 * (gx.toNat * scale.toNat + k)) := by
        intro k
        rw [UInt64.add_assoc, Nat.mul_add, UInt64.ofNat_add]
      constructor
      · rw [hpx', hpx, hnext, Nat.add_mul, Nat.one_mul]
      · rw [hmem', hmem, exists_lt_succ, or_assoc, hpx]
        simp only [hnext])
  exact hcount.2

end Brush

namespace Panel

variable {p : Panel} {w : Pixel} {pixels : List Pixel}

theorem mem_drawGlyph {col row : UInt32} {ch : UInt8} :
    w ∈ p.drawGlyph col row ch pixels ↔ w ∈ pixels ∨
      ∃ gy < p.layout.fontH, ∃ sy < p.layout.scale, ∃ gx < p.layout.fontW, ∃ sx < p.layout.scale,
        w = ⟨p.glyphPx col row gy sy +
          UInt64.ofNat (4 * (gx.toNat * p.layout.scale.toNat + sx.toNat)),
          p.glyphColor ch gy gx⟩ := by
  apply mem_forRange
  intro gy pixels _
  apply mem_forRange
  intro sy pixels _
  exact Brush.mem_glyphRow _ _ _ _

theorem mem_clearPixels : w ∈ p.clearPixels pixels ↔ w ∈ pixels ∨
    ∃ y < p.geometry.height, ∃ x < p.geometry.width,
      w = ⟨p.pixelRow y + 4 * x.toUInt64, bg⟩ := by
  apply mem_forRange
  intro y pixels _
  apply mem_forRange
  intro x pixels _
  rw [List.mem_append, List.mem_singleton]

end Panel

/-! ## The geometry that is accepted -/

/-- No product or sum of the macros wraps. -/
structure Layout.Fits (l : Layout) : Prop where
  cellW : l.fontW.toNat * l.scale.toNat < 2 ^ 32
  cellH : l.fontH.toNat * l.scale.toNat < 2 ^ 32
  sides : 2 * l.marginSide.toNat < 2 ^ 32
  ends : l.marginTop.toNat + l.marginBottom.toNat < 2 ^ 32

/-- The computations of `read_geometry` do not wrap. -/
structure Layout.ReadExact (l : Layout) (img : UInt32) : Prop where
  rowBytes : ((readSize img).1 * 4).toNat = (readSize img).1.toNat * 4
  cellW : l.cellW.toNat = l.fontW.toNat * l.scale.toNat
  cellH : l.cellH.toNat = l.fontH.toNat * l.scale.toNat
  sides : (2 * l.marginSide).toNat = 2 * l.marginSide.toNat
  ends : (l.marginTop + l.marginBottom).toNat = l.marginTop.toNat + l.marginBottom.toNat
  textWidth : (l.textWidth img).toNat + 2 * l.marginSide.toNat = (readSize img).1.toNat
  textHeight : (l.textHeight img).toNat + l.marginTop.toNat + l.marginBottom.toNat =
    (readSize img).2.toNat

theorem readSize_le (img : UInt32) :
    (readSize img).1.toNat ≤ 0xffff ∧ (readSize img).2.toNat ≤ 0xffff := by
  have hmask : ∀ v : UInt32, (v &&& 0xffff).toNat ≤ 0xffff := by
    intro v
    rw [UInt32.toNat_and]
    exact Nat.and_le_right
  unfold readSize
  split
  · decide
  · exact ⟨hmask img, hmask (img >>> 16)⟩

/-- What `read_geometry` has checked. -/
structure Layout.Checked (l : Layout) (img : UInt32) (g : Geometry) : Prop where
  width : g.width = (readSize img).1
  height : g.height = (readSize img).2
  cols : g.cols = l.textWidth img / l.cellW
  rows : g.rows = l.textHeight img / l.cellH
  stride : g.width * 4 ≤ g.stride
  size : g.stride.toNat * g.height.toNat ≤ fbconFbSize
  sides : 2 * l.marginSide < g.width
  ends : l.marginTop + l.marginBottom < g.height

theorem readGeometry_checked {l : Layout} {img srcStride : UInt32} {g : Geometry}
    (h : readGeometry l img srcStride = .ok g) : l.Checked img g := by
  obtain ⟨hcols, hrows⟩ := readGeometry_ok h
  unfold readGeometry at h
  dsimp only at h
  split at h
  · cases h
  next hformat =>
  split at h
  · cases h
  next hsize =>
  split at h
  · cases h
  next hroom =>
  split at h
  · obtain rfl := Except.ok.inj h
    simp only [not_or, UInt32.not_lt, UInt32.not_le, Nat.not_lt] at hformat hsize hroom
    exact ⟨rfl, rfl, hcols, hrows, hformat.2.2.1, hsize, hroom.1, hroom.2⟩
  · cases h

namespace Layout

variable {l : Layout} {img : UInt32} {g : Geometry}

theorem Checked.exact (h : l.Checked img g) (hfits : l.Fits) : l.ReadExact img := by
  have hle := readSize_le img
  have hsides := hfits.sides
  have hends := hfits.ends
  have hroomW := UInt32.lt_iff_toNat_lt.mp h.sides
  have hroomH := UInt32.lt_iff_toNat_lt.mp h.ends
  rw [h.width] at hroomW
  rw [h.height] at hroomH
  have htwo : (2 * l.marginSide).toNat = 2 * l.marginSide.toNat := by
    rw [UInt32.toNat_mul]
    exact Nat.mod_eq_of_lt hsides
  have hsum : (l.marginTop + l.marginBottom).toNat = l.marginTop.toNat + l.marginBottom.toNat := by
    rw [UInt32.toNat_add]
    exact Nat.mod_eq_of_lt hends
  refine ⟨?_, ?_, ?_, htwo, hsum, ?_, ?_⟩
  · rw [UInt32.toNat_mul]
    exact Nat.mod_eq_of_lt (by change _ * 4 < 2 ^ 32; omega)
  · exact (UInt32.toNat_mul _ _).trans (Nat.mod_eq_of_lt hfits.cellW)
  · exact (UInt32.toNat_mul _ _).trans (Nat.mod_eq_of_lt hfits.cellH)
  · have hsub : (l.textWidth img).toNat = (readSize img).1.toNat - (2 * l.marginSide).toNat :=
      UInt32.toNat_sub_of_le _ _ (UInt32.le_iff_toNat_le.mpr (by omega))
    omega
  · have htop : ((readSize img).2 - l.marginTop).toNat =
        (readSize img).2.toNat - l.marginTop.toNat :=
      UInt32.toNat_sub_of_le _ _ (UInt32.le_iff_toNat_le.mpr (by omega))
    have hsub : (l.textHeight img).toNat =
        ((readSize img).2 - l.marginTop).toNat - l.marginBottom.toNat :=
      UInt32.toNat_sub_of_le _ _ (UInt32.le_iff_toNat_le.mpr (by omega))
    omega

end Layout

theorem mul_add_lt_mul {a b m n : Nat} (ha : a < m) (hb : b < n) : a * n + b < m * n := by
  have hle : (a + 1) * n ≤ m * n := Nat.mul_le_mul_right n ha
  rw [Nat.add_mul, Nat.one_mul] at hle
  omega

theorem mul_add_inj {a a' b b' n : Nat} (hb : b < n) (hb' : b' < n)
    (h : a * n + b = a' * n + b') : a = a' ∧ b = b' := by
  have hpos : 0 < n := Nat.lt_of_le_of_lt (Nat.zero_le b) hb
  have hdiv : ∀ k i, i < n → (k * n + i) / n = k := by
    intro k i hi
    rw [Nat.mul_comm, Nat.mul_add_div hpos, Nat.div_eq_of_lt hi, Nat.add_zero]
  have hquot : a = a' := by rw [← hdiv a b hb, ← hdiv a' b' hb', h]
  rw [hquot] at h
  exact ⟨hquot, Nat.add_left_cancel h⟩

namespace Panel

/-- The address of pixel `x` of row `y`. -/
def pixelAt (p : Panel) (x y : Nat) : UInt64 :=
  p.fbVaddr + UInt64.ofNat (y * p.geometry.stride.toNat + 4 * x)

/-- How far into the buffer an address is. -/
def offset (p : Panel) (a : UInt64) : Nat := (a - p.fbVaddr).toNat

/-- The computations of a pixel's row and column do not wrap. -/
structure AddressExact (p : Panel) (col row gy sy : UInt32) : Prop where
  cellRow : (row * p.layout.cellH).toNat = row.toNat * p.layout.cellH.toNat
  glyphRow : (gy * p.layout.scale).toNat = gy.toNat * p.layout.scale.toNat
  y : (p.glyphY row gy sy).toNat = p.layout.marginTop.toNat + row.toNat * p.layout.cellH.toNat +
    gy.toNat * p.layout.scale.toNat + sy.toNat
  cellCol : (col * p.layout.cellW).toNat = col.toNat * p.layout.cellW.toNat

/-- The framebuffer's rows are long enough, and the text fits between the margins. -/
structure Sound (p : Panel) : Prop where
  rowBytes : 4 * p.geometry.width.toNat ≤ p.geometry.stride.toNat
  size : p.geometry.height.toNat * p.geometry.stride.toNat ≤ fbconFbSize
  cellW : p.layout.cellW.toNat = p.layout.fontW.toNat * p.layout.scale.toNat
  cellH : p.layout.cellH.toNat = p.layout.fontH.toNat * p.layout.scale.toNat
  cols : 2 * p.layout.marginSide.toNat + p.geometry.cols.toNat * p.layout.cellW.toNat ≤
    p.geometry.width.toNat
  rows : p.layout.marginTop.toNat + p.layout.marginBottom.toNat +
    p.geometry.rows.toNat * p.layout.cellH.toNat ≤ p.geometry.height.toNat

variable {p : Panel} {img : UInt32} {col row gy sy gx sx : UInt32}

theorem sound (h : p.layout.Checked img p.geometry) (hfits : p.layout.Fits) : p.Sound := by
  have hexact := h.exact hfits
  have hstride := UInt32.le_iff_toNat_le.mp h.stride
  have hwidth := hexact.textWidth
  have hheight := hexact.textHeight
  have hcols := Nat.div_mul_le_self (p.layout.textWidth img).toNat p.layout.cellW.toNat
  have hrows := Nat.div_mul_le_self (p.layout.textHeight img).toNat p.layout.cellH.toNat
  rw [← UInt32.toNat_div, ← h.cols] at hcols
  rw [← UInt32.toNat_div, ← h.rows] at hrows
  rw [h.width, hexact.rowBytes] at hstride
  refine ⟨?_, ?_, hexact.cellW, hexact.cellH, ?_, ?_⟩
  · rw [h.width]
    omega
  · rw [Nat.mul_comm]
    exact h.size
  · rw [h.width]
    omega
  · rw [h.height]
    omega

theorem Sound.addressExact (h : p.Sound) (hcol : col < p.geometry.cols)
    (hrow : row < p.geometry.rows) (hgy : gy < p.layout.fontH) (hsy : sy < p.layout.scale) :
    p.AddressExact col row gy sy := by
  have hwidth := p.geometry.width.toNat_lt
  have hheight := p.geometry.height.toNat_lt
  have hcols := h.cols
  have hrows := h.rows
  have hglyph := mul_add_lt_mul (UInt32.lt_iff_toNat_lt.mp hgy) (UInt32.lt_iff_toNat_lt.mp hsy)
  rw [← h.cellH] at hglyph
  have hinRow := mul_add_lt_mul (UInt32.lt_iff_toNat_lt.mp hrow) hglyph
  have hinCol := Nat.mul_le_mul_right p.layout.cellW.toNat
    (Nat.le_of_lt (UInt32.lt_iff_toNat_lt.mp hcol))
  have hcellRow : (row * p.layout.cellH).toNat = row.toNat * p.layout.cellH.toNat := by
    rw [UInt32.toNat_mul]
    exact Nat.mod_eq_of_lt (by omega)
  have hglyphRow : (gy * p.layout.scale).toNat = gy.toNat * p.layout.scale.toNat := by
    rw [UInt32.toNat_mul]
    exact Nat.mod_eq_of_lt (by omega)
  refine ⟨hcellRow, hglyphRow, ?_, ?_⟩
  · unfold glyphY
    rw [UInt32.toNat_add, UInt32.toNat_add, UInt32.toNat_add, hcellRow, hglyphRow]
    omega
  · rw [UInt32.toNat_mul]
    exact Nat.mod_eq_of_lt (by omega)

theorem toUInt64_eq (n : UInt32) : n.toUInt64 = UInt64.ofNat n.toNat := by
  rw [← UInt32.toNat_toUInt64, UInt64.ofNat_toNat]

theorem pixelRow_add (y : UInt32) (x : Nat) :
    p.pixelRow y + UInt64.ofNat (4 * x) = p.pixelAt x y.toNat := by
  unfold pixelRow pixelAt
  rw [UInt64.add_assoc, toUInt64_eq, toUInt64_eq, ← UInt64.ofNat_mul, ← UInt64.ofNat_add]

theorem AddressExact.glyphPx (h : p.AddressExact col row gy sy) (k : Nat) :
    p.glyphPx col row gy sy + UInt64.ofNat (4 * k) =
      p.pixelAt (p.layout.marginSide.toNat + col.toNat * p.layout.cellW.toNat + k)
        (p.glyphY row gy sy).toNat := by
  rw [← pixelRow_add, Panel.glyphPx, toUInt64_eq, toUInt64_eq, h.cellCol]
  simp only [UInt64.add_assoc, Nat.mul_add, UInt64.ofNat_add, UInt64.ofNat_mul]
  rfl

theorem Sound.offset (h : p.Sound) {x y : Nat} (hx : x < p.geometry.width.toNat)
    (hy : y < p.geometry.height.toNat) :
    p.offset (p.pixelAt x y) = y * p.geometry.stride.toNat + 4 * x ∧
      p.offset (p.pixelAt x y) + 4 ≤ fbconFbSize := by
  have hrow := h.rowBytes
  have hsize := h.size
  have hlt := mul_add_lt_mul (b := 4 * x + 3) hy (n := p.geometry.stride.toNat) (by omega)
  have hoffset : p.offset (p.pixelAt x y) = y * p.geometry.stride.toNat + 4 * x := by
    unfold Panel.offset pixelAt
    rw [UInt64.add_comm, UInt64.add_sub_cancel]
    exact UInt64.toNat_ofNat_of_lt' (by unfold fbconFbSize at hsize; change _ < 2 ^ 64; omega)
  exact ⟨hoffset, by omega⟩

end Panel

/-! ## Cells -/

/-- Where pixel `s` of dot `g` of cell `i` is, along one side of the panel. -/
def cellPos (margin cell scale i g s : UInt32) : Nat :=
  margin.toNat + (i.toNat * cell.toNat + (g.toNat * scale.toNat + s.toNat))

section

variable {cell scale font n i i' g g' s s' : UInt32} (margin : UInt32)

theorem dot_lt (hcell : cell.toNat = font.toNat * scale.toNat) (hg : g < font) (hs : s < scale) :
    g.toNat * scale.toNat + s.toNat < cell.toNat := by
  rw [hcell]
  exact mul_add_lt_mul (UInt32.lt_iff_toNat_lt.mp hg) (UInt32.lt_iff_toNat_lt.mp hs)

theorem cellPos_lt (hcell : cell.toNat = font.toNat * scale.toNat) (hi : i < n) (hg : g < font)
    (hs : s < scale) :
    cellPos margin cell scale i g s < margin.toNat + n.toNat * cell.toNat := by
  have hdot := mul_add_lt_mul (UInt32.lt_iff_toNat_lt.mp hi) (dot_lt hcell hg hs)
  unfold cellPos
  omega

/-- A pixel is of one cell, one dot of it and one place in the dot. -/
theorem cellPos_inj (hcell : cell.toNat = font.toNat * scale.toNat) (hg : g < font)
    (hg' : g' < font) (hs : s < scale) (hs' : s' < scale)
    (h : cellPos margin cell scale i g s = cellPos margin cell scale i' g' s') :
    i = i' ∧ g = g' := by
  obtain ⟨hcells, hdots⟩ :=
    mul_add_inj (dot_lt hcell hg hs) (dot_lt hcell hg' hs') (Nat.add_left_cancel h)
  obtain ⟨hdot, -⟩ :=
    mul_add_inj (UInt32.lt_iff_toNat_lt.mp hs) (UInt32.lt_iff_toNat_lt.mp hs') hdots
  exact ⟨UInt32.toNat_inj.mp hcells, UInt32.toNat_inj.mp hdot⟩

end

namespace Panel

variable {p : Panel} {w w' : Pixel} {pixels : List Pixel}
variable {col col' row row' gx gx' gy gy' sx sx' sy sy' : UInt32} {ch ch' : UInt8}

def cellX (p : Panel) (col gx sx : UInt32) : Nat :=
  cellPos p.layout.marginSide p.layout.cellW p.layout.scale col gx sx

def cellY (p : Panel) (row gy sy : UInt32) : Nat :=
  cellPos p.layout.marginTop p.layout.cellH p.layout.scale row gy sy

theorem Sound.cellX_lt (h : p.Sound) (hcol : col < p.geometry.cols) (hgx : gx < p.layout.fontW)
    (hsx : sx < p.layout.scale) :
    p.cellX col gx sx + p.layout.marginSide.toNat < p.geometry.width.toNat := by
  have hpos := cellPos_lt p.layout.marginSide h.cellW hcol hgx hsx
  have hcols := h.cols
  unfold cellX
  omega

theorem Sound.cellY_lt (h : p.Sound) (hrow : row < p.geometry.rows) (hgy : gy < p.layout.fontH)
    (hsy : sy < p.layout.scale) :
    p.cellY row gy sy + p.layout.marginBottom.toNat < p.geometry.height.toNat := by
  have hpos := cellPos_lt p.layout.marginTop h.cellH hrow hgy hsy
  have hrows := h.rows
  unfold cellY
  omega

theorem Sound.mem_drawGlyph (h : p.Sound) (hcol : col < p.geometry.cols)
    (hrow : row < p.geometry.rows) :
    w ∈ p.drawGlyph col row ch pixels ↔ w ∈ pixels ∨
      ∃ gy < p.layout.fontH, ∃ sy < p.layout.scale, ∃ gx < p.layout.fontW, ∃ sx < p.layout.scale,
        w = ⟨p.pixelAt (p.cellX col gx sx) (p.cellY row gy sy), p.glyphColor ch gy gx⟩ := by
  have haddr : ∀ gy < p.layout.fontH, ∀ sy < p.layout.scale, ∀ gx sx : UInt32,
      p.glyphPx col row gy sy +
          UInt64.ofNat (4 * (gx.toNat * p.layout.scale.toNat + sx.toNat)) =
        p.pixelAt (p.cellX col gx sx) (p.cellY row gy sy) := by
    intro gy hgy sy hsy gx sx
    have hexact := h.addressExact hcol hrow hgy hsy
    rw [hexact.glyphPx, hexact.y]
    unfold cellX cellY cellPos
    simp only [Nat.add_assoc]
  rw [Panel.mem_drawGlyph]
  apply or_congr_right
  constructor
  · rintro ⟨gy, hgy, sy, hsy, gx, hgx, sx, hsx, hw⟩
    exact ⟨gy, hgy, sy, hsy, gx, hgx, sx, hsx, haddr gy hgy sy hsy gx sx ▸ hw⟩
  · rintro ⟨gy, hgy, sy, hsy, gx, hgx, sx, hsx, hw⟩
    exact ⟨gy, hgy, sy, hsy, gx, hgx, sx, hsx, haddr gy hgy sy hsy gx sx ▸ hw⟩

theorem Sound.pixelAt_inj (h : p.Sound) {x x' y y' : Nat} (hx : x < p.geometry.width.toNat)
    (hx' : x' < p.geometry.width.toNat) (hy : y < p.geometry.height.toNat)
    (hy' : y' < p.geometry.height.toNat) (heq : p.pixelAt x y = p.pixelAt x' y') :
    x = x' ∧ y = y' := by
  have hrow := h.rowBytes
  have hoffset := (h.offset hx hy).1
  rw [heq, (h.offset hx' hy').1] at hoffset
  obtain ⟨hys, hxs⟩ := mul_add_inj (by omega) (by omega) hoffset
  exact ⟨by omega, hys.symm⟩

/-- Two dots at one address are one dot of one cell. -/
theorem Sound.dot_inj (h : p.Sound) (hcol : col < p.geometry.cols) (hcol' : col' < p.geometry.cols)
    (hrow : row < p.geometry.rows) (hrow' : row' < p.geometry.rows) (hgx : gx < p.layout.fontW)
    (hgx' : gx' < p.layout.fontW) (hgy : gy < p.layout.fontH) (hgy' : gy' < p.layout.fontH)
    (hsx : sx < p.layout.scale) (hsx' : sx' < p.layout.scale) (hsy : sy < p.layout.scale)
    (hsy' : sy' < p.layout.scale)
    (heq : p.pixelAt (p.cellX col gx sx) (p.cellY row gy sy) =
      p.pixelAt (p.cellX col' gx' sx') (p.cellY row' gy' sy')) :
    (col = col' ∧ gx = gx') ∧ row = row' ∧ gy = gy' := by
  have hx := h.cellX_lt hcol hgx hsx
  have hx' := h.cellX_lt hcol' hgx' hsx'
  have hy := h.cellY_lt hrow hgy hsy
  have hy' := h.cellY_lt hrow' hgy' hsy'
  obtain ⟨hX, hY⟩ := h.pixelAt_inj (by omega) (by omega) (by omega) (by omega) heq
  exact ⟨cellPos_inj _ h.cellW hgx hgx' hsx hsx' hX, cellPos_inj _ h.cellH hgy hgy' hsy hsy' hY⟩

/-- The four bytes of a store are in the buffer. -/
def InBuffer (p : Panel) (a : UInt64) : Prop := p.offset a + 4 ≤ fbconFbSize

/-- The store is in this column and row of pixels. -/
def At (p : Panel) (a : UInt64) (x y : Nat) : Prop :=
  p.offset a = y * p.geometry.stride.toNat + 4 * x

/-- A range of `cache_clean` from one place of the buffer to a later one. -/
def RangeInside (p : Panel) (range : UInt64 × UInt64) : Prop :=
  p.offset range.1 ≤ p.offset range.2 ∧ p.offset range.2 ≤ fbconFbSize

theorem Sound.cleanRows (h : p.Sound) {firstY count : UInt32}
    (hend : firstY.toNat + count.toNat ≤ p.geometry.height.toNat) :
    p.RangeInside (p.cleanRows firstY count) := by
  have hsize := h.size
  have hle := Nat.mul_le_mul_right p.geometry.stride.toNat hend
  have hsplit := Nat.add_mul firstY.toNat count.toNat p.geometry.stride.toNat
  unfold fbconFbSize at hsize
  have hoffset : ∀ n < 2 ^ 64, p.offset (p.fbVaddr + UInt64.ofNat n) = n := by
    intro n hn
    unfold Panel.offset
    rw [UInt64.add_comm, UInt64.add_sub_cancel]
    exact UInt64.toNat_ofNat_of_lt' hn
  unfold RangeInside Panel.cleanRows pixelRow fbconFbSize
  dsimp only
  rw [toUInt64_eq, toUInt64_eq, toUInt64_eq, UInt64.add_assoc, ← UInt64.ofNat_mul,
    ← UInt64.ofNat_mul, ← UInt64.ofNat_add, hoffset _ (by omega), hoffset _ (by omega)]
  omega

theorem Sound.rowRange (h : p.Sound) {row : UInt32} (hrow : row < p.geometry.rows) :
    p.RangeInside (p.rowRange row) := by
  apply h.cleanRows
  have hrows := h.rows
  have hcell := Nat.mul_le_mul_right p.layout.cellH.toNat
    (show row.toNat + 1 ≤ p.geometry.rows.toNat from UInt32.lt_iff_toNat_lt.mp hrow)
  rw [Nat.add_mul, Nat.one_mul] at hcell
  have hheight := p.geometry.height.toNat_lt
  rw [UInt32.toNat_add, UInt32.toNat_mul]
  omega

theorem Sound.clearPixels (h : p.Sound) (hw : w ∈ p.clearPixels []) : p.InBuffer w.addr := by
  obtain ⟨y, hy, x, hx, rfl⟩ := (mem_clearPixels.mp hw).resolve_left List.not_mem_nil
  rw [toUInt64_eq x]
  show p.InBuffer (p.pixelRow y + UInt64.ofNat 4 * UInt64.ofNat x.toNat)
  rw [← UInt64.ofNat_mul, pixelRow_add]
  exact (h.offset (UInt32.lt_iff_toNat_lt.mp hx) (UInt32.lt_iff_toNat_lt.mp hy)).2

end Panel

/-- Where no product or sum of the macros wraps, every accepted geometry is drawn
inside of the framebuffer, each cell on pixels of its own between the margins. -/
theorem draws_inside {p : Panel} {img srcStride : UInt32}
    (hg : readGeometry p.layout img srcStride = .ok p.geometry) (hfits : p.layout.Fits) :
    p.layout.ReadExact img ∧
      (∀ w ∈ p.clearPixels [], p.InBuffer w.addr) ∧
      (∀ col < p.geometry.cols, ∀ row < p.geometry.rows,
        (∀ gy < p.layout.fontH, ∀ sy < p.layout.scale, p.AddressExact col row gy sy) ∧
        ∀ ch, ∀ w ∈ p.drawGlyph col row ch [], p.InBuffer w.addr ∧ ∃ x y, p.At w.addr x y ∧
          p.layout.marginSide.toNat ≤ x ∧
          x < p.geometry.width.toNat - p.layout.marginSide.toNat ∧
          p.layout.marginTop.toNat ≤ y ∧
          y < p.geometry.height.toNat - p.layout.marginBottom.toNat) ∧
      (∀ col < p.geometry.cols, ∀ row < p.geometry.rows,
        ∀ col' < p.geometry.cols, ∀ row' < p.geometry.rows, (col, row) ≠ (col', row') →
        ∀ ch ch', ∀ w ∈ p.drawGlyph col row ch [], ∀ w' ∈ p.drawGlyph col' row' ch' [],
          w.addr ≠ w'.addr) ∧
      p.RangeInside p.clearRange ∧ ∀ row < p.geometry.rows, p.RangeInside (p.rowRange row) := by
  have hchecked := readGeometry_checked hg
  have hexact := hchecked.exact hfits
  have h : p.Sound := Panel.sound hchecked hfits
  refine ⟨hexact, ?_, ?_, ?_, ?_, ?_⟩
  · exact fun w hw => h.clearPixels hw
  · intro col hcol row hrow
    refine ⟨fun gy hgy sy hsy => h.addressExact hcol hrow hgy hsy, ?_⟩
    intro ch w hw
    obtain ⟨gy, hgy, sy, hsy, gx, hgx, sx, hsx, rfl⟩ :=
      ((h.mem_drawGlyph hcol hrow).mp hw).resolve_left List.not_mem_nil
    have hx := h.cellX_lt hcol hgx hsx
    have hy := h.cellY_lt hrow hgy hsy
    obtain ⟨hat, hin⟩ := h.offset (x := p.cellX col gx sx) (y := p.cellY row gy sy) (by omega)
      (by omega)
    exact ⟨hin, _, _, hat, Nat.le_add_right _ _, by omega, Nat.le_add_right _ _, by omega⟩
  · intro col hcol row hrow col' hcol' row' hrow' hne ch ch' w hw w' hw' heq
    obtain ⟨gy, hgy, sy, hsy, gx, hgx, sx, hsx, rfl⟩ :=
      ((h.mem_drawGlyph hcol hrow).mp hw).resolve_left List.not_mem_nil
    obtain ⟨gy', hgy', sy', hsy', gx', hgx', sx', hsx', rfl⟩ :=
      ((h.mem_drawGlyph hcol' hrow').mp hw').resolve_left List.not_mem_nil
    obtain ⟨⟨hcols, -⟩, hrows, -⟩ :=
      h.dot_inj hcol hcol' hrow hrow' hgx hgx' hgy hgy' hsx hsx' hsy hsy' heq
    exact hne (Prod.ext hcols hrows)
  · apply h.cleanRows
    show 0 + _ ≤ _
    omega
  · exact fun row hrow => h.rowRange hrow

theorem spleenLayout_fits : spleenLayout.Fits := by constructor <;> decide

/-- The panel of the default layout, with a blank font. -/
def Geometry.spleenPanel (g : Geometry) : Panel where
  layout := spleenLayout
  geometry := g
  fbVaddr := 0x10000000
  fontRows := fun _ _ => 0

theorem draws_inside_default : ∃ g, readGeometry spleenLayout 0 0 = .ok g ∧
    g.spleenPanel.RangeInside g.spleenPanel.clearRange := by
  have hg : readGeometry spleenLayout 0 0 = .ok _ := rfl
  exact ⟨_, hg, (draws_inside (p := Geometry.spleenPanel _) hg spleenLayout_fits).2.2.2.2.1⟩

/-- A side margin whose double wraps is accepted, and the first pixel of the text is
far behind the buffer. -/
theorem side_margin_wraps :
    ∃ g, readGeometry { spleenLayout with marginSide := 0x80000000 } 0 0 = .ok g ∧
      (0 < g.cols ∧ 0 < g.rows) ∧
      let p := { g.spleenPanel with layout := { spleenLayout with marginSide := 0x80000000 } }
      ∃ w ∈ p.drawGlyph 0 0 0x20 [], ¬p.InBuffer w.addr := by
  refine ⟨_, rfl, by decide, ?_⟩
  dsimp only
  refine ⟨_, Panel.mem_drawGlyph.mpr
    (Or.inr ⟨0, by decide, 0, by decide, 0, by decide, 0, by decide, rfl⟩), ?_⟩
  unfold Panel.InBuffer
  decide

end Fbcon
end TensorSel4
