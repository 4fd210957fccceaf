/-
The glyphs on the panel: the table of `tools/bdf2c.py` in `draw_glyph` of
`fbcon/fbcon.c`.

`bdf2c` turns each row of the font around to the bits of a `uint32_t`, and `draw_glyph`
turns it back.
-/
import TensorSel4.Fbcon.Bdf2c
import TensorSel4.Fbcon.Picture

namespace TensorSel4

/-- The panel is built with this header. -/
structure Bdf2c.Header.Builds (header : Bdf2c.Header) (p : Fbcon.Panel) : Prop where
  fontW : p.layout.fontW.toNat = header.fontW
  fontH : p.layout.fontH.toNat = header.fontH
  fontRows : ∀ i : UInt8, i.toNat < Bdf2c.codes.length → ∀ gy < p.layout.fontH,
    p.fontRows i gy = UInt32.ofNat ((header.fontRows.getD i.toNat []).getD gy.toNat 0)

/-- Where the font is used, each row of a bitmap is given in whole bytes. -/
def Bdf2c.Font.RowBytes (f : Bdf2c.Font) : Prop :=
  ∀ code ∈ Bdf2c.codes, ∀ g, f.glyph code = some g → g.RowBytes

namespace Fbcon

open Bytes

/-- The code whose glyph a character has: a space stands for what is not printable. -/
def shownCode (ch : UInt8) : UInt8 := if 0x20 ≤ ch ∧ ch ≤ 0x7e then ch else 0x20

namespace Panel

/-- Every dot of the cell is a block of pixels on the screen, in the foreground colour
where the font has a bit and in the background colour elsewhere. -/
def ShowsFont (p : Panel) (f : Bdf2c.Font) (m : UInt64 → UInt32) (col row : UInt32)
    (code : UInt8) : Prop :=
  ∀ gy < p.layout.fontH, ∀ gx < p.layout.fontW, ∀ sy < p.layout.scale, ∀ sx < p.layout.scale,
    (p.cellX col gx sx < p.geometry.width.toNat ∧ p.cellY row gy sy < p.geometry.height.toNat) ∧
      m (p.pixelAt (p.cellX col gx sx) (p.cellY row gy sy)) =
        if f.dot code.toNat gx.toNat gy.toNat then fg else bg

end Panel

/-! ## Colours -/

theorem shownCode_range (ch : UInt8) :
    Bdf2c.first ≤ (shownCode ch).toNat ∧ (shownCode ch).toNat ≤ Bdf2c.last := by
  unfold shownCode
  split
  next h => exact ⟨UInt8.le_iff_toNat_le.mp h.1, UInt8.le_iff_toNat_le.mp h.2⟩
  · decide

theorem glyphOf_eq (p : Panel) (ch : UInt8) :
    p.glyphOf ch = p.fontRows (shownCode ch - 0x20) := by
  unfold Panel.glyphOf shownCode
  split <;> rfl

theorem shownCode_sub (ch : UInt8) :
    (shownCode ch - 0x20).toNat = (shownCode ch).toNat - Bdf2c.first :=
  UInt8.toNat_sub_of_le _ _ (UInt8.le_iff_toNat_le.mpr (shownCode_range ch).1)

theorem shiftRight_and_one_iff (v : UInt32) {s : UInt32} (h : s.toNat < 32) :
    (v >>> s) &&& 1 ≠ 0 ↔ v.toNat.testBit s.toNat = true := by
  have hand : ((v >>> s) &&& 1).toNat = (v.toNat >>> s.toNat) % 2 := by
    rw [UInt32.toNat_and, UInt32.toNat_shiftRight, Nat.mod_eq_of_lt h]
    exact Nat.and_one_is_mod _
  have hzero : (0 : UInt32).toNat = 0 := rfl
  rw [ne_eq, ← UInt32.toNat_inj, hand, hzero, Nat.testBit_eq_decide_div_mod_eq,
    decide_eq_true_eq, Nat.shiftRight_eq_div_pow]
  omega

/-- A bit of a row that fits the row's type. -/
theorem testBit_ofNat (r : Nat) {i : Nat} (h : i < 32) :
    (UInt32.ofNat r).toNat.testBit i = r.testBit i := by
  rw [UInt32.toNat_ofNat', Nat.testBit_mod_two_pow, decide_eq_true h, Bool.true_and]

namespace Panel

variable {p : Panel} {header : Bdf2c.Header} {f : Bdf2c.Font} {text : List Char}
variable {m : UInt64 → UInt32} {grid : UInt32 → UInt32 → UInt8}

/-- The C side takes out of a row the bit that the Python side put in. -/
theorem glyphColor_eq (hmain : Bdf2c.main text = .ok header) (hparse : Bdf2c.parse text = .ok f)
    (hbytes : f.RowBytes) (hbuilt : header.Builds p) (ch : UInt8) {gx gy : UInt32}
    (hgx : gx < p.layout.fontW) (hgy : gy < p.layout.fontH) :
    p.glyphColor ch gy gx =
      if f.dot (shownCode ch).toNat gx.toNat gy.toNat then fg else bg := by
  obtain ⟨hfirst, hlast⟩ := shownCode_range ch
  have hwide := Bdf2c.main_fontW hmain
  have hfontW := hbuilt.fontW
  have hgxNat := UInt32.lt_iff_toNat_lt.mp hgx
  have hmem := List.mem_of_getElem? (Bdf2c.codes_getElem? hfirst hlast)
  have hindex : (shownCode ch - 0x20).toNat < Bdf2c.codes.length := by
    rw [shownCode_sub]
    exact (List.getElem?_eq_some_iff.mp (Bdf2c.codes_getElem? hfirst hlast)).1
  have hdot : bitAt (header.fontRows.getD ((shownCode ch).toNat - Bdf2c.first) []) gy.toNat
      (header.fontW - 1 - gx.toNat).toNat = f.dot (shownCode ch).toNat gx.toNat gy.toNat :=
    Bdf2c.table_bitAt hmain hparse hfirst hlast (hbytes _ hmem) (by omega)
  have hone : (p.layout.fontW - 1).toNat = p.layout.fontW.toNat - 1 :=
    UInt32.toNat_sub_of_le _ _ (UInt32.le_iff_toNat_le.mpr (by show 1 ≤ _; omega))
  have hshift : (p.layout.fontW - 1 - gx).toNat = (header.fontW - 1 - gx.toNat).toNat := by
    rw [UInt32.toNat_sub_of_le _ _ (UInt32.le_iff_toNat_le.mpr (by omega)), hone]
    omega
  have hrow := hbuilt.fontRows _ hindex gy hgy
  rw [shownCode_sub] at hrow
  have hbit : (p.glyphOf ch gy >>> (p.layout.fontW - 1 - gx)) &&& 1 ≠ 0 ↔
      f.dot (shownCode ch).toNat gx.toNat gy.toNat = true := by
    rw [shiftRight_and_one_iff _ (by omega), glyphOf_eq, hrow, testBit_ofNat _ (by omega), hshift,
      ← hdot, bitAt]
  unfold glyphColor
  simp only [hbit]

/-- A cell that shows a glyph of `draw_glyph` shows it as the font has it. -/
theorem Sound.showsFont (h : p.Sound) (hmain : Bdf2c.main text = .ok header)
    (hparse : Bdf2c.parse text = .ok f) (hbytes : f.RowBytes) (hbuilt : header.Builds p)
    {col row : UInt32} (hcol : col < p.geometry.cols) (hrow : row < p.geometry.rows) {ch : UInt8}
    (hshows : p.ShowsGlyph m col row ch) : p.ShowsFont f m col row (shownCode ch) := by
  intro gy hgy gx hgx sy hsy sx hsx
  have hx := h.cellX_lt hcol hgx hsx
  have hy := h.cellY_lt hrow hgy hsy
  refine ⟨by omega, ?_⟩
  rw [← glyphColor_eq hmain hparse hbytes hbuilt ch hgx hgy]
  apply hshows ⟨p.pixelAt (p.cellX col gx sx) (p.cellY row gy sy), p.glyphColor ch gy gx⟩
  exact (h.mem_drawGlyph hcol hrow).mpr (Or.inr ⟨gy, hgy, sy, hsy, gx, hgx, sx, hsx, rfl⟩)

/-- A framebuffer that shows a grid shows it in the font. -/
theorem Pictures.showsFont (hpictures : p.Pictures m grid) (h : p.Sound)
    (hmain : Bdf2c.main text = .ok header) (hparse : Bdf2c.parse text = .ok f)
    (hbytes : f.RowBytes) (hbuilt : header.Builds p) :
    ∀ row < p.geometry.rows, ∀ col < p.geometry.cols,
      p.ShowsFont f m col row (shownCode (grid row col)) :=
  fun row hrow col hcol =>
    h.showsFont hmain hparse hbytes hbuilt hcol hrow (hpictures row hrow col hcol)

end Panel

/-- `draw_glyph` paints the dots of the font, whatever the framebuffer had. -/
theorem glyphs_reach_screen {p : Panel} {img srcStride : UInt32} {text : List Char}
    {header : Bdf2c.Header} {f : Bdf2c.Font} (hmain : Bdf2c.main text = .ok header)
    (hparse : Bdf2c.parse text = .ok f) (hbytes : f.RowBytes) (hbuilt : header.Builds p)
    (hg : readGeometry p.layout img srcStride = .ok p.geometry) (hfits : p.layout.Fits) :
    ∀ code, 0x20 ≤ code → code ≤ 0x7e → ∀ col < p.geometry.cols, ∀ row < p.geometry.rows, ∀ m,
      p.ShowsFont f (p.paintGlyph col row code m) col row code := by
  intro code hfirst hlast col hcol row hrow m
  have h : p.Sound := Panel.sound (readGeometry_checked hg) hfits
  have hcode : shownCode code = code := if_pos ⟨hfirst, hlast⟩
  have hself : p.ShowsGlyph (p.paintGlyph col row code m) col row code :=
    h.paintGlyph_self hcol hrow
  have hshows := h.showsFont hmain hparse hbytes hbuilt hcol hrow hself
  rw [hcode] at hshows
  exact hshows

/-- A font whose space is blank is on the screen from `clear_screen` on, after every
notification. -/
theorem screen_shows_font {p : Panel} {text : List Char} {header : Bdf2c.Header} {f : Bdf2c.Font}
    (h : p.Sound) (hmain : Bdf2c.main text = .ok header) (hparse : Bdf2c.parse text = .ok f)
    (hbytes : f.RowBytes) (hbuilt : header.Builds p) (hblank : ∀ gx gy, f.dot 0x20 gx gy = false)
    (m : UInt64 → UInt32) (batches : List (List UInt8)) :
    let s := batches.foldl Screen.notified p.geometry.screen
    ∀ row < p.geometry.rows, ∀ col < p.geometry.cols,
      p.ShowsFont f (p.frame m s.drawn) col row (shownCode (s.grid row col)) := by
  have hspace : ∀ gy < p.layout.fontH, ∀ gx < p.layout.fontW, p.glyphColor 0x20 gy gx = bg := by
    intro gy hgy gx hgx
    rw [Panel.glyphColor_eq hmain hparse hbytes hbuilt 0x20 hgx hgy, if_neg]
    exact Bool.eq_false_iff.mp (hblank _ _)
  obtain ⟨-, hpictures, -⟩ := h.run_pictures hspace batches
  exact hpictures.showsFont h hmain hparse hbytes hbuilt

/-! ## A font of two by two dots -/

/-- A dot in the upper right corner. -/
def tinyGlyph (code : Nat) : List Char :=
  "ENCODING ".toList ++ Nat.toDigits 10 code ++
    "\nBBX 1 2 1 0\nBITMAP\n80\n00\nENDCHAR\n".toList

def tinyFont : List Char :=
  "COPYRIGHT \"none\"\nFONTBOUNDINGBOX 2 2 0 0\n".toList ++ Bdf2c.codes.flatMap tinyGlyph

/-- `RowBytes` as a program. -/
def checkBytes (f : Bdf2c.Font) : Bool :=
  Bdf2c.codes.all fun code => (f.glyph code).all fun g => g.rows.all fun row =>
    (row.word.all fun c => (hexValue c).isSome) && row.word.length == 2 * ((g.width + 7) / 8)

theorem rowBytes_of_check {f : Bdf2c.Font} (h : checkBytes f = true) : f.RowBytes := by
  intro code hcode g hg row hrow
  have hglyph := List.all_eq_true.mp h code hcode
  rw [hg] at hglyph
  have hthis := List.all_eq_true.mp hglyph row hrow
  rw [Bool.and_eq_true, beq_iff_eq] at hthis
  exact ⟨List.all_eq_true.mp hthis.1, hthis.2⟩

theorem exists_of_any {ε α : Type} {x : Except ε α} {p : α → Bool}
    (h : x.toOption.any p = true) : ∃ a, x = .ok a ∧ p a = true := by
  cases x with
  | error e => cases h
  | ok a => exact ⟨a, rfl, h⟩

theorem tinyFont_ok : ∃ f header, Bdf2c.parse tinyFont = .ok f ∧ f.RowBytes ∧
    Bdf2c.main tinyFont = .ok header ∧ header.fontW = 2 ∧ header.fontH = 2 := by
  have hany : ((Bdf2c.parse tinyFont).toOption.any fun f => checkBytes f &&
      f.copyrightLine == some "none".toList &&
      (Bdf2c.render f "none".toList).toOption.any fun header =>
        decide (header.fontW = 2 ∧ header.fontH = 2)) = true := by
    decide +kernel
  obtain ⟨f, hparse, hf⟩ := exists_of_any hany
  rw [Bool.and_eq_true, Bool.and_eq_true, beq_iff_eq] at hf
  obtain ⟨⟨hbytes, hline⟩, hrender⟩ := hf
  obtain ⟨header, hheader, hsize⟩ := exists_of_any hrender
  refine ⟨f, header, hparse, rowBytes_of_check hbytes, ?_, of_decide_eq_true hsize⟩
  rw [Bdf2c.main, hparse]
  dsimp only [bind, Except.bind]
  rw [hline]
  exact hheader

theorem tinyCell_pos : (0 : UInt32) < 2 * 2 := by decide

/-- Dots of two by two pixels, between the default margins. -/
def tinyLayout : Layout :=
  { spleenLayout with fontW := 2, fontH := 2, cellW_pos := tinyCell_pos, cellH_pos := tinyCell_pos }

theorem tinyLayout_fits : tinyLayout.Fits := by constructor <;> decide

/-- A panel that is built with a header. -/
def headerPanel (header : Bdf2c.Header) (l : Layout) (g : Geometry) : Panel where
  layout := l
  geometry := g
  fbVaddr := 0x10000000
  fontRows := fun i gy => UInt32.ofNat ((header.fontRows.getD i.toNat []).getD gy.toNat 0)

theorem headerPanel_built {header : Bdf2c.Header} {l : Layout} (g : Geometry)
    (hW : header.fontW = 2) (hH : header.fontH = 2) (hl : l.fontW = 2 ∧ l.fontH = 2) :
    header.Builds (headerPanel header l g) := by
  refine ⟨?_, ?_, fun i _ gy _ => rfl⟩
  · rw [hW, headerPanel, hl.1]
    rfl
  · rw [hH, headerPanel, hl.2]
    rfl

/-- A screen of 256 by 480 pixels, as `RDMA_IMG_SIZE` has it. -/
def smallImg : UInt32 := 0x1e00100

theorem glyphs_reach_screen_tiny : ∃ f header g, Bdf2c.parse tinyFont = .ok f ∧
    Bdf2c.main tinyFont = .ok header ∧ readGeometry tinyLayout smallImg 0 = .ok g ∧
    (headerPanel header tinyLayout g).ShowsFont f
      ((headerPanel header tinyLayout g).paintGlyph 3 5 0x41 fun _ => 0) 3 5 0x41 := by
  obtain ⟨f, header, hparse, hbytes, hmain, hW, hH⟩ := tinyFont_ok
  have hg : readGeometry tinyLayout smallImg 0 = .ok _ := rfl
  have hcol : 3 < tinyLayout.textWidth smallImg / tinyLayout.cellW := by decide
  have hrow : 5 < tinyLayout.textHeight smallImg / tinyLayout.cellH := by decide
  refine ⟨f, header, _, hparse, hmain, hg, ?_⟩
  exact glyphs_reach_screen hmain hparse hbytes (headerPanel_built _ hW hH ⟨rfl, rfl⟩) hg
    tinyLayout_fits 0x41 (by decide) (by decide) 3 hcol 5 hrow _

theorem wideCell_pos : (0 : UInt32) < 2 * 0x80000001 := by decide

/-- Two dots are `2 ^ 32 + 2` pixels, and the cell is 2 wide. -/
def wideScale : Layout :=
  { tinyLayout with scale := 0x80000001, cellW_pos := wideCell_pos, cellH_pos := wideCell_pos }

def wideSides : Layout := { tinyLayout with marginSide := 0x80000000 }

def wideEnds : Layout := { tinyLayout with marginTop := 0x80000000, marginBottom := 0x80000000 }

theorem not_showsFont_of_off {header : Bdf2c.Header} {l : Layout} {g : Geometry} {f : Bdf2c.Font}
    {m : UInt64 → UInt32} {code : UInt8} (hl : l.fontW = 2 ∧ l.fontH = 2) (hscale : 0 < l.scale)
    (hoff : g.width.toNat ≤ cellPos l.marginSide l.cellW l.scale 0 1 0 ∨
      g.height.toNat ≤ cellPos l.marginTop l.cellH l.scale 0 1 0) :
    ¬ (headerPanel header l g).ShowsFont f m 0 0 code := by
  intro h
  have hone : (1 : UInt32) < 2 := by decide
  obtain ⟨⟨hx, hy⟩, -⟩ := h 1 (hl.2 ▸ hone) 1 (hl.1 ▸ hone) 0 hscale 0 hscale
  rcases hoff with hoff | hoff
  · exact Nat.not_lt.mpr hoff hx
  · exact Nat.not_lt.mpr hoff hy

/-- Layouts that are accepted and draw cells beside the screen. -/
theorem glyphs_off_screen : ∃ f header, Bdf2c.parse tinyFont = .ok f ∧ f.RowBytes ∧
    Bdf2c.main tinyFont = .ok header ∧ ∀ l ∈ [wideScale, wideSides, wideEnds],
      ∃ g, readGeometry l smallImg 0 = .ok g ∧ (0 < g.cols ∧ 0 < g.rows) ∧
        header.Builds (headerPanel header l g) ∧
        ∀ m, ¬ (headerPanel header l g).ShowsFont f
          ((headerPanel header l g).paintGlyph 0 0 0x41 m) 0 0 0x41 := by
  obtain ⟨f, header, hparse, hbytes, hmain, hW, hH⟩ := tinyFont_ok
  refine ⟨f, header, hparse, hbytes, hmain, ?_⟩
  rw [List.forall_mem_cons, List.forall_mem_cons, List.forall_mem_singleton]
  refine ⟨⟨_, rfl, by decide, headerPanel_built _ hW hH ⟨rfl, rfl⟩, fun m => ?_⟩,
    ⟨_, rfl, by decide, headerPanel_built _ hW hH ⟨rfl, rfl⟩, fun m => ?_⟩,
    ⟨_, rfl, by decide, headerPanel_built _ hW hH ⟨rfl, rfl⟩, fun m => ?_⟩⟩
  · exact not_showsFont_of_off ⟨rfl, rfl⟩ (by decide) (Or.inl (by decide))
  · exact not_showsFont_of_off ⟨rfl, rfl⟩ (by decide) (Or.inl (by decide))
  · exact not_showsFont_of_off ⟨rfl, rfl⟩ (by decide) (Or.inr (by decide))

end Fbcon
end TensorSel4
