/-
What the panel shows: the framebuffer after `clear_screen` and every `render`.

A render draws the rows that are dirty, or all of them after a scroll.  The
framebuffer is the same as if it drew all of them every time.
-/
import TensorSel4.Fbcon.Framebuffer
import TensorSel4.Fbcon.Terminal

namespace TensorSel4
namespace Fbcon

/-- The stores happen, in their order. -/
def paint (m : UInt64 → UInt32) (pixels : List Pixel) : UInt64 → UInt32 :=
  pixels.foldl (fun m w => Function.update m w.addr w.color) m

section

variable {m : UInt64 → UInt32} {pixels : List Pixel} {a : UInt64}

theorem paint_of_not_mem (h : ∀ w ∈ pixels, w.addr ≠ a) : paint m pixels a = m a := by
  induction pixels generalizing m with
  | nil => rfl
  | cons w pixels ih =>
    have hne : a ≠ w.addr := (h w List.mem_cons_self).symm
    refine (ih fun w' hw' => h w' (List.mem_cons_of_mem w hw')).trans ?_
    exact Function.update_of_ne hne w.color m

/-- Where all the stores to an address are of one colour, the address has it. -/
theorem paint_of_mem {color : UInt32} (h : ∀ w ∈ pixels, w.addr = a → w.color = color)
    (hmem : ∃ w ∈ pixels, w.addr = a) : paint m pixels a = color := by
  induction pixels generalizing m with
  | nil =>
    obtain ⟨w, hw, -⟩ := hmem
    exact absurd hw List.not_mem_nil
  | cons w pixels ih =>
    have hrest := fun w' hw' => h w' (List.mem_cons_of_mem w hw')
    show paint (Function.update m w.addr w.color) pixels a = color
    by_cases hlater : ∃ w' ∈ pixels, w'.addr = a
    · exact ih hrest hlater
    · have hnot : ∀ w' ∈ pixels, w'.addr ≠ a := fun w' hw' heq => hlater ⟨w', hw', heq⟩
      have hthis : w.addr = a := by
        obtain ⟨w', hw', heq⟩ := hmem
        rcases List.mem_cons.mp hw' with rfl | hin
        · exact heq
        · exact absurd heq (hnot w' hin)
      rw [paint_of_not_mem hnot, ← hthis, Function.update_self]
      exact h w List.mem_cons_self hthis

end

/-- Two loops in step. -/
theorem forRange_sim {σ τ : Type} {lo hi : UInt32} (R : Nat → σ → τ → Prop)
    (body : UInt32 → σ → σ) (body' : UInt32 → τ → τ) {s : σ} {t : τ} (hle : lo ≤ hi)
    (hst : R lo.toNat s t)
    (hbody : ∀ r s t, lo ≤ r → r < hi → R r.toNat s t → R (r.toNat + 1) (body r s) (body' r t)) :
    R hi.toNat (forRange lo hi body s) (forRange lo hi body' t) := by
  have hpair : ∀ (is : List Nat) (s : σ) (t : τ),
      is.foldl (fun u r => (body (UInt32.ofNat r) u.1, body' (UInt32.ofNat r) u.2)) (s, t) =
        (is.foldl (fun s r => body (UInt32.ofNat r) s) s,
          is.foldl (fun t r => body' (UInt32.ofNat r) t) t) := by
    intro is
    induction is with
    | nil => exact fun _ _ => rfl
    | cons i is ih => exact fun s t => ih _ _
  have hcount := forRange_count (s := (s, t)) (fun k u => R k u.1 u.2)
    (fun r u => (body r u.1, body' r u.2)) hle hst
    fun r u hlo hhi hu => hbody r u.1 u.2 hlo hhi hu
  rw [forRange, hpair] at hcount
  exact hcount

namespace Panel

variable {p : Panel} {m m' : UInt64 → UInt32} {col col' row row' : UInt32} {ch ch' : UInt8}
variable {grid : UInt32 → UInt32 → UInt8}

/-- The cell has every pixel as `draw_glyph` draws it. -/
def ShowsGlyph (p : Panel) (m : UInt64 → UInt32) (col row : UInt32) (ch : UInt8) : Prop :=
  ∀ w ∈ p.drawGlyph col row ch [], m w.addr = w.color

/-- Every cell shows what the grid has there. -/
def Pictures (p : Panel) (m : UInt64 → UInt32) (grid : UInt32 → UInt32 → UInt8) : Prop :=
  ∀ row < p.geometry.rows, ∀ col < p.geometry.cols, p.ShowsGlyph m col row (grid row col)

/-- A glyph is drawn. -/
def paintGlyph (p : Panel) (col row : UInt32) (ch : UInt8) (m : UInt64 → UInt32) :
    UInt64 → UInt32 := paint m (p.drawGlyph col row ch [])

/-- The rows that are picked are drawn. -/
def paintRows (p : Panel) (pick : UInt32 → Bool) (grid : UInt32 → UInt32 → UInt8)
    (m : UInt64 → UInt32) : UInt64 → UInt32 :=
  forRange 0 p.geometry.rows (fun r m => if pick r then
    forRange 0 p.geometry.cols (fun c => p.paintGlyph c r (grid r c)) m else m) m

/-- Every row is drawn. -/
def redraw (p : Panel) (grid : UInt32 → UInt32 → UInt8) (m : UInt64 → UInt32) :
    UInt64 → UInt32 := p.paintRows (fun _ => true) grid m

theorem Sound.paintGlyph_self (h : p.Sound) (hcol : col < p.geometry.cols)
    (hrow : row < p.geometry.rows) : p.ShowsGlyph (p.paintGlyph col row ch m) col row ch := by
  intro w hw
  refine paint_of_mem ?_ ⟨w, hw, rfl⟩
  intro w' hw' heq
  obtain ⟨gy, hgy, sy, hsy, gx, hgx, sx, hsx, rfl⟩ :=
    ((h.mem_drawGlyph hcol hrow).mp hw).resolve_left List.not_mem_nil
  obtain ⟨gy', hgy', sy', hsy', gx', hgx', sx', hsx', rfl⟩ :=
    ((h.mem_drawGlyph hcol hrow).mp hw').resolve_left List.not_mem_nil
  obtain ⟨⟨-, hx⟩, -, hy⟩ :=
    h.dot_inj hcol hcol hrow hrow hgx' hgx hgy' hgy hsx' hsx hsy' hsy heq
  rw [hx, hy]

/-- A glyph leaves the other cells as they are. -/
theorem Sound.paintGlyph_other (h : p.Sound) (hcol : col < p.geometry.cols)
    (hrow : row < p.geometry.rows) (hcol' : col' < p.geometry.cols)
    (hrow' : row' < p.geometry.rows) (hne : ¬(col' = col ∧ row' = row))
    (hshows : p.ShowsGlyph m col' row' ch') :
    p.ShowsGlyph (p.paintGlyph col row ch m) col' row' ch' := by
  intro w hw
  refine (paint_of_not_mem ?_).trans (hshows w hw)
  intro w' hw' heq
  obtain ⟨gy, hgy, sy, hsy, gx, hgx, sx, hsx, rfl⟩ :=
    ((h.mem_drawGlyph hcol' hrow').mp hw).resolve_left List.not_mem_nil
  obtain ⟨gy', hgy', sy', hsy', gx', hgx', sx', hsx', rfl⟩ :=
    ((h.mem_drawGlyph hcol hrow).mp hw').resolve_left List.not_mem_nil
  obtain ⟨⟨hcols, -⟩, hrows, -⟩ :=
    h.dot_inj hcol hcol' hrow hrow' hgx' hgx hgy' hgy hsx' hsx hsy' hsy heq
  exact hne ⟨hcols.symm, hrows.symm⟩

/-- Rows that are drawn show the grid, and the others show what they did. -/
theorem Sound.paintRows_pictures (h : p.Sound) {pick : UInt32 → Bool}
    (hkept : ∀ row < p.geometry.rows, pick row = false → ∀ col < p.geometry.cols,
      p.ShowsGlyph m col row (grid row col)) : p.Pictures (p.paintRows pick grid m) grid := by
  have hcount := forRange_count (s := m)
    (fun k m => ∀ row < p.geometry.rows, row.toNat < k ∨ pick row = false →
      ∀ col < p.geometry.cols, p.ShowsGlyph m col row (grid row col))
    (fun r m => if pick r then
      forRange 0 p.geometry.cols (fun c => p.paintGlyph c r (grid r c)) m else m)
    (UInt32.zero_le (a := p.geometry.rows))
    (fun row hrow hpick => hkept row hrow (hpick.resolve_left (Nat.not_lt_zero _))) (by
      intro r m _ hr hm
      by_cases hpick : pick r = true
      · rw [if_pos hpick]
        have hcells := forRange_count (s := m)
          (fun k m => ∀ row < p.geometry.rows, ∀ col < p.geometry.cols,
            (row = r ∧ col.toNat < k) ∨ (row ≠ r ∧ (row.toNat < r.toNat ∨ pick row = false)) →
              p.ShowsGlyph m col row (grid row col))
          (fun c => p.paintGlyph c r (grid r c)) (UInt32.zero_le (a := p.geometry.cols))
          (by
            rintro row hrow col hcol (⟨-, hlt⟩ | ⟨-, hdone⟩)
            · exact absurd hlt (Nat.not_lt_zero _)
            · exact hm row hrow hdone col hcol)
          (by
            intro c m _ hc hm row hrow col hcol hdone
            by_cases hthis : col = c ∧ row = r
            · rw [hthis.1, hthis.2]
              exact h.paintGlyph_self hc hr
            · apply h.paintGlyph_other hc hr hcol hrow hthis
              apply hm row hrow col hcol
              rcases hdone with ⟨heq, hlt⟩ | hother
              · have hne : col.toNat ≠ c.toNat := fun hn => hthis ⟨UInt32.toNat_inj.mp hn, heq⟩
                exact Or.inl ⟨heq, by omega⟩
              · exact Or.inr hother)
        intro row hrow hdone col hcol
        apply hcells row hrow col hcol
        by_cases heq : row = r
        · exact Or.inl ⟨heq, UInt32.lt_iff_toNat_lt.mp hcol⟩
        · have hne : row.toNat ≠ r.toNat := fun hn => heq (UInt32.toNat_inj.mp hn)
          exact Or.inr ⟨heq, hdone.imp_left fun hlt => by omega⟩
      · rw [if_neg hpick]
        intro row hrow hdone
        apply hm row hrow
        by_cases heq : row = r
        · rw [heq]
          exact Or.inr (Bool.eq_false_iff.mpr hpick)
        · have hne : row.toNat ≠ r.toNat := fun hn => heq (UInt32.toNat_inj.mp hn)
          exact hdone.imp_left fun hlt => by omega)
  exact fun row hrow col hcol => hcount row hrow (Or.inl (UInt32.lt_iff_toNat_lt.mp hrow)) col hcol

/-- No cell has a pixel at the address. -/
def Outside (p : Panel) (grid : UInt32 → UInt32 → UInt8) (a : UInt64) : Prop :=
  ∀ row < p.geometry.rows, ∀ col < p.geometry.cols,
    ∀ w ∈ p.drawGlyph col row (grid row col) [], w.addr ≠ a

theorem paintRows_outside {pick : UInt32 → Bool} {a : UInt64} (ha : p.Outside grid a) :
    p.paintRows pick grid m a = m a := by
  refine forRange_induction (I := fun m' : UInt64 → UInt32 => m' a = m a) rfl ?_
  intro r m' _ hr hm'
  split
  · refine forRange_induction (I := fun m' : UInt64 → UInt32 => m' a = m a) hm' ?_
    intro c m'' _ hc hm''
    exact (paint_of_not_mem (ha r hr c hc)).trans hm''
  · exact hm'

/-- Two framebuffers that show the same grid differ only where there is no cell. -/
theorem Pictures.ext (h : p.Pictures m grid) (h' : p.Pictures m' grid)
    (hout : ∀ a, p.Outside grid a → m a = m' a) : m = m' := by
  funext a
  by_cases ha : p.Outside grid a
  · exact hout a ha
  · simp only [Outside, not_forall, ne_eq, not_not] at ha
    obtain ⟨row, hrow, col, hcol, w, hw, rfl⟩ := ha
    rw [h row hrow col hcol w hw, h' row hrow col hcol w hw]

/-- Drawing the rows that do not show the grid yet is as good as drawing all. -/
theorem Sound.paintRows_eq_redraw (h : p.Sound) {pick : UInt32 → Bool}
    (hkept : ∀ row < p.geometry.rows, pick row = false → ∀ col < p.geometry.cols,
      p.ShowsGlyph m col row (grid row col)) : p.paintRows pick grid m = p.redraw grid m := by
  refine (h.paintRows_pictures hkept).ext (h.paintRows_pictures fun _ _ hpick => nomatch hpick) ?_
  intro a ha
  rw [paintRows_outside ha, redraw, paintRows_outside ha]

end Panel

/-! ## What a screen has drawn -/

/-- The framebuffer, after `clear_screen` and these calls of `draw_glyph`. -/
def Panel.frame (p : Panel) (m : UInt64 → UInt32) (drawn : List (UInt32 × UInt32 × UInt8)) :
    UInt64 → UInt32 :=
  drawn.foldl (fun m d => p.paintGlyph d.1 d.2.1 d.2.2 m) (paint m (p.clearPixels []))

/-- `notified`: the bytes that `drain_ring` finds are put, and drawn if there are any. -/
def Screen.notified (s : Screen) (batch : List UInt8) : Screen :=
  if batch = [] then s else (batch.foldl Screen.put s).render

namespace Screen

variable {p : Panel} {m : UInt64 → UInt32} {s t u : Screen}

/-- The row needs no drawing. -/
def Clean (s : Screen) (row : UInt32) : Prop := s.scrolled = false ∧ s.dirty row = false

/-- Nothing is drawn, and the rows that need no drawing are as they were. -/
structure Edits (s t : Screen) : Prop where
  rows : t.rows = s.rows
  cols : t.cols = s.cols
  drawn : t.drawn = s.drawn
  clean : ∀ row, t.Clean row → s.Clean row ∧ t.grid row = s.grid row

theorem Edits.refl (s : Screen) : Edits s s := ⟨rfl, rfl, rfl, fun _ h => ⟨h, rfl⟩⟩

theorem Edits.trans (h : Edits s t) (h' : Edits t u) : Edits s u := by
  refine ⟨h'.rows.trans h.rows, h'.cols.trans h.cols, h'.drawn.trans h.drawn, ?_⟩
  intro row hrow
  obtain ⟨ht, hgrid'⟩ := h'.clean row hrow
  obtain ⟨hs, hgrid⟩ := h.clean row ht
  exact ⟨hs, hgrid'.trans hgrid⟩

theorem scrollGrid_edits (s : Screen) : Edits s s.scrollGrid := by
  have hsame := s.moveRows_sameBut.trans s.moveRows.blankLastRow_sameBut
  refine ⟨hsame.rows, hsame.cols, ?_, ?_⟩
  · show s.moveRows.blankLastRow.drawn = s.drawn
    rw [show s.moveRows.blankLastRow = _ from hsame]
  · intro row hrow
    exact Bool.noConfusion hrow.1

theorem newline_edits (s : Screen) : Edits s s.newline := by
  have hcol : Edits s { s with curCol := 0 } := ⟨rfl, rfl, rfl, fun _ h => ⟨h, rfl⟩⟩
  unfold newline
  dsimp only
  split
  · exact hcol.trans ⟨rfl, rfl, rfl, fun _ h => ⟨h, rfl⟩⟩
  · exact hcol.trans (scrollGrid_edits _)

theorem writeCell_edits (s : Screen) (c : UInt8) : Edits s (s.writeCell c) := by
  refine ⟨rfl, rfl, rfl, ?_⟩
  rintro row ⟨hscrolled, hdirty⟩
  change Function.update s.dirty s.curRow true row = false at hdirty
  show s.Clean row ∧ Function.update s.grid s.curRow _ row = s.grid row
  by_cases heq : row = s.curRow
  · rw [heq, Function.update_self] at hdirty
    exact Bool.noConfusion hdirty
  · rw [Function.update_of_ne heq] at hdirty ⊢
    exact ⟨⟨hscrolled, hdirty⟩, rfl⟩

theorem putPrintable_edits (s : Screen) (c : UInt8) : Edits s (s.putPrintable c) := by
  unfold putPrintable
  split
  · exact s.newline_edits.trans (writeCell_edits _ c)
  · exact writeCell_edits s c

theorem put_edits (s : Screen) (c : UInt8) : Edits s (s.put c) := by
  unfold put
  split
  · exact s.newline_edits
  split
  · exact ⟨rfl, rfl, rfl, fun _ h => ⟨h, rfl⟩⟩
  split
  · exact forRange_induction (I := fun t => Edits s t) (Edits.refl s)
      fun _ t _ _ ht => ht.trans (t.putPrintable_edits 0x20)
  split
  · exact s.putPrintable_edits c
  · exact Edits.refl s

theorem foldl_put_edits (s : Screen) (batch : List UInt8) : Edits s (batch.foldl put s) := by
  induction batch generalizing s with
  | nil => exact Edits.refl s
  | cons c batch ih => exact (s.put_edits c).trans (ih (s.put c))

theorem frame_append (d : UInt32 × UInt32 × UInt8) (drawn : List (UInt32 × UInt32 × UInt8)) :
    p.frame m (drawn ++ [d]) = p.paintGlyph d.1 d.2.1 d.2.2 (p.frame m drawn) := by
  unfold Panel.frame
  rw [List.foldl_append]
  rfl

/-- A row is drawn from the grid, which stays. -/
theorem drawRow_frame (s : Screen) (r : UInt32) :
    p.frame m (s.drawRow r).drawn =
      forRange 0 s.cols (fun c => p.paintGlyph c r (s.grid r c)) (p.frame m s.drawn) := by
  have hsim := forRange_sim (s := s) (t := p.frame m s.drawn)
    (fun _ t m' => t.grid = s.grid ∧ p.frame m t.drawn = m')
    (fun c s => { s.access (.grid r c) with drawn := s.drawn ++ [(c, r, s.grid r c)] })
    (fun c => p.paintGlyph c r (s.grid r c)) (UInt32.zero_le (a := s.cols)) ⟨rfl, rfl⟩ (by
      rintro c t m' - - ⟨hgrid, hm⟩
      refine ⟨hgrid, ?_⟩
      rw [frame_append, hm, hgrid])
  exact hsim.2

theorem drawRow_keeps (s : Screen) (r : UInt32) : (s.drawRow r).scrolled = s.scrolled ∧
    (s.drawRow r).grid = s.grid ∧ (s.drawRow r).cols = s.cols ∧ (s.drawRow r).dirty = s.dirty :=
  forRange_induction
    (I := fun t : Screen => t.scrolled = s.scrolled ∧ t.grid = s.grid ∧ t.cols = s.cols ∧
      t.dirty = s.dirty) ⟨rfl, rfl, rfl, rfl⟩ fun _ _ _ _ ht => ht

/-- One round of `render`. -/
def renderRow (r : UInt32) (s : Screen) : Screen :=
  let s' := if s.scrolled then s else s.access (.dirty r)
  let s' := if s.scrolled ∨ s.dirty r then s'.drawRow r else s'
  s'.setDirty r false

theorem renderRow_frame (s : Screen) (r : UInt32) :
    p.frame m (s.renderRow r).drawn = if s.scrolled || s.dirty r then
      forRange 0 s.cols (fun c => p.paintGlyph c r (s.grid r c)) (p.frame m s.drawn)
      else p.frame m s.drawn := by
  have hlook : (if s.scrolled then s else s.access (.dirty r)).drawn = s.drawn ∧
      (if s.scrolled then s else s.access (.dirty r)).grid = s.grid ∧
      (if s.scrolled then s else s.access (.dirty r)).cols = s.cols := by
    split <;> exact ⟨rfl, rfl, rfl⟩
  obtain ⟨hdrawn, hgrid, hcols⟩ := hlook
  show p.frame m (if s.scrolled ∨ s.dirty r then Screen.drawRow _ r else _).drawn = _
  by_cases hpick : s.scrolled ∨ s.dirty r
  · have hpick' : (s.scrolled || s.dirty r) = true := by rwa [Bool.or_eq_true]
    rw [if_pos hpick, if_pos hpick', drawRow_frame, hdrawn, hgrid, hcols]
  · have hpick' : ¬(s.scrolled || s.dirty r) = true := by rwa [Bool.or_eq_true]
    rw [if_neg hpick, if_neg hpick', hdrawn]

theorem renderRow_keeps (s : Screen) (r : UInt32) :
    ((s.renderRow r).scrolled = s.scrolled ∧ (s.renderRow r).grid = s.grid ∧
      (s.renderRow r).cols = s.cols) ∧
      ∀ row, row ≠ r → (s.renderRow r).dirty row = s.dirty row := by
  have hlook : (if s.scrolled then s else s.access (.dirty r)).scrolled = s.scrolled ∧
      (if s.scrolled then s else s.access (.dirty r)).grid = s.grid ∧
      (if s.scrolled then s else s.access (.dirty r)).cols = s.cols ∧
      (if s.scrolled then s else s.access (.dirty r)).dirty = s.dirty := by
    split <;> exact ⟨rfl, rfl, rfl, rfl⟩
  unfold renderRow
  generalize (if s.scrolled then s else s.access (.dirty r)) = u at hlook
  obtain ⟨hscrolled, hgrid, hcols, hdirty⟩ := hlook
  have hdraw : ∀ v : Screen, v.scrolled = u.scrolled ∧ v.grid = u.grid ∧ v.cols = u.cols ∧
      v.dirty = u.dirty → ((v.setDirty r false).scrolled = s.scrolled ∧
        (v.setDirty r false).grid = s.grid ∧ (v.setDirty r false).cols = s.cols) ∧
      ∀ row, row ≠ r → (v.setDirty r false).dirty row = s.dirty row := by
    rintro v ⟨h1, h2, h3, h4⟩
    refine ⟨⟨h1.trans hscrolled, h2.trans hgrid, h3.trans hcols⟩, ?_⟩
    intro row hne
    show Function.update v.dirty r false row = s.dirty row
    rw [Function.update_of_ne hne, h4, hdirty]
  dsimp only
  apply hdraw
  split
  · exact u.drawRow_keeps r
  · exact ⟨rfl, rfl, rfl, rfl⟩

/-- A render draws the rows that are dirty, or all of them. -/
theorem render_frame (s : Screen) (hrows : s.rows = p.geometry.rows)
    (hcols : s.cols = p.geometry.cols) :
    p.frame m s.render.drawn =
      p.paintRows (fun r => s.scrolled || s.dirty r) s.grid (p.frame m s.drawn) := by
  have hsim := forRange_sim (s := s) (t := p.frame m s.drawn)
    (fun k t m' => (t.scrolled = s.scrolled ∧ t.grid = s.grid ∧ t.cols = s.cols) ∧
      (∀ row : UInt32, k ≤ row.toNat → t.dirty row = s.dirty row) ∧ p.frame m t.drawn = m')
    renderRow (fun r m => if s.scrolled || s.dirty r then
      forRange 0 p.geometry.cols (fun c => p.paintGlyph c r (s.grid r c)) m else m)
    (UInt32.zero_le (a := s.rows)) ⟨⟨rfl, rfl, rfl⟩, fun _ _ => rfl, rfl⟩ (by
      rintro r t m' - - ⟨⟨hscrolled, hgrid, hcols'⟩, hdirty, hm⟩
      obtain ⟨⟨hscrolled', hgrid', hcols''⟩, hdirty'⟩ := t.renderRow_keeps r
      refine ⟨⟨hscrolled'.trans hscrolled, hgrid'.trans hgrid, hcols''.trans hcols'⟩, ?_, ?_⟩
      · intro row hle
        have hne : row ≠ r := by
          rintro rfl
          omega
        rw [hdirty' row hne]
        exact hdirty row (by omega)
      · rw [renderRow_frame, hscrolled, hdirty r (Nat.le_refl _), hgrid, hcols', hcols, hm])
  unfold Panel.paintRows
  rw [← hrows]
  exact hsim.2.2

/-- Rows that need no drawing show what the grid has there. -/
theorem Edits.showsGlyph (h : Edits s t) (hs : p.Pictures m s.grid) :
    ∀ row < p.geometry.rows, (t.scrolled || t.dirty row) = false →
      ∀ col < p.geometry.cols, p.ShowsGlyph m col row (t.grid row col) := by
  intro row hrow hpick col hcol
  obtain ⟨-, hgrid⟩ := h.clean row (Bool.or_eq_false_iff.mp hpick)
  rw [hgrid]
  exact hs row hrow col hcol

/-- What a notification does to a framebuffer that shows the grid. -/
theorem notified_frame (h : p.Sound) (hrows : s.rows = p.geometry.rows)
    (hcols : s.cols = p.geometry.cols) (hs : p.Pictures (p.frame m s.drawn) s.grid)
    (batch : List UInt8) :
    p.Pictures (p.frame m (s.notified batch).drawn) (s.notified batch).grid ∧
      p.frame m (s.notified batch).drawn = if batch = [] then p.frame m s.drawn
        else p.redraw (s.notified batch).grid (p.frame m s.drawn) := by
  unfold notified
  by_cases hany : batch = []
  · rw [if_pos hany, if_pos hany]
    exact ⟨hs, rfl⟩
  · have hedits := s.foldl_put_edits batch
    rw [if_neg hany, if_neg hany]
    generalize batch.foldl put s = t at hedits
    have hclean := hedits.showsGlyph hs
    rw [t.render_frame (hedits.rows.trans hrows) (hedits.cols.trans hcols), hedits.drawn,
      t.render_grid]
    exact ⟨h.paintRows_pictures hclean, h.paintRows_eq_redraw hclean⟩

theorem notified_size (s : Screen) (batch : List UInt8) :
    (s.notified batch).rows = s.rows ∧ (s.notified batch).cols = s.cols := by
  unfold notified
  split
  · exact ⟨rfl, rfl⟩
  · have hedits := s.foldl_put_edits batch
    have hdraws := (batch.foldl put s).render_draws
    exact ⟨hdraws.rows.trans hedits.rows, hdraws.cols.trans hedits.cols⟩

end Screen

namespace Panel

variable {p : Panel} {m : UInt64 → UInt32}

/-- A cleared framebuffer shows a grid of blanks, where the space is blank. -/
theorem Sound.clear_pictures (h : p.Sound)
    (hblank : ∀ gy < p.layout.fontH, ∀ gx < p.layout.fontW, p.glyphColor 0x20 gy gx = bg) :
    p.Pictures (paint m (p.clearPixels [])) p.geometry.screen.grid := by
  intro row hrow col hcol
  have hgrid : p.geometry.screen.grid row col = 0x20 :=
    Screen.clearScreen_grid { cols := p.geometry.cols, rows := p.geometry.rows } hrow hcol
  rw [hgrid]
  intro w hw
  obtain ⟨gy, hgy, sy, hsy, gx, hgx, sx, hsx, rfl⟩ :=
    ((h.mem_drawGlyph hcol hrow).mp hw).resolve_left List.not_mem_nil
  rw [hblank gy hgy gx hgx]
  apply paint_of_mem
  · intro w hw _
    obtain ⟨y, -, x, -, rfl⟩ := (mem_clearPixels.mp hw).resolve_left List.not_mem_nil
    rfl
  · have hx := h.cellX_lt hcol hgx hsx
    have hy := h.cellY_lt hrow hgy hsy
    have hx32 : (UInt32.ofNat (p.cellX col gx sx)).toNat = p.cellX col gx sx :=
      UInt32.toNat_ofNat_of_lt' (Nat.lt_trans (by omega) p.geometry.width.toNat_lt)
    have hy32 : (UInt32.ofNat (p.cellY row gy sy)).toNat = p.cellY row gy sy :=
      UInt32.toNat_ofNat_of_lt' (Nat.lt_trans (by omega) p.geometry.height.toNat_lt)
    refine ⟨_, mem_clearPixels.mpr (Or.inr ⟨UInt32.ofNat (p.cellY row gy sy), ?_,
      UInt32.ofNat (p.cellX col gx sx), ?_, rfl⟩), ?_⟩
    · rw [UInt32.lt_iff_toNat_lt, hy32]
      omega
    · rw [UInt32.lt_iff_toNat_lt, hx32]
      omega
    · show p.pixelRow _ + UInt64.ofNat 4 * UInt32.toUInt64 _ = _
      rw [toUInt64_eq, hx32, ← UInt64.ofNat_mul, pixelRow_add, hy32]

/-- The screen and the framebuffer, if every render drew every row. -/
def redrawAll (p : Panel) (m : UInt64 → UInt32) (batches : List (List UInt8)) :
    Screen × (UInt64 → UInt32) :=
  batches.foldl (fun u batch => (u.1.notified batch,
    if batch = [] then u.2 else p.redraw (u.1.notified batch).grid u.2))
    (p.geometry.screen, paint m (p.clearPixels []))

theorem Sound.run_pictures (h : p.Sound)
    (hblank : ∀ gy < p.layout.fontH, ∀ gx < p.layout.fontW, p.glyphColor 0x20 gy gx = bg)
    (batches : List (List UInt8)) :
    let s := batches.foldl Screen.notified p.geometry.screen
    (s.rows = p.geometry.rows ∧ s.cols = p.geometry.cols) ∧
      p.Pictures (p.frame m s.drawn) s.grid ∧
      p.redrawAll m batches = (s, p.frame m s.drawn) := by
  have hclear := Screen.clearScreen_sameBut { cols := p.geometry.cols, rows := p.geometry.rows }
  induction batches using List.reverseRecOn with
  | nil =>
    have hdrawn : p.geometry.screen.drawn = [] := by
      rw [show p.geometry.screen = _ from hclear]
    have hframe : p.frame m p.geometry.screen.drawn = paint m (p.clearPixels []) := by
      rw [hdrawn]
      rfl
    refine ⟨⟨hclear.rows, hclear.cols⟩, ?_, ?_⟩
    · show p.Pictures (p.frame m p.geometry.screen.drawn) _
      rw [hframe]
      exact h.clear_pictures hblank
    · show (p.geometry.screen, _) = (p.geometry.screen, p.frame m p.geometry.screen.drawn)
      rw [hframe]
  | append_singleton batches batch ih =>
    obtain ⟨⟨hrows, hcols⟩, hpictures, hall⟩ := ih
    unfold redrawAll at hall ⊢
    rw [List.foldl_append, List.foldl_append, hall]
    generalize batches.foldl Screen.notified p.geometry.screen = s at hrows hcols hpictures
    obtain ⟨hnext, hframe⟩ := Screen.notified_frame h hrows hcols hpictures batch
    obtain ⟨hrows', hcols'⟩ := s.notified_size batch
    refine ⟨⟨hrows'.trans hrows, hcols'.trans hcols⟩, hnext, ?_⟩
    exact Prod.ext rfl hframe.symm

end Panel

/-- After every notification each cell shows what the grid has there, and the
framebuffer is as if every render had drawn every row. -/
theorem render_eq_redraw {p : Panel} {img srcStride : UInt32}
    (hg : readGeometry p.layout img srcStride = .ok p.geometry) (hfits : p.layout.Fits)
    (hblank : ∀ gy < p.layout.fontH, ∀ gx < p.layout.fontW, p.glyphColor 0x20 gy gx = bg)
    (m : UInt64 → UInt32) (batches : List (List UInt8)) :
    let s := batches.foldl Screen.notified p.geometry.screen
    p.Pictures (p.frame m s.drawn) s.grid ∧ p.frame m s.drawn = (p.redrawAll m batches).2 := by
  have hsound := Panel.sound (readGeometry_checked hg) hfits
  obtain ⟨-, hpictures, hall⟩ := hsound.run_pictures hblank batches
  exact ⟨hpictures, by rw [hall]⟩

theorem render_eq_redraw_default : ∃ g, readGeometry spleenLayout 0 0 = .ok g ∧
    let s := [[0x61, 0x0a], [], [0x62]].foldl Screen.notified g.screen
    g.spleenPanel.Pictures (g.spleenPanel.frame (fun _ => 0) s.drawn) s.grid := by
  have hg : readGeometry spleenLayout 0 0 = .ok _ := rfl
  refine ⟨_, hg, (render_eq_redraw (p := Geometry.spleenPanel _) hg spleenLayout_fits ?_ _ _).1⟩
  intro gy _ gx _
  simp [Panel.glyphColor, Panel.glyphOf, Geometry.spleenPanel]

theorem dotCell_pos : (0 : UInt32) < 1 * 1 := by decide

/-- A font of one dot, and a side margin whose double wraps. -/
def dotLayout : Layout where
  fontW := 1
  fontH := 1
  scale := 1
  marginTop := 0
  marginBottom := 0
  marginSide := 0x80000000
  cellW_pos := dotCell_pos
  cellH_pos := dotCell_pos

def Geometry.dotPanel (g : Geometry) : Panel where
  layout := dotLayout
  geometry := g
  fbVaddr := 0x10000000
  fontRows := fun c _ => if c = 0 then 0 else 1

/-- With that margin the second row, which is blank, is never drawn and not where the
screen was cleared. -/
theorem blank_row_not_shown : ∃ g, readGeometry dotLayout 0x00020001 4 = .ok g ∧
    (g.cols = 1 ∧ g.rows = 2) ∧
    (∀ gy < dotLayout.fontH, ∀ gx < dotLayout.fontW, g.dotPanel.glyphColor 0x20 gy gx = bg) ∧
    let s := [[0x61]].foldl Screen.notified g.screen
    ¬g.dotPanel.Pictures (g.dotPanel.frame (fun _ => 0) s.drawn) s.grid := by
  refine ⟨_, rfl, ⟨rfl, rfl⟩, fun gy _ gx _ => ?_, fun h => ?_⟩
  · simp [Panel.glyphColor, Panel.glyphOf, Geometry.dotPanel]
  · have hcell := h 1 (by decide) 0 (by decide) _ List.mem_cons_self
    revert hcell
    decide

end Fbcon
end TensorSel4
