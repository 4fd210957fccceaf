/-
fbcon's grid against a terminal without a bottom.

The terminal has as many rows as are written, so nothing ever scrolls in it.  The
grid shows its last rows, from a first row that only the cursor's row decides.
-/
import TensorSel4.Fbcon.Grid

namespace TensorSel4
namespace Fbcon

structure Terminal where
  cells : Nat → Nat → UInt8 := fun _ _ => 0x20
  row : Nat := 0
  col : Nat := 0

namespace Terminal

def newline (t : Terminal) : Terminal := { t with row := t.row + 1, col := 0 }

def writeCell (t : Terminal) (c : UInt8) : Terminal :=
  { t with
    cells := Function.update t.cells t.row (Function.update (t.cells t.row) t.col c)
    col := t.col + 1 }

/-- The wrap at the end of a row waits for the next character. -/
def write (cols : Nat) (t : Terminal) (c : UInt8) : Terminal :=
  (if cols ≤ t.col then t.newline else t).writeCell c

def put (cols : Nat) (t : Terminal) (c : UInt8) : Terminal :=
  if c = 0x0a then t.newline
  else if c = 0x0d then { t with col := 0 }
  else if c = 0x09 then [0x20, 0x20, 0x20, 0x20].foldl (write cols) t
  else if 0x20 ≤ c ∧ c < 0x7f then t.write cols c
  else t

/-- The first row that a grid of `rows` rows shows. -/
def off (rows : Nat) (t : Terminal) : Nat := t.row - (rows - 1)

end Terminal

/-! ## What scrolling does to the grid -/

namespace Screen

variable {s t u : Screen}

/-- `t` is `s`, but for the grid. -/
def SameBut (s t : Screen) : Prop := t = { s with grid := t.grid, accesses := t.accesses }

theorem SameBut.refl (s : Screen) : SameBut s s := rfl

theorem SameBut.trans (h : SameBut s t) (h' : SameBut t u) : SameBut s u := by
  unfold SameBut at *
  rw [h'.trans (congrArg (fun v : Screen => { v with grid := u.grid, accesses := u.accesses }) h)]

theorem SameBut.rows (h : SameBut s t) : t.rows = s.rows := by
  rw [show t = _ from h]

theorem SameBut.cols (h : SameBut s t) : t.cols = s.cols := by
  rw [show t = _ from h]

theorem setGrid_sameBut (s : Screen) (row col : UInt32) (c : UInt8) :
    SameBut s (s.setGrid row col c) := rfl

theorem forRange_sameBut {lo hi : UInt32} {body : UInt32 → Screen → Screen}
    (hbody : ∀ r t, SameBut t (body r t)) (s : Screen) : SameBut s (forRange lo hi body s) :=
  forRange_induction (SameBut.refl s) fun r t _ _ ht => ht.trans (hbody r t)

theorem clearScreen_sameBut (s : Screen) : SameBut s s.clearScreen :=
  forRange_sameBut (fun r => forRange_sameBut fun c t => setGrid_sameBut t r c 0x20) s

theorem moveRows_sameBut (s : Screen) : SameBut s s.moveRows :=
  forRange_sameBut (fun r => forRange_sameBut fun c t =>
    (show SameBut t (t.access (.grid r c)) from rfl).trans (setGrid_sameBut _ _ _ _)) s

theorem blankLastRow_sameBut (s : Screen) : SameBut s s.blankLastRow :=
  forRange_sameBut (fun c t => setGrid_sameBut t (t.rows - 1) c 0x20) s

/-- A loop that fills one row. -/
theorem forRange_row {row n : UInt32} {f : UInt32 → UInt8} {body : UInt32 → Screen → Screen}
    (hsame : ∀ c t, SameBut t (body c t))
    (hbody : ∀ c t, SameBut s t → (∀ r, r ≠ row → t.grid r = s.grid r) →
      (body c t).grid = Function.update t.grid row (Function.update (t.grid row) c (f c))) :
    (forRange 0 n body s).grid = fun r c => if r = row ∧ c < n then f c else s.grid r c := by
  have hcount := forRange_count (s := s)
    (fun k t => SameBut s t ∧
      t.grid = fun r c => if r = row ∧ c.toNat < k then f c else s.grid r c) body
    (UInt32.zero_le (a := n)) ⟨SameBut.refl s, by simp⟩ (by
      rintro c t _ _ ⟨hst, ht⟩
      refine ⟨hst.trans (hsame c t), ?_⟩
      rw [hbody c t hst fun r hr => by rw [ht]; simp [hr]]
      funext r' c'
      rw [ht]
      by_cases hr : r' = row
      · rw [hr, Function.update_self]
        by_cases hc : c' = c
        · simp [hc]
        · have hne : c'.toNat ≠ c.toNat := fun h => hc (UInt32.toNat_inj.mp h)
          rw [Function.update_of_ne hc]
          by_cases hlt : c'.toNat < c.toNat
          · simp [hlt, Nat.lt_succ_of_lt hlt]
          · simp [hlt, show ¬c'.toNat < c.toNat + 1 by omega]
      · simp [hr])
  exact hcount.2

theorem toNat_sub_one {r : UInt32} (h : 1 ≤ r) : (r - 1).toNat + 1 = r.toNat := by
  have hpos : 1 ≤ r.toNat := UInt32.le_iff_toNat_le.mp h
  have hsub : (r - 1).toNat = r.toNat - 1 := UInt32.toNat_sub_of_le _ _ h
  omega

/-- A row moves up. -/
theorem moveRow_grid {r n : UInt32} (h : 1 ≤ r) (t : Screen) :
    (forRange 0 n (fun c s => (s.access (.grid r c)).setGrid (r - 1) c (s.grid r c)) t).grid =
      fun r' c' => if r' = r - 1 ∧ c' < n then t.grid r c' else t.grid r' c' := by
  have hsub := toNat_sub_one h
  have hself : r ≠ r - 1 := by
    intro heq
    rw [← heq] at hsub
    omega
  apply forRange_row
  · intro c u
    exact (show SameBut u (u.access (.grid r c)) from rfl).trans (setGrid_sameBut _ _ _ _)
  · intro c u _ hu
    show Function.update u.grid (r - 1) (Function.update (u.grid (r - 1)) c (u.grid r c)) = _
    rw [hu r hself]

theorem moveRows_grid (s : Screen) (hrows : 1 ≤ s.rows) :
    s.moveRows.grid = fun r c =>
      if r.toNat + 1 < s.rows.toNat ∧ c < s.cols then s.grid (r + 1) c else s.grid r c := by
  have hcount := forRange_count (s := s)
    (fun k t => t.grid = fun r c =>
      if r.toNat + 1 < k ∧ c < s.cols then s.grid (r + 1) c else s.grid r c)
    (fun r => forRange 0 s.cols fun c s => (s.access (.grid r c)).setGrid (r - 1) c (s.grid r c))
    hrows (by simp) (by
      intro r t h1 hr ht
      have hsub := toNat_sub_one h1
      rw [moveRow_grid h1, ht]
      funext r' c'
      by_cases heq : r' = r - 1
      · have hold : ¬r.toNat + 1 < r.toNat := by omega
        simp [heq, hsub, hold]
      · have hne : r'.toNat + 1 ≠ r.toNat := by
          intro h
          exact heq (UInt32.toNat_inj.mp (by omega))
        have hlt : r'.toNat + 1 < r.toNat + 1 ↔ r'.toNat + 1 < r.toNat := by omega
        simp only [heq, false_and, if_false, hlt])
  exact hcount

theorem blankLastRow_grid (s : Screen) :
    s.blankLastRow.grid = fun r c => if r = s.rows - 1 ∧ c < s.cols then 0x20 else s.grid r c := by
  apply forRange_row
  · exact fun c t => setGrid_sameBut t (t.rows - 1) c 0x20
  · intro c t ht _
    show Function.update t.grid (t.rows - 1) _ = _
    rw [ht.rows]

theorem clearScreen_grid (s : Screen) {r c : UInt32} (hr : r < s.rows) (hc : c < s.cols) :
    s.clearScreen.grid r c = 0x20 := by
  have hcount := forRange_count (s := s)
    (fun k t => ∀ r : UInt32, r.toNat < k → ∀ c < s.cols, t.grid r c = 0x20)
    (fun r => forRange 0 s.cols fun c s => s.setGrid r c 0x20)
    (UInt32.zero_le (a := s.rows)) (by simp) (by
      intro r t _ _ ht r' hr' c hc
      have hrow : (forRange 0 s.cols (fun c s => s.setGrid r c 0x20) t).grid =
          fun r' c => if r' = r ∧ c < s.cols then 0x20 else t.grid r' c :=
        forRange_row (fun c t => setGrid_sameBut t r c 0x20) fun _ _ _ _ => rfl
      rw [hrow]
      by_cases heq : r' = r
      · simp [heq, hc]
      · have hne : r'.toNat ≠ r.toNat := fun h => heq (UInt32.toNat_inj.mp h)
        simp only [heq, false_and, if_false]
        exact ht r' (by omega) c hc)
  exact hcount r (UInt32.lt_iff_toNat_lt.mp hr) c hc

/-- Every row is the next one, and the last is blank. -/
theorem scrollGrid_spec (s : Screen) (hrows : 1 ≤ s.rows) :
    s.scrollGrid = { s with
      scrolled := true, grid := s.scrollGrid.grid, accesses := s.scrollGrid.accesses } ∧
    ∀ r < s.rows, ∀ c < s.cols, s.scrollGrid.grid r c =
      if r.toNat + 1 < s.rows.toNat then s.grid (r + 1) c else 0x20 := by
  have hsame := s.moveRows_sameBut.trans s.moveRows.blankLastRow_sameBut
  constructor
  · exact congrArg (fun t : Screen => { t with scrolled := true }) hsame
  · intro r hr c hc
    have hlast := toNat_sub_one hrows
    have hlt := UInt32.lt_iff_toNat_lt.mp hr
    show s.moveRows.blankLastRow.grid r c = _
    rw [blankLastRow_grid, s.moveRows_sameBut.rows, s.moveRows_sameBut.cols, s.moveRows_grid hrows]
    by_cases heq : r = s.rows - 1
    · have hnot : ¬r.toNat + 1 < s.rows.toNat := by rw [heq, hlast]; omega
      simp [heq, hc, hlast]
    · have hnext : r.toNat + 1 < s.rows.toNat := by
        have hne : r.toNat ≠ (s.rows - 1).toNat := fun h => heq (UInt32.toNat_inj.mp h)
        omega
      simp [heq, hc, hnext]

theorem drawRow_grid (s : Screen) (r : UInt32) : (s.drawRow r).grid = s.grid :=
  forRange_induction (I := fun t : Screen => t.grid = s.grid) rfl fun _ _ _ _ ht => ht

theorem render_grid (s : Screen) : s.render.grid = s.grid := by
  refine forRange_induction (I := fun t : Screen => t.grid = s.grid) rfl ?_
  intro r t _ _ ht
  have hlook : (if t.scrolled then t else t.access (.dirty r)).grid = t.grid := by
    split <;> rfl
  show (if t.scrolled ∨ t.dirty r then Screen.drawRow _ r else _).grid = s.grid
  split
  · rw [drawRow_grid, hlook, ht]
  · rw [hlook, ht]

end Screen

/-! ## The grid is a window -/

/-- The grid of `s` shows the last rows of `t`, and both have the cursor in the same
place. -/
structure Shows (s : Screen) (t : Terminal) : Prop where
  cursor : s.CursorIn
  row : t.row = t.off s.rows.toNat + s.curRow.toNat
  col : t.col = s.curCol.toNat
  cells : ∀ r < s.rows, ∀ c < s.cols,
    s.grid r c = t.cells (t.off s.rows.toNat + r.toNat) c.toNat
  blank : ∀ row, t.row < row → ∀ col, t.cells row col = 0x20

namespace Shows

variable {s : Screen} {t : Terminal}

theorem toNat_add_one {m n : UInt32} (h : m < n) : (m + 1).toNat = m.toNat + 1 := by
  have hlt := UInt32.lt_iff_toNat_lt.mp h
  have hn := n.toNat_lt
  rw [UInt32.toNat_add]
  show (m.toNat + 1) % 2 ^ 32 = m.toNat + 1
  omega

/-- The cursor goes down in the grid. -/
theorem newline_down (h : Shows s t) (hroom : s.curRow + 1 < s.rows) :
    Shows { s with curCol := 0, curRow := s.curRow + 1 } t.newline := by
  have hrow := h.row
  have hnext := toNat_add_one h.cursor.rows
  have hroom' := UInt32.lt_iff_toNat_lt.mp hroom
  unfold Terminal.off at hrow
  have hoff : t.newline.off s.rows.toNat = t.off s.rows.toNat := by
    show t.row + 1 - _ = t.row - _
    omega
  refine ⟨⟨hroom, UInt32.zero_le⟩, ?_, rfl, ?_, ?_⟩
  · rw [hoff, hnext]
    show t.row + 1 = t.row - _ + _
    omega
  · intro r hr c hc
    rw [hoff]
    exact h.cells r hr c hc
  · intro row hlt col
    exact h.blank row (Nat.lt_of_succ_lt hlt) col

/-- The grid goes down over the terminal. -/
theorem newline_scroll (h : Shows s t) (hroom : ¬s.curRow + 1 < s.rows) :
    Shows ({ s with curCol := 0 } : Screen).scrollGrid t.newline ∧
      ({ s with curCol := 0 } : Screen).scrollGrid.rows = s.rows ∧
      ({ s with curCol := 0 } : Screen).scrollGrid.cols = s.cols ∧
      ({ s with curCol := 0 } : Screen).scrollGrid.curCol = 0 := by
  have hrow := h.row
  have hcursor := UInt32.lt_iff_toNat_lt.mp h.cursor.rows
  have hnext := toNat_add_one h.cursor.rows
  unfold Terminal.off at hrow
  have hlast : s.curRow.toNat + 1 = s.rows.toNat := by
    rw [UInt32.lt_iff_toNat_lt, hnext] at hroom
    omega
  have hoff : t.newline.off s.rows.toNat = t.off s.rows.toNat + 1 := by
    show t.row + 1 - _ = t.row - _ + 1
    omega
  have hone : 1 ≤ s.rows := by
    rw [UInt32.le_iff_toNat_le, ← hlast]
    exact Nat.le_add_left 1 _
  obtain ⟨hscroll, hgrid⟩ := Screen.scrollGrid_spec { s with curCol := 0 } hone
  rw [hscroll]
  refine ⟨⟨⟨h.cursor.rows, UInt32.zero_le⟩, ?_, rfl, ?_, ?_⟩, rfl, rfl, rfl⟩
  · rw [hoff]
    show t.row + 1 = t.row - (s.rows.toNat - 1) + 1 + s.curRow.toNat
    omega
  · intro r hr c hc
    rw [hoff]
    refine (hgrid r hr c hc).trans ?_
    by_cases hr1 : r.toNat + 1 < s.rows.toNat
    · have hr' := toNat_add_one hr
      have hin : r + 1 < s.rows := by
        rw [UInt32.lt_iff_toNat_lt, hr']
        exact hr1
      rw [if_pos hr1]
      refine (h.cells (r + 1) hin c hc).trans ?_
      rw [hr', Nat.add_assoc, Nat.add_comm 1]
      rfl
    · rw [if_neg hr1]
      refine (h.blank _ ?_ _).symm
      show t.row < t.row - _ + 1 + _
      omega
  · intro row hlt col
    exact h.blank row (Nat.lt_of_succ_lt hlt) col

theorem newline (h : Shows s t) : Shows s.newline t.newline ∧
    s.newline.rows = s.rows ∧ s.newline.cols = s.cols ∧ s.newline.curCol = 0 := by
  unfold Screen.newline
  dsimp only
  by_cases hroom : s.curRow + 1 < s.rows
  · rw [if_pos hroom]
    exact ⟨h.newline_down hroom, rfl, rfl, rfl⟩
  · rw [if_neg hroom]
    exact h.newline_scroll hroom

theorem writeCell (h : Shows s t) (hcol : s.curCol < s.cols) (c : UInt8) :
    Shows (s.writeCell c) (t.writeCell c) := by
  have hnext := toNat_add_one hcol
  refine ⟨⟨h.cursor.rows, Screen.add_one_le hcol⟩, h.row, ?_, ?_, ?_⟩
  · show t.col + 1 = (s.curCol + 1).toNat
    rw [hnext, h.col]
  · intro r hr col hcol'
    have hcell := h.cells r hr col hcol'
    have hrow : t.off s.rows.toNat + r.toNat = t.row ↔ r = s.curRow := by
      rw [← UInt32.toNat_inj, h.row]
      exact Nat.add_left_cancel_iff
    have hcols : col.toNat = t.col ↔ col = s.curCol := by
      rw [← UInt32.toNat_inj, h.col]
    show Function.update s.grid s.curRow (Function.update (s.grid s.curRow) s.curCol c) r col =
      Function.update t.cells t.row (Function.update (t.cells t.row) t.col c)
        (t.off s.rows.toNat + r.toNat) col.toNat
    by_cases hr' : r = s.curRow
    · rw [hrow.mpr hr'] at hcell ⊢
      rw [hr'] at hcell ⊢
      rw [Function.update_self, Function.update_self]
      by_cases hc' : col = s.curCol
      · rw [hc', ← h.col, Function.update_self, Function.update_self]
      · rw [Function.update_of_ne hc', Function.update_of_ne (mt hcols.mp hc'), hcell]
    · rw [Function.update_of_ne hr', Function.update_of_ne (mt hrow.mp hr'), hcell]
  · intro row hlt col
    have hne : row ≠ t.row := Nat.ne_of_gt hlt
    show Function.update t.cells t.row _ row col = 0x20
    rw [Function.update_of_ne hne]
    exact h.blank row hlt col

theorem putPrintable (h : Shows s t) (hcols : s.cols ≠ 0) (c : UInt8) :
    Shows (s.putPrintable c) (t.write s.cols.toNat c) ∧
      (s.putPrintable c).rows = s.rows ∧ (s.putPrintable c).cols = s.cols := by
  unfold Screen.putPrintable Terminal.write
  by_cases hwrap : s.cols ≤ s.curCol
  · have hwrap' : s.cols.toNat ≤ t.col := by
      rw [h.col]
      exact UInt32.le_iff_toNat_le.mp hwrap
    obtain ⟨hline, hrows, hcols', hcol⟩ := h.newline
    rw [if_pos hwrap, if_pos hwrap']
    refine ⟨hline.writeCell ?_ c, hrows, hcols'⟩
    rw [hcol, hcols']
    exact UInt32.pos_iff_ne_zero.mpr hcols
  · have hwrap' : ¬s.cols.toNat ≤ t.col := by
      rw [h.col, ← UInt32.le_iff_toNat_le]
      exact hwrap
    rw [if_neg hwrap, if_neg hwrap']
    exact ⟨h.writeCell (UInt32.not_le.mp hwrap) c, rfl, rfl⟩

theorem put (h : Shows s t) (hcols : s.cols ≠ 0) (c : UInt8) :
    Shows (s.put c) (t.put s.cols.toNat c) ∧
      (s.put c).rows = s.rows ∧ (s.put c).cols = s.cols := by
  unfold Screen.put Terminal.put
  by_cases hlf : c = 0x0a
  · rw [if_pos hlf, if_pos hlf]
    obtain ⟨hline, hrows, hcols', -⟩ := h.newline
    exact ⟨hline, hrows, hcols'⟩
  rw [if_neg hlf, if_neg hlf]
  by_cases hcr : c = 0x0d
  · rw [if_pos hcr, if_pos hcr]
    exact ⟨⟨⟨h.cursor.rows, UInt32.zero_le⟩, h.row, rfl, h.cells, h.blank⟩, rfl, rfl⟩
  rw [if_neg hcr, if_neg hcr]
  by_cases htab : c = 0x09
  · rw [if_pos htab, if_pos htab]
    obtain ⟨h1, hrows1, hcols1⟩ := h.putPrintable hcols 0x20
    obtain ⟨h2, hrows2, hcols2⟩ := h1.putPrintable (hcols1 ▸ hcols) 0x20
    rw [hcols1] at h2 hcols2
    obtain ⟨h3, hrows3, hcols3⟩ := h2.putPrintable (hcols2 ▸ hcols) 0x20
    rw [hcols2] at h3 hcols3
    obtain ⟨h4, hrows4, hcols4⟩ := h3.putPrintable (hcols3 ▸ hcols) 0x20
    rw [hcols3] at h4 hcols4
    exact ⟨h4, hrows4.trans (hrows3.trans (hrows2.trans hrows1)), hcols4⟩
  rw [if_neg htab, if_neg htab]
  by_cases hprint : 0x20 ≤ c ∧ c < 0x7f
  · rw [if_pos hprint, if_pos hprint]
    exact h.putPrintable hcols c
  · rw [if_neg hprint, if_neg hprint]
    exact ⟨h, rfl, rfl⟩

theorem render (h : Shows s t) : Shows s.render t := by
  have hdraws := s.render_draws
  refine ⟨⟨?_, ?_⟩, ?_, ?_, ?_, h.blank⟩
  · rw [hdraws.curRow, hdraws.rows]
    exact h.cursor.rows
  · rw [hdraws.curCol, hdraws.cols]
    exact h.cursor.cols
  · rw [hdraws.curRow, hdraws.rows]
    exact h.row
  · rw [hdraws.curCol]
    exact h.col
  · rw [hdraws.rows, hdraws.cols, s.render_grid]
    exact h.cells

end Shows

/-- The bytes that are put. -/
def putBytes (ops : List Op) : List UInt8 :=
  ops.filterMap fun
    | .put c => some c
    | .render => none

theorem Shows.foldl {s : Screen} {t : Terminal} (h : Shows s t) (hcols : s.cols ≠ 0)
    (ops : List Op) :
    Shows (ops.foldl Screen.apply s) ((putBytes ops).foldl (Terminal.put s.cols.toNat) t) ∧
      (ops.foldl Screen.apply s).rows = s.rows ∧ (ops.foldl Screen.apply s).cols = s.cols := by
  induction ops generalizing s t with
  | nil => exact ⟨h, rfl, rfl⟩
  | cons op ops ih =>
    cases op with
    | put c =>
      obtain ⟨hput, hrows, hcols'⟩ := h.put hcols c
      obtain ⟨hall, hrows', hcols''⟩ := ih hput (hcols' ▸ hcols)
      rw [hcols'] at hall
      exact ⟨hall, hrows'.trans hrows, hcols''.trans hcols'⟩
    | render =>
      have hdraws := s.render_draws
      obtain ⟨hall, hrows', hcols'⟩ := ih h.render (hdraws.cols ▸ hcols)
      rw [hdraws.cols] at hall
      exact ⟨hall, hrows'.trans hdraws.rows, hcols'.trans hdraws.cols⟩

/-- A cleared screen shows the terminal before any byte. -/
theorem Geometry.screen_shows {g : Geometry} (hrows : g.rows ≠ 0) : Shows g.screen {} := by
  have hclear : g.screen =
      { cols := g.cols, rows := g.rows, grid := g.screen.grid, accesses := g.screen.accesses } :=
    Screen.clearScreen_sameBut { cols := g.cols, rows := g.rows }
  have hgrid : ∀ r < g.rows, ∀ c < g.cols, g.screen.grid r c = 0x20 := fun r hr c hc =>
    Screen.clearScreen_grid { cols := g.cols, rows := g.rows } hr hc
  rw [hclear]
  refine ⟨⟨UInt32.pos_iff_ne_zero.mpr hrows, UInt32.zero_le⟩, ?_, rfl, hgrid, fun _ _ _ => rfl⟩
  show 0 = 0 - _ + 0
  omega

/-- After any puts and renders, the grid is the last rows of the terminal, and the
cursor is in the terminal's place. -/
theorem grid_shows_terminal {g : Geometry} (hcols : g.cols ≠ 0) (hrows : g.rows ≠ 0)
    (ops : List Op) :
    let s := g.run ops
    let t := (putBytes ops).foldl (Terminal.put g.cols.toNat) {}
    let off := t.row - (g.rows.toNat - 1)
    (∀ r < g.rows, ∀ c < g.cols, s.grid r c = t.cells (off + r.toNat) c.toNat) ∧
      t.row = off + s.curRow.toNat ∧ t.col = s.curCol.toNat := by
  have hclear := Screen.clearScreen_sameBut { cols := g.cols, rows := g.rows }
  have hcols' : g.screen.cols = g.cols := hclear.cols
  have hrows' : g.screen.rows = g.rows := hclear.rows
  obtain ⟨hshows, hrun, hrunCols⟩ := (Geometry.screen_shows hrows).foldl (hcols' ▸ hcols) ops
  rw [hcols'] at hshows hrunCols
  rw [hrows'] at hrun
  have hcells := hshows.cells
  have hrow := hshows.row
  rw [hrun, hrunCols] at hcells
  rw [hrun] at hrow
  exact ⟨hcells, hrow, hshows.col⟩

/-- `"abcd\nef"` on a screen of three columns and two rows: the fourth letter wraps, and the
newline after it scrolls. -/
def abcdef : List Op :=
  [0x61, 0x62, 0x63, 0x64, 0x0a, 0x65, 0x66].map Op.put ++ [.render]

theorem grid_shows_terminal_scrolled : ∃ g, readGeometry spleenLayout 0x01780088 0 = .ok g ∧
    g.cols = 3 ∧ g.rows = 2 ∧ (g.run abcdef).curRow.toNat = 1 ∧ (g.run abcdef).curCol.toNat = 2 ∧
    (g.run abcdef).grid 0 0 = 0x64 ∧ (g.run abcdef).grid 0 1 = 0x20 ∧
    (g.run abcdef).grid 1 0 = 0x65 ∧ (g.run abcdef).grid 1 1 = 0x66 := by
  obtain ⟨g, hg⟩ : ∃ g, readGeometry spleenLayout 0x01780088 0 = .ok g := ⟨_, rfl⟩
  have hcols : g.cols = 3 := (readGeometry_ok hg).1.trans (by decide)
  have hrows : g.rows = 2 := (readGeometry_ok hg).2.trans (by decide)
  have hne : g.cols ≠ 0 ∧ g.rows ≠ 0 := by
    rw [hcols, hrows]
    decide
  obtain ⟨hcells, hrow, hcol⟩ := grid_shows_terminal hne.1 hne.2 abcdef
  rw [hcols, hrows] at hcells
  rw [hcols, hrows] at hrow
  rw [hcols] at hcol
  refine ⟨g, hg, hcols, hrows, Nat.add_left_cancel hrow.symm, hcol.symm, ?_, ?_, ?_, ?_⟩
  · exact (hcells 0 (by decide) 0 (by decide)).trans (by decide)
  · exact (hcells 0 (by decide) 1 (by decide)).trans (by decide)
  · exact (hcells 1 (by decide) 0 (by decide)).trans (by decide)
  · exact (hcells 1 (by decide) 1 (by decide)).trans (by decide)

end Fbcon
end TensorSel4
