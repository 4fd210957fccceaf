/-
fbcon's text grid: from `clear_screen` to `render` of `fbcon/fbcon.c`.

`accesses` collects every index into `grid` and `dirty`, in program order; no
function reads it.  The arrays are total functions here, so that the model says
what a wrong index is and not what it overwrites.  The glyphs handed to
`draw_glyph` are collected in `drawn`, and their pixels are left out.
-/
import TensorSel4.Fbcon.Geometry

namespace TensorSel4
namespace Fbcon

inductive Access
  | grid (row col : UInt32)
  | dirty (row : UInt32)
  deriving DecidableEq

structure Screen where
  cols : UInt32
  rows : UInt32
  curCol : UInt32 := 0
  curRow : UInt32 := 0
  scrolled : Bool := false
  grid : UInt32 → UInt32 → UInt8 := fun _ _ => 0
  dirty : UInt32 → Bool := fun _ => false
  accesses : List Access := []
  drawn : List (UInt32 × UInt32 × UInt8) := []

def tabWidth : UInt32 := 4

/-- `for (r = lo; r < hi; r++)`. -/
def forRange {σ : Type} (lo hi : UInt32) (body : UInt32 → σ → σ) (s : σ) : σ :=
  (List.range' lo.toNat (hi.toNat - lo.toNat)).foldl (fun s r => body (UInt32.ofNat r) s) s

namespace Screen

def access (s : Screen) (a : Access) : Screen := { s with accesses := s.accesses ++ [a] }

def setGrid (s : Screen) (row col : UInt32) (c : UInt8) : Screen :=
  { s.access (.grid row col) with
    grid := Function.update s.grid row (Function.update (s.grid row) col c) }

def setDirty (s : Screen) (row : UInt32) (d : Bool) : Screen :=
  { s.access (.dirty row) with dirty := Function.update s.dirty row d }

def clearScreen (s : Screen) : Screen :=
  forRange 0 s.rows (fun r => forRange 0 s.cols fun c s => s.setGrid r c 0x20) s

/-- The first loop of `scroll_grid`. -/
def moveRows (s : Screen) : Screen :=
  forRange 1 s.rows (fun r => forRange 0 s.cols fun c s =>
    (s.access (.grid r c)).setGrid (r - 1) c (s.grid r c)) s

/-- The second. -/
def blankLastRow (s : Screen) : Screen :=
  forRange 0 s.cols (fun c s => s.setGrid (s.rows - 1) c 0x20) s

def scrollGrid (s : Screen) : Screen := { s.moveRows.blankLastRow with scrolled := true }

def newline (s : Screen) : Screen :=
  let s := { s with curCol := 0 }
  if s.curRow + 1 < s.rows then { s with curRow := s.curRow + 1 } else s.scrollGrid

/-- `grid[cur_row][cur_col++] = c` and `dirty[cur_row] = true`. -/
def writeCell (s : Screen) (c : UInt8) : Screen :=
  { s.setGrid s.curRow s.curCol c with curCol := s.curCol + 1 }.setDirty s.curRow true

def putPrintable (s : Screen) (c : UInt8) : Screen :=
  (if s.cols ≤ s.curCol then s.newline else s).writeCell c

def put (s : Screen) (c : UInt8) : Screen :=
  if c = 0x0a then s.newline
  else if c = 0x0d then { s with curCol := 0 }
  else if c = 0x09 then forRange 0 tabWidth (fun _ s => s.putPrintable 0x20) s
  else if 0x20 ≤ c ∧ c < 0x7f then s.putPrintable c
  else s

def drawRow (s : Screen) (r : UInt32) : Screen :=
  forRange 0 s.cols (fun c s =>
    { s.access (.grid r c) with drawn := s.drawn ++ [(c, r, s.grid r c)] }) s

def render (s : Screen) : Screen :=
  let s := forRange 0 s.rows (fun r s =>
    let s' := if s.scrolled then s else s.access (.dirty r)
    let s' := if s.scrolled ∨ s.dirty r then s'.drawRow r else s'
    s'.setDirty r false) s
  { s with scrolled := false }

end Screen

inductive Op
  | put (c : UInt8)
  | render

def Screen.apply (s : Screen) : Op → Screen
  | .put c => s.put c
  | .render => s.render

/-- The screen that `init` leaves. -/
def Geometry.screen (g : Geometry) : Screen :=
  Screen.clearScreen { cols := g.cols, rows := g.rows }

/-! ## What the functions access -/

def Access.Inside (cols rows : UInt32) : Access → Prop
  | .grid row col => row < rows ∧ col < cols
  | .dirty row => row < rows

namespace Screen

/-- From `s` to `t` the grid keeps its size, and every new access satisfies `P`. -/
structure Steps (P : Access → Prop) (s t : Screen) : Prop where
  cols : t.cols = s.cols
  rows : t.rows = s.rows
  accesses : ∃ as, t.accesses = s.accesses ++ as ∧ ∀ a ∈ as, P a

/-- `Steps`, with the cursor where it was. -/
structure Draws (P : Access → Prop) (s t : Screen) : Prop extends Steps P s t where
  curCol : t.curCol = s.curCol
  curRow : t.curRow = s.curRow

variable {P : Access → Prop} {s t u : Screen}

theorem Steps.trans (h : Steps P s t) (h' : Steps P t u) : Steps P s u := by
  obtain ⟨as, has, hP⟩ := h.accesses
  obtain ⟨bs, hbs, hQ⟩ := h'.accesses
  refine ⟨h'.cols.trans h.cols, h'.rows.trans h.rows, as ++ bs, ?_, ?_⟩
  · rw [hbs, has, List.append_assoc]
  · intro a ha
    exact (List.mem_append.mp ha).elim (hP a) (hQ a)

/-- A step that makes no access. -/
theorem Steps.quiet (hcols : t.cols = s.cols) (hrows : t.rows = s.rows)
    (haccesses : t.accesses = s.accesses) : Steps P s t :=
  ⟨hcols, hrows, [], by rw [haccesses, List.append_nil], fun _ h => absurd h List.not_mem_nil⟩

theorem Steps.refl (s : Screen) : Steps P s s := Steps.quiet rfl rfl rfl

theorem Draws.refl (s : Screen) : Draws P s s := ⟨Steps.refl s, rfl, rfl⟩

theorem Draws.trans (h : Draws P s t) (h' : Draws P t u) : Draws P s u :=
  ⟨h.toSteps.trans h'.toSteps, h'.curCol.trans h.curCol, h'.curRow.trans h.curRow⟩

theorem access_draws {a : Access} (s : Screen) (ha : P a) : Draws P s (s.access a) := by
  refine ⟨⟨rfl, rfl, [a], rfl, ?_⟩, rfl, rfl⟩
  intro b hb
  exact List.mem_singleton.mp hb ▸ ha

theorem setGrid_draws {row col : UInt32} (s : Screen) (c : UInt8) (h : P (.grid row col)) :
    Draws P s (s.setGrid row col c) :=
  (access_draws s h).trans ⟨Steps.quiet rfl rfl rfl, rfl, rfl⟩

theorem setDirty_draws {row : UInt32} (s : Screen) (d : Bool) (h : P (.dirty row)) :
    Draws P s (s.setDirty row d) :=
  (access_draws s h).trans ⟨Steps.quiet rfl rfl rfl, rfl, rfl⟩

end Screen

/-- A loop keeps what its body keeps. -/
theorem forRange_induction {σ : Type} {I : σ → Prop} {lo hi : UInt32} {body : UInt32 → σ → σ}
    {s : σ} (hs : I s) (hbody : ∀ r t, lo ≤ r → r < hi → I t → I (body r t)) :
    I (forRange lo hi body s) := by
  have hmem : ∀ i ∈ List.range' lo.toNat (hi.toNat - lo.toNat),
      lo ≤ UInt32.ofNat i ∧ UInt32.ofNat i < hi := by
    intro i hi'
    have hbound := List.mem_range'_1.mp hi'
    have hlt := hi.toNat_lt
    have hi32 : (UInt32.ofNat i).toNat = i :=
      UInt32.toNat_ofNat_of_lt' (Nat.lt_trans (by omega) hlt)
    rw [UInt32.le_iff_toNat_le, UInt32.lt_iff_toNat_lt, hi32]
    omega
  unfold forRange
  revert hmem
  generalize List.range' lo.toNat (hi.toNat - lo.toNat) = is
  intro hmem
  induction is generalizing s with
  | nil => exact hs
  | cons i is ih =>
    obtain ⟨hlo, hhi⟩ := hmem i List.mem_cons_self
    exact ih (hbody _ s hlo hhi hs) fun j hj => hmem j (List.mem_cons_of_mem _ hj)

/-- A loop keeps what holds of its count. -/
theorem forRange_count {σ : Type} {lo hi : UInt32} (I : Nat → σ → Prop) (body : UInt32 → σ → σ)
    {s : σ} (hle : lo ≤ hi) (hs : I lo.toNat s)
    (hbody : ∀ r t, lo ≤ r → r < hi → I r.toNat t → I (r.toNat + 1) (body r t)) :
    I hi.toNat (forRange lo hi body s) := by
  have hle' := UInt32.le_iff_toNat_le.mp hle
  have hupto : ∀ k, lo.toNat + k ≤ hi.toNat → I (lo.toNat + k)
      ((List.range' lo.toNat k).foldl (fun s r => body (UInt32.ofNat r) s) s) := by
    intro k
    induction k with
    | zero => exact fun _ => hs
    | succ k ih =>
      intro hk
      have hlt := hi.toNat_lt
      have hk32 : (UInt32.ofNat (lo.toNat + k)).toNat = lo.toNat + k :=
        UInt32.toNat_ofNat_of_lt' (Nat.lt_trans (by omega) hlt)
      have hnext := hbody (UInt32.ofNat (lo.toNat + k)) _
        (by rw [UInt32.le_iff_toNat_le, hk32]; omega) (by rw [UInt32.lt_iff_toNat_lt, hk32]; omega)
        (by rw [hk32]; exact ih (by omega))
      rw [hk32] at hnext
      rw [List.range'_1_concat, List.foldl_append]
      exact hnext
  have hall := hupto (hi.toNat - lo.toNat) (by omega)
  rw [Nat.add_sub_cancel' hle'] at hall
  exact hall

namespace Screen

variable {P : Access → Prop}

theorem forRange_draws {lo hi : UInt32} {body : UInt32 → Screen → Screen} (s : Screen)
    (hbody : ∀ r t, lo ≤ r → r < hi → t.cols = s.cols → t.rows = s.rows → Draws P t (body r t)) :
    Draws P s (forRange lo hi body s) :=
  forRange_induction (Draws.refl s) fun r t hlo hhi ht =>
    ht.trans (hbody r t hlo hhi ht.cols ht.rows)

theorem clearScreen_draws (s : Screen)
    (h : ∀ r c, r < s.rows → c < s.cols → P (.grid r c)) : Draws P s s.clearScreen := by
  apply forRange_draws
  intro r t _ hr _ _
  apply forRange_draws
  intro c u _ hc _ _
  exact setGrid_draws u _ (h r c hr hc)

theorem moveRows_draws (s : Screen) (h : ∀ r c, 1 ≤ r → r < s.rows → c < s.cols →
    P (.grid r c) ∧ P (.grid (r - 1) c)) : Draws P s s.moveRows := by
  apply forRange_draws
  intro r t h1 hr _ _
  apply forRange_draws
  intro c u _ hc _ _
  obtain ⟨hfrom, hto⟩ := h r c h1 hr hc
  exact (access_draws u hfrom).trans (setGrid_draws _ _ hto)

theorem blankLastRow_draws (s : Screen) (h : ∀ c, c < s.cols → P (.grid (s.rows - 1) c)) :
    Draws P s s.blankLastRow := by
  apply forRange_draws
  intro c t _ hc _ ht
  apply setGrid_draws
  rw [ht]
  exact h c hc

theorem sub_one_lt {n : UInt32} (hn : 1 ≤ n) : n - 1 < n := by
  have hpos : 1 ≤ n.toNat := UInt32.le_iff_toNat_le.mp hn
  rw [UInt32.lt_iff_toNat_lt, UInt32.toNat_sub_of_le _ _ hn]
  show n.toNat - 1 < n.toNat
  omega

theorem one_le_of_ne_zero {n : UInt32} (hn : n ≠ 0) : 1 ≤ n := by
  rw [UInt32.le_iff_toNat_le]
  have hne : n.toNat ≠ 0 := fun h => hn (UInt32.toNat_inj.mp h)
  show 1 ≤ n.toNat
  omega

/-- The two loops of `scroll_grid` stay inside the grid, unless there are columns
and no row. -/
theorem scrollGrid_draws (s : Screen) (h : s.rows ≠ 0 ∨ s.cols = 0) :
    Draws (Access.Inside s.cols s.rows) s s.scrollGrid := by
  have hmove := s.moveRows_draws (P := Access.Inside s.cols s.rows) fun r c h1 hr hc =>
    ⟨⟨hr, hc⟩, UInt32.lt_trans (sub_one_lt h1) hr, hc⟩
  have hblank : Draws (Access.Inside s.cols s.rows) s.moveRows s.moveRows.blankLastRow := by
    apply blankLastRow_draws
    rw [hmove.cols, hmove.rows]
    intro c hc
    rcases h with hrows | hcols
    · exact ⟨sub_one_lt (one_le_of_ne_zero hrows), hc⟩
    · rw [hcols] at hc
      exact absurd hc UInt32.not_lt_zero
  exact hmove.trans (hblank.trans ⟨Steps.quiet rfl rfl rfl, rfl, rfl⟩)

theorem newline_steps (s : Screen) (h : s.rows ≠ 0 ∨ s.cols = 0) :
    Steps (Access.Inside s.cols s.rows) s s.newline := by
  unfold newline
  dsimp only
  split
  · exact Steps.quiet rfl rfl rfl
  · have hscroll := scrollGrid_draws { s with curCol := 0 } h
    exact ⟨hscroll.cols, hscroll.rows, hscroll.accesses⟩

theorem drawRow_draws {r : UInt32} (s : Screen) (h : ∀ c, c < s.cols → P (.grid r c)) :
    Draws P s (s.drawRow r) := by
  apply forRange_draws
  intro c t _ hc _ _
  exact (access_draws t (h c hc)).trans
    ⟨Steps.quiet rfl rfl rfl, rfl, rfl⟩

theorem render_draws (s : Screen) : Draws (Access.Inside s.cols s.rows) s s.render := by
  refine Draws.trans (forRange_draws s ?_)
    ⟨Steps.quiet rfl rfl rfl, rfl, rfl⟩
  intro r t _ hr hcols hrows
  have hlook : Draws (Access.Inside s.cols s.rows) t
      (if t.scrolled then t else t.access (.dirty r)) := by
    split
    · exact Draws.refl t
    · exact access_draws t hr
  have hdraw : ∀ u : Screen, u.cols = t.cols → Draws (Access.Inside s.cols s.rows) u
      (if t.scrolled ∨ t.dirty r then u.drawRow r else u) := by
    intro u hu
    split
    · apply drawRow_draws
      rw [hu, hcols]
      exact fun c hc => ⟨hr, hc⟩
    · exact Draws.refl u
  exact (hlook.trans (hdraw _ hlook.cols)).trans (setDirty_draws _ _ hr)

/-! ## A grid with room for text -/

/-- The cursor is in the grid, or past the end of its row. -/
structure CursorIn (s : Screen) : Prop where
  rows : s.curRow < s.rows
  cols : s.curCol ≤ s.cols

theorem CursorIn.rows_ne {s : Screen} (h : CursorIn s) : s.rows ≠ 0 := by
  intro hrows
  have hrow := h.rows
  rw [hrows] at hrow
  exact UInt32.not_lt_zero hrow

theorem newline_cursor {s : Screen} (hrows : s.rows ≠ 0) (hrow : s.curRow < s.rows) :
    s.newline.curRow < s.newline.rows ∧ s.newline.curCol = 0 := by
  unfold newline
  dsimp only
  split
  · next hnext => exact ⟨hnext, rfl⟩
  · have hscroll := scrollGrid_draws { s with curCol := 0 } (Or.inl hrows)
    rw [hscroll.curRow, hscroll.rows, hscroll.curCol]
    exact ⟨hrow, rfl⟩

theorem writeCell_steps (s : Screen) (c : UInt8) (hgrid : P (.grid s.curRow s.curCol))
    (hdirty : P (.dirty s.curRow)) : Steps P s (s.writeCell c) := by
  refine ⟨rfl, rfl, [.grid s.curRow s.curCol, .dirty s.curRow], List.append_assoc _ _ _, ?_⟩
  intro a ha
  rcases List.mem_pair.mp ha with rfl | rfl
  · exact hgrid
  · exact hdirty

theorem add_one_le {m n : UInt32} (h : m < n) : m + 1 ≤ n := by
  have hlt := UInt32.lt_iff_toNat_lt.mp h
  have hn := n.toNat_lt
  rw [UInt32.le_iff_toNat_le, UInt32.toNat_add]
  show (m.toNat + 1) % 2 ^ 32 ≤ n.toNat
  omega

theorem putPrintable_steps {s : Screen} (hcols : s.cols ≠ 0) (hs : CursorIn s) (c : UInt8) :
    Steps (Access.Inside s.cols s.rows) s (s.putPrintable c) ∧ CursorIn (s.putPrintable c) := by
  have hrows := hs.rows_ne
  have hline : Steps (Access.Inside s.cols s.rows) s (if s.cols ≤ s.curCol then s.newline else s) ∧
      (if s.cols ≤ s.curCol then s.newline else s).curRow < s.rows ∧
      (if s.cols ≤ s.curCol then s.newline else s).curCol < s.cols := by
    split
    · have hsteps := s.newline_steps (Or.inl hrows)
      obtain ⟨hrow, hcol⟩ := newline_cursor hrows hs.rows
      rw [hsteps.rows] at hrow
      rw [hcol]
      exact ⟨hsteps, hrow, UInt32.pos_iff_ne_zero.mpr hcols⟩
    · next hroom => exact ⟨Steps.refl s, hs.rows, UInt32.not_le.mp hroom⟩
  unfold putPrintable
  generalize (if s.cols ≤ s.curCol then s.newline else s) = m at hline
  obtain ⟨hsteps, hrow, hcol⟩ := hline
  have hcell : Steps (Access.Inside s.cols s.rows) m (m.writeCell c) :=
    writeCell_steps m c ⟨hrow, hcol⟩ hrow
  refine ⟨hsteps.trans hcell, ?_, ?_⟩
  · rw [hcell.rows, hsteps.rows]
    exact hrow
  · rw [hcell.cols, hsteps.cols]
    exact add_one_le hcol

theorem put_steps {s : Screen} (hcols : s.cols ≠ 0) (hs : CursorIn s) (c : UInt8) :
    Steps (Access.Inside s.cols s.rows) s (s.put c) ∧ CursorIn (s.put c) := by
  have hrows := hs.rows_ne
  unfold put
  split
  · have hsteps := s.newline_steps (Or.inl hrows)
    obtain ⟨hrow, hcol⟩ := newline_cursor hrows hs.rows
    refine ⟨hsteps, hrow, ?_⟩
    rw [hcol]
    exact UInt32.zero_le
  split
  · exact ⟨Steps.quiet rfl rfl rfl, hs.rows, UInt32.zero_le⟩
  split
  · refine forRange_induction
      (I := fun t => Steps (Access.Inside s.cols s.rows) s t ∧ CursorIn t) ⟨Steps.refl s, hs⟩ ?_
    rintro _ t - - ⟨ht, hcursor⟩
    obtain ⟨hput, hcursor'⟩ := putPrintable_steps (ht.cols ▸ hcols) hcursor 0x20
    rw [ht.cols, ht.rows] at hput
    exact ⟨ht.trans hput, hcursor'⟩
  split
  · exact putPrintable_steps hcols hs c
  · exact ⟨Steps.refl s, hs⟩

theorem apply_steps {s : Screen} (hcols : s.cols ≠ 0) (hs : CursorIn s) (op : Op) :
    Steps (Access.Inside s.cols s.rows) s (s.apply op) ∧ CursorIn (s.apply op) := by
  cases op with
  | put c => exact put_steps hcols hs c
  | render =>
    have hrender := s.render_draws
    refine ⟨hrender.toSteps, ?_, ?_⟩
    · show s.render.curRow < s.render.rows
      rw [hrender.curRow, hrender.rows]
      exact hs.rows
    · show s.render.curCol ≤ s.render.cols
      rw [hrender.curCol, hrender.cols]
      exact hs.cols

end Screen

/-! ## A grid without columns or without rows -/

/-- `put` writes a cell for this byte. -/
def writesCell (c : UInt8) : Prop := c = 0x09 ∨ 0x20 ≤ c ∧ c < 0x7f

/-- In a grid of this size the operation indexes outside of it. -/
def Op.Escapes (cols rows : UInt32) : Op → Prop
  | .put c => (cols = 0 ∨ rows = 0) ∧ writesCell c ∨ (cols ≠ 0 ∧ rows = 0) ∧ c = 0x0a
  | .render => False

namespace Screen

variable {P : Access → Prop}

/-- Without room for text, what does not escape makes no access. -/
theorem apply_steps_of_not_escapes {s : Screen} {op : Op} (hroom : s.cols = 0 ∨ s.rows = 0)
    (hop : ¬op.Escapes s.cols s.rows) : Steps (Access.Inside s.cols s.rows) s (s.apply op) := by
  cases op with
  | put c =>
    have hcell : ¬writesCell c := fun h => hop (Or.inl ⟨hroom, h⟩)
    show Steps _ s (s.put c)
    unfold put
    split
    · next hnl =>
      apply newline_steps
      by_contra hnone
      rw [not_or, not_not] at hnone
      exact hop (Or.inr ⟨⟨hnone.2, hnone.1⟩, hnl⟩)
    split
    · exact Steps.quiet rfl rfl rfl
    split
    · next htab => exact absurd (Or.inl htab) hcell
    split
    · next hprint => exact absurd (Or.inr hprint) hcell
    · exact Steps.refl s
  | render => exact s.render_draws.toSteps

/-- Some access from `s` to `t` satisfies `Q`. -/
structure Makes (Q : Access → Prop) (s t : Screen) : Prop extends Steps (fun _ => True) s t where
  makes : ∃ a ∈ t.accesses, Q a

theorem makes_of_steps {Q : Access → Prop} {s t u : Screen} (h : Steps (fun _ => True) s t)
    (h' : Makes Q t u) : Makes Q s u := ⟨h.trans h'.toSteps, h'.makes⟩

theorem Makes.then {Q : Access → Prop} {s t u : Screen} (h : Makes Q s t)
    (h' : Steps (fun _ => True) t u) : Makes Q s u := by
  obtain ⟨as, has, -⟩ := h'.accesses
  obtain ⟨a, ha, hQ⟩ := h.makes
  refine ⟨h.toSteps.trans h', a, ?_, hQ⟩
  rw [has]
  exact List.mem_append_left as ha

theorem Steps.weaken {s t : Screen} (h : Steps P s t) : Steps (fun _ => True) s t := by
  obtain ⟨as, has, -⟩ := h.accesses
  exact ⟨h.cols, h.rows, as, has, fun _ _ => trivial⟩

theorem scrollGrid_grows (s : Screen) : Steps (fun _ => True) s s.scrollGrid := by
  have hmove := s.moveRows_draws (P := fun _ => True) fun _ _ _ _ _ => ⟨trivial, trivial⟩
  have hblank := s.moveRows.blankLastRow_draws (P := fun _ => True) fun _ _ => trivial
  exact hmove.toSteps.trans (hblank.toSteps.trans (Steps.quiet rfl rfl rfl))

theorem newline_grows (s : Screen) : Steps (fun _ => True) s s.newline := by
  unfold newline
  dsimp only
  split
  · exact Steps.quiet rfl rfl rfl
  · have hscroll := scrollGrid_grows { s with curCol := 0 }
    exact ⟨hscroll.cols, hscroll.rows, hscroll.accesses⟩

theorem wrap_grows (s : Screen) :
    Steps (fun _ => True) s (if s.cols ≤ s.curCol then s.newline else s) := by
  split
  · exact s.newline_grows
  · exact Steps.refl s

theorem putPrintable_grows (s : Screen) (c : UInt8) :
    Steps (fun _ => True) s (s.putPrintable c) :=
  s.wrap_grows.trans (writeCell_steps _ c trivial trivial)

theorem apply_grows (s : Screen) (op : Op) : Steps (fun _ => True) s (s.apply op) := by
  cases op with
  | put c =>
    show Steps _ s (s.put c)
    unfold put
    split
    · exact s.newline_grows
    split
    · exact Steps.quiet rfl rfl rfl
    split
    · refine forRange_induction (I := fun t => Steps (fun _ => True) s t) (Steps.refl s) ?_
      exact fun _ t _ _ ht => ht.trans (t.putPrintable_grows 0x20)
    split
    · exact s.putPrintable_grows c
    · exact Steps.refl s
  | render => exact s.render_draws.toSteps.weaken

end Screen

theorem forRange_head {σ : Type} {lo hi : UInt32} (body : UInt32 → σ → σ) (s : σ) (h : lo < hi) :
    forRange lo hi body s = forRange (lo + 1) hi body (body lo s) := by
  have hlt := UInt32.lt_iff_toNat_lt.mp h
  have hhi := hi.toNat_lt
  have hnext : (lo + 1).toNat = lo.toNat + 1 := by
    rw [UInt32.toNat_add]
    show (lo.toNat + 1) % 2 ^ 32 = lo.toNat + 1
    omega
  have hcount : hi.toNat - lo.toNat = hi.toNat - (lo + 1).toNat + 1 := by omega
  unfold forRange
  rw [hcount, List.range'_succ, List.foldl_cons, UInt32.ofNat_toNat, hnext]

namespace Screen

/-- With columns and no row, `rows - 1` wraps. -/
theorem scrollGrid_escapes {s : Screen} (hcols : s.cols ≠ 0) (hrows : s.rows = 0) :
    Makes (fun a => ¬a.Inside s.cols s.rows) s s.scrollGrid := by
  have hmove := (s.moveRows_draws (P := fun _ => True) fun _ _ _ _ _ => ⟨trivial, trivial⟩).toSteps
  have hpos : 0 < s.moveRows.cols := by
    rw [hmove.cols]
    exact UInt32.pos_iff_ne_zero.mpr hcols
  refine makes_of_steps hmove (Makes.then ?_ (Steps.quiet rfl rfl rfl :
    Steps _ s.moveRows.blankLastRow { s.moveRows.blankLastRow with scrolled := true }))
  unfold blankLastRow
  rw [forRange_head _ _ hpos]
  refine Makes.then (t := s.moveRows.setGrid (s.moveRows.rows - 1) 0 0x20)
    ⟨(setGrid_draws _ _ trivial).toSteps, .grid (s.moveRows.rows - 1) 0, ?_, ?_⟩ ?_
  · exact List.mem_append_right _ List.mem_cons_self
  · rw [hrows]
    exact fun h => UInt32.not_lt_zero h.1
  · refine (forRange_draws _ ?_).toSteps
    exact fun c t _ _ _ _ => setGrid_draws t _ trivial

theorem putPrintable_escapes {s : Screen} (hroom : s.cols = 0 ∨ s.rows = 0) (c : UInt8) :
    Makes (fun a => ¬a.Inside s.cols s.rows) s (s.putPrintable c) := by
  refine makes_of_steps s.wrap_grows ?_
  unfold putPrintable
  generalize (if s.cols ≤ s.curCol then s.newline else s) = m
  refine ⟨writeCell_steps m c trivial trivial, .grid m.curRow m.curCol, ?_, ?_⟩
  · exact List.mem_append_left _ (List.mem_append_right _ List.mem_cons_self)
  · rintro ⟨hrow, hcol⟩
    rcases hroom with h | h
    · rw [h] at hcol
      exact UInt32.not_lt_zero hcol
    · rw [h] at hrow
      exact UInt32.not_lt_zero hrow

theorem apply_escapes {s : Screen} {op : Op} (hop : op.Escapes s.cols s.rows) :
    Makes (fun a => ¬a.Inside s.cols s.rows) s (s.apply op) := by
  cases op with
  | render => exact hop.elim
  | put c =>
    show Makes _ s (s.put c)
    unfold put
    rcases hop with ⟨hroom, rfl | hprint⟩ | ⟨⟨hcols, hrows⟩, rfl⟩
    · rw [if_neg (by decide), if_neg (by decide), if_pos rfl, forRange_head _ _ (by decide)]
      refine (putPrintable_escapes hroom 0x20).then ?_
      refine forRange_induction (I := fun t => Steps (fun _ => True) _ t) (Steps.refl _) ?_
      exact fun _ t _ _ ht => ht.trans (t.putPrintable_grows 0x20)
    · have hge := UInt8.le_iff_toNat_le.mp hprint.1
      have hnot : ∀ d : UInt8, d < 0x20 → c ≠ d := by
        rintro d hd rfl
        have hlt := UInt8.lt_iff_toNat_lt.mp hd
        omega
      rw [if_neg (hnot _ (by decide)), if_neg (hnot _ (by decide)), if_neg (hnot _ (by decide)),
        if_pos hprint]
      exact putPrintable_escapes hroom c
    · rw [if_pos rfl]
      unfold newline
      dsimp only
      rw [if_neg (by rw [hrows]; exact UInt32.not_lt_zero)]
      have hscroll := scrollGrid_escapes (s := { s with curCol := 0 }) hcols hrows
      exact ⟨⟨hscroll.cols, hscroll.rows, hscroll.accesses⟩, hscroll.makes⟩

end Screen

/-! ## Runs -/

namespace Screen

theorem foldl_grows (s : Screen) (ops : List Op) :
    Steps (fun _ => True) s (ops.foldl apply s) := by
  induction ops generalizing s with
  | nil => exact Steps.refl s
  | cons op ops ih => exact (s.apply_grows op).trans (ih (s.apply op))

theorem Steps.inside {s t : Screen} {cols rows : UInt32}
    (h : Steps (Access.Inside cols rows) s t) (hs : ∀ a ∈ s.accesses, a.Inside cols rows) :
    ∀ a ∈ t.accesses, a.Inside cols rows := by
  obtain ⟨as, has, hall⟩ := h.accesses
  rw [has]
  intro a ha
  exact (List.mem_append.mp ha).elim (hs a) (hall a)

/-- One operation that does not escape. -/
theorem apply_inside {s : Screen} (hcursor : s.cols ≠ 0 → s.rows ≠ 0 → CursorIn s) {op : Op}
    (hop : ¬op.Escapes s.cols s.rows) :
    Steps (Access.Inside s.cols s.rows) s (s.apply op) ∧
      (s.cols ≠ 0 → s.rows ≠ 0 → CursorIn (s.apply op)) := by
  by_cases hcols : s.cols = 0
  · exact ⟨apply_steps_of_not_escapes (Or.inl hcols) hop, fun h => absurd hcols h⟩
  by_cases hrows : s.rows = 0
  · exact ⟨apply_steps_of_not_escapes (Or.inr hrows) hop, fun _ h => absurd hrows h⟩
  · obtain ⟨hsteps, hcursor'⟩ := apply_steps hcols (hcursor hcols hrows) op
    exact ⟨hsteps, fun _ _ => hcursor'⟩

theorem foldl_inside_iff {s : Screen} (hs : ∀ a ∈ s.accesses, a.Inside s.cols s.rows)
    (hcursor : s.cols ≠ 0 → s.rows ≠ 0 → CursorIn s) (ops : List Op) :
    (∀ a ∈ (ops.foldl apply s).accesses, a.Inside s.cols s.rows) ↔
      ∀ op ∈ ops, ¬op.Escapes s.cols s.rows := by
  induction ops generalizing s with
  | nil => exact iff_of_true hs fun _ h => absurd h List.not_mem_nil
  | cons op ops ih =>
    rw [List.forall_mem_cons]
    by_cases hop : op.Escapes s.cols s.rows
    · obtain ⟨a, ha, hout⟩ := ((apply_escapes hop).then (foldl_grows _ ops)).makes
      exact iff_of_false (fun hall => hout (hall a ha)) fun hall => hall.1 hop
    · obtain ⟨hsteps, hcursor'⟩ := apply_inside hcursor hop
      have hrest := ih (s := s.apply op) (by
        rw [hsteps.cols, hsteps.rows]
        exact hsteps.inside hs) (by
        rw [hsteps.cols, hsteps.rows]
        exact hcursor')
      rw [hsteps.cols, hsteps.rows] at hrest
      exact hrest.trans (and_iff_right hop).symm

end Screen

/-- The screen after `init` and the operations `ops`. -/
def Geometry.run (g : Geometry) (ops : List Op) : Screen := ops.foldl Screen.apply g.screen

/-- The room between the margins is narrower than a cell. -/
def Layout.NoColumns (l : Layout) (img : UInt32) : Prop := l.textWidth img < l.cellW

/-- The room between the margins is lower than a cell. -/
def Layout.NoRows (l : Layout) (img : UInt32) : Prop := l.textHeight img < l.cellH

/-- A cell is written where there is no room for one, or a line is ended where
there are columns and no row. -/
def Layout.Escapes (l : Layout) (img : UInt32) : Op → Prop
  | .put c => (l.NoColumns img ∨ l.NoRows img) ∧ writesCell c ∨
      (¬l.NoColumns img ∧ l.NoRows img) ∧ c = 0x0a
  | .render => False

theorem Layout.escapes_iff {l : Layout} {img srcStride : UInt32} {g : Geometry}
    (hg : readGeometry l img srcStride = .ok g) (op : Op) :
    op.Escapes g.cols g.rows ↔ l.Escapes img op := by
  obtain ⟨hcols, hrows⟩ := readGeometry_ok hg
  cases op with
  | render => exact Iff.rfl
  | put c =>
    have hnoCols : g.cols = 0 ↔ l.NoColumns img := by
      rw [hcols]
      exact div_eq_zero_iff l.cellW_pos
    have hnoRows : g.rows = 0 ↔ l.NoRows img := by
      rw [hrows]
      exact div_eq_zero_iff l.cellH_pos
    simp only [Op.Escapes, Layout.Escapes, ne_eq, hnoCols, hnoRows]

/-- For every geometry that `read_geometry` accepts, every index into `grid` and
`dirty` is inside the grid exactly when no operation escapes. -/
theorem grid_indexes_iff {l : Layout} {img srcStride : UInt32} {g : Geometry}
    (hg : readGeometry l img srcStride = .ok g) (ops : List Op) :
    (g.rows ≤ maxRows ∧ g.cols ≤ maxCols ∧
        ∀ a ∈ (g.run ops).accesses, a.Inside g.cols g.rows) ↔
      ∀ op ∈ ops, ¬l.Escapes img op := by
  have hclear : Screen.Draws (Access.Inside g.cols g.rows) { cols := g.cols, rows := g.rows }
      g.screen := Screen.clearScreen_draws _ fun _ _ hr hc => ⟨hr, hc⟩
  have hrun := Screen.foldl_inside_iff (s := g.screen) (by
    rw [hclear.cols, hclear.rows]
    exact hclear.toSteps.inside fun _ h => absurd h List.not_mem_nil) (by
    rw [hclear.cols, hclear.rows]
    intro _ hrows
    refine ⟨?_, ?_⟩
    · rw [hclear.curRow, hclear.rows]
      exact UInt32.pos_iff_ne_zero.mpr hrows
    · rw [hclear.curCol, hclear.cols]
      exact UInt32.zero_le) ops
  rw [hclear.cols, hclear.rows] at hrun
  simp only [and_iff_right g.rows_le, and_iff_right g.cols_le, ← Layout.escapes_iff hg]
  exact hrun

theorem grid_indexes_iff_default : ∃ g, readGeometry spleenLayout 0 0 = .ok g ∧
    g.cols = 50 ∧ g.rows = 53 ∧
    ∀ a ∈ (g.run [.put 0x61, .put 0x0a, .render]).accesses, a.Inside g.cols g.rows := by
  have hg : readGeometry spleenLayout 0 0 = .ok _ := rfl
  refine ⟨_, hg, rfl, rfl, ((grid_indexes_iff hg _).mpr ?_).2.2⟩
  have hcols : ¬spleenLayout.NoColumns 0 := by
    unfold Layout.NoColumns
    decide
  have hrows : ¬spleenLayout.NoRows 0 := by
    unfold Layout.NoRows
    decide
  rintro (c | -) -
  · rintro (⟨hroom, -⟩ | ⟨⟨-, hroom⟩, -⟩)
    · exact hroom.elim hcols hrows
    · exact hrows hroom
  · exact id

/-- A framebuffer of 1280x320 is accepted with 50 columns and no row, and a
newline indexes row 0xffffffff. -/
theorem rows_wrap : ∃ g, readGeometry spleenLayout 0x01400500 5120 = .ok g ∧
    g.cols = 50 ∧ g.rows = 0 ∧
    ∃ a ∈ (g.run [.put 0x0a]).accesses, a = .grid 0xffffffff 0 ∧ ¬a.Inside g.cols g.rows := by
  refine ⟨_, rfl, rfl, rfl, .grid 0xffffffff 0, ?_, rfl, fun h => UInt32.not_lt_zero h.1⟩
  decide

end Fbcon
end TensorSel4
