/-
uartrx's line on fbcon's row.

uartrx echoes what is typed, and an erased character as a backspace, a space and a
backspace.  fbcon knows no backspace: the space goes to the next cell.
-/
import Mathlib.Data.List.GetD
import TensorSel4.Fbcon.Terminal
import TensorSel4.Text.Words
import TensorSel4.Uartrx.Line

namespace TensorSel4
namespace Fbcon

/-! ## A line that is edited -/

/-- What a received byte does to the line. -/
inductive Edit
  | typed (c : UInt8)
  | erased (c : UInt8)

namespace Edit

/-- Nothing is erased from an empty line, and nothing is added to a full one. -/
def ofByte (line : List UInt8) (c : UInt8) : Option Edit :=
  if c = Uartrx.asciiBs ∨ c = Uartrx.asciiDel then line.getLast?.map .erased
  else if line.length = Uartrx.lineMax then none
  else some (.typed c)

def line (line : List UInt8) : Edit → List UInt8
  | .typed c => line ++ [c]
  | .erased _ => line.dropLast

def echo : Edit → List UInt8
  | .typed c => [c]
  | .erased _ => [0x08, 0x20, 0x08]

/-- What the echo leaves in the next cell of the panel. -/
def cell : Edit → UInt8
  | .typed c => c
  | .erased _ => 0x20

end Edit

def lineOf (ds : List Edit) : List UInt8 := ds.foldl Edit.line []

/-- The bytes that change the line, as changes of it. -/
def edits (bytes : List UInt8) : List Edit :=
  bytes.foldl (fun ds c => ds ++ (Edit.ofByte (lineOf ds) c).toList) []

theorem edits_concat (bytes : List UInt8) (c : UInt8) :
    edits (bytes ++ [c]) = edits bytes ++ (Edit.ofByte (lineOf (edits bytes)) c).toList := by
  unfold edits
  rw [List.foldl_append]
  rfl

theorem lineOf_concat (ds : List Edit) (d : Edit) : lineOf (ds ++ [d]) = d.line (lineOf ds) := by
  unfold lineOf
  rw [List.foldl_append]
  rfl

/-- A printable character, a backspace or a DEL. -/
def IsTyping (c : UInt8) : Prop :=
  c = Uartrx.asciiBs ∨ c = Uartrx.asciiDel ∨ 0x20 ≤ c ∧ c < 0x7f

/-- The bytes that the operations put on the console. -/
def consoleText (ops : List Uartrx.Op) : List UInt8 :=
  ops.filterMap fun
    | .putc c => some c
    | _ => none

theorem consoleText_append (ops more : List Uartrx.Op) :
    consoleText (ops ++ more) = consoleText ops ++ consoleText more := List.filterMap_append

/-- One received byte is one change of the line, or none, and its echo. -/
theorem rx_edit (u : Uartrx.UartrxState) (e : Uartrx.RxEvent) (he : IsTyping e.byte) :
    (u.rx e).1.line = (Edit.ofByte u.line e.byte).toList.foldl Edit.line u.line ∧
      consoleText (u.rx e).2 = (Edit.ofByte u.line e.byte).toList.flatMap Edit.echo := by
  have hnl : e.byte ≠ 0x0a ∧ e.byte ≠ 0x0d := by
    rcases he with h | h | ⟨h, -⟩
    · rw [h]
      decide
    · rw [h]
      decide
    · constructor <;> rintro heq <;> rw [heq] at h <;> exact absurd h (by decide)
  unfold Uartrx.UartrxState.rx Uartrx.UartrxState.rxByte Edit.ofByte
  dsimp only
  rw [if_neg fun h => hnl.1 h.1, if_neg fun h => h.elim hnl.2 hnl.1]
  by_cases herase : e.byte = Uartrx.asciiBs ∨ e.byte = Uartrx.asciiDel
  · rw [if_pos herase, if_pos herase]
    unfold Uartrx.UartrxState.eraseChar
    by_cases hempty : u.line = []
    · simp [hempty]
      rfl
    · simp only [hempty, if_false, List.getLast?_eq_getLast_of_ne_nil hempty]
      exact ⟨rfl, rfl⟩
  · have hprint : 0x20 ≤ e.byte ∧ e.byte < 0x7f := by
      rcases he with h | h | h
      · exact absurd (Or.inl h) herase
      · exact absurd (Or.inr h) herase
      · exact h
    rw [if_neg herase, if_pos hprint, if_neg herase]
    unfold Uartrx.UartrxState.addChar
    by_cases hfull : u.line.length = Uartrx.lineMax
    · simp [hfull]
      rfl
    · simp only [hfull, dite_false, if_false]
      exact ⟨rfl, rfl⟩

theorem rxAll_edits {u : Uartrx.UartrxState} (hu : u.line = []) (es : List Uartrx.RxEvent)
    (hes : ∀ e ∈ es, IsTyping e.byte) :
    (u.rxAll es).1.line = lineOf (edits (es.map (·.byte))) ∧
      consoleText (u.rxAll es).2 = (edits (es.map (·.byte))).flatMap Edit.echo := by
  induction es using List.reverseRecOn with
  | nil => exact ⟨hu, rfl⟩
  | append_singleton es e ih =>
    obtain ⟨hline, htext⟩ := ih fun e' he' => hes e' (List.mem_append_left [e] he')
    have hone := rx_edit (u.rxAll es).1 e (hes e (List.mem_append_right es List.mem_cons_self))
    rw [hline] at hone
    have hrx : (u.rxAll es).1.rxAll [e] =
        (((u.rxAll es).1.rx e).1, ((u.rxAll es).1.rx e).2 ++ []) := rfl
    have hbytes : (es ++ [e]).map (·.byte) = es.map (·.byte) ++ [e.byte] := List.map_append
    rw [Uartrx.UartrxState.rxAll_append, hrx, List.append_nil, hbytes, edits_concat]
    show ((u.rxAll es).1.rx e).1.line = _ ∧
      consoleText ((u.rxAll es).2 ++ ((u.rxAll es).1.rx e).2) = _
    rw [consoleText_append, htext, hone.1, hone.2, List.flatMap_append]
    refine ⟨?_, rfl⟩
    unfold lineOf
    rw [List.foldl_append]

/-! ## What the row shows -/

/-- The text without the spaces at its end. -/
def rstrip (text : List UInt8) : List UInt8 := text.rdropWhile (· = 0x20)

theorem rstrip_space (text : List UInt8) : rstrip (text ++ [0x20]) = rstrip text :=
  List.rdropWhile_concat_pos _ _ _ rfl

theorem rstrip_spaces (text : List UInt8) (n : Nat) :
    rstrip (text ++ List.replicate n 0x20) = rstrip text :=
  Text.rdropWhile_append_replicate text n

theorem rstrip_concat (text : List UInt8) {c : UInt8} (hc : c ≠ 0x20) :
    rstrip (text ++ [c]) = text ++ [c] :=
  List.rdropWhile_concat_neg _ _ _ (by simpa using hc)

theorem rstrip_length_le (text : List UInt8) : (rstrip text).length ≤ text.length :=
  (List.rdropWhile_prefix _ _).length_le

/-- The change of the line does what the panel shows of it, after changes of which
some, or none, erased a character. -/
def Edit.Shown (erasedBefore : Prop) : Edit → Prop
  | .typed c => erasedBefore → c = 0x20
  | .erased c => c = 0x20

/-- How the text of the row and the prompted line stand after changes that are shown. -/
structure Echoed (erasedBefore : Prop) (text prompted : List UInt8) : Prop where
  same : ¬erasedBefore → text = prompted
  longer : erasedBefore → prompted.length < text.length
  strip : rstrip text = rstrip prompted

theorem eq_of_erased {line : List UInt8} {b c : UInt8}
    (h : Edit.ofByte line b = some (.erased c)) : line = line.dropLast ++ [c] := by
  unfold Edit.ofByte at h
  split at h
  · obtain ⟨c', hlast, hc⟩ := Option.map_eq_some_iff.mp h
    obtain ⟨l, rfl⟩ := List.getLast?_eq_some_iff.mp hlast
    rw [List.dropLast_concat, Edit.erased.inj hc]
  split at h
  · cases h
  · cases h

namespace Echoed

variable {erasedBefore : Prop} {text prompt line : List UInt8} {b : UInt8} {d : Edit}

theorem shown_iff (h : Echoed erasedBefore text (prompt ++ line))
    (hd : Edit.ofByte line b = some d) :
    rstrip (text ++ [d.cell]) = rstrip (prompt ++ d.line line) ↔ d.Shown erasedBefore := by
  cases d with
  | typed c =>
    show rstrip (text ++ [c]) = rstrip (prompt ++ (line ++ [c])) ↔ (erasedBefore → c = 0x20)
    rw [← List.append_assoc]
    by_cases hc : c = 0x20
    · rw [hc, rstrip_space, rstrip_space]
      exact iff_of_true h.strip fun _ => rfl
    rw [rstrip_concat _ hc, rstrip_concat _ hc]
    by_cases he : erasedBefore
    · have hlonger := h.longer he
      refine iff_of_false ?_ fun hall => hc (hall he)
      intro heq
      have hlen := congrArg List.length heq
      simp only [List.length_append] at hlen hlonger
      omega
    · refine iff_of_true ?_ fun h => absurd h he
      rw [h.same he]
  | erased c =>
    have hline := eq_of_erased hd
    have hstrip := h.strip
    show rstrip (text ++ [0x20]) = rstrip (prompt ++ line.dropLast) ↔ c = 0x20
    generalize line.dropLast = l at hline
    rw [hline, ← List.append_assoc] at hstrip
    rw [rstrip_space, hstrip]
    by_cases hc : c = 0x20
    · rw [hc, rstrip_space]
      exact iff_of_true rfl rfl
    · refine iff_of_false ?_ hc
      intro heq
      have hlen := congrArg List.length heq
      have hle := rstrip_length_le (prompt ++ l)
      rw [rstrip_concat _ hc, List.length_append, List.length_singleton] at hlen
      omega

/-- A change that is shown leaves the row and the line standing so. -/
theorem step (h : Echoed erasedBefore text (prompt ++ line)) (hd : Edit.ofByte line b = some d)
    (hshown : d.Shown erasedBefore) :
    Echoed (erasedBefore ∨ ∃ c, d = .erased c) (text ++ [d.cell]) (prompt ++ d.line line) := by
  refine ⟨?_, ?_, (h.shown_iff hd).mpr hshown⟩
  · intro hnone
    cases d with
    | typed c =>
      rw [h.same fun he => hnone (Or.inl he)]
      exact List.append_assoc prompt line [c]
    | erased c => exact absurd (Or.inr ⟨c, rfl⟩) hnone
  · intro hsome
    have hle : (prompt ++ line).length ≤ text.length := by
      by_cases he : erasedBefore
      · exact Nat.le_of_lt (h.longer he)
      · rw [h.same he]
    rw [List.length_append] at hle
    cases d with
    | typed c =>
      have hlonger := h.longer (hsome.resolve_right fun hc => nomatch hc.choose_spec)
      simp only [Edit.cell, Edit.line, List.length_append, List.length_singleton] at hlonger ⊢
      omega
    | erased c =>
      simp only [Edit.cell, Edit.line, List.length_append, List.length_singleton,
        List.length_dropLast]
      omega

end Echoed

/-- Only spaces are erased, only spaces are typed after that, and the prompt with all
that was echoed fits in a row. -/
structure OnlySpaces (cols : Nat) (ds : List Edit) : Prop where
  erased : ∀ c, .erased c ∈ ds → c = 0x20
  after : ds.Pairwise fun d d' => ∀ c c', d = .erased c → d' = .typed c' → c' = 0x20
  fits : 2 + ds.length ≤ cols

theorem onlySpaces_concat {cols : Nat} {ds : List Edit} {d : Edit} :
    OnlySpaces cols (ds ++ [d]) ↔
      OnlySpaces cols ds ∧ d.Shown (∃ c, .erased c ∈ ds) ∧ 2 + ds.length < cols := by
  constructor
  · rintro ⟨herased, hafter, hfits⟩
    rw [List.pairwise_append] at hafter
    rw [List.length_append, List.length_singleton] at hfits
    refine ⟨⟨fun c hc => herased c (List.mem_append_left [d] hc), hafter.1, by omega⟩, ?_, by omega⟩
    cases d with
    | typed c =>
      rintro ⟨c', hc'⟩
      exact hafter.2.2 _ hc' _ List.mem_cons_self c' c rfl rfl
    | erased c => exact herased c (List.mem_append_right ds List.mem_cons_self)
  · rintro ⟨⟨herased, hafter, -⟩, hshown, hfits⟩
    refine ⟨?_, ?_, ?_⟩
    · intro c hc
      rcases List.mem_append.mp hc with hc | hc
      · exact herased c hc
      · obtain rfl := List.mem_singleton.mp hc
        exact hshown
    · rw [List.pairwise_append]
      refine ⟨hafter, List.pairwise_singleton _ _, ?_⟩
      rintro _ hmem _ hd c c' rfl rfl
      obtain rfl := List.mem_singleton.mp hd
      exact hshown ⟨c, hmem⟩
    · rw [List.length_append, List.length_singleton]
      omega

theorem OnlySpaces.echoed {cols : Nat} {bytes : List UInt8} (h : OnlySpaces cols (edits bytes))
    (prompt : List UInt8) :
    Echoed (∃ c, .erased c ∈ edits bytes) (prompt ++ (edits bytes).map Edit.cell)
      (prompt ++ lineOf (edits bytes)) := by
  induction bytes using List.reverseRecOn with
  | nil => exact ⟨fun _ => rfl, fun ⟨_, hc⟩ => absurd hc List.not_mem_nil, rfl⟩
  | append_singleton bytes b ih =>
    rw [edits_concat] at h ⊢
    cases hd : Edit.ofByte (lineOf (edits bytes)) b with
    | none =>
      rw [hd, Option.toList_none, List.append_nil] at h
      rw [Option.toList_none, List.append_nil]
      exact ih h
    | some d =>
      rw [hd, Option.toList_some, onlySpaces_concat] at h
      obtain ⟨hall, hshown, -⟩ := h
      have hstep := (ih hall).step hd hshown
      have hiff : (∃ c, .erased c ∈ edits bytes ++ [d]) ↔
          (∃ c, .erased c ∈ edits bytes) ∨ ∃ c, d = .erased c := by
        simp only [List.mem_append, List.mem_singleton, exists_or, eq_comm]
      rw [Option.toList_some, List.map_append, lineOf_concat, ← List.append_assoc]
      rwa [← hiff] at hstep

/-! ## The panel's row -/

/-- The cursor is behind `text`, which has the row for itself, and below is nothing. -/
structure Terminal.Typed (t : Terminal) (text : List UInt8) : Prop where
  col : t.col = text.length
  row : ∀ col, t.cells t.row col = text.getD col 0x20
  below : ∀ row, t.row < row → ∀ col, t.cells row col = 0x20

namespace Terminal

variable {t : Terminal} {text : List UInt8} {cols : Nat} {c : UInt8}

theorem Typed.newline (h : ∀ row, t.row < row → ∀ col, t.cells row col = 0x20) :
    t.newline.Typed [] :=
  ⟨rfl, fun col => h (t.row + 1) (Nat.lt_succ_self _) col,
    fun row hlt col => h row (Nat.lt_of_succ_lt hlt) col⟩

theorem Typed.writeCell (h : t.Typed text) (c : UInt8) : (t.writeCell c).Typed (text ++ [c]) := by
  refine ⟨?_, ?_, ?_⟩
  · show t.col + 1 = _
    rw [h.col, List.length_append, List.length_singleton]
  · intro col
    show Function.update t.cells t.row (Function.update (t.cells t.row) t.col c) t.row col = _
    rw [Function.update_self]
    have hrow := h.row col
    rcases Nat.lt_trichotomy col text.length with hlt | heq | hgt
    · have hne : col ≠ t.col := by
        rw [h.col]
        exact Nat.ne_of_lt hlt
      rw [Function.update_of_ne hne, hrow, List.getD_append _ _ _ _ hlt]
    · have hcol : col = t.col := by rw [h.col, heq]
      rw [hcol, Function.update_self, h.col, List.getD_append_right _ _ _ _ (Nat.le_refl _),
        Nat.sub_self]
      rfl
    · have hne : col ≠ t.col := by
        rw [h.col]
        exact Nat.ne_of_gt hgt
      rw [Function.update_of_ne hne, hrow, List.getD_eq_default _ _ (Nat.le_of_lt hgt),
        List.getD_eq_default]
      rw [List.length_append, List.length_singleton]
      omega
  · intro row hlt col
    have hne : row ≠ t.row := Nat.ne_of_gt hlt
    show Function.update t.cells t.row _ row col = 0x20
    rw [Function.update_of_ne hne]
    exact h.below row hlt col

/-- A character goes behind the text, or alone into the next row. -/
theorem Typed.write (h : t.Typed text) (cols : Nat) (c : UInt8) :
    (t.write cols c).Typed (if text.length < cols then text ++ [c] else [c]) := by
  unfold Terminal.write
  rw [h.col]
  by_cases hroom : text.length < cols
  · rw [if_neg (Nat.not_le.mpr hroom), if_pos hroom]
    exact h.writeCell c
  · rw [if_pos (Nat.not_lt.mp hroom), if_neg hroom]
    exact (Typed.newline h.below).writeCell c

theorem put_printable (hc : 0x20 ≤ c ∧ c < 0x7f) : t.put cols c = t.write cols c := by
  have hnot : ∀ d : UInt8, d < 0x20 → c ≠ d := by
    rintro d hd rfl
    exact UInt8.not_le.mpr hd hc.1
  unfold put
  rw [if_neg (hnot _ (by decide)), if_neg (hnot _ (by decide)), if_neg (hnot _ (by decide)),
    if_pos hc]

/-- The backspaces of an echo are nothing, and its space is one more character. -/
theorem put_echo {line : List UInt8} {d : Edit} (hd : Edit.ofByte line c = some d)
    (hc : IsTyping c) : d.echo.foldl (put cols) t = t.write cols d.cell := by
  unfold Edit.ofByte at hd
  split at hd
  · obtain ⟨c', -, rfl⟩ := Option.map_eq_some_iff.mp hd
    rfl
  next herase =>
  split at hd
  · cases hd
  · obtain rfl := Option.some.inj hd
    rw [not_or] at herase
    exact put_printable ((hc.resolve_left herase.1).resolve_left herase.2)

end Terminal

/-- The current row, as the grid has it. -/
def Screen.rowText (s : Screen) : List UInt8 :=
  (List.range s.cols.toNat).map fun c => s.grid s.curRow (UInt32.ofNat c)

namespace Shows

variable {s : Screen} {t : Terminal}

theorem foldl_put (h : Shows s t) (hcols : s.cols ≠ 0) (bytes : List UInt8) :
    Shows (bytes.foldl Screen.put s) (bytes.foldl (Terminal.put s.cols.toNat) t) ∧
      (bytes.foldl Screen.put s).cols = s.cols := by
  induction bytes generalizing s t with
  | nil => exact ⟨h, rfl⟩
  | cons c bytes ih =>
    obtain ⟨hput, -, hcols'⟩ := h.put hcols c
    obtain ⟨hall, hcols''⟩ := ih hput (hcols' ▸ hcols)
    rw [hcols'] at hall
    exact ⟨hall, hcols''.trans hcols'⟩

/-- Without the spaces at its end the row is the text that is typed in it. -/
theorem rstrip_rowText (h : Shows s t) {text : List UInt8} (htext : t.Typed text)
    (hfits : text.length ≤ s.cols.toNat) : rstrip s.rowText = rstrip text := by
  have hrow : s.rowText = text ++ List.replicate (s.cols.toNat - text.length) 0x20 := by
    apply List.ext_getElem
    · simp [Screen.rowText, Nat.add_sub_cancel' hfits]
    · intro c hc hc'
      have hlt : c < s.cols.toNat := by simpa [Screen.rowText] using hc
      have hc32 : (UInt32.ofNat c).toNat = c :=
        UInt32.toNat_ofNat_of_lt' (Nat.lt_trans hlt s.cols.toNat_lt)
      have hin : UInt32.ofNat c < s.cols := by
        rw [UInt32.lt_iff_toNat_lt, hc32]
        exact hlt
      have hcell := h.cells s.curRow h.cursor.rows _ hin
      rw [← h.row, hc32, htext.row] at hcell
      simp only [Screen.rowText, List.getElem_map, List.getElem_range, hcell]
      by_cases hlen : c < text.length
      · rw [List.getElem_append_left hlen, List.getD_eq_getElem _ _ hlen]
      · rw [List.getElem_append_right (Nat.not_lt.mp hlen), List.getElem_replicate,
          List.getD_eq_default _ _ (Nat.not_lt.mp hlen)]
  rw [hrow, rstrip_spaces]

end Shows

theorem prompt_text : consoleText Uartrx.prompt = [0x3e, 0x20] := by decide

/-- fbcon's screen after `before`, a prompt and the echo of `es`. -/
def Geometry.panelAfter (g : Geometry) (before : List UInt8) (u : Uartrx.UartrxState)
    (es : List Uartrx.RxEvent) : Screen :=
  (before ++ consoleText (Uartrx.prompt ++ (u.rxAll es).2)).foldl Screen.put g.screen

section

variable {t : Terminal} {cols : Nat} {bytes : List UInt8}

theorem typed_prompt (h : t.Typed []) (hcols : 2 ≤ cols) :
    ([0x3e, 0x20].foldl (Terminal.put cols) t).Typed [0x3e, 0x20] := by
  have hfirst := h.write cols 0x3e
  rw [if_pos (show [].length < cols by simp; omega), List.nil_append] at hfirst
  have hsecond := hfirst.write cols 0x20
  rw [if_pos (show [(0x3e : UInt8)].length < cols by simp; omega)] at hsecond
  exact hsecond

/-- The panel's row while changes are shown: the prompt, and a cell for each. -/
theorem typed_edits (h : t.Typed [0x3e, 0x20]) (htyping : ∀ c ∈ bytes, IsTyping c)
    (honly : OnlySpaces cols (edits bytes)) :
    (((edits bytes).flatMap Edit.echo).foldl (Terminal.put cols) t).Typed
      ([0x3e, 0x20] ++ (edits bytes).map Edit.cell) := by
  induction bytes using List.reverseRecOn with
  | nil => exact h
  | append_singleton bytes c ih =>
    rw [edits_concat] at honly ⊢
    have hbefore := ih fun c' hc' => htyping c' (List.mem_append_left [c] hc')
    cases hd : Edit.ofByte (lineOf (edits bytes)) c with
    | none =>
      rw [hd, Option.toList_none, List.append_nil] at honly
      rw [Option.toList_none, List.append_nil]
      exact hbefore honly
    | some d =>
      rw [hd, Option.toList_some, onlySpaces_concat] at honly
      obtain ⟨hall, -, hroom⟩ := honly
      have hwrite := (hbefore hall).write cols d.cell
      rw [if_pos (by simp; omega)] at hwrite
      rw [Option.toList_some, List.flatMap_append, List.foldl_append, List.map_append,
        List.flatMap_singleton, Terminal.put_echo hd
          (htyping c (List.mem_append_right bytes List.mem_cons_self)), ← List.append_assoc]
      exact hwrite

end

/-- A character alone in a row is not the prompt and the line. -/
theorem wrapped_not_shown (line : List UInt8) (d : Edit) :
    rstrip [d.cell] ≠ rstrip ([0x3e, 0x20] ++ d.line line) := by
  intro heq
  have hnotNil : ∀ l : List UInt8, rstrip ([0x3e, 0x20] ++ l) ≠ [] := by
    intro l hnil
    have hall := List.rdropWhile_eq_nil_iff.mp hnil 0x3e List.mem_cons_self
    exact absurd hall (by decide)
  by_cases hcell : d.cell = 0x20
  · rw [hcell] at heq
    exact hnotNil _ heq.symm
  · cases d with
    | erased c => exact hcell rfl
    | typed c =>
      have hlen := congrArg List.length heq
      have hc : c ≠ 0x20 := hcell
      rw [show rstrip [Edit.cell (.typed c)] = [c] from rstrip_concat [] hc] at hlen
      rw [show [0x3e, 0x20] ++ Edit.line line (.typed c) = ([0x3e, 0x20] ++ line) ++ [c] from
        (List.append_assoc _ _ _).symm, rstrip_concat _ hc] at hlen
      simp only [List.length_append, List.length_cons, List.length_nil] at hlen
      omega

theorem OnlySpaces.of_concat {cols : Nat} {bytes : List UInt8} {c : UInt8}
    (h : OnlySpaces cols (edits (bytes ++ [c]))) : OnlySpaces cols (edits bytes) := by
  rw [edits_concat] at h
  cases hd : Edit.ofByte (lineOf (edits bytes)) c with
  | none =>
    rw [hd, Option.toList_none, List.append_nil] at h
    exact h
  | some d =>
    rw [hd, Option.toList_some, onlySpaces_concat] at h
    exact h.1

/-- One more byte, where all was shown up to now. -/
theorem row_step {s : Screen} {t : Terminal} {bytes : List UInt8} {c : UInt8}
    (htyped : t.Typed [0x3e, 0x20]) (htyping : ∀ c' ∈ bytes ++ [c], IsTyping c')
    (honly : OnlySpaces s.cols.toNat (edits bytes))
    (hs : Shows s (((edits (bytes ++ [c])).flatMap Edit.echo).foldl
      (Terminal.put s.cols.toNat) t)) :
    rstrip s.rowText = rstrip ([0x3e, 0x20] ++ lineOf (edits (bytes ++ [c]))) ↔
      OnlySpaces s.cols.toNat (edits (bytes ++ [c])) := by
  have htext := typed_edits htyped
    (fun c' hc' => htyping c' (List.mem_append_left [c] hc')) honly
  have hechoed := honly.echoed [0x3e, 0x20]
  have hfits := honly.fits
  have hlen : ([0x3e, 0x20] ++ (edits bytes).map Edit.cell).length = 2 + (edits bytes).length := by
    rw [List.length_append, List.length_map]
    rfl
  rw [edits_concat] at hs ⊢
  cases hd : Edit.ofByte (lineOf (edits bytes)) c with
  | none =>
    rw [hd, Option.toList_none, List.append_nil] at hs
    rw [Option.toList_none, List.append_nil]
    refine iff_of_true ?_ honly
    rw [hs.rstrip_rowText htext (hlen ▸ hfits)]
    exact hechoed.strip
  | some d =>
    rw [hd, Option.toList_some, List.flatMap_append, List.foldl_append, List.flatMap_singleton,
      Terminal.put_echo hd (htyping c (List.mem_append_right bytes List.mem_cons_self))] at hs
    rw [Option.toList_some, lineOf_concat, onlySpaces_concat, and_iff_right honly]
    have hwrite := htext.write s.cols.toNat d.cell
    rw [hlen] at hwrite
    by_cases hroom : 2 + (edits bytes).length < s.cols.toNat
    · rw [if_pos hroom] at hwrite
      rw [hs.rstrip_rowText hwrite (by rw [List.length_append, hlen]; exact hroom),
        hechoed.shown_iff hd, and_iff_left hroom]
    · rw [if_neg hroom] at hwrite
      rw [hs.rstrip_rowText hwrite (show 1 ≤ _ by omega)]
      exact iff_of_false (wrapped_not_shown _ d) fun h => hroom h.2

/-- The panel and a terminal with a row of its own for the prompt. -/
theorem panelAfter_shows {g : Geometry} (hcols : g.cols ≠ 0) (hrows : g.rows ≠ 0)
    {before : List UInt8} (hbefore : before = [] ∨ ∃ b, before = b ++ [0x0a]) :
    ∃ t : Terminal, t.Typed [] ∧ ∀ (u : Uartrx.UartrxState) (es : List Uartrx.RxEvent),
      Shows (g.panelAfter before u es) ((consoleText (u.rxAll es).2).foldl
        (Terminal.put g.cols.toNat) ([0x3e, 0x20].foldl (Terminal.put g.cols.toNat) t)) ∧
      (g.panelAfter before u es).cols = g.cols := by
  have hscreen : g.screen.cols = g.cols :=
    (Screen.clearScreen_sameBut { cols := g.cols, rows := g.rows }).cols
  have hstart := Geometry.screen_shows hrows
  have hrun : ∀ t, before.foldl (Terminal.put g.cols.toNat) {} = t →
      ∀ (u : Uartrx.UartrxState) (es : List Uartrx.RxEvent),
      Shows (g.panelAfter before u es) ((consoleText (u.rxAll es).2).foldl
        (Terminal.put g.cols.toNat) ([0x3e, 0x20].foldl (Terminal.put g.cols.toNat) t)) ∧
      (g.panelAfter before u es).cols = g.cols := by
    rintro t rfl u es
    obtain ⟨hall, hcols'⟩ := hstart.foldl_put (hscreen ▸ hcols)
      (before ++ consoleText (Uartrx.prompt ++ (u.rxAll es).2))
    have hsplit : (before ++ consoleText (Uartrx.prompt ++ (u.rxAll es).2)).foldl
        (Terminal.put g.cols.toNat) {} = (consoleText (u.rxAll es).2).foldl
          (Terminal.put g.cols.toNat) ([0x3e, 0x20].foldl (Terminal.put g.cols.toNat)
            (before.foldl (Terminal.put g.cols.toNat) {})) := by
      rw [consoleText_append, prompt_text, List.foldl_append, List.foldl_append]
    rw [hscreen, hsplit] at hall
    exact ⟨hall, hcols'.trans hscreen⟩
  refine ⟨_, ?_, hrun _ rfl⟩
  rcases hbefore with rfl | ⟨b, rfl⟩
  · exact ⟨rfl, fun _ => rfl, fun _ _ _ => rfl⟩
  · obtain ⟨hall, -⟩ := hstart.foldl_put (hscreen ▸ hcols) b
    rw [hscreen] at hall
    rw [List.foldl_append]
    exact Terminal.Typed.newline hall.blank

/-- At every moment of the typing the panel shows the prompt and the line, exactly
when only spaces are erased, only spaces are typed after that, and the row has room
for all that is echoed. -/
theorem panel_shows_line_iff {g : Geometry} (hcols : 2 ≤ g.cols.toNat) (hrows : g.rows ≠ 0)
    {before : List UInt8} (hbefore : before = [] ∨ ∃ b, before = b ++ [0x0a])
    {u : Uartrx.UartrxState} (hu : u.line = []) (es : List Uartrx.RxEvent)
    (hes : ∀ e ∈ es, IsTyping e.byte) :
    (∀ fs, fs <+: es → rstrip (g.panelAfter before u fs).rowText =
        rstrip (consoleText Uartrx.prompt ++ (u.rxAll fs).1.line)) ↔
      OnlySpaces g.cols.toNat (edits (es.map (·.byte))) := by
  have hne : g.cols ≠ 0 := by
    rintro h
    rw [h] at hcols
    exact absurd hcols (by decide)
  obtain ⟨t, hempty, hshows⟩ := panelAfter_shows hne hrows hbefore
  have hprompt := typed_prompt hempty hcols
  rw [prompt_text]
  induction es using List.reverseRecOn with
  | nil =>
    refine iff_of_true ?_ ⟨fun c hc => absurd hc List.not_mem_nil, List.Pairwise.nil, hcols⟩
    intro fs hfs
    obtain rfl := List.prefix_nil.mp hfs
    obtain ⟨hpanel, hpanelCols⟩ := hshows u []
    have hrow := hpanel.rstrip_rowText hprompt (hpanelCols ▸ hcols)
    rw [hrow, show (u.rxAll []).1.line = [] from hu, List.append_nil]
  | append_singleton es e ih =>
    have hes' : ∀ e ∈ es, IsTyping e.byte := fun e' he' => hes e' (List.mem_append_left [e] he')
    have hprefixes : (∀ fs, fs <+: es ++ [e] → rstrip (g.panelAfter before u fs).rowText =
          rstrip ([0x3e, 0x20] ++ (u.rxAll fs).1.line)) ↔
        (∀ fs, fs <+: es → rstrip (g.panelAfter before u fs).rowText =
          rstrip ([0x3e, 0x20] ++ (u.rxAll fs).1.line)) ∧
        rstrip (g.panelAfter before u (es ++ [e])).rowText =
          rstrip ([0x3e, 0x20] ++ (u.rxAll (es ++ [e])).1.line) := by
      simp only [List.prefix_concat_iff, or_imp, forall_and, forall_eq, and_comm]
    obtain ⟨hpanel, hpanelCols⟩ := hshows u (es ++ [e])
    obtain ⟨hline, htext⟩ := rxAll_edits hu (es ++ [e]) hes
    have hbytes : (es ++ [e]).map (·.byte) = es.map (·.byte) ++ [e.byte] := List.map_append
    have htyping : ∀ c ∈ es.map (·.byte) ++ [e.byte], IsTyping c := by
      intro c hc
      rw [← hbytes] at hc
      obtain ⟨e', he', rfl⟩ := List.mem_map.mp hc
      exact hes e' he'
    rw [hbytes] at hline htext ⊢
    rw [htext, ← hpanelCols] at hpanel
    refine hprefixes.trans ((and_congr_left' (ih hes')).trans ?_)
    rw [hline, ← hpanelCols]
    rw [← hpanelCols] at hprompt
    constructor
    · rintro ⟨honly, hshown⟩
      exact (row_step hprompt htyping honly hpanel).mp hshown
    · intro hall
      exact ⟨hall.of_concat, (row_step hprompt htyping hall.of_concat hpanel).mpr hall⟩

theorem panel_shows_line_ping : ∃ g, readGeometry spleenLayout 0 0 = .ok g ∧
    ∀ fs, fs <+: [⟨0x70, 0, {}⟩, ⟨0x20, 0, {}⟩, ⟨0x7f, 0, {}⟩] →
      rstrip (g.panelAfter [0x68, 0x69, 0x0a] {} fs).rowText =
        rstrip (consoleText Uartrx.prompt ++
          ((({} : Uartrx.UartrxState)).rxAll fs).1.line) := by
  have hg : readGeometry spleenLayout 0 0 = .ok _ := rfl
  refine ⟨_, hg,
    (panel_shows_line_iff ?_ ?_ (Or.inr ⟨[0x68, 0x69], rfl⟩) (u := {}) rfl _ ?_).mpr ?_⟩
  · show 2 ≤ (50 : UInt32).toNat
    decide
  · show (53 : UInt32) ≠ 0
    decide
  · simp [IsTyping, Uartrx.asciiBs, Uartrx.asciiDel]
  · have hedits : edits [0x70, 0x20, 0x7f] = [.typed 0x70, .typed 0x20, .erased 0x20] := rfl
    show OnlySpaces (50 : UInt32).toNat (edits [0x70, 0x20, 0x7f])
    rw [hedits]
    refine ⟨?_, ?_, ?_⟩
    · simp
    · simp
    · decide

/-- A character is typed and erased, and the panel keeps it. -/
theorem erased_stays_on_panel : ∃ g, readGeometry spleenLayout 0x014800a0 640 = .ok g ∧
    (g.cols = 4 ∧ g.rows = 1) ∧
    let es := [⟨0x61, 0, {}⟩, ⟨0x08, 0, {}⟩]
    (∀ e ∈ es, IsTyping e.byte) ∧
      rstrip (g.panelAfter [] {} es).rowText = [0x3e, 0x20, 0x61] ∧
      rstrip (consoleText Uartrx.prompt ++ (({} : Uartrx.UartrxState).rxAll es).1.line) =
        [0x3e] := by
  refine ⟨_, rfl, ⟨rfl, rfl⟩, ?_, ?_, ?_⟩
  · simp [IsTyping, Uartrx.asciiBs, Uartrx.asciiDel]
  · decide +kernel
  · decide

end Fbcon
end TensorSel4
