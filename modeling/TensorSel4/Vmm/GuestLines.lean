/-
What the emulated UART prints of the guest's bytes.

The written bytes are cut at each LF, and in a line of 255 bytes before the next
one; CRs are removed.  The lines that are printed are these pieces but for the last,
which is in `line`, exactly when none of the printed ones holds a NUL: `printf`
stops there.
-/
import Mathlib.Data.List.TakeWhile
import TensorSel4.Text.Cut
import TensorSel4.Vmm.FreshStart

namespace TensorSel4
namespace Vmm

open Text

namespace ExynosUartEmul

variable {before : List (List UInt8)} {written : List UInt8} {u : ExynosUartEmul}

def guestPieces (written : List UInt8) : List (List UInt8) :=
  pieces (consoleLineMax - 1) 0x0a (written.filter (· != 0x0d))

/-- After `written` the pieces but for the last have been printed, each up to its
first NUL. -/
def Printed (before : List (List UInt8)) (written : List UInt8) (u : ExynosUartEmul) : Prop :=
  ∃ done, guestPieces written = done ++ [u.line] ∧ u.printed = before ++ done.map guestLine

theorem printed_init (u : ExynosUartEmul) : Printed u.printed [] u.exynosUartEmulInit :=
  ⟨[], by simp [guestPieces, pieces, cutEvery_short, exynosUartEmulInit],
    (List.append_nil _).symm⟩

theorem Printed.consolePutc (h : Printed before written u) (c : UInt8) :
    Printed before (written ++ [c]) (u.consolePutc c) := by
  obtain ⟨done, hpieces, hprinted⟩ := h
  by_cases hcr : c = 0x0d
  · subst hcr
    refine ⟨done, ?_, hprinted⟩
    show guestPieces (written ++ [0x0d]) = done ++ [u.line]
    rw [← hpieces, guestPieces, guestPieces, List.filter_append]
    simp
  have htext : (written ++ [c]).filter (· != 0x0d) = written.filter (· != 0x0d) ++ [c] := by
    rw [List.filter_append]
    simp [hcr]
  obtain ⟨done', rest, hsplit, -, hsep, hpush⟩ :=
    exists_pieces (n := consoleLineMax - 1) (by decide) 0x0a (written.filter (· != 0x0d))
  obtain ⟨rfl, hlast⟩ := List.append_inj' (hpieces.symm.trans hsplit) rfl
  obtain rfl : rest = u.line := (List.cons.inj hlast).1.symm
  unfold Printed guestPieces
  rw [htext, consolePutc_line, consolePutc_printed, lineAfter, putLines, if_neg hcr, if_neg hcr,
    hprinted]
  by_cases hlf : c = 0x0a
  · subst hlf
    refine ⟨done ++ [u.line], ?_, ?_⟩
    · rw [hsep, if_pos rfl, List.append_assoc]
      rfl
    · rw [if_pos (Or.inl rfl), List.map_append, List.append_assoc]
      rfl
  rw [hpush c hlf, if_neg hlf, pushPiece]
  by_cases hfull : u.line.length = consoleLineMax - 1
  · refine ⟨done ++ [u.line], ?_, ?_⟩
    · rw [if_pos hfull, if_pos hfull, List.append_assoc]
      rfl
    · rw [if_pos (Or.inr hfull), List.map_append, List.append_assoc]
      rfl
  · refine ⟨done, ?_, ?_⟩
    · rw [if_neg hfull, if_neg hfull]
    · rw [if_neg (not_or.mpr ⟨hlf, hfull⟩), List.append_nil]

theorem printed_foldl (u : ExynosUartEmul) (written : List UInt8) :
    Printed u.printed written (written.foldl ExynosUartEmul.consolePutc u.exynosUartEmulInit) := by
  induction written using List.reverseRecOn with
  | nil => exact printed_init u
  | append_singleton written c ih =>
    rw [List.foldl_append]
    exact ih.consolePutc c

/-- The runs of the VMM, with all their guests and starts, print one such stream. -/
theorem printed_of_reaches {b : HostedBuild} {es : List (HostedEvent b)} {t : Hosted b}
    (hr : (hosted b).Reaches (hosted b).start es t) :
    Printed [] (es.flatMap HostedEvent.utxhBytes) t.vmm.uart := by
  rw [hosted_uart hr]
  exact printed_foldl {} _

/-! ## Lines with a NUL -/

theorem takeWhile_eq_self_iff (l : List UInt8) : l.takeWhile (· ≠ 0) = l ↔ 0 ∉ l := by
  rw [List.takeWhile_eq_self_iff]
  constructor
  · intro h hmem
    simpa using h 0 hmem
  · intro h c hc
    exact decide_eq_true fun hzero => h (hzero ▸ hc)

theorem map_guestLine_iff (done : List (List UInt8)) :
    done.map guestLine = done.map (guestPrompt ++ ·) ↔ ∀ l ∈ done, 0 ∉ l := by
  rw [List.map_inj_left]
  refine forall₂_congr fun l hl => ?_
  rw [guestLine, List.append_cancel_left_eq, takeWhile_eq_self_iff]

/-- Every byte but for CRs and LFs is shown, once and in order: those of the pieces
that are done in a line of their own, and the others in `line`. -/
structure ShowsEvery (before : List (List UInt8)) (written : List UInt8) (u : ExynosUartEmul) :
    Prop where
  bounded : u.line.length ≤ 255
  printed : u.printed = before ++ (guestPieces written).dropLast.map (guestPrompt ++ ·)
  rest : (guestPieces written).getLast? = some u.line
  once : ((guestPieces written).dropLast ++ [u.line]).flatten =
    written.filter fun c => c != 0x0d && c != 0x0a

/-- The UART shows every guest byte exactly when no line that is cut holds a NUL. -/
theorem guest_bytes_shown_iff (u : ExynosUartEmul) (written : List UInt8) :
    ShowsEvery u.printed written (written.foldl consolePutc u.exynosUartEmulInit) ↔
      ∀ l ∈ (guestPieces written).dropLast, 0 ∉ l := by
  obtain ⟨done, hpieces, hprinted⟩ := printed_foldl u written
  generalize written.foldl ExynosUartEmul.consolePutc u.exynosUartEmulInit = t at hpieces hprinted
  have hdone : (guestPieces written).dropLast = done := by rw [hpieces, List.dropLast_concat]
  rw [hdone, ← map_guestLine_iff]
  constructor
  · intro h
    have hshown := h.printed
    rw [hprinted, hdone] at hshown
    exact List.append_cancel_left hshown
  · intro h
    refine ⟨t.bounded, ?_, ?_, ?_⟩
    · rw [hprinted, hdone, h]
    · rw [hpieces, List.getLast?_concat]
    · rw [hdone, ← hpieces, guestPieces, flatten_pieces, List.filter_filter]
      refine List.filter_congr fun c _ => ?_
      exact Bool.and_comm _ _

/-- The guest writes `a`, a NUL, `b` and a line feed, and the line shows `a`. -/
theorem nul_ends_line :
    ([0x61, 0, 0x62, 0x0a].foldl consolePutc (exynosUartEmulInit {})).printed =
        [guestPrompt ++ [0x61]] ∧
      ¬ShowsEvery [] [0x61, 0, 0x62, 0x0a]
        ([0x61, 0, 0x62, 0x0a].foldl consolePutc (exynosUartEmulInit {})) := by
  refine ⟨by decide, ?_⟩
  intro h
  have honce := h.printed
  have hpieces : guestPieces [0x61, 0, 0x62, 0x0a] = [[0x61, 0, 0x62], []] := by
    have hsplit : [0x61, 0, 0x62, 0x0a].splitOn (0x0a : UInt8) = [[0x61, 0, 0x62], []] := rfl
    have htext : [0x61, 0, 0x62, 0x0a].filter (· != (0x0d : UInt8)) = [0x61, 0, 0x62, 0x0a] := rfl
    rw [guestPieces, htext, pieces, hsplit]
    simp [cutEvery_short, consoleLineMax]
  rw [hpieces] at honce
  revert honce
  decide

end ExynosUartEmul
end Vmm
end TensorSel4
