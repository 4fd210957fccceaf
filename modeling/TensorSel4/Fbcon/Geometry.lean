/-
The geometry of the panel's text grid: `read_geometry` of `fbcon/fbcon.c`.

The font and the margins are macros of the build, so they are parameters here.
The messages that print a register are left out; the ones that say why a
geometry is refused are the errors.
-/
import Mathlib.Data.UInt

namespace TensorSel4
namespace Fbcon

def fbconFbSize : Nat := 0x1000000

def dpuDefaultWidth : UInt32 := 1280
def dpuDefaultHeight : UInt32 := 2856
def dpuDefaultStride : UInt32 := 5120

def rdmaImgSizeW (v : UInt32) : UInt32 := v &&& 0xffff
def rdmaImgSizeH (v : UInt32) : UInt32 := (v >>> 16) &&& 0xffff
def rdmaSrcStrideMask : UInt32 := 0x00ffffff

def maxCols : UInt32 := 160
def maxRows : UInt32 := 360

/-- The macros `FONT_*` and `FBCON_*`. -/
structure Layout where
  fontW : UInt32
  fontH : UInt32
  scale : UInt32
  marginTop : UInt32
  marginBottom : UInt32
  marginSide : UInt32
  cellW_pos : 0 < fontW * scale
  cellH_pos : 0 < fontH * scale

def Layout.cellW (l : Layout) : UInt32 := l.fontW * l.scale
def Layout.cellH (l : Layout) : UInt32 := l.fontH * l.scale

theorem spleenCellW_pos : (0 : UInt32) < 12 * 2 := by decide

theorem spleenCellH_pos : (0 : UInt32) < 24 * 2 := by decide

/-- The defaults of `vmm/vmm.mk`. -/
def spleenLayout : Layout where
  fontW := 12
  fontH := 24
  scale := 2
  marginTop := 160
  marginBottom := 120
  marginSide := 32
  cellW_pos := spleenCellW_pos
  cellH_pos := spleenCellH_pos

/-- `read_size`: the width and the height. -/
def readSize (img : UInt32) : UInt32 × UInt32 :=
  if img = 0 then (dpuDefaultWidth, dpuDefaultHeight) else (rdmaImgSizeW img, rdmaImgSizeH img)

def readStride (srcStride width : UInt32) : UInt32 :=
  let stride := srcStride &&& rdmaSrcStrideMask
  if stride = 0 then
    if width = dpuDefaultWidth then dpuDefaultStride else width * 4
  else stride

structure Geometry where
  width : UInt32
  height : UInt32
  stride : UInt32
  cols : UInt32
  rows : UInt32
  cols_le : cols ≤ maxCols
  rows_le : rows ≤ maxRows

/-- The pixels left for text between the side margins. -/
def Layout.textWidth (l : Layout) (img : UInt32) : UInt32 := (readSize img).1 - 2 * l.marginSide

def Layout.textHeight (l : Layout) (img : UInt32) : UInt32 :=
  (readSize img).2 - l.marginTop - l.marginBottom

def readGeometry (l : Layout) (img srcStride : UInt32) : Except String Geometry :=
  let width := (readSize img).1
  let height := (readSize img).2
  let stride := readStride srcStride width
  if width = 0 ∨ height = 0 ∨ stride < width * 4 ∨ stride % 4 ≠ 0 then
    .error "FBCON|ERROR: RDMA0 geometry is not a 32-bit framebuffer\n"
  else if fbconFbSize < stride.toNat * height.toNat then
    .error "FBCON|ERROR: framebuffer is larger than our buffer of "
  else if width ≤ 2 * l.marginSide ∨ height ≤ l.marginTop + l.marginBottom then
    .error "FBCON|ERROR: the margins leave no room for text\n"
  else
    let cols := l.textWidth img / l.cellW
    let rows := l.textHeight img / l.cellH
    if h : cols ≤ maxCols ∧ rows ≤ maxRows then
      .ok { width, height, stride, cols, rows, cols_le := h.1, rows_le := h.2 }
    else .error "FBCON|ERROR: text grid exceeds MAX_COLS x MAX_ROWS\n"

theorem readGeometry_ok {l : Layout} {img srcStride : UInt32} {g : Geometry}
    (h : readGeometry l img srcStride = .ok g) :
    g.cols = l.textWidth img / l.cellW ∧ g.rows = l.textHeight img / l.cellH := by
  unfold readGeometry at h
  dsimp only at h
  split at h
  · cases h
  split at h
  · cases h
  split at h
  · cases h
  split at h
  · obtain rfl := Except.ok.inj h
    exact ⟨rfl, rfl⟩
  · cases h

theorem div_eq_zero_iff {a b : UInt32} (hb : 0 < b) : a / b = 0 ↔ a < b := by
  rw [← UInt32.toNat_inj, UInt32.toNat_div, UInt32.lt_iff_toNat_lt]
  exact Nat.div_eq_zero_iff_lt (UInt32.lt_iff_toNat_lt.mp hb)

end Fbcon
end TensorSel4
