/-
fbcon as the display controller sees it: `clear_screen`, `render`, `present`,
`retarget_scanout`, `start_decon`, `init` and `notified` of `fbcon/fbcon.c`.

The controller does not read the processor's caches.  The framebuffer is cached,
each draw ends with a clean of its rows, and `present` waits for the cleans before
it triggers a frame.  `cache_clean` is not part of this repository: what it is
handed is clean once a barrier has waited for it.  The messages are left out.

`Stage` is the invariant.  Up to the barrier it says what the actions that are still
to come will have drawn and cleaned; after it, memory is what the processor drew, and
nothing that the cache does on its own can change that.
-/
import TensorSel4.Fbcon.Picture
import TensorSel4.Memory.Cached

namespace TensorSel4
namespace Fbcon
namespace Scanout

def fbconFbPhys : UInt32 := 0xfac00000

def globalConDeconEnF : UInt32 := (1 : UInt32) <<< 0
def globalConDeconEn : UInt32 := (1 : UInt32) <<< 1
def globalConRunStatus : UInt32 := (1 : UInt32) <<< 4

def trigConHwTrigEn : UInt32 := (1 : UInt32) <<< 0
def trigConSwTrigDetEn : UInt32 := (1 : UInt32) <<< 1
def trigConHwTrigMask : UInt32 := (1 : UInt32) <<< 4
def trigConSwTrigEn : UInt32 := (1 : UInt32) <<< 8

def shdRegUpReqGlobal : UInt32 := (1 : UInt32) <<< 31

def runStatusSpins : Nat := 2000000

def tracerCh : Nat := 1

inductive Reg where
  | rdmaImgSize
  | rdmaSrcStride0
  | rdmaBaseaddrP0
  | deconGlobalCon
  | deconTrigCon
  | deconShdRegUpReq
deriving DecidableEq

/-- What fbcon does to the buffer and to the controller's registers.  A read says what
the controller answers. -/
inductive Action where
  | store (w : Pixel)
  | clean (range : UInt64 × UInt64)
  | dsb
  | read (reg : Reg) (val : UInt32)
  | write (reg : Reg) (val : UInt32)

def stores (pixels : List Pixel) : List Action := pixels.map .store

def InRange (range : UInt64 × UInt64) (a : UInt64) : Prop := range.1 ≤ a ∧ a < range.2

instance (range : UInt64 × UInt64) (a : UInt64) : Decidable (InRange range a) :=
  inferInstanceAs (Decidable (_ ∧ _))

abbrev Buffer := Cached UInt64 UInt32

/-- The framebuffer, and what the controller's registers were last written with. -/
structure Display where
  buffer : Buffer
  regs : Reg → UInt32

def perform (d : Display) : Action → Display
  | .store w => { d with buffer := d.buffer.store w.addr w.color }
  | .clean range => { d with buffer := d.buffer.clean fun a => decide (InRange range a) }
  | .dsb => { d with buffer := d.buffer.barrier }
  | .read _ _ => d
  | .write reg val => { d with regs := Function.update d.regs reg val }

def after (d : Display) (as : List Action) : Display := as.foldl perform d

/-! ## The program -/

def rowPixels (p : Panel) (s : Screen) (r : UInt32) : List Pixel :=
  forRange 0 s.cols (fun c pixels => pixels ++ p.drawGlyph c r (s.grid r c) []) []

def drawRow (p : Panel) (s : Screen) (r : UInt32) : List Action :=
  stores (rowPixels p s r) ++ [.clean (p.rowRange r)]

/-- The loop of `render`, for what it does to `dirty` see `Screen.render`. -/
def drawRows (p : Panel) (s : Screen) : List Action :=
  forRange 0 s.rows (fun r as => if s.scrolled || s.dirty r then as ++ drawRow p s r else as) []

def trigConOf (trig : UInt32) : UInt32 :=
  (trig &&& ~~~(trigConHwTrigEn ||| trigConHwTrigMask)) ||| trigConSwTrigEn ||| trigConSwTrigDetEn

/-- The writes of `present`, after its barrier. -/
def trigger (trig : UInt32) : List Action :=
  [.write .deconTrigCon (trigConOf trig), .write .deconShdRegUpReq shdRegUpReqGlobal]

def present (trig : UInt32) : List Action := .read .deconTrigCon trig :: .dsb :: trigger trig

def render (p : Panel) (s : Screen) (trig : UInt32) : List Action := drawRows p s ++ present trig

/-- `clear_screen`, but for the grid. -/
def clearScreen (p : Panel) : List Action := stores (p.clearPixels []) ++ [.clean p.clearRange]

def retargetScanout (abl now : UInt32) : List Action :=
  [.read .rdmaBaseaddrP0 abl, .write .rdmaBaseaddrP0 fbconFbPhys, .read .rdmaBaseaddrP0 now]

/-- The loop of `start_decon` with `spins` rounds left, and the read of its warning. -/
def awaitRunning (con : Nat → UInt32) : Nat → List Action
  | 0 => [.read .deconGlobalCon (con 0)]
  | spins + 1 => .read .deconGlobalCon (con (spins + 1)) ::
      if con (spins + 1) &&& globalConRunStatus ≠ 0 then [] else awaitRunning con spins

def startDecon (con : UInt32) (running : Nat → UInt32) : List Action :=
  [.read .deconGlobalCon con,
    .write .deconGlobalCon (con ||| globalConDeconEn ||| globalConDeconEnF),
    .write .deconShdRegUpReq shdRegUpReqGlobal] ++ awaitRunning running runStatusSpins

/-- What the build and the system file fix. -/
structure Build where
  layout : Layout
  fbVaddr : UInt64
  fontRows : UInt8 → UInt32 → UInt32

def Build.panel (b : Build) (g : Geometry) : Panel where
  layout := b.layout
  geometry := g
  fbVaddr := b.fbVaddr
  fontRows := b.fontRows

/-- What the controller answers during `init`. -/
structure Answers where
  imgSize : UInt32
  srcStride : UInt32
  abl : UInt32
  now : UInt32
  con : UInt32
  running : Nat → UInt32
  trig : UInt32

def readActions (w : Answers) : List Action :=
  [.read .rdmaImgSize w.imgSize, .read .rdmaSrcStride0 w.srcStride]

/-- `init`, once the geometry is accepted. -/
def drawActions (p : Panel) (w : Answers) : List Action :=
  clearScreen p ++ retargetScanout w.abl w.now ++ startDecon w.con w.running ++ present w.trig

/-- `screen` is there when fbcon is `ready`, or will be at the end of `todo`.  `batches` is
history: what `drain_ring` found since then. -/
structure State where
  screen : Option (Panel × Screen)
  todo : List Action
  display : Display
  batches : List (List UInt8)

def init (b : Build) (w : Answers) (d : Display) : State :=
  match readGeometry b.layout w.imgSize w.srcStride with
  | .error _ => { screen := none, todo := readActions w, display := d, batches := [] }
  | .ok g =>
    { screen := some (b.panel g, g.screen)
      todo := readActions w ++ drawActions (b.panel g) w
      display := d
      batches := [] }

/-- `notified`, with the bytes that `drain_ring` finds. -/
def notified (ch : Nat) (batch : List UInt8) (trig : UInt32) (st : State) : State :=
  if ch ≠ tracerCh then st
  else match st.screen with
    | none => st
    | some (p, s) =>
      { st with
        screen := some (p, s.notified batch)
        todo := if batch = [] then [] else render p (batch.foldl Screen.put s) trig
        batches := st.batches ++ [batch] }

/-- One action of fbcon, or the cache's own doing between two of them. -/
inductive Moves : State → State → Prop
  | act {st : State} {a : Action} {rest : List Action} (h : st.todo = a :: rest) :
      Moves st { st with todo := rest, display := perform st.display a }
  | writeBack {st : State} (upTo : UInt64 → Nat) :
      Moves st { st with display :=
        { st.display with buffer := st.display.buffer.writeBack upTo } }

/-- A handler runs to its end before the next one. -/
inductive Reachable (b : Build) : State → Prop
  | init (w : Answers) (d : Display) : Reachable b (init b w d)
  | moves {st st' : State} (h : Reachable b st) (hmove : Moves st st') : Reachable b st'
  | notified {st : State} (h : Reachable b st) (hidle : st.todo = []) (ch : Nat)
      (batch : List UInt8) (trig : UInt32) : Reachable b (notified ch batch trig st)

/-! ## What a list of actions does -/

/-- Reads and writes of registers. -/
def Action.OnRegs : Action → Prop
  | .read _ _ => True
  | .write _ _ => True
  | _ => False

section

variable {d : Display} {as : List Action} {ws : List Pixel} {range : UInt64 × UInt64} {a : UInt64}

theorem after_append (d : Display) (as bs : List Action) :
    after d (as ++ bs) = after (after d as) bs := List.foldl_append

theorem after_buffer (h : ∀ x ∈ as, x.OnRegs) : (after d as).buffer = d.buffer := by
  induction as generalizing d with
  | nil => rfl
  | cons x as ih =>
    have hrest := ih (d := perform d x) fun y hy => h y (List.mem_cons_of_mem x hy)
    cases x with
    | read reg val => exact hrest
    | write reg val => exact hrest
    | store w | clean range | dsb => exact (h _ List.mem_cons_self).elim

theorem after_regs {reg : Reg} (h : ∀ val, .write reg val ∉ as) :
    (after d as).regs reg = d.regs reg := by
  induction as generalizing d with
  | nil => rfl
  | cons x as ih =>
    have hrest := ih (d := perform d x) fun val hmem => h val (List.mem_cons_of_mem x hmem)
    refine hrest.trans ?_
    cases x with
    | write reg' val =>
      have hne : reg ≠ reg' := fun heq => h val (heq ▸ List.mem_cons_self)
      exact Function.update_of_ne hne val d.regs
    | store w | clean range | dsb | read reg' val => rfl

theorem cpu_stores (ws : List Pixel) :
    (after d (stores ws)).buffer.cpu = paint d.buffer.cpu ws := by
  induction ws generalizing d with
  | nil => rfl
  | cons w ws ih =>
    refine (ih (d := perform d (.store w))).trans ?_
    exact congrArg (paint · ws) (Cached.cpu_store d.buffer w.addr w.color)

theorem cleaned_stores (h : d.buffer.Cleaned a) (hother : ∀ w ∈ ws, w.addr ≠ a) :
    (after d (stores ws)).buffer.Cleaned a := by
  induction ws generalizing d with
  | nil => exact h
  | cons w ws ih =>
    have hne : a ≠ w.addr := (hother w List.mem_cons_self).symm
    exact ih (d := perform d (.store w)) (h.store hne w.color)
      fun w' hw' => hother w' (List.mem_cons_of_mem w hw')

/-- Stores, and a clean of the range that they are in. -/
theorem cleaned_block (hin : ∀ w ∈ ws, InRange range w.addr)
    (h : InRange range a ∨ d.buffer.Cleaned a) :
    (after d (stores ws ++ [.clean range])).buffer.Cleaned a := by
  rw [after_append]
  by_cases hrange : InRange range a
  · exact Cached.cleaned_of_clean (decide_eq_true hrange)
  · have hother : ∀ w ∈ ws, w.addr ≠ a := fun w hw heq => hrange (heq ▸ hin w hw)
    exact (cleaned_stores (h.resolve_left hrange) hother).clean _

theorem cpu_block (ws : List Pixel) (range : UInt64 × UInt64) :
    (after d (stores ws ++ [.clean range])).buffer.cpu = paint d.buffer.cpu ws := by
  rw [after_append]
  exact cpu_stores ws

end

/-! ## What is drawn -/

/-- The framebuffer is mapped below the end of the address space. -/
def Mapped (p : Panel) : Prop := p.fbVaddr.toNat + fbconFbSize < 2 ^ 64

section

variable {p : Panel} {s : Screen} {d : Display} {x y : Nat} {r : UInt32} {a : UInt64}

theorem toNat_pixelAt (h : p.Sound) (hmapped : Mapped p) (hx : x < p.geometry.width.toNat)
    (hy : y < p.geometry.height.toNat) :
    (p.pixelAt x y).toNat = p.fbVaddr.toNat + (y * p.geometry.stride.toNat + 4 * x) := by
  have hoffset := h.offset hx hy
  unfold Mapped at hmapped
  have hsmall : (UInt64.ofNat (y * p.geometry.stride.toNat + 4 * x)).toNat =
      y * p.geometry.stride.toNat + 4 * x :=
    UInt64.toNat_ofNat_of_lt' (by change _ < 2 ^ 64; omega)
  rw [Panel.pixelAt, UInt64.toNat_add, hsmall]
  exact Nat.mod_eq_of_lt (by omega)

/-- The pixels of some rows are in the range that `clean_rows` cleans. -/
theorem inRange_cleanRows (h : p.Sound) (hmapped : Mapped p) {firstY count : UInt32}
    (hend : firstY.toNat + count.toNat ≤ p.geometry.height.toNat)
    (hx : x < p.geometry.width.toNat) (hlow : firstY.toNat ≤ y)
    (hhigh : y < firstY.toNat + count.toNat) :
    InRange (p.cleanRows firstY count) (p.pixelAt x y) := by
  have hsize := h.size
  have hrow := h.rowBytes
  have hall := Nat.mul_le_mul_right p.geometry.stride.toNat hend
  have hbelow := Nat.mul_le_mul_right p.geometry.stride.toNat hlow
  have habove := Nat.mul_le_mul_right p.geometry.stride.toNat (Nat.succ_le_of_lt hhigh)
  have hpixel := toNat_pixelAt (y := y) h hmapped hx (by omega)
  have hsplit := Nat.add_mul firstY.toNat count.toNat p.geometry.stride.toNat
  rw [Nat.succ_mul] at habove
  unfold Mapped at hmapped
  have hstart : (p.pixelRow firstY).toNat =
      p.fbVaddr.toNat + firstY.toNat * p.geometry.stride.toNat := by
    rw [Panel.pixelRow, UInt64.toNat_add, UInt64.toNat_mul, UInt32.toNat_toUInt64,
      UInt32.toNat_toUInt64]
    rw [Nat.mod_eq_of_lt (a := firstY.toNat * _) (by omega)]
    exact Nat.mod_eq_of_lt (by omega)
  have hstop : (p.cleanRows firstY count).2.toNat = p.fbVaddr.toNat +
      (firstY.toNat * p.geometry.stride.toNat + count.toNat * p.geometry.stride.toNat) := by
    rw [Panel.cleanRows, UInt64.toNat_add, hstart, UInt64.toNat_mul, UInt32.toNat_toUInt64,
      UInt32.toNat_toUInt64]
    rw [Nat.mod_eq_of_lt (a := count.toNat * _) (by omega)]
    rw [Nat.mod_eq_of_lt (by omega), Nat.add_assoc]
  constructor
  · rw [UInt64.le_iff_toNat_le, hpixel]
    exact hstart.le.trans (by omega)
  · rw [UInt64.lt_iff_toNat_lt, hpixel, hstop]
    omega

/-- Where the pixels of a cell are. -/
theorem addr_drawGlyph (h : p.Sound) {col row : UInt32} {ch : UInt8} {w : Pixel}
    (hcol : col < p.geometry.cols) (hrow : row < p.geometry.rows)
    (hw : w ∈ p.drawGlyph col row ch []) : ∃ x y, w.addr = p.pixelAt x y ∧
      x < p.geometry.width.toNat ∧ y < p.geometry.height.toNat ∧
      p.layout.marginTop.toNat + row.toNat * p.layout.cellH.toNat ≤ y ∧
      y < p.layout.marginTop.toNat + row.toNat * p.layout.cellH.toNat + p.layout.cellH.toNat := by
  obtain ⟨gy, hgy, sy, hsy, gx, hgx, sx, hsx, rfl⟩ :=
    ((h.mem_drawGlyph hcol hrow).mp hw).resolve_left List.not_mem_nil
  have hx := h.cellX_lt hcol hgx hsx
  have hy := h.cellY_lt hrow hgy hsy
  have hdot := dot_lt h.cellH hgy hsy
  refine ⟨_, _, rfl, by omega, by omega, ?_⟩
  unfold Panel.cellY cellPos
  omega

theorem inRange_rowRange (h : p.Sound) (hmapped : Mapped p) {col row : UInt32} {ch : UInt8}
    {w : Pixel} (hcol : col < p.geometry.cols) (hrow : row < p.geometry.rows)
    (hw : w ∈ p.drawGlyph col row ch []) : InRange (p.rowRange row) w.addr := by
  obtain ⟨x, y, haddr, hx, -, hlow, hhigh⟩ := addr_drawGlyph h hcol hrow hw
  have hrows := h.rows
  have hheight := p.geometry.height.toNat_lt
  have hcell := Nat.mul_le_mul_right p.layout.cellH.toNat
    (show row.toNat + 1 ≤ p.geometry.rows.toNat from UInt32.lt_iff_toNat_lt.mp hrow)
  rw [Nat.add_mul, Nat.one_mul] at hcell
  have hfirst : (p.layout.marginTop + row * p.layout.cellH).toNat =
      p.layout.marginTop.toNat + row.toNat * p.layout.cellH.toNat := by
    rw [UInt32.toNat_add, UInt32.toNat_mul, Nat.mod_eq_of_lt (a := row.toNat * _) (by omega)]
    exact Nat.mod_eq_of_lt (by omega)
  rw [haddr]
  apply inRange_cleanRows h hmapped _ hx
  · omega
  · omega
  · omega

theorem inRange_clearRange (h : p.Sound) (hmapped : Mapped p) {col row : UInt32} {ch : UInt8}
    {w : Pixel} (hcol : col < p.geometry.cols) (hrow : row < p.geometry.rows)
    (hw : w ∈ p.drawGlyph col row ch []) : InRange p.clearRange w.addr := by
  obtain ⟨x, y, haddr, hx, hy, -⟩ := addr_drawGlyph h hcol hrow hw
  rw [haddr]
  exact inRange_cleanRows h hmapped (Nat.zero_add _).le hx (Nat.zero_le y) (by
    rw [UInt32.toNat_zero]
    omega)

theorem inRange_clearPixels (h : p.Sound) (hmapped : Mapped p) {w : Pixel}
    (hw : w ∈ p.clearPixels []) : InRange p.clearRange w.addr := by
  obtain ⟨y, hy, x, hx, rfl⟩ := (Panel.mem_clearPixels.mp hw).resolve_left List.not_mem_nil
  have hy' := UInt32.lt_iff_toNat_lt.mp hy
  have haddr : p.pixelRow y + 4 * x.toUInt64 = p.pixelAt x.toNat y.toNat := by
    rw [Panel.toUInt64_eq, ← Panel.pixelRow_add, UInt64.ofNat_mul]
    rfl
  rw [haddr]
  exact inRange_cleanRows h hmapped (Nat.zero_add _).le (UInt32.lt_iff_toNat_lt.mp hx)
    (Nat.zero_le _) (by
      rw [UInt32.toNat_zero]
      omega)

theorem paint_append (m : UInt64 → UInt32) (ws ws' : List Pixel) :
    paint m (ws ++ ws') = paint (paint m ws) ws' := List.foldl_append

/-- The pixels of a row are those of its glyphs. -/
theorem paint_rowPixels (m : UInt64 → UInt32) (p : Panel) (s : Screen) (r : UInt32) :
    paint m (rowPixels p s r) = forRange 0 s.cols (fun c => p.paintGlyph c r (s.grid r c)) m :=
  forRange_sim (fun _ ws m' => paint m ws = m')
    (fun c pixels => pixels ++ p.drawGlyph c r (s.grid r c) [])
    (fun c => p.paintGlyph c r (s.grid r c)) (UInt32.zero_le (a := s.cols)) rfl
    fun c ws m' _ _ hm => by rw [paint_append, hm, Panel.paintGlyph]

theorem inRange_rowPixels (h : p.Sound) (hmapped : Mapped p) (hcols : s.cols = p.geometry.cols)
    (hr : r < p.geometry.rows) {w : Pixel} (hw : w ∈ rowPixels p s r) :
    InRange (p.rowRange r) w.addr := by
  have hmem : w ∈ rowPixels p s r ↔
      w ∈ [] ∨ ∃ c < s.cols, w ∈ p.drawGlyph c r (s.grid r c) [] :=
    mem_forRange fun c pixels _ => List.mem_append
  obtain ⟨c, hc, hglyph⟩ := (hmem.mp hw).resolve_left List.not_mem_nil
  exact inRange_rowRange h hmapped (hcols ▸ hc) hr hglyph

/-- A render draws the rows that are dirty, or all of them, and cleans what it draws. -/
theorem after_drawRows (h : p.Sound) (hmapped : Mapped p) (hrows : s.rows = p.geometry.rows)
    (hcols : s.cols = p.geometry.cols) (d : Display) :
    (after d (drawRows p s)).buffer.cpu =
        p.paintRows (fun r => s.scrolled || s.dirty r) s.grid d.buffer.cpu ∧
      ∀ a, d.buffer.Cleaned a → (after d (drawRows p s)).buffer.Cleaned a := by
  have hsim := forRange_sim (s := []) (t := d.buffer.cpu)
    (fun _ as m => (after d as).buffer.cpu = m ∧
      ∀ a, d.buffer.Cleaned a → (after d as).buffer.Cleaned a)
    (fun r as => if s.scrolled || s.dirty r then as ++ drawRow p s r else as)
    (fun r m => if s.scrolled || s.dirty r then
      forRange 0 p.geometry.cols (fun c => p.paintGlyph c r (s.grid r c)) m else m)
    (UInt32.zero_le (a := p.geometry.rows)) ⟨rfl, fun _ hclean => hclean⟩ (by
      rintro r as m - hr ⟨hcpu, hcleaned⟩
      by_cases hpick : (s.scrolled || s.dirty r) = true
      · rw [if_pos hpick, if_pos hpick, after_append]
        constructor
        · rw [drawRow, cpu_block, hcpu, paint_rowPixels, hcols]
        · intro a ha
          exact cleaned_block (fun w hw => inRange_rowPixels h hmapped hcols hr hw)
            (.inr (hcleaned a ha))
      · rw [if_neg hpick, if_neg hpick]
        exact ⟨hcpu, hcleaned⟩)
  rw [← hrows] at hsim
  unfold drawRows Panel.paintRows
  rw [← hrows]
  exact hsim

end

/-! ## What the controller finds -/

/-- The processor has drawn the grid and cleaned it, and the controller reads this buffer. -/
structure Drawn (p : Panel) (s : Screen) (d : Display) : Prop where
  cleaned : ∀ a, InRange p.clearRange a → d.buffer.Cleaned a
  pictures : p.Pictures d.buffer.cpu s.grid
  base : d.regs .rdmaBaseaddrP0 = fbconFbPhys

/-- Up to the barrier of `present`, and from there on. -/
inductive Stage (p : Panel) (s : Screen) (d : Display) : List Action → Prop
  | drawing (body : List Action) (trig : UInt32) (htrig : ∀ val, .write .deconTrigCon val ∉ body)
      (h : Drawn p s (after d body)) : Stage p s d (body ++ .dsb :: trigger trig)
  | shown (todo : List Action) (trig : UInt32) (hsuffix : todo <:+ trigger trig) (h : Drawn p s d)
      (hsettled : ∀ a, InRange p.clearRange a → d.buffer.Settled a) : Stage p s d todo

section

variable {p : Panel} {s : Screen} {d : Display} {todo rest : List Action} {x : Action}

theorem mem_trigger {trig : UInt32} (h : x ∈ trigger trig) :
    ∃ reg val, x = .write reg val ∧ reg ≠ .rdmaBaseaddrP0 := by
  rcases List.mem_pair.mp h with rfl | rfl
  · exact ⟨_, _, rfl, by simp⟩
  · exact ⟨_, _, rfl, by simp⟩

theorem Stage.act (h : Stage p s d todo) (htodo : todo = x :: rest) :
    Stage p s (perform d x) rest := by
  cases h with
  | drawing body trig htrig hdrawn =>
    cases body with
    | nil =>
      obtain ⟨rfl, rfl⟩ := List.cons.inj htodo
      refine .shown _ trig List.suffix_rfl ⟨?_, hdrawn.pictures, hdrawn.base⟩ ?_
      · exact fun a ha => (hdrawn.cleaned a ha).barrier
      · exact fun a ha => (hdrawn.cleaned a ha).settled
    | cons y body =>
      obtain ⟨rfl, rfl⟩ := List.cons.inj htodo
      exact .drawing body trig (fun val hval => htrig val (List.mem_cons_of_mem _ hval)) hdrawn
  | shown todo trig hsuffix hdrawn hsettled =>
    rw [htodo] at hsuffix
    obtain ⟨reg, val, rfl, hreg⟩ := mem_trigger (hsuffix.subset List.mem_cons_self)
    refine .shown rest trig ((List.suffix_cons _ rest).trans hsuffix)
      ⟨hdrawn.cleaned, hdrawn.pictures, ?_⟩ hsettled
    exact (Function.update_of_ne hreg.symm val d.regs).trans hdrawn.base

/-- Actions do the same whatever the cache has written back. -/
theorem after_alike (d' : Display) (hbuffer : Cached.Alike d.buffer d'.buffer)
    (hregs : d'.regs = d.regs) (as : List Action) :
    Cached.Alike (after d as).buffer (after d' as).buffer ∧
      (after d' as).regs = (after d as).regs := by
  induction as generalizing d d' with
  | nil => exact ⟨hbuffer, hregs⟩
  | cons x as ih =>
    cases x with
    | store w => exact ih (d := perform d (.store w)) _ (hbuffer.store w.addr w.color) hregs
    | clean range => exact ih (d := perform d (.clean range)) _ (hbuffer.clean _) hregs
    | dsb => exact ih (d := perform d .dsb) _ hbuffer.barrier hregs
    | read reg val => exact ih d' hbuffer hregs
    | write reg val =>
      exact ih (d := perform d (.write reg val)) (perform d' (.write reg val)) hbuffer
        (congrArg (fun regs : Reg → UInt32 => Function.update regs reg val) hregs)

theorem Drawn.alike {d' : Display} (h : Drawn p s d) (hbuffer : Cached.Alike d.buffer d'.buffer)
    (hregs : d'.regs = d.regs) : Drawn p s d' := by
  refine ⟨fun a ha => hbuffer.cleaned_of (h.cleaned a ha), ?_, ?_⟩
  · rw [hbuffer.cpu]
    exact h.pictures
  · rw [hregs]
    exact h.base

theorem Stage.writeBack (h : Stage p s d todo) (upTo : UInt64 → Nat) :
    Stage p s { d with buffer := d.buffer.writeBack upTo } todo := by
  have halike := Cached.writeBack_alike d.buffer upTo
  cases h with
  | drawing body trig htrig hdrawn =>
    obtain ⟨hbuffer, hregs⟩ :=
      after_alike { d with buffer := d.buffer.writeBack upTo } halike rfl body
    exact .drawing body trig htrig (hdrawn.alike hbuffer hregs)
  | shown todo trig hsuffix hdrawn hsettled =>
    refine .shown todo trig hsuffix (hdrawn.alike halike rfl) ?_
    exact fun a ha => (hsettled a ha).writeBack upTo

/-- Idle, or about to trigger a frame. -/
theorem Stage.settled (h : Stage p s d todo)
    (htodo : todo = [] ∨ ∃ val rest, todo = .write .deconTrigCon val :: rest) :
    Drawn p s d ∧ ∀ a, InRange p.clearRange a → d.buffer.Settled a := by
  cases h with
  | drawing body trig htrig hdrawn =>
    rcases htodo with hnil | ⟨val, rest, hcons⟩
    · simp at hnil
    · cases body with
      | nil => cases hcons
      | cons y body =>
        obtain ⟨rfl, -⟩ := List.cons.inj hcons
        exact absurd List.mem_cons_self (htrig val)
  | shown todo trig hsuffix hdrawn hsettled => exact ⟨hdrawn, hsettled⟩

theorem not_write_drawRows (p : Panel) (s : Screen) (reg : Reg) (val : UInt32) :
    .write reg val ∉ drawRows p s := by
  refine forRange_induction (I := fun as => Action.write reg val ∉ as) List.not_mem_nil ?_
  intro r as _ _ has
  split
  · simp [drawRow, stores, has]
  · exact has

/-- `notified`, when there is something to draw. -/
theorem render_stage (h : p.Sound) (hmapped : Mapped p) (hrows : s.rows = p.geometry.rows)
    (hcols : s.cols = p.geometry.cols) (hdrawn : Drawn p s d) {batch : List UInt8}
    (hany : batch ≠ []) (trig : UInt32) :
    Stage p (s.notified batch) d (render p (batch.foldl Screen.put s) trig) := by
  have hedits := s.foldl_put_edits batch
  rw [Screen.notified, if_neg hany]
  generalize batch.foldl Screen.put s = t at hedits
  obtain ⟨hcpu, hcleaned⟩ :=
    after_drawRows h hmapped (hedits.rows.trans hrows) (hedits.cols.trans hcols) d
  have hsplit : render p t trig =
      (drawRows p t ++ [.read .deconTrigCon trig]) ++ .dsb :: trigger trig := by
    rw [render, present, List.append_assoc]
    rfl
  have hregs : (after d (drawRows p t)).regs .rdmaBaseaddrP0 = fbconFbPhys :=
    (after_regs fun val => not_write_drawRows p t _ val).trans hdrawn.base
  rw [hsplit]
  refine .drawing _ trig ?_ ⟨?_, ?_, ?_⟩
  · intro val hval
    rcases List.mem_append.mp hval with hval | hval
    · exact not_write_drawRows p t _ val hval
    · cases List.mem_singleton.mp hval
  · rw [after_append]
    exact fun a ha => hcleaned a (hdrawn.cleaned a ha)
  · rw [after_append]
    show p.Pictures (after d (drawRows p t)).buffer.cpu t.render.grid
    rw [hcpu, t.render_grid]
    exact h.paintRows_pictures (hedits.showsGlyph hdrawn.pictures)
  · rw [after_append]
    exact hregs

theorem reads_awaitRunning (con : Nat → UInt32) (spins : Nat) :
    ∀ x ∈ awaitRunning con spins, ∃ val, x = .read .deconGlobalCon val := by
  induction spins with
  | zero =>
    intro x hx
    exact ⟨_, List.mem_singleton.mp hx⟩
  | succ spins ih =>
    intro x hx
    unfold awaitRunning at hx
    rcases List.mem_cons.mp hx with rfl | hx
    · exact ⟨_, rfl⟩
    · split at hx
      · exact absurd hx List.not_mem_nil
      · exact ih x hx

/-- The registers that `start_decon` writes. -/
theorem mem_startDecon {con : UInt32} {running : Nat → UInt32} (hx : x ∈ startDecon con running) :
    (∃ reg val, x = .read reg val) ∨
      ∃ reg val, x = .write reg val ∧ reg ≠ .rdmaBaseaddrP0 ∧ reg ≠ .deconTrigCon := by
  rcases List.mem_append.mp hx with hx | hx
  · simp only [List.mem_cons, List.not_mem_nil, or_false] at hx
    rcases hx with rfl | rfl | rfl
    · exact .inl ⟨_, _, rfl⟩
    · exact .inr ⟨_, _, rfl, by simp⟩
    · exact .inr ⟨_, _, rfl, by simp⟩
  · obtain ⟨val, rfl⟩ := reads_awaitRunning _ _ x hx
    exact .inl ⟨_, _, rfl⟩

theorem init_stage {g : Geometry} (h : p.Sound) (hmapped : Mapped p) (hg : p.geometry = g)
    (hblank : ∀ gy < p.layout.fontH, ∀ gx < p.layout.fontW, p.glyphColor 0x20 gy gx = bg)
    (w : Answers) : Stage p g.screen d (readActions w ++ drawActions p w) := by
  subst hg
  have hsplit : readActions w ++ drawActions p w =
      (readActions w ++ (clearScreen p ++ (retargetScanout w.abl w.now ++
        (startDecon w.con w.running ++ [.read .deconTrigCon w.trig])))) ++
          .dsb :: trigger w.trig := by
    simp only [drawActions, present, List.append_assoc]
    rfl
  have hreads : ∀ x ∈ readActions w, ∃ reg val, x = .read reg val := by
    intro x hx
    rcases List.mem_pair.mp hx with rfl | rfl <;> exact ⟨_, _, rfl⟩
  have hrest : ∀ x ∈ startDecon w.con w.running ++ [.read .deconTrigCon w.trig],
      (∃ reg val, x = .read reg val) ∨
        ∃ reg val, x = .write reg val ∧ reg ≠ .rdmaBaseaddrP0 ∧ reg ≠ .deconTrigCon := by
    intro x hx
    rcases List.mem_append.mp hx with hx | hx
    · exact mem_startDecon hx
    · exact .inl ⟨_, _, List.mem_singleton.mp hx⟩
  have hregs : ∀ x ∈ retargetScanout w.abl w.now ++
      (startDecon w.con w.running ++ [.read .deconTrigCon w.trig]), x.OnRegs := by
    intro x hx
    rcases List.mem_append.mp hx with hx | hx
    · simp only [retargetScanout, List.mem_cons, List.not_mem_nil, or_false] at hx
      rcases hx with rfl | rfl | rfl <;> trivial
    · rcases hrest x hx with ⟨_, _, rfl⟩ | ⟨_, _, rfl, -⟩ <;> trivial
  rw [hsplit]
  refine .drawing _ w.trig ?_ ⟨?_, ?_, ?_⟩
  · intro val hval
    rcases List.mem_append.mp hval with hval | hval
    · obtain ⟨_, _, heq⟩ := hreads _ hval
      cases heq
    rcases List.mem_append.mp hval with hval | hval
    · simp [clearScreen, stores] at hval
    rcases List.mem_append.mp hval with hval | hval
    · simp [retargetScanout] at hval
    · rcases hrest _ hval with ⟨_, _, heq⟩ | ⟨_, _, heq, -, hne⟩
      · cases heq
      · cases heq
        exact hne rfl
  · intro a ha
    rw [after_append, after_append, after_buffer hregs]
    exact cleaned_block (fun w hw => inRange_clearPixels h hmapped hw) (.inl ha)
  · rw [after_append, after_append, after_buffer hregs, clearScreen, cpu_block]
    exact h.clear_pictures hblank
  · rw [after_append, after_append, after_append, after_regs]
    · simp [after, retargetScanout, perform]
    · intro val hval
      rcases hrest _ hval with ⟨_, _, heq⟩ | ⟨_, _, heq, hne, -⟩
      · cases heq
      · cases heq
        exact hne rfl

end

/-! ## Whole runs -/

/-- The panel is the build's, with a geometry that `read_geometry` accepts, and the screen is
what the bytes up to now make of an empty one. -/
structure Installed (b : Build) (st : State) (p : Panel) (s : Screen) : Prop where
  geometry : ∃ img srcStride, readGeometry b.layout img srcStride = .ok p.geometry
  panel : p = b.panel p.geometry
  screen : s = st.batches.foldl Screen.notified p.geometry.screen

inductive Inv (b : Build) (st : State) : Prop
  | refused (h : st.screen = none) (hreads : ∀ x ∈ st.todo, ∃ reg val, x = .read reg val)
  | ready (p : Panel) (s : Screen) (h : st.screen = some (p, s)) (hinstalled : Installed b st p s)
      (hstage : Stage p s st.display st.todo)

section

variable {b : Build} {st st' : State} {p : Panel} {s : Screen}

/-- A space is blank in the font. -/
def Build.BlankSpace (b : Build) : Prop :=
  ∀ g, ∀ gy < b.layout.fontH, ∀ gx < b.layout.fontW, (b.panel g).glyphColor 0x20 gy gx = bg

theorem Installed.sound (h : Installed b st p s) (hfits : b.layout.Fits) : p.Sound := by
  obtain ⟨img, srcStride, hg⟩ := h.geometry
  have hlayout : p.layout = b.layout := congrArg Panel.layout h.panel
  exact Panel.sound (readGeometry_checked (hlayout ▸ hg)) (hlayout ▸ hfits)

theorem Installed.mapped (h : Installed b st p s)
    (hmapped : b.fbVaddr.toNat + fbconFbSize < 2 ^ 64) : Mapped p := by
  have hvaddr : p.fbVaddr = b.fbVaddr := congrArg Panel.fbVaddr h.panel
  rw [Mapped, hvaddr]
  exact hmapped

theorem Installed.size (h : Installed b st p s) :
    s.rows = p.geometry.rows ∧ s.cols = p.geometry.cols := by
  have hclear := Screen.clearScreen_sameBut { cols := p.geometry.cols, rows := p.geometry.rows }
  rw [h.screen]
  induction st.batches using List.reverseRecOn with
  | nil => exact ⟨hclear.rows, hclear.cols⟩
  | append_singleton batches batch ih =>
    rw [List.foldl_append]
    obtain ⟨hrows, hcols⟩ := Screen.notified_size
      (batches.foldl Screen.notified p.geometry.screen) batch
    exact ⟨hrows.trans ih.1, hcols.trans ih.2⟩

theorem Inv.init (hfits : b.layout.Fits) (hmapped : b.fbVaddr.toNat + fbconFbSize < 2 ^ 64)
    (hblank : b.BlankSpace) (w : Answers) (d : Display) : Inv b (init b w d) := by
  unfold Scanout.init
  split
  · refine .refused rfl ?_
    intro x hx
    rcases List.mem_pair.mp hx with rfl | rfl <;> exact ⟨_, _, rfl⟩
  · next g hg =>
    have hinstalled : Installed b ⟨some (b.panel g, g.screen),
        readActions w ++ drawActions (b.panel g) w, d, []⟩ (b.panel g) g.screen :=
      ⟨⟨_, _, hg⟩, rfl, rfl⟩
    refine .ready _ _ rfl hinstalled ?_
    exact init_stage (hinstalled.sound hfits) (hinstalled.mapped hmapped) rfl (hblank g) w

theorem Inv.moves (h : Inv b st) (hmove : Moves st st') : Inv b st' := by
  cases h with
  | refused hscreen hreads =>
    cases hmove with
    | act htodo =>
      exact .refused hscreen fun x hx => hreads x (htodo ▸ List.mem_cons_of_mem _ hx)
    | writeBack upTo => exact .refused hscreen hreads
  | ready p s hscreen hinstalled hstage =>
    have hsame : Installed b st' p s := by
      cases hmove <;> exact ⟨hinstalled.geometry, hinstalled.panel, hinstalled.screen⟩
    cases hmove with
    | act htodo => exact .ready p s hscreen hsame (hstage.act htodo)
    | writeBack upTo => exact .ready p s hscreen hsame (hstage.writeBack upTo)

theorem Inv.notified (hfits : b.layout.Fits) (hmapped : b.fbVaddr.toNat + fbconFbSize < 2 ^ 64)
    (h : Inv b st) (hidle : st.todo = []) (ch : Nat) (batch : List UInt8) (trig : UInt32) :
    Inv b (notified ch batch trig st) := by
  unfold Scanout.notified
  by_cases hch : ch ≠ tracerCh
  · rw [if_pos hch]
    exact h
  rw [if_neg hch]
  cases h with
  | refused hscreen hreads =>
    rw [hscreen]
    exact .refused hscreen hreads
  | ready p s hscreen hinstalled hstage =>
    rw [hscreen]
    have hscreen' : s.notified batch =
        (st.batches ++ [batch]).foldl Screen.notified p.geometry.screen := by
      rw [List.foldl_append, ← hinstalled.screen]
      rfl
    refine .ready p _ rfl ⟨hinstalled.geometry, hinstalled.panel, hscreen'⟩ ?_
    rw [hidle] at hstage
    by_cases hany : batch = []
    · rw [hany]
      exact hstage
    · obtain ⟨hrows, hcols⟩ := hinstalled.size
      show Stage p _ st.display (if batch = [] then [] else _)
      rw [if_neg hany]
      exact render_stage (hinstalled.sound hfits) (hinstalled.mapped hmapped) hrows hcols
        (hstage.settled (.inl rfl)).1 hany trig

theorem inv_of_reachable (hfits : b.layout.Fits)
    (hmapped : b.fbVaddr.toNat + fbconFbSize < 2 ^ 64) (hblank : b.BlankSpace)
    (h : Reachable b st) : Inv b st := by
  induction h with
  | init w d => exact .init hfits hmapped hblank w d
  | moves _ hmove ih => exact ih.moves hmove
  | notified _ hidle ch batch trig ih => exact ih.notified hfits hmapped hidle ch batch trig

end

/-- Whenever fbcon triggers a frame, and whenever it waits, the controller is set to its buffer,
and memory shows the grid of all the bytes up to now, whatever the cache has done.  A geometry
that is refused leaves the buffer and the registers alone. -/
theorem controller_sees_grid {b : Build} (hfits : b.layout.Fits)
    (hmapped : b.fbVaddr.toNat + fbconFbSize < 2 ^ 64) (hblank : b.BlankSpace) {st : State}
    (h : Reachable b st) :
    match st.screen with
    | none => ∀ x ∈ st.todo, ∃ reg val, x = .read reg val
    | some (p, s) => Installed b st p s ∧
      ((st.todo = [] ∨ ∃ val rest, st.todo = .write .deconTrigCon val :: rest) →
        st.display.regs .rdmaBaseaddrP0 = fbconFbPhys ∧
        (∀ a, InRange p.clearRange a → st.display.buffer.mem a = st.display.buffer.cpu a) ∧
        p.Pictures st.display.buffer.mem s.grid) := by
  cases inv_of_reachable hfits hmapped hblank h with
  | refused hscreen hreads =>
    rw [hscreen]
    exact hreads
  | ready p s hscreen hinstalled hstage =>
    rw [hscreen]
    refine ⟨hinstalled, fun htodo => ?_⟩
    obtain ⟨hdrawn, hsettled⟩ := hstage.settled htodo
    have hmem : ∀ a, InRange p.clearRange a →
        st.display.buffer.mem a = st.display.buffer.cpu a := fun a ha => (hsettled a ha).mem_eq
    refine ⟨hdrawn.base, hmem, ?_⟩
    intro row hrow col hcol w hw
    rw [hmem _ (inRange_clearRange (hinstalled.sound hfits) (hinstalled.mapped hmapped) hcol hrow
      hw)]
    exact hdrawn.pictures row hrow col hcol w hw

/-! ## A panel of two dots -/

theorem dotsCell_pos : (0 : UInt32) < 1 * 1 := by decide

/-- A font of one dot, without margins. -/
def dotsLayout : Layout where
  fontW := 1
  fontH := 1
  scale := 1
  marginTop := 0
  marginBottom := 0
  marginSide := 0
  cellW_pos := dotsCell_pos
  cellH_pos := dotsCell_pos

def dotsBuild : Build where
  layout := dotsLayout
  fbVaddr := 0x10000000
  fontRows := fun c _ => if c = 0 then 0 else 1

/-- A panel of two pixels in one row. -/
def dotsAnswers : Answers where
  imgSize := 0x00010002
  srcStride := 8
  abl := 0
  now := fbconFbPhys
  con := 0
  running := fun _ => globalConRunStatus
  trig := 0

/-- fbcon does what it has to do, and nothing is written back by itself. -/
theorem Reachable.finish {b : Build} {st : State} (h : Reachable b st) :
    Reachable b { st with todo := [], display := after st.display st.todo } := by
  obtain ⟨screen, todo, display, batches⟩ := st
  induction todo generalizing display with
  | nil => exact h
  | cons x rest ih => exact ih (perform display x) (h.moves (.act rfl))

/-- An `a` and a space. -/
theorem controller_sees_grid_dots : ∃ st, Reachable dotsBuild st ∧ st.todo = [] ∧
    st.batches = [[0x61], [0x20]] ∧ st.display.regs .rdmaBaseaddrP0 = fbconFbPhys ∧
    st.display.buffer.mem 0x10000000 = fg ∧ st.display.buffer.mem 0x10000004 = bg := by
  have hfits : dotsLayout.Fits := by constructor <;> decide
  have hblank : dotsBuild.BlankSpace := by
    intro g gy _ gx _
    simp [Panel.glyphColor, Panel.glyphOf, Build.panel, dotsBuild]
  have hstart := (Reachable.init (b := dotsBuild) dotsAnswers
    { buffer := Cached.start fun _ => 0, regs := fun _ => 0 }).finish
  have hfirst := (hstart.notified rfl tracerCh [0x61] 0).finish
  have hsecond := (hfirst.notified rfl tracerCh [0x20] 0).finish
  obtain ⟨-, hsees⟩ := controller_sees_grid hfits (by decide) hblank hsecond
  obtain ⟨hbase, -, hpictures⟩ := hsees (.inl rfl)
  refine ⟨_, hsecond, rfl, rfl, hbase, ?_, ?_⟩
  · exact hpictures 0 (by decide) 0 (by decide) _ List.mem_cons_self
  · exact hpictures 0 (by decide) 1 (by decide) _ List.mem_cons_self

end Scanout
end Fbcon
end TensorSel4
