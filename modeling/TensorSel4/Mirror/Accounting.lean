/-
The bytes that the panel misses are counted.

fbcon sees the console's stream with each run of bytes that found no room replaced
by a report of its length.  The ring's capacity is no power of two, so its positions
must not wrap: the results are about fewer than 2^64 bytes through the ring.
-/
import TensorSel4.Automaton.Recorded
import TensorSel4.Mirror.Caught
import TensorSel4.RingBuffer.Window

namespace TensorSel4
namespace Mirror

open Bytes Console Fbcon RingBuffer Uartrx

/-! ## The stream with its gaps -/

/-- The report of a run of `n` bytes. -/
def gapReport (n : Nat) : List UInt8 :=
  ascii ("\n[fbcon dropped " ++ toString n ++ " bytes]\n")

/-- A stream whose bytes are marked, those that are stored with `true`: each maximal
run of the others is replaced by its report, but for one at the end.  `n` of them
came just before. -/
def annotated : Nat → List (UInt8 × Bool) → List UInt8
  | _, [] => []
  | n, (_, false) :: marked => annotated (n + 1) marked
  | 0, (c, true) :: marked => c :: annotated 0 marked
  | n + 1, (c, true) :: marked => gapReport (n + 1) ++ c :: annotated 0 marked

/-- The length of the run at the end. -/
def openRun : Nat → List (UInt8 × Bool) → Nat
  | n, [] => n
  | n, (_, false) :: marked => openRun (n + 1) marked
  | _, (_, true) :: marked => openRun 0 marked

/-- What is stored before the next byte, after `n` bytes that were not. -/
def owedReport (n : Nat) : List UInt8 := if n = 0 then [] else gapReport n

section

variable {n : Nat} {c : UInt8} {marked : List (UInt8 × Bool)}

theorem annotated_omitted : annotated n (marked ++ [(c, false)]) = annotated n marked := by
  induction marked generalizing n with
  | nil => rfl
  | cons m marked ih =>
    obtain ⟨d, kept⟩ := m
    cases kept with
    | false => exact ih
    | true =>
      cases n with
      | zero => exact congrArg (d :: ·) ih
      | succ n => exact congrArg (fun text => gapReport (n + 1) ++ d :: text) ih

theorem openRun_omitted : openRun n (marked ++ [(c, false)]) = openRun n marked + 1 := by
  induction marked generalizing n with
  | nil => rfl
  | cons m marked ih =>
    obtain ⟨d, kept⟩ := m
    cases kept with
    | false => exact ih
    | true => exact ih

theorem annotated_stored : annotated n (marked ++ [(c, true)]) =
    annotated n marked ++ owedReport (openRun n marked) ++ [c] := by
  induction marked generalizing n with
  | nil =>
    cases n with
    | zero => rfl
    | succ n => rfl
  | cons m marked ih =>
    obtain ⟨d, kept⟩ := m
    cases kept with
    | false => exact ih
    | true =>
      cases n with
      | zero => exact congrArg (d :: ·) ih
      | succ n =>
        show gapReport (n + 1) ++ d :: annotated 0 (marked ++ [(c, true)]) =
          gapReport (n + 1) ++ d :: annotated 0 marked ++ owedReport (openRun 0 marked) ++ [c]
        rw [ih]
        simp only [List.append_assoc, List.cons_append]

theorem openRun_stored : openRun n (marked ++ [(c, true)]) = 0 := by
  induction marked generalizing n with
  | nil => rfl
  | cons m marked ih =>
    obtain ⟨d, kept⟩ := m
    cases kept with
    | false => exact ih
    | true => exact ih

theorem openRun_le : openRun n marked ≤ n + (marked.map (·.2)).count false := by
  induction marked generalizing n with
  | nil => exact Nat.le_refl n
  | cons m marked ih =>
    obtain ⟨d, kept⟩ := m
    cases kept with
    | false =>
      have hrest := ih (n := n + 1)
      simp only [openRun, List.map_cons, List.count_cons_self]
      omega
    | true =>
      have hrest := ih (n := 0)
      simp only [openRun, List.map_cons]
      rw [List.count_cons_of_ne (by decide)]
      omega

end

/-- The tracer's report has the decimal digits of its count. -/
theorem reportDropped_eq (dropped : UInt64) : reportDropped dropped = gapReport dropped.toNat := by
  unfold reportDropped gapReport ascii
  rw [decimal_eq, String.toList_append, String.toList_append, List.map_append, List.map_append,
    Nat.toString_eq_repr, Nat.toList_repr]

/-! ## The history -/

structure History where
  /-- The bytes that `mirror_putc` was called with. -/
  given : List UInt8 := []
  /-- Of each call that is done with its byte, whether it stored it. -/
  kept : List Bool := []
  /-- What was put into the ring's slots. -/
  stored : List UInt8 := []
  /-- What fbcon took out of them. -/
  consumed : List UInt8 := []

def PutPc.stores : PutPc → List UInt8
  | .report _ _ (b :: _) => [b]
  | .store c _ => [c]
  | _ => []

def PutPc.keeps : PutPc → List Bool
  | .drop _ => [false]
  | .store _ _ => [true]
  | _ => []

def MirrorState.consumes (s : MirrorState) : List UInt8 :=
  match s.fbcon with
  | .put tail => [s.ring.buf (slot tail)]
  | _ => []

def record (s : MirrorState) : Act → History → History
  | .putc c, h => { h with given := h.given ++ [c] }
  | .tracer, h => { h with stored := h.stored ++ s.put.stores, kept := h.kept ++ s.put.keeps }
  | .fbcon, h => { h with consumed := h.consumed ++ s.consumes }
  | _, h => h

/-- The fbcon ring, with its history. -/
def recordedMirror (screen : Option Screen) : Automaton (MirrorState × History) Act :=
  (mirror screen).recorded record {}

/-- Each interleaving has its history. -/
theorem exists_history {screen : Option Screen} {s : MirrorState}
    (hs : (mirror screen).Reachable s) : ∃ h, (recordedMirror screen).Reachable (s, h) :=
  hs.recorded

namespace History

variable {h : History} {c : UInt8} {kept : Bool}

/-- The bytes that are done with, and whether they were stored. -/
def marked (h : History) : List (UInt8 × Bool) := h.given.zip h.kept

/-- The call with `c` is not done with it. -/
def Unfinished (h : History) (c : UInt8) : Prop :=
  ∃ done, h.given = done ++ [c] ∧ done.length = h.kept.length

theorem marked_given (hlen : h.given.length = h.kept.length) (c : UInt8) :
    ({ h with given := h.given ++ [c] } : History).marked = h.marked := by
  have hzip : (h.given ++ [c]).zip (h.kept ++ []) = _ := List.zip_append hlen
  rw [List.append_nil, List.zip_nil_right, List.append_nil] at hzip
  exact hzip

theorem Unfinished.marked (hc : h.Unfinished c) (kept : Bool) :
    h.given.length = (h.kept ++ [kept]).length ∧
      h.given.zip (h.kept ++ [kept]) = h.marked ++ [(c, kept)] := by
  obtain ⟨done, hgiven, hlen⟩ := hc
  have hbefore : h.marked = done.zip h.kept := by
    have hzip : (done ++ [c]).zip (h.kept ++ []) = _ := List.zip_append hlen
    rw [List.append_nil, List.zip_nil_right, List.append_nil] at hzip
    rw [History.marked, hgiven, hzip]
  rw [hbefore, hgiven, List.zip_append hlen, List.length_append, List.length_append, hlen]
  exact ⟨rfl, rfl⟩

theorem Unfinished.map_marked (hc : h.Unfinished c) : h.marked.map (·.2) = h.kept := by
  obtain ⟨done, hgiven, hlen⟩ := hc
  unfold History.marked
  rw [hgiven]
  exact List.map_snd_zip (by rw [List.length_append]; omega)

end History

/-! ## The books -/

/-- The ring holds the stream up to now, and `dropped` counts the run at its end. -/
structure Settled (head dropped : UInt64) (stored : List UInt8) (marked : List (UInt8 × Bool)) :
    Prop where
  head : head.toNat = stored.length
  stored : stored = annotated 0 marked
  dropped : dropped.toNat = openRun 0 marked

/-- Behind the ring's `head` the tracer is storing a report, up to its own `head`;
`text` is still to come. -/
structure Reporting (ringHead dropped head : UInt64) (text stored : List UInt8)
    (marked : List (UInt8 × Bool)) : Prop where
  head : head.toNat = stored.length
  ringHead : ringHead.toNat = (annotated 0 marked).length
  stored : stored ++ text = annotated 0 marked ++ owedReport (openRun 0 marked)
  dropped : dropped = 0

def Writing (ringHead dropped : UInt64) (h : History) : PutPc → Prop
  | .idle | .notify => h.given.length = h.kept.length ∧ Settled ringHead dropped h.stored h.marked
  | .loadHead c => h.Unfinished c ∧ Settled ringHead dropped h.stored h.marked
  | .checkReport c _ =>
    h.Unfinished c ∧ Settled ringHead dropped h.stored h.marked ∧ dropped ≠ 0
  | .report c head text =>
    h.Unfinished c ∧ Reporting ringHead dropped head text h.stored h.marked
  | .checkRoom c head | .store c head =>
    h.Unfinished c ∧ Reporting ringHead dropped head [] h.stored h.marked
  | .drop _ => (∃ c, h.Unfinished c) ∧ Settled ringHead dropped h.stored h.marked
  | .storeHead _ head => h.given.length = h.kept.length ∧ Settled head dropped h.stored h.marked

def Reading (ring : ConsoleRing) (h : History) : FbconPc → Prop
  | .waiting | .loadTail | .render => ring.tail.toNat = h.consumed.length
  | .loadHead tail _ | .storeTail tail _ => tail.toNat = h.consumed.length
  | .put tail => tail.toNat = h.consumed.length ∧ h.consumed.length < ring.head.toNat

structure Books (s : MirrorState) (h : History) : Prop where
  inv : s.Inv
  writing : Writing s.ring.head s.dropped h s.put
  reading : Reading s.ring h s.fbcon
  window : Window consoleRingCapacity s.ring.buf h.stored s.ring.tail.toNat
  head_le : s.ring.head.toNat ≤ h.stored.length
  tail_le : s.ring.tail.toNat ≤ h.consumed.length
  consumed_le : h.consumed.length ≤ s.ring.head.toNat
  consumed : h.consumed <+: h.stored

theorem books_start (screen : Option Screen) : Books { screen := screen } {} where
  inv := MirrorState.inv_start screen
  writing := ⟨rfl, rfl, rfl, rfl⟩
  reading := rfl
  window := Window.nil
  head_le := Nat.le_refl _
  tail_le := Nat.le_refl _
  consumed_le := Nat.le_refl _
  consumed := List.prefix_rfl

namespace Books

variable {s : MirrorState} {h : History}

/-- The room that the ring has left behind the tracer's `head`. -/
theorem room (hb : Books s h) {head : UInt64} {n : Nat} (hroom : Room s.ring head n)
    (hhead : head.toNat = h.stored.length) :
    h.stored.length + n ≤ s.ring.tail.toNat + consoleRingCapacity := by
  have hfits := hroom.fits
  have htail := hb.tail_le
  have hconsumed := hb.consumed_le
  have hle := hb.head_le
  rw [span, toNat_sub (by omega)] at hfits
  omega

/-- A byte goes into the slot behind the last one. -/
theorem store (hb : Books s h) {head : UInt64} {n : Nat} (hroom : Room s.ring head (n + 1))
    (hhead : head.toNat = h.stored.length) (b : UInt8) :
    Window consoleRingCapacity (Function.update s.ring.buf (slot head) b) (h.stored ++ [b])
      s.ring.tail.toNat := by
  have hfits := hb.room hroom hhead
  have hslot : slot head = h.stored.length % consoleRingCapacity := by rw [slot, hhead]
  have hpush := (hb.window.store (by omega) b).push
  rw [Function.update_self] at hpush
  rw [hslot]
  exact hpush

/-- What fbcon has taken is in the stream of the bytes that are done with. -/
theorem consumed_annotated (hb : Books s h) : h.consumed <+: annotated 0 h.marked := by
  have hw := hb.writing
  have hle := hb.consumed_le
  have hsettled : ∀ {head dropped : UInt64}, Settled head dropped h.stored h.marked →
      h.consumed <+: annotated 0 h.marked := fun hs => hs.stored ▸ hb.consumed
  have hreporting : ∀ {head : UInt64} {text : List UInt8},
      Reporting s.ring.head s.dropped head text h.stored h.marked →
        h.consumed <+: annotated 0 h.marked := by
    intro head text hr
    have hstored : h.consumed <+: h.stored ++ text := hb.consumed.trans (List.prefix_append _ _)
    rw [hr.stored] at hstored
    rw [hr.ringHead] at hle
    exact List.prefix_of_prefix_length_le hstored (List.prefix_append _ _) hle
  cases hput : s.put <;> rw [hput] at hw
  case idle | notify | loadHead | drop | storeHead => exact hsettled hw.2
  case checkReport => exact hsettled hw.2.1
  case report | checkRoom | store => exact hreporting hw.2

/-! ## The tracer -/

/-- A step of the tracer that leaves the ring alone. -/
theorem moves (hb : Books s h) {pc : PutPc} {dropped : UInt64} {kept : List Bool}
    (hinv : MirrorState.Inv { s with put := pc, dropped := dropped })
    (hw : Writing s.ring.head dropped { h with kept := kept } pc) :
    Books { s with put := pc, dropped := dropped } { h with kept := kept } :=
  { hb with inv := hinv, writing := hw }

/-- A step of the tracer that stores a byte. -/
theorem stores (hb : Books s h) {head : UInt64} {n : Nat} {b : UInt8} {pc : PutPc}
    {kept : List Bool} (hroom : Room s.ring head (n + 1)) (hhead : head.toNat = h.stored.length)
    (hinv : MirrorState.Inv { s.setByte head b with put := pc })
    (hw : Writing s.ring.head s.dropped { h with kept := kept, stored := h.stored ++ [b] } pc) :
    Books { s.setByte head b with put := pc }
      { h with kept := kept, stored := h.stored ++ [b] } where
  inv := hinv
  writing := hw
  reading := hb.reading
  window := hb.store hroom hhead b
  head_le := by
    have hle := hb.head_le
    show s.ring.head.toNat ≤ (h.stored ++ [b]).length
    rw [List.length_append]
    omega
  tail_le := hb.tail_le
  consumed_le := hb.consumed_le
  consumed := hb.consumed.trans (List.prefix_append _ _)

end Books

theorem owedReport_eq_nil {n : Nat} (h : owedReport n = []) : n = 0 := by
  by_contra hn
  have hlen := congrArg List.length h
  rw [owedReport, if_neg hn, gapReport, ascii, List.length_map, String.toList_append,
    String.toList_append, List.length_append, List.length_append] at hlen
  simp at hlen

namespace Books

variable {s : MirrorState} {h : History}

/-- A byte is dropped, and counted. -/
theorem drops (hb : Books s h) {head : UInt64} (hput : s.put = .drop head)
    (hdrops : (h.kept ++ [false]).count false < 2 ^ 64) :
    Books s.putStep { h with kept := h.kept ++ [false] } := by
  have hw := hb.writing
  have hinv := hb.inv.putStep
  have hhead : head = s.ring.head := by
    have hp := hb.inv.putting
    rw [hput] at hp
    exact hp
  rw [hput] at hw
  obtain ⟨⟨c, hc⟩, hs⟩ := hw
  obtain ⟨hlen, hmarked⟩ := hc.marked false
  have hrun : openRun 0 h.marked ≤ 0 + (h.marked.map (·.2)).count false := openRun_le
  rw [hc.map_marked] at hrun
  rw [List.count_append, List.count_singleton_self] at hdrops
  have hdropped := hs.dropped
  unfold MirrorState.putStep at hinv ⊢
  rw [hput] at hinv ⊢
  subst hhead
  refine hb.moves hinv ⟨hlen, hs.head, ?_, ?_⟩
  · show h.stored = annotated 0 (h.given.zip _)
    rw [hmarked, annotated_omitted]
    exact hs.stored
  · show (s.dropped + 1).toNat = openRun 0 (h.given.zip _)
    rw [hmarked, openRun_omitted, toNat_succ (by omega), hdropped]

/-- The byte that follows a report, or no report, is stored. -/
theorem keeps (hb : Books s h) {c : UInt8} {head : UInt64} (hput : s.put = .store c head)
    (hbytes : (h.stored ++ [c]).length < 2 ^ 64) :
    Books s.putStep { h with kept := h.kept ++ [true], stored := h.stored ++ [c] } := by
  have hw := hb.writing
  have hroom := hb.inv.putting
  have hinv := hb.inv.putStep
  rw [hput] at hw hroom
  obtain ⟨hc, hr⟩ := hw
  obtain ⟨hlen, hmarked⟩ := hc.marked true
  rw [List.length_append, List.length_singleton] at hbytes
  have hhead := hr.head
  have hstored := hr.stored
  unfold MirrorState.putStep at hinv ⊢
  rw [hput] at hinv ⊢
  refine hb.stores hroom hhead hinv ⟨hlen, ?_, ?_, ?_⟩
  · rw [toNat_succ (by omega), List.length_append, List.length_singleton, hhead]
  · show h.stored ++ [c] = annotated 0 (h.given.zip _)
    rw [hmarked, annotated_stored, ← hstored, List.append_nil]
  · show s.dropped.toNat = openRun 0 (h.given.zip _)
    rw [hmarked, openRun_stored, hr.dropped]
    rfl

theorem storeHead (hb : Books s h) {c : UInt8} {head : UInt64} (hput : s.put = .storeHead c head) :
    Books s.putStep h := by
  have hw := hb.writing
  have hinv := hb.inv.putStep
  have hconsumed := hb.consumed.length_le
  have hle := hb.head_le
  rw [hput] at hw
  obtain ⟨hlen, hs⟩ := hw
  have hhead := hs.head
  have hreading := hb.reading
  unfold MirrorState.putStep at hinv ⊢
  rw [hput] at hinv ⊢
  refine ⟨hinv, ?_, ?_, hb.window, ?_, hb.tail_le, ?_, hb.consumed⟩
  · show Writing head s.dropped h (if c = 0x0a then .notify else .idle)
    split
    · exact ⟨hlen, hs⟩
    · exact ⟨hlen, hs⟩
  · show Reading { s.ring with head := head } h s.fbcon
    cases hfbcon : s.fbcon <;> rw [hfbcon] at hreading
    case put tail =>
      refine ⟨hreading.1, ?_⟩
      have hlt := hreading.2
      show h.consumed.length < head.toNat
      omega
    case waiting | loadTail | render | loadHead | storeTail => exact hreading
  · show head.toNat ≤ h.stored.length
    omega
  · show h.consumed.length ≤ head.toNat
    omega

/-- Without room, nothing has been stored behind the ring's `head`. -/
theorem settled_of_no_room (hb : Books s h) {c : UInt8} {head : UInt64}
    (hput : s.put = .checkRoom c head) (hno : ¬hasRoom head s.ring.tail 1)
    (hr : Reporting s.ring.head s.dropped head [] h.stored h.marked) :
    Settled s.ring.head s.dropped h.stored h.marked := by
  have hp := hb.inv.putting
  rw [hput] at hp
  rcases hp with heq | hroom
  · have hhead := hr.head
    have hring := hr.ringHead
    have hstored := hr.stored
    rw [List.append_nil] at hstored
    have hlen := congrArg List.length hstored
    rw [List.length_append] at hlen
    rw [heq] at hhead
    have hnil : owedReport (openRun 0 h.marked) = [] := List.length_eq_zero_iff.mp (by omega)
    rw [hnil, List.append_nil] at hstored
    refine ⟨hhead, hstored, ?_⟩
    rw [owedReport_eq_nil hnil, hr.dropped]
    rfl
  · exact absurd hroom.hasRoom hno

/-- The call has loaded `head`: a report is owed if bytes were dropped. -/
theorem loadHead (hb : Books s h) {c : UInt8} (hput : s.put = .loadHead c) :
    Books s.putStep h := by
  have hw := hb.writing
  have hinv := hb.inv.putStep
  rw [hput] at hw
  obtain ⟨hc, hs⟩ := hw
  unfold MirrorState.putStep at hinv ⊢
  rw [hput] at hinv ⊢
  refine hb.moves hinv ?_
  by_cases hzero : s.dropped = 0
  · have hrun := hs.dropped
    rw [hzero] at hrun
    rw [if_pos hzero]
    refine ⟨hc, hs.head, ?_, ?_, hzero⟩
    · rw [hs.head]
      exact congrArg List.length hs.stored
    · show h.stored ++ [] = annotated 0 h.marked ++ owedReport (openRun 0 h.marked)
      rw [← hrun, ← hs.stored]
      rfl
  · rw [if_neg hzero]
    exact ⟨hc, hs, hzero⟩

/-- With room for it, the report is the one of the open run. -/
theorem checkReport (hb : Books s h) {c : UInt8} {head : UInt64}
    (hput : s.put = .checkReport c head) : Books s.putStep h := by
  have hw := hb.writing
  have hinv := hb.inv.putStep
  have hputting := hb.inv.putting
  rw [hput] at hw hputting
  obtain ⟨hc, hs, hzero⟩ := hw
  obtain rfl : head = s.ring.head := hputting
  unfold MirrorState.putStep at hinv ⊢
  rw [hput] at hinv ⊢
  dsimp only at hinv ⊢
  by_cases hroom : hasRoom s.ring.head s.ring.tail 64
  · have hrun : openRun 0 h.marked ≠ 0 := by
      rw [← hs.dropped]
      exact fun hn => hzero (UInt64.toNat_inj.mp hn)
    rw [if_pos hroom] at hinv ⊢
    refine hb.moves hinv ⟨hc, hs.head, ?_, ?_, rfl⟩
    · rw [hs.head]
      exact congrArg List.length hs.stored
    · show h.stored ++ reportDropped s.dropped = annotated 0 h.marked ++ _
      rw [owedReport, if_neg hrun, reportDropped_eq, hs.dropped, ← hs.stored]
  · rw [if_neg hroom] at hinv ⊢
    exact hb.moves hinv ⟨⟨c, hc⟩, hs⟩

/-- The next byte of the report goes behind what is stored. -/
theorem report (hb : Books s h) {c : UInt8} {head : UInt64} {text : List UInt8}
    (hput : s.put = .report c head text)
    (hbytes : (h.stored ++ s.put.stores).length < 2 ^ 64) :
    Books s.putStep { h with stored := h.stored ++ s.put.stores } := by
  have hw := hb.writing
  have hinv := hb.inv.putStep
  have hputting := hb.inv.putting
  rw [hput] at hw hputting hbytes ⊢
  obtain ⟨hc, hr⟩ := hw
  unfold MirrorState.putStep at hinv ⊢
  rw [hput] at hinv ⊢
  cases text with
  | nil =>
    dsimp only [PutPc.stores]
    rw [List.append_nil]
    exact hb.moves hinv ⟨hc, hr⟩
  | cons b text =>
    have hhead := hr.head
    have hstored := hr.stored
    dsimp only [PutPc.stores] at hbytes ⊢
    rw [List.length_append, List.length_singleton] at hbytes
    refine hb.stores hputting hhead hinv ⟨hc, ?_, hr.ringHead, ?_, hr.dropped⟩
    · rw [toNat_succ (by omega), List.length_append, List.length_singleton, hhead]
    · show (h.stored ++ [b]) ++ text = _
      rw [List.append_assoc]
      exact hstored

theorem checkRoom (hb : Books s h) {c : UInt8} {head : UInt64}
    (hput : s.put = .checkRoom c head) : Books s.putStep h := by
  have hw := hb.writing
  have hinv := hb.inv.putStep
  have hsettled := hb.settled_of_no_room hput
  rw [hput] at hw
  obtain ⟨hc, hr⟩ := hw
  unfold MirrorState.putStep at hinv ⊢
  rw [hput] at hinv ⊢
  refine hb.moves hinv ?_
  by_cases hroom : hasRoom head s.ring.tail 1
  · rw [if_pos hroom]
    exact ⟨hc, hr⟩
  · rw [if_neg hroom]
    exact ⟨⟨c, hc⟩, hsettled hroom hr⟩

theorem notify (hb : Books s h) (hput : s.put = .notify) : Books s.putStep h := by
  have hw := hb.writing
  have hinv := hb.inv.putStep
  rw [hput] at hw
  unfold MirrorState.putStep at hinv ⊢
  rw [hput] at hinv ⊢
  exact { hb with inv := hinv, writing := hw }

theorem putStep (hb : Books s h) (hbytes : (h.stored ++ s.put.stores).length < 2 ^ 64)
    (hdrops : (h.kept ++ s.put.keeps).count false < 2 ^ 64) :
    Books s.putStep (record s .tracer h) := by
  have hquiet : ∀ {pc : PutPc}, s.put = pc → pc.stores = [] → pc.keeps = [] →
      Books s.putStep h → Books s.putStep (record s .tracer h) := by
    rintro _ rfl hstores hkeeps hnext
    unfold record
    dsimp only
    rw [hstores, hkeeps, List.append_nil, List.append_nil]
    exact hnext
  cases hput : s.put with
  | idle =>
    apply hquiet hput rfl rfl
    unfold MirrorState.putStep
    rw [hput]
    exact hb
  | loadHead c => exact hquiet hput rfl rfl (hb.loadHead hput)
  | checkReport c head => exact hquiet hput rfl rfl (hb.checkReport hput)
  | report c head text =>
    have hnext := hb.report hput hbytes
    unfold record
    rw [hput] at hnext ⊢
    dsimp only [PutPc.keeps]
    rw [List.append_nil]
    exact hnext
  | checkRoom c head => exact hquiet hput rfl rfl (hb.checkRoom hput)
  | drop head =>
    unfold record
    rw [hput] at hdrops ⊢
    dsimp only [PutPc.stores, PutPc.keeps] at hdrops ⊢
    rw [List.append_nil]
    exact hb.drops hput hdrops
  | store c head =>
    unfold record
    rw [hput] at hbytes ⊢
    exact hb.keeps hput hbytes
  | storeHead c head => exact hquiet hput rfl rfl (hb.storeHead hput)
  | notify => exact hquiet hput rfl rfl (hb.notify hput)

/-! ## fbcon -/

/-- A step of fbcon that takes nothing. -/
theorem reads (hb : Books s h) {pc : FbconPc} {screen : Option Screen}
    (hinv : MirrorState.Inv { s with fbcon := pc, screen := screen })
    (hpc : Reading s.ring h pc) : Books { s with fbcon := pc, screen := screen } h :=
  { hb with inv := hinv, reading := hpc }

/-- fbcon takes the next byte of the ring. -/
theorem takes (hb : Books s h) {tail : UInt64} {screen : Option Screen}
    (hfbcon : s.fbcon = .put tail)
    (hinv : MirrorState.Inv { s with screen := screen, fbcon := .loadHead (tail + 1) true }) :
    Books { s with screen := screen, fbcon := .loadHead (tail + 1) true }
      { h with consumed := h.consumed ++ [s.ring.buf (slot tail)] } := by
  have hr := hb.reading
  rw [hfbcon] at hr
  obtain ⟨htail, hlt⟩ := hr
  have hle := hb.head_le
  have hbound := s.ring.head.toNat_lt
  have hlen : (h.consumed ++ [s.ring.buf (slot tail)]).length = h.consumed.length + 1 := by
    rw [List.length_append, List.length_singleton]
  have hbyte : h.stored[h.consumed.length]? = some (s.ring.buf (slot tail)) := by
    rw [slot, htail]
    exact hb.window _ hb.tail_le (by omega)
  refine ⟨hinv, hb.writing, ?_, hb.window, hb.head_le, ?_, ?_, prefix_next hb.consumed hbyte⟩
  · show (tail + 1).toNat = (h.consumed ++ [_]).length
    rw [toNat_succ (by omega), hlen, htail]
  · show s.ring.tail.toNat ≤ (h.consumed ++ [_]).length
    have htailLe := hb.tail_le
    omega
  · show (h.consumed ++ [_]).length ≤ s.ring.head.toNat
    omega

/-- fbcon frees what it has taken. -/
theorem frees (hb : Books s h) {tail : UInt64} {any : Bool} {pc : FbconPc}
    (hfbcon : s.fbcon = .storeTail tail any) (hpc : pc = .render ∨ pc = .waiting)
    (hinv : MirrorState.Inv { s.setTail tail with fbcon := pc }) :
    Books { s.setTail tail with fbcon := pc } h := by
  have hr := hb.reading
  rw [hfbcon] at hr
  have htail : tail.toNat = h.consumed.length := hr
  have hle : s.ring.tail.toNat ≤ tail.toNat := htail ▸ hb.tail_le
  refine ⟨hinv, hb.writing, ?_, hb.window.advance hle, hb.head_le, Nat.le_of_eq htail,
    hb.consumed_le, hb.consumed⟩
  rcases hpc with rfl | rfl
  · exact htail
  · exact htail

theorem fbconStep (hb : Books s h) : Books s.fbconStep (record s .fbcon h) := by
  have hr := hb.reading
  have hinv := hb.inv.fbconStep
  unfold record MirrorState.consumes
  unfold MirrorState.fbconStep at hinv ⊢
  cases hfbcon : s.fbcon <;> rw [hfbcon] at hr hinv <;> dsimp only at hinv ⊢
  case waiting =>
    rw [List.append_nil]
    exact hb
  case loadTail =>
    rw [List.append_nil]
    exact hb.reads hinv hr
  case loadHead tail any =>
    rw [List.append_nil]
    refine hb.reads hinv ?_
    split
    · exact hr
    · next hne =>
      have hpos : tail.toNat = h.consumed.length := hr
      have hle := hb.consumed_le
      have hneq : tail.toNat ≠ s.ring.head.toNat := fun he => hne (UInt64.toNat_inj.mp he)
      exact ⟨hpos, by omega⟩
  case put tail => exact hb.takes hfbcon hinv
  case storeTail tail any =>
    rw [List.append_nil]
    refine hb.frees hfbcon ?_ hinv
    split
    · exact Or.inl rfl
    · exact Or.inr rfl
  case render =>
    rw [List.append_nil]
    exact hb.reads hinv hr

/-! ## All steps -/

theorem step (hb : Books s h) {t : MirrorState} {a : Act} (ht : s.step a = some t)
    (hbytes : (record s a h).stored.length < 2 ^ 64)
    (hdrops : (record s a h).kept.count false < 2 ^ 64) : Books t (record s a h) := by
  have hinv := hb.inv.step ht
  cases a with
  | putc c =>
    simp only [MirrorState.step] at ht
    split at ht
    · next hput =>
      obtain rfl := Option.some.inj ht
      have hw := hb.writing
      rw [hput] at hw
      obtain ⟨hlen, hs⟩ := hw
      refine { hb with inv := hinv, writing := ⟨⟨h.given, rfl, hlen⟩, ?_⟩ }
      have hmarked : (record s (.putc c) h).marked = h.marked := History.marked_given hlen c
      rw [hmarked]
      exact hs
    · cases ht
  | tracer =>
    simp only [MirrorState.step] at ht
    split at ht
    · cases ht
    · obtain rfl := Option.some.inj ht
      exact hb.putStep hbytes hdrops
  | mirrorNotify =>
    simp only [MirrorState.step] at ht
    split at ht
    · obtain rfl := Option.some.inj ht
      unfold MirrorState.mirrorNotify at hinv ⊢
      split
      · next hpending =>
        rw [if_pos hpending] at hinv
        exact { hb with inv := hinv }
      · exact hb
    · cases ht
  | notified =>
    simp only [MirrorState.step] at ht
    split at ht
    · next hwaiting _ =>
      obtain rfl := Option.some.inj ht
      have hr := hb.reading
      rw [hwaiting] at hr
      exact { hb with inv := hinv, reading := hr }
    · cases ht
  | fbcon =>
    simp only [MirrorState.step] at ht
    split at ht
    · cases ht
    · obtain rfl := Option.some.inj ht
      exact hb.fbconStep

end Books

theorem record_grows (s : MirrorState) (a : Act) (h : History) :
    h.stored.length ≤ (record s a h).stored.length ∧
      h.kept.count false ≤ (record s a h).kept.count false := by
  cases a with
  | tracer =>
    unfold record
    dsimp only
    rw [List.length_append, List.count_append]
    exact ⟨Nat.le_add_right _ _, Nat.le_add_right _ _⟩
  | putc | mirrorNotify | notified | fbcon => exact ⟨Nat.le_refl _, Nat.le_refl _⟩

theorem books_of_reachable {screen : Option Screen} {u : MirrorState × History}
    (hu : (recordedMirror screen).Reachable u) (hbytes : u.2.stored.length < 2 ^ 64)
    (hdrops : u.2.kept.count false < 2 ^ 64) : Books u.1 u.2 := by
  refine Automaton.reachable_induction_guarded (I := fun u => Books u.1 u.2)
    (G := fun u => u.2.stored.length < 2 ^ 64 ∧ u.2.kept.count false < 2 ^ 64)
    ?_ (books_start screen) ?_ hu ⟨hbytes, hdrops⟩
  · rintro u a v hstep ⟨hbytes, hdrops⟩
    obtain ⟨-, hrecord⟩ := Automaton.recorded_step.mp hstep
    obtain ⟨hstored, hkept⟩ := record_grows u.1 a u.2
    rw [hrecord] at hbytes hdrops
    exact ⟨Nat.lt_of_le_of_lt hstored hbytes, Nat.lt_of_le_of_lt hkept hdrops⟩
  · rintro u a v hb ⟨hbytes, hdrops⟩ hstep
    obtain ⟨ht, hrecord⟩ := Automaton.recorded_step.mp hstep
    rw [hrecord] at hbytes hdrops ⊢
    exact hb.step ht hbytes hdrops

/-- The ring never holds more than its capacity, also while a report is stored, and
fbcon has a prefix of the stream with each closed run of dropped bytes replaced by
the report of its length.  Between two calls `mirror_dropped` is the run at the end. -/
theorem drops_accounted {screen : Option Screen} {u : MirrorState × History}
    (hu : (recordedMirror screen).Reachable u) (hbytes : u.2.stored.length < 2 ^ 64)
    (hdrops : u.2.kept.count false < 2 ^ 64) :
    ((u.1.ring.head - u.1.ring.tail).toNat ≤ consoleRingCapacity ∧
      (∀ c head text, u.1.put = .report c head text →
        (head - u.1.ring.tail).toNat + text.length + 1 ≤ consoleRingCapacity) ∧
      ∀ dropped, (reportDropped dropped).length + 1 ≤ 64) ∧
    u.2.consumed <+: annotated 0 (u.2.given.zip u.2.kept) ∧
    (u.1.put = .idle → u.2.given.length = u.2.kept.length ∧
      u.1.dropped.toNat = openRun 0 (u.2.given.zip u.2.kept)) := by
  have hb := books_of_reachable hu hbytes hdrops
  refine ⟨⟨hb.inv.room, ?_, ?_⟩, hb.consumed_annotated, ?_⟩
  · intro c head text hput
    have hroom := hb.inv.putting
    rw [hput] at hroom
    exact hroom.fits
  · intro dropped
    have hlen := reportDropped_length dropped
    omega
  · intro hput
    have hw := hb.writing
    rw [hput] at hw
    exact ⟨hw.1, hw.2.dropped⟩

/-! ## A ring that fills -/

/-- Between two bytes: the tracer is outside `mirror_putc`, and fbcon waits. -/
structure Calm (u : MirrorState × History) (head tail dropped : UInt64) (pending : Bool)
    (marked : List (UInt8 × Bool)) (stored consumed : Nat) : Prop where
  put : u.1.put = .idle
  fbcon : u.1.fbcon = .waiting
  screen : u.1.screen = none
  head : u.1.ring.head = head
  tail : u.1.ring.tail = tail
  dropped : u.1.dropped = dropped
  pending : u.1.pending = pending
  given : u.2.given = marked.map (·.1)
  kept : u.2.kept = marked.map (·.2)
  stored : u.2.stored.length = stored
  consumed : u.2.consumed.length = consumed

section

variable {u : MirrorState × History} {head tail dropped : UInt64} {pending : Bool}
  {marked : List (UInt8 × Bool)} {stored consumed : Nat} {c : UInt8}

theorem Calm.store (h : Calm u head tail 0 pending marked stored consumed) (hroom : hasRoom head tail 1)
    (hc : c ≠ 0x0a) : ∃ v, (recordedMirror none).Reaches u
      [.putc c, .tracer, .tracer, .tracer, .tracer] v ∧
      Calm v (head + 1) tail 0 true (marked ++ [(c, true)]) (stored + 1) consumed := by
  obtain ⟨s, h'⟩ := u
  obtain ⟨hput, hfbcon, hscreen, rfl, rfl, hdropped, hpending, hgiven, hkept,
    hstored, hcons⟩ := h
  dsimp only at *
  simp [Automaton.Reaches, Automaton.run, recordedMirror, Automaton.recorded, mirror,
    MirrorState.step, MirrorState.call, MirrorState.putStep, record, PutPc.stores, PutPc.keeps,
    MirrorState.setByte, MirrorState.setHead, hput, hroom, hc, hdropped]
  constructor <;> simp [hfbcon, hscreen, hgiven, hkept, hstored, hcons]

theorem Calm.drop (h : Calm u head tail dropped pending marked stored consumed)
    (hroom : ¬hasRoom head tail 1) (hroom' : ¬hasRoom head tail 64) :
    ∃ v, (recordedMirror none).Reaches u [.putc c, .tracer, .tracer, .tracer] v ∧
      Calm v head tail (dropped + 1) pending (marked ++ [(c, false)]) stored consumed := by
  obtain ⟨s, h'⟩ := u
  obtain ⟨hput, hfbcon, hscreen, rfl, rfl, rfl, rfl, hgiven, hkept,
    hstored, hcons⟩ := h
  dsimp only at *
  by_cases hd : s.dropped = 0
  all_goals
    simp [Automaton.Reaches, Automaton.run, recordedMirror, Automaton.recorded, mirror,
      MirrorState.step, MirrorState.call, MirrorState.putStep, record, PutPc.stores, PutPc.keeps,
      MirrorState.setHead, hput, hroom, hroom', hd]
    constructor <;> simp [hfbcon, hscreen, hgiven, hkept, hstored, hcons]

/-- The loop of `notified`, with `n` bytes in the ring. -/
theorem drain {t : UInt64} {any : Bool} {n : Nat} (hn : n < 2 ^ 64)
    (hpc : u.1.fbcon = .loadHead t any) (hhead : u.1.ring.head = t + UInt64.ofNat n)
    (hscreen : u.1.screen = none) : ∃ as v, (recordedMirror none).Reaches u as v ∧
      v.1 = { u.1 with fbcon := .waiting, ring := { u.1.ring with tail := u.1.ring.head } } ∧
      v.2 = { u.2 with consumed := v.2.consumed } ∧
      v.2.consumed.length = u.2.consumed.length + n := by
  induction n generalizing u t any with
  | zero =>
    have ht : u.1.ring.head = t := hhead.trans (UInt64.add_zero t)
    obtain ⟨s, h'⟩ := u
    dsimp only at *
    refine ⟨[.fbcon, .fbcon], ?_⟩
    simp [Automaton.Reaches, Automaton.run, recordedMirror, Automaton.recorded, mirror,
      MirrorState.step, MirrorState.fbconStep, record, MirrorState.consumes, MirrorState.setTail,
      hpc, ht, hscreen]
  | succ n ih =>
    have hne : t ≠ u.1.ring.head := by
      intro heq
      have hnat := congrArg UInt64.toNat (hhead.symm.trans heq.symm)
      rw [UInt64.toNat_add, UInt64.toNat_ofNat', Nat.mod_eq_of_lt hn] at hnat
      have ht := t.toNat_lt
      omega
    have htwo : ∃ v, (recordedMirror none).Reaches u [.fbcon, .fbcon] v ∧
        v.1 = { u.1 with fbcon := .loadHead (t + 1) true } ∧
        v.2 = { u.2 with consumed := v.2.consumed } ∧
        v.2.consumed.length = u.2.consumed.length + 1 := by
      obtain ⟨s, h'⟩ := u
      dsimp only at *
      simp [Automaton.Reaches, Automaton.run, recordedMirror, Automaton.recorded, mirror,
        MirrorState.step, MirrorState.fbconStep, record, MirrorState.consumes, hpc, hne, hscreen]
    obtain ⟨v, hv, hv₁, hv₂, hlen⟩ := htwo
    have hpc' : v.1.fbcon = .loadHead (t + 1) true := by rw [hv₁]
    have hscreen' : v.1.screen = none := by
      rw [hv₁]
      exact hscreen
    have hhead' : v.1.ring.head = t + 1 + UInt64.ofNat n := by
      rw [hv₁]
      show u.1.ring.head = _
      rw [hhead, UInt64.ofNat_add, UInt64.add_assoc, UInt64.add_comm (UInt64.ofNat n)]
      rfl
    obtain ⟨as, w, hw, hw₁, hw₂, hlen'⟩ := ih (by omega) hpc' hhead' hscreen'
    refine ⟨_, w, ((recordedMirror none).reaches_append).mpr ⟨v, hv, hw⟩, ?_, ?_, ?_⟩
    · rw [hw₁, hv₁]
    · rw [hw₂, hv₂]
    · omega

/-- fbcon is signalled, and reads all there is. -/
theorem Calm.read (h : Calm u head tail dropped true marked stored consumed) {n : Nat} (hn : n < 2 ^ 64)
    (hhead : head = tail + UInt64.ofNat n) : ∃ as v, (recordedMirror none).Reaches u as v ∧
      Calm v head head dropped false marked stored (consumed + n) := by
  obtain ⟨hput, hfbcon, hscreen, hhead', htail, hdropped, hpending, hgiven, hkept,
    hstored, hcons⟩ := h
  have hwake : ∃ v, (recordedMirror none).Reaches u [.mirrorNotify, .notified, .fbcon] v ∧
      v.1 = { u.1 with pending := false, signal := false, fbcon := .loadHead tail false } ∧
      v.2 = u.2 := by
    obtain ⟨s, h'⟩ := u
    dsimp only at *
    simp [Automaton.Reaches, Automaton.run, recordedMirror, Automaton.recorded, mirror,
      MirrorState.step, MirrorState.mirrorNotify, MirrorState.fbconStep, record,
      MirrorState.consumes, hput, hfbcon, hpending, htail]
  obtain ⟨v, hv, hv₁, hv₂⟩ := hwake
  have hpc : v.1.fbcon = .loadHead tail false := by rw [hv₁]
  have hfrom : v.1.ring.head = tail + UInt64.ofNat n := by
    rw [hv₁, ← hhead]
    exact hhead'
  have hnone : v.1.screen = none := by
    rw [hv₁]
    exact hscreen
  obtain ⟨as, w, hw, hw₁, hw₂, hlen⟩ := drain hn hpc hfrom hnone
  refine ⟨_, w, ((recordedMirror none).reaches_append).mpr ⟨v, hv, hw⟩, ?_⟩
  rw [hv₁] at hw₁
  rw [hv₂] at hw₂ hlen
  constructor
  · rw [hw₁]
    exact hput
  · rw [hw₁]
  · rw [hw₁]
    exact hscreen
  · rw [hw₁]
    exact hhead'
  · rw [hw₁]
    exact hhead'
  · rw [hw₁]
    exact hdropped
  · rw [hw₁]
  · rw [hw₂]
    exact hgiven
  · rw [hw₂]
    exact hkept
  · rw [hw₂]
    exact hstored
  · rw [hlen, hcons]

/-- The tracer stores the report. -/
theorem report_text {text : List UInt8} (hput : u.1.put = .report c head text) :
    ∃ as v, (recordedMirror none).Reaches u as v ∧
      v.1.put = .checkRoom c (head + UInt64.ofNat text.length) ∧
      v.2 = { u.2 with stored := v.2.stored } ∧
      v.2.stored.length = u.2.stored.length + text.length ∧
      ∃ buf, v.1 = { u.1 with put := v.1.put, ring := { u.1.ring with buf := buf } } := by
  induction text generalizing u head with
  | nil =>
    obtain ⟨s, h'⟩ := u
    dsimp only at *
    refine ⟨[.tracer], ?_⟩
    simp [Automaton.Reaches, Automaton.run, recordedMirror, Automaton.recorded, mirror,
      MirrorState.step, MirrorState.putStep, record, PutPc.stores, PutPc.keeps, hput]
    exact ⟨s.ring.buf, rfl⟩
  | cons b text ih =>
    have hone : ∃ v, (recordedMirror none).Reaches u [.tracer] v ∧
        v.1.put = .report c (head + 1) text ∧ v.2 = { u.2 with stored := v.2.stored } ∧
        v.2.stored.length = u.2.stored.length + 1 ∧
        ∃ buf, v.1 = { u.1 with put := v.1.put, ring := { u.1.ring with buf := buf } } := by
      obtain ⟨s, h'⟩ := u
      dsimp only at *
      simp [Automaton.Reaches, Automaton.run, recordedMirror, Automaton.recorded, mirror,
        MirrorState.step, MirrorState.putStep, record, PutPc.stores, PutPc.keeps,
        MirrorState.setByte, hput]
    obtain ⟨v, hv, hput', hv₂, hlen, buf, hv₁⟩ := hone
    obtain ⟨as, w, hw, hput'', hw₂, hlen', buf', hw₁⟩ := ih hput'
    refine ⟨_, w, ((recordedMirror none).reaches_append).mpr ⟨v, hv, hw⟩, ?_, ?_, ?_, buf', ?_⟩
    · rw [hput'', List.length_cons, UInt64.add_assoc, UInt64.ofNat_add,
        UInt64.add_comm (UInt64.ofNat _)]
      rfl
    · rw [hw₂, hv₂]
    · rw [hlen', hlen, List.length_cons]
      omega
    · rw [hw₁, hv₁]

/-- A byte after a gap, with room for the report. -/
theorem Calm.report (h : Calm u head tail dropped pending marked stored consumed) (hd : dropped ≠ 0)
    (hroom : hasRoom head tail 64) {head' : UInt64}
    (hhead' : head' = head + UInt64.ofNat (reportDropped dropped).length)
    (hroom' : hasRoom head' tail 1) (hc : c ≠ 0x0a) :
    ∃ as v, (recordedMirror none).Reaches u as v ∧
      Calm v (head' + 1) tail 0 true (marked ++ [(c, true)])
        (stored + (reportDropped dropped).length + 1) consumed := by
  obtain ⟨hput, hfbcon, hscreen, hhead, htail, hdropped, hpending, hgiven, hkept,
    hstored, hcons⟩ := h
  have hcheck : ∃ v, (recordedMirror none).Reaches u [.putc c, .tracer, .tracer] v ∧
      v.1 = { u.1 with put := .report c head (reportDropped dropped), dropped := 0 } ∧
      v.2 = { u.2 with given := u.2.given ++ [c] } := by
    obtain ⟨s, h'⟩ := u
    dsimp only at *
    simp [Automaton.Reaches, Automaton.run, recordedMirror, Automaton.recorded, mirror,
      MirrorState.step, MirrorState.call, MirrorState.putStep, record, PutPc.stores, PutPc.keeps,
      hput, hdropped, hd, hhead, htail, hroom]
  obtain ⟨v, hv, hv₁, hv₂⟩ := hcheck
  have hreport : v.1.put = .report c head (reportDropped dropped) := by rw [hv₁]
  obtain ⟨as, w, hw, hput', hw₂, hlen, buf, hw₁⟩ := report_text hreport
  rw [hv₂, hstored] at hlen
  rw [← hhead'] at hput'
  rw [hv₁] at hw₁
  rw [hv₂] at hw₂
  have hstore : ∃ x, (recordedMirror none).Reaches w [.tracer, .tracer, .tracer] x ∧
      Calm x (head' + 1) tail 0 true (marked ++ [(c, true)])
        (stored + (reportDropped dropped).length + 1) consumed := by
    obtain ⟨s, h'⟩ := w
    dsimp only at *
    have htail' : s.ring.tail = tail := by
      rw [hw₁]
      exact htail
    have hdropped' : s.dropped = 0 := by rw [hw₁]
    have hfbcon' : s.fbcon = .waiting := by
      rw [hw₁]
      exact hfbcon
    have hscreen' : s.screen = none := by
      rw [hw₁]
      exact hscreen
    have hgiven' : h'.given = u.2.given ++ [c] := by rw [hw₂]
    have hkept' : h'.kept = u.2.kept := by rw [hw₂]
    have hcons' : h'.consumed = u.2.consumed := by rw [hw₂]
    simp [Automaton.Reaches, Automaton.run, recordedMirror, Automaton.recorded, mirror,
      MirrorState.step, MirrorState.putStep, record, PutPc.stores, PutPc.keeps,
      MirrorState.setByte, MirrorState.setHead, hput', htail', hroom', hc]
    constructor <;> simp [hdropped', hfbcon', hscreen', hgiven', hkept', hcons', hgiven, hkept,
      hlen, hcons]
  obtain ⟨x, hx, hcalm⟩ := hstore
  exact ⟨_, x, ((recordedMirror none).reaches_append).mpr
    ⟨w, ((recordedMirror none).reaches_append).mpr ⟨v, hv, hw⟩, hx⟩, hcalm⟩

/-- The ring holds its capacity when fbcon does not read it. -/
theorem exists_filled {n : Nat} (hn : n ≤ consoleRingCapacity) (hc : c ≠ 0x0a) :
    ∃ u, (recordedMirror none).Reachable u ∧
      Calm u (UInt64.ofNat n) 0 0 (decide (0 < n)) (List.replicate n (c, true)) n 0 := by
  induction n with
  | zero => exact ⟨_, ⟨[], rfl⟩, rfl, rfl, rfl, rfl, rfl, rfl, rfl, rfl, rfl, rfl, rfl⟩
  | succ n ih =>
    obtain ⟨u, hu, hcalm⟩ := ih (by omega)
    have hroom : hasRoom (UInt64.ofNat n) 0 1 := by
      have hcap : consoleRingCapacity = 16368 := rfl
      show UInt64.ofNat n - 0 + 1 ≤ UInt64.ofNat consoleRingCapacity
      have hsum : UInt64.ofNat n - 0 + 1 = UInt64.ofNat (n + 1) := by
        rw [UInt64.sub_zero, UInt64.ofNat_add]
        rfl
      rw [hsum, UInt64.le_iff_toNat_le, UInt64.toNat_ofNat', UInt64.toNat_ofNat']
      omega
    obtain ⟨v, hv, hcalm'⟩ := hcalm.store hroom hc
    refine ⟨v, hu.reaches hv, ?_⟩
    rw [List.replicate_succ', UInt64.ofNat_add, decide_eq_true (Nat.succ_pos n)]
    exact hcalm'

end

theorem annotated_replicate (n : Nat) (c : UInt8) :
    annotated 0 (List.replicate n (c, true)) = List.replicate n c ∧
      openRun 0 (List.replicate n (c, true)) = 0 := by
  induction n with
  | zero => exact ⟨rfl, rfl⟩
  | succ n ih =>
    rw [List.replicate_succ', List.replicate_succ', annotated_stored, openRun_stored, ih.1, ih.2]
    simp [owedReport]

/-- The ring fills, three bytes find no room, fbcon reads, and the next byte brings the report,
which fbcon reads too. -/
theorem drops_accounted_fullRing : ∃ u, (recordedMirror none).Reachable u ∧
    u.2.consumed = List.replicate consoleRingCapacity 0x61 ++
      ascii "\n[fbcon dropped 3 bytes]\n" ++ [0x62] ∧ u.1.dropped = 0 := by
  obtain ⟨u₀, hu₀, h₀⟩ := exists_filled (c := 0x61) (Nat.le_refl _) (by decide)
  have hfull : ¬hasRoom (UInt64.ofNat consoleRingCapacity) 0 1 := by decide
  have hfull' : ¬hasRoom (UInt64.ofNat consoleRingCapacity) 0 64 := by decide
  obtain ⟨u₁, hu₁, h₁⟩ := h₀.drop (c := 0x78) hfull hfull'
  obtain ⟨u₂, hu₂, h₂⟩ := h₁.drop (c := 0x79) hfull hfull'
  obtain ⟨u₃, hu₃, h₃⟩ := h₂.drop (c := 0x7a) hfull hfull'
  obtain ⟨_, u₄, hu₄, h₄⟩ := h₃.read (n := consoleRingCapacity) (by decide) (by decide)
  obtain ⟨_, u₅, hu₅, h₅⟩ := h₄.report (c := 0x62) (by decide) (by decide) rfl (by decide) (by decide)
  obtain ⟨_, u₆, hu₆, h₆⟩ := h₅.read (n := 26) (by decide) (by decide)
  have hreach := ((((((hu₀.reaches hu₁).reaches hu₂).reaches hu₃).reaches hu₄).reaches
    hu₅).reaches hu₆)
  refine ⟨u₆, hreach, ?_, h₆.dropped⟩
  have hbytes : u₆.2.stored.length < 2 ^ 64 := by
    rw [h₆.stored]
    decide
  have hdrops : u₆.2.kept.count false < 2 ^ 64 := by
    rw [h₆.kept]
    simp [List.count_replicate]
  have hprefix := (drops_accounted hreach hbytes hdrops).2.1
  obtain ⟨hbefore, hrun⟩ := annotated_replicate consoleRingCapacity 0x61
  have hgap : owedReport 3 = ascii "\n[fbcon dropped 3 bytes]\n" := by decide
  have hstream : annotated 0 (u₆.2.given.zip u₆.2.kept) =
      List.replicate consoleRingCapacity 0x61 ++ ascii "\n[fbcon dropped 3 bytes]\n" ++
        [0x62] := by
    rw [h₆.given, h₆.kept, List.zip_map', List.map_id', annotated_stored, annotated_omitted,
      annotated_omitted, annotated_omitted, openRun_omitted, openRun_omitted, openRun_omitted,
      hbefore, hrun, hgap]
  rw [hstream] at hprefix
  apply hprefix.eq_of_length
  have hlen : (ascii "\n[fbcon dropped 3 bytes]\n").length = 25 := by decide
  rw [h₆.consumed, List.length_append, List.length_append, List.length_replicate, hlen]
  rfl

end Mirror
end TensorSel4
