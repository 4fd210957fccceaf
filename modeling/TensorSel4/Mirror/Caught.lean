/-
fbcon catches up.

Bytes in the ring that fbcon has not seen are always answered for: fbcon is
reading, its notification is pending, `mirror_pending` is set, or the tracer is
about to notify it.  The tracer reports dropped bytes only when the report and
the byte after it fit, so a report never stays behind without a notification.
-/
import TensorSel4.Automaton.Run
import TensorSel4.Mirror.Ring

namespace TensorSel4
namespace Mirror

open Bytes Console Fbcon RingBuffer Uartrx

theorem reportDropped_length (dropped : UInt64) : (reportDropped dropped).length ≤ 44 := by
  have hdigits := decimal_length dropped
  have hbefore : (ascii "\n[fbcon dropped ").length = 16 := by decide
  have hafter : (ascii " bytes]\n").length = 8 := by decide
  rw [reportDropped, List.length_append, List.length_append]
  omega

theorem hasRoom_iff {head tail bytes : UInt64} (h : span tail head + bytes.toNat < 2 ^ 64) :
    hasRoom head tail bytes ↔ span tail head + bytes.toNat ≤ consoleRingCapacity := by
  have hcap : (UInt64.ofNat consoleRingCapacity).toNat = consoleRingCapacity := rfl
  have hsum : (head - tail + bytes).toNat = span tail head + bytes.toNat := by
    rw [UInt64.toNat_add]
    exact Nat.mod_eq_of_lt h
  rw [hasRoom, UInt64.le_iff_toNat_le, hsum, hcap]

/-- The tracer's `head` is at or after the ring's, and `n` more bytes fit. -/
structure Room (ring : ConsoleRing) (head : UInt64) (n : Nat) : Prop where
  after : span ring.tail ring.head ≤ span ring.tail head
  fits : span ring.tail head + n ≤ consoleRingCapacity

def Putting (ring : ConsoleRing) : PutPc → Prop
  | .idle | .loadHead _ | .notify => True
  | .checkReport _ head | .drop head => head = ring.head
  | .report _ head text => Room ring head (text.length + 1)
  | .checkRoom _ head => head = ring.head ∨ Room ring head 1
  | .store _ head => Room ring head 1
  | .storeHead _ head => Room ring head 0

def Draining (ring : ConsoleRing) : FbconPc → Prop
  | .waiting | .loadTail | .render => True
  | .loadHead tail _ | .storeTail tail _ => span ring.tail tail ≤ span ring.tail ring.head
  | .put tail => span ring.tail tail < span ring.tail ring.head

variable {ring : ConsoleRing}

theorem capacity_lt : consoleRingCapacity + 64 < 2 ^ 64 := by decide

theorem Room.weaken {head : UInt64} {m n : Nat} (h : Room ring head n) (hle : m ≤ n) :
    Room ring head m := by
  refine ⟨h.after, ?_⟩
  have := h.fits
  omega

/-- One byte more behind the tracer's `head`. -/
theorem Room.next {head : UInt64} {n : Nat} (h : Room ring head (n + 1)) :
    Room ring (head + 1) n := by
  have hafter := h.after
  have hfits := h.fits
  have hcap := capacity_lt
  have hsucc : span ring.tail (head + 1) = span ring.tail head + 1 := span_succ (by omega)
  constructor
  · omega
  · omega

theorem Room.hasRoom {head : UInt64} (h : Room ring head 1) : hasRoom head ring.tail 1 := by
  have hfits := h.fits
  have hcap := capacity_lt
  have hone : (1 : UInt64).toNat = 1 := rfl
  exact (hasRoom_iff (by omega)).mpr hfits

/-- fbcon's facts survive when the tracer shows more bytes. -/
theorem Draining.frame {ring' : ConsoleRing} {pc : FbconPc} (h : Draining ring pc)
    (htail : ring'.tail = ring.tail)
    (hle : span ring.tail ring.head ≤ span ring.tail ring'.head) : Draining ring' pc := by
  cases pc with
  | waiting | loadTail | render => trivial
  | loadHead tail any | storeTail tail any =>
    show span ring'.tail tail ≤ span ring'.tail ring'.head
    rw [htail]
    exact Nat.le_trans h hle
  | put tail =>
    show span ring'.tail tail < span ring'.tail ring'.head
    rw [htail]
    exact Nat.lt_of_lt_of_le h hle

/-- The tracer's facts survive when fbcon frees slots. -/
theorem Room.advance {tail head : UInt64} {n : Nat} (h : Room ring head n)
    (htail : span ring.tail tail ≤ span ring.tail ring.head) :
    Room { ring with tail := tail } head n := by
  have hafter := h.after
  have hfits := h.fits
  have hhead : span tail ring.head = span ring.tail ring.head - span ring.tail tail :=
    span_advance htail
  have hnew : span tail head = span ring.tail head - span ring.tail tail :=
    span_advance (Nat.le_trans htail hafter)
  constructor
  · show span tail ring.head ≤ span tail head
    omega
  · show span tail head + n ≤ consoleRingCapacity
    omega

theorem Putting.advance {pc : PutPc} {tail : UInt64} (h : Putting ring pc)
    (htail : span ring.tail tail ≤ span ring.tail ring.head) :
    Putting { ring with tail := tail } pc := by
  cases pc with
  | idle | loadHead | notify => trivial
  | checkReport | drop => exact h
  | report | store | storeHead => exact Room.advance h htail
  | checkRoom c head =>
    rcases h with h | h
    · exact Or.inl h
    · exact Or.inr (h.advance htail)

namespace MirrorState

variable {s : MirrorState}

/-- What fbcon has seen. -/
def seen (s : MirrorState) : UInt64 :=
  match s.fbcon with
  | .storeTail tail _ => tail
  | _ => s.ring.tail

/-- fbcon is still to find the ring empty. -/
def reading (s : MirrorState) : Prop :=
  match s.fbcon with
  | .loadTail | .loadHead _ _ | .put _ => True
  | _ => False

/-- The tracer is still to notify fbcon. -/
def owing (s : MirrorState) : Prop := s.pending = true ∨ s.put = .notify

structure Inv (s : MirrorState) : Prop where
  room : span s.ring.tail s.ring.head ≤ consoleRingCapacity
  putting : Putting s.ring s.put
  draining : Draining s.ring s.fbcon
  caught : s.ring.head ≠ s.seen → s.owing ∨ s.signal = true ∨ s.reading

theorem inv_start (screen : Option Screen) : Inv { screen := screen } where
  room := by
    show span 0 0 ≤ consoleRingCapacity
    rw [span_self]
    exact Nat.zero_le _
  putting := trivial
  draining := trivial
  caught h := absurd rfl h

/-! ## The tracer -/

/-- A test of `mirror_has_room` against the tail that the ring has now. -/
theorem Inv.room_iff (h : Inv s) {bytes : UInt64} (hbytes : bytes.toNat ≤ 64) :
    hasRoom s.ring.head s.ring.tail bytes ↔ Room s.ring s.ring.head bytes.toNat := by
  have hroom := h.room
  have hcap := capacity_lt
  rw [hasRoom_iff (by omega)]
  exact ⟨fun hfits => ⟨Nat.le_refl _, hfits⟩, Room.fits⟩

/-- A step of the tracer that leaves the counters alone. -/
theorem Inv.put_moves (h : Inv s) {pc : PutPc} {buf : Nat → UInt8} {dropped : UInt64}
    (hnotify : s.put ≠ .notify)
    (hpc : Putting s.ring pc) :
    Inv { s with ring := { s.ring with buf := buf }, put := pc, dropped := dropped } where
  room := h.room
  putting := by
    show Putting _ pc
    cases pc with
    | idle | loadHead | notify => trivial
    | checkReport | drop => exact hpc
    | report | store | storeHead => exact ⟨hpc.after, hpc.fits⟩
    | checkRoom c head =>
      rcases hpc with hpc | hpc
      · exact Or.inl hpc
      · exact Or.inr ⟨hpc.after, hpc.fits⟩
  draining := h.draining
  caught hne := by
    rcases h.caught hne with (hpending | hput) | hrest
    · exact Or.inl (Or.inl hpending)
    · exact absurd hput hnotify
    · exact Or.inr hrest

theorem Inv.storeHead (h : Inv s) {c : UInt8} {head : UInt64} (hroom : Room s.ring head 0) :
    Inv { s.setHead head with
      put := if c = 0x0a then .notify else .idle
      pending := decide (c ≠ 0x0a) } where
  room := hroom.fits
  putting := by
    show Putting _ (if c = 0x0a then .notify else .idle)
    split <;> trivial
  draining := h.draining.frame rfl hroom.after
  caught _ := by
    by_cases hc : c = 0x0a
    · exact Or.inl (Or.inr (if_pos hc))
    · exact Or.inl (Or.inl (decide_eq_true hc))

theorem Inv.putStep (h : Inv s) : Inv s.putStep := by
  have hp := h.putting
  unfold MirrorState.putStep
  split <;> rename_i hput <;> rw [hput] at hp
  case h_1 => exact h
  case h_2 c =>
    refine h.put_moves (by simp [hput]) ?_
    split
    · exact Or.inl rfl
    · rfl
  case h_3 c head =>
    obtain rfl : head = s.ring.head := hp
    split
    · next hroom =>
      have hfits := (h.room_iff (Nat.le_refl _)).mp hroom
      refine h.put_moves (by simp [hput]) (hfits.weaken ?_)
      have hlen := reportDropped_length s.dropped
      have hsixtyFour : (64 : UInt64).toNat = 64 := rfl
      omega
    · exact h.put_moves (by simp [hput]) rfl
  case h_4 c head => exact h.put_moves (by simp [hput]) (Or.inr hp)
  case h_5 c head b text =>
    have hroom : Room s.ring head (text.length + 1 + 1) := hp
    exact h.put_moves (by simp [hput]) hroom.next
  case h_6 c head =>
    -- A byte that follows a report has the room that the report left for it.
    refine h.put_moves (by simp [hput]) ?_
    rcases hp with rfl | hroom
    · split
      · next hroom => exact (h.room_iff (by decide)).mp hroom
      · rfl
    · rw [if_pos hroom.hasRoom]
      exact hroom
  case h_7 head =>
    obtain rfl : head = s.ring.head := hp
    exact h.put_moves (by simp [hput]) trivial
  case h_8 c head =>
    have hroom : Room s.ring head 1 := hp
    exact h.put_moves (by simp [hput]) hroom.next
  case h_9 c head => exact h.storeHead hp
  case h_10 =>
    exact ⟨h.room, trivial, h.draining, fun _ => Or.inr (Or.inl rfl)⟩

theorem Inv.mirrorNotify (h : Inv s) : Inv s.mirrorNotify := by
  unfold MirrorState.mirrorNotify
  split
  · exact ⟨h.room, h.putting, h.draining, fun _ => Or.inr (Or.inl rfl)⟩
  · exact h

/-! ## fbcon -/

/-- A step of fbcon that leaves the ring alone and goes on reading. -/
theorem Inv.fbcon_reads (h : Inv s) {pc : FbconPc} {screen : Option Screen}
    (hpc : Draining s.ring pc) (hreading : reading { s with fbcon := pc }) :
    Inv { s with fbcon := pc, screen := screen } :=
  ⟨h.room, h.putting, hpc, fun _ => Or.inr (Or.inr hreading)⟩

/-- fbcon has stored its tail. -/
theorem Inv.fbcon_stores (h : Inv s) {tail : UInt64} {any : Bool} {pc : FbconPc}
    (hfbcon : s.fbcon = .storeTail tail any) (hpc : pc = .render ∨ pc = .waiting) :
    Inv { s.setTail tail with fbcon := pc } := by
  have htail : span s.ring.tail tail ≤ span s.ring.tail s.ring.head := by
    have hd := h.draining
    rw [hfbcon] at hd
    exact hd
  have hseen : s.seen = tail := by rw [seen, hfbcon]
  refine ⟨?_, h.putting.advance htail, ?_, ?_⟩
  · have hroom := h.room
    show span tail s.ring.head ≤ consoleRingCapacity
    rw [span_advance htail]
    omega
  · rcases hpc with rfl | rfl <;> trivial
  · intro hne
    have hold : s.ring.head ≠ s.seen := by
      rw [hseen]
      rcases hpc with rfl | rfl <;> exact hne
    rcases h.caught hold with howing | hsignal | hreading
    · exact Or.inl howing
    · exact Or.inr (Or.inl hsignal)
    · rw [reading, hfbcon] at hreading
      exact hreading.elim

theorem Inv.fbconStep (h : Inv s) : Inv s.fbconStep := by
  have hd := h.draining
  have hcaught := h.caught
  unfold MirrorState.fbconStep
  split <;> rename_i hfbcon <;> rw [hfbcon] at hd
  case h_1 => exact h
  case h_2 =>
    refine h.fbcon_reads ?_ trivial
    show span s.ring.tail s.ring.tail ≤ _
    rw [span_self]
    exact Nat.zero_le _
  case h_3 tail any =>
    split
    · next he =>
      refine ⟨h.room, h.putting, hd, ?_⟩
      intro hne
      exact absurd he.symm hne
    · next hne =>
      refine h.fbcon_reads (Nat.lt_of_le_of_ne hd ?_) trivial
      intro he
      exact hne (span_inj he)
  case h_4 tail =>
    refine h.fbcon_reads ?_ trivial
    have hlt : span s.ring.tail tail < span s.ring.tail s.ring.head := hd
    have hbound := span_lt s.ring.tail s.ring.head
    show span s.ring.tail (tail + 1) ≤ _
    rw [span_succ (by omega)]
    exact hlt
  case h_5 tail any =>
    refine h.fbcon_stores hfbcon ?_
    split
    · exact Or.inl rfl
    · exact Or.inr rfl
  case h_6 =>
    refine ⟨h.room, h.putting, trivial, ?_⟩
    intro hne
    have hold : s.ring.head ≠ s.seen := by
      rw [seen, hfbcon]
      exact hne
    rcases hcaught hold with howing | hsignal | hreading
    · exact Or.inl howing
    · exact Or.inr (Or.inl hsignal)
    · rw [reading, hfbcon] at hreading
      exact hreading.elim

/-! ## All steps -/

theorem Inv.step {t : MirrorState} {a : Act} (h : Inv s) (hs : s.step a = some t) : Inv t := by
  cases a with
  | putc c =>
    simp only [MirrorState.step] at hs
    split at hs
    · next hput =>
      obtain rfl := Option.some.inj hs
      refine ⟨h.room, trivial, h.draining, ?_⟩
      intro hne
      rcases h.caught hne with (hpending | hnotify) | hrest
      · exact Or.inl (Or.inl hpending)
      · rw [hput] at hnotify
        cases hnotify
      · exact Or.inr hrest
    · cases hs
  | tracer =>
    simp only [MirrorState.step] at hs
    split at hs
    · cases hs
    · obtain rfl := Option.some.inj hs
      exact h.putStep
  | mirrorNotify =>
    simp only [MirrorState.step] at hs
    split at hs
    · next hput =>
      obtain rfl := Option.some.inj hs
      exact h.mirrorNotify
    · cases hs
  | notified =>
    simp only [MirrorState.step] at hs
    split at hs
    · obtain rfl := Option.some.inj hs
      exact ⟨h.room, h.putting, trivial, fun _ => Or.inr (Or.inr trivial)⟩
    · cases hs
  | fbcon =>
    simp only [MirrorState.step] at hs
    split at hs
    · cases hs
    · obtain rfl := Option.some.inj hs
      exact h.fbconStep

theorem inv_of_reachable {screen : Option Screen} (hs : (mirror screen).Reachable s) : Inv s :=
  Automaton.reachable_induction (inv_start screen) (fun _ _ _ hI ht => hI.step ht) hs

/-- When nobody is to do anything about the ring, it is empty. -/
theorem Inv.empty (h : Inv s) (hput : s.put = .idle) (hpending : s.pending = false)
    (hsignal : s.signal = false) (hfbcon : s.fbcon = .waiting) : s.ring.head = s.ring.tail := by
  have hseen : s.seen = s.ring.tail := by rw [seen, hfbcon]
  by_contra hne
  rw [← hseen] at hne
  rcases h.caught hne with (howing | howing) | hset | hreading
  · simp [hpending] at howing
  · simp [hput] at howing
  · simp [hsignal] at hset
  · rw [reading, hfbcon] at hreading
    exact hreading

end MirrorState
end Mirror
end TensorSel4
