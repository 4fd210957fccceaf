/-
The VMM's breadcrumb, and uartrx's report of it.

`breadcrumb_enter` and `breadcrumb_leave` are taken apart into their stores, so the
VMM may be stopped between any two of them.  uartrx loads the fields in the order
of `report_vmm_breadcrumb`; a load may return any version that release and acquire
allow.  `done` is history: the handlers that have returned, with their two times.
-/
import TensorSel4.Automaton.Run
import TensorSel4.Command.Host
import TensorSel4.Memory.Published

namespace TensorSel4
namespace Vmm

open Published Command

namespace Breadcrumb

/-- The fields of `struct vmm_breadcrumb`. -/
inductive Field where
  | seq
  | phase
  | since
  | label
  | mr0
  | mr1
  | consoleWaits
deriving DecidableEq

abbrev Log := List (Write Field UInt64)

/-- The ring's memory starts zeroed. -/
def zeroed : Field → UInt64 := fun _ => 0

/-- `__atomic_store_n(.., __ATOMIC_RELAXED)` -/
def storeField (log : Log) (f : Field) (v : UInt64) : Log := log ++ [⟨f, v, false⟩]

/-- `__atomic_fetch_add(.., 1, ..)` -/
def fetchAdd (log : Log) (f : Field) (release : Bool) : Log :=
  log ++ [⟨f, current zeroed f log + 1, release⟩]

/-- An entry of the VMM. -/
inductive Event where
  | notified (ch : UInt64)
  | fault (label mr0 mr1 : UInt64)

namespace Event

def phase : Event → UInt64
  | .notified _ => vmmPhaseNotified
  | .fault _ _ _ => vmmPhaseFault

def label : Event → UInt64
  | .notified ch => ch
  | .fault label _ _ => label

def mr0 : Event → UInt64
  | .notified _ => 0
  | .fault _ mr0 _ => mr0

def mr1 : Event → UInt64
  | .notified _ => 0
  | .fault _ _ mr1 => mr1

end Event

/-- Before which store the VMM is. -/
inductive Pc where
  | idle
  | label (e : Event)
  | mr0 (e : Event)
  | mr1 (e : Event)
  | since (e : Event)
  | phase (e : Event) (entered : UInt64)
  | seq (e : Event) (entered : UInt64)
  | handling (e : Event) (entered : UInt64)
  | leaveSince (e : Event) (entered : UInt64)
  | leavePhase (e : Event) (entered left : UInt64)
  | leaveSeq (e : Event) (entered left : UInt64)

/-- The relaxed stores of `breadcrumb_enter`, `breadcrumb_leave` and `set_phase`, in program
order. -/
def Pc.store (now : UInt64) : Pc → Option (Field × UInt64 × Pc)
  | .label e => some (.label, e.label, .mr0 e)
  | .mr0 e => some (.mr0, e.mr0, .mr1 e)
  | .mr1 e => some (.mr1, e.mr1, .since e)
  | .since e => some (.since, now, .phase e now)
  | .phase e t => some (.phase, e.phase, .seq e t)
  | .leaveSince e t => some (.since, now, .leavePhase e t now)
  | .leavePhase e t t' => some (.phase, vmmPhaseIdle, .leaveSeq e t t')
  | .idle | .seq _ _ | .handling _ _ | .leaveSeq _ _ _ => none

structure Handled where
  event : Event
  entered : UInt64
  left : UInt64

/-- The loads of `report_vmm_breadcrumb`, in its order. -/
def reportOrder : List Field :=
  [.seq, .since, .phase, .label, .mr0, .mr1, .consoleWaits]

/-- What a load returned, and which version that was. -/
structure Loaded where
  number : Nat
  value : UInt64

structure System where
  log : Log := []
  pc : Pc := .idle
  done : List Handled := []
  seen : Nat := 0
  loaded : List Loaded := []

inductive Act where
  | enter (e : Event)
  /-- The next store of `breadcrumb_enter` or `breadcrumb_leave`; `now` is the clock. -/
  | vmm (now : UInt64)
  | consoleWait
  | leave
  | report
  /-- uartrx loads its next field as it was after `q` writes. -/
  | load (q : Nat)

namespace System

/-- A relaxed store, or the increment of `seq`. -/
def vmm (s : System) (now : UInt64) : Option System :=
  match s.pc.store now with
  | some (f, v, pc) => some { s with log := storeField s.log f v, pc }
  | none =>
    match s.pc with
    | .seq e t => some { s with log := fetchAdd s.log .seq true, pc := .handling e t }
    | .leaveSeq e t t' =>
      some { s with
        log := fetchAdd s.log .seq true
        pc := .idle
        done := s.done ++ [⟨e, t, t'⟩] }
    | _ => none

/-- The load of `seq` acquires, the others are relaxed. -/
def load (s : System) (q : Nat) : Option System :=
  match reportOrder[s.loaded.length]? with
  | none => none
  | some f =>
    if s.seen ≤ q ∧ q ≤ s.log.length then
      some { s with
        loaded := s.loaded ++ [⟨count f (s.log.take q), valueAt zeroed f s.log q⟩]
        seen := if f = .seq then max s.seen (released f s.log q) else s.seen }
    else none

def step (s : System) : Act → Option System
  | .enter e =>
    match s.pc with
    | .idle => some { s with pc := .label e }
    | _ => none
  | .vmm now => s.vmm now
  | .consoleWait =>
    match s.pc with
    | .idle | .handling _ _ => some { s with log := fetchAdd s.log .consoleWaits false }
    | _ => none
  | .leave =>
    match s.pc with
    | .handling e t => some { s with pc := .leaveSince e t }
    | _ => none
  | .report => some { s with loaded := [] }
  | .load q => s.load q

end System

def crumbs : Automaton System Act where
  start := {}
  step := System.step

/-! ## What has been stored -/

/-- The stores of `f` by one handler that has returned, but for `seq`. -/
def Handled.stores (h : Handled) : Field → List UInt64
  | .phase => [h.event.phase, vmmPhaseIdle]
  | .since => [h.entered, h.left]
  | .label => [h.event.label]
  | .mr0 => [h.event.mr0]
  | .mr1 => [h.event.mr1]
  | .seq | .consoleWaits => []

/-- The stores of `f` by the handler that the VMM is in, but for `seq`. -/
def Pc.stores : Pc → Field → List UInt64
  | .idle, _ | .label _, _ => []
  | .mr0 e, f => match f with
    | .label => [e.label]
    | _ => []
  | .mr1 e, f => match f with
    | .label => [e.label]
    | .mr0 => [e.mr0]
    | _ => []
  | .since e, f => match f with
    | .label => [e.label]
    | .mr0 => [e.mr0]
    | .mr1 => [e.mr1]
    | _ => []
  | .phase e t, f => match f with
    | .label => [e.label]
    | .mr0 => [e.mr0]
    | .mr1 => [e.mr1]
    | .since => [t]
    | _ => []
  | .seq e t, f | .handling e t, f | .leaveSince e t, f => match f with
    | .label => [e.label]
    | .mr0 => [e.mr0]
    | .mr1 => [e.mr1]
    | .since => [t]
    | .phase => [e.phase]
    | _ => []
  | .leavePhase e t t', f => match f with
    | .label => [e.label]
    | .mr0 => [e.mr0]
    | .mr1 => [e.mr1]
    | .since => [t, t']
    | .phase => [e.phase]
    | _ => []
  | .leaveSeq e t t', f => (Handled.mk e t t').stores f

/-- How often the handler that the VMM is in has published. -/
def Pc.published : Pc → Nat
  | .handling _ _ | .leaveSince _ _ | .leavePhase _ _ _ | .leaveSeq _ _ _ => 1
  | _ => 0

/-- Every publication comes after the stores that it publishes. -/
structure Ordered (log : Log) : Prop where
  phase : count .seq log ≤ count .phase log
  since : count .seq log ≤ count .since log
  label : count .seq log ≤ 2 * count .label log
  mr0 : count .seq log ≤ 2 * count .mr0 log
  mr1 : count .seq log ≤ 2 * count .mr1 log

structure Stored (s : System) : Prop where
  fields : ∀ f, f ≠ .seq → f ≠ .consoleWaits →
    versions f s.log = s.done.flatMap (·.stores f) ++ s.pc.stores f
  seq : versions .seq s.log =
    (List.range (2 * s.done.length + s.pc.published)).map fun i => UInt64.ofNat (i + 1)
  release : ∀ w ∈ s.log, w.loc = .seq → w.release = true
  ordered : ∀ q, Ordered (s.log.take q)

theorem length_flatMap_stores (done : List Handled) (f : Field) :
    (done.flatMap (·.stores f)).length = match f with
      | .phase | .since => 2 * done.length
      | .label | .mr0 | .mr1 => done.length
      | .seq | .consoleWaits => 0 := by
  induction done with
  | nil => cases f <;> rfl
  | cons h done ih =>
    rw [List.flatMap_cons, List.length_append, ih]
    cases f <;> simp only [Handled.stores, List.length_cons, List.length_nil] <;> omega

section

variable {s : System}

/-- The order follows from what has been stored, wherever the VMM is. -/
theorem ordered_of_stores
    (hfields : ∀ f, f ≠ .seq → f ≠ .consoleWaits →
      versions f s.log = s.done.flatMap (·.stores f) ++ s.pc.stores f)
    (hseq : versions .seq s.log =
      (List.range (2 * s.done.length + s.pc.published)).map fun i => UInt64.ofNat (i + 1)) :
    Ordered s.log := by
  have hcount : ∀ f, f ≠ .seq → f ≠ .consoleWaits →
      count f s.log = (s.done.flatMap (·.stores f)).length + (s.pc.stores f).length := by
    intro f h h'
    rw [count, hfields f h h', List.length_append]
  have hc : count .seq s.log = 2 * s.done.length + s.pc.published := by
    rw [count, hseq, List.length_map, List.length_range]
  constructor <;> rw [hc, hcount _ (by decide) (by decide), length_flatMap_stores] <;>
    dsimp only <;> cases s.pc <;>
    simp only [Pc.published, Pc.stores, Handled.stores, List.length_cons, List.length_nil] <;>
    omega

theorem count_seq (h : Stored s) : count .seq s.log = 2 * s.done.length + s.pc.published := by
  rw [count, h.seq, List.length_map, List.length_range]

theorem version_seq (h : Stored s) {n : Nat} (hn : n ≤ count .seq s.log) :
    version zeroed .seq s.log n = UInt64.ofNat n := by
  rw [count_seq h] at hn
  cases n with
  | zero => rfl
  | succ n =>
    rw [version, h.seq, List.getD_eq_getElem?_getD, List.getElem?_map, List.getElem?_range (by omega)]
    rfl

theorem Pc.store_spec {pc pc' : Pc} {now v : UInt64} {f : Field}
    (h : pc.store now = some (f, v, pc')) :
    f ≠ .seq ∧ (∀ f', pc'.stores f' = pc.stores f' ++ if f' = f then [v] else []) ∧
      pc'.published = pc.published := by
  cases pc <;> simp only [Pc.store, reduceCtorEq, Option.some.injEq, Prod.mk.injEq] at h <;>
    obtain ⟨rfl, rfl, rfl⟩ := h <;>
    exact ⟨by decide, fun f' => by cases f' <;> rfl, rfl⟩

namespace Stored

/-- One of the breadcrumb's relaxed stores. -/
theorem store (h : Stored s) {f : Field} (v : UInt64) (pc : Pc) (hf : f ≠ .seq)
    (hpc : ∀ f', pc.stores f' = s.pc.stores f' ++ if f' = f then [v] else [])
    (hpub : pc.published = s.pc.published) :
    Stored { s with log := storeField s.log f v, pc } := by
  have hfields : ∀ f', f' ≠ .seq → f' ≠ .consoleWaits →
      versions f' (storeField s.log f v) = s.done.flatMap (·.stores f') ++ pc.stores f' := by
    intro f' h₁ h₂
    rw [hpc, ← List.append_assoc, ← h.fields f' h₁ h₂, storeField]
    by_cases hff : f' = f
    · rw [if_pos hff, hff, versions_append_self]
    · rw [if_neg hff, List.append_nil, versions_append_of_ne (Ne.symm hff)]
  have hseq : versions .seq (storeField s.log f v) =
      (List.range (2 * s.done.length + pc.published)).map fun i => UInt64.ofNat (i + 1) := by
    rw [hpub, ← h.seq, storeField, versions_append_of_ne hf]
  refine ⟨hfields, hseq, ?_, forall_take_append h.ordered ?_⟩
  · intro w hw hloc
    rcases List.mem_append.mp hw with hw | hw
    · exact h.release w hw hloc
    · obtain rfl := List.mem_singleton.mp hw
      exact absurd hloc hf
  · exact ordered_of_stores (s := { s with log := storeField s.log f v, pc }) hfields hseq

/-- The increment of `seq`. -/
theorem publish (h : Stored s) (pc : Pc) (done : List Handled)
    (hsame : ∀ f, done.flatMap (·.stores f) ++ pc.stores f =
      s.done.flatMap (·.stores f) ++ s.pc.stores f)
    (hpub : 2 * done.length + pc.published = 2 * s.done.length + s.pc.published + 1) :
    Stored { s with log := fetchAdd s.log .seq true, pc, done } := by
  have hfields : ∀ f, f ≠ .seq → f ≠ .consoleWaits →
      versions f (fetchAdd s.log .seq true) = done.flatMap (·.stores f) ++ pc.stores f := by
    intro f h₁ h₂
    rw [hsame, ← h.fields f h₁ h₂, fetchAdd, versions_append_of_ne (Ne.symm h₁)]
  have hseq : versions .seq (fetchAdd s.log .seq true) =
      (List.range (2 * done.length + pc.published)).map fun i => UInt64.ofNat (i + 1) := by
    rw [hpub, List.range_succ, List.map_append, ← h.seq, fetchAdd, versions_append_self,
      current_eq, version_seq h (Nat.le_refl _), count_seq h, List.map_singleton,
      UInt64.ofNat_add _ 1]
    rfl
  refine ⟨hfields, hseq, ?_, forall_take_append h.ordered ?_⟩
  · intro w hw hloc
    rcases List.mem_append.mp hw with hw | hw
    · exact h.release w hw hloc
    · obtain rfl := List.mem_singleton.mp hw
      rfl
  · exact ordered_of_stores (s := { s with log := fetchAdd s.log .seq true, pc, done }) hfields hseq

theorem consoleWait (h : Stored s) :
    Stored { s with log := fetchAdd s.log .consoleWaits false } := by
  have hfields : ∀ f, f ≠ .seq → f ≠ .consoleWaits →
      versions f (fetchAdd s.log .consoleWaits false) =
        s.done.flatMap (·.stores f) ++ s.pc.stores f := by
    intro f h₁ h₂
    rw [← h.fields f h₁ h₂, fetchAdd, versions_append_of_ne (Ne.symm h₂)]
  have hseq : versions .seq (fetchAdd s.log .consoleWaits false) =
      (List.range (2 * s.done.length + s.pc.published)).map fun i => UInt64.ofNat (i + 1) := by
    rw [← h.seq, fetchAdd, versions_append_of_ne (show Field.consoleWaits ≠ .seq by decide)]
  refine ⟨hfields, hseq, ?_, forall_take_append h.ordered ?_⟩
  · intro w hw hloc
    rcases List.mem_append.mp hw with hw | hw
    · exact h.release w hw hloc
    · obtain rfl := List.mem_singleton.mp hw
      cases hloc
  · exact ordered_of_stores (s := { s with log := fetchAdd s.log .consoleWaits false }) hfields hseq

/-- The VMM moves without a store. -/
theorem move (h : Stored s) (pc : Pc) (hpc : ∀ f, pc.stores f = s.pc.stores f)
    (hpub : pc.published = s.pc.published) : Stored { s with pc } :=
  ⟨fun f h₁ h₂ => by rw [hpc, ← h.fields f h₁ h₂], by rw [hpub, ← h.seq], h.release, h.ordered⟩

theorem vmm (h : Stored s) {now : UInt64} {t : System} (ht : s.vmm now = some t) : Stored t := by
  rw [System.vmm] at ht
  split at ht
  · next f v pc hstore =>
    obtain rfl := Option.some.inj ht
    obtain ⟨hf, hpc, hpub⟩ := Pc.store_spec hstore
    exact h.store v pc hf hpc hpub
  split at ht
  · next e t hpc =>
    obtain rfl := Option.some.inj ht
    apply h.publish _ _ _ (by rw [hpc]; rfl)
    intro f
    rw [hpc]
    rfl
  · next e t t' hpc =>
    obtain rfl := Option.some.inj ht
    apply h.publish
    · intro f
      rw [hpc, List.flatMap_append]
      simp [Pc.stores]
    · rw [hpc, List.length_append]
      simp only [Pc.published, List.length_singleton]
      omega
  · cases ht

/-- The loads of uartrx store nothing. -/
theorem of_eq (h : Stored s) {t : System} (hlog : t.log = s.log) (hpc : t.pc = s.pc)
    (hdone : t.done = s.done) : Stored t := by
  constructor
  · intro f h₁ h₂
    rw [hlog, hpc, hdone, h.fields f h₁ h₂]
  · rw [hlog, hpc, hdone, h.seq]
  · rw [hlog]
    exact h.release
  · rw [hlog]
    exact h.ordered

theorem step (h : Stored s) {a : Act} {t : System} (ht : s.step a = some t) : Stored t := by
  cases a with
  | enter e =>
    simp only [System.step] at ht
    split at ht
    · next hpc =>
      obtain rfl := Option.some.inj ht
      exact h.move _ (by rw [hpc]; intro f; rfl) (by rw [hpc]; rfl)
    · cases ht
  | vmm now => exact h.vmm ht
  | consoleWait =>
    simp only [System.step] at ht
    split at ht
    · obtain rfl := Option.some.inj ht
      exact h.consoleWait
    · obtain rfl := Option.some.inj ht
      exact h.consoleWait
    · cases ht
  | leave =>
    simp only [System.step] at ht
    split at ht
    · next e t hpc =>
      obtain rfl := Option.some.inj ht
      exact h.move _ (by rw [hpc]; intro f; rfl) (by rw [hpc]; rfl)
    · cases ht
  | report =>
    obtain rfl := Option.some.inj ht
    exact h.of_eq rfl rfl rfl
  | load q =>
    simp only [System.step, System.load] at ht
    split at ht
    · cases ht
    · split at ht
      · obtain rfl := Option.some.inj ht
        exact h.of_eq rfl rfl rfl
      · cases ht

end Stored

end

/-! ## What is loaded -/

/-- Version `n` of `f` is not from before publication `j`; a handler waits for the console any
number of times, so those before a publication are counted. -/
def newer (log : Log) (f : Field) (j n : Nat) : Prop :=
  match f with
  | .seq | .phase | .since => j ≤ n
  | .label | .mr0 | .mr1 => j ≤ 2 * n
  | .consoleWaits =>
    ∀ q, count .seq (log.take q) < j → count .consoleWaits (log.take q) ≤ n

theorem newer.mono {log : Log} {f : Field} {i j n : Nat} (h : newer log f j n) (hij : i ≤ j) :
    newer log f i n := by
  cases f with
  | consoleWaits => exact fun q hq => h q (Nat.lt_of_lt_of_le hq hij)
  | seq | phase | since | label | mr0 | mr1 =>
    simp only [newer] at h ⊢
    omega

/-- What is stored after a publication is not before it. -/
theorem newer.append {log : Log} {f : Field} {j n : Nat} (h : newer log f j n)
    (hj : j ≤ count .seq log) (rest : Log) : newer (log ++ rest) f j n := by
  cases f with
  | consoleWaits =>
    intro q hq
    rcases Nat.le_total q log.length with hle | hle
    · rw [List.take_append_of_le_length hle] at hq ⊢
      exact h q hq
    · have hcount := count_take_mono .seq (log ++ rest) hle
      rw [List.take_left] at hcount
      omega
  | seq | phase | since | label | mr0 | mr1 => exact h

theorem Ordered.newer {log : Log} (h : Ordered log) (f : Field) :
    newer log f (count .seq log) (count f log) := by
  cases f with
  | seq => exact Nat.le_refl _
  | phase => exact h.phase
  | since => exact h.since
  | label => exact h.label
  | mr0 => exact h.mr0
  | mr1 => exact h.mr1
  | consoleWaits => exact fun q _ => count_take_le .consoleWaits log q

structure Loads (s : System) : Prop where
  seen : s.seen ≤ s.log.length
  published : ∀ j : Loaded, s.loaded.head? = some j → j.number ≤ count .seq (s.log.take s.seen)
  loaded : ∀ (i : Nat) (f : Field) (l : Loaded), reportOrder[i]? = some f → s.loaded[i]? = some l →
    l.number ≤ count f s.log ∧ l.value = version zeroed f s.log l.number ∧
      ∀ j : Loaded, s.loaded.head? = some j → newer s.log f j.number l.number

section

variable {s : System}

namespace Loads

/-- The VMM's stores change no version that has been loaded. -/
theorem push (h : Loads s) (w : Write Field UInt64) {t : System} (hlog : t.log = s.log ++ [w])
    (hseen : t.seen = s.seen) (hloaded : t.loaded = s.loaded) : Loads t := by
  constructor
  · rw [hlog, hseen, List.length_append]
    exact Nat.le_add_right_of_le h.seen
  · intro j hj
    rw [hloaded] at hj
    rw [hlog, hseen, List.take_append_of_le_length h.seen]
    exact h.published j hj
  · intro i f l hf hl
    rw [hloaded] at hl ⊢
    obtain ⟨hn, hv, hnewer⟩ := h.loaded i f l hf hl
    have hmono : count f s.log ≤ count f t.log := by
      have hle := count_take_le f t.log s.log.length
      rwa [hlog, List.take_append_of_le_length (Nat.le_refl _), List.take_length, ← hlog] at hle
    refine ⟨Nat.le_trans hn hmono, ?_, ?_⟩
    · rw [hlog, version_append hn, hv]
    · intro j hj
      rw [hlog]
      exact (hnewer j hj).append
        (Nat.le_trans (h.published j hj) (count_take_le .seq s.log s.seen)) [w]

theorem of_eq (h : Loads s) {t : System} (hlog : t.log = s.log) (hseen : t.seen = s.seen)
    (hloaded : t.loaded = s.loaded) : Loads t := by
  constructor
  · rw [hlog, hseen]
    exact h.seen
  · rw [hlog, hseen, hloaded]
    exact h.published
  · rw [hlog, hloaded]
    exact h.loaded

/-- The first load is that of `seq`, and no other is. -/
theorem seq_iff {i : Nat} {f : Field} (hf : reportOrder[i]? = some f) : f = .seq ↔ i = 0 := by
  match i, hf with
  | 0, hf | 1, hf | 2, hf | 3, hf | 4, hf | 5, hf | 6, hf =>
    obtain rfl := Option.some.inj hf
    simp

theorem load (h : Loads s) (hs : Stored s) {q : Nat} {t : System} (ht : s.load q = some t) :
    Loads t := by
  rw [System.load] at ht
  split at ht
  · cases ht
  next f hf =>
  split at ht
  swap
  · cases ht
  next hq =>
  obtain ⟨hlow, hhigh⟩ := hq
  obtain rfl := Option.some.inj ht
  have hseen : s.seen ≤ (if f = .seq then max s.seen (released f s.log q) else s.seen) ∧
      (if f = .seq then max s.seen (released f s.log q) else s.seen) ≤ s.log.length := by
    have hle := released_le f s.log q
    split <;> omega
  have hnew : ∀ j : Loaded, s.loaded.head? = some j →
      newer s.log f j.number (count f (s.log.take q)) := by
    intro j hj
    have hle := Nat.le_trans (h.published j hj) (count_take_mono .seq s.log hlow)
    have htake := (((hs.ordered q).newer f).mono hle).append hle (s.log.drop q)
    rwa [List.take_append_drop] at htake
  refine ⟨hseen.2, ?_, ?_⟩
  · intro j hj
    cases hloaded : s.loaded with
    | nil =>
      rw [hloaded] at hf hj
      obtain rfl : f = .seq := (seq_iff hf).mpr rfl
      obtain rfl := Option.some.inj hj
      have hcount := count_released hs.release q
      dsimp only
      rw [if_pos rfl, ← hcount]
      exact count_take_mono .seq s.log (Nat.le_max_right ..)
    | cons l ls =>
      have hj' : s.loaded.head? = some j := by
        rw [hloaded] at hj ⊢
        exact hj
      exact Nat.le_trans (h.published j hj') (count_take_mono .seq s.log hseen.1)
  · intro i f' l hf' hl
    dsimp only at hl ⊢
    rcases Nat.lt_trichotomy i s.loaded.length with hi | hi | hi
    · rw [List.getElem?_append_left hi] at hl
      obtain ⟨hn, hv, hnewer⟩ := h.loaded i f' l hf' hl
      refine ⟨hn, hv, ?_⟩
      intro j hj
      apply hnewer
      rwa [List.head?_append_of_ne_nil _ (List.ne_nil_of_length_pos (by omega))] at hj
    · subst hi
      obtain rfl := Option.some.inj (hf.symm.trans hf')
      rw [List.getElem?_concat_length] at hl
      obtain rfl := Option.some.inj hl
      refine ⟨count_take_le f s.log q, valueAt_eq zeroed f s.log q, ?_⟩
      intro j hj
      cases hloaded : s.loaded with
      | nil =>
        rw [hloaded] at hf hj
        obtain rfl : f = .seq := (seq_iff hf).mpr rfl
        obtain rfl := Option.some.inj hj
        exact Nat.le_refl _
      | cons l ls =>
        rw [hloaded] at hj
        exact hnew j (by rw [hloaded]; exact hj)
    · rw [List.getElem?_eq_none] at hl
      · cases hl
      · rw [List.length_append, List.length_singleton]
        omega

theorem vmm (h : Loads s) {now : UInt64} {t : System} (ht : s.vmm now = some t) : Loads t := by
  rw [System.vmm] at ht
  split at ht
  · obtain rfl := Option.some.inj ht
    exact h.push _ rfl rfl rfl
  split at ht
  · obtain rfl := Option.some.inj ht
    exact h.push _ rfl rfl rfl
  · obtain rfl := Option.some.inj ht
    exact h.push _ rfl rfl rfl
  · cases ht

theorem step (h : Loads s) (hs : Stored s) {a : Act} {t : System} (ht : s.step a = some t) :
    Loads t := by
  cases a with
  | enter e =>
    simp only [System.step] at ht
    split at ht
    · obtain rfl := Option.some.inj ht
      exact h.of_eq rfl rfl rfl
    · cases ht
  | vmm now => exact h.vmm ht
  | consoleWait =>
    simp only [System.step] at ht
    split at ht
    · obtain rfl := Option.some.inj ht
      exact h.push _ rfl rfl rfl
    · obtain rfl := Option.some.inj ht
      exact h.push _ rfl rfl rfl
    · cases ht
  | leave =>
    simp only [System.step] at ht
    split at ht
    · obtain rfl := Option.some.inj ht
      exact h.of_eq rfl rfl rfl
    · cases ht
  | report =>
    obtain rfl := Option.some.inj ht
    exact ⟨h.seen, by simp, by simp⟩
  | load q => exact h.load hs ht

end Loads

theorem stored_of_reachable (hs : crumbs.Reachable s) : Stored s ∧ Loads s := by
  refine Automaton.reachable_induction (A := crumbs) (I := fun s => Stored s ∧ Loads s) ?_ ?_ hs
  · refine ⟨⟨fun f _ _ => by cases f <;> rfl, rfl, by simp [crumbs], ?_⟩, ⟨Nat.le_refl 0, ?_, ?_⟩⟩
    · intro q
      rw [show (crumbs.start.log.take q) = [] from List.take_nil]
      constructor <;> exact Nat.zero_le _
    · simp [crumbs]
    · simp [crumbs]
  · intro s a t h ht
    exact ⟨h.1.step ht, h.2.step h.1 ht⟩

/-! ## The report -/

theorem version_last {f : Field} {log : Log} {before : List UInt64} {v : UInt64}
    (h : versions f log = before ++ [v]) : version zeroed f log (count f log) = v := by
  rw [count, h, List.length_append, List.length_singleton, version, h]
  simp

/-- While the VMM is in a handler, each field's last version is the handler's. -/
theorem version_handling (h : Stored s) {f : Field} {v : UInt64} (hf : f ≠ .seq)
    (hf' : f ≠ .consoleWaits) (hv : s.pc.stores f = [v]) :
    version zeroed f s.log (count f s.log) = v := by
  apply version_last
  rw [h.fields f hf hf', hv]

/-- In the event loop, each field's last version is that of the last handler. -/
theorem version_idle (h : Stored s) (hpc : s.pc = .idle) {done : List Handled} {last : Handled}
    (hdone : s.done = done ++ [last]) {f : Field} (vs : List UInt64) {v : UInt64} (hf : f ≠ .seq)
    (hf' : f ≠ .consoleWaits) (hv : last.stores f = vs ++ [v]) :
    version zeroed f s.log (count f s.log) = v := by
  have hversions : versions f s.log = (done.flatMap (·.stores f) ++ vs) ++ [v] := by
    rw [h.fields f hf hf', hdone, List.flatMap_append, hpc]
    simp [Pc.stores, hv]
  exact version_last hversions

/-- Before the first handler, each field is as the ring's memory started. -/
theorem version_start (h : Stored s) (hpc : s.pc = .idle) (hdone : s.done = []) {f : Field}
    (hf : f ≠ .seq) (hf' : f ≠ .consoleWaits) : version zeroed f s.log (count f s.log) = 0 := by
  have hnone : count f s.log = 0 := by
    rw [count, h.fields f hf hf', hdone, hpc]
    rfl
  rw [hnone]
  rfl

/-- A field that is not older than the last publication is the last one, when the VMM is
between its stores. -/
theorem number_eq (h : Stored s) {f : Field} {n : Nat}
    (hpc : (∃ e entered, s.pc = .handling e entered) ∨ s.pc = .idle)
    (hf : f ≠ .seq) (hf' : f ≠ .consoleWaits) (hn : n ≤ count f s.log)
    (hnewer : newer s.log f (count .seq s.log) n) : n = count f s.log := by
  rw [count_seq h] at hnewer
  rw [count, h.fields f hf hf', List.length_append, length_flatMap_stores] at hn ⊢
  rcases hpc with ⟨e, entered, hpc⟩ | hpc <;> rw [hpc] at hnewer hn ⊢ <;> cases f <;>
    simp only [newer, Pc.published, Pc.stores, List.length_cons, List.length_nil] at hnewer hn ⊢ <;>
    omega

/-- What a report says, of whatever the VMM was doing meanwhile: its `seq` counts the
publications that uartrx has seen, every other field is at least as new as that, and if the
VMM has published nothing since and is in a handler or in its event loop, the report is
exactly of that handler, or of the last one and the time it was left. -/
theorem report_names_handler (hs : crumbs.Reachable s) {q t p l m₀ m₁ w : Loaded}
    (hr : s.loaded = [q, t, p, l, m₀, m₁, w]) :
    q.number ≤ count .seq s.log ∧ q.value = UInt64.ofNat q.number ∧
    (∀ (i : Nat) (f : Field) (x : Loaded), reportOrder[i]? = some f → s.loaded[i]? = some x →
      x.number ≤ count f s.log ∧ x.value = version zeroed f s.log x.number ∧
        newer s.log f q.number x.number) ∧
    (q.number = count .seq s.log →
      (∀ e entered, s.pc = .handling e entered →
        q.number = 2 * s.done.length + 1 ∧ p.value = e.phase ∧ t.value = entered ∧
          l.value = e.label ∧ m₀.value = e.mr0 ∧ m₁.value = e.mr1) ∧
      (s.pc = .idle →
        q.number = 2 * s.done.length ∧ p.value = vmmPhaseIdle ∧
          ∀ h, s.done.getLast? = some h →
            t.value = h.left ∧ l.value = h.event.label ∧ m₀.value = h.event.mr0 ∧
              m₁.value = h.event.mr1)) := by
  obtain ⟨hstored, hloads⟩ := stored_of_reachable hs
  have hhead : s.loaded.head? = some q := by rw [hr]; rfl
  have hall : ∀ (i : Nat) (f : Field) (x : Loaded), reportOrder[i]? = some f →
      s.loaded[i]? = some x → x.number ≤ count f s.log ∧
        x.value = version zeroed f s.log x.number ∧ newer s.log f q.number x.number := by
    intro i f x hf hx
    obtain ⟨hn, hv, hnewer⟩ := hloads.loaded i f x hf hx
    exact ⟨hn, hv, hnewer q hhead⟩
  obtain ⟨hqn, hqv, -⟩ := hall 0 .seq q rfl (by rw [hr]; rfl)
  refine ⟨hqn, ?_, hall, ?_⟩
  · rw [hqv, version_seq hstored hqn]
  intro hlast
  -- a field between stores: the version loaded is the last
  have hexact : ∀ (i : Nat) (f : Field) (x : Loaded), reportOrder[i]? = some f →
      s.loaded[i]? = some x → f ≠ .seq → f ≠ .consoleWaits →
      ((∃ e entered, s.pc = .handling e entered) ∨ s.pc = .idle) →
      x.value = version zeroed f s.log (count f s.log) := by
    intro i f x hf hx h₁ h₂ hpc
    obtain ⟨hn, hv, hnewer⟩ := hall i f x hf hx
    rw [hv, ← number_eq hstored hpc h₁ h₂ hn (hlast ▸ hnewer)]
  have hget : ∀ i : Nat, s.loaded[i]? = [q, t, p, l, m₀, m₁, w][i]? := fun i => by rw [hr]
  constructor
  · intro e entered hpc
    have hpc' : (∃ e entered, s.pc = .handling e entered) ∨ s.pc = .idle := .inl ⟨e, entered, hpc⟩
    refine ⟨?_, ?_, ?_, ?_, ?_, ?_⟩
    · rw [hlast, count_seq hstored, hpc]
      rfl
    · rw [hexact 2 .phase p rfl (hget 2) (by decide) (by decide) hpc']
      exact version_handling hstored (by decide) (by decide) (by rw [hpc]; rfl)
    · rw [hexact 1 .since t rfl (hget 1) (by decide) (by decide) hpc']
      exact version_handling hstored (by decide) (by decide) (by rw [hpc]; rfl)
    · rw [hexact 3 .label l rfl (hget 3) (by decide) (by decide) hpc']
      exact version_handling hstored (by decide) (by decide) (by rw [hpc]; rfl)
    · rw [hexact 4 .mr0 m₀ rfl (hget 4) (by decide) (by decide) hpc']
      exact version_handling hstored (by decide) (by decide) (by rw [hpc]; rfl)
    · rw [hexact 5 .mr1 m₁ rfl (hget 5) (by decide) (by decide) hpc']
      exact version_handling hstored (by decide) (by decide) (by rw [hpc]; rfl)
  · intro hpc
    have hpc' : (∃ e entered, s.pc = .handling e entered) ∨ s.pc = .idle := .inr hpc
    refine ⟨?_, ?_, ?_⟩
    · rw [hlast, count_seq hstored, hpc]
      rfl
    · rw [hexact 2 .phase p rfl (hget 2) (by decide) (by decide) hpc']
      cases hdone : s.done.getLast? with
      | none =>
        exact version_start hstored hpc (List.getLast?_eq_none_iff.mp hdone) (by decide) (by decide)
      | some h =>
        obtain ⟨before, hbefore⟩ := List.getLast?_eq_some_iff.mp hdone
        exact version_idle hstored hpc hbefore [h.event.phase] (by decide) (by decide) rfl
    · intro h hh
      obtain ⟨before, hbefore⟩ := List.getLast?_eq_some_iff.mp hh
      refine ⟨?_, ?_, ?_, ?_⟩
      · rw [hexact 1 .since t rfl (hget 1) (by decide) (by decide) hpc']
        exact version_idle hstored hpc hbefore [h.entered] (by decide) (by decide) rfl
      · rw [hexact 3 .label l rfl (hget 3) (by decide) (by decide) hpc']
        exact version_idle hstored hpc hbefore [] (by decide) (by decide) rfl
      · rw [hexact 4 .mr0 m₀ rfl (hget 4) (by decide) (by decide) hpc']
        exact version_idle hstored hpc hbefore [] (by decide) (by decide) rfl
      · rw [hexact 5 .mr1 m₁ rfl (hget 5) (by decide) (by decide) hpc']
        exact version_idle hstored hpc hbefore [] (by decide) (by decide) rfl

/-- A fault at the UART's page; uartrx reports it while the handler runs, and loads what it
still sees of the memory before the fault. -/
def midFault : List Act :=
  [.enter (.fault 5 0x10870000 1), .vmm 0, .vmm 0, .vmm 0, .vmm 24000, .vmm 0, .load 0, .vmm 0,
    .report, .load 6, .load 6, .load 6, .load 6, .load 6, .load 6, .load 6]

def duringFault : System := (crumbs.run crumbs.start midFault).getD {}

theorem duringFault_reachable : crumbs.Reachable duringFault := ⟨midFault, rfl⟩

theorem report_names_handler_duringFault :
    crumbs.Reachable duringFault ∧
      ∃ q t p l m₀ m₁ w : Loaded, duringFault.loaded = [q, t, p, l, m₀, m₁, w] ∧
        p.value = vmmPhaseFault ∧ t.value = 24000 ∧ l.value = 5 ∧ m₀.value = 0x10870000 ∧
          m₁.value = 1 :=
  have hr : duringFault.loaded = [⟨1, 1⟩, ⟨1, 24000⟩, ⟨1, vmmPhaseFault⟩, ⟨1, 5⟩,
      ⟨1, 0x10870000⟩, ⟨1, 1⟩, ⟨0, 0⟩] := rfl
  have h := report_names_handler duringFault_reachable hr
  have h' := (h.2.2.2 rfl).1 (.fault 5 0x10870000 1) 24000 rfl
  ⟨duringFault_reachable, _, _, _, _, _, _, _, rfl, h'.2⟩

end

end Breadcrumb
end Vmm
end TensorSel4
