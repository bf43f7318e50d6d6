import Repics.Lib.Transition
import Repics.Pva.Server.Entry

/-!
# Open periods of a PV

Half of what a PV is lies under the state lock, the other half in the
library.  `open` changes both while it holds the lock; `close` clears the
first half under the lock and closes the PV of the library after it has left
the lock.  Between the two another thread may take the lock.

`period` counts how often the library opened the PV.  For the record, `joined`
says in which period a client was registered, and `updates` which clients got
a post in which period.
-/

namespace Repics.Pva.Server

/-- Who holds the state lock: an `open` that the library has accepted, or a
post that is stored and not delivered. -/
inductive Section where
  | free
  | opening (value : Root)
  | delivering (desc : FieldDesc) (marks : BitSet)

/-- `closing` counts the calls of `close` that have left the lock and have not
closed the PV of the library. -/
structure Lifecycle (Pv : Type) where
  entry : PvEntry Pv
  lock : Section
  closing : Nat
  period : Nat
  joined : Nat → Nat
  updates : List (Nat × Nat)

/-- The library opens only a PV that is closed, a PV has a value exactly
while it has a type, and a post does not change the type. -/
structure Library.Periods {Pv : Type} (lib : Library Pv) : Prop where
  opened : ∀ {pv next desc field}, lib.open pv desc field = .ok next →
    lib.current pv = none ∧ lib.introspection next = some desc
  closed : ∀ pv, lib.introspection (lib.close pv) = none
  typed : ∀ pv, lib.current pv = none ↔ lib.introspection pv = none
  posted : ∀ {pv next marks field},
    lib.postDelta pv marks field = .ok next →
      lib.introspection next = lib.introspection pv

namespace Lifecycle

variable {Pv : Type}

inductive Label where
  | «open» (value : Root)
  | opened
  | post (value : Root)
  | deliver
  | close
  | closed
  | current
  | subscribe
  | subscribeSeeded (allowsRead : Bool) (queueSize : Nat)
  | depart (sub : Nat)

section Steps

variable (lib : Library Pv) (state : Lifecycle Pv)

/-- A subscription, for the record with its period. -/
def registered (result : Option (PvEntry Pv)) : Option (Lifecycle Pv) :=
  result.map fun entry => { state with
    entry := entry
    joined := fun sub =>
      if sub = state.entry.clients.length then state.period
      else state.joined sub }

/-- A section under the lock, or the part of it between two calls of the
library. -/
def next : Label → Option (Lifecycle Pv)
  | .open value =>
      match state.lock with
      | .free =>
          match lib.open state.entry.pv value.desc value.field with
          | .error _ => some state
          | .ok pv => some { state with
              entry := { state.entry with pv := pv }
              lock := .opening value
              period := state.period + 1 }
      | _ => none
  | .opened =>
      match state.lock with
      | .opening value => some { state with
          entry := { state.entry with
            marks := value.marks
            opened := some value.desc }
          lock := .free }
      | _ => none
  | .post value =>
      match state.lock with
      | .free =>
          match state.entry.store lib value with
          | .ok (some entry) => some { state with
              entry := entry
              lock := .delivering value.desc value.marks }
          | _ => some state
      | _ => none
  | .deliver =>
      match state.lock with
      | .delivering desc marks =>
          let served := state.entry.deliver lib desc marks
          some { state with
            entry := served
            lock := .free
            updates := if (lib.current state.entry.pv).isSome then
              state.updates ++ served.subs.map fun sub =>
                (sub, state.period)
              else state.updates }
      | _ => none
  | .close =>
      match state.lock with
      | .free => some { state with
          entry := { state.entry with
            subs := []
            marks := ∅
            opened := none }
          closing := state.closing + 1 }
      | _ => none
  | .closed =>
      match state.closing with
      | 0 => none
      | closing + 1 => some { state with
          entry := { state.entry with pv := lib.close state.entry.pv }
          closing := closing }
  | .current =>
      match state.lock with
      | .free => some state
      | _ => none
  | .subscribe =>
      match state.lock with
      | .free => state.registered (state.entry.subscribe lib)
      | _ => none
  | .subscribeSeeded allowsRead queueSize =>
      match state.lock with
      | .free => state.registered
          (state.entry.subscribeSeeded lib allowsRead queueSize)
      | _ => none
  | .depart sub =>
      (state.entry.depart sub).map fun entry =>
        { state with entry := entry }

/-- A PV that was just made. -/
structure Fresh : Prop where
  introspection : lib.introspection state.entry.pv = none
  subs : state.entry.subs = []
  marks : state.entry.marks = ∅
  opened : state.entry.opened = none
  lock : state.lock = .free
  closing : state.closing = 0
  updates : state.updates = []

end Steps

def system (lib : Library Pv) : Transition (Lifecycle Pv) Label :=
  .ofPartial (Fresh lib) (next lib)

/-- No `open` and no `close` is in progress. -/
def Quiet (state : Lifecycle Pv) : Prop :=
  state.closing = 0 ∧ ∀ value, state.lock ≠ .opening value

/-- The two halves agree, a closed PV has no subscribers and no marks, and
every subscriber was registered in the current period. -/
structure Agrees (lib : Library Pv) (state : Lifecycle Pv) : Prop where
  opened : state.entry.opened = lib.introspection state.entry.pv
  closed : state.entry.opened = none →
    state.entry.subs = [] ∧ state.entry.marks = ∅
  joined : ∀ sub ∈ state.entry.subs, state.joined sub = state.period

/-- The halves agree whenever it is quiet, and no client gets an update of a
period in which it was not registered. -/
def Consistent (lib : Library Pv) (state : Lifecycle Pv) : Prop :=
  (state.Quiet → state.Agrees lib) ∧
    ∀ update ∈ state.updates, state.joined update.1 = update.2

/-- While a `close` is on its way from the lock to the library, the PV is not
opened, and nobody subscribes to a value that is still there. -/
def InTime (lib : Library Pv) (state : Lifecycle Pv) : Label → Prop
  | .open value => ∀ pv,
      lib.open state.entry.pv value.desc value.field = .ok pv →
        state.closing = 0
  | .subscribe =>
      (lib.current state.entry.pv).isSome → state.closing = 0
  | .subscribeSeeded allowsRead _ => allowsRead →
      (lib.current state.entry.pv).isSome → state.closing = 0
  | _ => True

section Frame

variable {lib : Library Pv} {entry next : PvEntry Pv}

theorem retain_subset (lib : Library Pv) (value : PvField)
    (marked : List Str) (subs : List Nat) (clients : List Client) :
    (PvEntry.retain lib value marked subs clients).1 ⊆ subs := by
  induction subs generalizing clients with
  | nil => simp [PvEntry.retain]
  | cons sub subs induction =>
      rw [PvEntry.retain]
      split
      case h_1 offered kept _ =>
        intro other member
        cases kept with
        | true =>
            rcases List.mem_cons.mp member with same | later
            · exact same ▸ List.mem_cons_self
            · exact List.mem_cons_of_mem sub (induction offered later)
        | false => exact List.mem_cons_of_mem sub (induction offered member)

theorem retain_length (lib : Library Pv) (value : PvField)
    (marked : List Str) (subs : List Nat) (clients : List Client) :
    (PvEntry.retain lib value marked subs clients).2.length =
      clients.length := by
  induction subs generalizing clients with
  | nil => rfl
  | cons sub subs induction =>
      rw [PvEntry.retain]
      split
      case h_1 offered kept offer =>
        have same : offered.length = clients.length := by
          simp only [PvEntry.offer] at offer
          split at offer
          · rw [← (Prod.mk.inj offer).1]
          · split at offer
            · rw [← (Prod.mk.inj offer).1]
            · rw [← (Prod.mk.inj offer).1, List.length_set]
        exact (induction offered).trans same

theorem deliver_subset (lib : Library Pv) (entry : PvEntry Pv)
    (desc : FieldDesc) (marks : BitSet) :
    (entry.deliver lib desc marks).subs ⊆ entry.subs ∧
      (entry.deliver lib desc marks).clients.length =
        entry.clients.length := by
  simp only [PvEntry.deliver]
  split
  · exact ⟨List.Subset.refl _, rfl⟩
  · split
    · exact ⟨List.Subset.refl _, rfl⟩
    · exact ⟨retain_subset lib _ _ _ _, retain_length lib _ _ _ _⟩

end Frame

variable {lib : Library Pv} {state : Lifecycle Pv}

/-- What is known of the state at every step of a run in time. -/
structure Sound (lib : Library Pv) (state : Lifecycle Pv) : Prop where
  idle : state.closing = 0 → match state.lock with
    | .opening value =>
        lib.introspection state.entry.pv = some value.desc ∧
          state.entry.opened = none
    | _ => state.entry.opened = lib.introspection state.entry.pv
  busy : state.closing ≠ 0 →
    state.lock = .free ∧ state.entry.opened = none
  closed : state.entry.opened = none →
    state.entry.subs = [] ∧ state.entry.marks = ∅
  subs : ∀ sub ∈ state.entry.subs, state.joined sub = state.period ∧
    sub < state.entry.clients.length
  updates : ∀ update ∈ state.updates, state.joined update.1 = update.2 ∧
    update.1 < state.entry.clients.length

theorem Sound.consistent (sound : state.Sound lib) :
    state.Consistent lib := by
  refine ⟨?_, fun update member => (sound.updates update member).1⟩
  intro quiet
  refine ⟨?_, sound.closed, fun sub member => (sound.subs sub member).1⟩
  have idle := sound.idle quiet.1
  cases lock : state.lock with
  | opening value => exact absurd lock (quiet.2 value)
  | free => rwa [lock] at idle
  | delivering desc marks => rwa [lock] at idle

theorem Sound.registered (sound : state.Sound lib) {next : Lifecycle Pv}
    {wrap : PvField → Subscriber}
    (quiet : (lib.current state.entry.pv).isSome → state.closing = 0)
    (lawful : lib.Periods) (lock : state.lock = .free)
    (step : state.registered (state.entry.register lib wrap) = some next) :
    next.Sound lib := by
  obtain ⟨entry, registered, rfl⟩ := Option.map_eq_some_iff.mp step
  unfold PvEntry.register at registered
  cases current : lib.current state.entry.pv with
  | none => simp [current] at registered
  | some initial =>
      simp only [current, Option.some.injEq] at registered
      subst registered
      have closing := quiet (by rw [current]; rfl)
      have idle := sound.idle closing
      rw [lock] at idle
      have isOpen : state.entry.opened ≠ none := by
        intro closed
        have none_ := (lawful.typed _).mpr (idle.symm.trans closed)
        simp [current] at none_
      constructor
      · intro _
        rw [lock]
        exact idle
      · intro busy
        exact absurd closing busy
      · intro closed
        exact absurd closed isOpen
      · intro sub member
        simp only [List.length_append, List.length_singleton]
        rcases List.mem_append.mp member with old | new
        · obtain ⟨joined, known⟩ := sound.subs sub old
          rw [if_neg (Nat.ne_of_lt known)]
          exact ⟨joined, Nat.lt_succ_of_lt known⟩
        · rw [List.mem_singleton.mp new, if_pos rfl]
          exact ⟨rfl, Nat.lt_succ_self _⟩
      · intro update member
        simp only [List.length_append, List.length_singleton]
        obtain ⟨joined, known⟩ := sound.updates update member
        rw [if_neg (Nat.ne_of_lt known)]
        exact ⟨joined, Nat.lt_succ_of_lt known⟩

theorem Sound.opens (sound : state.Sound lib) (lawful : lib.Periods)
    {value : Root} {pv : Pv} (closing : state.closing = 0)
    (lock : state.lock = .free)
    (opened : lib.open state.entry.pv value.desc value.field = .ok pv) :
    Sound lib { state with
      entry := { state.entry with pv := pv }
      lock := .opening value
      period := state.period + 1 } := by
  obtain ⟨wasClosed, isOpen⟩ := lawful.opened opened
  have idle := sound.idle closing
  rw [lock] at idle
  have none_ : state.entry.opened = none :=
    idle.trans ((lawful.typed _).mp wasClosed)
  refine ⟨fun _ => ⟨isOpen, none_⟩, fun busy => absurd closing busy,
    sound.closed, ?_, sound.updates⟩
  intro sub member
  rw [(sound.closed none_).1] at member
  exact absurd member List.not_mem_nil

theorem Sound.stores (sound : state.Sound lib) (lawful : lib.Periods)
    {value : Root} {entry : PvEntry Pv} (lock : state.lock = .free)
    (stored : state.entry.store lib value = .ok (some entry)) :
    Sound lib { state with
      entry := entry
      lock := .delivering value.desc value.marks } := by
  obtain ⟨isOpen, outcome⟩ := PvEntry.store_cases stored
  rcases outcome with ⟨_, none_⟩ | ⟨_, pv, posted, some_⟩
  · simp at none_
  · obtain rfl := Option.some.inj some_
    have same := lawful.posted posted
    constructor
    · intro closing
      have idle := sound.idle closing
      rw [lock] at idle
      exact idle.trans same.symm
    · intro busy
      exact absurd ((sound.busy busy).2.symm.trans isOpen) (by simp)
    · intro closed
      exact absurd (closed.symm.trans isOpen) (by simp)
    · exact sound.subs
    · exact sound.updates

theorem Sound.delivers (sound : state.Sound lib) {desc : FieldDesc}
    {marks : BitSet} (lock : state.lock = .delivering desc marks) :
    Sound lib { state with
      entry := state.entry.deliver lib desc marks
      lock := .free
      updates := if (lib.current state.entry.pv).isSome then
        state.updates ++ (state.entry.deliver lib desc marks).subs.map
          fun sub => (sub, state.period)
        else state.updates } := by
  obtain ⟨pv, opened, marks_⟩ :=
    PvEntry.deliver_stored lib state.entry desc marks
  obtain ⟨fewer, length⟩ := deliver_subset lib state.entry desc marks
  constructor
  · intro closing
    have idle := sound.idle closing
    rw [lock] at idle
    exact opened.trans (idle.trans (by rw [pv]))
  · intro busy
    have free := (sound.busy busy).1
    rw [lock] at free
    simp at free
  · intro closed
    obtain ⟨subs, noMarks⟩ := sound.closed (opened.symm.trans closed)
    rw [subs] at fewer
    exact ⟨List.eq_nil_of_subset_nil fewer, marks_.trans noMarks⟩
  · intro sub member
    rw [length]
    exact sound.subs sub (fewer member)
  · intro update member
    rw [length]
    split at member
    · rcases List.mem_append.mp member with old | new
      · exact sound.updates update old
      · obtain ⟨sub, inside, rfl⟩ := List.mem_map.mp new
        exact sound.subs sub (fewer inside)
    · exact sound.updates update member

theorem Sound.closes (sound : state.Sound lib) (lawful : lib.Periods)
    {closing : Nat} (count : state.closing = closing + 1) :
    Sound lib { state with
      entry := { state.entry with pv := lib.close state.entry.pv }
      closing := closing } := by
  obtain ⟨lock, none_⟩ := sound.busy (by simp [count])
  refine ⟨?_, fun _ => ⟨lock, none_⟩, sound.closed, sound.subs,
    sound.updates⟩
  intro _
  rw [lock]
  exact none_.trans (lawful.closed state.entry.pv).symm

theorem Fresh.sound (fresh : state.Fresh lib) : state.Sound lib := by
  constructor
  · intro _
    rw [fresh.lock]
    exact fresh.opened.trans fresh.introspection.symm
  · intro busy
    exact absurd fresh.closing busy
  · intro _
    exact ⟨fresh.subs, fresh.marks⟩
  · intro sub member
    rw [fresh.subs] at member
    exact absurd member List.not_mem_nil
  · intro update member
    rw [fresh.updates] at member
    exact absurd member List.not_mem_nil

theorem Sound.step (lawful : lib.Periods) {label : Label}
    {next : Lifecycle Pv} (sound : state.Sound lib)
    (step : state.next lib label = some next)
    (inTime : state.InTime lib label) : next.Sound lib := by
  cases label with
  | «open» value =>
      simp only [Lifecycle.next] at step
      split at step
      case h_1 lock =>
        cases opened : lib.open state.entry.pv value.desc value.field with
        | error error =>
            simp only [opened, Option.some.injEq] at step
            exact step ▸ sound
        | ok pv =>
            simp only [opened, Option.some.injEq] at step
            subst step
            exact sound.opens lawful (inTime pv opened) lock opened
      case h_2 => simp at step
  | opened =>
      simp only [Lifecycle.next] at step
      split at step
      case h_1 value lock =>
        obtain rfl := Option.some.inj step
        have closing : state.closing = 0 := by
          apply Classical.byContradiction
          intro busy
          have free := (sound.busy busy).1
          rw [lock] at free
          simp at free
        have idle := sound.idle closing
        rw [lock] at idle
        refine ⟨fun _ => idle.1.symm, fun busy => absurd closing busy, ?_,
          sound.subs, sound.updates⟩
        intro closed
        simp at closed
      case h_2 => simp at step
  | post value =>
      simp only [Lifecycle.next] at step
      split at step
      case h_1 lock =>
        split at step
        case h_1 entry stored =>
          obtain rfl := Option.some.inj step
          exact sound.stores lawful lock stored
        case h_2 =>
          obtain rfl := Option.some.inj step
          exact sound
      case h_2 => simp at step
  | deliver =>
      simp only [Lifecycle.next] at step
      split at step
      case h_1 desc marks lock =>
        obtain rfl := Option.some.inj step
        exact sound.delivers lock
      case h_2 => simp at step
  | close =>
      simp only [Lifecycle.next] at step
      split at step
      case h_1 lock =>
        obtain rfl := Option.some.inj step
        refine ⟨?_, fun _ => ⟨lock, rfl⟩, fun _ => ⟨rfl, rfl⟩, ?_,
          sound.updates⟩
        · intro none_
          simp at none_
        · intro sub member
          exact absurd member List.not_mem_nil
      case h_2 => simp at step
  | closed =>
      simp only [Lifecycle.next] at step
      split at step
      case h_1 => simp at step
      case h_2 closing count =>
        obtain rfl := Option.some.inj step
        exact sound.closes lawful count
  | current =>
      simp only [Lifecycle.next] at step
      split at step
      case h_1 =>
        obtain rfl := Option.some.inj step
        exact sound
      case h_2 => simp at step
  | subscribe =>
      simp only [Lifecycle.next] at step
      split at step
      case h_1 lock => exact sound.registered inTime lawful lock step
      case h_2 => simp at step
  | subscribeSeeded allowsRead queueSize =>
      simp only [Lifecycle.next] at step
      split at step
      case h_1 lock =>
        unfold PvEntry.subscribeSeeded at step
        split at step
        case isTrue allowed =>
          exact sound.registered (inTime allowed) lawful lock step
        case isFalse => simp [Lifecycle.registered] at step
      case h_2 => simp at step
  | depart sub =>
      obtain ⟨entry, departed, rfl⟩ := Option.map_eq_some_iff.mp step
      obtain ⟨client, _, rfl⟩ := Option.map_eq_some_iff.mp departed
      exact ⟨sound.idle, sound.busy, sound.closed, by
        simpa using sound.subs, by simpa using sound.updates⟩

theorem sound_invariant (lawful : lib.Periods) :
    ((system lib).restrict (InTime lib)).Invariant (Sound lib) where
  initial _ := Fresh.sound
  preserved _ _ _ sound step := sound.step lawful step.1 step.2

/-- The calls of `close` that have left the lock close the PV of the library
one after another. -/
theorem closes_all (lawful : lib.Periods) (count : Nat)
    (state : Lifecycle Pv) (closing : state.closing = count + 1) :
    ∃ labels last, (system lib).Run state labels last ∧
      last.closing = 0 ∧ last.lock = state.lock ∧
      lib.introspection last.entry.pv = none ∧
      last.entry.opened = state.entry.opened ∧
      last.entry.subs = state.entry.subs := by
  have step : state.next lib .closed = some { state with
      entry := { state.entry with pv := lib.close state.entry.pv }
      closing := count } := by
    simp only [Lifecycle.next, closing]
  induction count generalizing state with
  | zero =>
      exact ⟨[.closed], _, .cons step (.nil _), rfl, rfl, lawful.closed _,
        rfl, rfl⟩
  | succ count induction =>
      obtain ⟨labels, last, run, done, lock, closed, opened, subs⟩ :=
        induction { state with
          entry := { state.entry with pv := lib.close state.entry.pv }
          closing := count + 1 } rfl rfl
      exact ⟨.closed :: labels, last, .cons step run, done, lock, closed,
        opened, subs⟩

/-- A PV that is open here or has a subscriber, and that the library is going
to close. -/
theorem closing_breaks (lawful : lib.Periods) (lock : state.lock = .free)
    (closing : state.closing ≠ 0)
    (left : state.entry.opened ≠ none ∨ state.entry.subs ≠ []) :
    (system lib).Breakable (Consistent lib) state := by
  obtain ⟨count, closing⟩ := Nat.exists_eq_succ_of_ne_zero closing
  obtain ⟨labels, last, run, done, lock', closed, opened, subs⟩ :=
    closes_all lawful count state closing
  refine ⟨labels, last, run, ?_⟩
  intro consistent
  have agrees := consistent.1 ⟨done, by simp [lock', lock]⟩
  have none_ := agrees.opened.trans closed
  rcases left with isOpen | hasSubs
  · exact isOpen (opened.symm.trans none_)
  · exact hasSubs (subs.symm.trans (agrees.closed none_).1)

theorem registered_breaks (lawful : lib.Periods) {next : Lifecycle Pv}
    {wrap : PvField → Subscriber} (lock : state.lock = .free)
    (closing : state.closing ≠ 0)
    (step : state.registered (state.entry.register lib wrap) = some next) :
    (system lib).Breakable (Consistent lib) next := by
  obtain ⟨entry, registered, rfl⟩ := Option.map_eq_some_iff.mp step
  unfold PvEntry.register at registered
  split at registered
  · simp at registered
  · simp only [Option.some.injEq] at registered
    subst registered
    exact closing_breaks lawful lock closing (.inr (by simp))

/-- The two halves stay consistent in every run in which no `close` is
between the lock and the library when the PV is opened or somebody subscribes
to the value that is still there; when one is, they may become
inconsistent. -/
theorem lifecycle_guards (lawful : lib.Periods) :
    (system lib).Guards (InTime lib) (Consistent lib) where
  enough _ reachable :=
    ((sound_invariant lawful).reachable reachable).consistent
  needed state label next _ step late := by
    cases label with
    | «open» value =>
        simp only [InTime, not_forall] at late
        obtain ⟨pv, opened, closing⟩ := late
        simp only [system, Transition.ofPartial, Lifecycle.next] at step
        split at step
        case h_1 =>
          simp only [opened, Option.some.injEq] at step
          subst step
          refine .step .opened rfl ?_
          exact closing_breaks lawful rfl closing (.inl (by simp))
        case h_2 => simp at step
    | subscribe =>
        simp only [InTime, Classical.not_imp] at late
        simp only [system, Transition.ofPartial, Lifecycle.next] at step
        split at step
        case h_1 lock => exact registered_breaks lawful lock late.2 step
        case h_2 => simp at step
    | subscribeSeeded allowsRead queueSize =>
        simp only [InTime, Classical.not_imp] at late
        simp only [system, Transition.ofPartial, Lifecycle.next] at step
        split at step
        case h_1 lock =>
          rw [PvEntry.subscribeSeeded, if_pos late.1] at step
          exact registered_breaks lawful lock late.2.2 step
        case h_2 => simp at step
    | _ => exact absurd trivial late

theorem inMemory_periods : Library.inMemory.Periods where
  opened := by
    intro pv next desc field opened
    cases pv with
    | none =>
        obtain rfl := Except.ok.inj opened
        exact ⟨rfl, rfl⟩
    | some stored => simp [Library.inMemory] at opened
  closed _ := rfl
  typed pv := by cases pv <;> simp [Library.inMemory]
  posted := by
    intro pv next marks field posted
    cases pv with
    | none => simp [Library.inMemory] at posted
    | some stored =>
        simp only [Library.inMemory] at posted
        split at posted
        · obtain rfl := Except.ok.inj posted
          rfl
        · simp at posted

theorem lifecycle_guards_inMemory :
    (system .inMemory).Guards (InTime .inMemory) (Consistent .inMemory) :=
  lifecycle_guards inMemory_periods

def made : Lifecycle (Option (FieldDesc × PvField)) :=
  ⟨⟨none, [], ∅, none, []⟩, .free, 0, 0, fun _ => 0, []⟩

/-- An integer. -/
def one : Root :=
  ⟨.scalar .long, .scalar (.long 1), {0}⟩

/-- A client subscribes between the two halves of a `close`; the PV is opened
again and posts. -/
def straggler : List Label :=
  [.open one, .opened, .close, .subscribe, .closed, .open one, .opened,
    .post one, .deliver]

/-- The subscriber outlives the `close` and gets a post of the next period;
before that the PV is closed and has a subscriber. -/
theorem subscriber_outlives_close :
    (∃ state, (system .inMemory).Reachable state ∧
      state.Quiet ∧ state.entry.opened = none ∧ state.entry.subs = [0] ∧
      ¬state.Consistent .inMemory) ∧
    ∃ state, (system .inMemory).Reachable state ∧
      state.joined 0 = 1 ∧ (0, 2) ∈ state.updates ∧
      ¬state.Consistent .inMemory := by
  have fresh : made.Fresh .inMemory :=
    ⟨rfl, rfl, rfl, rfl, rfl, rfl, rfl⟩
  constructor
  · have reachable : (system .inMemory).Reachable
        (((straggler.take 5).foldlM (next .inMemory) made).get rfl) :=
      ⟨made, straggler.take 5, fresh, .of_foldlM rfl⟩
    refine ⟨_, reachable, ⟨rfl, ?_⟩, rfl, rfl, ?_⟩
    · intro value
      exact Section.noConfusion
    · intro consistent
      have agrees := consistent.1 ⟨rfl, fun value => Section.noConfusion⟩
      exact absurd (agrees.closed rfl).1 (by decide)
  · have reachable : (system .inMemory).Reachable
        ((straggler.foldlM (next .inMemory) made).get rfl) :=
      ⟨made, straggler, fresh, .of_foldlM rfl⟩
    refine ⟨_, reachable, rfl, List.mem_singleton_self _, ?_⟩
    intro consistent
    exact absurd (consistent.2 (0, 2) (List.mem_singleton_self _))
      (by decide)

end Lifecycle

end Repics.Pva.Server
