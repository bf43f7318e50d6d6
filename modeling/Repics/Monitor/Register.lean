import Mathlib.Logic.Function.Basic
import Repics.Lib.Transition
import Repics.Monitor.Dispatcher

/-!
# Registering a subscription

`Dispatcher.add` holds the lock of the dispatcher while it opens the monitor
and puts the subscription in the table; the constructor assigns the `id` it
returns afterwards.  The hub may announce items as soon as the monitor is open.
The constructor is taken one statement at a time.  The drain loop plans a batch
under the lock and then runs `_event` and `_deliver` of the subscriptions it
found, which use the `id` to close, pause, or resume.  What is collapsed does
not matter here: some item of its subscription stays.

In a loop the constructor runs between two steps of the drain task.

`early`, `unset`, and `misdirected` are kept for the record: an item of a live
subscription was not planned, code of a subscription without an `id` ran, and
an `id` of another subscription was used.
-/

namespace Repics.Monitor.Register

/-- The statement of the constructor that comes next. -/
inductive Place where
  | acquire
  | subscribe
  | insert
  | release
  | start
  | assign
  | done
  deriving DecidableEq

/-- The lock is held before the statement. -/
def Place.critical : Place → Bool
  | .subscribe | .insert | .release => true
  | .acquire | .start | .assign | .done => false

/-- `sid` is what the hub gave out, `id` the attribute. -/
structure Sub where
  place : Place
  sid : Option Nat
  id : Option Nat
  closed : Bool

/-- What the drain loop does: the places of subscriptions are those in the list
of all. -/
inductive Drain where
  | planning (batch : List Nat)
  | running (planned : List Nat)
  | dead

/-- `holder` is the constructor that holds the lock. -/
structure State where
  subs : List Sub
  table : Nat → Option Nat
  holder : Option Nat
  launched : Bool
  nextId : Nat
  queue : List Nat
  drain : Drain
  early : Bool
  unset : Bool
  misdirected : Bool

/-- What `_event` or `_deliver` does with the `id`; `pause` is `resume` too. -/
inductive Act where
  | nothing
  | close
  | pause
  deriving DecidableEq

inductive Label where
  | create
  | construct (index : Nat)
  | close (index : Nat)
  | announce (sid : Nat)
  | recv
  | plan
  | event (act : Act)

namespace State

def put (state : State) (index : Nat) (sub : Sub) : State :=
  { state with subs := state.subs.set index sub }

/-- In a loop nothing runs while a constructor does. -/
def Ready (front : Front) (state : State) : Prop :=
  front.isLoop = true → ∀ sub ∈ state.subs, sub.place = .done

instance (front : Front) (state : State) : Decidable (state.Ready front) :=
  inferInstanceAs (Decidable (_ → _))

/-- One statement of the constructor. -/
def construct (state : State) (index : Nat) (sub : Sub) : Option State :=
  match sub.place with
  | .acquire =>
      if state.holder.isSome then none
      else some { state.put index { sub with place := .subscribe } with
        holder := some index }
  | .subscribe =>
      some { state.put index
          { sub with place := .insert, sid := some state.nextId } with
        nextId := state.nextId + 1 }
  | .insert =>
      sub.sid.map fun sid =>
        { state.put index { sub with place := .release } with
          table := Function.update state.table sid (some index) }
  | .release =>
      some { state.put index { sub with place := .start } with
        holder := none }
  | .start =>
      if state.holder.isSome then none
      else some { state.put index { sub with place := .assign } with
        launched := true }
  | .assign =>
      some (state.put index { sub with place := .done, id := sub.sid })
  | .done => none

/-- `Dispatcher.remove` with an `id`. -/
def remove (state : State) (id : Nat) : State :=
  { state with table := Function.update state.table id none }

/-- An item of a subscription that is open, whose number is not in the
table. -/
def isEarly (state : State) (sid : Nat) : Bool :=
  (state.table sid).isNone &&
    state.subs.any fun sub => sub.sid == some sid && !sub.closed

/-- The `id` stands for another subscription. -/
def misses (state : State) (index id : Nat) : Bool :=
  (state.table id).any fun other => other != index

/-- What code of the subscription does with its `id`; without one it
raises. -/
def act (state : State) (index : Nat) (sub : Sub) (rest : List Nat) :
    Act → Option State
  | .nothing => some { state with drain := .running rest }
  | .pause =>
      match sub.id with
      | none => some { state with drain := .dead }
      | some id => some { state with
          drain := .running rest
          misdirected := state.misdirected || state.misses index id }
  | .close =>
      let closed := state.put index { sub with closed := true }
      match sub.id with
      | none => some { closed with drain := .dead }
      | some id =>
          if state.holder.isSome then none
          else some { closed.remove id with
            drain := .running rest
            misdirected := state.misdirected || state.misses index id }

/-- `_event` of a closed subscription returns at once. -/
def event (state : State) (index : Nat) (sub : Sub) (rest : List Nat)
    (act : Act) : Option State :=
  let ran := { state with unset := state.unset || sub.id.isNone }
  if sub.closed then some { ran with drain := .running rest }
  else ran.act index sub rest act

variable (front : Front)

def next (state : State) : Label → Option State
  | .create =>
      if state.Ready front then
        some { state with
          subs := state.subs ++ [⟨.acquire, none, none, false⟩] }
      else none
  | .construct index =>
      state.subs[index]?.bind fun sub => state.construct index sub
  | .close index =>
      state.subs[index]?.bind fun sub =>
        if sub.place = .done ∧ state.holder = none then
          sub.id.map fun id =>
            (state.put index { sub with closed := true }).remove id
        else none
  | .announce sid =>
      if state.subs.any fun sub => sub.sid == some sid then
        some { state with queue := state.queue ++ [sid] }
      else none
  | .recv =>
      match state.drain with
      | .running [] =>
          if state.launched ∧ state.queue ≠ [] ∧ state.Ready front then
            some { state with queue := [], drain := .planning state.queue }
          else none
      | _ => none
  | .plan =>
      match state.drain with
      | .planning batch =>
          if state.holder = none ∧ state.Ready front then
            some { state with
              drain := .running (batch.filterMap state.table)
              early := state.early || batch.any state.isEarly }
          else none
      | _ => none
  | .event act =>
      match state.drain with
      | .running (index :: rest) =>
          if state.Ready front then
            state.subs[index]?.bind fun sub =>
              state.event index sub rest act
          else none
      | _ => none

def start : State :=
  ⟨[], fun _ => none, none, false, 1, [], .running [], false, false, false⟩

def system : Transition State Label :=
  .ofPartial (fun state => state = start) (next front)

/-- No item was lost to a table that did not have its subscription yet, code
of a subscription ran only with its `id`, which stood for no other, and the
drain loop is alive. -/
structure Registered (state : State) : Prop where
  early : state.early = false
  unset : state.unset = false
  misdirected : state.misdirected = false
  alive : state.drain ≠ .dead

/-- A batch is planned when the constructors of its subscriptions have assigned
their `id`. -/
def Assigned (state : State) : Label → Prop
  | .plan => ∀ batch, state.drain = .planning batch → ∀ sid ∈ batch,
      ∀ index sub, state.table sid = some index →
        state.subs[index]? = some sub → sub.id ≠ none
  | _ => True

end State

/-- One subscription beside the lock, the counter of the hub, and the table. -/
structure Sub.Sound (sub : Sub) (index : Nat) (state : State) : Prop where
  critical : sub.place.critical = true → state.holder = some index
  given : sub.sid = none ↔ sub.place = .acquire ∨ sub.place = .subscribe
  below : ∀ sid, sub.sid = some sid → sid < state.nextId
  unset : sub.place ≠ .done → sub.id = none
  set : sub.place = .done → sub.id = sub.sid
  present : ∀ sid, sub.sid = some sid → sub.closed = false →
    sub.place ≠ .insert → state.table sid = some index

theorem Sub.Sound.assigned {sub : Sub} {index id : Nat} {state : State}
    (sound : sub.Sound index state) (is : sub.id = some id) :
    sub.place = .done ∧ sub.sid = some id := by
  by_cases done : sub.place = .done
  · rw [← sound.set done]
    exact ⟨done, is⟩
  · rw [sound.unset done] at is
    simp at is

theorem Sub.Sound.frame {sub : Sub} {index : Nat} {state after : State}
    (sound : sub.Sound index state)
    (holder : state.holder = some index → after.holder = some index)
    (counter : state.nextId ≤ after.nextId)
    (table : ∀ sid, sub.sid = some sid → after.table sid = state.table sid) :
    sub.Sound index after where
  critical is := holder (sound.critical is)
  given := sound.given
  below sid is := Nat.lt_of_lt_of_le (sound.below sid is) counter
  unset := sound.unset
  set := sound.set
  present sid is open_ inserted := by
    rw [table sid is]
    exact sound.present sid is open_ inserted

namespace State

structure Sane (state : State) : Prop where
  sound : ∀ (index : Nat) (sub : Sub),
    state.subs[index]? = some sub → sub.Sound index state
  unique : ∀ (left right : Nat) (first second : Sub) (sid : Nat),
    state.subs[left]? = some first → state.subs[right]? = some second →
      first.sid = some sid → second.sid = some sid → left = right
  inside : ∀ sid index, state.table sid = some index →
    index < state.subs.length

variable {state after : State} {index : Nat} {sub changed : Sub}

theorem Sane.change (sane : state.Sane)
    (found : state.subs[index]? = some sub)
    (subs : after.subs = state.subs.set index changed)
    (own : changed.Sound index after)
    (others : ∀ (place : Nat) (other : Sub), place ≠ index →
      state.subs[place]? = some other → other.Sound place after)
    (sids : ∀ sid, changed.sid = some sid →
      sub.sid = some sid ∨ sid = state.nextId)
    (table : ∀ sid place, after.table sid = some place →
      state.table sid = some place ∨ place = index) : after.Sane := by
  have bound := (List.getElem?_eq_some_iff.mp found).1
  have here (place : Nat) (other : Sub)
      (isThere : after.subs[place]? = some other) :
      place = index ∧ other = changed ∨
        place ≠ index ∧ state.subs[place]? = some other := by
    rw [subs] at isThere
    by_cases same : place = index
    · subst same
      rw [List.getElem?_set_self bound] at isThere
      exact .inl ⟨rfl, (Option.some.inj isThere).symm⟩
    · rw [List.getElem?_set_ne (Ne.symm same)] at isThere
      exact .inr ⟨same, isThere⟩
  have apart (place : Nat) (other : Sub) (sid : Nat)
      (isThere : state.subs[place]? = some other)
      (first : changed.sid = some sid) (second : other.sid = some sid) :
      place = index := by
    rcases sids sid first with old | fresh
    · exact sane.unique _ _ _ _ sid isThere found second old
    · have less := (sane.sound place other isThere).below sid second
      omega
  constructor
  · intro place other isThere
    rcases here place other isThere with ⟨rfl, rfl⟩ | ⟨different, old⟩
    · exact own
    · exact others place other different old
  · intro left right first second sid leftThere rightThere isFirst isSecond
    rcases here left first leftThere with ⟨rfl, rfl⟩ | ⟨_, leftOld⟩
    · rcases here right second rightThere with ⟨rfl, rfl⟩ | ⟨_, rightOld⟩
      · rfl
      · exact (apart right second sid rightOld isFirst isSecond).symm
    · rcases here right second rightThere with ⟨rfl, rfl⟩ | ⟨_, rightOld⟩
      · exact apart left first sid leftOld isSecond isFirst
      · exact sane.unique left right first second sid leftOld rightOld
          isFirst isSecond
  · intro sid place isThere
    rw [subs, List.length_set]
    rcases table sid place isThere with old | rfl
    · exact sane.inside sid place old
    · exact bound

theorem Sane.same (sane : state.Sane)
    (same : after.subs = state.subs ∧ after.holder = state.holder ∧
      after.nextId = state.nextId ∧ after.table = state.table) :
    after.Sane := by
  obtain ⟨subs, holder, counter, table⟩ := same
  constructor
  · intro place other isThere
    rw [subs] at isThere
    apply (sane.sound place other isThere).frame
    · rw [holder]
      exact id
    · exact Nat.le_of_eq counter.symm
    · intro sid _
      rw [table]
  · rw [subs]
    exact sane.unique
  · rw [subs, table]
    exact sane.inside

/-- One subscription changes, and neither its number nor the table does; the
lock is not taken from another one. -/
theorem Sane.moves (sane : state.Sane)
    (found : state.subs[index]? = some sub)
    (subs : after.subs = state.subs.set index changed)
    (counter : after.nextId = state.nextId)
    (table : after.table = state.table)
    (holder : ∀ other, other ≠ index → state.holder = some other →
      after.holder = some other)
    (own : changed.Sound index after) (sid : changed.sid = sub.sid) :
    after.Sane := by
  apply sane.change found subs own
  · intro place other different isThere
    apply (sane.sound place other isThere).frame (holder place different)
    · exact Nat.le_of_eq counter.symm
    · intro number _
      rw [table]
  · intro number isNumber
    rw [sid] at isNumber
    exact .inl isNumber
  · intro number place isThere
    rw [table] at isThere
    exact .inl isThere

/-- One subscription changes, and with it the entry of its number in the
table. -/
theorem Sane.writes (sane : state.Sane)
    (found : state.subs[index]? = some sub) {sid : Nat}
    (isSid : sub.sid = some sid) {entry : Option Nat}
    (subs : after.subs = state.subs.set index changed)
    (counter : after.nextId = state.nextId)
    (table : after.table = Function.update state.table sid entry)
    (holder : after.holder = state.holder)
    (own : changed.Sound index after) (same : changed.sid = sub.sid)
    (entries : ∀ place, entry = some place → place = index) :
    after.Sane := by
  apply sane.change found subs own
  · intro place other different isThere
    apply (sane.sound place other isThere).frame
    · rw [holder]
      exact fun held => held
    · exact Nat.le_of_eq counter.symm
    · intro number isNumber
      have apart : number ≠ sid := by
        intro equal
        subst equal
        exact different (sane.unique place index other sub number isThere
          found isNumber isSid)
      rw [table, Function.update_of_ne apart]
  · intro number isNumber
    rw [same] at isNumber
    exact .inl isNumber
  · intro number place isThere
    rw [table] at isThere
    by_cases equal : number = sid
    · subst equal
      rw [Function.update_self] at isThere
      exact .inr (entries place isThere)
    · rw [Function.update_of_ne equal] at isThere
      exact .inl isThere

theorem Sane.shuts (sane : state.Sane)
    (found : state.subs[index]? = some sub) :
    (state.put index { sub with closed := true }).Sane := by
  have sound := sane.sound index sub found
  refine sane.moves found rfl rfl rfl (fun _ _ held => held) ?_ rfl
  exact ⟨sound.critical, sound.given, sound.below, sound.unset, sound.set,
    by simp⟩

theorem Sane.closes (sane : state.Sane)
    (found : state.subs[index]? = some sub) {id : Nat}
    (is : sub.id = some id) :
    ((state.put index { sub with closed := true }).remove id).Sane := by
  have sound := sane.sound index sub found
  have own := (sound.assigned is).2
  refine sane.writes found own rfl rfl rfl rfl ?_ rfl nofun
  exact ⟨sound.critical, sound.given, sound.below, sound.unset, sound.set,
    by simp⟩

theorem Sane.construct (sane : state.Sane)
    (found : state.subs[index]? = some sub)
    (step : state.construct index sub = some after) : after.Sane := by
  have sound := sane.sound index sub found
  have unset (early : sub.place ≠ .done) := sound.unset early
  have given (late : sub.place ≠ .acquire ∧ sub.place ≠ .subscribe) :
      sub.sid ≠ none := by
    rw [Ne, sound.given]
    simp [late]
  cases place : sub.place with
  | acquire =>
      simp only [State.construct, place, Option.ite_none_left_eq_some,
        Option.some.injEq] at step
      obtain ⟨free, rfl⟩ := step
      have none_ := sound.given.mpr (.inl place)
      refine sane.moves found rfl rfl rfl ?_ ?_ rfl
      · intro other _ held
        simp [held] at free
      · exact ⟨by simp, by simp [none_], by simp [none_],
          fun _ => unset (by simp [place]), by simp, by simp [none_]⟩
  | subscribe =>
      simp only [State.construct, place, Option.some.injEq] at step
      subst step
      have held := sound.critical (by simp [place, Place.critical])
      apply sane.change found rfl
      · exact ⟨fun _ => held, by simp, by simp,
          fun _ => unset (by simp [place]), by simp, by simp⟩
      · intro other isOther different isThere
        exact (sane.sound other isOther isThere).frame (fun held => held)
          (Nat.le_succ _) (fun _ _ => rfl)
      · intro sid isSid
        exact .inr (Option.some.inj isSid).symm
      · exact fun _ _ isThere => .inl isThere
  | insert =>
      simp only [State.construct, place, Option.map_eq_some_iff] at step
      obtain ⟨sid, isSid, rfl⟩ := step
      have held := sound.critical (by simp [place, Place.critical])
      refine sane.writes found isSid rfl rfl rfl rfl ?_ rfl
        fun place same => (Option.some.inj same).symm
      refine ⟨fun _ => held, by simp [isSid], sound.below,
        fun _ => unset (by simp [place]), by simp, ?_⟩
      intro other isOther _ _
      have same := isSid.symm.trans isOther
      simp only [Option.some.injEq] at same
      rw [← same]
      exact Function.update_self _ _ _
  | release =>
      simp only [State.construct, place, Option.some.injEq] at step
      subst step
      have held := sound.critical (by simp [place, Place.critical])
      refine sane.moves found rfl rfl rfl ?_ ?_ rfl
      · intro other different own
        exact absurd (Option.some.inj (own.symm.trans held)) different
      · exact ⟨by simp [Place.critical], by simp [given, place], sound.below,
          fun _ => unset (by simp [place]), by simp,
          fun sid isSid open_ _ => sound.present sid isSid open_
            (by simp [place])⟩
  | start =>
      simp only [State.construct, place, Option.ite_none_left_eq_some,
        Option.some.injEq] at step
      obtain ⟨_, rfl⟩ := step
      refine sane.moves found rfl rfl rfl (fun _ _ held => held) ?_ rfl
      exact ⟨by simp [Place.critical], by simp [given, place], sound.below,
        fun _ => unset (by simp [place]), by simp,
        fun sid isSid open_ _ => sound.present sid isSid open_
          (by simp [place])⟩
  | assign =>
      simp only [State.construct, place, Option.some.injEq] at step
      subst step
      refine sane.moves found rfl rfl rfl (fun _ _ held => held) ?_ rfl
      exact ⟨by simp [Place.critical], by simp [given, place], sound.below,
        by simp, fun _ => rfl,
        fun sid isSid open_ _ => sound.present sid isSid open_
          (by simp [place])⟩
  | done => simp [State.construct, place] at step

theorem Sane.create (sane : state.Sane) :
    Sane { state with
      subs := state.subs ++ [⟨.acquire, none, none, false⟩] } := by
  have here (place : Nat) (other : Sub) (isThere :
      (state.subs ++ [⟨.acquire, none, none, false⟩])[place]? = some other) :
      state.subs[place]? = some other ∨
        other = ⟨.acquire, none, none, false⟩ := by
    rw [List.getElem?_append] at isThere
    split at isThere
    · exact .inl isThere
    · have isNew := List.mem_of_getElem? isThere
      exact .inr (List.mem_singleton.mp isNew)
  constructor
  · intro place other isThere
    rcases here place other isThere with old | rfl
    · exact (sane.sound place other old).frame (fun held => held)
        (Nat.le_refl _) (fun _ _ => rfl)
    · exact ⟨by simp [Place.critical], by simp, by simp, by simp, by simp,
        by simp⟩
  · intro left right first second sid leftThere rightThere isFirst isSecond
    rcases here left first leftThere with leftOld | rfl
    · rcases here right second rightThere with rightOld | rfl
      · exact sane.unique left right first second sid leftOld rightOld
          isFirst isSecond
      · cases isSecond
    · cases isFirst
  · intro sid index isThere
    rw [List.length_append]
    exact Nat.lt_add_right 1 (sane.inside sid index isThere)

theorem Sane.not_misses (sane : state.Sane)
    (found : state.subs[index]? = some sub) (open_ : sub.closed = false)
    {id : Nat} (is : sub.id = some id) : state.misses index id = false := by
  have sound := sane.sound index sub found
  obtain ⟨done, own⟩ := sound.assigned is
  simp [misses, sound.present id own open_ (by simp [done])]

/-- While nobody holds the lock the open subscriptions are in the table. -/
theorem Sane.not_early (sane : state.Sane) (free : state.holder = none)
    (sid : Nat) : state.isEarly sid = false := by
  cases found : state.table sid with
  | some index => simp [isEarly, found]
  | none =>
      simp only [isEarly, found, Option.isNone_none, Bool.true_and,
        List.any_eq_false, Bool.and_eq_true, beq_iff_eq, Bool.not_eq_true',
        not_and]
      intro sub is isSid open_
      obtain ⟨index, isThere⟩ := List.mem_iff_getElem?.mp is
      have sound := sane.sound index sub isThere
      have inserted : sub.place ≠ .insert := by
        intro place
        have held := sound.critical (by simp [place, Place.critical])
        rw [free] at held
        cases held
      have present := sound.present sid isSid open_ inserted
      rw [found] at present
      cases present

/-- What holds in every run. -/
structure Kept (state : State) : Prop where
  sane : state.Sane
  early : state.early = false
  misdirected : state.misdirected = false

variable {front : Front}

theorem Kept.event (kept : state.Kept)
    (found : state.subs[index]? = some sub) {rest : List Nat} {act : Act}
    (step : state.event index sub rest act = some after) : after.Kept := by
  obtain ⟨sane, early, misdirected⟩ := kept
  unfold State.event at step
  split at step
  · obtain rfl := Option.some.inj step
    exact ⟨sane.same ⟨rfl, rfl, rfl, rfl⟩, early, misdirected⟩
  · next open_ =>
      rw [Bool.not_eq_true] at open_
      cases act with
      | nothing =>
          obtain rfl := Option.some.inj step
          exact ⟨sane.same ⟨rfl, rfl, rfl, rfl⟩, early, misdirected⟩
      | pause =>
          cases isId : sub.id with
          | none =>
              simp only [State.act, isId, Option.some.injEq] at step
              subst step
              exact ⟨sane.same ⟨rfl, rfl, rfl, rfl⟩, early, misdirected⟩
          | some id =>
              simp only [State.act, isId, Option.some.injEq] at step
              subst step
              refine ⟨sane.same ⟨rfl, rfl, rfl, rfl⟩, early, ?_⟩
              have own := sane.not_misses found open_ isId
              simpa [misdirected, misses] using own
      | close =>
          obtain ⟨place, sid, own, closed⟩ := sub
          cases own with
          | none =>
              obtain rfl := Option.some.inj step
              exact ⟨(sane.shuts found).same ⟨rfl, rfl, rfl, rfl⟩, early,
                misdirected⟩
          | some id =>
              simp only [State.act, Option.ite_none_left_eq_some,
                Option.some.injEq] at step
              obtain ⟨_, rfl⟩ := step
              refine ⟨(sane.closes found rfl).same ⟨rfl, rfl, rfl, rfl⟩,
                early, ?_⟩
              have own := sane.not_misses found open_ rfl
              simpa [misdirected, misses] using own

/-- A constructor does not touch the records or the drain loop. -/
structure Constructs (state after : State) (index : Nat) (sub : Sub) :
    Prop where
  early : after.early = state.early
  unset : after.unset = state.unset
  misdirected : after.misdirected = state.misdirected
  drain : after.drain = state.drain
  before : sub.place ≠ .done
  subs : ∃ changed, after.subs = state.subs.set index changed

theorem Constructs.of (step : state.construct index sub = some after) :
    Constructs state after index sub := by
  cases place : sub.place with
  | acquire | start =>
      simp only [State.construct, place, Option.ite_none_left_eq_some,
        Option.some.injEq] at step
      obtain ⟨_, rfl⟩ := step
      exact ⟨rfl, rfl, rfl, rfl, by simp [place], _, rfl⟩
  | insert =>
      simp only [State.construct, place, Option.map_eq_some_iff] at step
      obtain ⟨_, _, rfl⟩ := step
      exact ⟨rfl, rfl, rfl, rfl, by simp [place], _, rfl⟩
  | subscribe | release | assign =>
      simp only [State.construct, place, Option.some.injEq] at step
      subst step
      exact ⟨rfl, rfl, rfl, rfl, by simp [place], _, rfl⟩
  | done => simp [State.construct, place] at step

theorem kept : (system front).Invariant Kept where
  initial := by
    intro state isStart
    subst isStart
    exact ⟨⟨by simp [start], by simp [start], by simp [start]⟩, rfl, rfl⟩
  preserved state label after before step := by
    obtain ⟨sane, early, misdirected⟩ := before
    cases label with
    | create =>
        simp only [system, Transition.ofPartial, next,
          Option.ite_none_right_eq_some, Option.some.injEq] at step
        obtain ⟨_, rfl⟩ := step
        exact ⟨sane.create, early, misdirected⟩
    | construct index =>
        obtain ⟨sub, found, step⟩ := Option.bind_eq_some_iff.mp step
        have same := Constructs.of step
        exact ⟨sane.construct found step, same.early.trans early,
          same.misdirected.trans misdirected⟩
    | close index =>
        obtain ⟨sub, found, step⟩ := Option.bind_eq_some_iff.mp step
        simp only [Option.ite_none_right_eq_some, Option.map_eq_some_iff]
          at step
        obtain ⟨_, id, isId, rfl⟩ := step
        exact ⟨sane.closes found isId, early, misdirected⟩
    | announce sid =>
        simp only [system, Transition.ofPartial, next,
          Option.ite_none_right_eq_some, Option.some.injEq] at step
        obtain ⟨_, rfl⟩ := step
        exact ⟨sane.same ⟨rfl, rfl, rfl, rfl⟩, early, misdirected⟩
    | recv =>
        simp only [system, Transition.ofPartial, next] at step
        split at step
        · simp only [Option.ite_none_right_eq_some, Option.some.injEq] at step
          obtain ⟨_, rfl⟩ := step
          exact ⟨sane.same ⟨rfl, rfl, rfl, rfl⟩, early, misdirected⟩
        · cases step
    | plan =>
        simp only [system, Transition.ofPartial, next] at step
        split at step
        · simp only [Option.ite_none_right_eq_some, Option.some.injEq] at step
          obtain ⟨⟨free, _⟩, rfl⟩ := step
          refine ⟨sane.same ⟨rfl, rfl, rfl, rfl⟩, ?_, misdirected⟩
          simp [early, sane.not_early free]
        · cases step
    | event act =>
        simp only [system, Transition.ofPartial, next] at step
        split at step
        · simp only [Option.ite_none_right_eq_some] at step
          obtain ⟨sub, found, step⟩ := Option.bind_eq_some_iff.mp step.2
          exact Kept.event ⟨sane, early, misdirected⟩ found step
        · cases step

/-- The drain loop has only subscriptions that have their `id`. -/
structure Ran (state : State) : Prop where
  unset : state.unset = false
  alive : state.drain ≠ .dead
  planned : ∀ planned, state.drain = .running planned → ∀ index ∈ planned,
    ∃ sub, state.subs[index]? = some sub ∧ sub.id ≠ none

/-- An `id` stays. -/
def Stays (state after : State) : Prop :=
  ∀ (place : Nat) (old : Sub), state.subs[place]? = some old → old.id ≠ none →
    ∃ other, after.subs[place]? = some other ∧ other.id ≠ none

theorem Stays.put (found : state.subs[index]? = some sub)
    (subs : after.subs = state.subs.set index changed)
    (ids : sub.id ≠ none → changed.id ≠ none) : Stays state after := by
  intro place old isThere isSet
  rw [subs]
  by_cases same : index = place
  · subst same
    obtain rfl := Option.some.inj (found.symm.trans isThere)
    exact ⟨changed,
      List.getElem?_set_self (List.getElem?_eq_some_iff.mp found).1,
      ids isSet⟩
  · exact ⟨old, by rw [List.getElem?_set_ne same, isThere], isSet⟩

theorem Ran.frame (ran : state.Ran)
    (same : after.unset = state.unset ∧ after.drain = state.drain)
    (ids : Stays state after) : after.Ran where
  unset := same.1.trans ran.unset
  alive := by
    rw [same.2]
    exact ran.alive
  planned planned isRunning place is := by
    obtain ⟨old, found, isSet⟩ :=
      ran.planned planned (same.2 ▸ isRunning) place is
    exact ids place old found isSet

theorem Ran.event (ran : state.Ran) {rest : List Nat}
    (running : state.drain = .running (index :: rest))
    (found : state.subs[index]? = some sub) {act : Act}
    (step : state.event index sub rest act = some after) : after.Ran := by
  obtain ⟨own, isThere, isSet⟩ :=
    ran.planned _ running index List.mem_cons_self
  obtain rfl := Option.some.inj (found.symm.trans isThere)
  obtain ⟨id, isId⟩ := Option.ne_none_iff_exists'.mp isSet
  have unset : (state.unset || sub.id.isNone) = false := by
    simp [ran.unset, isId]
  have later (place : Nat) (is : place ∈ rest) :
      ∃ sub, state.subs[place]? = some sub ∧ sub.id ≠ none :=
    ran.planned _ running place (List.mem_cons_of_mem _ is)
  have goesOn (next : State) (drain : next.drain = .running rest)
      (isUnset : next.unset = (state.unset || sub.id.isNone))
      (ids : Stays state next) : next.Ran := by
    refine ⟨isUnset.trans unset, by simp [drain], ?_⟩
    intro planned isRunning place is
    rw [drain] at isRunning
    obtain rfl := Drain.running.inj isRunning
    obtain ⟨old, oldThere, oldSet⟩ := later place is
    exact ids place old oldThere oldSet
  have same : Stays state state :=
    fun place old isThere isSet => ⟨old, isThere, isSet⟩
  unfold State.event at step
  split at step
  · obtain rfl := Option.some.inj step
    exact goesOn _ rfl rfl same
  · cases act with
    | nothing =>
        obtain rfl := Option.some.inj step
        exact goesOn _ rfl rfl same
    | pause =>
        simp only [State.act, isId, Option.some.injEq] at step
        subst step
        exact goesOn _ rfl (by simp [isId]) same
    | close =>
        simp only [State.act, isId, Option.ite_none_left_eq_some,
          Option.some.injEq] at step
        obtain ⟨_, rfl⟩ := step
        refine goesOn _ rfl (by simp only [isId]; rfl) (.put found rfl ?_)
        simp

theorem ran : ((system front).restrict Assigned).Invariant
    (fun state => state.Kept ∧ state.Ran) := by
  apply (kept.restrict Assigned).strengthen
  · intro state isStart
    subst isStart
    exact ⟨rfl, by simp [start], by simp [start]⟩
  · intro state label after isKept before step
    obtain ⟨step, fine⟩ := step
    cases label with
    | create =>
        simp only [system, Transition.ofPartial, next,
          Option.ite_none_right_eq_some, Option.some.injEq] at step
        obtain ⟨_, rfl⟩ := step
        refine before.frame ⟨rfl, rfl⟩ ?_
        intro place old isThere isSet
        have bound := (List.getElem?_eq_some_iff.mp isThere).1
        exact ⟨old, by rw [List.getElem?_append_left bound, isThere], isSet⟩
    | construct index =>
        obtain ⟨sub, found, step⟩ := Option.bind_eq_some_iff.mp step
        have same := Constructs.of step
        obtain ⟨changed, subs⟩ := same.subs
        refine before.frame ⟨same.unset, same.drain⟩ (.put found subs ?_)
        intro isSet
        have sound := isKept.sane.sound index sub found
        exact absurd (sound.unset same.before) isSet
    | close index =>
        obtain ⟨sub, found, step⟩ := Option.bind_eq_some_iff.mp step
        simp only [Option.ite_none_right_eq_some, Option.map_eq_some_iff]
          at step
        obtain ⟨_, id, _, rfl⟩ := step
        refine before.frame ⟨rfl, rfl⟩ (.put found rfl ?_)
        exact fun isSet => isSet
    | announce sid =>
        simp only [system, Transition.ofPartial, next,
          Option.ite_none_right_eq_some, Option.some.injEq] at step
        obtain ⟨_, rfl⟩ := step
        exact ⟨before.unset, before.alive, before.planned⟩
    | recv =>
        simp only [system, Transition.ofPartial, next] at step
        split at step
        · simp only [Option.ite_none_right_eq_some, Option.some.injEq] at step
          obtain ⟨_, rfl⟩ := step
          exact ⟨before.unset, by simp, by simp⟩
        · cases step
    | plan =>
        simp only [system, Transition.ofPartial, next] at step
        split at step
        · next batch planning =>
            simp only [Option.ite_none_right_eq_some, Option.some.injEq]
              at step
            obtain ⟨_, rfl⟩ := step
            refine ⟨before.unset, by simp, ?_⟩
            intro planned isRunning index is
            obtain rfl := Drain.running.inj isRunning
            obtain ⟨sid, isIn, isThere⟩ := List.mem_filterMap.mp is
            have bound := isKept.sane.inside sid index isThere
            have found := List.getElem?_eq_getElem bound
            exact ⟨_, found, fine batch planning sid isIn index _ isThere
              found⟩
        · cases step
    | event act =>
        simp only [system, Transition.ofPartial, next] at step
        split at step
        · next running =>
            simp only [Option.ite_none_right_eq_some] at step
            obtain ⟨sub, found, step⟩ := Option.bind_eq_some_iff.mp step.2
            exact before.event running found step
        · cases step

theorem registered_of_assigned
    (reachable : ((system front).restrict Assigned).Reachable state) :
    state.Registered := by
  obtain ⟨isKept, isRan⟩ := ran.reachable reachable
  exact ⟨isKept.early, isRan.unset, isKept.misdirected, isRan.alive⟩

theorem event_nothing (state : State) (index : Nat) (sub : Sub)
    (rest : List Nat) : state.event index sub rest .nothing =
      some { state with
        unset := state.unset || sub.id.isNone
        drain := .running rest } := by
  unfold State.event
  split <;> rfl

/-- The drain loop comes to a subscription that has no `id` yet. -/
theorem breaks_of_running {planned : List Nat}
    (running : state.drain = .running planned)
    (inside : ∀ index ∈ planned, index < state.subs.length)
    (ready : state.Ready front) (is : index ∈ planned)
    (found : state.subs[index]? = some sub) (none_ : sub.id = none) :
    ((system front).restrict Assigned).Breakable Registered state := by
  induction planned generalizing state with
  | nil => cases is
  | cons head rest induction =>
      have bound := inside head List.mem_cons_self
      have isThere := List.getElem?_eq_getElem bound
      apply Transition.Breakable.allowed (.event .nothing)
      · simp only [next, running, if_pos ready, isThere, Option.bind_some]
        exact event_nothing state head _ rest
      · exact trivial
      · rcases List.mem_cons.mp is with rfl | later
        · apply Transition.Breakable.now
          intro registered
          obtain rfl := Option.some.inj (found.symm.trans isThere)
          have unset := registered.unset
          simp [none_] at unset
        · refine induction rfl (fun place member => ?_) ready later found
          exact inside place (List.mem_cons_of_mem _ member)

/-- Registration precedes delivery in every run that plans a batch only when
the constructors of its subscriptions have assigned their `id`, and the first
other batch lets the drain loop run code of a subscription without one. -/
theorem registered_guards (front : Front) :
    (system front).SharplyGuards Assigned Registered where
  enough _ reachable := registered_of_assigned reachable
  needed state label after reachable step refused := by
    have sane := (ran.reachable reachable).1.sane
    cases label with
    | plan =>
        simp only [Assigned, Classical.not_forall, not_not] at refused
        obtain ⟨batch, planning, sid, isIn, index, sub, isThere, found,
          none_⟩ := refused
        simp only [system, Transition.ofPartial, next, planning,
          Option.ite_none_right_eq_some, Option.some.injEq] at step
        obtain ⟨⟨_, ready⟩, rfl⟩ := step
        refine breaks_of_running rfl ?_ ready
          (List.mem_filterMap.mpr ⟨sid, isIn, isThere⟩) found none_
        intro place is
        obtain ⟨other, _, otherThere⟩ := List.mem_filterMap.mp is
        exact sane.inside other place otherThere
    | _ => exact absurd trivial refused

theorem loop_registered (isLoop : front.isLoop = true)
    (reachable : (system front).Reachable state) : state.Registered := by
  apply registered_of_assigned
  apply reachable.restricted
  intro state label after reachable step
  have sane := (ran.reachable reachable).1.sane
  cases label with
  | plan =>
      intro batch planning sid _ index sub _ found
      simp only [system, Transition.ofPartial, next, planning,
        Option.ite_none_right_eq_some] at step
      have sound := sane.sound index sub found
      have done := step.1.2 isLoop sub (List.mem_of_getElem? found)
      rw [sound.set done, Ne, sound.given]
      simp [done]
  | _ => trivial

/-- The first item arrives while the constructor returns from `add`, and its
callback closes the subscription. -/
def closedAtOnce : List Label :=
  [.create, .construct 0, .construct 0, .construct 0, .construct 0,
    .construct 0, .announce 1, .recv, .plan, .event .close]

theorem id_is_unset :
    ∃ state, (system .caThread).Run start closedAtOnce state ∧
      state.unset = true ∧ state.drain = .dead ∧ ¬state.Registered := by
  refine ⟨(closedAtOnce.foldlM (next .caThread) start).get rfl,
    .of_foldlM rfl, rfl, rfl, fun registered => ?_⟩
  exact registered.alive rfl

end State

end Repics.Monitor.Register
