import Repics.Monitor.Dispatcher
import Repics.Monitor.Projection

/-!
# From the subscription tasks to the callbacks

The tasks of the hub of Channel Access put their items into one bounded queue,
each waiting while it is full.  `recv_batch` waits for a first item, takes what
is queued besides, and hands all of it to the dispatcher, which collapses it
and calls back.  Tasks go on sending while a batch is taken or dispatched, and
subscriptions are made and closed at any time.

`arrived` is kept for the record: the items in the order the queue took them.
-/

namespace Repics.Monitor

/-- How many items may sit between the tasks and Python. -/
def QUEUE : Nat := 8192

/-- `batch` is what a call of `recv_batch` has taken so far. -/
structure Pipeline (Value : Type) where
  queue : List (Item Value)
  batch : List (Item Value)
  dispatcher : Dispatcher Value
  arrived : List (Item Value)

inductive PipelineStep (Value : Type) where
  | add (config : Config)
  | close (sid : Nat)
  | send (item : Item Value)
  | pull
  | handOn
  | item

namespace Pipeline

variable {Value : Type} (front : Front)

/-- The drain loop is inside `recv_batch`. -/
def receives (state : Pipeline Value) : Bool :=
  state.dispatcher.loop = .running && state.dispatcher.pending.isEmpty

/-- `recv_batch` has no cap here: it returns when the queue is empty.  A task
sends for a subscription that was added. -/
def next (state : Pipeline Value) :
    PipelineStep Value → Option (Pipeline Value)
  | .add config => (state.dispatcher.next front (.add config)).map
      fun dispatcher => { state with dispatcher := dispatcher }
  | .close sid => (state.dispatcher.next front (.close sid)).map
      fun dispatcher => { state with dispatcher := dispatcher }
  | .send item =>
      if item.sid < state.dispatcher.subs.length ∧
          state.queue.length < QUEUE then
        some { state with
          queue := state.queue ++ [item]
          arrived := state.arrived ++ [item] }
      else none
  | .pull =>
      match state.queue with
      | [] => none
      | item :: queue =>
          if state.receives then
            some { state with queue := queue, batch := state.batch ++ [item] }
          else none
  | .handOn =>
      if state.queue.isEmpty ∧ ¬state.batch.isEmpty then
        (state.dispatcher.next front (.recv state.batch)).map
          fun dispatcher =>
            { state with batch := [], dispatcher := dispatcher }
      else none
  | .item => (state.dispatcher.next front .item).map
      fun dispatcher => { state with dispatcher := dispatcher }

def fresh : Pipeline Value :=
  ⟨[], [], .fresh, []⟩

def system : Transition (Pipeline Value) (PipelineStep Value) :=
  .ofPartial (fun state => state = fresh) (next front)

/-- The items that are still on their way to the callbacks. -/
def underway (state : Pipeline Value) : List (Item Value) :=
  state.dispatcher.pending ++ state.batch ++ state.queue

/-- The items that the drain loop has got to. -/
def reached (state : Pipeline Value) : List (Item Value) :=
  state.dispatcher.handled.map Prod.fst

/-- What the callback of one subscription was called with. -/
def called (sid : Nat) (state : Pipeline Value) : List (Update Value) :=
  state.dispatcher.handled.filterMap fun entry =>
    if entry.1.sid = sid then
      match entry.2 with
      | .applied update => update
      | _ => none
    else none

/-- What the callback is to be called with for some items. -/
def updates (config : Config) (items : List (Item Value)) :
    List (Update Value) :=
  items.filterMap (expected front config)

/-- The callback of a subscription has been called, in order, with what its
items call for.  Only updates are left out, each right before another update of
the subscription; all of them are counted, and none is left out of a
subscription that wants them all.  When nothing of it is underway the newest is
the last call. -/
structure Delivers (state : Pipeline Value) (sid : Nat)
    (sub : Subscription) : Prop where
  order : (called sid state ++
    updates front sub.config (ownItems sid state.underway)).Sublist
      (updates front sub.config (ownItems sid state.arrived))
  every : sub.config.allUpdates = true →
    called sid state ++
        updates front sub.config (ownItems sid state.underway) =
      updates front sub.config (ownItems sid state.arrived)
  replaced : Collapse.Thins isUpdate (ownItems sid state.arrived)
    (ownItems sid (state.reached ++ state.underway))
  events : (ownItems sid (state.reached ++ state.underway)).filter
      (fun item => !isUpdate item) =
    (ownItems sid state.arrived).filter fun item => !isUpdate item
  counted : (ownItems sid (state.reached ++ state.underway)).length +
    sub.dropped = (ownItems sid state.arrived).length
  newest : ownItems sid state.underway = [] →
    (called sid state).getLast? =
      (updates front sub.config (ownItems sid state.arrived)).getLast?

end Pipeline

/-- What is kept of the items of one subscription, and how many are not. -/
structure Reduces (config : Config) {Value : Type}
    (items kept : List (Item Value)) (dropped : Nat) : Prop where
  thins : Collapse.Thins isUpdate items kept
  every : config.allUpdates = true → kept = items
  counted : kept.length + dropped = items.length

namespace Reduces

variable {Value : Type} {config : Config}
  {items more kept others : List (Item Value)} {dropped count : Nat}

theorem refl (config : Config) (items : List (Item Value)) :
    Reduces config items items 0 where
  thins := .refl items
  every _ := rfl
  counted := rfl

theorem append (first : Reduces config items kept dropped)
    (second : Reduces config more others count) :
    Reduces config (items ++ more) (kept ++ others) (dropped + count) where
  thins := first.thins.append second.thins
  every all := by rw [first.every all, second.every all]
  counted := by
    have firstCounted := first.counted
    have secondCounted := second.counted
    rw [List.length_append, List.length_append]
    omega

theorem handed (config : Config) (items : List (Item Value))
    {removed : Nat}
    (sum : (handed config items).length + removed = items.length) :
    Reduces config items (handed config items) removed := by
  unfold Monitor.handed at sum ⊢
  split
  case isTrue all =>
    rw [if_pos all] at sum
    exact ⟨.refl items, fun _ => rfl, sum⟩
  case isFalse some =>
    rw [if_neg some] at sum
    exact ⟨Collapse.lasts_thins isUpdate items, fun all => (some all).elim,
      sum⟩

end Reduces

/-- A subscription that is live has the same settings and counts as before. -/
def Leaves (subs later : Subs) : Prop :=
  ∀ (sid : Nat) (after : Subscription), later[sid]? = some after →
    after.state ≠ .closed → ∃ sub, subs[sid]? = some sub ∧
      sub.state ≠ .closed ∧ after.config = sub.config ∧
      after.registered = sub.registered ∧ after.dropped = sub.dropped

namespace Leaves

theorem refl (subs : Subs) : Leaves subs subs :=
  fun _ after found live => ⟨after, found, live, rfl, rfl, rfl⟩

theorem trans {first second third : Subs} (left : Leaves first second)
    (right : Leaves second third) : Leaves first third := by
  intro sid after found live
  obtain ⟨middle, middleFound, middleLive, config, registered, dropped⟩ :=
    right sid after found live
  obtain ⟨sub, subFound, subLive, subConfig, subRegistered, subDropped⟩ :=
    left sid middle middleFound middleLive
  exact ⟨sub, subFound, subLive, config.trans subConfig,
    registered.trans subRegistered, dropped.trans subDropped⟩

theorem set {subs : Subs} {sid : Nat} {sub changed : Subscription}
    (found : subs[sid]? = some sub)
    (same : changed.state ≠ .closed → sub.state ≠ .closed ∧
      changed.config = sub.config ∧ changed.registered = sub.registered ∧
      changed.dropped = sub.dropped) :
    Leaves subs (subs.set sid changed) := by
  intro other after afterFound live
  by_cases own : sid = other
  · subst own
    have bound := (List.getElem?_eq_some_iff.mp found).1
    rw [List.getElem?_set_self bound] at afterFound
    obtain rfl := Option.some.inj afterFound
    exact ⟨sub, found, same live⟩
  · rw [List.getElem?_set_ne own] at afterFound
    exact refl subs other after afterFound live

theorem closeSub (subs : Subs) (sid : Nat) :
    Leaves subs (closeSub subs sid) := by
  simp only [Monitor.closeSub]
  split
  case h_1 => apply refl
  case h_2 sub found =>
    apply Leaves.set found
    exact fun live => (live rfl).elim

theorem shutdown (subs : Subs) : Leaves subs (shutdown subs) := by
  intro sid after found live
  simp only [Monitor.shutdown, List.getElem?_map] at found
  obtain ⟨sub, subFound, rfl⟩ := Option.map_eq_some_iff.mp found
  by_cases registered : sub.registered = true
  · simp [registered] at live
  · simp only [registered] at live ⊢
    exact ⟨sub, subFound, live, rfl, rfl, rfl⟩

end Leaves

theorem Touches.leaves {subs later : Subs} (touches : Touches subs later) :
    Leaves subs later := by
  induction touches with
  | refl => exact Leaves.refl subs
  | close sid _ induction => exact induction.trans (Leaves.closeSub _ sid)
  | opened _ found live induction =>
      apply induction.trans
      apply Leaves.set found
      exact fun _ => ⟨live, rfl, rfl, rfl⟩

/-- The drain loop gets to the next item, and goes on unless it raises. -/
theorem Dispatcher.item_cases {Value : Type} {front : Front}
    {state last : Dispatcher Value}
    (step : state.next front .item = some last) :
    Keeps state.subs last.subs ∧ Leaves state.subs last.subs ∧
    last.planned = state.planned ∧
    ∃ head, state.pending = head :: last.pending ∧
      last.handled = state.handled ++ [(head, (handle front state.subs
        head).2)] ∧
      (last.loop = .dead ∨ last.loop = state.loop ∧
        (handle front state.subs head).2 ≠ .raised) := by
  simp only [Dispatcher.next] at step
  split at step
  case h_2 => simp at step
  case h_1 head rest running pendingEq =>
    have touches := Touches.handle front state.subs head
    have keeps := touches.keeps
    have leaves := touches.leaves
    split at step
    case h_1 raised =>
      obtain rfl := Option.some.inj step
      refine ⟨?_, ?_, rfl, head, pendingEq, rfl, .inl rfl⟩
      · change Keeps state.subs (if front.isLoop then shutdown _ else _)
        split
        · apply keeps.trans (Keeps.shutdown _)
        · exact keeps
      · change Leaves state.subs (if front.isLoop then shutdown _ else _)
        split
        · apply leaves.trans (Leaves.shutdown _)
        · exact leaves
    case h_2 raises =>
      obtain rfl := Option.some.inj step
      exact ⟨keeps, leaves, rfl, head, pendingEq, rfl, .inr ⟨rfl, raises⟩⟩

namespace Pipeline

variable {Value : Type} {front : Front}

/-- What every step keeps.  `taken` is what the dispatcher was given. -/
structure Sound (front : Front) (state : Pipeline Value) : Prop where
  recorded : state.dispatcher.Recorded front
  bounded : state.queue.length ≤ QUEUE
  known : ∀ item ∈ state.arrived, item.sid < state.dispatcher.subs.length
  reduced : ∃ taken, state.arrived = taken ++ state.batch ++ state.queue ∧
    ∀ sid sub, state.dispatcher.subs[sid]? = some sub →
      sub.state ≠ .closed → sub.registered = true ∧
        Reduces sub.config (ownItems sid taken)
          (ownItems sid state.dispatcher.planned) sub.dropped
  calm : ∀ entry ∈ state.dispatcher.handled,
    state.dispatcher.loop = .dead ∨
      ∀ sub, state.dispatcher.subs[entry.1.sid]? = some sub →
        sub.state ≠ .closed → eventRaises front entry.1 = false

namespace Sound

variable {state : Pipeline Value}

/-- The subscriptions change and nothing else of what is recorded. -/
theorem frame (sound : state.Sound front) {dispatcher : Dispatcher Value}
    (recorded : dispatcher.Recorded front)
    (keeps : Keeps state.dispatcher.subs dispatcher.subs)
    (leaves : Leaves state.dispatcher.subs dispatcher.subs)
    (planned : dispatcher.planned = state.dispatcher.planned)
    (calm : ∀ entry ∈ dispatcher.handled, dispatcher.loop = .dead ∨
      ∀ sub, dispatcher.subs[entry.1.sid]? = some sub →
        sub.state ≠ .closed → eventRaises front entry.1 = false) :
    Sound front { state with dispatcher := dispatcher } where
  recorded := recorded
  bounded := sound.bounded
  known item member :=
    Nat.lt_of_lt_of_le (sound.known item member) keeps.length_le
  reduced := by
    obtain ⟨taken, arrived, reduced⟩ := sound.reduced
    refine ⟨taken, arrived, ?_⟩
    intro sid after found live
    obtain ⟨sub, subFound, subLive, config, registered, dropped⟩ :=
      leaves sid after found live
    obtain ⟨subRegistered, reduces⟩ := reduced sid sub subFound subLive
    rw [config, registered, dropped, planned]
    exact ⟨subRegistered, reduces⟩
  calm := calm

theorem calm_leaves (sound : state.Sound front) {subs : Subs}
    (leaves : Leaves state.dispatcher.subs subs)
    {entry : Item Value × Fate Value}
    (member : entry ∈ state.dispatcher.handled) :
    state.dispatcher.loop = .dead ∨ ∀ sub, subs[entry.1.sid]? = some sub →
      sub.state ≠ .closed → eventRaises front entry.1 = false := by
  apply (sound.calm entry member).imp_right
  intro calm after found live
  obtain ⟨sub, subFound, subLive, -⟩ := leaves _ after found live
  exact calm sub subFound subLive

theorem unseen (sound : state.Sound front) {taken : List (Item Value)}
    (arrived : state.arrived = taken ++ state.batch ++ state.queue) :
    ownItems state.dispatcher.subs.length taken = [] ∧
      ownItems state.dispatcher.subs.length state.dispatcher.planned =
        [] := by
  constructor
  · apply Collapse.ofKey_eq_nil
    intro item member
    have known := sound.known item (by simp [arrived, member])
    omega
  · apply Collapse.ofKey_eq_nil
    intro item member
    have known := sound.recorded.known item member
    omega

theorem add (sound : state.Sound front) (config : Config)
    {last : Dispatcher Value}
    (step : state.dispatcher.next front (.add config) = some last) :
    Sound front { state with dispatcher := last } := by
  have recorded := Dispatcher.Recorded.invariant.preserved _ _ _
    sound.recorded step
  obtain rfl := Option.some.inj step
  have keeps := Keeps.append state.dispatcher.subs
    (Subscription.new front config)
  constructor
  case recorded => exact recorded
  case bounded => exact sound.bounded
  case known =>
    intro item member
    exact Nat.lt_of_lt_of_le (sound.known item member) keeps.length_le
  case reduced =>
    obtain ⟨taken, arrived, reduced⟩ := sound.reduced
    refine ⟨taken, arrived, ?_⟩
    intro sid sub found live
    rcases Nat.lt_trichotomy sid state.dispatcher.subs.length with
      old | rfl | beyond
    · rw [List.getElem?_append_left old] at found
      exact reduced sid sub found live
    · rw [List.getElem?_concat_length] at found
      obtain rfl := Option.some.inj found
      obtain ⟨none, unplanned⟩ := sound.unseen arrived
      refine ⟨rfl, ?_⟩
      rw [none, unplanned]
      apply Reduces.refl
    · rw [List.getElem?_eq_none] at found
      · simp at found
      · rw [List.length_append, List.length_singleton]
        exact beyond
  case calm =>
    intro entry member
    have inPlanned : entry.1 ∈ state.dispatcher.planned := by
      rw [← sound.recorded.planned]
      apply List.mem_append_left _ (List.mem_map_of_mem member)
    have bound := sound.recorded.known _ inPlanned
    rcases sound.calm entry member with dead | calm
    · exact .inl (by simp [dead])
    · right
      intro sub found live
      rw [List.getElem?_append_left bound] at found
      exact calm sub found live

theorem close (sound : state.Sound front) (sid : Nat)
    {last : Dispatcher Value}
    (step : state.dispatcher.next front (.close sid) = some last) :
    Sound front { state with dispatcher := last } := by
  have recorded := Dispatcher.Recorded.invariant.preserved _ _ _
    sound.recorded step
  obtain rfl := Option.some.inj step
  have leaves := Leaves.closeSub state.dispatcher.subs sid
  apply sound.frame recorded (Keeps.closeSub _ _) leaves rfl
  intro entry member
  exact sound.calm_leaves leaves member

theorem item (sound : state.Sound front) {last : Dispatcher Value}
    (step : state.dispatcher.next front .item = some last) :
    Sound front { state with dispatcher := last } := by
  have recorded := Dispatcher.Recorded.invariant.preserved _ _ _
    sound.recorded step
  obtain ⟨keeps, leaves, planned, head, pending, handled, goes⟩ :=
    Dispatcher.item_cases step
  apply sound.frame recorded keeps leaves planned
  intro entry member
  rcases goes with dead | ⟨same, fine⟩
  · exact .inl dead
  · rw [handled] at member
    rcases List.mem_append.mp member with old | new
    · rw [same]
      exact sound.calm_leaves leaves old
    · obtain rfl := List.mem_singleton.mp new
      right
      intro after found live
      obtain ⟨sub, subFound, subLive, -⟩ := leaves _ after found live
      rw [handle_fate front subFound subLive] at fine
      rw [Bool.eq_false_iff]
      intro raises
      exact fine (if_pos (.inl raises))

theorem plan_live {subs : Subs} {batch : List (Item Value)} {sid : Nat}
    {after : Subscription} (found : (plan subs batch).subs[sid]? = some after)
    (live : after.state ≠ .closed) :
    ∃ sub, subs[sid]? = some sub ∧ sub.state ≠ .closed := by
  cases before : subs[sid]? with
  | none =>
      have unknown : ∀ sub, subs[sid]? = some sub →
          sub.registered = false := by simp [before]
      rw [(plan_unknown unknown batch).2, before] at found
      simp at found
  | some sub =>
      refine ⟨sub, rfl, ?_⟩
      intro closed
      obtain ⟨same, sameFound, -, stays⟩ :=
        (plan_spec subs batch).1 sid sub before
      obtain rfl := Option.some.inj (sameFound.symm.trans found)
      exact live (stays closed)

theorem handOn (sound : state.Sound front) {last : Dispatcher Value}
    (empty : state.queue = [])
    (step : state.dispatcher.next front (.recv state.batch) = some last) :
    Sound front { state with batch := [], dispatcher := last } := by
  have recorded := Dispatcher.Recorded.invariant.preserved _ _ _
    sound.recorded step
  simp only [Dispatcher.next] at step
  split at step
  case isFalse => simp at step
  case isTrue ready =>
    obtain rfl := Option.some.inj step
    have keeps := (plan_spec state.dispatcher.subs state.batch).1
    constructor
    case recorded => exact recorded
    case bounded => exact sound.bounded
    case known =>
      intro item member
      exact Nat.lt_of_lt_of_le (sound.known item member) keeps.length_le
    case reduced =>
      obtain ⟨taken, arrived, reduced⟩ := sound.reduced
      refine ⟨taken ++ state.batch, by simp [arrived, empty], ?_⟩
      intro sid after found live
      obtain ⟨sub, subFound, subLive⟩ := plan_live found live
      obtain ⟨registered, reduces⟩ := reduced sid sub subFound subLive
      obtain ⟨removed, later, sum⟩ :=
        plan_dropped subFound registered state.batch
      obtain rfl : sub.drop removed = after :=
        Option.some.inj (later.symm.trans found)
      have own := plan_own subFound registered state.batch
      rw [own] at sum
      refine ⟨registered, ?_⟩
      simp only [ownItems, Collapse.ofKey_append] at own ⊢
      rw [own]
      exact reduces.append (Reduces.handed sub.config _ sum)
    case calm =>
      intro entry member
      apply (sound.calm entry member).imp_right
      intro calm after found live
      obtain ⟨sub, subFound, subLive⟩ := plan_live found live
      exact calm sub subFound subLive

theorem invariant : (@system Value front).Invariant (Sound front) where
  initial := by
    intro state start
    rw [start]
    have recorded : Dispatcher.Recorded front (@Dispatcher.fresh Value) :=
      Dispatcher.Recorded.invariant.initial _ rfl
    refine ⟨recorded, by simp [fresh], by simp [fresh], ?_, ?_⟩
    · exact ⟨[], rfl, by simp [fresh, Dispatcher.fresh]⟩
    · simp [fresh, Dispatcher.fresh]
  preserved := by
    intro state label last sound step
    change state.next front label = some last at step
    cases label with
    | add config =>
        simp only [next, Option.map_eq_some_iff] at step
        obtain ⟨dispatcher, added, rfl⟩ := step
        exact sound.add config added
    | close sid =>
        simp only [next, Option.map_eq_some_iff] at step
        obtain ⟨dispatcher, closed, rfl⟩ := step
        exact sound.close sid closed
    | item =>
        simp only [next, Option.map_eq_some_iff] at step
        obtain ⟨dispatcher, turned, rfl⟩ := step
        exact sound.item turned
    | send item =>
        simp only [next] at step
        split at step
        case isFalse => simp at step
        case isTrue room =>
          obtain rfl := Option.some.inj step
          obtain ⟨taken, arrived, reduced⟩ := sound.reduced
          refine ⟨sound.recorded, ?_, ?_, ?_, sound.calm⟩
          · rw [List.length_append]
            exact room.2
          · intro other member
            rcases List.mem_append.mp member with old | new
            · exact sound.known other old
            · obtain rfl := List.mem_singleton.mp new
              exact room.1
          · exact ⟨taken, by simp [arrived], reduced⟩
    | pull =>
        simp only [next] at step
        split at step
        case h_1 => simp at step
        case h_2 item queue queueEq =>
          split at step
          case isFalse => simp at step
          case isTrue receiving =>
            obtain rfl := Option.some.inj step
            obtain ⟨taken, arrived, reduced⟩ := sound.reduced
            refine ⟨sound.recorded, ?_, sound.known, ?_, sound.calm⟩
            · have bounded := sound.bounded
              rw [queueEq, List.length_cons] at bounded
              exact Nat.le_of_succ_le bounded
            · exact ⟨taken, by simp [arrived, queueEq], reduced⟩
    | handOn =>
        simp only [next] at step
        split at step
        case isFalse => simp at step
        case isTrue complete =>
          obtain ⟨dispatcher, given, rfl⟩ := Option.map_eq_some_iff.mp step
          exact sound.handOn (List.isEmpty_iff.mp complete.1) given

end Sound

/-- The callback was called with what each item that was reached calls for. -/
theorem Sound.called_eq {state : Pipeline Value} (sound : state.Sound front)
    (alive : state.dispatcher.loop ≠ .dead) {sid : Nat} {sub : Subscription}
    (found : state.dispatcher.subs[sid]? = some sub)
    (live : sub.state ≠ .closed) :
    called sid state =
      updates front sub.config (ownItems sid state.reached) := by
  rw [called, updates, reached, ownItems, Collapse.ofKey,
    List.filterMap_filter, List.filterMap_map]
  apply List.filterMap_congr
  intro entry member
  by_cases own : entry.1.sid = sid
  · rcases sound.recorded.served entry member with dead | served
    · exact (alive dead).elim
    · have fate := served sub (own ▸ found) live
      simp only [own, fate, if_true, decide_true, Function.comp_apply]
  · simp only [own, if_false, decide_false, Function.comp_apply,
      Bool.false_eq_true]

/-- All that arrived was reached, is underway, or was dropped. -/
theorem Sound.reduces {state : Pipeline Value} (sound : state.Sound front)
    {sid : Nat} {sub : Subscription}
    (found : state.dispatcher.subs[sid]? = some sub)
    (live : sub.state ≠ .closed) :
    Reduces sub.config (ownItems sid state.arrived)
      (ownItems sid (state.reached ++ state.underway)) sub.dropped := by
  obtain ⟨taken, arrived, reduced⟩ := sound.reduced
  obtain ⟨-, reduces⟩ := reduced sid sub found live
  have planned : ownItems sid state.dispatcher.planned =
      ownItems sid state.reached ++
        ownItems sid state.dispatcher.pending := by
    rw [← sound.recorded.planned, reached, ownItems, Collapse.ofKey_append]
  have batch := Reduces.refl sub.config (ownItems sid state.batch)
  have queue := Reduces.refl sub.config (ownItems sid state.queue)
  have whole := (reduces.append batch).append queue
  rw [planned] at whole
  simp only [arrived, underway, ownItems, Collapse.ofKey_append,
    ← List.append_assoc] at whole ⊢
  exact whole

theorem Sound.usable {state : Pipeline Value} (sound : state.Sound front)
    (alive : state.dispatcher.loop ≠ .dead) {sid : Nat} {sub : Subscription}
    (found : state.dispatcher.subs[sid]? = some sub)
    (live : sub.state ≠ .closed) {item : Item Value}
    (member : item ∈ ownItems sid state.reached)
    (update : isUpdate item = true) :
    (expected front sub.config item).isSome := by
  obtain ⟨inside, own⟩ := Collapse.mem_ofKey_iff.mp member
  obtain ⟨entry, entryMember, rfl⟩ := List.mem_map.mp inside
  have kind : entry.1.kind = .value := of_decide_eq_true update
  rcases sound.calm entry entryMember with dead | calm
  · exact (alive dead).elim
  · have converted := calm sub (own ▸ found) live
    simp only [eventRaises, kind] at converted
    rw [expected, kind, Option.isSome_map]
    exact Option.isSome_iff_ne_none.mpr fun none => by
      simp [none] at converted

theorem Sound.delivers {state : Pipeline Value} (sound : state.Sound front)
    (alive : state.dispatcher.loop ≠ .dead) {sid : Nat} {sub : Subscription}
    (found : state.dispatcher.subs[sid]? = some sub)
    (live : sub.state ≠ .closed) :
    Delivers front state sid sub := by
  have whole := sound.reduces found live
  have called := sound.called_eq alive found live
  have calls : Pipeline.called sid state ++
      updates front sub.config (ownItems sid state.underway) =
        updates front sub.config
          (ownItems sid (state.reached ++ state.underway)) := by
    rw [called]
    simp only [updates, ownItems, Collapse.ofKey_append,
      List.filterMap_append]
  constructor
  case order =>
    rw [calls]
    apply whole.thins.sublist.filterMap
  case every =>
    intro all
    rw [calls, whole.every all]
  case replaced => exact whole.thins
  case events => exact whole.thins.filter_not
  case counted => exact whole.counted
  case newest =>
    intro none
    have all : ownItems sid (state.reached ++ state.underway) =
        ownItems sid state.reached := by
      simp only [ownItems, Collapse.ofKey_append] at none ⊢
      rw [none, List.append_nil]
    rw [all] at whole
    rw [called]
    apply whole.thins.filterMap_getLast?
    intro item member update
    exact sound.usable alive found live member update

/-- A step of the drain loop alone. -/
def OfLoop : PipelineStep Value → Prop
  | .pull | .handOn | .item => True
  | _ => False

/-- An item is passed on at most three times. -/
def backlog (state : Pipeline Value) : Nat :=
  3 * state.queue.length + 2 * state.batch.length +
    state.dispatcher.pending.length

theorem plan_length_le (subs : Subs) (batch : List (Item Value)) :
    (plan subs batch).out.length ≤ batch.length := by
  induction batch using List.reverseRecOn with
  | nil => exact Nat.le_refl 0
  | append_singleton batch item induction =>
      rw [plan_snoc, List.length_append, List.length_singleton]
      rcases Plan.push_cases (plan subs batch) item with
        ⟨-, same⟩ | ⟨-, ⟨sub, place, -, -, out, -⟩ | ⟨out, -⟩⟩
      · rw [same]
        exact Nat.le_succ_of_le induction
      · rw [out, List.length_set]
        exact Nat.le_succ_of_le induction
      · rw [out, List.length_append]
        exact Nat.succ_le_succ induction

/-- While something is underway the loop can go on, and there is less then. -/
theorem progress {state : Pipeline Value}
    (running : state.dispatcher.loop = .running)
    (some : state.underway ≠ []) :
    ∃ label last, OfLoop label ∧ state.next front label = .some last ∧
      last.backlog < state.backlog ∧
      (last.dispatcher.loop = .running ∨ last.dispatcher.loop = .dead) := by
  cases pendingEq : state.dispatcher.pending with
  | cons head rest =>
      obtain ⟨dispatcher, step⟩ : ∃ dispatcher,
          state.dispatcher.next front .item = .some dispatcher := by
        simp only [Dispatcher.next, running, pendingEq]
        split
        · exact ⟨_, rfl⟩
        · exact ⟨_, rfl⟩
      obtain ⟨-, -, -, item, pending, -, goes⟩ := Dispatcher.item_cases step
      refine ⟨.item, { state with dispatcher := dispatcher }, trivial, ?_,
        ?_, ?_⟩
      · rw [next, step]
        rfl
      · simp only [backlog, pending, List.length_cons]
        omega
      · exact goes.symm.imp_left fun same => same.1.trans running
  | nil =>
      have receiving : state.receives = true := by
        simp [receives, running, pendingEq]
      cases queueEq : state.queue with
      | cons item queue =>
          refine ⟨.pull, { state with
            queue := queue, batch := state.batch ++ [item] }, trivial, ?_,
            ?_, .inl running⟩
          · rw [next, queueEq]
            exact if_pos receiving
          · simp only [backlog, queueEq, List.length_cons,
              List.length_append, List.length_nil]
            omega
      | nil =>
          have nonempty : state.batch ≠ [] := by
            intro empty
            exact some (by simp [underway, pendingEq, queueEq, empty])
          have fewer := plan_length_le state.dispatcher.subs state.batch
          have length := List.length_pos_of_ne_nil nonempty
          refine ⟨.handOn, { state with
            batch := []
            dispatcher := { state.dispatcher with
              subs := (plan state.dispatcher.subs state.batch).subs
              pending := (plan state.dispatcher.subs state.batch).out
              planned := state.dispatcher.planned ++
                (plan state.dispatcher.subs state.batch).out } },
            trivial, ?_, ?_, .inl running⟩
          · simp [next, Dispatcher.next, queueEq, nonempty, running,
              pendingEq]
          · simp only [backlog, pendingEq, queueEq, List.length_nil]
            omega

theorem drains {state : Pipeline Value}
    (running : state.dispatcher.loop = .running) :
    ∃ labels last, (∀ label ∈ labels, OfLoop label) ∧
      (system front).Run state labels last ∧
      (last.underway = [] ∨ last.dispatcher.loop = .dead) := by
  induction size : state.backlog using Nat.strong_induction_on
    generalizing state with
  | _ size induction =>
      by_cases empty : state.underway = []
      · exact ⟨[], state, by simp, .nil state, .inl empty⟩
      obtain ⟨label, middle, ofLoop, step, fewer, goes⟩ :=
        @progress Value front state running empty
      rcases goes with goes | dead
      · obtain ⟨labels, last, allOfLoop, run, ends⟩ :=
          induction _ (size ▸ fewer) goes rfl
        refine ⟨label :: labels, last, ?_, .cons step run, ends⟩
        intro other member
        rcases List.mem_cons.mp member with rfl | late
        · exact ofLoop
        · exact allOfLoop other late
      · refine ⟨[label], middle, ?_, .cons step (.nil middle), .inr dead⟩
        intro other member
        obtain rfl := List.mem_singleton.mp member
        exact ofLoop

/-- The two dispatchers of Channel Access. -/
def caFront (isLoop : Bool) : Front :=
  if isLoop then .caLoop else .caThread

/-- Whatever is sent, made and closed meanwhile, the queue stays bounded, each
live subscription gets what it is to get, and the drain loop by itself works
off all that is underway, unless code that nothing catches has ended it. -/
theorem pipeline_delivers {isLoop : Bool} {state : Pipeline Value}
    (reachable : (system (caFront isLoop)).Reachable state) :
    state.queue.length ≤ QUEUE ∧
    (state.dispatcher.loop ≠ .dead → ∀ sid sub,
      state.dispatcher.subs[sid]? = some sub → sub.state ≠ .closed →
        Delivers (caFront isLoop) state sid sub) ∧
    (state.dispatcher.loop = .running →
      ∃ labels last, (∀ label ∈ labels, OfLoop label) ∧
        (system (caFront isLoop)).Run state labels last ∧
        (last.underway = [] ∨ last.dispatcher.loop = .dead)) := by
  have sound := Sound.invariant.reachable reachable
  refine ⟨sound.bounded, ?_, drains⟩
  intro alive sid sub found live
  exact sound.delivers alive found live

/-- An update that is converted to a number. -/
def reading (sid value : Nat) : Item Nat :=
  ⟨sid, .value, ⟨some value, ⟨[], false⟩, ⟨[], false⟩, false⟩⟩

/-- Two updates of one subscription with one of another in between. -/
def threeReadings : List (PipelineStep Nat) :=
  [.add ⟨false, false, false⟩, .add ⟨false, false, false⟩,
    .send (reading 0 5), .pull, .send (reading 1 6), .send (reading 0 7),
    .pull, .pull, .handOn, .item, .item]

def after (labels : List (PipelineStep Nat)) : Pipeline Nat :=
  (labels.foldlM (next .caThread) fresh).getD fresh

theorem pipeline_delivers_threeReadings :
    called 0 (after threeReadings) = [.value 7] ∧
      Delivers .caThread (after threeReadings) 0
        ⟨⟨false, false, false⟩, true, .opening, 1⟩ := by
  have run : (system (caFront false)).Reachable (after threeReadings) :=
    ⟨fresh, threeReadings, rfl, .of_foldlM rfl⟩
  obtain ⟨-, delivers, -⟩ := pipeline_delivers run
  exact ⟨rfl, delivers (by decide) 0 _ rfl (by decide)⟩

end Pipeline

end Repics.Monitor
