import Mathlib.Data.List.Chain
import Repics.Ca.Hub.Subscription

/-!
# The items of one subscription

A reader of the items keeps four facts: what the last change of the connection
was, whether there was one to connected, whether a connect timeout was read,
and whether the end was.  It refuses what is out of turn.  Whatever the task
sends is taken by the reader, and the reader knows the state of the channel
that the task has.
-/

namespace Repics.Ca.Hub

variable {Snapshot Error : Type}

namespace Item

def id : Item Snapshot Error → Nat
  | .value id _ _ | .error id _ | .connectTimeout id | .connected id
  | .ended id | .disconnected id | .accessRights id _ _ => id

/-- The state of the channel that the item announces. -/
def change : Item Snapshot Error → Option Bool
  | .connected _ => some true
  | .disconnected _ => some false
  | _ => none

def isTimeout : Item Snapshot Error → Bool
  | .connectTimeout _ => true
  | _ => false

def isValue : Item Snapshot Error → Bool
  | .value _ _ _ => true
  | _ => false

end Item

structure Reading where
  connected : Bool
  opened : Bool
  timedOut : Bool
  ended : Bool

namespace Reading

def start : Reading :=
  ⟨false, false, false, false⟩

/-- What the reader makes of an item whose turn it may be. -/
def turn (reading : Reading) : Item Snapshot Error → Option Reading
  | .connected _ =>
      if reading.connected then none
      else some { reading with connected := true, opened := true }
  | .disconnected _ =>
      if reading.connected then some { reading with connected := false }
      else none
  | .connectTimeout _ =>
      if reading.timedOut then none
      else some { reading with timedOut := true }
  | .value _ _ _ => if reading.opened then some reading else none
  | .ended _ => some { reading with ended := true }
  | .error _ _ | .accessRights _ _ _ => some reading

/-- Nothing follows the end, and every item is of the one subscription. -/
def read (id : Nat) (reading : Reading) (item : Item Snapshot Error) :
    Option Reading :=
  if reading.ended ∨ item.id ≠ id then none else reading.turn item

def readAll (id : Nat) (items : List (Item Snapshot Error)) :
    Option Reading :=
  items.foldlM (read id) start

variable {id : Nat}

theorem readAll_append (early late : List (Item Snapshot Error)) :
    readAll id (early ++ late) =
      (readAll id early).bind fun reading => late.foldlM (read id) reading :=
  List.foldlM_append

theorem readAll_concat {items : List (Item Snapshot Error)}
    {reading : Reading} (before : readAll id items = some reading)
    (item : Item Snapshot Error) :
    readAll id (items ++ [item]) = reading.read id item := by
  rw [readAll_append, before, Option.bind_some, List.foldlM_cons]
  exact bind_pure _

theorem readAll_left {early late : List (Item Snapshot Error)}
    (accepted : (readAll id (early ++ late)).isSome) :
    (readAll id early).isSome := by
  rw [readAll_append] at accepted
  exact Option.isSome_of_isSome_bind accepted

@[elab_as_elim]
theorem readAll_induction
    {motive : List (Item Snapshot Error) → Reading → Prop}
    (nil : motive [] start)
    (snoc : ∀ items reading item after, motive items reading →
      read id reading item = some after → motive (items ++ [item]) after)
    {items : List (Item Snapshot Error)} {reading : Reading}
    (accepted : readAll id items = some reading) : motive items reading := by
  induction items using List.reverseRecOn generalizing reading with
  | nil =>
      obtain rfl := Option.some.inj accepted
      exact nil
  | append_singleton items item induction =>
      obtain ⟨before, early⟩ := Option.isSome_iff_exists.mp
        (readAll_left (Option.isSome_of_mem accepted))
      rw [readAll_concat early] at accepted
      exact snoc items before item reading (induction early) accepted

theorem read_eq_some {reading after : Reading} {item : Item Snapshot Error}
    (taken : read id reading item = some after) :
    reading.ended = false ∧ item.id = id ∧ reading.turn item = some after := by
  unfold read at taken
  split at taken
  · cases taken
  · rename_i fine
    simp only [not_or, Bool.not_eq_true, not_not] at fine
    exact ⟨fine.1, fine.2, taken⟩

theorem alternates {items : List (Item Snapshot Error)} {reading : Reading}
    (accepted : readAll id items = some reading) :
    (false :: items.filterMap Item.change).IsChain (· ≠ ·) ∧
      (false :: items.filterMap Item.change).getLast? =
        some reading.connected := by
  refine readAll_induction (by simp [start]) ?_ accepted
  intro items reading item after before taken
  obtain ⟨chain, last⟩ := before
  obtain ⟨_, _, turn⟩ := read_eq_some taken
  have changed (now : Bool) (different : reading.connected ≠ now)
      (change : item.change = some now) (connected : after.connected = now) :
      (false :: (items ++ [item]).filterMap Item.change).IsChain (· ≠ ·) ∧
        (false :: (items ++ [item]).filterMap Item.change).getLast? =
          some after.connected := by
    simp only [List.filterMap_append, List.filterMap_cons, change,
      List.filterMap_nil, ← List.cons_append, List.isChain_append,
      List.getLast?_concat, connected]
    refine ⟨⟨chain, .singleton now, ?_⟩, trivial⟩
    intro latest isLast next isNext
    obtain rfl := Option.some.inj (last.symm.trans isLast)
    obtain rfl : now = next := by simpa using isNext
    exact different
  have unchanged (change : item.change = none)
      (connected : after.connected = reading.connected) :
      (false :: (items ++ [item]).filterMap Item.change).IsChain (· ≠ ·) ∧
        (false :: (items ++ [item]).filterMap Item.change).getLast? =
          some after.connected := by
    simp only [List.filterMap_append, List.filterMap_cons, change,
      List.filterMap_nil, List.append_nil, connected]
    exact ⟨chain, last⟩
  cases item with
  | connected item =>
      cases connected : reading.connected with
      | true => simp [Reading.turn, connected] at turn
      | false =>
          simp only [Reading.turn, connected, Bool.false_eq_true, if_false,
            Option.some.injEq] at turn
          subst turn
          exact changed true (by simp [connected]) rfl rfl
  | disconnected item =>
      cases connected : reading.connected with
      | false => simp [Reading.turn, connected] at turn
      | true =>
          simp only [Reading.turn, connected, if_true, Option.some.injEq]
            at turn
          subst turn
          exact changed false (by simp [connected]) rfl rfl
  | connectTimeout item =>
      simp only [Reading.turn, Option.ite_none_left_eq_some,
        Option.some.injEq] at turn
      obtain ⟨_, rfl⟩ := turn
      exact unchanged rfl rfl
  | value item name snapshot =>
      simp only [Reading.turn, Option.ite_none_right_eq_some,
        Option.some.injEq] at turn
      obtain ⟨_, rfl⟩ := turn
      exact unchanged rfl rfl
  | ended item | error item error | accessRights item read write =>
      obtain rfl := Option.some.inj turn
      exact unchanged rfl rfl

theorem timeouts {items : List (Item Snapshot Error)} {reading : Reading}
    (accepted : readAll id items = some reading) :
    items.countP Item.isTimeout = reading.timedOut.toNat := by
  refine readAll_induction rfl ?_ accepted
  intro items reading item after before taken
  obtain ⟨_, _, turn⟩ := read_eq_some taken
  rw [List.countP_append, before]
  cases item <;> grind [Reading.turn, Item.isTimeout]

theorem opened_mem {items : List (Item Snapshot Error)} {reading : Reading}
    (accepted : readAll id items = some reading) :
    (reading.connected = true → reading.opened = true) ∧
      (reading.opened = true → .connected id ∈ items) := by
  refine readAll_induction (by simp [start]) ?_ accepted
  intro items reading item after before taken
  obtain ⟨_, own, turn⟩ := read_eq_some taken
  cases item <;> grind [Reading.turn, Item.id]

theorem ended_getLast {items : List (Item Snapshot Error)}
    {reading : Reading} (accepted : readAll id items = some reading) :
    (reading.ended = true → items.getLast? = some (.ended id)) ∧
      (.ended id ∈ items → reading.ended = true) := by
  refine readAll_induction (by simp [start]) ?_ accepted
  intro items reading item after before taken
  obtain ⟨open_, own, turn⟩ := read_eq_some taken
  rw [List.getLast?_concat]
  cases item <;> grind [Reading.turn, Item.id]

theorem readAll_split {early late : List (Item Snapshot Error)}
    {item : Item Snapshot Error} {reading : Reading}
    (accepted : readAll id (early ++ item :: late) = some reading) :
    ∃ before after, readAll id early = some before ∧
      read id before item = some after ∧
      late.foldlM (read id) after = some reading := by
  rw [readAll_append] at accepted
  obtain ⟨before, first, rest⟩ := Option.bind_eq_some_iff.mp accepted
  rw [List.foldlM_cons] at rest
  obtain ⟨after, taken, last⟩ := Option.bind_eq_some_iff.mp rest
  exact ⟨before, after, first, taken, last⟩

theorem nothing_after {reading last : Reading} (ended : reading.ended = true)
    {late : List (Item Snapshot Error)}
    (accepted : late.foldlM (read id) reading = some last) : late = [] := by
  cases late with
  | nil => rfl
  | cons item late => simp [read, ended] at accepted

theorem readAll_errors {items notes : List (Item Snapshot Error)}
    {reading : Reading} (before : readAll id items = some reading)
    (going : reading.ended = false)
    (errors : ∀ note ∈ notes, ∃ error, note = .error id error) :
    readAll id (items ++ notes) = some reading := by
  induction notes generalizing items with
  | nil => rw [List.append_nil, before]
  | cons note notes induction =>
      obtain ⟨error, rfl⟩ := errors note List.mem_cons_self
      rw [List.append_cons]
      apply induction
      · rw [readAll_concat before]
        simp [read, going, Item.id, turn]
      · intro note later
        exact errors note (List.mem_cons_of_mem _ later)

end Reading

namespace Place

/-- The task has not yet asked whether it is to have a monitor. -/
def early : Place → Bool
  | .probing | .arming | .connecting | .counting => true
  | .capping | .subscribing _ | .forwarding | .leaving => false

/-- The task is asking for its monitor. -/
def asks : Place → Bool
  | .capping | .subscribing _ => true
  | _ => false

end Place

namespace Task

/-- What has been sent and what is about to be. -/
def traffic (task : Task Snapshot Error) : List (Item Snapshot Error) :=
  task.emitted ++ task.sending

/-- Whether the first connection has been waited for. -/
def past (task : Task Snapshot Error) : Prop :=
  task.place ≠ .probing ∧ task.place ≠ .arming ∧ task.place ≠ .connecting ∧
    task.place ≠ .leaving

def mayTimeOut (task : Task Snapshot Error) : Prop :=
  task.place = .probing ∨ task.place = .arming ∨ task.deadline.isSome = true

structure Going (task : Task Snapshot Error) (reading : Reading) : Prop where
  ended : reading.ended = false
  connected : reading.connected = task.connected
  timedOut : task.mayTimeOut → reading.timedOut = false
  opened : task.past → reading.opened = true

/-- A reader that took the traffic agrees with the task; with a task that
left, about the end, unless the task never got its deadline. -/
structure Agrees (task : Task Snapshot Error) (reading : Reading) : Prop where
  traffic : Reading.readAll task.id task.traffic = some reading
  going : task.place ≠ .leaving → task.Going reading
  gone : task.place = .leaving → task.hubOpen = true →
    reading.ended = true ∨ task.args.deadline = none

def Told (task : Task Snapshot Error) : Prop :=
  ∃ reading, task.Agrees reading

variable {task after : Task Snapshot Error} {reading : Reading}

theorem Agrees.speaks (agrees : task.Agrees reading)
    (idle : task.sending = []) (going : task.place ≠ .leaving)
    {item : Item Snapshot Error} (own : item.id = task.id) {next : Reading}
    (turn : reading.turn item = some next) :
    Reading.readAll task.id (task.emitted ++ [item]) = some next := by
  have before := agrees.traffic
  rw [Task.traffic, idle, List.append_nil] at before
  rw [Reading.readAll_concat before]
  simp [Reading.read, (agrees.going going).ended, own, turn]

/-- The task stays where it waits and sends an item that is no change. -/
theorem Agrees.send (agrees : task.Agrees reading)
    (idle : task.sending = []) (going : task.place ≠ .leaving)
    {item : Item Snapshot Error} (own : item.id = task.id)
    (turn : reading.turn item = some reading) :
    (task.send item).Agrees reading where
  traffic := agrees.speaks idle going own turn
  going _ :=
    have is := agrees.going going
    ⟨is.ended, is.connected, is.timedOut, is.opened⟩
  gone left := absurd left going

theorem Agrees.note (agrees : task.Agrees reading)
    (idle : task.sending = []) (going : task.place ≠ .leaving)
    (now : Bool) : (task.note now).Told := by
  by_cases same : now = task.connected
  · rw [Task.note, if_pos same]
    exact ⟨reading, agrees⟩
  · rw [Task.note, if_neg same]
    have is := agrees.going going
    cases now with
    | true =>
        have closed : reading.connected = false := by
          rw [is.connected]
          simpa using Ne.symm same
        refine ⟨{ reading with connected := true, opened := true },
          agrees.speaks idle going rfl ?_, fun _ => ?_,
          fun left => absurd left going⟩
        · simp [Reading.turn, closed]
        · exact ⟨is.ended, rfl, is.timedOut, fun _ => rfl⟩
    | false =>
        have open_ : reading.connected = true := by
          rw [is.connected]
          simpa using Ne.symm same
        refine ⟨{ reading with connected := false },
          agrees.speaks idle going rfl ?_, fun _ => ?_,
          fun left => absurd left going⟩
        · simp [Reading.turn, open_]
        · exact ⟨is.ended, rfl, is.timedOut, is.opened⟩

theorem Agrees.finish (agrees : task.Agrees reading)
    (idle : task.sending = []) (going : task.place ≠ .leaving)
    {notes : List (Item Snapshot Error)}
    (errors : ∀ note ∈ notes, ∃ error, note = .error task.id error) :
    (task.finish notes).Told := by
  have before := agrees.traffic
  rw [Task.traffic, idle, List.append_nil] at before
  have is := (agrees.going going).ended
  have noted := Reading.readAll_errors before is errors
  refine ⟨{ reading with ended := true }, ?_, fun stays => absurd rfl stays,
    fun _ _ => .inl rfl⟩
  rw [Task.traffic, Task.finish, ← List.append_assoc,
    Reading.readAll_concat noted]
  simp [Reading.read, is, Item.id, Reading.turn]

theorem Agrees.goes (agrees : task.Agrees reading)
    (going : task.place ≠ .leaving)
    (same : after.id = task.id ∧ after.traffic = task.traffic ∧
      after.connected = task.connected)
    (stays : after.place ≠ .leaving)
    (timedOut : after.mayTimeOut → task.mayTimeOut)
    (opened : after.past → reading.opened = true) :
    after.Agrees reading where
  traffic := by
    rw [same.1, same.2.1]
    exact agrees.traffic
  going _ := by
    have is := agrees.going going
    refine ⟨is.ended, ?_, fun may => is.timedOut (timedOut may), opened⟩
    rw [same.2.2]
    exact is.connected
  gone left := absurd left stays

theorem Agrees.forwardEvent (agrees : task.Agrees reading)
    (idle : task.sending = []) (going : task.place ≠ .leaving)
    (event : Except RecvError ConnectionEvent) (ok : Bool) :
    (task.forwardEvent event ok).Told := by
  cases event with
  | ok event =>
      cases event with
      | connected | nativeTypeChanged => exact agrees.note idle going true
      | disconnected => exact agrees.note idle going false
      | accessRightsChanged read write =>
          exact ⟨reading, agrees.send idle going rfl rfl⟩
  | error error =>
      cases error with
      | lagged => exact agrees.note idle going ok
      | closed => exact agrees.finish idle going (by simp)

theorem Agrees.onCtrl (agrees : task.Agrees reading)
    (idle : task.sending = [])
    (waits : task.place = .connecting ∨ task.place = .forwarding)
    (message : Option Ctrl) : (task.onCtrl message).Told := by
  have going : task.place ≠ .leaving := by
    intro left
    simp [left] at waits
  have is := agrees.going going
  have ended : ({ task.finish [] with handle := none } : Task _ _).Told := by
    have closing : (task.finish []).Told :=
      agrees.finish idle going (by simp)
    obtain ⟨reading, agrees⟩ := closing
    exact ⟨reading, agrees.traffic, fun stays => absurd rfl stays,
      agrees.gone⟩
  have stays (after : Task Snapshot Error)
      (same : after =
        { task with paused := after.paused, handle := after.handle }) :
      after.Told := by
    rw [same]
    exact ⟨reading, agrees.goes going ⟨rfl, rfl, rfl⟩ going
      (fun may => may) is.opened⟩
  cases message with
  | none => exact ended
  | some message =>
      cases message with
      | close => exact ended
      | pause | resume =>
          rcases waits with here | here
          · exact stays _ (by simp [Task.onCtrl, here])
          · exact stays _ (by simp [Task.onCtrl, here])

theorem Agrees.take (agrees : task.Agrees reading)
    (idle : task.sending = []) {branch : Branch Snapshot Error}
    (step : task.take branch = some after) : after.Told := by
  cases Took.of_take step with
  | probe ok here =>
      have going : task.place ≠ .leaving := by simp [here]
      obtain ⟨next, noted⟩ := agrees.note idle going ok
      rw [note_place]
      refine ⟨next, noted.goes ?_ ⟨rfl, rfl, rfl⟩ ?_ ?_ ?_⟩
      · simp [here]
      · simp
      · simp [mayTimeOut, here]
      · simp [past]
  | overflow here unfit =>
      exact ⟨reading, agrees.traffic, fun stays => absurd rfl stays,
        fun _ _ => .inr unfit⟩
  | arm deadline here fit =>
      have going : task.place ≠ .leaving := by simp [here]
      refine ⟨reading, agrees.goes going ⟨rfl, rfl, rfl⟩ ?_ ?_ ?_⟩
      · simp
      · exact fun _ => .inr (.inl here)
      · simp [past]
  | connectFailed error here =>
      exact agrees.finish idle (by simp [here]) (by simp)
  | connect here =>
      have going : task.place ≠ .leaving := by simp [here]
      obtain ⟨next, noted⟩ := agrees.note idle going true
      have there : (task.note true).place ≠ .leaving := by simp [here]
      have opened : next.opened = true := by
        apply (Reading.opened_mem noted.traffic).1
        rw [(noted.going there).connected, note_connected]
      rw [note_place]
      refine ⟨next, noted.goes there ⟨rfl, rfl, rfl⟩ ?_ ?_ ?_⟩
      · simp
      · intro may
        exact .inr (.inr (by simpa [mayTimeOut] using may))
      · exact fun _ => opened
  | deadline here armed =>
      have going : task.place ≠ .leaving := by simp [here]
      have is := agrees.going going
      have first := is.timedOut (.inr (.inr armed))
      refine ⟨{ reading with timedOut := true },
        agrees.speaks idle going rfl ?_, fun _ => ?_,
        fun left => absurd left going⟩
      · simp [Reading.turn, first]
      · refine ⟨is.ended, is.connected, ?_, is.opened⟩
        simp [mayTimeOut, Task.send, here]
  | event event ok here =>
      have going : task.place ≠ .leaving := by
        intro left
        simp [left] at here
      exact agrees.forwardEvent idle going event ok
  | ctrl message here => exact agrees.onCtrl idle here message
  | count elementCount here =>
      have going : task.place ≠ .leaving := by simp [here]
      have opened := (agrees.going going).opened (by simp [past, here])
      refine ⟨reading, agrees.goes going ⟨rfl, rfl, rfl⟩ ?_ ?_
        fun _ => opened⟩
      · dsimp only
        split <;> simp
      · simp only [mayTimeOut, here]
        split <;> simp
  | capFailed elementCount error here =>
      exact agrees.finish idle (by simp [here]) (by simp)
  | cap elementCount cap here =>
      have going : task.place ≠ .leaving := by simp [here]
      have opened := (agrees.going going).opened (by simp [past, here])
      refine ⟨reading, agrees.goes going ⟨rfl, rfl, rfl⟩ ?_ ?_
        fun _ => opened⟩
      · simp
      · simp [mayTimeOut, here]
  | subscribeFailed cap error here =>
      exact agrees.finish idle (by simp [here]) (by simp)
  | subscribe cap here =>
      have going : task.place ≠ .leaving := by simp [here]
      have opened := (agrees.going going).opened (by simp [past, here])
      refine ⟨reading, agrees.goes going ⟨rfl, rfl, rfl⟩ ?_ ?_
        fun _ => opened⟩
      · simp
      · simp [mayTimeOut, here]
  | recvEnd here has => exact agrees.finish idle (by simp [here]) (by simp)
  | recv snapshot here has =>
      have going : task.place ≠ .leaving := by simp [here]
      have opened := (agrees.going going).opened (by simp [past, here])
      refine ⟨reading, agrees.send idle going rfl ?_⟩
      simp [Reading.turn, opened]
  | recvError error here has =>
      exact ⟨reading, agrees.send idle (by simp [here]) rfl rfl⟩

theorem Agrees.next (agrees : task.Agrees reading)
    (label : Label Snapshot Error) (step : task.next label = some after) :
    after.Told := by
  rcases next_cases step with rfl | ⟨item, rest, sending, isOpen, rfl⟩ |
    ⟨closed, rfl⟩ | ⟨branch, _, idle, taken⟩
  · refine ⟨reading, agrees.traffic, fun going => ?_, by simp⟩
    have is := agrees.going going
    exact ⟨is.ended, is.connected, is.timedOut, is.opened⟩
  · have same : task.emitted ++ [item] ++ rest = task.traffic := by
      rw [Task.traffic, sending]
      exact (List.append_cons _ _ _).symm
    refine ⟨reading, ?_, fun going => ?_, agrees.gone⟩
    · rw [Task.traffic, same]
      exact agrees.traffic
    · have is := agrees.going going
      exact ⟨is.ended, is.connected, is.timedOut, is.opened⟩
  · obtain ⟨before, early⟩ := Option.isSome_iff_exists.mp
      (Reading.readAll_left (Option.isSome_of_mem agrees.traffic))
    refine ⟨before, ?_, fun stays => absurd rfl stays, ?_⟩
    · rw [Task.traffic, List.append_nil]
      exact early
    · simp [closed]
  · exact agrees.take idle taken

theorem told : (system Snapshot Error).Invariant Task.Told where
  initial := by
    intro task start
    obtain ⟨id, name, args, rfl⟩ := start
    refine ⟨Reading.start, rfl, fun _ => ⟨rfl, rfl, fun _ => rfl, ?_⟩, ?_⟩
    · simp [past, Task.start]
    · simp [Task.start]
  preserved task label after before step := by
    obtain ⟨reading, agrees⟩ := before
    exact agrees.next label step

/-- Whether the task asks for values, or has. -/
def requested (task : Task Snapshot Error) : Bool :=
  task.place.asks || task.handle.isSome || task.traffic.any Item.isValue

def Wanted (task : Task Snapshot Error) : Prop :=
  ∃ count, task.firstCount = some count ∧ task.args.wantValues count = true

structure Asked (task : Task Snapshot Error) : Prop where
  wanted : task.requested = true → task.Wanted
  early : task.place.early = true → task.requested = false

theorem Asked.frame (asked : task.Asked)
    (same : after.args = task.args ∧ after.firstCount = task.firstCount)
    (requested : after.requested = true → task.requested = true)
    (early : after.place.early = true → task.place.early = true) :
    after.Asked where
  wanted asks := by
    obtain ⟨count, first, wants⟩ := asked.wanted (requested asks)
    exact ⟨count, same.2.trans first, by rw [same.1, wants]⟩
  early isEarly := by
    have before := asked.early (early isEarly)
    cases asks : after.requested with
    | false => rfl
    | true => rw [requested asks] at before; cases before

theorem note_frame (task : Task Snapshot Error) (idle : task.sending = [])
    (now : Bool) : (task.note now).args = task.args ∧
      (task.note now).firstCount = task.firstCount ∧
      (task.note now).requested = task.requested := by
  unfold note
  split
  · exact ⟨rfl, rfl, rfl⟩
  · cases now <;> simp [requested, traffic, idle, Item.isValue]

theorem Asked.note (asked : task.Asked) (idle : task.sending = [])
    (now : Bool) : (task.note now).Asked := by
  obtain ⟨args, first, requested⟩ := task.note_frame idle now
  refine asked.frame ⟨args, first⟩ (fun asks => requested ▸ asks) ?_
  rw [(task.note_same now).1]
  exact fun early => early

theorem Asked.send (asked : task.Asked) (idle : task.sending = [])
    {item : Item Snapshot Error} (silent : item.isValue = false) :
    (task.send item).Asked := by
  refine asked.frame ⟨rfl, rfl⟩ ?_ (fun early => early)
  simp [requested, traffic, Task.send, idle, silent]

theorem Asked.finish (asked : task.Asked) (idle : task.sending = [])
    {notes : List (Item Snapshot Error)}
    (silent : notes.any Item.isValue = false) :
    (task.finish notes).Asked := by
  refine asked.frame ⟨rfl, rfl⟩ ?_ ?_
  · rw [List.any_eq_false] at silent
    grind [requested, traffic, Task.finish, Item.isValue, Place.asks]
  · simp [Task.finish, Place.early]

/-- The task takes up another place, and its monitor may have gone. -/
theorem Asked.goes (asked : task.Asked)
    (same : after.args = task.args ∧ after.firstCount = task.firstCount ∧
      after.traffic = task.traffic)
    (handle : after.handle.isSome = true → task.handle.isSome = true)
    (asks : after.place.asks = true → task.place.asks = true)
    (early : after.place.early = true → task.place.early = true) :
    after.Asked := by
  refine asked.frame ⟨same.1, same.2.1⟩ ?_ early
  simp only [requested, same.2.2, Bool.or_eq_true]
  intro any
  rcases any with (isAsking | has) | value
  · exact .inl (.inl (asks isAsking))
  · exact .inl (.inr (handle has))
  · exact .inr value

theorem Asked.forwardEvent (asked : task.Asked) (idle : task.sending = [])
    (event : Except RecvError ConnectionEvent) (ok : Bool) :
    (task.forwardEvent event ok).Asked := by
  cases event with
  | ok event =>
      cases event with
      | connected | nativeTypeChanged => exact asked.note idle true
      | disconnected => exact asked.note idle false
      | accessRightsChanged read write => exact asked.send idle rfl
  | error error =>
      cases error with
      | lagged => exact asked.note idle ok
      | closed => exact asked.finish idle rfl

theorem Asked.onCtrl (asked : task.Asked) (idle : task.sending = [])
    (message : Option Ctrl) : (task.onCtrl message).Asked := by
  have ended : ({ task.finish [] with handle := none } : Task _ _).Asked := by
    refine (asked.finish idle rfl).goes ⟨rfl, rfl, rfl⟩ ?_ ?_ ?_
    · simp
    · exact fun asks => asks
    · exact fun early => early
  have stays (after : Task Snapshot Error)
      (same : after =
        { task with paused := after.paused, handle := after.handle })
      (handle : after.handle.isSome = true → task.handle.isSome = true) :
      after.Asked := by
    rw [same]
    exact asked.goes ⟨rfl, rfl, rfl⟩ handle (fun asks => asks)
      (fun early => early)
  match message with
  | none | some .close => exact ended
  | some .pause | some .resume =>
      cases here : task.place <;>
        exact stays _ (by simp [Task.onCtrl, here])
          (by simp [Task.onCtrl, here])

theorem Asked.take (asked : task.Asked) (idle : task.sending = [])
    {branch : Branch Snapshot Error}
    (step : task.take branch = some after) : after.Asked := by
  cases Took.of_take step with
  | probe ok here =>
      rw [note_place]
      refine (asked.note idle ok).goes ⟨rfl, rfl, rfl⟩ (fun has => has) ?_ ?_
      · simp [Place.asks]
      · simp [Place.early, here]
  | overflow here unfit =>
      refine asked.goes ⟨rfl, rfl, rfl⟩ (fun has => has) ?_ ?_
      · simp [Place.asks]
      · simp [Place.early]
  | arm deadline here fit =>
      refine asked.goes ⟨rfl, rfl, rfl⟩ (fun has => has) ?_ ?_
      · simp [Place.asks]
      · simp [Place.early, here]
  | connectFailed error here => exact asked.finish idle rfl
  | connect here =>
      rw [note_place]
      refine (asked.note idle true).goes ⟨rfl, rfl, rfl⟩
        (fun has => has) ?_ ?_
      · simp [Place.asks]
      · simp [Place.early, here]
  | deadline here armed =>
      have disarmed : ({ task with deadline := none } : Task _ _).Asked :=
        asked.goes ⟨rfl, rfl, rfl⟩ (fun has => has)
          (fun asks => asks) (fun early => early)
      exact disarmed.send idle rfl
  | event event ok here => exact asked.forwardEvent idle event ok
  | ctrl message here => exact asked.onCtrl idle message
  | count elementCount here =>
      have nothing := asked.early (by simp [here, Place.early])
      cases wants : task.args.wantValues elementCount with
      | true => exact ⟨fun _ => ⟨elementCount, rfl, wants⟩, by
          simp [Place.early]⟩
      | false =>
          constructor
          · intro asks
            rw [requested, here] at nothing
            exact absurd (nothing.symm.trans asks) Bool.false_ne_true
          · simp [Place.early]
  | capFailed elementCount error here => exact asked.finish idle rfl
  | cap elementCount cap here =>
      refine asked.goes ⟨rfl, rfl, rfl⟩ (fun has => has) ?_ ?_
      · simp [Place.asks, here]
      · simp [Place.early]
  | subscribeFailed cap error here => exact asked.finish idle rfl
  | subscribe cap here =>
      refine asked.frame ⟨rfl, rfl⟩ ?_ (by simp [Place.early])
      simp [requested, here, Place.asks]
  | recvEnd here has => exact asked.finish idle rfl
  | recv snapshot here has =>
      refine asked.frame ⟨rfl, rfl⟩ ?_ (fun early => early)
      simp [requested, has]
  | recvError error here has => exact asked.send idle rfl

theorem asked : (system Snapshot Error).Invariant Task.Asked where
  initial := by
    intro task start
    obtain ⟨id, name, args, rfl⟩ := start
    exact ⟨fun asks => absurd asks Bool.false_ne_true, fun _ => rfl⟩
  preserved task label after before step := by
    rcases next_cases step with rfl | ⟨item, rest, sending, isOpen, rfl⟩ |
      ⟨closed, rfl⟩ | ⟨branch, _, idle, taken⟩
    · exact before.goes ⟨rfl, rfl, rfl⟩ (fun has => has)
        (fun asks => asks) (fun early => early)
    · refine before.goes ⟨rfl, rfl, ?_⟩ (fun has => has)
        (fun asks => asks) (fun early => early)
      rw [traffic, traffic, sending]
      exact (List.append_cons _ _ _).symm
    · refine before.frame ⟨rfl, rfl⟩ ?_ (by simp [Place.early])
      grind [requested, traffic, Place.asks]
    · exact before.take idle taken

/-- What has been sent at any time.  Changes alternate, and the first is to
connected; a task that has left while the hub is open has sent the end. -/
structure Grammar (task : Task Snapshot Error) : Prop where
  alternate : (false :: task.emitted.filterMap Item.change).IsChain (· ≠ ·)
  timeouts : task.emitted.countP Item.isTimeout ≤ 1
  ends : ∀ early late id, task.emitted = early ++ .ended id :: late →
    late = []
  opened : ∀ early late item, task.emitted = early ++ item :: late →
    item.isValue = true → .connected task.id ∈ early
  lifecycle : ∀ item ∈ task.emitted, item.isValue = true →
    task.args.values = true ∧ ∀ most, task.args.valuesMaxCount = some most →
      ∃ count, task.firstCount = some (.ok count) ∧ count ≤ most
  leaves : task.place = .leaving → task.sending = [] →
    task.hubOpen = true → task.emitted.getLast? = some (.ended task.id)

/-- The deadline is armed with what a duration can hold. -/
def Armable (task : Task Snapshot Error) (label : Label Snapshot Error) :
    Prop :=
  label = .take .arm → task.hubOpen = true → task.args.deadline ≠ none

/-- A task whose deadline cannot be armed waits before it. -/
def Unarmed (task : Task Snapshot Error) : Prop :=
  task.args.deadline = none → task.hubOpen = true →
    task.place = .probing ∨ task.place = .arming

theorem Wanted.counts (wanted : task.Wanted) :
    task.args.values = true ∧ ∀ most, task.args.valuesMaxCount = some most →
      ∃ count, task.firstCount = some (.ok count) ∧ count ≤ most := by
  obtain ⟨elementCount, first, wants⟩ := wanted
  simp only [SubscribeArgs.wantValues, Bool.and_eq_true] at wants
  refine ⟨wants.1, fun most limited => ?_⟩
  have fits := wants.2
  rw [limited] at fits
  cases elementCount with
  | error error => cases fits
  | ok count => exact ⟨count, first, of_decide_eq_true fits⟩

theorem unarmed :
    ((system Snapshot Error).restrict Armable).Invariant Unarmed where
  initial := by
    intro task start
    obtain ⟨id, name, args, rfl⟩ := start
    exact fun _ _ => .inl rfl
  preserved task label after before step := by
    obtain ⟨step, fine⟩ := step
    rcases next_cases step with rfl | ⟨item, rest, sending, isOpen, rfl⟩ |
      ⟨closed, rfl⟩ | ⟨branch, rfl, idle, taken⟩
    · intro _ isOpen
      cases isOpen
    · exact before
    · intro _ isOpen
      exact absurd (closed.symm.trans isOpen) Bool.false_ne_true
    · intro unfit isOpen
      obtain ⟨args, hub⟩ := take_same taken
      rw [args] at unfit
      rw [hub] at isOpen
      rcases before unfit isOpen with here | here
      · cases branch <;> simp [Task.take, here] at taken
        subst taken
        simp [note_place]
      · cases branch <;> simp [Task.take, here] at taken
        exact absurd unfit (fine rfl isOpen)

theorem Agrees.not_ended (agrees : task.Agrees reading)
    (going : task.place ≠ .leaving) : .ended task.id ∉ task.emitted := by
  intro sent
  have ended := (Reading.ended_getLast agrees.traffic).2
    (List.mem_append_left _ sent)
  rw [(agrees.going going).ended] at ended
  cases ended

theorem Grammar.of (told : task.Told) (asked : task.Asked)
    (unarmed : task.Unarmed) : task.Grammar := by
  obtain ⟨whole, agrees⟩ := told
  obtain ⟨reading, accepted⟩ := Option.isSome_iff_exists.mp
    (Reading.readAll_left (Option.isSome_of_mem agrees.traffic))
  constructor
  · exact (Reading.alternates accepted).1
  · rw [Reading.timeouts accepted]
    exact Bool.toNat_le _
  · intro early late id split
    rw [split] at accepted
    obtain ⟨before, after, _, taken, rest⟩ := Reading.readAll_split accepted
    obtain ⟨_, _, turn⟩ := Reading.read_eq_some taken
    obtain rfl := Option.some.inj turn
    exact Reading.nothing_after rfl rest
  · intro early late item split value
    rw [split] at accepted
    obtain ⟨before, after, first, taken, _⟩ := Reading.readAll_split accepted
    apply (Reading.opened_mem first).2
    obtain ⟨_, _, turn⟩ := Reading.read_eq_some taken
    cases item with
    | value id name snapshot =>
        simp only [Reading.turn, Option.ite_none_right_eq_some] at turn
        exact turn.1
    | _ => cases value
  · intro item sent value
    apply (asked.wanted _).counts
    rw [requested, Bool.or_eq_true]
    refine .inr (List.any_eq_true.mpr ⟨item, ?_, value⟩)
    exact List.mem_append_left _ sent
  · intro left idle isOpen
    have same : task.traffic = task.emitted := by
      rw [traffic, idle, List.append_nil]
    rcases agrees.gone left isOpen with ended | unfit
    · rw [← same]
      exact (Reading.ended_getLast agrees.traffic).1 ended
    · have here := unarmed unfit isOpen
      simp [left] at here

/-- The items keep to their grammar as long as every deadline that is armed
while the hub is open can be held by a duration; the arming of another makes
the task leave without an end. -/
theorem grammar_guards :
    (system Snapshot Error).Guards Armable Task.Grammar where
  enough state reachable :=
    .of ((told.restrict Armable).reachable reachable)
      ((asked.restrict Armable).reachable reachable)
      (unarmed.reachable reachable)
  needed state label after reachable step refused := by
    obtain ⟨reading, agrees⟩ := told.reachable reachable
    simp only [Armable, Classical.not_imp, not_not] at refused
    obtain ⟨rfl, isOpen, unfit⟩ := refused
    obtain ⟨idle, taken⟩ := next_take step
    simp only [Task.take, unfit, Option.ite_none_right_eq_some,
      Option.some.injEq] at taken
    obtain ⟨here, rfl⟩ := taken
    apply Transition.Breakable.now
    intro grammar
    have sent := List.mem_of_getLast? (grammar.leaves rfl idle isOpen)
    exact agrees.not_ended (by simp [here]) sent

/-- A subscription that may wait for its connection for ever. -/
def infinite : SubscribeArgs :=
  ⟨0, some .infinity, true, none⟩

theorem infinite_timeout_ends_silently :
    ∃ task, (system Unit Unit).Run (start 1 "pv" infinite)
        [.take (.probe true), .sent, .take .arm] task ∧
      task.emitted = [.connected 1] ∧ ¬task.Grammar := by
  refine ⟨_, .of_foldlM rfl, rfl, fun grammar => ?_⟩
  have last := grammar.leaves rfl rfl rfl
  cases last

end Task

end Repics.Ca.Hub
