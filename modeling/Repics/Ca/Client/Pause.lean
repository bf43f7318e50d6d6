import Repics.Ca.Client.Drain

/-!
# Pausing a subscription

`pause` and `resume` borrow the handle of the subscription, for which they
take the lock of the drain.  A receive keeps that lock while it waits for an
item, so a borrow behind one gets the lock only when what is already there is
enough for every receive before it.
-/

namespace Repics.Ca

variable {Update Error : Type}

/-- The functions that a subscription runs on its monitor. -/
inductive Receive where
  | recv
  | recvBatch (maxItems : Nat)
  deriving DecidableEq

/-- What `recv` makes of an item. -/
def Received.ofItem : StreamItem Update Error →
    Option (Received Update Error)
  | some (.ok given) => some (.update given)
  | some (.error given) => some (.error given)
  | Option.none => Option.none

/-- One poll of a receive. -/
def Monitor.receive (monitor : Monitor Update Error) :
    Receive →
      Option (Option (Received Update Error) × Monitor Update Error)
  | .recv =>
      monitor.next.map fun taken => (Received.ofItem taken.1, taken.2)
  | .recvBatch maxItems =>
      monitor.next.map fun
        | (some (.ok update), rest) =>
            let filled := rest.fill (batchCap maxItems - 1)
            (some (.batch maxItems (update :: filled.1)), filled.2)
        | (item, rest) => (Received.ofItem item, rest)

/-- A subscription; what arrives is an item or the end of the stream. -/
def subscriptionSource (Update Error : Type) :
    Source (Monitor Update Error) Receive (Received Update Error)
      (StreamItem Update Error) where
  poll function monitor := monitor.receive function
  arrive
    | some item, monitor =>
        if monitor.handle.ended then monitor else monitor.push item
    | none, monitor => monitor.finish

/-- Leave out updates, up to a number of them. -/
def skipUpdates : Nat → List (StreamItem Update Error) →
    List (StreamItem Update Error)
  | room + 1, some (.ok _) :: items => skipUpdates room items
  | _, items => items

/-- What a receive leaves of what is there. -/
def Receive.leave : Receive → List (StreamItem Update Error) →
    List (StreamItem Update Error)
  | .recvBatch maxItems, some (.ok _) :: items =>
      skipUpdates (batchCap maxItems - 1) items
  | _, items => items.tail

/-- What is there is enough for the receives among some jobs. -/
def Enough : List (StreamItem Update Error) → List (Job Receive) → Prop
  | _, [] => True
  | items, .pull function :: jobs =>
      items ≠ [] ∧ Enough (function.leave items) jobs
  | items, _ :: jobs => Enough items jobs

theorem skipUpdates_sublist (room : Nat)
    (items : List (StreamItem Update Error)) :
    (skipUpdates room items).Sublist items := by
  induction items generalizing room with
  | nil => cases room <;> exact .refl _
  | cons item items induction =>
      cases room with
      | zero => exact .refl _
      | succ room =>
          rcases item with - | error | update
          · exact .refl _
          · exact .refl _
          · exact (induction room).cons _

theorem skipUpdates_succ (room : Nat)
    (items : List (StreamItem Update Error)) :
    (skipUpdates (room + 1) items).Sublist (skipUpdates room items) := by
  induction items generalizing room with
  | nil => cases room <;> exact .refl _
  | cons item items induction =>
      rcases item with - | error | update
      · cases room <;> exact .refl _
      · cases room <;> exact .refl _
      · cases room with
        | zero => exact (skipUpdates_sublist 0 items).cons _
        | succ room => exact induction room

theorem skipUpdates_mono (room : Nat)
    {items more : List (StreamItem Update Error)}
    (sublist : items.Sublist more) :
    (skipUpdates room items).Sublist (skipUpdates room more) := by
  induction sublist generalizing room with
  | slnil => exact .refl _
  | @cons items more item sublist induction =>
      cases room with
      | zero => exact sublist.cons item
      | succ room =>
          rcases item with - | error | update
          · exact ((skipUpdates_sublist _ items).trans sublist).cons _
          · exact ((skipUpdates_sublist _ items).trans sublist).cons _
          · exact (skipUpdates_succ room items).trans (induction room)
  | @cons_cons items more item sublist induction =>
      cases room with
      | zero => exact sublist.cons_cons item
      | succ room =>
          rcases item with - | error | update
          · exact sublist.cons_cons _
          · exact sublist.cons_cons _
          · exact induction room

theorem Receive.leave_sublist (function : Receive)
    (items : List (StreamItem Update Error)) :
    (function.leave items).Sublist items := by
  cases function with
  | recv => exact List.tail_sublist items
  | recvBatch maxItems =>
      rcases items with - | ⟨- | error | update, items⟩
      · exact .refl _
      · exact List.sublist_cons_self _ items
      · exact List.sublist_cons_self _ items
      · exact (skipUpdates_sublist _ items).cons _

theorem Receive.leave_mono (function : Receive)
    {items more : List (StreamItem Update Error)}
    (sublist : items.Sublist more) :
    (function.leave items).Sublist (function.leave more) := by
  cases function with
  | recv => exact sublist.tail
  | recvBatch maxItems =>
      cases sublist with
      | slnil => exact .refl _
      | @cons _ more item sublist =>
          rcases item with - | error | update
          · exact (leave_sublist _ items).trans sublist
          · exact (leave_sublist _ items).trans sublist
          · have within := skipUpdates_mono (batchCap maxItems - 1) sublist
            rcases items with - | ⟨- | error | update, items⟩
            · exact List.nil_sublist _
            · refine .trans ?_ within
              cases batchCap maxItems - 1 <;>
                exact List.sublist_cons_self _ items
            · refine .trans ?_ within
              cases batchCap maxItems - 1 <;>
                exact List.sublist_cons_self _ items
            · exact skipUpdates_mono _
                ((List.sublist_cons_self _ items).trans sublist)
      | @cons_cons items more item sublist =>
          rcases item with - | error | update
          · exact sublist
          · exact sublist
          · exact skipUpdates_mono _ sublist

theorem Enough.mono {items more : List (StreamItem Update Error)}
    {jobs : List (Job Receive)} (enough : Enough items jobs)
    (sublist : items.Sublist more) : Enough more jobs := by
  induction jobs generalizing items more with
  | nil => exact trivial
  | cons job jobs induction =>
      cases job with
      | pull function =>
          obtain ⟨some, rest⟩ := enough
          refine ⟨?_, induction rest (function.leave_mono sublist)⟩
          rintro rfl
          exact some (List.sublist_nil.mp sublist)
      | borrow => exact induction enough sublist
      | close => exact induction enough sublist

theorem Enough.fewer {items : List (StreamItem Update Error)}
    {fewer jobs : List (Job Receive)} (enough : Enough items jobs)
    (sublist : fewer.Sublist jobs) : Enough items fewer := by
  induction sublist generalizing items with
  | slnil => exact enough
  | cons job sublist induction =>
      cases job with
      | pull function =>
          exact induction (enough.2.mono (function.leave_sublist items))
      | borrow => exact induction enough
      | close => exact induction enough
  | cons_cons job sublist induction =>
      cases job with
      | pull function => exact ⟨enough.1, induction enough.2⟩
      | borrow => exact induction enough
      | close => exact induction enough

theorem enough_borrow {items : List (StreamItem Update Error)}
    {jobs : List (Job Receive)} (enough : Enough items jobs) :
    Enough items (jobs ++ [.borrow]) := by
  induction jobs generalizing items with
  | nil => exact trivial
  | cons job jobs induction =>
      cases job with
      | pull function => exact ⟨enough.1, induction enough.2⟩
      | borrow => exact induction enough
      | close => exact induction enough

namespace Monitor

theorem ended_fill (room : Nat) (monitor : Monitor Update Error) :
    (monitor.fill room).2.handle.ended = monitor.handle.ended := by
  induction room generalizing monitor with
  | zero => rfl
  | succ room induction =>
      rw [fill]
      cases taken : monitor.tryNext with
      | none => rfl
      | some found =>
          obtain ⟨item, rest⟩ := found
          have same := (next_some taken).2.1
          rcases item with - | error | update
          · exact same
          · exact same
          · exact (induction rest).trans same

theorem held_fill (room : Nat) {monitor : Monitor Update Error}
    (running : monitor.handle.ended = false) :
    (monitor.fill room).2.held = skipUpdates room monitor.held := by
  induction room generalizing monitor with
  | zero => rfl
  | succ room induction =>
      rw [fill]
      cases taken : monitor.tryNext with
      | none =>
          rw [next_none taken]
          rfl
      | some found =>
          obtain ⟨item, rest⟩ := found
          obtain ⟨free, same, front | ⟨-, finished, -⟩⟩ := next_some taken
          · rw [front]
            rcases item with - | error | update
            · exact held_stash free none
            · exact held_stash free (some (.error error))
            · exact induction (same.trans running)
          · rw [running] at finished
            cases finished

/-- A running monitor serves a receive when something is there. -/
theorem receive_running {monitor : Monitor Update Error}
    (running : monitor.handle.ended = false) (function : Receive) :
    (monitor.receive function = none ∧ monitor.held = []) ∨
      ∃ result rest, monitor.receive function = some (result, rest) ∧
        monitor.held ≠ [] ∧ rest.held = function.leave monitor.held ∧
          rest.handle.ended = false := by
  cases taken : monitor.next with
  | none =>
      refine .inl ⟨?_, next_none taken⟩
      cases function <;> simp [receive, taken]
  | some found =>
      obtain ⟨item, rest⟩ := found
      obtain ⟨-, same, front | ⟨-, finished, -⟩⟩ := next_some taken
      · have still := same.trans running
        refine .inr ?_
        rw [front]
        cases function with
        | recv =>
            exact ⟨_, rest, by rw [receive, taken]; rfl, nofun, rfl, still⟩
        | recvBatch maxItems =>
            rcases item with - | error | update
            · exact ⟨_, rest, by rw [receive, taken]; rfl, nofun, rfl, still⟩
            · exact ⟨_, rest, by rw [receive, taken]; rfl, nofun, rfl, still⟩
            · exact ⟨_, _, by rw [receive, taken]; rfl, nofun,
                held_fill _ still, (ended_fill _ rest).trans still⟩
      · rw [running] at finished
        cases finished

theorem receive_ended {monitor : Monitor Update Error}
    (finished : monitor.handle.ended = true) (function : Receive) :
    ∃ result rest, monitor.receive function = some (result, rest) ∧
      rest.handle.ended = true := by
  cases taken : monitor.next with
  | none =>
      rw [next_none_running taken] at finished
      cases finished
  | some found =>
      obtain ⟨item, rest⟩ := found
      have still := (next_some taken).2.1.trans finished
      cases function with
      | recv => exact ⟨_, rest, by rw [receive, taken]; rfl, still⟩
      | recvBatch maxItems =>
          rcases item with - | error | update
          · exact ⟨_, rest, by rw [receive, taken]; rfl, still⟩
          · exact ⟨_, rest, by rw [receive, taken]; rfl, still⟩
          · exact ⟨_, _, by rw [receive, taken]; rfl,
              (ended_fill _ rest).trans still⟩

end Monitor

/-- The jobs get what they wait for when the stream is over or enough is
there. -/
theorem feasible_iff (monitor : Monitor Update Error)
    (jobs : List (Job Receive)) :
    Drain.Feasible (subscriptionSource Update Error) monitor jobs ↔
      monitor.handle.ended = true ∨ Enough monitor.held jobs := by
  induction jobs generalizing monitor with
  | nil => exact iff_of_true trivial (.inr trivial)
  | cons job jobs induction =>
      cases job with
      | borrow => exact induction monitor
      | close => exact induction monitor
      | pull function =>
          have given : Drain.Feasible (subscriptionSource Update Error)
              monitor (.pull function :: jobs) ↔
                ∃ result rest, monitor.receive function =
                  some (result, rest) ∧ (rest.handle.ended = true ∨
                    Enough rest.held jobs) := by
            simp only [Drain.Feasible, induction]
            rfl
          rw [given]
          cases ended : monitor.handle.ended with
          | true =>
              obtain ⟨result, rest, polled, still⟩ :=
                Monitor.receive_ended ended function
              exact iff_of_true ⟨result, rest, polled, .inl still⟩ (.inl rfl)
          | false =>
              rcases Monitor.receive_running ended function with
                ⟨waits, empty⟩ | ⟨result, rest, polled, some, held, still⟩
              · rw [waits, Enough, empty]
                simp
              · rw [polled, Enough]
                simp [held, still, some]

namespace Drain

/-- A subscription with the tasks that use it. -/
abbrev Subscription (Update Error : Type) : Type :=
  Drain (Monitor Update Error) Receive (Received Update Error)

/-- A task that stands behind some others need not wait for what is to arrive:
the subscription is or is about to be closed, or its stream is over, or what
is there is enough for the receives before the task. -/
def Prompt (drain : Subscription Update Error) (before : List Nat) : Prop :=
  drain.closed = true ∨
    (∃ task, drain.tasks task = some ⟨.close, .starting⟩) ∨
      ∃ monitor, drain.slot = some monitor ∧
        (monitor.handle.ended = true ∨
          Enough monitor.held (drain.jobs before))

/-- A pause or resume is only called when it need not wait for what is to
arrive. -/
def CalledPromptly (drain : Subscription Update Error) :
    Label Receive (StreamItem Update Error) → Prop
  | .ask task => drain.tasks task = some ⟨.borrow, .asking⟩ →
      drain.Prompt drain.line
  | _ => True

/-- No pause or resume waits for what is to arrive. -/
def BorrowsAtOnce (monitor : Monitor Update Error)
    (drain : Subscription Update Error) : Prop :=
  ∀ task, drain.tasks task = some ⟨.borrow, .waiting⟩ →
    drain.Completable (subscriptionSource Update Error) monitor task

section Prompt

variable {drain last : Subscription Update Error}

open FairLock

theorem Prompt.kept {before after : List Nat} (prompt : drain.Prompt before)
    (line : List Nat) {task : Nat} {job : Job Receive}
    {progress : Progress (Received Update Error)}
    (notStarting : drain.tasks task ≠ some ⟨.close, .starting⟩)
    (jobs : ({ drain with line := line }.put task job progress).jobs after =
      drain.jobs after)
    (fewer : after.Sublist before) :
    Prompt ({ drain with line := line }.put task job progress) after := by
  rcases prompt with closed | ⟨other, starting⟩ | ⟨monitor, slot, enough⟩
  · exact .inl closed
  · refine .inr (.inl ⟨other, (put_tasks_iff _).mpr (.inr ⟨?_, starting⟩)⟩)
    rintro rfl
    exact notStarting starting
  · refine .inr (.inr ⟨monitor, slot, enough.imp_right fun enough => ?_⟩)
    rw [jobs]
    exact enough.fewer (fewer.filterMap _)

/-- Every borrow in the line is prompt. -/
def Prompted (drain : Subscription Update Error) : Prop :=
  ∀ task ∈ drain.line, ∀ progress,
    drain.tasks task = some ⟨.borrow, progress⟩ →
      drain.Prompt (ahead drain.line task)

theorem Prompted.put (prompted : drain.Prompted) {task : Nat}
    {job : Job Receive} {before : Progress (Received Update Error)}
    (found : drain.tasks task = some ⟨job, before⟩)
    (active : job = .close → before ≠ .starting)
    (now : Progress (Received Update Error)) :
    (drain.put task job now).Prompted := by
  intro other member progress is
  have borrow : ∃ progress, drain.tasks other = some ⟨.borrow, progress⟩ := by
    rcases (put_tasks_iff _).mp is with ⟨rfl, same⟩ | ⟨-, old⟩
    · cases same
      exact ⟨before, found⟩
    · exact ⟨progress, old⟩
  obtain ⟨progress, old⟩ := borrow
  refine (prompted other member progress old).kept drain.line ?_
    (jobs_put found now _) (.refl _)
  rw [found]
  rintro ⟨⟩
  exact active rfl rfl

theorem Prompted.finish (prompted : drain.Prompted) (sound : drain.Sound)
    {task : Nat} {job : Job Receive}
    {before : Progress (Received Update Error)}
    (found : drain.tasks task = some ⟨job, before⟩)
    (active : job = .close → before ≠ .starting)
    (now : Progress (Received Update Error)) :
    (drain.finish task job now).Prompted := by
  intro other member progress is
  have erased : other ∈ drain.line.erase task := member
  rw [sound.lock.nodup.mem_erase_iff] at erased
  obtain ⟨apart, inLine⟩ := erased
  have old := ((put_tasks_iff _).mp is).resolve_left fun same => apart same.1
  have here : ahead (drain.finish task job now).line other =
      (ahead drain.line other).erase task :=
    ahead_erase (Ne.symm apart) drain.line
  rw [here]
  refine (prompted other inLine progress old.2).kept (drain.line.erase task)
    ?_ ?_ List.erase_sublist
  · rw [found]
    rintro ⟨⟩
    exact active rfl rfl
  · have there : Drain.tasks { drain with line := drain.line.erase task }
        task = some ⟨job, before⟩ := found
    exact jobs_put there now _

theorem jobs_put_away {tasks : List Nat} {task : Nat}
    (away : task ∉ tasks) (job : Job Receive)
    (progress : Progress (Received Update Error)) :
    (drain.put task job progress).jobs tasks = drain.jobs tasks := by
  apply List.filterMap_congr
  intro other member
  simp [put, ne_of_mem_of_not_mem member away]

theorem Prompted.start (prompted : drain.Prompted) (sound : drain.Sound)
    {task : Nat} (absent : drain.tasks task = none) (job : Job Receive)
    (progress : Progress (Received Update Error)) :
    (drain.put task job progress).Prompted := by
  have away : task ∉ drain.line := by
    rw [sound.lock.member, stage, absent]
    exact fun outside => outside rfl
  intro other member progress is
  have apart : other ≠ task := ne_of_mem_of_not_mem member away
  have old := ((put_tasks_iff _).mp is).resolve_left fun same => apart same.1
  refine (prompted other member progress old.2).kept drain.line ?_ ?_ (.refl _)
  · rw [absent]
    simp
  · apply jobs_put_away
    exact fun inside => away ((ahead_sublist _ _).subset inside)

theorem Prompted.ask (prompted : drain.Prompted) (sound : drain.Sound)
    {task : Nat} {job : Job Receive}
    (asking : drain.tasks task = some ⟨job, .asking⟩)
    (allowed : drain.CalledPromptly (.ask task)) :
    ({ drain with line := drain.line ++ [task] }.put task job
      .waiting).Prompted := by
  have away : task ∉ drain.line := by
    rw [sound.lock.member, stage_of asking]
    exact fun outside => outside rfl
  have there : Drain.tasks { drain with line := drain.line ++ [task] } task =
      some ⟨job, .asking⟩ := asking
  have notStarting : drain.tasks task ≠ some ⟨.close, .starting⟩ := by
    rw [asking]
    nofun
  intro other member progress is
  have place : other ∈ drain.line ++ [task] := member
  show Prompt _ (ahead (drain.line ++ [task]) other)
  rcases List.mem_append.mp place with inLine | single
  · have apart : other ≠ task := ne_of_mem_of_not_mem inLine away
    have old := ((put_tasks_iff _).mp is).resolve_left
      fun same => apart same.1
    rw [ahead_join inLine]
    exact (prompted other inLine progress old.2).kept _ notStarting
      (jobs_put there .waiting _) (.refl _)
  · obtain rfl := List.mem_singleton.mp single
    rw [ahead_last away]
    have borrow : job = .borrow := by
      rcases (put_tasks_iff _).mp is with ⟨-, same⟩ | ⟨apart, -⟩
      · exact (congrArg Task.job same).symm
      · exact absurd rfl apart
    subst borrow
    exact (allowed asking).kept _ notStarting (jobs_put there .waiting _)
      (.refl _)

theorem Prompted.take (prompted : drain.Prompted) (sound : drain.Sound)
    {task : Nat} {function : Receive} {monitor rest : Monitor Update Error}
    {result : Option (Received Update Error)}
    (holding : drain.tasks task = some ⟨.pull function, .holding⟩)
    (slot : drain.slot = some monitor)
    (taken : monitor.receive function = some (result, rest)) :
    ({ drain with
      slot := some rest
      used := drain.used ++ [(task, some result)] }.finish task
        (.pull function) (.returned (.pulled result))).Prompted := by
  have first := sound.lock.first task (stage_of holding)
  intro other member progress is
  have erased : other ∈ drain.line.erase task := member
  rw [sound.lock.nodup.mem_erase_iff] at erased
  obtain ⟨apart, inLine⟩ := erased
  have old := ((put_tasks_iff _).mp is).resolve_left fun same => apart same.1
  have before : ahead drain.line other =
      task :: ahead (drain.line.erase task) other := by
    cases line : drain.line with
    | nil =>
        rw [line] at first
        cases first
    | cons head tail =>
        rw [line] at first
        obtain rfl : head = task := Option.some.inj first
        rw [ahead_cons (Ne.symm apart), List.erase_cons_head]
  have prompt := prompted other inLine progress old.2
  rw [before] at prompt
  show Prompt _ (ahead (drain.line.erase task) other)
  have away : task ∉ ahead (drain.line.erase task) other := by
    intro inside
    have still := (ahead_sublist _ _).subset inside
    rw [sound.lock.nodup.mem_erase_iff] at still
    exact still.1 rfl
  rcases prompt with closed | ⟨closer, starting⟩ | ⟨_, found, enough⟩
  · exact .inl closed
  · refine .inr (.inl ⟨closer, (put_tasks_iff _).mpr (.inr ⟨?_, starting⟩)⟩)
    rintro rfl
    rw [holding] at starting
    cases starting
  · obtain rfl : monitor = _ := Option.some.inj (slot.symm.trans found)
    refine .inr (.inr ⟨rest, rfl, ?_⟩)
    have jobs : (({ drain with
        slot := some rest
        used := drain.used ++ [(task, some result)] } :
          Subscription Update Error).finish task (.pull function)
          (.returned (.pulled result))).jobs
            (ahead (drain.line.erase task) other) =
        drain.jobs (ahead (drain.line.erase task) other) :=
      jobs_put_away away _ _
    rw [jobs]
    rw [jobs_cons holding] at enough
    cases ended : monitor.handle.ended with
    | true =>
        obtain ⟨_, _, polled, finished⟩ := Monitor.receive_ended ended function
        obtain ⟨rfl, rfl⟩ := Prod.mk.inj
          (Option.some.inj (taken.symm.trans polled))
        exact .inl finished
    | false =>
        rw [ended] at enough
        rcases Monitor.receive_running ended function with
          ⟨waits, -⟩ | ⟨_, _, polled, -, held, -⟩
        · rw [waits] at taken
          cases taken
        · obtain ⟨rfl, rfl⟩ := Prod.mk.inj
            (Option.some.inj (taken.symm.trans polled))
          rw [held]
          exact .inr (enough.resolve_left nofun).2

theorem Prompted.arrive (prompted : drain.Prompted)
    (arrival : StreamItem Update Error) :
    Prompted { drain with
      slot := drain.slot.map
        ((subscriptionSource Update Error).arrive arrival) } := by
  intro task member progress is
  rcases prompted task member progress is with
    closed | starting | ⟨monitor, slot, enough⟩
  · exact .inl closed
  · exact .inr (.inl starting)
  · refine .inr (.inr ⟨_, by rw [slot]; rfl, ?_⟩)
    cases arrival with
    | none => exact .inl rfl
    | some item =>
        simp only [subscriptionSource]
        split
        · exact enough
        · refine enough.imp_right fun enough => ?_
          rw [Monitor.held_push]
          exact enough.mono (List.sublist_append_left _ _)

theorem Prompted.closed {drain : Subscription Update Error}
    (closed : drain.closed = true) : drain.Prompted :=
  fun _ _ _ _ => .inl closed

theorem Prompted.step (prompted : drain.Prompted) (sound : drain.Sound)
    {label : Label Receive (StreamItem Update Error)}
    (allowed : drain.CalledPromptly label)
    (stepped : Stepped (subscriptionSource Update Error) drain label last) :
    last.Prompted := by
  cases stepped with
  | started task job progress absent begins =>
      exact prompted.start sound absent job progress
  | refused task function found closed => exact .closed closed
  | passed task function found running =>
      exact prompted.put found nofun _
  | closes task found => exact .closed rfl
  | asked task job found => exact prompted.ask sound found allowed
  | acquired task job found first =>
      exact prompted.put found (fun _ => nofun) _
  | vanished task function found gone => exact .closed (sound.told.taken gone)
  | polled task function held found slot waits => exact prompted
  | took task function held rest result found slot taken =>
      exact prompted.take sound found slot taken
  | borrowed task found => exact prompted.finish sound found nofun _
  | emptied task found =>
      exact .closed (sound.told.closing task .holding found nofun)
  | noticed task function found closed => exact .closed closed
  | released task found =>
      exact .closed (sound.told.closing task .emptied found nofun)
  | cancelled task job progress found waits =>
      refine prompted.finish sound found (fun _ => ?_) _
      rcases waits with rfl | rfl <;> nofun
  | arrived arrival => exact prompted.arrive arrival

theorem Prompted.borrowsAtOnce (prompted : drain.Prompted)
    (sound : drain.Sound) (monitor : Monitor Update Error) :
    drain.BorrowsAtOnce monitor := by
  intro task waiting
  have inLine := sound.mem_line waiting nofun
  rcases prompted task inLine .waiting waiting with
    closed | ⟨closer, starting⟩ | ⟨held, slot, enough⟩
  · exact sound.completable closed inLine
  · have closes : drain.next (subscriptionSource Update Error)
        (.token closer) =
          some ({ drain with closed := true }.put closer .close .asking) := by
      simp only [next, starting]
      rfl
    have later := sound.step closes
    have completable : Completable (subscriptionSource Update Error) monitor
        _ task := later.completable rfl inLine
    obtain ⟨labels, last, run, returned⟩ := completable
    exact ⟨_, last, program_step monitor closes trivial run, returned⟩
  · obtain ⟨behind, line⟩ := ahead_split inLine
    apply completable_of_free monitor sound line
    refine .inr ⟨held, slot, ?_⟩
    have jobs : drain.jobs (ahead drain.line task ++ [task]) =
        drain.jobs (ahead drain.line task) ++ [.borrow] := by
      rw [Drain.jobs, List.filterMap_append]
      exact congrArg _ (jobs_cons waiting [])
    rw [jobs, feasible_iff]
    exact enough.imp_right enough_borrow

/-- A borrow stands behind receives that wait for more than there is. -/
structure Stuck (drain : Subscription Update Error) (task : Nat) :
    Prop where
  sound : drain.Sound
  running : drain.closed = false
  unclosed : ∀ other, drain.tasks other ≠ some ⟨.close, .starting⟩
  waiting : drain.tasks task = some ⟨.borrow, .waiting⟩
  short : ∃ monitor, drain.slot = some monitor ∧
    monitor.handle.ended = false ∧
      ¬Enough monitor.held (drain.jobs (ahead drain.line task))

theorem Stuck.member {task : Nat} (stuck : drain.Stuck task) :
    task ∈ drain.line :=
  stuck.sound.mem_line stuck.waiting nofun

theorem Stuck.not_first {task : Nat} (stuck : drain.Stuck task) :
    drain.line.head? ≠ some task := by
  intro first
  obtain ⟨monitor, -, -, short⟩ := stuck.short
  cases line : drain.line with
  | nil =>
      rw [line] at first
      cases first
  | cons head rest =>
      rw [line] at first short
      obtain rfl : head = task := Option.some.inj first
      rw [ahead_self] at short
      exact short trivial

/-- The first of the line is the first before a borrow that is stuck. -/
theorem Stuck.ahead_first {task first : Nat} (stuck : drain.Stuck task)
    (is : drain.line.head? = some first) :
    first ≠ task ∧ ahead drain.line task =
      first :: ahead (drain.line.erase first) task := by
  have apart : first ≠ task := by
    rintro rfl
    exact stuck.not_first is
  refine ⟨apart, ?_⟩
  cases line : drain.line with
  | nil =>
      rw [line] at is
      cases is
  | cons head rest =>
      rw [line] at is
      obtain rfl : head = first := Option.some.inj is
      rw [ahead_cons apart, List.erase_cons_head]

theorem Stuck.put {task other : Nat} (stuck : drain.Stuck task)
    (apart : other ≠ task) {job : Job Receive}
    {before progress : Progress (Received Update Error)}
    (found : drain.tasks other = some ⟨job, before⟩) (line : List Nat)
    (same : ahead line task = ahead drain.line task)
    (opens : progress ≠ .starting)
    (sound : Sound ({ drain with line := line }.put other job progress)) :
    Stuck ({ drain with line := line }.put other job progress) task where
  sound := sound
  running := stuck.running
  unclosed closer starting := by
    rcases (put_tasks_iff _).mp starting with ⟨-, is⟩ | ⟨-, old⟩
    · cases is
      exact opens rfl
    · exact stuck.unclosed closer old
  waiting := (put_tasks_iff _).mpr (.inr ⟨Ne.symm apart, stuck.waiting⟩)
  short := by
    obtain ⟨monitor, slot, running, short⟩ := stuck.short
    refine ⟨monitor, slot, running, ?_⟩
    have there : Drain.tasks { drain with line := line } other =
        some ⟨job, before⟩ := found
    rw [jobs_put there]
    show ¬Enough monitor.held (drain.jobs (ahead line task))
    rw [same]
    exact short

/-- The first of the line is done, and what was short still is. -/
theorem Stuck.leave {task first : Nat} (stuck : drain.Stuck task)
    {job : Job Receive} {result : Returned (Received Update Error)}
    (apart : first ≠ task) {other : Subscription Update Error}
    (line : other.line = drain.line) (tasks : other.tasks = drain.tasks)
    (closed : other.closed = drain.closed)
    (short : ∃ monitor, other.slot = some monitor ∧
      monitor.handle.ended = false ∧ ¬Enough monitor.held
        (drain.jobs (ahead (drain.line.erase first) task)))
    (sound : (other.finish first job (.returned result)).Sound) :
    (other.finish first job (.returned result)).Stuck task where
  sound := sound
  running := closed.trans stuck.running
  unclosed closer starting := by
    rcases (put_tasks_iff _).mp starting with ⟨-, is⟩ | ⟨-, old⟩
    · cases is
    · exact stuck.unclosed closer (tasks ▸ old)
  waiting := (put_tasks_iff _).mpr
    (.inr ⟨Ne.symm apart, tasks ▸ stuck.waiting⟩)
  short := by
    obtain ⟨monitor, slot, running, short⟩ := short
    refine ⟨monitor, slot, running, ?_⟩
    have away : first ∉ ahead (drain.line.erase first) task := by
      intro inside
      have still := (ahead_sublist _ _).subset inside
      rw [stuck.sound.lock.nodup.mem_erase_iff] at still
      exact still.1 rfl
    have jobs : (other.finish first job (.returned result)).jobs
        (ahead (drain.line.erase first) task) =
          drain.jobs (ahead (drain.line.erase first) task) := by
      rw [finish, jobs_put_away away]
      show List.filterMap (fun task => (other.tasks task).map Task.job) _ = _
      rw [tasks]
      rfl
    show ¬Enough monitor.held (Drain.jobs _
      (ahead (other.line.erase first) task))
    rw [line, jobs]
    exact short

theorem Stuck.step {task : Nat} (stuck : drain.Stuck task)
    {label : Label Receive (StreamItem Update Error)}
    (own : label.IsProgram) (sound : last.Sound)
    (stepped : Stepped (subscriptionSource Update Error) drain label last) :
    last.Stuck task := by
  have unclosed : drain.closed ≠ true := by
    rw [stuck.running]
    nofun
  have apart {other : Nat} {job : Job Receive}
      {progress : Progress (Received Update Error)}
      (found : drain.tasks other = some ⟨job, progress⟩)
      (away : progress ≠ .waiting) : other ≠ task := by
    rintro rfl
    rw [stuck.waiting] at found
    cases found
    exact away rfl
  cases stepped with
  | started other job progress absent begins => exact own.elim
  | refused other function found closed => exact absurd closed unclosed
  | passed other function found running =>
      exact stuck.put (apart found nofun) found drain.line rfl nofun sound
  | closes other found => exact absurd found (stuck.unclosed other)
  | asked other job found =>
      exact stuck.put (apart found nofun) found _
        (ahead_join stuck.member other) nofun sound
  | acquired other job found first =>
      refine stuck.put ?_ found drain.line rfl nofun sound
      rintro rfl
      exact stuck.not_first first
  | vanished other function found gone =>
      obtain ⟨monitor, slot, -, -⟩ := stuck.short
      rw [gone] at slot
      cases slot
  | polled other function held found slot waits =>
      exact ⟨sound, stuck.running, stuck.unclosed, stuck.waiting, stuck.short⟩
  | took other function held rest result found slot taken =>
      have first := stuck.sound.lock.first other (stage_of found)
      obtain ⟨away, before⟩ := stuck.ahead_first first
      refine stuck.leave away rfl rfl rfl ?_ sound
      obtain ⟨_, same, running, short⟩ := stuck.short
      obtain rfl : held = _ := Option.some.inj (slot.symm.trans same)
      rw [before, jobs_cons found] at short
      rcases Monitor.receive_running running function with
        ⟨waits, -⟩ | ⟨_, _, polled, some_, left, still⟩
      · have impossible := taken.symm.trans waits
        cases impossible
      · obtain ⟨rfl, rfl⟩ := Prod.mk.inj
          (Option.some.inj (taken.symm.trans polled))
        refine ⟨_, rfl, still, fun enough => short ⟨some_, ?_⟩⟩
        rw [← left]
        exact enough
  | borrowed other found =>
      have first := stuck.sound.lock.first other (stage_of found)
      obtain ⟨away, before⟩ := stuck.ahead_first first
      refine stuck.leave away rfl rfl rfl ?_ sound
      obtain ⟨monitor, slot, running, short⟩ := stuck.short
      rw [before, jobs_cons found] at short
      exact ⟨monitor, slot, running, short⟩
  | emptied other found =>
      exact absurd (stuck.sound.told.closing other .holding found nofun)
        unclosed
  | noticed other function found closed => exact absurd closed unclosed
  | released other found =>
      exact absurd (stuck.sound.told.closing other .emptied found nofun)
        unclosed
  | cancelled other job progress found waits => exact own.elim
  | arrived arrival => exact own.elim

theorem Stuck.not_completable {task : Nat} (stuck : drain.Stuck task)
    (monitor : Monitor Update Error) :
    ¬drain.Completable (subscriptionSource Update Error) monitor task := by
  rintro ⟨labels, last, run, job, result, returned⟩
  have still : last.Stuck task := by
    apply run.preserves _ stuck
    intro state label next stuck step
    exact stuck.step step.2 (stuck.sound.step step.1) (step_cases step.1)
  rw [still.waiting] at returned
  cases returned

/-- A borrow that is called while it has to wait is stuck at once. -/
theorem stuck_of_unprompt (sound : drain.Sound) {task : Nat}
    (asking : drain.tasks task = some ⟨.borrow, .asking⟩)
    (unprompt : ¬drain.Prompt drain.line) :
    Stuck ({ drain with line := drain.line ++ [task] }.put task .borrow
      .waiting) task := by
  have asks : drain.next (subscriptionSource Update Error) (.ask task) =
      some ({ drain with line := drain.line ++ [task] }.put task .borrow
        .waiting) := by
    simp only [next, asking]
  have away : task ∉ drain.line := by
    rw [sound.lock.member, stage_of asking]
    exact fun outside => outside rfl
  have running : drain.closed = false :=
    Bool.eq_false_iff.mpr fun closed => unprompt (.inl closed)
  refine ⟨sound.step asks, running, fun closer starting => ?_, ?_, ?_⟩
  · rcases (put_tasks_iff _).mp starting with ⟨-, is⟩ | ⟨-, old⟩
    · cases is
    · exact unprompt (.inr (.inl ⟨closer, old⟩))
  · exact (put_tasks_iff _).mpr (.inl ⟨rfl, rfl⟩)
  · obtain ⟨monitor, slot⟩ : ∃ monitor, drain.slot = some monitor := by
      apply Option.ne_none_iff_exists'.mp
      intro gone
      have closed := sound.told.taken gone
      rw [running] at closed
      cases closed
    have short : ¬(monitor.handle.ended = true ∨
        Enough monitor.held (drain.jobs drain.line)) := fun enough =>
      unprompt (.inr (.inr ⟨monitor, slot, enough⟩))
    rw [not_or, Bool.not_eq_true] at short
    refine ⟨monitor, slot, short.1, ?_⟩
    have there : Drain.tasks { drain with line := drain.line ++ [task] }
        task = some ⟨.borrow, .asking⟩ := asking
    rw [jobs_put there]
    show ¬Enough monitor.held
      (drain.jobs (ahead (drain.line ++ [task]) task))
    rw [ahead_last away]
    exact short.2

end Prompt

/-- No pause or resume waits for what is to arrive in the runs in which each
is called when it need not, and the first that is called otherwise does. -/
theorem pause_guards (monitor : Monitor Update Error) :
    (system (subscriptionSource Update Error) monitor).Guards CalledPromptly
      (BorrowsAtOnce monitor) where
  enough state reachable := by
    have base := (sound_invariant (subscriptionSource Update Error)
      monitor).restrict CalledPromptly
    have invariant : ((system (subscriptionSource Update Error)
        monitor).restrict CalledPromptly).Invariant
          fun drain => drain.Sound ∧ drain.Prompted := by
      apply base.strengthen
      · rintro _ rfl
        nofun
      · intro state label next sound prompted step
        exact prompted.step sound step.2 (step_cases step.1)
    obtain ⟨sound, prompted⟩ := invariant.reachable reachable
    exact prompted.borrowsAtOnce sound monitor
  needed state label next reachable step refused := by
    have sound := (sound_invariant (subscriptionSource Update Error)
      monitor).reachable reachable
    cases label with
    | ask task =>
        obtain ⟨asking, unprompt⟩ := Classical.not_imp.mp refused
        have stuck := stuck_of_unprompt sound asking unprompt
        have asks : next = _ := Option.some.inj (step.symm.trans (by
          simp only [Drain.next, asking]
          rfl))
        subst asks
        apply Transition.Breakable.now
        intro promptly
        exact stuck.not_completable monitor
          (promptly task ((put_tasks_iff _).mpr (.inl ⟨rfl, rfl⟩)))
    | _ => exact absurd trivial refused

/-- A receive waits on a quiet channel when the subscription is paused. -/
def pausedWhileParked :
    List (Label Receive (StreamItem Nat String)) :=
  [.start 0 (.pull .recv), .token 0, .ask 0, .acquire 0, .use 0,
    .start 1 .borrow, .ask 1]

theorem pausedWhileParked_possible :
    (pausedWhileParked.foldlM
      (fun drain label => Drain.next drain (subscriptionSource Nat String)
        label) (start ⟨⟨[], false⟩, none⟩)).isSome = true :=
  rfl

/-- The pause waits for an update, an error or the end. -/
theorem pause_behind_parked_recv :
    let quiet : Monitor Nat String := ⟨⟨[], false⟩, none⟩
    let last := (pausedWhileParked.foldlM
      (fun drain label => Drain.next drain (subscriptionSource Nat String)
        label) (start quiet)).get pausedWhileParked_possible
    (system (subscriptionSource Nat String) quiet).Reachable last ∧
      ¬last.BorrowsAtOnce quiet := by
  intro quiet last
  have reachable : (system (subscriptionSource Nat String) quiet).Reachable
      last := .of_foldlM
    (show (system (subscriptionSource Nat String) quiet).init (start quiet)
      from rfl) pausedWhileParked pausedWhileParked_possible
  refine ⟨reachable, fun promptly => ?_⟩
  have sound := (sound_invariant _ _).reachable reachable
  have stuck : last.Stuck 1 := by
    refine ⟨sound, rfl, fun other starting => ?_, rfl, _, rfl, rfl, ?_⟩
    · rcases other with - | - | other
      · cases starting
      · cases starting
      · cases starting
    · exact fun enough => enough.1 rfl
  exact stuck.not_completable quiet (promptly 1 rfl)

end Drain

end Repics.Ca
