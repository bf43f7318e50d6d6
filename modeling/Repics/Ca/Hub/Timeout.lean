import Repics.Ca.Hub.Grammar

/-!
# Connect timeouts

The deadline stays armed until it passes or the wait for the first connection
is over.  That the channel connected may have been learned before that, from
the probe or from the event stream, and then the deadline may still pass.

When the time of the deadline comes, and when `wait_connected` is done, are
steps of their own here; the select takes a branch that is ready.  `learned` is
kept for the record: the task was told before the end of the wait that its
channel is connected.
-/

namespace Repics.Ca.Hub

variable {Snapshot Error : Type}

/-- What tells the task that its channel is connected, `wait_connected`
apart. -/
def Branch.tells : Branch Snapshot Error → Bool
  | .probe ok => ok
  | .event (.ok .connected) _ => true
  | .event (.ok .nativeTypeChanged) _ => true
  | .event (.error .lagged) ok => ok
  | _ => false

def Label.tells : Label Snapshot Error → Bool
  | .take branch => branch.tells
  | .closeHub | .sent => false

namespace Task

/-- A timeout is not reported once the channel has connected. -/
def InOrder (earlier later : Item Snapshot Error) : Prop :=
  later.isTimeout = true → earlier.change ≠ some true

def Timely (task : Task Snapshot Error) : Prop :=
  task.emitted.Pairwise InOrder

/-- While the hub is open what is about to be sent keeps the order too. -/
structure Ordered (task : Task Snapshot Error) : Prop where
  sent : task.Timely
  sending : task.hubOpen = true → task.traffic.Pairwise InOrder

end Task

structure Clocked (Snapshot Error : Type) where
  task : Task Snapshot Error
  due : Bool
  joined : Bool
  learned : Bool

inductive Tick (Snapshot Error : Type) where
  | due
  | joined
  | task (label : Label Snapshot Error)

namespace Clocked

def start (task : Task Snapshot Error) : Clocked Snapshot Error :=
  ⟨task, false, false, false⟩

/-- What the branch waits for has come. -/
def ready (clocked : Clocked Snapshot Error) : Label Snapshot Error → Bool
  | .take .deadline => clocked.due
  | .take (.connect _) => clocked.joined
  | _ => true

/-- The sleep of the deadline is made when the deadline is armed. -/
def next (clocked : Clocked Snapshot Error) :
    Tick Snapshot Error → Option (Clocked Snapshot Error)
  | .due =>
      if clocked.task.deadline.isSome then some { clocked with due := true }
      else none
  | .joined => some { clocked with joined := true }
  | .task label =>
      if clocked.ready label then
        (clocked.task.next label).map fun task => { clocked with
          task := task
          learned := clocked.learned || label.tells }
      else none

def system (Snapshot Error : Type) :
    Transition (Clocked Snapshot Error) (Tick Snapshot Error) :=
  .ofPartial (fun clocked => ∃ task, task.Starts ∧ clocked = start task) next

/-- The task is in its first phase and may still send. -/
def Waits (clocked : Clocked Snapshot Error) : Prop :=
  clocked.task.place = .connecting ∧ clocked.task.hubOpen = true

/-- While the task waits, the time of the deadline does not come when the task
was told that its channel is connected, and the task is not told so by the
event stream when that time has come unreported. -/
def Punctual (clocked : Clocked Snapshot Error) :
    Tick Snapshot Error → Prop
  | .due => clocked.Waits → clocked.learned = false
  | .joined => True
  | .task label => clocked.Waits → label.tells = true →
      clocked.task.deadline.isSome = true → clocked.due = false

def Timely (clocked : Clocked Snapshot Error) : Prop :=
  clocked.task.Timely

variable {clocked after : Clocked Snapshot Error}

theorem next_task {label : Label Snapshot Error}
    (step : clocked.next (.task label) = some after) :
    clocked.ready label = true ∧ ∃ task, clocked.task.next label = some task ∧
      after = { clocked with
        task := task
        learned := clocked.learned || label.tells } := by
  simp only [next, Option.ite_none_right_eq_some, Option.map_eq_some_iff]
    at step
  obtain ⟨ready, task, taken, same⟩ := step
  exact ⟨ready, task, taken, same.symm⟩

theorem next_due (step : clocked.next .due = some after) :
    clocked.task.deadline.isSome = true ∧
      after = { clocked with due := true } := by
  simp only [next, Option.ite_none_right_eq_some, Option.some.injEq] at step
  exact ⟨step.1, step.2.symm⟩

theorem next_joined (step : clocked.next .joined = some after) :
    after = { clocked with joined := true } :=
  (Option.some.inj step).symm

theorem reachable_task (reachable : (system Snapshot Error).Reachable clocked) :
    (Task.system Snapshot Error).Reachable clocked.task := by
  obtain ⟨first, ticks, start, run⟩ := reachable
  induction run with
  | nil =>
      obtain ⟨task, starts, rfl⟩ := start
      exact ⟨task, [], starts, .nil task⟩
  | @snoc clocked _ _ tick _ step induction =>
      cases tick with
      | due =>
          obtain ⟨_, rfl⟩ := next_due step
          exact induction
      | joined =>
          rw [next_joined step]
          exact induction
      | task label =>
          obtain ⟨_, task, taken, rfl⟩ := next_task step
          exact induction.snoc taken

theorem next_of_ready {label : Label Snapshot Error}
    {task : Task Snapshot Error} (ready : clocked.ready label = true)
    (taken : clocked.task.next label = some task) :
    clocked.next (.task label) = some { clocked with
      task := task
      learned := clocked.learned || label.tells } := by
  simp [next, ready, taken]

theorem reachable_clocked {task : Task Snapshot Error}
    (reachable : (Task.system Snapshot Error).Reachable task) :
    ∃ clocked, (system Snapshot Error).Reachable clocked ∧
      clocked.task = task := by
  obtain ⟨first, labels, starts, run⟩ := reachable
  induction run with
  | nil =>
      exact ⟨start first, ⟨_, [], ⟨first, starts, rfl⟩, .nil _⟩, rfl⟩
  | @snoc _ last _ label _ step induction =>
      obtain ⟨clocked, reached, rfl⟩ := induction
      have joins : clocked.next .joined =
          some { clocked with joined := true } := rfl
      have joined := reached.snoc joins
      by_cases armed : label = .take .deadline
      · subst armed
        obtain ⟨idle, taken⟩ := Task.next_take step
        have isSome : clocked.task.deadline.isSome = true := by
          cases Task.Took.of_take taken with
          | deadline here armed => exact armed
        have passes : next { clocked with joined := true } .due =
            some { clocked with joined := true, due := true } :=
          if_pos isSome
        have due := joined.snoc passes
        exact ⟨_, due.snoc (next_of_ready rfl step), rfl⟩
      · have isReady : ready { clocked with joined := true } label = true := by
          unfold ready
          split
          · exact absurd rfl armed
          · rfl
          · rfl
        exact ⟨_, joined.snoc (next_of_ready isReady step), rfl⟩

end Clocked

namespace Task

variable {task after : Task Snapshot Error}

/-- Some item says that the channel connected. -/
def Announced (task : Task Snapshot Error) : Prop :=
  ∃ item ∈ task.traffic, item.change = some true

theorem note_emitted (task : Task Snapshot Error) (now : Bool) :
    (task.note now).emitted = task.emitted := by
  unfold note
  split <;> rfl

theorem note_untold (idle : task.sending = []) :
    ∀ item ∈ (task.note false).sending, item.change ≠ some true := by
  unfold note
  split
  · simp [idle]
  · simp [Item.change]

theorem note_told (task : Task Snapshot Error) (now : Bool)
    (isConnected : (task.note now).connected = true) :
    task.connected = true ∨
      ∃ item ∈ (task.note now).sending, item.change = some true := by
  rw [note_connected] at isConnected
  subst isConnected
  unfold note
  split
  · next same => exact .inl same.symm
  · exact .inr ⟨_, List.mem_singleton_self _, rfl⟩

theorem note_onTime (idle : task.sending = []) (now : Bool) :
    ∀ item ∈ (task.note now).sending, item.isTimeout = false := by
  unfold note
  split
  · simp [idle]
  · cases now <;> simp [Item.isTimeout]

/-- What a branch sends and learns. -/
structure Speaks (task : Task Snapshot Error)
    (branch : Branch Snapshot Error) (after : Task Snapshot Error) :
    Prop where
  emitted : after.emitted = task.emitted
  onTime : branch ≠ .deadline →
    ∀ item ∈ after.sending, item.isTimeout = false
  untold : branch.tells = false → (∀ outcome, branch ≠ .connect outcome) →
    ∀ item ∈ after.sending, item.change ≠ some true
  told : branch.tells = true → after.connected = true
  connected : after.connected = true →
    task.connected = true ∨ ∃ item ∈ after.sending, item.change = some true

theorem Speaks.note (idle : task.sending = []) {branch : Branch _ _}
    (now : Bool) (tells : branch.tells = true → now = true)
    (silent : branch.tells = false → now = false) :
    Speaks task branch (task.note now) where
  emitted := note_emitted task now
  onTime _ := note_onTime idle now
  untold isSilent _ := by
    rw [silent isSilent]
    exact note_untold idle
  told isTold := by rw [note_connected, tells isTold]
  connected := note_told task now

theorem Speaks.of_plain {branch : Branch Snapshot Error}
    (silent : branch.tells = false)
    (emitted : after.emitted = task.emitted)
    (connected : after.connected = task.connected)
    (onTime : branch ≠ .deadline →
      ∀ item ∈ after.sending, item.isTimeout = false)
    (plain : ∀ item ∈ after.sending, item.change = none) :
    Speaks task branch after where
  emitted := emitted
  onTime := onTime
  untold _ _ item sent change := by
    rw [plain item sent] at change
    cases change
  told isTold := by
    rw [silent] at isTold
    cases isTold
  connected isConnected := .inl (connected ▸ isConnected)

theorem Speaks.forwardEvent (idle : task.sending = [])
    (event : Except RecvError ConnectionEvent) (ok : Bool) :
    Speaks task (.event event ok) (task.forwardEvent event ok) := by
  cases event with
  | ok event =>
      cases event with
      | connected | nativeTypeChanged =>
          exact .note idle true (fun _ => rfl) (by simp [Branch.tells])
      | disconnected =>
          exact .note idle false (by simp [Branch.tells]) (fun _ => rfl)
      | accessRightsChanged read write =>
          refine .of_plain rfl rfl rfl ?_ ?_
          · simp [Task.forwardEvent, Task.send, Item.isTimeout]
          · simp [Task.forwardEvent, Task.send, Item.change]
  | error error =>
      cases error with
      | lagged =>
          exact .note idle ok (fun isTold => isTold) (fun silent => silent)
      | closed =>
          refine .of_plain rfl rfl rfl ?_ ?_
          · simp [Task.forwardEvent, Task.finish, Item.isTimeout]
          · simp [Task.forwardEvent, Task.finish, Item.change]

theorem Speaks.onCtrl (idle : task.sending = []) (message : Option Ctrl) :
    Speaks task (.ctrl message) (task.onCtrl message) := by
  unfold Task.onCtrl
  split <;> refine .of_plain rfl rfl rfl ?_ ?_ <;>
    simp [Task.finish, idle, Item.isTimeout, Item.change]

theorem Speaks.moved {branch : Branch Snapshot Error} (place : Place)
    (speaks : Speaks task branch after) :
    Speaks task branch { after with place := place } :=
  ⟨speaks.emitted, speaks.onTime, speaks.untold, speaks.told,
    speaks.connected⟩

theorem Speaks.take {branch : Branch Snapshot Error}
    (idle : task.sending = []) (step : task.take branch = some after) :
    Speaks task branch after := by
  cases Took.of_take step with
  | event event ok here => exact .forwardEvent idle event ok
  | ctrl message here => exact .onCtrl idle message
  | probe ok here =>
      rw [note_place]
      apply Speaks.moved
      exact .note idle ok (fun isTold => isTold) (fun silent => silent)
  | connect here =>
      rw [note_place]
      apply Speaks.moved
      exact ⟨note_emitted task true, fun _ => note_onTime idle true,
        fun _ other => absurd rfl (other _), fun _ => note_connected task true,
        note_told task true⟩
  | deadline here armed =>
      refine .of_plain rfl rfl rfl ?_ ?_
      · exact fun other => absurd rfl other
      · simp [Task.send, Item.change]
  | overflow | arm | count | cap | subscribe =>
      refine .of_plain rfl rfl rfl ?_ ?_ <;> simp [idle]
  | connectFailed | capFailed | subscribeFailed | recvEnd | recv
  | recvError =>
      refine .of_plain rfl rfl rfl ?_ ?_ <;>
        simp [Task.send, Task.finish, Item.isTimeout, Item.change]

theorem Announced.take {branch : Branch Snapshot Error}
    (announced : task.Announced) (idle : task.sending = [])
    (step : task.take branch = some after) : after.Announced := by
  obtain ⟨item, sent, change⟩ := announced
  rw [traffic, idle, List.append_nil] at sent
  refine ⟨item, List.mem_append_left _ ?_, change⟩
  rw [(Speaks.take idle step).emitted]
  exact sent

theorem forwardEvent_place (task : Task Snapshot Error)
    (event : Except RecvError ConnectionEvent) (ok : Bool) :
    (task.forwardEvent event ok).place = task.place ∨
      (task.forwardEvent event ok).place = .leaving := by
  unfold Task.forwardEvent
  split <;> simp [Task.send, Task.finish]

theorem onCtrl_place (task : Task Snapshot Error) (message : Option Ctrl) :
    (task.onCtrl message).place = task.place ∨
      (task.onCtrl message).place = .leaving := by
  unfold Task.onCtrl
  split <;> simp [Task.finish]

theorem take_early {branch : Branch Snapshot Error}
    (step : task.take branch = some after)
    (early : after.place = .probing ∨ after.place = .arming ∨
      after.place = .connecting) :
    (task.place = .probing ∨ task.place = .arming ∨
      task.place = .connecting) ∧ ∀ outcome, branch ≠ .connect outcome := by
  cases Took.of_take step with
  | event event ok here =>
      rcases task.forwardEvent_place event ok with same | left
      · rw [same] at early
        exact ⟨early, by simp⟩
      · simp [left] at early
  | ctrl message here =>
      rcases task.onCtrl_place message with same | left
      · rw [same] at early
        exact ⟨early, by simp⟩
      · simp [left] at early
  | probe ok here => simp [here]
  | arm deadline here fit => simp [here]
  | deadline here armed => simp [here]
  | connect here => simp [note_place] at early
  | count elementCount here =>
      dsimp only at early
      split at early <;> simp at early
  | recv snapshot here has => simp [send, here] at early
  | recvError error here has => simp [send, here] at early
  | _ => simp [finish] at early

/-- A branch that leads to the arming, or before it, leaves the deadline. -/
theorem take_unarmed {branch : Branch Snapshot Error}
    (step : task.take branch = some after)
    (early : after.place = .probing ∨ after.place = .arming) :
    task.place = .probing ∧ after.deadline = task.deadline := by
  cases Took.of_take step with
  | probe ok here => simp [here, note_place]
  | event event ok here =>
      rcases task.forwardEvent_place event ok with same | left
      · rw [same] at early
        rcases here with here | here <;> simp [here] at early
      · simp [left] at early
  | ctrl message here =>
      rcases task.onCtrl_place message with same | left
      · rw [same] at early
        rcases here with here | here <;> simp [here] at early
      · simp [left] at early
  | connect here => simp [note_place] at early
  | deadline here armed => simp [send, here] at early
  | count elementCount here =>
      dsimp only at early
      split at early <;> simp at early
  | _ => simp_all [send, finish]

theorem take_waits {branch : Branch Snapshot Error}
    (step : task.take branch = some after)
    (waits : after.place = .connecting) :
    task.place = .arming ∨ task.place = .connecting ∧
      (after.deadline.isSome = true → task.deadline.isSome = true) := by
  cases Took.of_take step with
  | arm deadline here fit => exact .inl here
  | deadline here armed => exact .inr ⟨here, fun _ => armed⟩
  | event event ok here =>
      have same : (task.forwardEvent event ok).deadline = task.deadline := by
        unfold Task.forwardEvent
        split <;> simp [send, finish]
      rcases task.forwardEvent_place event ok with place | left
      · rw [place] at waits
        exact .inr ⟨waits, fun armed => same ▸ armed⟩
      · simp [left] at waits
  | ctrl message here =>
      have same : (task.onCtrl message).deadline = task.deadline := by
        unfold Task.onCtrl
        split <;> simp [finish]
      rcases task.onCtrl_place message with place | left
      · rw [place] at waits
        exact .inr ⟨waits, fun armed => same ▸ armed⟩
      · simp [left] at waits
  | probe ok here => simp [note_place] at waits
  | connect here => simp [note_place] at waits
  | count elementCount here =>
      dsimp only at waits
      split at waits <;> simp at waits
  | recv snapshot here has => simp [send, here] at waits
  | recvError error here has => simp [send, here] at waits
  | _ => simp [finish] at waits

/-- Of what is taken while the task waits, only an event tells. -/
theorem tells_waits {branch : Branch Snapshot Error}
    (step : task.take branch = some after)
    (waits : task.place = .connecting) (tells : branch.tells = true) :
    after.place = .connecting ∧ after.deadline = task.deadline := by
  cases Took.of_take step with
  | probe ok here => simp [waits] at here
  | event event ok here =>
      rcases event with error | event
      · cases error with
        | lagged => simp [forwardEvent, waits]
        | closed => cases tells
      · cases event with
        | connected | nativeTypeChanged => simp [forwardEvent, waits]
        | disconnected | accessRightsChanged => cases tells
  | _ => cases tells

end Task

namespace Clocked

variable {clocked after : Clocked Snapshot Error}

/-- The task has not left its first phase. -/
def Early (clocked : Clocked Snapshot Error) : Prop :=
  clocked.task.place = .probing ∨ clocked.task.place = .arming ∨
    clocked.task.place = .connecting

/-- What was learned was announced, and before the end of the wait nothing else
is; the deadline is not armed before its place. -/
structure Known (clocked : Clocked Snapshot Error) : Prop where
  announced : clocked.task.hubOpen = true →
    clocked.learned = true ∨ clocked.task.connected = true →
      clocked.task.Announced
  untold : clocked.Early → clocked.learned = false → ¬clocked.task.Announced
  unarmed : clocked.task.place = .probing ∨ clocked.task.place = .arming →
    clocked.task.deadline = none ∧ clocked.due = false

theorem Known.sent {item : Item Snapshot Error}
    {rest : List (Item Snapshot Error)} (known : clocked.Known)
    (sending : clocked.task.sending = item :: rest) :
    Known { clocked with task := { clocked.task with
      sending := rest
      emitted := clocked.task.emitted ++ [item] } } := by
  have same : clocked.task.emitted ++ [item] ++ rest =
      clocked.task.traffic := by
    rw [Task.traffic, sending]
    exact (List.append_cons _ _ _).symm
  constructor
  · intro isOpen told
    rw [Task.Announced, Task.traffic, same]
    exact known.announced isOpen told
  · intro early unlearned
    rw [Task.Announced, Task.traffic, same]
    exact known.untold early unlearned
  · exact known.unarmed

theorem Known.closed {clocked : Clocked Snapshot Error}
    (closed : clocked.task.hubOpen = false)
    (left : clocked.task.place = .leaving) : clocked.Known where
  announced isOpen := by
    rw [closed] at isOpen
    cases isOpen
  untold early := by simp [Early, left] at early
  unarmed early := by simp [left] at early

theorem Known.take {branch : Branch Snapshot Error}
    {last : Task Snapshot Error} (known : clocked.Known)
    (idle : clocked.task.sending = [])
    (step : clocked.task.take branch = some last) :
    Known { clocked with
      task := last
      learned := clocked.learned || branch.tells } := by
  have speaks := Task.Speaks.take idle step
  constructor
  · intro isOpen told
    rw [(Task.take_same step).2] at isOpen
    have isConnected : clocked.learned = true ∨ last.connected = true := by
      rcases told with learned | connected
      · rcases Bool.or_eq_true_iff.mp learned with before | now
        · exact .inl before
        · exact .inr (speaks.told now)
      · exact .inr connected
    rcases isConnected with learned | connected
    · exact (known.announced isOpen (.inl learned)).take idle step
    · rcases speaks.connected connected with before | ⟨item, sent, change⟩
      · exact (known.announced isOpen (.inr before)).take idle step
      · exact ⟨item, List.mem_append_right _ sent, change⟩
  · intro early unlearned announced
    obtain ⟨before, other⟩ := Task.take_early step early
    obtain ⟨unlearned, silent⟩ := Bool.or_eq_false_iff.mp unlearned
    obtain ⟨item, sent, change⟩ := announced
    rcases List.mem_append.mp sent with sent | sent
    · rw [speaks.emitted] at sent
      apply known.untold before unlearned
      exact ⟨item, List.mem_append_left _ sent, change⟩
    · exact speaks.untold silent other item sent change
  · intro early
    obtain ⟨here, same⟩ := Task.take_unarmed step early
    rw [same]
    exact known.unarmed (.inl here)

theorem known : (system Snapshot Error).Invariant Known where
  initial := by
    intro clocked start
    obtain ⟨task, ⟨id, name, args, rfl⟩, rfl⟩ := start
    constructor
    · simp [start, Task.start]
    · simp [start, Task.start, Task.Announced, Task.traffic]
    · simp [start, Task.start]
  preserved clocked tick after before step := by
    cases tick with
    | due =>
        obtain ⟨armed, rfl⟩ := next_due step
        refine ⟨before.announced, before.untold, fun early => ?_⟩
        rw [(before.unarmed early).1] at armed
        cases armed
    | joined =>
        rw [next_joined step]
        exact ⟨before.announced, before.untold, before.unarmed⟩
    | task label =>
        obtain ⟨_, task, taken, rfl⟩ := next_task step
        cases label with
        | closeHub =>
            obtain rfl := Option.some.inj taken
            rw [Label.tells, Bool.or_false]
            refine ⟨?_, before.untold, before.unarmed⟩
            simp
        | sent =>
            rw [Label.tells, Bool.or_false]
            rcases Task.sent_cases taken with
              ⟨item, rest, sending, _, rfl⟩ | ⟨closed, rfl⟩
            · exact before.sent sending
            · exact .closed closed rfl
        | take branch =>
            obtain ⟨idle, taken⟩ := Task.next_take taken
            exact before.take idle taken

/-- In time, nothing has been learned when a deadline is due. -/
def InTime (clocked : Clocked Snapshot Error) : Prop :=
  clocked.Waits → clocked.task.deadline.isSome = true →
    clocked.due = true → clocked.learned = false

theorem InTime.take {branch : Branch Snapshot Error}
    {last : Task Snapshot Error} (inTime : clocked.InTime)
    (known : clocked.Known) (fine : clocked.Punctual (.task (.take branch)))
    (step : clocked.task.take branch = some last) :
    InTime { clocked with
      task := last
      learned := clocked.learned || branch.tells } := by
  intro waits armed due
  obtain ⟨place, isOpen⟩ := waits
  rw [(Task.take_same step).2] at isOpen
  rcases Task.take_waits step place with here | ⟨here, wasArmed⟩
  · have early := (known.unarmed (.inr here)).2
    exact absurd (early.symm.trans due) Bool.false_ne_true
  · have unlearned := inTime ⟨here, isOpen⟩ (wasArmed armed) due
    cases tells : branch.tells with
    | false => rw [unlearned, Bool.or_false]
    | true =>
        have early := fine ⟨here, isOpen⟩ tells (wasArmed armed)
        exact absurd (early.symm.trans due) Bool.false_ne_true

theorem InTime.next (inTime : clocked.InTime) (known : clocked.Known)
    {tick : Tick Snapshot Error} (fine : clocked.Punctual tick)
    (step : clocked.next tick = some after) : after.InTime := by
  cases tick with
  | due =>
      obtain ⟨_, rfl⟩ := next_due step
      exact fun waits _ _ => fine waits
  | joined =>
      rw [next_joined step]
      exact inTime
  | task label =>
      obtain ⟨_, task, taken, rfl⟩ := next_task step
      cases label with
      | closeHub =>
          obtain rfl := Option.some.inj taken
          intro waits
          cases waits.2
      | sent =>
          rw [Label.tells, Bool.or_false]
          rcases Task.sent_cases taken with
            ⟨item, rest, _, _, rfl⟩ | ⟨_, rfl⟩
          · exact inTime
          · intro waits
            cases waits.1
      | take branch =>
          exact inTime.take known fine (Task.next_take taken).2

theorem ordered_take {branch : Branch Snapshot Error}
    {last : Task Snapshot Error} (ordered : clocked.task.Ordered)
    (inTime : clocked.InTime) (known : clocked.Known)
    (ready : clocked.ready (.take branch) = true)
    (idle : clocked.task.sending = [])
    (step : clocked.task.take branch = some last) : last.Ordered := by
  have speaks := Task.Speaks.take idle step
  have sent : last.Timely := by
    rw [Task.Timely, speaks.emitted]
    exact ordered.sent
  refine ⟨sent, fun isOpen => List.pairwise_append.mpr ⟨sent, ?_⟩⟩
  rw [(Task.take_same step).2] at isOpen
  by_cases deadline : branch = .deadline
  · subst deadline
    cases Task.Took.of_take step with
    | deadline here armed =>
        have unlearned := inTime ⟨here, isOpen⟩ armed ready
        have untold := known.untold (.inr (.inr here)) unlearned
        refine ⟨List.pairwise_singleton _ _, ?_⟩
        intro earlier before later _ _ change
        exact untold ⟨earlier, List.mem_append_left _ before, change⟩
  · have onTime := speaks.onTime deadline
    have all (earlier later : Item Snapshot Error)
        (isLater : later ∈ last.sending) : Task.InOrder earlier later := by
      intro late
      rw [onTime later isLater] at late
      cases late
    constructor
    · apply List.pairwise_of_forall_mem_list
      intro earlier _ later isLater
      exact all earlier later isLater
    · intro earlier _ later isLater
      exact all earlier later isLater

theorem ordered_next (ordered : clocked.task.Ordered)
    (inTime : clocked.InTime) (known : clocked.Known)
    {tick : Tick Snapshot Error} (step : clocked.next tick = some after) :
    after.task.Ordered := by
  cases tick with
  | due =>
      obtain ⟨_, rfl⟩ := next_due step
      exact ordered
  | joined =>
      rw [next_joined step]
      exact ordered
  | task label =>
      obtain ⟨ready, task, taken, rfl⟩ := next_task step
      cases label with
      | closeHub =>
          obtain rfl := Option.some.inj taken
          refine ⟨ordered.sent, ?_⟩
          simp
      | sent =>
          rcases Task.sent_cases taken with
            ⟨item, rest, sending, isOpen, rfl⟩ | ⟨closed, rfl⟩
          · have whole := ordered.sending isOpen
            rw [Task.traffic, sending, List.append_cons] at whole
            exact ⟨(List.pairwise_append.mp whole).1, fun _ => whole⟩
          · refine ⟨ordered.sent, ?_⟩
            simp [closed]
      | take branch =>
          obtain ⟨idle, taken⟩ := Task.next_take taken
          exact ordered_take ordered inTime known ready idle taken

theorem ordered :
    ((system Snapshot Error).restrict Punctual).Invariant
      fun clocked =>
        clocked.Known ∧ clocked.InTime ∧ clocked.task.Ordered := by
  apply (known.restrict Punctual).strengthen
  · intro clocked start
    obtain ⟨task, ⟨id, name, args, rfl⟩, rfl⟩ := start
    refine ⟨fun waits => ?_, .nil, fun _ => .nil⟩
    cases waits.1
  · intro clocked tick after known both step
    exact ⟨both.1.next known step.2 step.1,
      ordered_next both.2 both.1 known step.1⟩

/-- A deadline that is due may still be reported after what was announced. -/
theorem breaks (clocked : Clocked Snapshot Error) (waits : clocked.Waits)
    (armed : clocked.task.deadline.isSome = true) (due : clocked.due = true)
    (announced : clocked.task.Announced) :
    (system Snapshot Error).Breakable Timely clocked := by
  generalize same : clocked.task.sending = sending
  induction sending generalizing clocked with
  | nil =>
      have ready : clocked.ready (.take .deadline) = true := due
      have taken : clocked.task.next (.take .deadline) =
          some (({ clocked.task with deadline := none } : Task _ _).send
            (.connectTimeout clocked.task.id)) := by
        simp only [Task.next, same, Task.take]
        exact if_pos ⟨waits.1, armed⟩
      apply Transition.Breakable.step _ (next_of_ready ready taken)
      have sent : Task.next (({ clocked.task with
            deadline := none } : Task _ _).send
              (.connectTimeout clocked.task.id)) .sent =
          some { clocked.task with
            deadline := none
            sending := []
            emitted := clocked.task.emitted ++
              [.connectTimeout clocked.task.id] } := by
        simp [Task.next, Task.sent, Task.send, waits.2]
      apply Transition.Breakable.step _ (next_of_ready rfl sent)
      apply Transition.Breakable.now
      intro timely
      obtain ⟨item, before, change⟩ := announced
      rw [Task.traffic, same, List.append_nil] at before
      exact (List.pairwise_append.mp timely).2.2 item before _
        (List.mem_singleton_self _) rfl change
  | cons item rest induction =>
      have sent : clocked.task.next .sent = some { clocked.task with
          sending := rest
          emitted := clocked.task.emitted ++ [item] } := by
        simp [Task.next, Task.sent, same, waits.2]
      apply Transition.Breakable.step _ (next_of_ready rfl sent)
      refine induction _ waits armed due ?_ rfl
      rw [Task.Announced, Task.traffic, same] at announced
      rw [Task.Announced, Task.traffic, List.append_assoc]
      exact announced

/-- No timeout follows the connection in a run whose steps are all punctual,
and after one that is not some timeout may. -/
theorem timely_guards :
    (system Snapshot Error).Guards Punctual Timely where
  enough clocked reachable := (ordered.reachable reachable).2.2.sent
  needed clocked tick after reachable step refused := by
    have known := known.reachable (reachable.snoc step)
    cases tick with
    | due =>
        obtain ⟨armed, rfl⟩ := next_due step
        simp only [Punctual, Classical.not_imp, Bool.not_eq_false]
          at refused
        obtain ⟨waits, learned⟩ := refused
        apply breaks { clocked with due := true } waits armed rfl
        exact known.announced waits.2 (.inl learned)
    | joined => exact absurd trivial refused
    | task label =>
        simp only [Punctual, Classical.not_imp, Bool.not_eq_false]
          at refused
        obtain ⟨waits, tells, armed, due⟩ := refused
        obtain ⟨_, task, taken, rfl⟩ := next_task step
        cases label with
        | take branch =>
            obtain ⟨idle, taken⟩ := Task.next_take taken
            obtain ⟨still, stays⟩ := Task.tells_waits taken waits.1 tells
            have isOpen := (Task.take_same taken).2.trans waits.2
            refine breaks _ ⟨still, isOpen⟩ (stays ▸ armed) due ?_
            apply known.announced isOpen
            refine .inl (Bool.or_eq_true_iff.mpr (.inr tells))
        | closeHub => cases tells
        | sent => cases tells

/-- A subscription that waits for its connection for one second. -/
def patient : SubscribeArgs :=
  ⟨0, some (.finite 1), true, none⟩

/-- The channel connects in the moment in which the deadline passes: the event
is taken first, and the deadline before the end of the wait. -/
theorem timeout_while_connected :
    ∃ clocked, (system Unit Unit).Run (start (.start 1 "pv" patient))
        [.task (.take (.probe false)), .task (.take .arm), .due, .joined,
          .task (.take (.event (.ok .connected) true)), .task .sent,
          .task (.take .deadline), .task .sent] clocked ∧
      clocked.task.emitted = [.connected 1, .connectTimeout 1] ∧
      ¬clocked.Timely := by
  refine ⟨_, .of_foldlM rfl, rfl, fun timely => ?_⟩
  have order := List.rel_of_pairwise_cons timely (List.mem_singleton_self _)
  exact order rfl rfl

end Clocked

end Repics.Ca.Hub
