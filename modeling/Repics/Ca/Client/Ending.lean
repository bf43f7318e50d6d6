import Repics.Ca.Client.History

/-!
# How a list of operations ends

The caller takes the outcomes in the order of the list.  When every task has a
timeout, the tasks end and the caller gets all of the outcomes, whatever the
library does.
-/

namespace Repics.Ca.Operations

variable {Double Put : Type}

namespace Call

variable {lib : Library Double} {call last : Call Double Put}

/-- Every task is explained, and the caller has the outcomes of the first
tasks of the list. -/
structure Sound (lib : Library Double) (call : Call Double Put) : Prop where
  explained : ∀ task ∈ call.tasks, ∃ history, task.Explained lib history
  least : call.out.length ≤ call.tasks.length
  inOrder : ∀ (index : Nat) (outcome : Outcome Double),
    call.out[index]? = some outcome →
      ∃ task : Task Double Put, call.tasks[index]? = some task ∧
        task.outcome = some outcome

theorem Sound.side {label : Move ⊕ Nat × Act Double}
    (sound : call.Sound lib)
    (moved : (side lib).many.step call.working label last.working)
    (out : last.out = call.out) : last.Sound lib := by
  rcases task_step moved with same | acted
  · constructor
    case explained => rw [same]; exact sound.explained
    case least => rw [same, out]; exact sound.least
    case inOrder => rw [same, out]; exact sound.inOrder
  · obtain ⟨index, act, task, after, found, acted, tasks⟩ := acted
    constructor
    case explained =>
      rw [tasks]
      intro other member
      rcases List.mem_or_eq_of_mem_set member with old | rfl
      · exact sound.explained other old
      · obtain ⟨history, explained⟩ :=
          sound.explained task (List.mem_of_getElem? found)
        exact ⟨_, explained.act acted⟩
    case least =>
      rw [tasks, out, List.length_set]
      exact sound.least
    case inOrder =>
      rw [tasks, out]
      intro other outcome isOut
      obtain ⟨waited, foundOther, ended⟩ :=
        sound.inOrder other outcome isOut
      refine ⟨waited, ?_, ended⟩
      rw [List.getElem?_set_ne ?_]
      · exact foundOther
      · intro same
        subst same
        obtain rfl := Option.some.inj (found.symm.trans foundOther)
        rw [Task.act_outcome ended] at acted
        simp at acted

theorem Begins.sound (begins : call.Begins) : call.Sound lib where
  explained task member := by
    refine ⟨[], ?_⟩
    unfold Task.Explained
    rw [begins.ready task member, begins.issued task member,
      begins.answers task member]
    exact .early .ready
  least := by rw [begins.out]; exact Nat.zero_le _
  inOrder index outcome isOut := by rw [begins.out] at isOut; simp at isOut

theorem Sound.step {label : Label Double} (sound : call.Sound lib)
    (step : call.next lib label = some last) : last.Sound lib := by
  cases step_cases step with
  | side _ moved out => exact sound.side moved out
  | @await task outcome _ found ended isLast =>
      rw [isLast]
      constructor
      case explained => exact sound.explained
      case least =>
        have inside := (List.getElem?_eq_some_iff.mp found).1
        simp only [List.length_append, List.length_singleton]
        omega
      case inOrder =>
        intro index other isOut
        by_cases old : index < call.out.length
        · rw [List.getElem?_append_left old] at isOut
          exact sound.inOrder index other isOut
        · rw [List.getElem?_append_right (Nat.le_of_not_lt old)] at isOut
          obtain ⟨zero, rfl⟩ := List.getElem?_eq_some_iff.mp isOut
          have now : index = call.out.length := by
            rw [List.length_singleton] at zero
            omega
          subst now
          refine ⟨task, found, ?_⟩
          simpa using ended
  | abandon isLast =>
      rw [isLast]
      exact ⟨sound.explained, sound.least, sound.inOrder⟩

end Call

/-- What a task does without the library: it is polled, it goes on, or its
timeout passes. -/
def Act.Own : Act Double → Prop
  | .poll | .issue | .expire => True
  | _ => False

namespace Task

variable {lib : Library Double} {task : Task Double Put}
variable {channels : Channels} {secs : Double}

/-- The task comes to its end without the library. -/
def Ends (lib : Library Double) (channels : Channels)
    (task : Task Double Put) : Prop :=
  ∃ (acts : List (Act Double)) (after : Task Double Put),
    (∀ act ∈ acts, act.Own) ∧
      (side lib).one.Run (channels, task) (acts.map .inr)
        (channels, after) ∧
      ∃ outcome, after.outcome = some outcome

theorem ends_now {outcome : Outcome Double}
    (ended : task.outcome = some outcome) : task.Ends lib channels :=
  ⟨[], task, List.forall_mem_nil _, .nil _, outcome, ended⟩

theorem Ends.step {next : Task Double Put} (act : Act Double)
    (own : act.Own)
    (step : task.act lib (channels task.channel) act = some next)
    (ends : next.Ends lib channels) : task.Ends lib channels := by
  obtain ⟨acts, after, all, run, ended⟩ := ends
  refine ⟨act :: acts, after, ?_, ?_, ended⟩
  · intro other member
    rcases List.mem_cons.mp member with rfl | later
    · exact own
    · exact all other later
  · exact .cons (SideBySide.one_act_iff.mpr ⟨rfl, step⟩) run

theorem ends_expired (timely : task.timeout = some secs)
    (waits : task.stage = .connecting ∨ task.stage = .asking ∨
      task.stage = .handed) : task.Ends lib channels := by
  have step : task.act lib (channels task.channel) .expire =
      some (task.finish (.error (task.op.late lib task.name secs))) := by
    rcases waits with stage | stage | stage
    all_goals simp only [Task.act, stage, timely]
  exact Ends.step .expire (by trivial) step (ends_now rfl)

theorem ends_allowed {history : History Double}
    (explained : task.Explained lib history)
    (timely : task.timeout = some secs) (allowed : task.stage = .allowed) :
    task.Ends lib channels := by
  have early : task.stage.Early := by rw [allowed]; trivial
  have gated := (explained.way early).2.2.gated (.inr allowed)
  obtain ⟨next, issued⟩ : ∃ next, task.issue lib (channels task.channel) =
      some next := by
    unfold Task.issue
    split
    case h_1 isOp => exact (gated isOp).elim
    case h_3 =>
      split
      · exact ⟨_, rfl⟩
      · exact ⟨_, rfl⟩
    all_goals exact ⟨_, rfl⟩
  have step : task.act lib (channels task.channel) .issue = some next := by
    simp only [Task.act, allowed, issued]
  apply Ends.step .issue (by trivial) step
  unfold Task.issue at issued
  split at issued
  case h_1 => simp at issued
  case h_2 =>
    obtain rfl := Option.some.inj issued
    exact ends_now rfl
  case h_3 =>
    split at issued
    · obtain rfl := Option.some.inj issued
      exact ends_now rfl
    · obtain rfl := Option.some.inj issued
      exact ends_expired timely (.inr (.inr rfl))
  case h_4 =>
    obtain rfl := Option.some.inj issued
    exact ends_expired timely (.inr (.inr rfl))

theorem ends {history : History Double}
    (explained : task.Explained lib history)
    (timely : task.timeout = some secs) : task.Ends lib channels := by
  cases stage : task.stage with
  | ready =>
      have step : task.act lib (channels task.channel) .poll =
          some (task.poll (channels task.channel)) := by
        simp only [Task.act, stage]
      apply Ends.step .poll (by trivial) step
      unfold Task.poll
      split
      · exact ends_expired timely (.inl rfl)
      · exact ends_expired timely (.inl rfl)
      · exact ends_expired timely (.inr (.inl rfl))
  | connecting => exact ends_expired timely (.inl stage)
  | asking => exact ends_expired timely (.inr (.inl stage))
  | allowed => exact ends_allowed explained timely stage
  | handed => exact ends_expired timely (.inr (.inr stage))
  | ended ended =>
      cases ended with
      | returned outcome =>
          have ended : task.outcome = some outcome := by
            simp only [Task.outcome, stage]
          exact ends_now ended
      | panicked text =>
          have ended : task.outcome = some (.error (joinError text)) := by
            simp only [Task.outcome, stage]
          exact ends_now ended

end Task

/-- What happens without the library and without the caller giving up. -/
def Label.Own : Label Double → Prop
  | .side (.inr (_, act)) => act.Own
  | .side (.inl _) | .abandon => False
  | .await => True

namespace Call

variable {lib : Library Double} {call last : Call Double Put}

/-- The call goes on by itself, and what has ended stays as it is. -/
structure Flows (lib : Library Double) (call last : Call Double Put) : Prop
    where
  run : ∃ labels, (system lib).Run call labels last ∧
    ∀ label ∈ labels, label.Own
  count : last.tasks.length = call.tasks.length
  kept : ∀ (index : Nat) (task : Task Double Put) (outcome : Outcome Double),
    call.tasks[index]? = some task → task.outcome = some outcome →
      last.tasks[index]? = some task
  abandoned : last.abandoned = call.abandoned

theorem Flows.refl (call : Call Double Put) : call.Flows lib call :=
  ⟨⟨[], .nil call, List.forall_mem_nil _⟩, rfl, fun _ _ _ found _ => found,
    rfl⟩

theorem Flows.trans {middle : Call Double Put}
    (early : call.Flows lib middle) (late : middle.Flows lib last) :
    call.Flows lib last := by
  obtain ⟨labels, run, own⟩ := early.run
  obtain ⟨others, later, ownLater⟩ := late.run
  constructor
  case run =>
    refine ⟨labels ++ others, run.append later, ?_⟩
    intro label member
    rcases List.mem_append.mp member with before | after
    · exact own label before
    · exact ownLater label after
  case count => rw [late.count, early.count]
  case kept =>
    intro index task outcome found ended
    have still := early.kept index task outcome found ended
    exact late.kept index task outcome still ended
  case abandoned => rw [late.abandoned, early.abandoned]

/-- A task that ends without the library ends so among the others. -/
theorem flows_end {index : Nat} {task : Task Double Put}
    (found : call.tasks[index]? = some task)
    (ends : task.Ends lib call.channels) :
    ∃ last, call.Flows lib last ∧ last.out = call.out ∧
      ∃ after outcome, last.tasks[index]? = some after ∧
        after.outcome = some outcome := by
  cases already : task.outcome with
  | some outcome => exact ⟨call, .refl call, rfl, task, outcome, found, already⟩
  | none =>
      obtain ⟨acts, after, own, run, outcome, ended⟩ := ends
      have among := SideBySide.run_among found run
      have inside := (List.getElem?_eq_some_iff.mp found).1
      refine ⟨{ call with tasks := call.tasks.set index after }, ?_, rfl,
        after, outcome, List.getElem?_set_self inside, ended⟩
      constructor
      case run =>
        refine ⟨_, run_side among, ?_⟩
        intro label member
        obtain ⟨act, isAct, rfl⟩ : ∃ act, act ∈ acts ∧
            Label.side (.inr (index, act)) = label := by
          simpa using member
        exact own act isAct
      case count => exact List.length_set
      case kept =>
        intro other kept outcome foundOther endedOther
        simp only
        rw [List.getElem?_set_ne ?_]
        · exact foundOther
        · intro same
          subst same
          obtain rfl := Option.some.inj (found.symm.trans foundOther)
          rw [already] at endedOther
          simp at endedOther
      case abandoned => rfl

/-- Every task has a timeout. -/
def Timely (call : Call Double Put) : Prop :=
  ∀ task ∈ call.tasks, task.timeout.isSome

theorem Flows.timely (flows : call.Flows lib last) (timely : call.Timely) :
    last.Timely := by
  obtain ⟨labels, run, -⟩ := flows.run
  intro task member
  have inside : task.args ∈ last.tasks.map Task.args :=
    List.mem_map_of_mem member
  rw [run_args run] at inside
  obtain ⟨before, isTask, same⟩ := List.mem_map.mp inside
  have sameTimeout : before.timeout = task.timeout :=
    congrArg (fun args => args.2.2.2) same
  rw [← sameTimeout]
  exact timely before isTask

theorem Flows.sound (flows : call.Flows lib last) (sound : call.Sound lib) :
    last.Sound lib := by
  obtain ⟨labels, run, -⟩ := flows.run
  exact run.preserves (fun _ _ _ sound step => sound.step step) sound

theorem flows_ends (sound : call.Sound lib) (timely : call.Timely)
    (count : Nat) :
    ∃ last, call.Flows lib last ∧ last.out = call.out ∧
      ∀ index task, index < count → last.tasks[index]? = some task →
        ∃ outcome, task.outcome = some outcome := by
  induction count with
  | zero =>
      refine ⟨call, .refl call, rfl, ?_⟩
      intro index task before
      exact (Nat.not_lt_zero index before).elim
  | succ count induction =>
      obtain ⟨middle, flows, out, ended⟩ := induction
      cases found : middle.tasks[count]? with
      | none =>
          refine ⟨middle, flows, out, ?_⟩
          intro index task before foundTask
          apply ended index task _ foundTask
          have inside := (List.getElem?_eq_some_iff.mp foundTask).1
          have outside := List.getElem?_eq_none_iff.mp found
          omega
      | some task =>
          have member := List.mem_of_getElem? found
          obtain ⟨secs, timeout⟩ :=
            Option.isSome_iff_exists.mp (flows.timely timely task member)
          obtain ⟨_, explained⟩ := (flows.sound sound).explained task member
          have ends : task.Ends lib middle.channels :=
            Task.ends explained timeout
          obtain ⟨last, further, sameOut, after, outcome, landed, isEnd⟩ :=
            flows_end found ends
          refine ⟨last, flows.trans further, sameOut.trans out, ?_⟩
          intro index other before foundOther
          by_cases now : index = count
          · subst now
            obtain rfl := Option.some.inj (landed.symm.trans foundOther)
            exact ⟨outcome, isEnd⟩
          · have inside := (List.getElem?_eq_some_iff.mp foundOther).1
            rw [further.count] at inside
            have foundOld := List.getElem?_eq_getElem inside
            obtain ⟨oldOutcome, oldEnd⟩ :=
              ended index _ (by omega) foundOld
            have still := further.kept index _ oldOutcome foundOld oldEnd
            obtain rfl := Option.some.inj (still.symm.trans foundOther)
            exact ⟨oldOutcome, oldEnd⟩

/-- When every task has ended, the caller gets all their outcomes. -/
theorem flows_awaits (waiting : call.abandoned = false)
    (least : call.out.length ≤ call.tasks.length)
    (ended : ∀ task ∈ call.tasks, ∃ outcome, task.outcome = some outcome) :
    ∃ last, call.Flows lib last ∧ last.tasks = call.tasks ∧
      last.out.length = last.tasks.length := by
  generalize left : call.tasks.length - call.out.length = count
  induction count generalizing call with
  | zero => exact ⟨call, .refl call, rfl, by omega⟩
  | succ count induction =>
      have inside : call.out.length < call.tasks.length := by omega
      have found := List.getElem?_eq_getElem inside
      obtain ⟨outcome, isEnd⟩ := ended _ (List.mem_of_getElem? found)
      have step : call.next lib .await =
          some { call with out := call.out ++ [outcome] } := by
        simp only [next, waiting, Bool.false_eq_true, if_false, found,
          Option.bind_some, isEnd, Option.map_some]
      have one : call.Flows lib { call with out := call.out ++ [outcome] } := by
        constructor
        case run =>
          refine ⟨[.await], .snoc (.nil call) step, ?_⟩
          intro label member
          rw [List.mem_singleton.mp member]
          trivial
        case count => rfl
        case kept => exact fun _ _ _ found _ => found
        case abandoned => rfl
      obtain ⟨last, flows, tasks, all⟩ := @induction
        { call with out := call.out ++ [outcome] } waiting
        (by simp only [List.length_append, List.length_singleton]; omega)
        ended
        (by simp only [List.length_append, List.length_singleton]; omega)
      exact ⟨last, one.trans flows, tasks, all⟩

end Call

end Repics.Ca.Operations
