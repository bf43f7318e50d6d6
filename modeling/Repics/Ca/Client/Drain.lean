import Repics.Ca.Client.Monitor
import Repics.Lib.FairLock

/-!
# Draining a handle

The tasks that use a drain, each a sequence of steps between which the others
may take theirs.  A task that waits may be dropped, by a timeout or by its
caller.  The function of a pull is what one poll of it does to the handle: a
result, or nothing yet.
-/

namespace Repics.Ca

/-- What uses a drain: `pull`, `with` and `close`. -/
inductive Job (Fn : Type) where
  | pull (function : Fn)
  | borrow
  | close

/-- How a task ends. -/
inductive Returned (R : Type) where
  | pulled (result : Option R)
  | borrowed (found : Bool)
  | closed

/-- How far a task is: it looks at the token, asks for the lock, waits for it,
holds it, and holds it after it took the handle out. -/
inductive Progress (R : Type) where
  | starting
  | asking
  | waiting
  | holding
  | emptied
  | returned (result : Returned R)
  | cancelled

def Progress.stage {R : Type} : Progress R → Stage
  | .waiting => .waiting
  | .holding | .emptied => .inside
  | _ => .outside

structure Task (Fn R : Type) where
  job : Job Fn
  progress : Progress R

/-- The handles of a drain: how a function polls one, where `none` is no
result yet, and what arrives at it. -/
structure Source (H Fn R Arrival : Type) where
  poll : Fn → H → Option (Option R × H)
  arrive : Arrival → H → H

/-- A drain with the tasks that use it.  The line is that of its lock, and
`used` has the polls of all functions on the handle. -/
structure Drain (H Fn R : Type) where
  slot : Option H
  closed : Bool
  line : List Nat
  tasks : Nat → Option (Task Fn R)
  used : List (Nat × Option (Option R))
  drops : Nat

namespace Drain

variable {H Fn R Arrival : Type}

inductive Label (Fn Arrival : Type) where
  | start (task : Nat) (job : Job Fn)
  | token (task : Nat)
  | ask (task : Nat)
  | acquire (task : Nat)
  | use (task : Nat)
  | notice (task : Nat)
  | release (task : Nat)
  | cancel (task : Nat)
  | arrive (arrival : Arrival)

/-- The steps of tasks that are there. -/
def Label.IsProgram : Label Fn Arrival → Prop
  | .start _ _ | .cancel _ | .arrive _ => False
  | _ => True

/-- The task that takes a step. -/
def Label.actor : Label Fn Arrival → Option Nat
  | .start task _ | .token task | .ask task | .acquire task | .use task
  | .notice task | .release task | .cancel task => some task
  | .arrive _ => none

/-- A drain of a new handle. -/
def start (handle : H) : Drain H Fn R :=
  ⟨some handle, false, [], fun _ => none, [], 0⟩

section Step

variable (drain : Drain H Fn R)

def put (task : Nat) (job : Job Fn) (progress : Progress R) :
    Drain H Fn R :=
  { drain with tasks :=
      Function.update drain.tasks task (some ⟨job, progress⟩) }

/-- The task is over, and leaves the line if it was in it. -/
def finish (task : Nat) (job : Job Fn) (progress : Progress R) :
    Drain H Fn R :=
  { drain with line := drain.line.erase task }.put task job progress

/-- The task looks at the token, and sets it if it closes. -/
def token (task : Nat) : Job Fn → Option (Drain H Fn R)
  | .pull function =>
      if drain.closed then
        some (drain.put task (.pull function) (.returned (.pulled none)))
      else some (drain.put task (.pull function) .asking)
  | .borrow => none
  | .close => some ({ drain with closed := true }.put task .close .asking)

/-- The task does with the handle what it has taken the lock for. -/
def use (source : Source H Fn R Arrival) (task : Nat) :
    Job Fn → Drain H Fn R
  | .pull function =>
      match drain.slot with
      | none =>
          drain.finish task (.pull function) (.returned (.pulled none))
      | some handle =>
          match source.poll function handle with
          | none => { drain with used := drain.used ++ [(task, none)] }
          | some (result, rest) =>
              { drain with
                slot := some rest
                used := drain.used ++ [(task, some result)] }.finish task
                  (.pull function) (.returned (.pulled result))
  | .borrow =>
      drain.finish task .borrow (.returned (.borrowed drain.slot.isSome))
  | .close =>
      { drain with
        slot := none
        drops := drain.drops + drain.slot.toList.length }.put task .close
          .emptied

def next (source : Source H Fn R Arrival) :
    Label Fn Arrival → Option (Drain H Fn R)
  | .start task job =>
      match drain.tasks task, job with
      | none, .borrow => some (drain.put task .borrow .asking)
      | none, job => some (drain.put task job .starting)
      | some _, _ => none
  | .token task =>
      match drain.tasks task with
      | some ⟨job, .starting⟩ => drain.token task job
      | _ => none
  | .ask task =>
      match drain.tasks task with
      | some ⟨job, .asking⟩ =>
          some ({ drain with line := drain.line ++ [task] }.put task job
            .waiting)
      | _ => none
  | .acquire task =>
      match drain.tasks task with
      | some ⟨job, .waiting⟩ =>
          if drain.line.head? = some task then
            some (drain.put task job .holding)
          else none
      | _ => none
  | .use task =>
      match drain.tasks task with
      | some ⟨job, .holding⟩ => some (drain.use source task job)
      | _ => none
  | .notice task =>
      match drain.tasks task, drain.slot with
      | some ⟨.pull function, .holding⟩, some _ =>
          if drain.closed then
            some (drain.finish task (.pull function)
              (.returned (.pulled none)))
          else none
      | _, _ => none
  | .release task =>
      match drain.tasks task with
      | some ⟨.close, .emptied⟩ =>
          some (drain.finish task .close (.returned .closed))
      | _ => none
  | .cancel task =>
      match drain.tasks task, drain.slot with
      | some ⟨job, .waiting⟩, _ => some (drain.finish task job .cancelled)
      | some ⟨.pull function, .holding⟩, some _ =>
          some (drain.finish task (.pull function) .cancelled)
      | _, _ => none
  | .arrive arrival =>
      some { drain with slot := drain.slot.map (source.arrive arrival) }

end Step

/-- Any number of tasks use the drain of a handle. -/
def system (source : Source H Fn R Arrival) (handle : H) :
    Transition (Drain H Fn R) (Label Fn Arrival) :=
  .ofPartial (· = start handle) fun drain label => drain.next source label

section Cases

variable {source : Source H Fn R Arrival} {drain last : Drain H Fn R}

inductive Stepped (source : Source H Fn R Arrival) (drain : Drain H Fn R) :
    Label Fn Arrival → Drain H Fn R → Prop where
  | started (task : Nat) (job : Job Fn) (progress : Progress R) :
      drain.tasks task = none →
      (job = .borrow ∧ progress = .asking ∨
        job ≠ .borrow ∧ progress = .starting) →
      Stepped source drain (.start task job) (drain.put task job progress)
  | refused (task : Nat) (function : Fn) :
      drain.tasks task = some ⟨.pull function, .starting⟩ →
      drain.closed = true →
      Stepped source drain (.token task)
        (drain.put task (.pull function) (.returned (.pulled none)))
  | passed (task : Nat) (function : Fn) :
      drain.tasks task = some ⟨.pull function, .starting⟩ →
      drain.closed = false →
      Stepped source drain (.token task)
        (drain.put task (.pull function) .asking)
  | closes (task : Nat) :
      drain.tasks task = some ⟨.close, .starting⟩ →
      Stepped source drain (.token task)
        ({ drain with closed := true }.put task .close .asking)
  | asked (task : Nat) (job : Job Fn) :
      drain.tasks task = some ⟨job, .asking⟩ →
      Stepped source drain (.ask task)
        ({ drain with line := drain.line ++ [task] }.put task job .waiting)
  | acquired (task : Nat) (job : Job Fn) :
      drain.tasks task = some ⟨job, .waiting⟩ →
      drain.line.head? = some task →
      Stepped source drain (.acquire task) (drain.put task job .holding)
  | vanished (task : Nat) (function : Fn) :
      drain.tasks task = some ⟨.pull function, .holding⟩ →
      drain.slot = none →
      Stepped source drain (.use task)
        (drain.finish task (.pull function) (.returned (.pulled none)))
  | polled (task : Nat) (function : Fn) (handle : H) :
      drain.tasks task = some ⟨.pull function, .holding⟩ →
      drain.slot = some handle →
      source.poll function handle = none →
      Stepped source drain (.use task)
        { drain with used := drain.used ++ [(task, none)] }
  | took (task : Nat) (function : Fn) (handle rest : H)
      (result : Option R) :
      drain.tasks task = some ⟨.pull function, .holding⟩ →
      drain.slot = some handle →
      source.poll function handle = some (result, rest) →
      Stepped source drain (.use task)
        ({ drain with
          slot := some rest
          used := drain.used ++ [(task, some result)] }.finish task
            (.pull function) (.returned (.pulled result)))
  | borrowed (task : Nat) :
      drain.tasks task = some ⟨.borrow, .holding⟩ →
      Stepped source drain (.use task)
        (drain.finish task .borrow (.returned (.borrowed drain.slot.isSome)))
  | emptied (task : Nat) :
      drain.tasks task = some ⟨.close, .holding⟩ →
      Stepped source drain (.use task)
        ({ drain with
          slot := none
          drops := drain.drops + drain.slot.toList.length }.put task .close
            .emptied)
  | noticed (task : Nat) (function : Fn) :
      drain.tasks task = some ⟨.pull function, .holding⟩ →
      drain.closed = true →
      Stepped source drain (.notice task)
        (drain.finish task (.pull function) (.returned (.pulled none)))
  | released (task : Nat) :
      drain.tasks task = some ⟨.close, .emptied⟩ →
      Stepped source drain (.release task)
        (drain.finish task .close (.returned .closed))
  | cancelled (task : Nat) (job : Job Fn) (progress : Progress R) :
      drain.tasks task = some ⟨job, progress⟩ →
      progress = .waiting ∨ progress = .holding →
      Stepped source drain (.cancel task) (drain.finish task job .cancelled)
  | arrived (arrival : Arrival) :
      Stepped source drain (.arrive arrival)
        { drain with slot := drain.slot.map (source.arrive arrival) }

theorem use_cases {task : Nat} {job : Job Fn}
    (holding : drain.tasks task = some ⟨job, .holding⟩) :
    Stepped source drain (.use task) (drain.use source task job) := by
  cases job with
  | borrow => exact .borrowed task holding
  | close => exact .emptied task holding
  | pull function =>
      simp only [use]
      split
      · next slot => exact .vanished task function holding slot
      · next handle slot =>
          split
          · next polled =>
              exact .polled task function handle holding slot polled
          · next result rest polled =>
              exact .took task function handle rest result holding slot polled

theorem step_cases {label : Label Fn Arrival}
    (step : drain.next source label = some last) :
    Stepped source drain label last := by
  cases label with
  | start task job =>
      simp only [next] at step
      split at step
      · next absent =>
          obtain rfl := Option.some.inj step
          exact .started task .borrow .asking absent (.inl ⟨rfl, rfl⟩)
      · next absent other =>
          obtain rfl := Option.some.inj step
          exact .started task _ .starting absent (.inr ⟨other, rfl⟩)
      · cases step
  | token task =>
      simp only [next] at step
      split at step
      · next job starting =>
          cases job with
          | pull function =>
              simp only [token] at step
              split at step
              · next closed =>
                  obtain rfl := Option.some.inj step
                  exact .refused task function starting closed
              · next running =>
                  obtain rfl := Option.some.inj step
                  exact .passed task function starting
                    (Bool.eq_false_iff.mpr running)
          | borrow => cases step
          | close =>
              obtain rfl := Option.some.inj step
              exact .closes task starting
      · cases step
  | ask task =>
      simp only [next] at step
      split at step
      · next job asking =>
          obtain rfl := Option.some.inj step
          exact .asked task job asking
      · cases step
  | acquire task =>
      simp only [next] at step
      split at step
      · next job waiting =>
          obtain ⟨first, same⟩ := Option.ite_none_right_eq_some.mp step
          obtain rfl := Option.some.inj same
          exact .acquired task job waiting first
      · cases step
  | use task =>
      simp only [next] at step
      split at step
      · next job holding =>
          obtain rfl := Option.some.inj step
          exact use_cases holding
      · cases step
  | notice task =>
      simp only [next] at step
      split at step
      · next function handle holding _ =>
          obtain ⟨closed, same⟩ := Option.ite_none_right_eq_some.mp step
          obtain rfl := Option.some.inj same
          exact .noticed task function holding closed
      · cases step
  | release task =>
      simp only [next] at step
      split at step
      · next emptied =>
          obtain rfl := Option.some.inj step
          exact .released task emptied
      · cases step
  | cancel task =>
      simp only [next] at step
      split at step
      · next job waiting =>
          obtain rfl := Option.some.inj step
          exact .cancelled task job .waiting waiting (.inl rfl)
      · next function handle holding _ =>
          obtain rfl := Option.some.inj step
          exact .cancelled task (.pull function) .holding holding (.inr rfl)
      · cases step
  | arrive arrival =>
      obtain rfl := Option.some.inj step
      exact .arrived arrival

theorem Stepped.others {label : Label Fn Arrival}
    (stepped : Stepped source drain label last) {other : Nat}
    (away : label.actor ≠ some other) :
    last.tasks other = drain.tasks other := by
  cases stepped with
  | polled | arrived => rfl
  | _ =>
      have apart : other ≠ _ := fun same => away (congrArg some same.symm)
      exact Function.update_of_ne apart _ _

end Cases

section Sound

variable {source : Source H Fn R Arrival} {drain last : Drain H Fn R}

/-- The stage of a task: in the line it waits for the lock or holds it. -/
def stage (drain : Drain H Fn R) (task : Nat) : Stage :=
  match drain.tasks task with
  | some found => found.progress.stage
  | none => .outside

/-- What the tasks and the polls say about the handle. -/
structure Told (drain : Drain H Fn R) : Prop where
  closing : ∀ task progress, drain.tasks task = some ⟨.close, progress⟩ →
    progress ≠ .starting → drain.closed = true
  emptied : ∀ task job, drain.tasks task = some ⟨job, .emptied⟩ →
    job = .close ∧ drain.slot = none
  finished : ∀ task job, drain.tasks task = some ⟨job, .returned .closed⟩ →
    drain.slot = none
  taken : drain.slot = none → drain.closed = true
  drops : drain.drops + drain.slot.toList.length = 1
  used : ∀ task result, (task, some result) ∈ drain.used →
    ∃ function, drain.tasks task =
      some ⟨.pull function, .returned (.pulled result)⟩

structure Sound (drain : Drain H Fn R) : Prop where
  lock : FairLock drain.line drain.stage
  told : drain.Told

theorem put_tasks_iff (drain : Drain H Fn R) {task other : Nat}
    {job : Job Fn} {progress : Progress R} {found : Task Fn R} :
    (drain.put task job progress).tasks other = some found ↔
      other = task ∧ found = ⟨job, progress⟩ ∨
        other ≠ task ∧ drain.tasks other = some found := by
  by_cases same : other = task
  · subst same
    simp [put, eq_comm]
  · simp [put, same]

/-- A task that is not over goes on, while all else stays as it is. -/
theorem Told.put (told : drain.Told) (line : List Nat) {task : Nat}
    (job : Job Fn) (progress : Progress R)
    (unfinished : ∀ job result,
      drain.tasks task ≠ some ⟨job, .returned result⟩)
    (closing : job = .close → progress ≠ .starting → drain.closed = true)
    (emptied : progress ≠ .emptied)
    (finished : progress = .returned .closed → drain.slot = none) :
    ({ drain with line := line }.put task job progress).Told where
  closing other now found active := by
    rcases (put_tasks_iff _).mp found with ⟨-, is⟩ | ⟨-, old⟩
    · cases is
      exact closing rfl active
    · exact told.closing other now old active
  emptied other now found := by
    rcases (put_tasks_iff _).mp found with ⟨-, is⟩ | ⟨-, old⟩
    · cases is
      exact absurd rfl emptied
    · exact told.emptied other now old
  finished other now found := by
    rcases (put_tasks_iff _).mp found with ⟨-, is⟩ | ⟨-, old⟩
    · cases is
      exact finished rfl
    · exact told.finished other now old
  taken := told.taken
  drops := told.drops
  used other result member := by
    obtain ⟨function, found⟩ := told.used other result member
    refine ⟨function, (put_tasks_iff _).mpr (.inr ⟨?_, found⟩)⟩
    rintro rfl
    exact unfinished _ _ found

theorem Told.closes (told : drain.Told) {task : Nat}
    (starting : drain.tasks task = some ⟨.close, .starting⟩) :
    ({ drain with closed := true }.put task .close .asking).Told := by
  have closed : Told { drain with closed := true } :=
    ⟨fun _ _ _ _ => rfl, told.emptied, told.finished, fun _ => rfl, told.drops,
      told.used⟩
  refine closed.put drain.line .close .asking ?_ (fun _ _ => rfl) nofun nofun
  intro job result found
  rw [starting] at found
  cases found

theorem Told.empties (told : drain.Told) {task : Nat}
    (holding : drain.tasks task = some ⟨.close, .holding⟩) :
    ({ drain with
      slot := (none : Option H)
      drops := drain.drops + drain.slot.toList.length }.put task .close
        .emptied).Told where
  closing other now found active := by
    rcases (put_tasks_iff _).mp found with - | ⟨-, old⟩
    · exact told.closing task .holding holding nofun
    · exact told.closing other now old active
  emptied other now found := by
    rcases (put_tasks_iff _).mp found with ⟨-, is⟩ | ⟨-, old⟩
    · cases is
      exact ⟨rfl, rfl⟩
    · exact ⟨(told.emptied other now old).1, rfl⟩
  finished _ _ _ := rfl
  taken _ := told.closing task .holding holding nofun
  drops := told.drops
  used other result member := by
    obtain ⟨function, found⟩ := told.used other result member
    refine ⟨function, (put_tasks_iff _).mpr (.inr ⟨?_, found⟩)⟩
    rintro rfl
    rw [holding] at found
    cases found

theorem Told.takes (told : drain.Told) {task : Nat} {function : Fn}
    {handle rest : H} {result : Option R}
    (holding : drain.tasks task = some ⟨.pull function, .holding⟩)
    (slot : drain.slot = some handle) :
    ({ drain with
      slot := some rest
      used := drain.used ++ [(task, some result)] }.finish task
        (.pull function) (.returned (.pulled result))).Told where
  closing other now found active := by
    rcases (put_tasks_iff _).mp found with ⟨-, is⟩ | ⟨-, old⟩
    · cases is
    · exact told.closing other now old active
  emptied other now found := by
    rcases (put_tasks_iff _).mp found with ⟨-, is⟩ | ⟨-, old⟩
    · cases is
    · have gone := (told.emptied other now old).2
      rw [slot] at gone
      cases gone
  finished other now found := by
    rcases (put_tasks_iff _).mp found with ⟨-, is⟩ | ⟨-, old⟩
    · cases is
    · have gone := told.finished other now old
      rw [slot] at gone
      cases gone
  taken := nofun
  drops := by
    have drops := told.drops
    rw [slot] at drops
    exact drops
  used other given member := by
    rcases List.mem_append.mp member with earlier | now
    · obtain ⟨was, found⟩ := told.used other given earlier
      refine ⟨was, (put_tasks_iff _).mpr (.inr ⟨?_, found⟩)⟩
      rintro rfl
      rw [holding] at found
      cases found
    · cases List.mem_singleton.mp now
      exact ⟨function, (put_tasks_iff _).mpr (.inl ⟨rfl, rfl⟩)⟩

theorem Stepped.told {label : Label Fn Arrival}
    (stepped : Stepped source drain label last) (told : drain.Told) :
    last.Told := by
  have going {task : Nat} {job : Job Fn} {progress : Progress R}
      (found : drain.tasks task = some ⟨job, progress⟩)
      (unfinished : ∀ result, progress ≠ .returned result)
      (other : Job Fn) (result : Returned R) :
      drain.tasks task ≠ some ⟨other, .returned result⟩ := by
    rw [found]
    rintro ⟨⟩
    exact unfinished result rfl
  cases stepped with
  | started task job progress absent begins =>
      have new (other : Job Fn) (result : Returned R) :
          drain.tasks task ≠ some ⟨other, .returned result⟩ := by
        rw [absent]
        nofun
      rcases begins with ⟨rfl, rfl⟩ | ⟨-, rfl⟩
      · exact told.put drain.line .borrow .asking new nofun nofun nofun
      · exact told.put drain.line job .starting new
          (fun _ active => absurd rfl active) nofun nofun
  | refused task function found closed =>
      exact told.put drain.line (.pull function) _ (going found nofun) nofun
        nofun nofun
  | passed task function found running =>
      exact told.put drain.line (.pull function) _ (going found nofun) nofun
        nofun nofun
  | closes task found => exact told.closes found
  | asked task job found =>
      refine told.put _ job .waiting (going found nofun) ?_ nofun nofun
      rintro rfl _
      exact told.closing task .asking found nofun
  | acquired task job found first =>
      refine told.put drain.line job .holding (going found nofun) ?_ nofun
        nofun
      rintro rfl _
      exact told.closing task .waiting found nofun
  | vanished task function found gone =>
      exact told.put _ _ _ (going found nofun) nofun nofun nofun
  | polled task function handle found slot waits =>
      refine ⟨told.closing, told.emptied, told.finished, told.taken, told.drops,
        ?_⟩
      intro other result member
      rcases List.mem_append.mp member with earlier | now
      · exact told.used other result earlier
      · cases List.mem_singleton.mp now
  | took task function handle rest result found slot taken =>
      exact told.takes found slot
  | borrowed task found =>
      exact told.put _ _ _ (going found nofun) nofun nofun nofun
  | emptied task found => exact told.empties found
  | noticed task function found closed =>
      exact told.put _ _ _ (going found nofun) nofun nofun nofun
  | released task found =>
      refine told.put _ .close _ (going found nofun) ?_ nofun ?_
      · exact fun _ _ => told.closing task .emptied found nofun
      · exact fun _ => (told.emptied task .close found).2
  | cancelled task job progress found waits =>
      refine told.put _ job .cancelled (going found ?_) ?_ nofun nofun
      · rcases waits with rfl | rfl <;> nofun
      · rintro rfl _
        apply told.closing task progress found
        rcases waits with rfl | rfl <;> nofun
  | arrived arrival =>
      refine ⟨told.closing, fun task job found => ?_, fun task job found => ?_,
        fun gone => told.taken (by simpa using gone), ?_, told.used⟩
      · obtain ⟨is, gone⟩ := told.emptied task job found
        exact ⟨is, by simp [gone]⟩
      · simp [told.finished task job found]
      · have drops := told.drops
        cases slot : drain.slot with
        | none => rwa [slot] at drops
        | some handle => rwa [slot] at drops

theorem stage_put (drain : Drain H Fn R) (task : Nat) (job : Job Fn)
    (progress : Progress R) :
    (drain.put task job progress).stage =
      Function.update drain.stage task progress.stage := by
  funext other
  by_cases same : other = task
  · subst same
    simp [stage, put]
  · simp [stage, put, same]

theorem stage_of {task : Nat} {job : Job Fn} {progress : Progress R}
    (found : drain.tasks task = some ⟨job, progress⟩) :
    drain.stage task = progress.stage := by
  rw [stage, found]

theorem lock_finish (lock : FairLock drain.line drain.stage) (task : Nat)
    (job : Job Fn) {progress : Progress R}
    (finished : progress.stage = .outside) :
    FairLock (drain.finish task job progress).line
      (drain.finish task job progress).stage := by
  rw [finish, stage_put, finished]
  exact lock.leave task

theorem lock_put (lock : FairLock drain.line drain.stage) {task : Nat}
    (job : Job Fn) {progress : Progress R}
    (same : drain.stage task = progress.stage) :
    FairLock drain.line (drain.put task job progress).stage := by
  rw [stage_put]
  exact lock.keep same

theorem Stepped.lock {label : Label Fn Arrival}
    (stepped : Stepped source drain label last)
    (lock : FairLock drain.line drain.stage) :
    FairLock last.line last.stage := by
  cases stepped with
  | started task job progress absent begins =>
      apply lock_put lock
      rcases begins with ⟨rfl, rfl⟩ | ⟨-, rfl⟩
      · simp only [stage, absent]
        rfl
      · simp only [stage, absent]
        rfl
  | refused task function found closed =>
      exact lock_put lock _ ((stage_of found).trans rfl)
  | passed task function found running =>
      exact lock_put lock _ ((stage_of found).trans rfl)
  | closes task found =>
      rw [stage_put]
      exact lock.keep ((stage_of found).trans rfl)
  | asked task job found =>
      rw [stage_put]
      exact lock.join (stage_of found)
  | acquired task job found first =>
      rw [stage_put]
      exact lock.enter first
  | vanished task function found gone => exact lock_finish lock task _ rfl
  | polled task function handle found slot waits => exact lock
  | took task function handle rest result found slot taken =>
      rw [finish, stage_put]
      exact lock.leave task
  | borrowed task found => exact lock_finish lock task _ rfl
  | emptied task found =>
      rw [stage_put]
      exact lock.keep ((stage_of found).trans rfl)
  | noticed task function found closed => exact lock_finish lock task _ rfl
  | released task found => exact lock_finish lock task _ rfl
  | cancelled task job progress found waits =>
      exact lock_finish lock task _ rfl
  | arrived arrival => exact lock

theorem Sound.step {label : Label Fn Arrival} (sound : drain.Sound)
    (step : drain.next source label = some last) : last.Sound where
  lock := (step_cases step).lock sound.lock
  told := (step_cases step).told sound.told

theorem sound_start (handle : H) : (start handle : Drain H Fn R).Sound where
  lock := .nil
  told := ⟨nofun, nofun, nofun, nofun, rfl, nofun⟩

theorem sound_invariant (source : Source H Fn R Arrival) (handle : H) :
    (system source handle).Invariant Sound where
  initial := by
    rintro _ rfl
    exact sound_start handle
  preserved _ _ _ sound step := sound.step step

/-- A task of the line is waiting, holds the lock, or has emptied the drain. -/
theorem Sound.in_line (sound : drain.Sound) {task : Nat}
    (member : task ∈ drain.line) :
    ∃ job progress, drain.tasks task = some ⟨job, progress⟩ ∧
      (progress = .waiting ∨ progress = .holding ∨ progress = .emptied) := by
  have queued := (sound.lock.member task).mp member
  unfold stage at queued
  cases found : drain.tasks task with
  | none =>
      rw [found] at queued
      exact absurd rfl queued
  | some given =>
      obtain ⟨job, progress⟩ := given
      rw [found] at queued
      refine ⟨job, progress, rfl, ?_⟩
      cases progress with
      | waiting => exact .inl rfl
      | holding => exact .inr (.inl rfl)
      | emptied => exact .inr (.inr rfl)
      | _ => exact absurd rfl queued

end Sound

section Program

variable (source : Source H Fn R Arrival)

/-- The steps of tasks that are there: no call, no cancellation and nothing
that arrives. -/
def program (handle : H) : Transition (Drain H Fn R) (Label Fn Arrival) :=
  (system source handle).restrict fun _ label => label.IsProgram

/-- The task can be completed without anything from outside. -/
def Completable (handle : H) (drain : Drain H Fn R) (task : Nat) : Prop :=
  ∃ labels last, (program source handle).Run drain labels last ∧
    ∃ job result, last.tasks task = some ⟨job, .returned result⟩

/-- One after the other, the jobs get from the handle what they wait for. -/
def Feasible : H → List (Job Fn) → Prop
  | _, [] => True
  | handle, .pull function :: jobs =>
      ∃ result rest, source.poll function handle = some (result, rest) ∧
        Feasible rest jobs
  | handle, _ :: jobs => Feasible handle jobs

def jobs (drain : Drain H Fn R) (tasks : List Nat) : List (Job Fn) :=
  tasks.filterMap fun task => (drain.tasks task).map Task.job

/-- The tasks need not wait for what is still to arrive. -/
def Free (drain : Drain H Fn R) (tasks : List Nat) : Prop :=
  drain.closed = true ∨
    ∃ handle, drain.slot = some handle ∧
      Feasible source handle (drain.jobs tasks)

variable {source} {drain last : Drain H Fn R}

theorem jobs_put {task : Nat} {job : Job Fn} {progress : Progress R}
    (found : drain.tasks task = some ⟨job, progress⟩)
    (now : Progress R) (tasks : List Nat) :
    (drain.put task job now).jobs tasks = drain.jobs tasks := by
  have same : (fun other => ((drain.put task job now).tasks other).map
      Task.job) = fun other => (drain.tasks other).map Task.job := by
    funext other
    by_cases is : other = task
    · subst is
      simp [put, found]
    · simp [put, is]
  rw [jobs, same, jobs]

theorem jobs_cons {task : Nat} {job : Job Fn} {progress : Progress R}
    (found : drain.tasks task = some ⟨job, progress⟩) (tasks : List Nat) :
    drain.jobs (task :: tasks) = job :: drain.jobs tasks := by
  rw [jobs, List.filterMap_cons, found]
  rfl

/-- The task is over, and out of the line. -/
structure LeftOut (drain last : Drain H Fn R) (task : Nat) : Prop where
  line : last.line = drain.line.erase task
  others : ∀ other, other ≠ task → last.tasks other = drain.tasks other
  returned : ∃ job result, last.tasks task = some ⟨job, .returned result⟩

theorem LeftOut.jobs {task : Nat} (left : LeftOut drain last task)
    {tasks : List Nat} (apart : task ∉ tasks) :
    last.jobs tasks = drain.jobs tasks := by
  apply List.filterMap_congr
  intro other member
  rw [left.others other (ne_of_mem_of_not_mem member apart)]

theorem leftOut_finish (drain between : Drain H Fn R) (task : Nat)
    (line : between.line = drain.line)
    (others : ∀ other, other ≠ task →
      between.tasks other = drain.tasks other)
    (job : Job Fn) (result : Returned R) :
    LeftOut drain (between.finish task job (.returned result)) task where
  line := congrArg (List.erase · task) line
  others other apart := by
    rw [← others other apart]
    simp [finish, put, apart]
  returned := ⟨job, result, by simp [finish, put]⟩

theorem program_step (handle : H) {label : Label Fn Arrival}
    (step : drain.next source label = some last)
    (own : label.IsProgram) {labels : List (Label Fn Arrival)}
    {end_ : Drain H Fn R}
    (run : (program source handle).Run last labels end_) :
    (program source handle).Run drain (label :: labels) end_ :=
  .cons ⟨step, own⟩ run

/-- The task gets out of the line on its own, and those behind it still need
not wait for what is to arrive. -/
def Leaves (source : Source H Fn R Arrival) (handle : H)
    (drain : Drain H Fn R) (task : Nat) (later : List Nat) : Prop :=
  ∃ labels last, (program source handle).Run drain labels last ∧
    LeftOut drain last task ∧ last.Free source later

theorem next_use {task : Nat} {job : Job Fn}
    (holding : drain.tasks task = some ⟨job, .holding⟩) :
    drain.next source (.use task) = some (drain.use source task job) := by
  simp only [next, holding]

theorem borrow_leaves (handle : H) {task : Nat}
    (holding : drain.tasks task = some ⟨.borrow, .holding⟩)
    {later : List Nat} (free : drain.Free source (task :: later))
    (apart : task ∉ later) : Leaves source handle drain task later := by
  have left : LeftOut drain (drain.use source task .borrow) task :=
    leftOut_finish drain drain task rfl (fun _ _ => rfl) _ _
  refine ⟨_, _, program_step handle (next_use holding) trivial (.nil _), left,
    ?_⟩
  rw [Free, jobs_cons holding] at free
  rw [Free, left.jobs apart]
  exact free

/-- A close takes the handle out, and then gives the lock back. -/
theorem close_leaves (handle : H) (told : drain.Told) {task : Nat}
    (holding : drain.tasks task = some ⟨.close, .holding⟩)
    (later : List Nat) : Leaves source handle drain task later := by
  have emptied : (drain.use source task .close).tasks task =
      some ⟨.close, .emptied⟩ := by
    simp [use, put]
  have releases : (drain.use source task .close).next source
      (.release task) =
        some ((drain.use source task .close).finish task .close
          (.returned .closed)) := by
    simp only [next, emptied]
  refine ⟨_, _, program_step handle (next_use holding) trivial
    (program_step handle releases trivial (.nil _)), ?_,
    .inl (told.closing task .holding holding nofun)⟩
  apply leftOut_finish drain (drain.use source task .close) task rfl
  intro other away
  simp [use, put, away]

theorem pull_leaves (handle : H) (told : drain.Told) {task : Nat}
    {function : Fn}
    (holding : drain.tasks task = some ⟨.pull function, .holding⟩)
    {later : List Nat} (free : drain.Free source (task :: later))
    (apart : task ∉ later) : Leaves source handle drain task later := by
  have ends : LeftOut drain (drain.finish task (.pull function)
      (.returned (.pulled none))) task :=
    leftOut_finish drain drain task rfl (fun _ _ => rfl) _ _
  have using_ : drain.next source (.use task) =
      some (drain.use source task (.pull function)) := next_use holding
  cases slot : drain.slot with
  | none =>
      have vanishes : drain.use source task (.pull function) =
          drain.finish task (.pull function) (.returned (.pulled none)) := by
        simp only [use, slot]
      rw [vanishes] at using_
      exact ⟨_, _, program_step handle using_ trivial (.nil _), ends,
        .inl (told.taken slot)⟩
  | some held =>
      rw [Free, jobs_cons holding] at free
      rcases free with closed | ⟨_, found, result, rest, polled, feasible⟩
      · have notices : drain.next source (.notice task) =
            some (drain.finish task (.pull function)
              (.returned (.pulled none))) := by
          simp only [next, holding, slot, if_pos closed]
        exact ⟨_, _, program_step handle notices trivial (.nil _), ends,
          .inl closed⟩
      · obtain rfl : held = _ := Option.some.inj (slot.symm.trans found)
        have takes : drain.use source task (.pull function) =
            { drain with
              slot := some rest
              used := drain.used ++ [(task, some result)] }.finish task
                (.pull function) (.returned (.pulled result)) := by
          simp only [use, slot, polled]
        rw [takes] at using_
        have left := leftOut_finish drain { drain with
          slot := some rest
          used := drain.used ++ [(task, some result)] } task rfl
          (fun _ _ => rfl) (.pull function) (.pulled result)
        refine ⟨_, _, program_step handle using_ trivial (.nil _), left,
          .inr ⟨rest, rfl, ?_⟩⟩
        rw [left.jobs apart]
        exact feasible

theorem holder_leaves (handle : H) (told : drain.Told) {task : Nat}
    {job : Job Fn} (holding : drain.tasks task = some ⟨job, .holding⟩)
    {later : List Nat} (free : drain.Free source (task :: later))
    (apart : task ∉ later) : Leaves source handle drain task later := by
  cases job with
  | pull function => exact pull_leaves handle told holding free apart
  | borrow => exact borrow_leaves handle holding free apart
  | close => exact close_leaves handle told holding later

theorem head_leaves (handle : H) (sound : drain.Sound) {task : Nat}
    (first : drain.line.head? = some task) {later : List Nat}
    (free : drain.Free source (task :: later)) (apart : task ∉ later) :
    Leaves source handle drain task later := by
  obtain ⟨job, progress, found, waiting | holding | emptied⟩ :=
    sound.in_line (List.mem_of_head? first)
  · subst waiting
    have acquires : drain.next source (.acquire task) =
        some (drain.put task job .holding) := by
      simp only [next, found, if_pos first]
    have holding : (drain.put task job .holding).tasks task =
        some ⟨job, .holding⟩ := by
      simp [put]
    have still : (drain.put task job .holding).Free source
        (task :: later) := by
      rw [Free, jobs_put found]
      exact free
    have told := (sound.step acquires).told
    obtain ⟨labels, last, run, left, freed⟩ :=
      holder_leaves handle told holding still apart
    refine ⟨_, last, program_step handle acquires trivial run, ?_, freed⟩
    refine ⟨left.line, fun other away => ?_, left.returned⟩
    rw [left.others other away]
    simp [put, away]
  · subst holding
    exact holder_leaves handle sound.told found free apart
  · subst emptied
    obtain ⟨rfl, -⟩ := sound.told.emptied task job found
    have releases : drain.next source (.release task) =
        some (drain.finish task .close (.returned .closed)) := by
      simp only [next, found]
    exact ⟨_, _, program_step handle releases trivial (.nil _),
      leftOut_finish drain drain task rfl (fun _ _ => rfl) _ _,
      .inl (sound.told.closing task .emptied found nofun)⟩

theorem Sound.program {handle : H} {labels : List (Label Fn Arrival)}
    (sound : drain.Sound)
    (run : (program source handle).Run drain labels last) : last.Sound :=
  run.preserves (fun _ _ _ sound step => sound.step step.1) sound

/-- Whoever is in the line behind others that need not wait for what is to
arrive can be completed without it. -/
theorem completable_of_free (handle : H) (sound : drain.Sound)
    {ahead behind : List Nat} {task : Nat}
    (line : drain.line = ahead ++ task :: behind)
    (free : drain.Free source (ahead ++ [task])) :
    drain.Completable source handle task := by
  induction ahead generalizing drain with
  | nil =>
      have first : drain.line.head? = some task := by rw [line]; rfl
      obtain ⟨labels, last, run, left, -⟩ :=
        head_leaves handle sound first free List.not_mem_nil
      exact ⟨labels, last, run, left.returned⟩
  | cons head ahead induction =>
      have first : drain.line.head? = some head := by rw [line]; rfl
      have nodup := sound.lock.nodup
      rw [line, List.cons_append, List.nodup_cons, List.mem_append] at nodup
      have apart : head ∉ ahead ++ [task] := by
        intro member
        apply nodup.1
        rcases List.mem_append.mp member with early | is
        · exact .inl early
        · exact .inr (List.mem_cons.mpr (.inl (List.mem_singleton.mp is)))
      obtain ⟨labels, last, run, left, freed⟩ :=
        head_leaves handle sound first free apart
      have rest : last.line = ahead ++ task :: behind := by
        rw [left.line, line, List.cons_append, List.erase_cons_head]
      obtain ⟨more, final, finalRun, returned⟩ :=
        induction (sound.program run) rest freed
      exact ⟨labels ++ more, final, run.append finalRun, returned⟩

end Program

section Close

variable (source : Source H Fn R Arrival) (handle : H)

/-- No function has been run since, and the pulls that have returned since got
nothing. -/
structure Quiet (drain last : Drain H Fn R) : Prop where
  slot : last.slot = none
  drops : last.drops = 1
  used : last.used = drain.used
  nothing : ∀ task function result,
    last.tasks task = some ⟨.pull function, .returned (.pulled result)⟩ →
    drain.tasks task = last.tasks task ∨ result = none

/-- What a drain promises to those who close it and those who pull. -/
structure Orderly (drain : Drain H Fn R) : Prop where
  closes : ∀ task, drain.tasks task = some ⟨.close, .waiting⟩ →
    drain.Completable source handle task
  ends : drain.closed = true → ∀ task ∈ drain.line,
    drain.Completable source handle task
  quiet : ∀ task, drain.tasks task = some ⟨.close, .returned .closed⟩ →
    ∀ labels last, (system source handle).Run drain labels last →
      Quiet drain last
  alone : ∀ task other function otherFunction,
    drain.tasks task = some ⟨.pull function, .holding⟩ →
    drain.tasks other = some ⟨.pull otherFunction, .holding⟩ → task = other
  gives : ∀ task result, (task, some result) ∈ drain.used →
    ∃ function, drain.tasks task =
      some ⟨.pull function, .returned (.pulled result)⟩

variable {source handle} {drain middle last : Drain H Fn R}

theorem Sound.completable (sound : drain.Sound)
    (closed : drain.closed = true) {task : Nat}
    (member : task ∈ drain.line) :
    drain.Completable source handle task := by
  obtain ⟨ahead, behind, line⟩ := List.append_of_mem member
  exact completable_of_free handle sound line (.inl closed)

theorem Sound.mem_line (sound : drain.Sound) {task : Nat} {job : Job Fn}
    {progress : Progress R}
    (found : drain.tasks task = some ⟨job, progress⟩)
    (queued : progress.stage ≠ .outside) : task ∈ drain.line := by
  rw [sound.lock.member, stage_of found]
  exact queued

theorem Quiet.put (quiet : Quiet drain middle) {other : Drain H Fn R}
    {task : Nat} {job : Job Fn} {progress : Progress R}
    (slot : other.slot = middle.slot) (drops : other.drops = middle.drops)
    (used : other.used = middle.used) (tasks : other.tasks = middle.tasks)
    (nothing : ∀ result, progress = .returned (.pulled result) →
      result = none) : Quiet drain (other.put task job progress) where
  slot := slot.trans quiet.slot
  drops := drops.trans quiet.drops
  used := used.trans quiet.used
  nothing found function result is := by
    rcases (put_tasks_iff _).mp is with ⟨rfl, same⟩ | ⟨-, old⟩
    · cases same
      exact .inr (nothing result rfl)
    · rw [is, ← old, tasks]
      exact quiet.nothing found function result (tasks ▸ old)

theorem Quiet.step (quiet : Quiet drain middle) {label : Label Fn Arrival}
    (stepped : Stepped source middle label last) : Quiet drain last := by
  cases stepped with
  | started task job progress absent begins =>
      refine quiet.put rfl rfl rfl rfl ?_
      rcases begins with ⟨-, rfl⟩ | ⟨-, rfl⟩ <;> nofun
  | refused task function found closed =>
      refine quiet.put rfl rfl rfl rfl ?_
      rintro _ ⟨⟩
      rfl
  | passed task function found running =>
      refine quiet.put rfl rfl rfl rfl ?_
      nofun
  | closes task found =>
      refine quiet.put rfl rfl rfl rfl ?_
      nofun
  | asked task job found =>
      refine quiet.put rfl rfl rfl rfl ?_
      nofun
  | acquired task job found first =>
      refine quiet.put rfl rfl rfl rfl ?_
      nofun
  | vanished task function found gone =>
      refine quiet.put rfl rfl rfl rfl ?_
      rintro _ ⟨⟩
      rfl
  | polled task function held found slot waits =>
      rw [quiet.slot] at slot
      cases slot
  | took task function held rest result found slot taken =>
      rw [quiet.slot] at slot
      cases slot
  | borrowed task found =>
      refine quiet.put rfl rfl rfl rfl ?_
      nofun
  | emptied task found =>
      refine quiet.put quiet.slot.symm ?_ rfl rfl ?_
      · simp [quiet.slot]
      · nofun
  | noticed task function found closed =>
      refine quiet.put rfl rfl rfl rfl ?_
      rintro _ ⟨⟩
      rfl
  | released task found =>
      refine quiet.put rfl rfl rfl rfl ?_
      nofun
  | cancelled task job progress found waits =>
      refine quiet.put rfl rfl rfl rfl ?_
      nofun
  | arrived arrival =>
      exact ⟨by simp [quiet.slot], quiet.drops, quiet.used, quiet.nothing⟩

/-- Whatever the tasks are and whatever arrives, a drain closes once and a
close waits for nothing but the tasks before it. -/
theorem drain_orderly (source : Source H Fn R Arrival) (handle : H)
    {drain : Drain H Fn R}
    (reachable : (system source handle).Reachable drain) :
    drain.Orderly source handle := by
  have sound := (sound_invariant source handle).reachable reachable
  refine ⟨fun task waiting => ?_, fun closed task member => ?_,
    fun task closed labels last run => ?_, ?_, sound.told.used⟩
  · exact sound.completable (sound.told.closing task .waiting waiting nofun)
      (sound.mem_line waiting nofun)
  · exact sound.completable closed member
  · have gone := sound.told.finished task .close closed
    have drops := sound.told.drops
    rw [gone] at drops
    apply run.preserves _ ⟨gone, drops, rfl, fun _ _ _ _ => .inl rfl⟩
    exact fun _ _ _ quiet step => quiet.step (step_cases step)
  · intro task other function otherFunction one two
    exact sound.lock.unique (stage_of one) (stage_of two)

end Close

/-- The receiving end of the channel that the subscriptions of a hub send
to. -/
structure Receiver (Item : Type) where
  queue : List Item
  disconnected : Bool

/-- `recv` and then `try_recv` up to the cap. -/
def Receiver.batch {Item : Type} (cap : Nat) (receiver : Receiver Item) :
    Option (Option (List Item) × Receiver Item) :=
  match receiver.queue with
  | [] => if receiver.disconnected then some (none, receiver) else none
  | first :: rest =>
      some (some (first :: rest.take (cap - 1)),
        { receiver with queue := rest.drop (cap - 1) })

/-- The functions that `recv_batch` of a hub runs, by their `max_items`. -/
def hubSource (Item : Type) :
    Source (Receiver Item) Nat (List Item) Item where
  poll maxItems := Receiver.batch (batchCap maxItems)
  arrive item receiver :=
    { receiver with queue := receiver.queue ++ [item] }

/-- One pull waits for an item and another for the lock when the hub is
closed. -/
def closedWhileParked : List (Label Nat Nat) :=
  [.start 0 (.pull 0), .token 0, .ask 0, .acquire 0, .use 0, .arrive 7,
    .use 0, .start 1 (.pull 0), .token 1, .ask 1, .acquire 1, .use 1,
    .start 2 (.pull 0), .token 2, .ask 2, .start 3 .close, .token 3, .ask 3,
    .notice 1, .acquire 2, .cancel 2, .acquire 3, .use 3, .release 3]

theorem closedWhileParked_possible :
    (closedWhileParked.foldlM
      (fun drain label => Drain.next drain (hubSource Nat) label)
      (start ⟨[], false⟩)).isSome = true :=
  rfl

theorem closedWhileParked_orderly :
    let last := (closedWhileParked.foldlM
      (fun drain label => Drain.next drain (hubSource Nat) label)
      (start ⟨[], false⟩)).get closedWhileParked_possible
    last.used = [(0, none), (0, some (some [7])), (1, none)] ∧
      last.Orderly (hubSource Nat) ⟨[], false⟩ :=
  ⟨rfl, drain_orderly (hubSource Nat) ⟨[], false⟩ (.of_foldlM
    (show (system (hubSource Nat) ⟨[], false⟩).init (start ⟨[], false⟩)
      from rfl) closedWhileParked closedWhileParked_possible)⟩

end Drain

end Repics.Ca
