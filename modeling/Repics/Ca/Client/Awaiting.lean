import Mathlib.Data.List.ReduceOption
import Repics.Ca.Client.Pause

/-!
# Awaiting a receive

A receive that is awaited is polled once on the thread of the event loop, and
its outcome is there at once if it is ready.  Otherwise it runs on the runtime,
and its outcome goes through a task, a blocking thread and a callback of the
loop to the future.  A cancellation of the future reaches the running receive
only when the loop has run the callback that relays it.
-/

namespace Repics.Ca

/-- How a receive ends. -/
inductive Answer (R : Type) where
  | pulled (result : Option R)
  | timedOut

/-- The future that Python awaits. -/
inductive Future (R : Type) where
  | pending
  | cancelled
  | done (answer : Answer R)

/-- Where a receive is: it runs, its task has ended, with nothing if it was
dropped, its outcome is posted to the loop, or there is no more to do. -/
inductive Hand (R : Type) where
  | running
  | ended (answer : Option (Answer R))
  | posted (answer : Answer R)
  | settled

structure Awaited (R : Type) where
  hand : Hand R
  future : Future R
  relayed : Bool

/-- The items of a handle, and of what functions take from it and what arrives
at it. -/
structure Ledger {H Fn R Arrival : Type} (source : Source H Fn R Arrival)
    (Item : Type) where
  content : H → List Item
  gives : Option R → List Item
  brings : Arrival → H → List Item
  taken : ∀ {function handle result rest},
    source.poll function handle = some (result, rest) →
      content handle = gives result ++ content rest
  arrives : ∀ arrival handle, content (source.arrive arrival handle) =
    content handle ++ brings arrival handle

/-- The calls in their order, of which `current` is in its first poll, and all
that has arrived so far. -/
structure Awaiting (H Fn R Item : Type) where
  drain : Drain H Fn R
  calls : Nat → Option (Awaited R)
  count : Nat
  current : Option Nat
  arrived : List Item

namespace Awaiting

variable {H Fn R Arrival Item : Type}

/-- The steps of polling a pull. -/
inductive PollStep where
  | token
  | ask
  | acquire
  | use

def PollStep.label (call : Nat) : PollStep → Drain.Label Fn Arrival
  | .token => .token call
  | .ask => .ask call
  | .acquire => .acquire call
  | .use => .use call

inductive Label (Fn Arrival : Type) where
  | call (function : Fn)
  | poll (call : Nat) (step : PollStep)
  | handOver
  | complete
  | cancel (call : Nat)
  | relay (call : Nat)
  | drop (call : Nat)
  | expire (call : Nat)
  | collect (call : Nat)
  | post (call : Nat)
  | apply (call : Nat)
  | arrive (arrival : Arrival)

section Step

variable (state : Awaiting H Fn R Item)

def set (call : Nat) (awaited : Awaited R) : Awaiting H Fn R Item :=
  { state with calls := Function.update state.calls call (some awaited) }

/-- `into_py_future`: the first poll begins. -/
def call (source : Source H Fn R Arrival) (function : Fn) :
    Option (Awaiting H Fn R Item) :=
  match state.current with
  | some _ => none
  | none =>
      (state.drain.next source (.start state.count (.pull function))).map
        fun drain =>
          { state with
            drain := drain
            count := state.count + 1
            current := some state.count }.set state.count
              ⟨.running, .pending, false⟩

/-- The first poll is not ready. -/
def handOver : Option (Awaiting H Fn R Item) :=
  match state.current with
  | none => none
  | some call =>
      match state.drain.tasks call with
      | some ⟨_, .waiting⟩ | some ⟨_, .holding⟩ =>
          some { state with current := none }
      | _ => none

/-- The first poll is ready: the future is done. -/
def complete : Option (Awaiting H Fn R Item) :=
  match state.current with
  | none => none
  | some call =>
      match state.drain.tasks call with
      | some ⟨_, .returned (.pulled result)⟩ =>
          some ({ state with current := none }.set call
            ⟨.settled, .done (.pulled result), false⟩)
      | _ => none

/-- The timeout drops the pull, in the first poll or later. -/
def expire (source : Source H Fn R Arrival) (call : Nat) :
    Option (Awaiting H Fn R Item) :=
  match state.calls call with
  | some ⟨.running, future, relayed⟩ =>
      (state.drain.next source (.cancel call)).map fun drain =>
        if state.current = some call then
          { state with drain := drain, current := none }.set call
            ⟨.settled, .done .timedOut, false⟩
        else
          { state with drain := drain }.set call
            ⟨.ended (some .timedOut), future, relayed⟩
  | _ => none

/-- The blocking thread posts an outcome unless the future is cancelled. -/
def post (call : Nat) : Option (Awaiting H Fn R Item) :=
  match state.calls call with
  | some ⟨.ended (some _), .cancelled, relayed⟩ =>
      some (state.set call ⟨.settled, .cancelled, relayed⟩)
  | some ⟨.ended (some answer), future, relayed⟩ =>
      some (state.set call ⟨.posted answer, future, relayed⟩)
  | some ⟨.ended none, future, relayed⟩ =>
      some (state.set call ⟨.settled, future, relayed⟩)
  | _ => none

/-- `Completor`: the loop settles the future unless it is cancelled. -/
def apply (call : Nat) : Option (Awaiting H Fn R Item) :=
  match state.calls call with
  | some ⟨.posted _, .cancelled, relayed⟩ =>
      some (state.set call ⟨.settled, .cancelled, relayed⟩)
  | some ⟨.posted answer, _, relayed⟩ =>
      some (state.set call ⟨.settled, .done answer, relayed⟩)
  | _ => none

def next (source : Source H Fn R Arrival) (ledger : Ledger source Item) :
    Label Fn Arrival → Option (Awaiting H Fn R Item)
  | .call function => state.call source function
  | .poll call step =>
      match state.calls call with
      | some ⟨.running, _, _⟩ =>
          (state.drain.next source (step.label call)).map fun drain =>
            { state with drain := drain }
      | _ => none
  | .handOver => state.handOver
  | .complete => state.complete
  | .cancel call =>
      match state.calls call with
      | some ⟨hand, .pending, relayed⟩ =>
          if state.current = some call then none
          else some (state.set call ⟨hand, .cancelled, relayed⟩)
      | _ => none
  | .relay call =>
      match state.calls call with
      | some ⟨hand, .cancelled, _⟩ =>
          some (state.set call ⟨hand, .cancelled, true⟩)
      | _ => none
  | .drop call =>
      match state.calls call with
      | some ⟨.running, future, true⟩ =>
          (state.drain.next source (.cancel call)).map fun drain =>
            { state with drain := drain }.set call
              ⟨.ended none, future, true⟩
      | _ => none
  | .expire call => state.expire source call
  | .collect call =>
      match state.calls call, state.drain.tasks call with
      | some ⟨.running, future, relayed⟩,
        some ⟨_, .returned (.pulled result)⟩ =>
          if state.current = some call then none
          else some (state.set call
            ⟨.ended (some (.pulled result)), future, relayed⟩)
      | _, _ => none
  | .post call => state.post call
  | .apply call => state.apply call
  | .arrive arrival =>
      (state.drain.next source (.arrive arrival)).map fun drain =>
        { state with
          drain := drain
          arrived := state.arrived ++ state.drain.slot.toList.flatMap
            (ledger.brings arrival) }

end Step

/-- A new handle, with what is there already. -/
def start (handle : H) (arrived : List Item) : Awaiting H Fn R Item :=
  ⟨Drain.start handle, fun _ => none, 0, none, arrived⟩

/-- The receives on a handle are awaited. -/
def system {source : Source H Fn R Arrival} (ledger : Ledger source Item)
    (handle : H) : Transition (Awaiting H Fn R Item) (Label Fn Arrival) :=
  .ofPartial (· = start handle (ledger.content handle))
    fun state label => state.next source ledger label

section Lossless

variable {source : Source H Fn R Arrival} (ledger : Ledger source Item)

/-- The receive has taken items. -/
def Took (progress : Progress R) : Prop :=
  ∃ result, progress = .returned (.pulled result) ∧ ledger.gives result ≠ []

/-- What a call has taken it returns or is about to return, and what it has
not taken it does not. -/
def Carries (awaited : Awaited R) (progress : Progress R) : Prop :=
  (awaited.relayed = true → awaited.future = .cancelled) ∧
    match awaited.hand with
    | .running => awaited.future = .pending ∨ awaited.future = .cancelled
    | .ended none => awaited.future = .cancelled
    | .ended (some answer) | .posted answer =>
        Answers answer progress ∧
          (awaited.future = .pending ∨ awaited.future = .cancelled)
    | .settled => awaited.future = .cancelled ∨
        ∃ answer, awaited.future = .done answer ∧ Answers answer progress
where
  Answers : Answer R → Progress R → Prop
  | .pulled result, progress => progress = .returned (.pulled result)
  | .timedOut, progress => progress = .cancelled

/-- Every call carries what its pull has come to. -/
def Carried (calls : Nat → Option (Awaited R)) (drain : Drain H Fn R) :
    Prop :=
  ∀ call awaited, calls call = some awaited →
    ∃ task, drain.tasks call = some task ∧ Carries awaited task.progress

/-- The items that a call returns or is about to return. -/
def owes (awaited : Awaited R) (progress : Progress R) : List Item :=
  match awaited.future, progress with
  | .cancelled, _ => []
  | _, .returned (.pulled result) => ledger.gives result
  | _, _ => []

/-- The items of one call. -/
def produced (state : Awaiting H Fn R Item) (call : Nat) : List Item :=
  match state.calls call, state.drain.tasks call with
  | some awaited, some task => owes ledger awaited task.progress
  | _, _ => []

/-- No call that is cancelled has taken items. -/
def Spared (calls : Nat → Option (Awaited R)) (drain : Drain H Fn R) :
    Prop :=
  ∀ call awaited task, calls call = some awaited →
    drain.tasks call = some task → awaited.future = .cancelled →
      ¬Took ledger task.progress

/-- A cancelled call takes nothing, and the others return the stream in the
order of the calls. -/
structure Lossless (state : Awaiting H Fn R Item) : Prop where
  spared : Spared ledger state.calls state.drain
  stream : (List.range state.count).flatMap (state.produced ledger) ++
    state.drain.slot.toList.flatMap ledger.content = state.arrived
  carried : Carried state.calls state.drain

/-- No call is cancelled after it has taken items, and none takes items after
it was cancelled. -/
def Spares (state : Awaiting H Fn R Item) : Label Fn Arrival → Prop
  | .cancel call => ∀ task, state.drain.tasks call = some task →
      ¬Took ledger task.progress
  | .poll call .use => ∀ awaited function handle result rest,
      state.calls call = some awaited → awaited.future = .cancelled →
      state.drain.tasks call = some ⟨.pull function, .holding⟩ →
      state.drain.slot = some handle →
      source.poll function handle = some (result, rest) →
        ledger.gives result = []
  | _ => True

end Lossless

section Cases

variable {source : Source H Fn R Arrival} {ledger : Ledger source Item}
  {state last : Awaiting H Fn R Item}

inductive Stepped (ledger : Ledger source Item)
    (state : Awaiting H Fn R Item) :
    Label Fn Arrival → Awaiting H Fn R Item → Prop where
  | called (function : Fn) (drain : Drain H Fn R) :
      state.current = none →
      state.drain.next source (.start state.count (.pull function)) =
        some drain →
      Stepped ledger state (.call function)
        ({ state with
          drain := drain
          count := state.count + 1
          current := some state.count }.set state.count
            ⟨.running, .pending, false⟩)
  | polled (call : Nat) (step : PollStep) (future : Future R)
      (relayed : Bool) (drain : Drain H Fn R) :
      state.calls call = some ⟨.running, future, relayed⟩ →
      state.drain.next source (step.label call) = some drain →
      Stepped ledger state (.poll call step) { state with drain := drain }
  | handedOver (call : Nat) (job : Job Fn) (progress : Progress R) :
      state.current = some call →
      state.drain.tasks call = some ⟨job, progress⟩ →
      progress = .waiting ∨ progress = .holding →
      Stepped ledger state .handOver { state with current := none }
  | completed (call : Nat) (job : Job Fn) (result : Option R) :
      state.current = some call →
      state.drain.tasks call = some ⟨job, .returned (.pulled result)⟩ →
      Stepped ledger state .complete
        ({ state with current := none }.set call
          ⟨.settled, .done (.pulled result), false⟩)
  | moved (label : Label Fn Arrival) (call : Nat) (before now : Awaited R)
      (drain : Drain H Fn R) :
      state.current ≠ some call →
      state.calls call = some before →
      (∀ was is, state.drain.tasks call = some was →
        drain.tasks call = some is → Carries before was.progress →
          Carries now is.progress) →
      (drain = state.drain ∨
        state.drain.next source (.cancel call) = some drain) →
      (now.future = .cancelled → before.future = .cancelled ∨
        label = .cancel call ∧ drain = state.drain) →
      Stepped ledger state label ({ state with drain := drain }.set call now)
  | gaveUp (call : Nat) (drain : Drain H Fn R) :
      state.current = some call →
      state.drain.next source (.cancel call) = some drain →
      Stepped ledger state (.expire call)
        ({ state with drain := drain, current := none }.set call
          ⟨.settled, .done .timedOut, false⟩)
  | arrived (arrival : Arrival) (drain : Drain H Fn R) :
      state.drain.next source (.arrive arrival) = some drain →
      Stepped ledger state (.arrive arrival)
        { state with
          drain := drain
          arrived := state.arrived ++ state.drain.slot.toList.flatMap
            (ledger.brings arrival) }

/-- What is written down about a call whose pull stays as it is. -/
theorem Stepped.stays {label : Label Fn Arrival} {call : Nat}
    {before now : Awaited R} (later : state.current ≠ some call)
    (found : state.calls call = some before)
    (carries : ∀ task, state.drain.tasks call = some task →
      Carries before task.progress → Carries now task.progress)
    (future : now.future = .cancelled → before.future = .cancelled ∨
      label = .cancel call) :
    Stepped ledger state label (state.set call now) := by
  refine .moved label call before now state.drain later found ?_ (.inl rfl)
    fun cancelled => (future cancelled).imp_right fun is => ⟨is, rfl⟩
  intro was is wasFound isFound
  obtain rfl := Option.some.inj (wasFound.symm.trans isFound)
  exact carries was wasFound

theorem cancel_progress {call : Nat} {drain : Drain H Fn R}
    (step : state.drain.next source (.cancel call) = some drain) :
    (∃ job progress, state.drain.tasks call = some ⟨job, progress⟩ ∧
      (progress = .waiting ∨ progress = .holding)) ∧
    ∀ is, drain.tasks call = some is → is.progress = .cancelled := by
  cases Drain.step_cases step with
  | cancelled _ job progress found waits =>
      refine ⟨⟨job, progress, found, waits⟩, ?_⟩
      rintro is found
      have same : (some ⟨job, .cancelled⟩ : Option (Task Fn R)) = some is := by
        rw [← found]
        simp [Drain.finish, Drain.put]
      cases same
      rfl

/-- The call in its first poll runs and is not cancelled. -/
def FirstPoll (state : Awaiting H Fn R Item) : Prop :=
  ∀ call, state.current = some call →
    state.calls call = some ⟨.running, .pending, false⟩

theorem FirstPoll.later (first : state.FirstPoll) {call : Nat}
    {awaited : Awaited R} (found : state.calls call = some awaited)
    (different : awaited ≠ ⟨.running, .pending, false⟩) :
    state.current ≠ some call := by
  intro current
  exact different (Option.some.inj (found.symm.trans (first call current)))

theorem post_cases (first : state.FirstPoll) {call : Nat}
    {label : Label Fn Arrival} (step : state.post call = some last) :
    Stepped ledger state label last := by
  simp only [post] at step
  split at step
  · next answer relayed found =>
      obtain rfl := Option.some.inj step
      apply Stepped.stays (first.later found nofun) found
      · exact fun task _ carries => ⟨fun _ => rfl, .inl rfl⟩
      · exact .inl
  · next answer future relayed _ found =>
      obtain rfl := Option.some.inj step
      apply Stepped.stays (first.later found nofun) found
      · exact fun task _ carries => carries
      · exact .inl
  · next future relayed found =>
      obtain rfl := Option.some.inj step
      apply Stepped.stays (first.later found nofun) found
      · exact fun task _ carries => ⟨carries.1, .inl carries.2⟩
      · exact .inl
  · cases step

theorem apply_cases (first : state.FirstPoll) {call : Nat}
    {label : Label Fn Arrival} (step : state.apply call = some last) :
    Stepped ledger state label last := by
  simp only [apply] at step
  split at step
  · next answer relayed found =>
      obtain rfl := Option.some.inj step
      apply Stepped.stays (first.later found nofun) found
      · exact fun task _ carries => ⟨fun _ => rfl, .inl rfl⟩
      · exact .inl
  · next answer future relayed uncancelled found =>
      obtain rfl := Option.some.inj step
      apply Stepped.stays (first.later found nofun) found
      · intro task _ carries
        exact ⟨fun is => (uncancelled (carries.1 is)).elim,
          .inr ⟨answer, rfl, carries.2.1⟩⟩
      · nofun
  · cases step

/-- A call that is cancelled keeps what its receive has come to. -/
theorem Carries.cancel {hand : Hand R} {future : Future R} {relayed : Bool}
    {progress : Progress R}
    (carries : Carries ⟨hand, future, relayed⟩ progress) :
    Carries ⟨hand, .cancelled, relayed⟩ progress := by
  refine ⟨fun _ => rfl, ?_⟩
  cases hand with
  | running => exact .inr rfl
  | ended answer =>
      cases answer with
      | none => rfl
      | some answer => exact ⟨carries.2.1, .inr rfl⟩
  | posted answer => exact ⟨carries.2.1, .inr rfl⟩
  | settled => exact .inl rfl

theorem step_cases (first : state.FirstPoll) {label : Label Fn Arrival}
    (step : state.next source ledger label = some last) :
    Stepped ledger state label last := by
  cases label with
  | call function =>
      simp only [next, call] at step
      split at step
      · cases step
      · next idle =>
          obtain ⟨drain, started, rfl⟩ := Option.map_eq_some_iff.mp step
          exact .called function drain idle started
  | poll call pollStep =>
      simp only [next] at step
      split at step
      · next future relayed running =>
          obtain ⟨drain, polled, rfl⟩ := Option.map_eq_some_iff.mp step
          exact .polled call pollStep future relayed drain running polled
      · cases step
  | handOver =>
      simp only [next, handOver] at step
      split at step
      · cases step
      · next call current =>
          split at step
          · next job waiting =>
              obtain rfl := Option.some.inj step
              exact .handedOver call job .waiting current waiting (.inl rfl)
          · next job holding =>
              obtain rfl := Option.some.inj step
              exact .handedOver call job .holding current holding (.inr rfl)
          · cases step
  | complete =>
      simp only [next, complete] at step
      split at step
      · cases step
      · next call current =>
          split at step
          · next job result returned =>
              obtain rfl := Option.some.inj step
              exact .completed call job result current returned
          · cases step
  | cancel call =>
      simp only [next] at step
      split at step
      · next hand relayed found =>
          obtain ⟨later, same⟩ := Option.ite_none_left_eq_some.mp step
          obtain rfl := Option.some.inj same
          apply Stepped.stays later found
          · exact fun task _ carries => carries.cancel
          · exact fun _ => .inr rfl
      · cases step
  | relay call =>
      simp only [next] at step
      split at step
      · next hand relayed found =>
          obtain rfl := Option.some.inj step
          apply Stepped.stays (first.later found nofun) found
          · exact fun task _ carries => ⟨fun _ => rfl, carries.2⟩
          · exact .inl
      · cases step
  | drop call =>
      simp only [next] at step
      split at step
      · next future found =>
          obtain ⟨drain, dropped, rfl⟩ := Option.map_eq_some_iff.mp step
          refine .moved _ call _ _ drain (first.later found nofun) found ?_
            (.inr dropped) .inl
          exact fun was is _ _ carries => ⟨carries.1, carries.1 rfl⟩
      · cases step
  | expire call =>
      simp only [next, expire] at step
      split at step
      · next future relayed found =>
          obtain ⟨drain, dropped, same⟩ := Option.map_eq_some_iff.mp step
          split at same
          · next current =>
              subst same
              exact .gaveUp call drain current dropped
          · next later =>
              subst same
              refine .moved _ call _ _ drain later found ?_ (.inr dropped)
                .inl
              intro was is _ isFound carries
              exact ⟨carries.1, (cancel_progress dropped).2 is isFound,
                carries.2⟩
      · cases step
  | collect call =>
      simp only [next] at step
      split at step
      · next future relayed _ result running returned =>
          obtain ⟨later, same⟩ := Option.ite_none_left_eq_some.mp step
          obtain rfl := Option.some.inj same
          apply Stepped.stays later running
          · intro task found carries
            rw [returned] at found
            cases found
            exact ⟨carries.1, rfl, carries.2⟩
          · exact .inl
      · cases step
  | post call => exact post_cases first step
  | apply call => exact apply_cases first step
  | arrive arrival =>
      simp only [next] at step
      obtain ⟨drain, arrived, rfl⟩ := Option.map_eq_some_iff.mp step
      exact .arrived arrival drain arrived

end Cases

section Queue

variable {source : Source H Fn R Arrival} {drain last : Drain H Fn R}
  {count : Nat} {current : Option Nat}

/-- The pulls stand in the line in the order of their calls, and those that
have returned were before them. -/
structure Queued (drain : Drain H Fn R) (count : Nat)
    (current : Option Nat) : Prop where
  sound : drain.Sound
  running : drain.closed = false
  known : ∀ call, (drain.tasks call).isSome ↔ call < count
  pulls : ∀ call job progress, drain.tasks call = some ⟨job, progress⟩ →
    ∃ function, job = .pull function
  early : ∀ call job progress, drain.tasks call = some ⟨job, progress⟩ →
    progress = .starting ∨ progress = .asking → current = some call
  latest : ∀ call, current = some call → call + 1 = count
  ordered : drain.line.Pairwise (· < ·)
  behind : ∀ call job result,
    drain.tasks call = some ⟨job, .returned result⟩ →
      ∀ other ∈ drain.line, call < other

theorem Queued.below (queued : Queued drain count current) {call : Nat}
    {task : Task Fn R} (found : drain.tasks call = some task) :
    call < count := by
  rw [← queued.known, found]
  rfl

theorem Queued.mem_below (queued : Queued drain count current) {call : Nat}
    (member : call ∈ drain.line) : call < count := by
  obtain ⟨job, progress, found, -⟩ := queued.sound.in_line member
  exact queued.below found

theorem Queued.slot (queued : Queued drain count current) :
    ∃ handle, drain.slot = some handle := by
  apply Option.ne_none_iff_exists'.mp
  intro gone
  have closed := queued.sound.told.taken gone
  rw [queued.running] at closed
  cases closed

/-- A pull goes on, and may join the line if it is that of the latest call. -/
theorem Queued.goes (queued : Queued drain count current)
    {base : Drain H Fn R} {call : Nat} {function : Fn}
    {was now : Progress R}
    (found : drain.tasks call = some ⟨.pull function, was⟩)
    (tasks : base.tasks = drain.tasks) (closed : base.closed = drain.closed)
    (ordered : base.line.Pairwise (· < ·))
    (line : ∀ other ∈ base.line, other ∈ drain.line ∨
      other = call ∧ current = some call)
    (sound : (base.put call (.pull function) now).Sound)
    (early : now = .starting ∨ now = .asking → current = some call)
    (behind : ∀ result, now = .returned result →
      ∀ other ∈ base.line, call < other) :
    Queued (base.put call (.pull function) now) count current where
  sound := sound
  running := closed.trans queued.running
  known other := by
    by_cases same : other = call
    · subst same
      simp [Drain.put, queued.below found]
    · rw [← queued.known other, ← tasks]
      simp [Drain.put, same]
  pulls other job progress is := by
    rcases (Drain.put_tasks_iff _).mp is with ⟨-, same⟩ | ⟨-, old⟩
    · cases same
      exact ⟨function, rfl⟩
    · exact queued.pulls other job progress (tasks ▸ old)
  early other job progress is := by
    rcases (Drain.put_tasks_iff _).mp is with ⟨rfl, same⟩ | ⟨-, old⟩
    · cases same
      exact early
    · exact queued.early other job progress (tasks ▸ old)
  latest := queued.latest
  ordered := ordered
  behind other job result is later member := by
    rcases (Drain.put_tasks_iff _).mp is with ⟨rfl, same⟩ | ⟨apart, old⟩
    · cases same
      exact behind result rfl later member
    · rw [tasks] at old
      rcases line later member with stood | ⟨rfl, joins⟩
      · exact queued.behind other job result old later stood
      · have below := queued.below old
        have latest := queued.latest later joins
        omega

theorem Queued.start (queued : Queued drain count none) (function : Fn)
    (step : drain.next source (.start count (.pull function)) = some last) :
    Queued last (count + 1) (some count) := by
  have sound := queued.sound.step step
  cases Drain.step_cases step with
  | started _ _ progress absent begins =>
      obtain ⟨⟨⟩, -⟩ | ⟨-, rfl⟩ := begins
      have old {call : Nat} {job : Job Fn} {progress : Progress R}
          (found : drain.tasks call = some ⟨job, progress⟩)
          (begins : progress = .starting ∨ progress = .asking) : False :=
        nomatch queued.early call job progress found begins
      refine ⟨sound, queued.running, fun call => ?_,
        fun call job progress is => ?_, fun call job progress is begins => ?_,
        ?_, queued.ordered, fun call job result is => ?_⟩
      · by_cases same : call = count
        · subst same
          simp [Drain.put]
        · have known := queued.known call
          simp only [Drain.put, Function.update_of_ne same, known]
          omega
      · rcases (Drain.put_tasks_iff _).mp is with ⟨-, same⟩ | ⟨-, was⟩
        · cases same
          exact ⟨function, rfl⟩
        · exact queued.pulls call job progress was
      · rcases (Drain.put_tasks_iff _).mp is with ⟨rfl, -⟩ | ⟨-, was⟩
        · rfl
        · exact (old was begins).elim
      · rintro call ⟨⟩
        rfl
      · rcases (Drain.put_tasks_iff _).mp is with ⟨-, ⟨⟩⟩ | ⟨-, was⟩
        exact queued.behind call job result was

/-- The pull of the latest call joins the line behind all others. -/
theorem Queued.ask (queued : Queued drain count current) {call : Nat}
    {function : Fn}
    (found : drain.tasks call = some ⟨.pull function, .asking⟩)
    (sound : ({ drain with line := drain.line ++ [call] }.put call
      (.pull function) .waiting).Sound) :
    Queued ({ drain with line := drain.line ++ [call] }.put call
      (.pull function) .waiting) count current := by
  have joins := queued.early _ _ _ found (.inr rfl)
  have latest := queued.latest call joins
  have away : call ∉ drain.line := by
    rw [queued.sound.lock.member, Drain.stage_of found]
    exact fun inside => inside rfl
  refine queued.goes found rfl rfl ?_ ?_ sound nofun nofun
  · apply List.pairwise_append.mpr
    refine ⟨queued.ordered, List.pairwise_singleton _ _, ?_⟩
    rintro other member _ single
    obtain rfl := List.mem_singleton.mp single
    have below := queued.mem_below member
    have apart : other ≠ _ := ne_of_mem_of_not_mem member away
    omega
  · intro other member
    rcases List.mem_append.mp member with stood | single
    · exact .inl stood
    · exact .inr ⟨List.mem_singleton.mp single, joins⟩

/-- A pull leaves the line, and returns only if it holds the lock. -/
theorem Queued.ends (queued : Queued drain count current)
    {base : Drain H Fn R} {call : Nat} {function : Fn}
    {was now : Progress R}
    (found : drain.tasks call = some ⟨.pull function, was⟩)
    (tasks : base.tasks = drain.tasks) (closed : base.closed = drain.closed)
    (line : base.line = drain.line)
    (sound : (base.finish call (.pull function) now).Sound)
    (finished : ¬(now = .starting ∨ now = .asking))
    (held : ∀ result, now = .returned result → was = .holding) :
    Queued (base.finish call (.pull function) now) count current := by
  have shorter : (base.line.erase call).Sublist drain.line :=
    line ▸ List.erase_sublist
  refine queued.goes found tasks closed (queued.ordered.sublist shorter)
    (fun other member => .inl (shorter.subset member)) sound
    (fun begins => (finished begins).elim) ?_
  intro result returned other member
  obtain rfl := held result returned
  have first := queued.sound.lock.first call (Drain.stage_of found)
  have ordered := queued.ordered
  have member : other ∈ drain.line.erase call := line ▸ member
  cases standing : drain.line with
  | nil =>
      rw [standing] at first
      cases first
  | cons head rest =>
      rw [standing] at first ordered member
      obtain rfl : head = call := Option.some.inj first
      rw [List.erase_cons_head] at member
      exact (List.pairwise_cons.mp ordered).1 other member

/-- The steps of polling and dropping a pull. -/
def OfPull (call : Nat) : Drain.Label Fn Arrival → Prop
  | .token task | .ask task | .acquire task | .use task | .cancel task =>
      task = call
  | _ => False

/-- What a step does to a pull, and what it takes from the handle. -/
inductive Pulled (source : Source H Fn R Arrival) (drain : Drain H Fn R)
    (call : Nat) : Drain.Label Fn Arrival → Drain H Fn R → Prop where
  | goesOn (label : Drain.Label Fn Arrival) (last : Drain H Fn R)
      (job : Job Fn) (was now : Progress R) :
      drain.tasks call = some ⟨job, was⟩ →
      last.tasks call = some ⟨job, now⟩ →
      (∀ result, was ≠ .returned result) →
      (∀ result, now ≠ .returned result) →
      last.slot = drain.slot → Pulled source drain call label last
  | took (function : Fn) (handle rest : H) (result : Option R)
      (last : Drain H Fn R) :
      drain.tasks call = some ⟨.pull function, .holding⟩ →
      drain.slot = some handle →
      source.poll function handle = some (result, rest) →
      last.slot = some rest →
      last.tasks call =
        some ⟨.pull function, .returned (.pulled result)⟩ →
      Pulled source drain call (.use call) last

theorem Queued.step (queued : Queued drain count current)
    {label : Drain.Label Fn Arrival} {call : Nat} (own : OfPull call label)
    (step : drain.next source label = some last) :
    Queued last count current ∧ Pulled source drain call label last := by
  have sound := queued.sound.step step
  have open_ {P : Prop} (closed : drain.closed = true) : P := by
    rw [queued.running] at closed
    cases closed
  cases Drain.step_cases step with
  | started | noticed | released | arrived => cases own
  | refused task function found closed => exact open_ closed
  | closes task found =>
      obtain ⟨function, ⟨⟩⟩ := queued.pulls task _ _ found
  | borrowed task found =>
      obtain ⟨function, ⟨⟩⟩ := queued.pulls task _ _ found
  | emptied task found =>
      obtain ⟨function, ⟨⟩⟩ := queued.pulls task _ _ found
  | vanished task function found gone =>
      exact open_ (queued.sound.told.taken gone)
  | passed task function found running =>
      cases own
      have begins := queued.early _ _ _ found (.inl rfl)
      refine ⟨queued.goes found rfl rfl queued.ordered (fun _ => .inl) sound
        (fun _ => begins) (by simp), ?_⟩
      exact .goesOn _ _ _ _ .asking found (by simp [Drain.put]) (by simp) (by simp)
        rfl
  | asked task job found =>
      cases own
      obtain ⟨function, rfl⟩ := queued.pulls _ _ _ found
      refine ⟨queued.ask found sound, ?_⟩
      exact .goesOn _ _ _ _ .waiting found (by simp [Drain.put]) (by simp) (by simp)
        rfl
  | acquired task job found first =>
      cases own
      obtain ⟨function, rfl⟩ := queued.pulls _ _ _ found
      refine ⟨queued.goes found rfl rfl queued.ordered (fun _ => .inl) sound
        (by simp) (by simp), ?_⟩
      exact .goesOn _ _ _ _ .holding found (by simp [Drain.put]) (by simp) (by simp)
        rfl
  | polled task function handle found slot waits =>
      cases own
      refine ⟨⟨sound, queued.running, queued.known, queued.pulls,
        queued.early, queued.latest, queued.ordered, queued.behind⟩, ?_⟩
      exact .goesOn _ _ _ _ _ found found (by simp) (by simp) rfl
  | took task function handle rest result found slot taken =>
      cases own
      refine ⟨queued.ends found rfl rfl rfl sound (by simp) (fun _ _ => rfl), ?_⟩
      exact .took function handle rest result _ found slot taken rfl
        (by simp [Drain.finish, Drain.put])
  | cancelled task job progress found waits =>
      cases own
      obtain ⟨function, rfl⟩ := queued.pulls _ _ _ found
      refine ⟨queued.ends found rfl rfl rfl sound (by simp) (by simp), ?_⟩
      refine .goesOn _ _ _ _ .cancelled found
        (by simp [Drain.finish, Drain.put]) ?_ (by simp) rfl
      rcases waits with rfl | rfl <;> simp

theorem OfPull.actor {label : Drain.Label Fn Arrival} {call other : Nat}
    (own : OfPull call label) (away : other ≠ call) :
    label.actor ≠ some other := by
  cases label <;> cases own <;> exact fun same => away (by cases same; rfl)

theorem Queued.leave {call : Nat} {task : Task Fn R}
    (queued : Queued drain count (some call))
    (found : drain.tasks call = some task)
    (begun : ¬(task.progress = .starting ∨ task.progress = .asking)) :
    Queued drain count none where
  sound := queued.sound
  running := queued.running
  known := queued.known
  pulls := queued.pulls
  early other job progress is begins := by
    obtain rfl := Option.some.inj (queued.early other job progress is begins)
    obtain rfl := Option.some.inj (found.symm.trans is)
    exact (begun begins).elim
  latest := nofun
  ordered := queued.ordered
  behind := queued.behind

end Queue

section Stream

variable {source : Source H Fn R Arrival} (ledger : Ledger source Item)

/-- The items that a pull has taken. -/
def yields : Option (Task Fn R) → List Item
  | some ⟨_, .returned (.pulled result)⟩ => ledger.gives result
  | _ => []

/-- The pulls have taken the stream in the order of their calls, up to what is
still there. -/
def InOrder (drain : Drain H Fn R) (count : Nat) (arrived : List Item) :
    Prop :=
  (List.range count).flatMap (fun call => yields ledger (drain.tasks call)) ++
    drain.slot.toList.flatMap ledger.content = arrived

/-- What comes to one of the lists when all behind it are empty. -/
theorem flatMap_range_of_last {α : Type} (before after : Nat → List α)
    {count index : Nat} (below : index < count)
    (same : ∀ other, other ≠ index → after other = before other)
    (empty : ∀ other, index ≤ other → before other = []) :
    (List.range count).flatMap after =
      (List.range count).flatMap before ++ after index := by
  induction count with
  | zero => cases below
  | succ count induction =>
      rw [List.range_succ, List.flatMap_append, List.flatMap_append,
        List.flatMap_singleton, List.flatMap_singleton]
      rcases Nat.lt_succ_iff_lt_or_eq.mp below with earlier | rfl
      · rw [induction earlier, same count (by omega),
          empty count (by omega), List.append_nil, List.append_nil]
      · rw [empty index (Nat.le_refl _), List.append_nil]
        congr 1
        apply List.flatMap_congr
        intro other member
        rw [List.mem_range] at member
        exact same other (by omega)

variable {ledger} {drain last : Drain H Fn R} {count : Nat}
  {current : Option Nat} {arrived : List Item}

theorem yields_of_unfinished {job : Job Fn} {progress : Progress R}
    (unfinished : ∀ result, progress ≠ .returned result) :
    yields ledger (some ⟨job, progress⟩) = [] := by
  cases progress with
  | returned result => exact absurd rfl (unfinished result)
  | _ => rfl

/-- A pull that stands in the line comes behind all that have taken items. -/
theorem Queued.nothing_behind (queued : Queued drain count current)
    {call : Nat} (member : call ∈ drain.line) {other : Nat}
    (later : call ≤ other) : yields ledger (drain.tasks other) = [] := by
  cases found : drain.tasks other with
  | none => rfl
  | some task =>
      obtain ⟨job, progress⟩ := task
      apply yields_of_unfinished
      rintro result rfl
      have before := queued.behind other job result found call member
      omega

theorem InOrder.pulled (order : InOrder ledger drain count arrived)
    (queued : Queued drain count current) {call : Nat}
    {label : Drain.Label Fn Arrival}
    (pulled : Pulled source drain call label last)
    (others : ∀ other, other ≠ call →
      last.tasks other = drain.tasks other) :
    InOrder ledger last count arrived := by
  cases pulled with
  | goesOn _ _ job was now found after wasOpen nowOpen slot =>
      rw [InOrder, slot, ← order]
      congr 1
      apply List.flatMap_congr
      intro other _
      by_cases same : other = call
      · subst same
        rw [found, after, yields_of_unfinished wasOpen,
          yields_of_unfinished nowOpen]
      · rw [others other same]
  | took function handle rest result _ found slot taken after returned =>
      have member : call ∈ drain.line :=
        queued.sound.mem_line found nofun
      have gained := flatMap_range_of_last
        (fun call => yields ledger (drain.tasks call))
        (fun call => yields ledger (last.tasks call)) (queued.below found)
        (fun other away => by rw [others other away])
        (fun other later => queued.nothing_behind member later)
      have content := ledger.taken taken
      rw [InOrder, gained, returned, ← order, slot, after]
      simp [yields, content]

theorem InOrder.start (order : InOrder ledger drain count arrived)
    {function : Fn}
    (step : drain.next source (.start count (.pull function)) = some last) :
    InOrder ledger last (count + 1) arrived := by
  cases Drain.step_cases step with
  | started _ _ progress absent begins =>
      obtain ⟨⟨⟩, -⟩ | ⟨-, rfl⟩ := begins
      rw [InOrder, List.range_succ, List.flatMap_append, ← order]
      have new : yields ledger ((drain.put count (.pull function)
          .starting).tasks count) = [] := by
        simp [Drain.put, yields]
      rw [List.flatMap_singleton, new, List.append_nil]
      congr 1
      apply List.flatMap_congr
      intro call member
      have apart : call ≠ count :=
        Nat.ne_of_lt (List.mem_range.mp member)
      simp [Drain.put, apart]

theorem InOrder.arrive (order : InOrder ledger drain count arrived)
    (arrival : Arrival) :
    InOrder ledger
      { drain with slot := drain.slot.map (source.arrive arrival) } count
      (arrived ++ drain.slot.toList.flatMap (ledger.brings arrival)) := by
  rw [InOrder, ← order]
  cases drain.slot with
  | none => simp
  | some handle => simp [ledger.arrives]

end Stream

section Kept

variable {source : Source H Fn R Arrival} {ledger : Ledger source Item}
  {state last : Awaiting H Fn R Item}

/-- What every run keeps, whatever is cancelled. -/
structure Kept (ledger : Ledger source Item)
    (state : Awaiting H Fn R Item) : Prop where
  queued : Queued state.drain state.count state.current
  first : state.FirstPoll
  called : ∀ call, call < state.count →
    ∃ awaited, state.calls call = some awaited
  order : InOrder ledger state.drain state.count state.arrived
  carried : Carried state.calls state.drain

/-- What was carried is carried when the tasks of no other call change. -/
theorem Carried.set {calls : Nat → Option (Awaited R)}
    {before drain : Drain H Fn R} {call : Nat} {now : Awaited R}
    {task : Task Fn R} (carried : Carried calls before)
    (others : ∀ other, other ≠ call →
      drain.tasks other = before.tasks other)
    (found : drain.tasks call = some task)
    (carries : Carries now task.progress) :
    Carried (Function.update calls call (some now)) drain := by
  intro other awaited is
  by_cases same : other = call
  · subst same
    rw [Function.update_self] at is
    cases is
    exact ⟨task, found, carries⟩
  · rw [Function.update_of_ne same] at is
    rw [others other same]
    exact carried other awaited is

theorem Kept.pulled (kept : Kept ledger state) {call : Nat}
    {label : Drain.Label Fn Arrival} {drain : Drain H Fn R}
    (own : OfPull call label)
    (step : state.drain.next source label = some drain) :
    Queued drain state.count state.current ∧
      InOrder ledger drain state.count state.arrived ∧
      (∀ other, other ≠ call →
        drain.tasks other = state.drain.tasks other) ∧
      Pulled source state.drain call label drain := by
  obtain ⟨queued, pulled⟩ := kept.queued.step own step
  have others : ∀ other, other ≠ call →
      drain.tasks other = state.drain.tasks other :=
    fun other away => (Drain.step_cases step).others (own.actor away)
  exact ⟨queued, kept.order.pulled kept.queued pulled others, others, pulled⟩

theorem Pulled.after {drain last : Drain H Fn R} {call : Nat}
    {label : Drain.Label Fn Arrival}
    (pulled : Pulled source drain call label last) :
    ∃ task, last.tasks call = some task := by
  cases pulled with
  | goesOn _ _ job was now found after => exact ⟨_, after⟩
  | took function handle rest result _ found slot taken after returned =>
      exact ⟨_, returned⟩

theorem started_task {drain last : Drain H Fn R} {call : Nat} {job : Job Fn}
    (step : drain.next source (.start call job) = some last) :
    ∃ task, last.tasks call = some task := by
  cases Drain.step_cases step with
  | started _ _ progress _ _ =>
      exact ⟨⟨job, progress⟩, Function.update_self _ _ _⟩

theorem Kept.step (kept : Kept ledger state) {label : Label Fn Arrival}
    (step : state.next source ledger label = some last) :
    Kept ledger last := by
  obtain ⟨queued, first, called, order, carried⟩ := kept
  have kept : Kept ledger state := ⟨queued, first, called, order, carried⟩
  have calledSet (call : Nat) (now : Awaited R) (other : Nat)
      (below : other < state.count) : ∃ awaited,
        Function.update state.calls call (some now) other = some awaited := by
    by_cases same : other = call
    · subst same
      exact ⟨now, Function.update_self _ _ _⟩
    · rw [Function.update_of_ne same]
      exact called other below
  cases step_cases first step with
  | called function drain idle started =>
      rw [idle] at queued
      have others : ∀ other, other ≠ state.count →
          drain.tasks other = state.drain.tasks other :=
        fun other away => (Drain.step_cases started).others
          fun same => away (Option.some.inj same).symm
      refine ⟨queued.start function started, ?_, ?_, ?_, ?_⟩
      · rintro call ⟨⟩
        exact Function.update_self _ _ _
      · intro call below
        rcases Nat.lt_succ_iff_lt_or_eq.mp below with earlier | rfl
        · exact calledSet _ _ call earlier
        · exact ⟨_, Function.update_self _ _ _⟩
      · exact order.start started
      · obtain ⟨task, found⟩ := started_task started
        exact carried.set others found ⟨nofun, .inl rfl⟩
  | polled call pollStep future relayed drain running polled =>
      have own : OfPull call (pollStep.label call : Drain.Label Fn Arrival) :=
        by cases pollStep <;> rfl
      obtain ⟨queued, order, others, pulled⟩ := kept.pulled own polled
      refine ⟨queued, first, called, order, fun other awaited is => ?_⟩
      by_cases same : other = call
      · subst same
        obtain rfl := Option.some.inj (running.symm.trans is)
        obtain ⟨task, -, carries⟩ := carried other _ running
        obtain ⟨now, found⟩ := pulled.after
        exact ⟨now, found, carries⟩
      · rw [others other same]
        exact carried other awaited is
  | handedOver call job progress current found waits =>
      rw [current] at queued
      refine ⟨queued.leave found ?_, nofun, called, order, carried⟩
      rcases waits with rfl | rfl <;> nofun
  | completed call job result current found =>
      rw [current] at queued
      refine ⟨queued.leave found nofun, nofun, calledSet _ _, order, ?_⟩
      exact carried.set (fun _ _ => rfl) found
        ⟨nofun, .inr ⟨_, rfl, rfl⟩⟩
  | moved _ call before now drain later found carries same future =>
      have first : ∀ other, state.current = some other →
          Function.update state.calls call (some now) other =
            some ⟨.running, .pending, false⟩ := by
        intro other current
        have apart : other ≠ call := by
          rintro rfl
          exact later current
        rw [Function.update_of_ne apart]
        exact first other current
      obtain ⟨task, was, holds⟩ := carried call before found
      rcases same with rfl | dropped
      · exact ⟨queued, first, calledSet _ _, order, carried.set (fun _ _ => rfl)
          was (carries task task was was holds)⟩
      · obtain ⟨queued, order, others, pulled⟩ :=
          kept.pulled (show OfPull call (.cancel call) from rfl) dropped
        obtain ⟨after, is⟩ := pulled.after
        exact ⟨queued, first, calledSet _ _, order, carried.set others is
          (carries task after was is holds)⟩
  | gaveUp call drain current dropped =>
      obtain ⟨queued, order, others, pulled⟩ :=
        kept.pulled (show OfPull call (.cancel call) from rfl) dropped
      obtain ⟨task, found⟩ := pulled.after
      have cancelled := (cancel_progress dropped).2 task found
      rw [current] at queued
      refine ⟨queued.leave found ?_, nofun, calledSet _ _, order, ?_⟩
      · rw [cancelled]
        nofun
      · exact carried.set others found
          ⟨nofun, .inr ⟨_, rfl, cancelled⟩⟩
  | arrived arrival drain arrives =>
      have sound := queued.sound.step arrives
      cases Drain.step_cases arrives with
      | arrived =>
          exact ⟨⟨sound, queued.running, queued.known, queued.pulls,
            queued.early, queued.latest, queued.ordered, queued.behind⟩,
            first, called, order.arrive arrival, carried⟩

theorem kept_start (ledger : Ledger source Item) (handle : H) :
    Kept ledger (start handle (ledger.content handle)) where
  queued := by
    refine ⟨?_, rfl, fun call => ?_, nofun, nofun, nofun, .nil, nofun⟩
    · exact (Drain.sound_invariant source handle).initial _ rfl
    · exact iff_of_false nofun nofun
  first := nofun
  called := nofun
  order := by simp [InOrder, start, Drain.start]
  carried := nofun

theorem kept_invariant (ledger : Ledger source Item) (handle : H) :
    (system ledger handle).Invariant (Kept ledger) where
  initial := by
    rintro _ rfl
    exact kept_start ledger handle
  preserved _ _ _ kept step := kept.step step

theorem not_took {progress : Progress R}
    (unfinished : ∀ result, progress ≠ .returned result) :
    ¬Took ledger progress := by
  rintro ⟨result, rfl, -⟩
  exact unfinished _ rfl

theorem PollStep.label_use {call : Nat} {pollStep : PollStep}
    (use : (pollStep.label call : Drain.Label Fn Arrival) = .use call) :
    pollStep = .use := by
  cases pollStep <;> cases use
  rfl

theorem Spared.set {calls : Nat → Option (Awaited R)}
    {before drain : Drain H Fn R} {call : Nat} {now : Awaited R}
    (spared : Spared ledger calls before)
    (others : ∀ other, other ≠ call →
      drain.tasks other = before.tasks other)
    (own : now.future = .cancelled → ∀ task,
      drain.tasks call = some task → ¬Took ledger task.progress) :
    Spared ledger (Function.update calls call (some now)) drain := by
  intro other awaited task is found cancelled
  by_cases same : other = call
  · subst same
    rw [Function.update_self] at is
    cases is
    exact own cancelled task found
  · rw [Function.update_of_ne same] at is
    rw [others other same] at found
    exact spared other awaited task is found cancelled

theorem Kept.spares_poll (kept : Kept ledger state) {call : Nat}
    {pollStep : PollStep} {future : Future R} {relayed : Bool}
    {drain : Drain H Fn R}
    (spared : Spared ledger state.calls state.drain)
    (allowed : Spares ledger state (.poll call pollStep))
    (running : state.calls call = some ⟨.running, future, relayed⟩)
    (polled : state.drain.next source (pollStep.label call) = some drain) :
    Spared ledger state.calls drain := by
  have own : OfPull call (pollStep.label call : Drain.Label Fn Arrival) := by
    cases pollStep <;> rfl
  obtain ⟨-, -, others, pulled⟩ := kept.pulled own polled
  intro other awaited task is found cancelled
  by_cases same : other = call
  · subst same
    generalize which :
      (pollStep.label other : Drain.Label Fn Arrival) = label at pulled
    cases pulled with
    | goesOn _ _ job was now wasFound after wasOpen nowOpen slot =>
        obtain rfl := Option.some.inj (after.symm.trans found)
        exact not_took nowOpen
    | took function handle rest result _ holding slot taken after returned =>
        obtain rfl := PollStep.label_use which
        obtain rfl := Option.some.inj (returned.symm.trans found)
        have nothing := allowed awaited function handle result rest is
          cancelled holding slot taken
        rintro ⟨given, ⟨⟩, some⟩
        exact some nothing
  · rw [others other same] at found
    exact spared other awaited task is found cancelled

theorem Kept.spares (kept : Kept ledger state)
    {label : Label Fn Arrival}
    (spared : Spared ledger state.calls state.drain)
    (allowed : Spares ledger state label)
    (step : state.next source ledger label = some last) :
    Spared ledger last.calls last.drain := by
  cases step_cases kept.first step with
  | handedOver => exact spared
  | called function drain idle started =>
      refine spared.set (fun other away => ?_) nofun
      exact (Drain.step_cases started).others
        fun same => away (Option.some.inj same).symm
  | polled call pollStep future relayed drain running polled =>
      exact kept.spares_poll spared allowed running polled
  | completed call job result current found =>
      exact spared.set (fun _ _ => rfl) nofun
  | moved _ call before now drain later found carries same future =>
      rcases same with rfl | dropped
      · refine spared.set (fun _ _ => rfl) fun cancelled task taken => ?_
        rcases future cancelled with was | ⟨rfl, -⟩
        · exact spared call before task found taken was
        · exact allowed task taken
      · obtain ⟨-, -, others, -⟩ :=
          kept.pulled (show OfPull call (.cancel call) from rfl) dropped
        refine spared.set others fun _ task is => ?_
        rw [(cancel_progress dropped).2 task is]
        exact not_took nofun
  | gaveUp call drain current dropped =>
      obtain ⟨-, -, others, -⟩ :=
        kept.pulled (show OfPull call (.cancel call) from rfl) dropped
      exact spared.set others nofun
  | arrived arrival drain arrives =>
      cases Drain.step_cases arrives with
      | arrived => exact spared

theorem yields_of_not_took {job : Job Fn} {progress : Progress R}
    (nothing : ¬Took ledger progress) :
    yields ledger (some ⟨job, progress⟩) = [] := by
  by_cases unfinished : ∃ result, progress = .returned (.pulled result)
  · obtain ⟨result, rfl⟩ := unfinished
    by_contra some
    exact nothing ⟨result, rfl, some⟩
  · unfold yields
    split
    · next same =>
        cases same
        exact absurd ⟨_, rfl⟩ unfinished
    · rfl

theorem owes_of_uncancelled {awaited : Awaited R} {job : Job Fn}
    {progress : Progress R} (uncancelled : awaited.future ≠ .cancelled) :
    owes ledger awaited progress = yields ledger (some ⟨job, progress⟩) := by
  obtain ⟨hand, future, relayed⟩ := awaited
  cases future with
  | cancelled => exact absurd rfl uncancelled
  | _ =>
      cases progress with
      | returned result => cases result <;> rfl
      | _ => rfl

/-- What the calls return is what their pulls have taken when none of it went
to a call that was cancelled. -/
theorem Kept.produced (kept : Kept ledger state)
    (spared : Spared ledger state.calls state.drain) {call : Nat}
    (below : call < state.count) :
    state.produced ledger call = yields ledger (state.drain.tasks call) := by
  obtain ⟨awaited, is⟩ := kept.called call below
  obtain ⟨task, found, -⟩ := kept.carried call awaited is
  have nothing := spared call awaited task is found
  obtain ⟨job, progress⟩ := task
  obtain ⟨hand, future, relayed⟩ := awaited
  rw [Awaiting.produced, is, found]
  cases future with
  | cancelled => exact (yields_of_not_took (nothing rfl)).symm
  | pending => exact owes_of_uncancelled nofun
  | done answer => exact owes_of_uncancelled nofun

theorem Kept.lossless (kept : Kept ledger state)
    (spared : Spared ledger state.calls state.drain) :
    state.Lossless ledger := by
  refine ⟨spared, ?_, kept.carried⟩
  rw [← kept.order]
  congr 1
  apply List.flatMap_congr
  intro call member
  exact kept.produced spared (List.mem_range.mp member)

/-- A step that is not allowed loses what it should have spared. -/
theorem loses {label : Label Fn Arrival}
    (step : state.next source ledger label = some last)
    (wrong : ¬Spares ledger state label) : ¬last.Lossless ledger := by
  intro lossless
  cases label with
  | cancel call =>
      simp only [Spares, not_forall, not_not] at wrong
      obtain ⟨task, found, took⟩ := wrong
      simp only [next] at step
      split at step
      · next hand relayed _ =>
          obtain ⟨-, same⟩ := Option.ite_none_left_eq_some.mp step
          obtain rfl := Option.some.inj same
          exact lossless.spared call _ task (Function.update_self _ _ _)
            found rfl took
      · cases step
  | poll call pollStep =>
      cases pollStep with
      | use =>
          simp only [Spares, not_forall] at wrong
          obtain ⟨awaited, function, handle, result, rest, is, cancelled,
            holding, slot, taken, some⟩ := wrong
          simp only [next] at step
          split at step
          · obtain ⟨drain, used, rfl⟩ := Option.map_eq_some_iff.mp step
            simp only [PollStep.label, Drain.next, holding, Drain.use, slot,
              taken] at used
            obtain rfl := Option.some.inj used
            exact lossless.spared call awaited _ is
              (Function.update_self _ _ _) cancelled ⟨result, rfl, some⟩
          · cases step
      | _ => exact wrong trivial
  | _ => exact wrong trivial

/-- The calls return the stream when what a cancelled call would take stays
there, and otherwise it is lost. -/
theorem lossless_guarded (ledger : Ledger source Item) (handle : H) :
    (system ledger handle).Guards (Spares ledger) (Lossless ledger) where
  enough state reachable := by
    have invariant : ((system ledger handle).restrict
        (Spares ledger)).Invariant fun state =>
          Kept ledger state ∧ Spared ledger state.calls state.drain := by
      apply ((kept_invariant ledger handle).restrict _).strengthen
      · rintro _ rfl call awaited task called
        cases called
      · intro state label next kept spared step
        exact kept.spares spared step.2 step.1
    obtain ⟨kept, spared⟩ := invariant.reachable reachable
    exact kept.lossless spared
  needed state label next _ step wrong := .now (loses step wrong)

end Kept

section Handles

variable {Update Error : Type}

theorem fill_held (room : Nat) (monitor : Monitor Update Error) :
    monitor.held.reduceOption = (monitor.fill room).1.map .ok ++
      (monitor.fill room).2.held.reduceOption := by
  induction room generalizing monitor with
  | zero => rfl
  | succ room induction =>
      rw [Monitor.fill]
      cases taken : monitor.tryNext with
      | none => rfl
      | some found =>
          obtain ⟨item, rest⟩ := found
          obtain ⟨empty, -, front | ⟨nothing, -, rfl, rfl⟩⟩ :=
            Monitor.next_some taken
          · rw [front]
            rcases item with - | error | update
            · rw [Monitor.held_stash empty]
              rfl
            · rw [Monitor.held_stash empty]
              rfl
            · rw [List.reduceOption_cons_of_some, induction rest]
              rfl
          · rw [Monitor.held_stash empty, nothing]
            rfl

/-- A receive gives what it takes, and the end of the stream gives nothing. -/
theorem receive_held {monitor rest : Monitor Update Error}
    {function : Receive} {result : Option (Received Update Error)}
    (taken : monitor.receive function = some (result, rest)) :
    monitor.held.reduceOption =
      result.toList.flatMap (fun received => received.items.reduceOption) ++
        rest.held.reduceOption := by
  have first {item : StreamItem Update Error}
      {behind : Monitor Update Error}
      (found : monitor.next = some (item, behind)) :
      monitor.held.reduceOption =
        item.toList ++ behind.held.reduceOption := by
    obtain ⟨-, -, front | ⟨nothing, -, rfl, rfl⟩⟩ := Monitor.next_some found
    · rw [front]
      cases item <;> rfl
    · rfl
  have single (item : StreamItem Update Error) :
      (Received.ofItem item).toList.flatMap
        (fun received => received.items.reduceOption) = item.toList := by
    rcases item with - | error | update <;> rfl
  cases function with
  | recv =>
      obtain ⟨⟨item, behind⟩, found, ⟨⟩⟩ := Option.map_eq_some_iff.mp taken
      rw [single]
      exact first found
  | recvBatch maxItems =>
      obtain ⟨⟨item, behind⟩, found, same⟩ := Option.map_eq_some_iff.mp taken
      rw [first found]
      rcases item with - | error | update
      · cases same
        rfl
      · cases same
        rfl
      · cases same
        rw [fill_held (batchCap maxItems - 1) behind]
        simp [Received.items, List.reduceOption]

/-- The items of a subscription are its updates and errors. -/
def subscriptionLedger (Update Error : Type) :
    Ledger (subscriptionSource Update Error) (Except Error Update) where
  content monitor := monitor.held.reduceOption
  gives result :=
    result.toList.flatMap fun received => received.items.reduceOption
  brings
    | some item, monitor => if monitor.handle.ended then [] else [item]
    | none, _ => []
  taken := receive_held
  arrives
    | none, monitor => by
        rw [List.append_nil]
        rfl
    | some item, monitor => by
        simp only [subscriptionSource]
        split
        · rw [List.append_nil]
        · rw [Monitor.held_push, List.reduceOption_append]
          rfl

/-- What the channel tells its listeners. -/
inductive RsConnectionEvent where
  | connected
  | disconnected
  | accessRightsChanged (read write : Bool)
  | nativeTypeChanged (current : Nat)

inductive EventKind where
  | connected
  | disconnected
  | accessRights
  | typeChanged
  | lagged
  deriving DecidableEq

structure ConnectionEvent where
  kind : EventKind
  read : Option Bool
  write : Option Bool
  dbr : Option Nat
  deriving DecidableEq

/-- An event, the notice that the listener fell behind by so many events, or
the end. -/
def ConnectionEvent.fromRs :
    StreamItem RsConnectionEvent Nat → Option ConnectionEvent
  | some (.ok .connected) => some ⟨.connected, none, none, none⟩
  | some (.ok .disconnected) => some ⟨.disconnected, none, none, none⟩
  | some (.ok (.accessRightsChanged read write)) =>
      some ⟨.accessRights, some read, some write, none⟩
  | some (.ok (.nativeTypeChanged current)) =>
      some ⟨.typeChanged, none, none, some current⟩
  | some (.error _) => some ⟨.lagged, none, none, none⟩
  | none => none

/-- The events of a channel, with the notices among them. -/
def eventsSource :
    Source (MonitorHandle RsConnectionEvent Nat) Unit ConnectionEvent
      (StreamItem RsConnectionEvent Nat) where
  poll _ handle :=
    handle.recv.map fun taken => (ConnectionEvent.fromRs taken.1, taken.2)
  arrive
    | some item, handle =>
        if handle.ended then handle
        else { handle with queue := handle.queue ++ [item] }
    | none, handle => { handle with ended := true }

def eventsLedger : Ledger eventsSource ConnectionEvent where
  content handle :=
    handle.queue.flatMap fun item =>
      (ConnectionEvent.fromRs (some item)).toList
  gives := Option.toList
  brings
    | some item, handle =>
        if handle.ended then [] else
          (ConnectionEvent.fromRs (some item)).toList
    | none, _ => []
  taken {_ handle _ _} polled := by
    obtain ⟨queue, ended⟩ := handle
    obtain ⟨⟨item, rest⟩, found, ⟨⟩⟩ := Option.map_eq_some_iff.mp polled
    cases queue with
    | cons first queue =>
        cases found
        rfl
    | nil =>
        cases ended with
        | false => cases found
        | true =>
            cases found
            rfl
  arrives
    | none, handle => by
        rw [List.append_nil]
        rfl
    | some item, handle => by
        simp only [eventsSource]
        split
        · rw [List.append_nil]
        · rw [List.flatMap_append, List.flatMap_singleton]

/-- An awaited receive that is cancelled loses nothing as long as it has taken
nothing when it is cancelled and takes nothing after it. -/
theorem cancelled_loses_nothing (monitor : Monitor Update Error)
    (events : MonitorHandle RsConnectionEvent Nat) :
    (system (subscriptionLedger Update Error) monitor).Guards
        (Spares (subscriptionLedger Update Error))
        (Lossless (subscriptionLedger Update Error)) ∧
      (system eventsLedger events).Guards (Spares eventsLedger)
        (Lossless eventsLedger) :=
  ⟨lossless_guarded _ monitor, lossless_guarded _ events⟩

/-- A receive is cancelled when the runtime has its item. -/
def cancelledWithItem : List (Label Receive (StreamItem Nat Unit)) :=
  [.call .recv, .poll 0 .token, .poll 0 .ask, .poll 0 .acquire,
    .poll 0 .use, .handOver, .arrive (some (.ok 7)), .poll 0 .use,
    .collect 0, .cancel 0, .post 0, .call .recv, .poll 1 .token,
    .poll 1 .ask, .poll 1 .acquire, .poll 1 .use]

theorem cancelledWithItem_possible :
    (cancelledWithItem.foldlM
      (fun state label => Awaiting.next state (subscriptionSource Nat Unit)
        (subscriptionLedger Nat Unit) label)
      (start (⟨⟨[], false⟩, none⟩ : Monitor Nat Unit) [])).isSome = true :=
  rfl

/-- The item is in nobody's hands and the next receive waits. -/
theorem cancelledWithItem_lost :
    ¬∀ state, (system (subscriptionLedger Nat Unit)
      ⟨⟨[], false⟩, none⟩).Reachable state →
        state.Lossless (subscriptionLedger Nat Unit) := by
  intro lossless
  have kept := lossless _ (.of_foldlM
    (show (system (subscriptionLedger Nat Unit)
      ⟨⟨[], false⟩, none⟩).init (start ⟨⟨[], false⟩, none⟩ []) from rfl)
    cancelledWithItem cancelledWithItem_possible)
  have lost : ([] : List (Except Unit Nat)) = [.ok 7] := kept.stream
  cases lost

end Handles

end Awaiting

end Repics.Ca
