import Repics.Lib.Transition
import Repics.Monitor.Dispatcher

/-!
# Closing from another thread

One subscription of a blocking front end, with its dispatcher thread and the
threads that call `close`, one statement at a time.  The closed check of
`_event`, the conversion, the assignment of `OPEN`, and the start of a hook or
of the callback are separate steps of the dispatcher thread, and so are the
check, the flip, and the removal of `close`.

`returned`, `late`, and `reclosed` are kept for the record: some `close` has
returned, a callback or a hook started after that, and a `close` that was
called after that found the subscription open.
-/

namespace Repics.Monitor

/-- The blocking front ends. -/
inductive Flavour where
  | ca
  | pva
  deriving DecidableEq

/-- The statement of `close` that comes next. -/
inductive ClosePc where
  | check
  | flip
  | remove
  | done
  deriving DecidableEq

/-- A call of `close`, and whether another one had returned before. -/
structure Closer where
  pc : ClosePc
  later : Bool

/-- The statement of the dispatcher thread that comes next.  While it closes
the subscription itself, `forced` is set where it removes a closed one too, and
`update` where there is an update to deliver afterwards. -/
inductive DispatcherPc where
  | idle
  | entered (kind : Kind)
  | checked (kind : Kind)
  | hooking
  | inHook
  | delivering
  | inCallback
  | closing (pc : ClosePc) (forced update : Bool)
  | dead
  deriving DecidableEq

/-- `pending` is what is left of a planned batch for the subscription, and
`queue` counts the callbacks that a work queue holds. -/
structure Threads where
  state : SubscriptionState
  registered : Bool
  pending : List Kind
  pc : DispatcherPc
  queue : Nat
  closers : List Closer
  returned : Bool
  late : Bool
  reclosed : Bool

/-- `dispatch` is one statement of the dispatcher thread; `raises` says what
the code of the subscription does there, if any runs. -/
inductive ThreadStep where
  | recv (planned : List Kind)
  | dispatch (raises : Bool)
  | worker
  | call
  | closer (index : Nat)
  deriving DecidableEq

namespace Threads

/-- A callback or a hook starts. -/
def start (threads : Threads) : Threads :=
  { threads with late := threads.late || threads.returned }

/-- One statement of `close`, or of `_mark_closed` and the removal after it
when `forced`. -/
def closeStatement (threads : Threads) (forced : Bool) :
    ClosePc → Threads × ClosePc
  | .check =>
      if threads.state = .closed then
        (threads, if forced then .remove else .done)
      else (threads, .flip)
  | .flip => ({ threads with state := .closed }, .remove)
  | .remove => ({ threads with registered := false }, .done)
  | .done => (threads, .done)

/-- What `_event` of the Channel Access subscriptions does after its closed
check. -/
def caApply (config : Config) (raises : Bool) (threads : Threads) :
    Kind → Threads
  | .value => { threads with pc := if raises then .dead else .delivering }
  | .error =>
      { threads with pc := if config.notify then .delivering else .idle }
  | .connectTimeout => { threads with pc := .delivering }
  | .connected => { threads with state := .opened, pc := .hooking }
  | .disconnected => { threads with pc := .hooking }
  | .accessRights => { threads with pc := .hooking }
  | .finished => { threads with pc := .closing .check true false }

/-- What `_event` of the pvAccess subscriptions does after its closed
check. -/
def pvaApply (config : Config) (raises : Bool) (threads : Threads) :
    Kind → Threads
  | .value => { threads with pc := if raises then .dead else .delivering }
  | .disconnected =>
      { threads with pc := if config.notify then .delivering else .idle }
  | .finished => { threads with pc := .closing .check false config.notify }
  | _ => { threads with pc := .idle }

variable (flavour : Flavour) (config : Config)

/-- `_event` after its closed check. -/
def eventStatement (raises : Bool) (threads : Threads) (kind : Kind) :
    Threads :=
  match flavour with
  | .ca => caApply config raises threads kind
  | .pva => pvaApply config raises threads kind

/-- `_deliver` starts the callback, or pushes it to the work queue of a
pvAccess subscription that has one. -/
def deliverStatement (raises : Bool) (threads : Threads) : Threads :=
  if flavour = .pva ∧ config.queued then
    if raises then { threads with pc := .dead }
    else { threads with queue := threads.queue + 1, pc := .idle }
  else { threads.start with pc := .inCallback }

/-- One statement of the dispatcher thread. -/
def dispatch (raises : Bool) (threads : Threads) : Option Threads :=
  match threads.pc with
  | .idle =>
      match threads.pending with
      | [] => none
      | kind :: pending =>
          some { threads with pending := pending, pc := .entered kind }
  | .entered kind =>
      some { threads with
        pc := if threads.state = .closed then .idle else .checked kind }
  | .checked kind => some (eventStatement flavour config raises threads kind)
  | .hooking => some { threads.start with pc := .inHook }
  | .inHook => some { threads with pc := if raises then .dead else .idle }
  | .delivering => some (deliverStatement flavour config raises threads)
  | .inCallback =>
      some { threads with
        pc := if flavour = .ca ∧ raises then .closing .check false false
          else .idle }
  | .closing .done _ update =>
      some { threads with pc := if update then .delivering else .idle }
  | .closing pc forced update =>
      let (closed, next) := threads.closeStatement forced pc
      some { closed with pc := .closing next forced update }
  | .dead => none

def next (threads : Threads) : ThreadStep → Option Threads
  | .recv planned =>
      if threads.pc = .idle ∧ threads.pending = [] ∧ threads.registered then
        some { threads with pending := planned }
      else none
  | .dispatch raises => dispatch flavour config raises threads
  | .worker =>
      if threads.queue = 0 then none
      else some { threads.start with queue := threads.queue - 1 }
  | .call =>
      some { threads with
        closers := threads.closers ++ [⟨.check, threads.returned⟩] }
  | .closer index =>
      match threads.closers[index]? with
      | none => none
      | some ⟨.done, _⟩ =>
          some { threads with
            closers := threads.closers.eraseIdx index, returned := true }
      | some ⟨pc, later⟩ =>
          let (closed, next) := threads.closeStatement false pc
          some { closed with
            closers := threads.closers.set index ⟨next, later⟩
            reclosed := threads.reclosed ||
              (later && decide (pc = .check ∧ threads.state ≠ .closed)) }

def fresh : Threads :=
  ⟨.opening, true, [], .idle, 0, [], false, false, false⟩

def system : Transition Threads ThreadStep :=
  .ofPartial (fun threads => threads = fresh) (next flavour config)

/-- No callback started after a `close` returned, the subscription is closed
since, and no later `close` had anything to do. -/
structure Quiet (threads : Threads) : Prop where
  silent : threads.late = false
  closed : threads.returned = true → threads.state = .closed
  idempotent : threads.reclosed = false

/-- After its closed check the dispatcher thread is on the way to the callback,
to a hook, or to the assignment of `OPEN`, unless a conversion raises. -/
def Committed : DispatcherPc → Prop
  | .checked .value => True
  | .checked .error => flavour = .ca ∧ config.notify
  | .checked .connectTimeout => flavour = .ca
  | .checked .connected => flavour = .ca
  | .checked .accessRights => flavour = .ca
  | .checked .disconnected => flavour = .ca ∨ config.notify
  | .checked .finished => flavour = .pva ∧ config.notify
  | .hooking => True
  | .delivering => True
  | .closing _ _ update => update
  | _ => False

/-- The subscription is closed, the dispatcher thread is not committed, and
the work queue holds no callback. -/
structure Settled (threads : Threads) : Prop where
  closed : threads.state = .closed
  free : ¬Committed flavour config threads.pc
  empty : threads.queue = 0

/-- A `close` returns into a settled subscription only. -/
def ReturnsSettled (threads : Threads) : ThreadStep → Prop
  | .closer index => ∀ later,
      threads.closers[index]? = some ⟨.done, later⟩ →
        threads.Settled flavour config
  | _ => True

variable {flavour : Flavour} {config : Config}

/-- A statement of the dispatcher thread does not touch the calls of `close`,
and starts at most a callback or a hook. -/
structure Frame (threads last : Threads) : Prop where
  closers : last.closers = threads.closers
  returned : last.returned = threads.returned
  reclosed : last.reclosed = threads.reclosed
  late : last.late = threads.late ∨ last.late = threads.start.late

theorem Frame.of_rfl (threads : Threads) (state : SubscriptionState)
    (registered : Bool) (pending : List Kind) (pc : DispatcherPc)
    (queue : Nat) :
    Frame threads { threads with
      state := state, registered := registered, pending := pending,
      pc := pc, queue := queue } :=
  ⟨rfl, rfl, rfl, .inl rfl⟩

theorem closeStatement_late (threads : Threads) (forced : Bool)
    (pc : ClosePc) :
    (threads.closeStatement forced pc).1.late = threads.late := by
  cases pc with
  | check =>
      simp only [closeStatement]
      split
      · rfl
      · rfl
  | _ => rfl

theorem closeStatement_frame (threads : Threads) (forced : Bool)
    (pc : ClosePc) :
    Frame threads (threads.closeStatement forced pc).1 := by
  cases pc with
  | check =>
      simp only [closeStatement]
      split
      · apply Frame.of_rfl
      · apply Frame.of_rfl
  | _ => apply Frame.of_rfl

theorem eventStatement_frame (raises : Bool) (threads : Threads)
    (kind : Kind) :
    Frame threads (eventStatement flavour config raises threads kind) := by
  cases flavour with
  | ca =>
      cases kind with
      | _ => apply Frame.of_rfl
  | pva =>
      cases kind with
      | _ => apply Frame.of_rfl

theorem deliverStatement_frame (raises : Bool) (threads : Threads) :
    Frame threads (deliverStatement flavour config raises threads) := by
  simp only [deliverStatement]
  split
  · split
    · apply Frame.of_rfl
    · apply Frame.of_rfl
  · exact ⟨rfl, rfl, rfl, .inr rfl⟩

theorem dispatch_frame {raises : Bool} {threads last : Threads}
    (step : dispatch flavour config raises threads = some last) :
    Frame threads last := by
  simp only [dispatch] at step
  split at step
  case h_1 =>
    split at step
    · simp at step
    · obtain rfl := Option.some.inj step
      apply Frame.of_rfl
  case h_3 kind _ =>
    obtain rfl := Option.some.inj step
    apply eventStatement_frame
  case h_4 =>
    obtain rfl := Option.some.inj step
    exact ⟨rfl, rfl, rfl, .inr rfl⟩
  case h_6 =>
    obtain rfl := Option.some.inj step
    apply deliverStatement_frame
  case h_9 pc forced update _ _ =>
    obtain rfl := Option.some.inj step
    obtain ⟨closers, returned, reclosed, late⟩ :=
      closeStatement_frame threads forced pc
    exact ⟨closers, returned, reclosed, late⟩
  case h_10 => simp at step
  all_goals
    obtain rfl := Option.some.inj step
    apply Frame.of_rfl

/-- The subscription stays settled, and nothing was started. -/
structure Silent (flavour : Flavour) (config : Config)
    (threads last : Threads) : Prop where
  settled : last.Settled flavour config
  late : last.late = threads.late

theorem closeStatement_silent {threads : Threads} (forced : Bool)
    (pc : ClosePc) (settled : threads.Settled flavour config) :
    Silent flavour config threads (threads.closeStatement forced pc).1 := by
  cases pc with
  | check =>
      simp only [closeStatement, settled.closed, if_true]
      exact ⟨settled, rfl⟩
  | flip => exact ⟨⟨rfl, settled.free, settled.empty⟩, rfl⟩
  | remove => exact ⟨⟨settled.closed, settled.free, settled.empty⟩, rfl⟩
  | done => exact ⟨settled, rfl⟩

theorem eventStatement_silent {threads : Threads} {kind : Kind}
    (raises : Bool) (settled : threads.Settled flavour config)
    (checked : threads.pc = .checked kind) :
    Silent flavour config threads
      (eventStatement flavour config raises threads kind) := by
  have free := settled.free
  rw [checked] at free
  have idle (pc : DispatcherPc) (other : ¬Committed flavour config pc) :
      Silent flavour config threads { threads with pc := pc } :=
    ⟨⟨settled.closed, other, settled.empty⟩, rfl⟩
  cases flavour with
  | ca =>
      cases kind with
      | error =>
          have quiet : config.notify = false := by simpa [Committed] using free
          simp only [eventStatement, caApply, quiet]
          apply idle
          simp [Committed]
      | finished =>
          apply idle
          simp [Committed]
      | _ => simp [Committed] at free
  | pva =>
      cases kind with
      | disconnected =>
          have quiet : config.notify = false := by simpa [Committed] using free
          simp only [eventStatement, pvaApply, quiet]
          apply idle
          simp [Committed]
      | finished =>
          apply idle
          simpa [Committed] using free
      | value => simp [Committed] at free
      | _ =>
          apply idle
          simp [Committed]

theorem dispatch_silent {raises : Bool} {threads last : Threads}
    (settled : threads.Settled flavour config)
    (step : dispatch flavour config raises threads = some last) :
    Silent flavour config threads last := by
  have free := settled.free
  have idle (pc : DispatcherPc) (pending : List Kind)
      (other : ¬Committed flavour config pc) :
      Silent flavour config threads
        { threads with pc := pc, pending := pending } :=
    ⟨⟨settled.closed, other, settled.empty⟩, rfl⟩
  simp only [dispatch] at step
  split at step
  case h_1 =>
    split at step
    · simp at step
    · obtain rfl := Option.some.inj step
      apply idle
      simp [Committed]
  case h_2 =>
    obtain rfl := Option.some.inj step
    apply idle
    simp [settled.closed, Committed]
  case h_3 kind checked =>
    obtain rfl := Option.some.inj step
    apply eventStatement_silent raises settled checked
  case h_4 hooking =>
    simp [hooking, Committed] at free
  case h_5 =>
    obtain rfl := Option.some.inj step
    apply idle
    cases raises with
    | _ => simp [Committed]
  case h_6 delivering =>
    simp [delivering, Committed] at free
  case h_7 =>
    obtain rfl := Option.some.inj step
    apply idle
    split
    · simp [Committed]
    · simp [Committed]
  case h_8 forced update closing =>
    obtain rfl := Option.some.inj step
    have nothing : update = false := by simpa [closing, Committed] using free
    apply idle
    simp [nothing, Committed]
  case h_9 pc forced update _ closing =>
    obtain rfl := Option.some.inj step
    obtain ⟨after, late⟩ := closeStatement_silent forced pc settled
    refine ⟨⟨after.closed, ?_, after.empty⟩, late⟩
    simpa [closing, Committed] using free
  case h_10 => simp at step

/-- What holds in every run whose calls of `close` return into a settled
subscription. -/
structure Orderly (flavour : Flavour) (config : Config) (threads : Threads) :
    Prop where
  silent : threads.late = false
  idempotent : threads.reclosed = false
  settled : threads.returned = true → threads.Settled flavour config
  callers : ∀ closer ∈ threads.closers, closer.later = true →
    threads.returned = true

theorem Orderly.quiet {threads : Threads}
    (orderly : threads.Orderly flavour config) : threads.Quiet :=
  ⟨orderly.silent, fun returned => (orderly.settled returned).closed,
    orderly.idempotent⟩

theorem start_late {threads : Threads} (silent : threads.late = false)
    (running : threads.returned = false) : threads.start.late = false := by
  simp [start, silent, running]

namespace Orderly

theorem dispatch {raises : Bool} {threads last : Threads}
    (orderly : threads.Orderly flavour config)
    (step : threads.dispatch flavour config raises = some last) :
    last.Orderly flavour config := by
  obtain ⟨closers, returned, reclosed, late⟩ := dispatch_frame step
  have callers : ∀ closer ∈ last.closers, closer.later = true →
      last.returned = true := by
    rw [closers, returned]
    exact orderly.callers
  have idempotent := reclosed.trans orderly.idempotent
  cases ended : threads.returned with
  | true =>
      obtain ⟨settled, same⟩ :=
        dispatch_silent (orderly.settled ended) step
      exact ⟨same.trans orderly.silent, idempotent, fun _ => settled,
        callers⟩
  | false =>
      refine ⟨?_, idempotent, ?_, callers⟩
      · rcases late with same | started
        · exact same.trans orderly.silent
        · exact started.trans (start_late orderly.silent ended)
      · intro isReturned
        simp [returned, ended] at isReturned

theorem worker {threads last : Threads}
    (orderly : threads.Orderly flavour config)
    (step : threads.next flavour config .worker = some last) :
    last.Orderly flavour config := by
  simp only [next] at step
  split at step
  case isTrue => simp at step
  case isFalse holds =>
    obtain rfl := Option.some.inj step
    have running : threads.returned = false := by
      cases ended : threads.returned with
      | true => exact (holds (orderly.settled ended).empty).elim
      | false => rfl
    refine ⟨start_late orderly.silent running, orderly.idempotent, ?_,
      orderly.callers⟩
    intro returned
    simp [start, running] at returned

theorem closer {index : Nat} {threads last : Threads}
    (orderly : threads.Orderly flavour config)
    (step : threads.next flavour config (.closer index) = some last)
    (settled : threads.ReturnsSettled flavour config (.closer index)) :
    last.Orderly flavour config := by
  simp only [next] at step
  split at step
  case h_1 => simp at step
  case h_2 later found =>
    obtain rfl := Option.some.inj step
    obtain ⟨closed, free, empty⟩ := settled later found
    refine ⟨orderly.silent, orderly.idempotent,
      fun _ => ⟨closed, free, empty⟩, ?_⟩
    intro closer _ _
    rfl
  case h_3 pc later _ found =>
    obtain rfl := Option.some.inj step
    obtain ⟨_, returned, _, _⟩ := closeStatement_frame threads false pc
    have member := List.mem_of_getElem? found
    constructor
    case silent =>
      apply (closeStatement_late threads false pc).trans orderly.silent
    case idempotent =>
      simp only [orderly.idempotent, Bool.false_or]
      cases isLater : later with
      | false => rfl
      | true =>
          have ended := orderly.callers _ member isLater
          simp [(orderly.settled ended).closed]
    case settled =>
      intro ended
      have after := closeStatement_silent false pc
        (orderly.settled (returned ▸ ended))
      exact ⟨after.settled.closed, after.settled.free, after.settled.empty⟩
    case callers =>
      intro closer inside isLater
      rw [returned]
      rcases List.mem_or_eq_of_mem_set inside with old | new
      · exact orderly.callers closer old isLater
      · rw [new] at isLater
        exact orderly.callers _ member isLater

theorem invariant : ((system flavour config).restrict
    (ReturnsSettled flavour config)).Invariant (Orderly flavour config) where
  initial := by
    intro threads start
    rw [start]
    exact ⟨rfl, rfl, by simp [fresh], by simp [fresh]⟩
  preserved := by
    intro threads label last orderly step
    obtain ⟨step, settled⟩ := step
    cases label with
    | recv planned =>
        simp only [system, Transition.ofPartial, next] at step
        split at step
        case isFalse => simp at step
        case isTrue =>
          obtain rfl := Option.some.inj step
          refine ⟨orderly.silent, orderly.idempotent, ?_, orderly.callers⟩
          intro ended
          obtain ⟨closed, free, empty⟩ := orderly.settled ended
          exact ⟨closed, free, empty⟩
    | dispatch raises => apply orderly.dispatch step
    | worker => apply orderly.worker step
    | call =>
        obtain rfl := Option.some.inj step
        refine ⟨orderly.silent, orderly.idempotent, ?_, ?_⟩
        · intro ended
          obtain ⟨closed, free, empty⟩ := orderly.settled ended
          exact ⟨closed, free, empty⟩
        · intro closer member isLater
          rcases List.mem_append.mp member with old | new
          · exact orderly.callers closer old isLater
          · obtain rfl := List.mem_singleton.mp new
            exact isLater
    | closer index => apply orderly.closer step settled

end Orderly

/-- From here on something may still break what `close` promises. -/
def Breaks (flavour : Flavour) (config : Config) (threads : Threads) : Prop :=
  (system flavour config).Breakable Quiet threads

namespace Breaks

theorem queued {threads : Threads} (returned : threads.returned = true)
    (holds : threads.queue ≠ 0) : Breaks flavour config threads := by
  apply Transition.Breakable.step .worker
  · simp only [next, if_neg holds]
    rfl
  · apply Transition.Breakable.now
    intro quiet
    have silent := quiet.silent
    simp [start, returned] at silent

theorem hooking {threads : Threads} (returned : threads.returned = true)
    (pc : threads.pc = .hooking) : Breaks flavour config threads := by
  apply Transition.Breakable.step (.dispatch false)
  · simp only [next, Threads.dispatch, pc]
    rfl
  · apply Transition.Breakable.now
    intro quiet
    have silent := quiet.silent
    simp [start, returned] at silent

theorem delivering {threads : Threads} (returned : threads.returned = true)
    (pc : threads.pc = .delivering) : Breaks flavour config threads := by
  apply Transition.Breakable.step (.dispatch false)
  · simp only [next, Threads.dispatch, pc]
    rfl
  · by_cases queue : flavour = .pva ∧ config.queued
    · apply queued
      · simp [deliverStatement, queue, returned]
      · simp [deliverStatement, queue]
    · apply Transition.Breakable.now
      intro quiet
      have silent := quiet.silent
      simp [deliverStatement, queue, start, returned] at silent

theorem closing {threads : Threads} {pc : ClosePc} {forced : Bool}
    (returned : threads.returned = true)
    (at_ : threads.pc = .closing pc forced true) :
    Breaks flavour config threads := by
  have done {threads : Threads} (returned : threads.returned = true)
      (at_ : threads.pc = .closing .done forced true) :
      Breaks flavour config threads := by
    apply Transition.Breakable.step (.dispatch false)
    · simp only [next, Threads.dispatch, at_]
      rfl
    · apply delivering
      · exact returned
      · rfl
  have remove {threads : Threads} (returned : threads.returned = true)
      (at_ : threads.pc = .closing .remove forced true) :
      Breaks flavour config threads := by
    apply Transition.Breakable.step (.dispatch false)
    · simp only [next, Threads.dispatch, at_]
      rfl
    · apply done
      · exact returned
      · rfl
  have flip {threads : Threads} (returned : threads.returned = true)
      (at_ : threads.pc = .closing .flip forced true) :
      Breaks flavour config threads := by
    apply Transition.Breakable.step (.dispatch false)
    · simp only [next, Threads.dispatch, at_]
      rfl
    · apply remove
      · exact returned
      · rfl
  cases pc with
  | check =>
      apply Transition.Breakable.step (.dispatch false)
      · simp only [next, Threads.dispatch, at_]
        rfl
      · by_cases closed : threads.state = .closed
        · cases forced with
          | true =>
              apply remove
              · simpa [closeStatement, closed] using returned
              · simp [closeStatement, closed]
          | false =>
              apply done
              · simpa [closeStatement, closed] using returned
              · simp [closeStatement, closed]
        · apply flip
          · simpa [closeStatement, closed] using returned
          · simp [closeStatement, closed]
  | flip => apply flip returned at_
  | remove => apply remove returned at_
  | done => apply done returned at_

theorem checked {threads : Threads} {kind : Kind}
    (returned : threads.returned = true)
    (checked : threads.pc = .checked kind)
    (committed : Committed flavour config (.checked kind)) :
    Breaks flavour config threads := by
  apply Transition.Breakable.step (.dispatch false)
  · simp only [next, Threads.dispatch, checked]
    rfl
  have after := (@eventStatement_frame flavour config false threads
    kind).returned.trans returned
  cases flavour with
  | ca =>
      cases kind with
      | value => apply delivering after rfl
      | error =>
          have notify : config.notify = true := by
            simpa [Committed] using committed
          apply delivering after
          simp [eventStatement, caApply, notify]
      | connectTimeout => apply delivering after rfl
      | connected => apply hooking after rfl
      | disconnected => apply hooking after rfl
      | accessRights => apply hooking after rfl
      | finished => simp [Committed] at committed
  | pva =>
      cases kind with
      | value => apply delivering after rfl
      | disconnected =>
          have notify : config.notify = true := by
            simpa [Committed] using committed
          apply delivering after
          simp [eventStatement, pvaApply, notify]
      | finished =>
          have notify : config.notify = true := by
            simpa [Committed] using committed
          have ending : (eventStatement .pva config false threads
              .finished).pc = .closing .check false true := by
            simp only [eventStatement, pvaApply, notify]
          apply closing after ending
      | _ => simp [Committed] at committed

theorem committed {threads : Threads} (returned : threads.returned = true)
    (committed : Committed flavour config threads.pc) :
    Breaks flavour config threads := by
  cases pc : threads.pc with
  | checked kind =>
      rw [pc] at committed
      apply checked returned pc committed
  | hooking => apply hooking returned pc
  | delivering => apply delivering returned pc
  | closing at_ forced update =>
      obtain rfl : update = true := by simpa [pc, Committed] using committed
      apply closing returned pc
  | _ => simp [pc, Committed] at committed

theorem early_return {threads last : Threads} {index : Nat}
    (step : threads.next flavour config (.closer index) = some last)
    (early : ¬threads.ReturnsSettled flavour config (.closer index)) :
    Breaks flavour config last := by
  simp only [ReturnsSettled, not_forall] at early
  obtain ⟨later, found, unsettled⟩ := early
  simp only [next, found] at step
  obtain rfl := Option.some.inj step
  by_cases closed : threads.state = .closed
  · by_cases free : Committed flavour config threads.pc
    · apply Breaks.committed
      · rfl
      · exact free
    · apply queued
      · rfl
      · intro empty
        exact unsettled ⟨closed, free, empty⟩
  · apply Transition.Breakable.now
    intro quiet
    exact closed (quiet.closed rfl)

end Breaks

/-- Nothing follows a `close`, and it is final, in every run whose calls of
`close` return into a settled subscription; after a return into one that is
not settled the promise can be broken. -/
theorem close_is_final (flavour : Flavour) (config : Config) :
    (system flavour config).Guards (ReturnsSettled flavour config) Quiet where
  enough threads reachable := (Orderly.invariant.reachable reachable).quiet
  needed threads label last _ step early := by
    cases label with
    | closer index => apply Breaks.early_return step early
    | _ => exact (early trivial).elim

/-- `close`, called and run to its end, while the dispatcher thread waits. -/
def closeRun : List ThreadStep :=
  [.call, .closer 0, .closer 0, .closer 0, .closer 0]

def after (flavour : Flavour) (config : Config) (labels : List ThreadStep) :
    Threads :=
  (labels.foldlM (next flavour config) fresh).getD fresh

def plain : Config :=
  ⟨true, false, false⟩

/-- An update is delivered, and then the subscription is closed. -/
def served : List ThreadStep :=
  [.recv [.value], .dispatch false, .dispatch false, .dispatch false,
    .dispatch false, .dispatch false] ++ closeRun

theorem close_is_final_served : (after .ca plain served).Quiet := by
  apply (close_is_final .ca plain).enough
  refine ⟨fresh, served, rfl, ?_⟩
  have early {threads : Threads} {pc : ClosePc} {later : Bool}
      (found : threads.closers[0]? = some ⟨pc, later⟩) (other : pc ≠ .done) :
      threads.ReturnsSettled .ca plain (.closer 0) := by
    intro later done
    rw [found] at done
    simp [other] at done
  refine .restrict_cons rfl trivial (.restrict_cons rfl trivial
    (.restrict_cons rfl trivial (.restrict_cons rfl trivial
    (.restrict_cons rfl trivial (.restrict_cons rfl trivial
    (.restrict_cons rfl trivial (.restrict_cons rfl ?_
    (.restrict_cons rfl ?_ (.restrict_cons rfl ?_
    (.restrict_cons rfl ?_ (.nil _)))))))))))
  · exact @early _ .check false rfl (by simp)
  · exact @early _ .flip false rfl (by simp)
  · exact @early _ .remove false rfl (by simp)
  · intro later found
    exact ⟨rfl, id, rfl⟩

/-- The closed check of `_event` is passed, then `close` runs to its end, and
then the dispatcher thread goes on, through two more statements. -/
def overtaken (kind : Kind) : List ThreadStep :=
  [.recv [kind], .dispatch false, .dispatch false] ++ closeRun ++
    [.dispatch false, .dispatch false]

/-- The same, and another `close` looks at the state. -/
def closedAgain (kind : Kind) : List ThreadStep :=
  overtaken kind ++ [.call, .closer 0]

/-- A callback starts after `close` has returned, and on Channel Access a
subscription that was closed is open again, so that another `close` has
something to do. -/
theorem callback_after_close :
    (system .pva plain).Run fresh (overtaken .value)
        (after .pva plain (overtaken .value)) ∧
      (after .pva plain (overtaken .value)).late = true ∧
      (system .ca plain).Run fresh (overtaken .value)
        (after .ca plain (overtaken .value)) ∧
      (after .ca plain (overtaken .value)).late = true ∧
      (system .ca plain).Run fresh (closedAgain .connected)
        (after .ca plain (closedAgain .connected)) ∧
      (after .ca plain (closedAgain .connected)).state = .opened ∧
      (after .ca plain (closedAgain .connected)).reclosed = true := by
  refine ⟨?_, rfl, ?_, rfl, ?_, rfl, rfl⟩
  · apply Transition.Run.of_foldlM rfl
  · apply Transition.Run.of_foldlM rfl
  · apply Transition.Run.of_foldlM rfl

end Threads

end Repics.Monitor
