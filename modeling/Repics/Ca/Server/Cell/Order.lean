import Repics.Ca.Server.Cell.Shape

/-!
# The order of the calls on a PV

The calls on a PV take effect in an order in which a sequential cell with an
optional value gives the same answers.  A call that has the state mutex takes
effect when it stores the new state or finds out that it must not.  A call
that uses a database cell without the mutex takes effect when it sets or gets
the cell, if the cell is still served; otherwise it takes effect just before
the `close` that took the cell away, which began before the call was over.
-/

namespace Repics.Ca.Server.Cell

open Linearization

variable {Value Context Done : Type}

/-- The closers of the cells after a call: only the cell that was served can
get a new one. -/
def closersAfter {Value : Type} (state : ValueState Value)
    (closers : Nat → Nat) (id : Nat) : Nat → Nat :=
  match state with
  | .serving pv => Function.update closers pv id
  | _ => closers

namespace State

variable {entry : Nat} {state next : State Value Context Done}

/-- The calls in the order in which they take effect.  A call may use a cell
that is served no more; then it takes effect in the gap before the `close`
that took the cell away. -/
structure Ordered (entry : Nat) (state : State Value Context Done)
    (order : List (Entry (Method Value) (Answer Value)))
    (closers : Nat → Nat) : Prop where
  explains : Explains Sequential none state.history order
    (state.world.current entry)
  waiting : ∀ id op, (state.stages id).op = some op →
    Waiting state.history order id op
  idle : ∀ id, state.stages id = .idle →
    (∀ op, Event.invoke id op ∉ state.history) ∧
      ¬Responded state.history id
  answered : ∀ id op answer, state.stages id = .answered op answer →
    Entry.mk id op answer ∈ order ∧ ¬Responded state.history id
  gaps : ∀ id pv, (state.stages id).cell = some pv →
    (state.world.entries entry).state = .serving pv ∨
      Gap Sequential none state.history order (closers pv)
        (state.world.pvs pv) fun call => (state.stages call).cell = some pv
  distinct : ∀ id pv other pv', (state.stages id).cell = some pv →
    (state.stages other).cell = some pv' →
    (state.world.entries entry).state ≠ .serving pv →
    (state.world.entries entry).state ≠ .serving pv' →
    closers pv = closers pv' → pv = pv'

namespace Ordered

variable {order : List (Entry (Method Value) (Answer Value))}
variable {closers : Nat → Nat}

theorem current_serving {world : World Value} {pv : Nat}
    (serving : (world.entries entry).state = .serving pv) :
    world.current entry = world.pvs pv := by
  simp [World.current, serving]

/-- A step after which nobody can see a difference, except where the call
is. -/
theorem silent (ordered : state.Ordered entry order closers) {id : Nat}
    {stage : Stage Value} {op : Method Value}
    (stages : next.stages = Function.update state.stages id stage)
    (history : next.history = state.history)
    (before : (state.stages id).op = some op) (after : stage.op = some op)
    (same : (next.world.entries entry).state =
      (state.world.entries entry).state)
    (pvs : ∀ pv, state.Exists pv → next.world.pvs pv = state.world.pvs pv)
    (shaped : state.Shaped entry)
    (cell : ∀ pv, stage.cell = some pv →
      (state.world.entries entry).state = .serving pv) :
    next.Ordered entry order closers := by
  have uses : ∀ call pv, (next.stages call).cell = some pv →
      (state.stages call).cell = some pv ∨
        (state.world.entries entry).state = .serving pv := by
    intro call pv uses
    by_cases mine : call = id
    · subst mine
      rw [stages, Function.update_self] at uses
      exact .inr (cell pv uses)
    · rw [stages, Function.update_of_ne mine] at uses
      exact .inl uses
  have current : next.world.current entry = state.world.current entry := by
    simp only [World.current, same]
    cases now : (state.world.entries entry).state with
    | serving pv => exact pvs pv (shaped.served pv now)
    | _ => rfl
  constructor
  · rw [history, current]
    exact ordered.explains
  · intro call op' pending
    rw [history]
    by_cases mine : call = id
    · subst mine
      rw [stages, Function.update_self, after] at pending
      exact ordered.waiting call op' (before.trans pending)
    · rw [stages, Function.update_of_ne mine] at pending
      exact ordered.waiting call op' pending
  · intro call idle
    rw [history]
    by_cases mine : call = id
    · subst mine
      rw [stages, Function.update_self] at idle
      simp [idle, Stage.op] at after
    · rw [stages, Function.update_of_ne mine] at idle
      exact ordered.idle call idle
  · intro call op' answer answered
    rw [history]
    by_cases mine : call = id
    · subst mine
      rw [stages, Function.update_self] at answered
      simp [answered, Stage.op] at after
    · rw [stages, Function.update_of_ne mine] at answered
      exact ordered.answered call op' answer answered
  · intro call pv used
    rw [same, history]
    by_cases serving : (state.world.entries entry).state = .serving pv
    · exact .inl serving
    · right
      have old := (uses call pv used).resolve_right serving
      rw [pvs pv (shaped.touched call pv old)]
      apply ((ordered.gaps call pv old).resolve_left serving).mono
      intro other use
      exact (uses other pv use).resolve_right serving
  · intro call pv other pv' used used' unserved unserved' closer
    rw [same] at unserved unserved'
    exact ordered.distinct call pv other pv'
      ((uses call pv used).resolve_right unserved)
      ((uses other pv' used').resolve_right unserved') unserved unserved'
      closer

theorem settle (ordered : state.Ordered entry order closers) {id : Nat}
    {op : Method Value} {answer : Answer Value}
    {order' : List (Entry (Method Value) (Answer Value))}
    {closers' : Nat → Nat}
    (stages : next.stages =
      Function.update state.stages id (.answered op answer))
    (history : next.history = state.history)
    (before : (state.stages id).op = some op)
    (members : ∀ other, other ∈ order' ↔
      other ∈ order ∨ other = Entry.mk id op answer)
    (explains : Explains Sequential none state.history order'
      (next.world.current entry))
    (gaps : ∀ other pv, other ≠ id → (state.stages other).cell = some pv →
      (next.world.entries entry).state ≠ .serving pv →
      Gap Sequential none state.history order' (closers' pv)
        (next.world.pvs pv) fun call => (state.stages call).cell = some pv)
    (distinct : ∀ first pv second pv', (state.stages first).cell = some pv →
      (state.stages second).cell = some pv' →
      (next.world.entries entry).state ≠ .serving pv →
      (next.world.entries entry).state ≠ .serving pv' →
      closers' pv = closers' pv' → pv = pv') :
    next.Ordered entry order' closers' := by
  have cells : ∀ call pv, (next.stages call).cell = some pv →
      call ≠ id ∧ (state.stages call).cell = some pv := by
    intro call pv uses
    by_cases mine : call = id
    · subst mine
      simp [stages, Stage.cell] at uses
    · rw [stages, Function.update_of_ne mine] at uses
      exact ⟨mine, uses⟩
  constructor
  · rw [history]
    exact explains
  · intro call op' pending
    by_cases mine : call = id
    · subst mine
      simp [stages, Stage.op] at pending
    · rw [stages, Function.update_of_ne mine] at pending
      have waiting := ordered.waiting call op' pending
      rw [history]
      refine ⟨waiting.invoked, waiting.silent, ?_⟩
      intro other member
      rcases (members other).mp member with old | new
      · exact waiting.absent other old
      · subst new
        exact fun same => mine same.symm
  · intro call idle
    rw [history]
    by_cases mine : call = id
    · subst mine
      simp [stages] at idle
    · rw [stages, Function.update_of_ne mine] at idle
      exact ordered.idle call idle
  · intro call op' answer' answered
    rw [history]
    by_cases mine : call = id
    · subst mine
      rw [stages, Function.update_self] at answered
      obtain ⟨rfl, rfl⟩ := Stage.answered.inj answered
      exact ⟨(members _).mpr (.inr rfl),
        (ordered.waiting call _ before).silent⟩
    · rw [stages, Function.update_of_ne mine] at answered
      obtain ⟨member, silent⟩ := ordered.answered call op' answer' answered
      exact ⟨(members _).mpr (.inl member), silent⟩
  · intro call pv uses
    obtain ⟨apart, used⟩ := cells call pv uses
    by_cases serving : (next.world.entries entry).state = .serving pv
    · exact .inl serving
    · right
      rw [history]
      apply (gaps call pv apart used serving).mono
      intro other use
      exact (cells other pv use).2
  · intro first pv second pv' uses uses' unserved unserved' closer
    exact distinct first pv second pv' (cells first pv uses).2
      (cells second pv' uses').2 unserved unserved' closer

theorem commit (ordered : state.Ordered entry order closers) {id : Nat}
    {op : Method Value} {answer : Answer Value}
    (stages : next.stages =
      Function.update state.stages id (.answered op answer))
    (history : next.history = state.history)
    (before : (state.stages id).op = some op)
    (allowed : Sequential (state.world.current entry) op answer
      (next.world.current entry))
    (cells : ∀ other pv, other ≠ id → (state.stages other).cell = some pv →
      (next.world.entries entry).state = .serving pv ∨
        ((state.world.entries entry).state ≠ .serving pv ∨
          op = .close ∧ answer = .done) ∧
        next.world.pvs pv = state.world.pvs pv) :
    ∃ order' closers', next.Ordered entry order' closers' := by
  have waiting := ordered.waiting id op before
  have explains : Explains Sequential none state.history
      (order ++ [⟨id, op, answer⟩]) (next.world.current entry) :=
    ordered.explains.commit waiting allowed
  have members : ∀ other, other ∈ order ++ [⟨id, op, answer⟩] ↔
      other ∈ order ∨ other = Entry.mk id op answer := by simp
  let closers' := closersAfter (state.world.entries entry).state closers id
  have fresh : ∀ pv, (state.world.entries entry).state = .serving pv →
      closers' pv = id := by
    intro pv serving
    simp [closers', closersAfter, serving]
  have old : ∀ pv, (state.world.entries entry).state ≠ .serving pv →
      closers' pv = closers pv := by
    intro pv unserved
    cases now : (state.world.entries entry).state with
    | serving other =>
        have apart : pv ≠ other := by
          intro same
          exact unserved (same ▸ now)
        simp [closers', closersAfter, now, apart]
    | _ => simp [closers', closersAfter, now]
  have absent : ∀ call pv, (state.stages call).cell = some pv →
      (state.world.entries entry).state ≠ .serving pv →
      closers pv ≠ id := by
    intro call pv uses unserved same
    have gap := (ordered.gaps call pv uses).resolve_left unserved
    obtain ⟨other, member, closer⟩ := gap.member
    exact waiting.absent other member (closer.trans same)
  refine ⟨_, closers', ordered.settle stages history before members explains
    ?_ ?_⟩
  · intro other pv apart uses unserved
    obtain ⟨closes, same⟩ :=
      (cells other pv apart uses).resolve_left unserved
    rw [same]
    by_cases serving : (state.world.entries entry).state = .serving pv
    · obtain ⟨rfl, rfl⟩ := closes.resolve_left (not_not_intro serving)
      rw [fresh pv serving, ← current_serving serving]
      refine Gap.make ordered.explains ?_ waiting.silent
      intro cell last closed other
      cases closed
      exact .closed other
    · rw [old pv serving]
      have gap := (ordered.gaps other pv uses).resolve_left serving
      exact gap.commit waiting.silent
  · intro first pv second pv' uses uses' _ _ closer
    by_cases serving : (state.world.entries entry).state = .serving pv
    · by_cases serving' : (state.world.entries entry).state = .serving pv'
      · exact ValueState.serving.inj (serving.symm.trans serving')
      · rw [fresh pv serving, old pv' serving'] at closer
        exact absurd closer.symm (absent second pv' uses' serving')
    · by_cases serving' : (state.world.entries entry).state = .serving pv'
      · rw [old pv serving, fresh pv' serving'] at closer
        exact absurd closer (absent first pv uses serving)
      · rw [old pv serving, old pv' serving'] at closer
        exact ordered.distinct first pv second pv' uses uses' serving
          serving' closer

theorem stale (ordered : state.Ordered entry order closers) {id pv : Nat}
    {op : Method Value} {answer : Answer Value}
    (stages : next.stages =
      Function.update state.stages id (.answered op answer))
    (history : next.history = state.history)
    (before : (state.stages id).op = some op)
    (uses : (state.stages id).cell = some pv)
    (unserved : (state.world.entries entry).state ≠ .serving pv)
    (entries : next.world.entries = state.world.entries)
    (allowed : Sequential (state.world.pvs pv) op answer
      (next.world.pvs pv))
    (others : ∀ other, other ≠ pv →
      next.world.pvs other = state.world.pvs other) :
    ∃ order', next.Ordered entry order' closers := by
  have waiting := ordered.waiting id op before
  have gap := (ordered.gaps id pv uses).resolve_left unserved
  obtain ⟨order', explains, members, filled, stays⟩ :=
    @Gap.fill _ _ _ _ _ _ _ _ _ _ _ ⟨id, op, answer⟩ _ gap
      ordered.explains uses waiting allowed
  have current : next.world.current entry = state.world.current entry := by
    simp only [World.current, entries]
    cases now : (state.world.entries entry).state with
    | serving other =>
        apply others other
        intro same
        exact unserved (same ▸ now)
    | _ => rfl
  refine ⟨order', ordered.settle stages history before members
    (current ▸ explains) ?_ ?_⟩
  · intro other pv' _ used unserved'
    rw [entries] at unserved'
    by_cases same : pv' = pv
    · subst same
      exact filled
    · rw [others pv' same]
      apply stays
      · intro closer
        exact same (ordered.distinct other pv' id pv used uses unserved'
          unserved closer)
      · exact (ordered.gaps other pv' used).resolve_left unserved'
  · rw [entries]
    exact ordered.distinct

theorem settled (ordered : state.Ordered entry order closers) {id : Nat}
    {op : Method Value} {answer : Answer Value}
    (stages : next.stages =
      Function.update state.stages id (.answered op answer))
    (history : next.history = state.history)
    (before : (state.stages id).op = some op)
    (pvs : next.world.pvs = state.world.pvs)
    (allowed : Sequential (state.world.current entry) op answer
      (next.world.current entry))
    (served : (next.world.entries entry).state =
        (state.world.entries entry).state ∨ state.Unserved entry ∨
      op = .close ∧ answer = .done) :
    ∃ order' closers', next.Ordered entry order' closers' := by
  apply ordered.commit stages history before allowed
  intro other pv _ _
  by_cases serving : (state.world.entries entry).state = .serving pv
  · rcases served with same | unserved | closes
    · exact .inl (same.trans serving)
    · exact absurd serving (unserved pv)
    · exact .inr ⟨.inr closes, congrFun pvs pv⟩
  · exact .inr ⟨.inl serving, congrFun pvs pv⟩

theorem answer (ordered : state.Ordered entry order closers) {id : Nat}
    {op : Method Value} {answer : Answer Value}
    (before : (state.stages id).op = some op)
    (allowed : Sequential (state.world.current entry) op answer
      (state.world.current entry)) :
    ∃ order' closers',
      (state.answer id op answer).Ordered entry order' closers' := by
  refine ordered.settled rfl rfl before rfl ?_ (.inl rfl)
  exact allowed

/-- The value that a state of the PV stands for. -/
def content (world : World Value) : ValueState Value → Option Value
  | .serving pv => world.pvs pv
  | .detached value => some value
  | .closed => none

theorem store (ordered : state.Ordered entry order closers) {id : Nat}
    {op : Method Value} {value : ValueState Value}
    (before : (state.stages id).op = some op)
    (allowed : Sequential (state.world.current entry) op .done
      (content state.world value))
    (served : state.Unserved entry ∨ op = .close) :
    ∃ order' closers',
      (state.store entry id op value).Ordered entry order' closers' := by
  refine ordered.settled rfl rfl before rfl ?_ ?_
  · have current : (state.store entry id op value).world.current entry =
        content state.world value := by
      cases value <;>
        simp [State.store, State.answer, release, setStage, World.setState,
          World.setEntry, World.current, content]
    rw [current]
    exact allowed
  · rcases served with unserved | closes
    · exact .inr (.inl unserved)
    · exact .inr (.inr ⟨closes, rfl⟩)

theorem current_detached {world : World Value} {value : Value}
    (detached : (world.entries entry).state = .detached value) :
    world.current entry = some value := by
  simp [World.current, detached]

theorem current_closed {world : World Value}
    (closed : (world.entries entry).state = .closed) :
    world.current entry = none := by
  simp [World.current, closed]

theorem look (ordered : state.Ordered entry order closers)
    (shaped : state.Shaped entry) {id : Nat} {op : Method Value}
    (stage : state.stages id = .holding op) :
    ∃ order' closers',
      (state.look entry id op).Ordered entry order' closers' := by
  have before : (state.stages id).op = some op := by
    rw [stage]
    rfl
  have quiet : ∀ (stage : Stage Value) (holder : Option Nat),
      stage.op = some op →
      (∀ pv, stage.cell = some pv →
        (state.world.entries entry).state = .serving pv) →
      ∃ order' closers', State.Ordered entry
        { state.setStage id stage with holder := holder } order'
          closers' := by
    intro stage holder after cell
    exact ⟨order, closers, ordered.silent rfl rfl before after rfl
      (fun _ _ => rfl) shaped cell⟩
  have uses : ∀ pv, (state.world.entries entry).state = .serving pv →
      ∀ other, some pv = some other →
        (state.world.entries entry).state = .serving other := by
    intro pv serving other same
    exact Option.some.inj same ▸ serving
  cases op with
  | «open» value =>
      cases now : (state.world.entries entry).state with
      | serving pv =>
          simp only [State.look, now]
          exact quiet _ _ rfl (uses pv now)
      | _ =>
          simp only [State.look, now]
          exact quiet _ _ rfl (by simp [Stage.cell])
  | post value =>
      cases now : (state.world.entries entry).state with
      | serving pv =>
          simp only [State.look, now]
          exact quiet _ _ rfl (uses pv now)
      | detached old =>
          simp only [State.look, now]
          apply ordered.store before
          · rw [current_detached now]
            exact .posted old value
          · exact .inl (by simp [Unserved, now])
      | closed =>
          simp only [State.look, now]
          apply ordered.answer before
          rw [current_closed now]
          exact .postClosed value
  | close =>
      cases now : (state.world.entries entry).state with
      | serving pv =>
          simp only [State.look, now]
          exact quiet _ _ rfl (by simp [Stage.cell])
      | _ =>
          simp only [State.look, now]
          exact ordered.store before (.closed _) (.inr rfl)
  | current =>
      cases now : (state.world.entries entry).state with
      | serving pv =>
          simp only [State.look, now]
          exact quiet _ _ rfl (uses pv now)
      | detached value =>
          simp only [State.look, now]
          apply ordered.answer before
          rw [current_detached now]
          exact .current (some value)
      | closed =>
          simp only [State.look, now]
          apply ordered.answer before
          rw [current_closed now]
          exact .current none
  | isOpen =>
      simp only [State.look]
      apply ordered.answer before
      have flag : state.world.isOpen entry =
          (state.world.current entry).isSome := by
        cases now : (state.world.entries entry).state with
        | serving pv =>
            rw [current_serving now, (shaped.served pv now).2]
            simp [World.isOpen, now]
        | _ => simp [World.isOpen, World.current, now]
      rw [flag]
      exact .isOpen _
  | adopt db name =>
      cases now : (state.world.entries entry).state with
      | detached value =>
          simp only [State.look, now]
          exact quiet _ _ rfl (by simp [Stage.cell])
      | _ =>
          simp only [State.look, now]
          exact ordered.answer before (.adoptRefused _ db name)

theorem registered (ordered : state.Ordered entry order closers)
    (shaped : state.Shaped entry) {id : Nat} {op : Method Value}
    (stage : state.stages id = .registering op)
    (step : state.registered entry id op = some next) :
    ∃ order' closers', next.Ordered entry order' closers' := by
  have before : (state.stages id).op = some op := by
    rw [stage]
    rfl
  have fits := shaped.fits id
  rw [stage] at fits
  cases op with
  | «open» value =>
      cases reg : (state.world.entries entry).reg with
      | some reg =>
          simp only [State.registered, reg, Option.some.injEq] at step
          subst step
          exact ⟨order, closers, ordered.silent rfl rfl before rfl rfl
            (fun _ _ => rfl) shaped (by simp [Stage.cell])⟩
      | none =>
          simp only [State.registered, reg, Option.some.injEq] at step
          subst step
          exact ordered.store before (.opened _ value) (.inl fits)
  | close =>
      cases reg : (state.world.entries entry).reg with
      | some reg =>
          simp only [State.registered, reg, Option.some.injEq] at step
          subst step
          exact ⟨order, closers, ordered.silent rfl rfl before rfl rfl
            (fun _ _ => rfl) shaped (by simp [Stage.cell])⟩
      | none =>
          simp only [State.registered, reg, Option.some.injEq] at step
          subst step
          exact ordered.store before (.closed _) (.inr rfl)
  | _ => simp [State.registered] at step

theorem installed (ordered : state.Ordered entry order closers)
    (shaped : state.Shaped entry) {id : Nat} {op : Method Value} {db : Nat}
    {name : String} {value : Value}
    (stage : state.stages id = .installing op db name value)
    (accepts : Bool) :
    ∃ order' closers', (state.installed id op db name value accepts).Ordered
      entry order' closers' := by
  have before : (state.stages id).op = some op := by
    rw [stage]
    rfl
  have fits := shaped.fits id
  rw [stage] at fits
  obtain ⟨installs, named⟩ := fits
  cases accepts with
  | true =>
      refine ⟨order, closers, ordered.silent rfl rfl before ?_ rfl ?_ shaped
        ?_⟩
      · cases op with
        | adopt db' name' =>
            obtain ⟨rfl, rfl⟩ := named db' name' rfl
            rfl
        | _ => rfl
      · intro pv there
        have older := Nat.ne_of_lt there.1
        simp [State.installed, setStage, World.install, World.setPv,
          World.setName, older]
      · cases op <;> simp [Stage.cell]
  | false =>
      apply ordered.answer before
      cases op with
      | «open» value => exact .openRefused _ value
      | adopt db name => exact .adoptRefused _ db name
      | _ => simp [Installs] at installs

theorem respond (ordered : state.Ordered entry order closers) {id : Nat}
    {op : Method Value} {answer : Answer Value}
    (stage : state.stages id = .answered op answer) :
    State.Ordered entry
      { state.setStage id (.returned op answer) with
        history := state.history ++ [.respond id answer] } order
      closers := by
  have stages : ∀ call, (call = id ∧ Function.update state.stages id
      (Stage.returned op answer) call = .returned op answer) ∨
      call ≠ id ∧ Function.update state.stages id
        (Stage.returned op answer) call = state.stages call := by
    intro call
    by_cases mine : call = id
    · exact .inl ⟨mine, by simp [mine]⟩
    · exact .inr ⟨mine, by simp [mine]⟩
  have cells : ∀ call pv, (Function.update state.stages id
      (Stage.returned op answer) call).cell = some pv →
        (state.stages call).cell = some pv := by
    intro call pv uses
    rcases stages call with ⟨_, now⟩ | ⟨_, now⟩
    · simp [now, Stage.cell] at uses
    · rwa [now] at uses
  have silent : ∀ call, call ≠ id → ¬Responded state.history call →
      ¬Responded (state.history ++ [.respond id answer]) call := by
    intro call apart quiet responded
    rcases responded_respond.mp responded with old | new
    · exact quiet old
    · exact apart new
  obtain ⟨member, _⟩ := ordered.answered id op answer stage
  constructor
  · exact ordered.explains.respond member
  · intro call op' pending
    rcases stages call with ⟨_, now⟩ | ⟨apart, now⟩
    · simp [setStage, now, Stage.op] at pending
    · simp only [setStage, now] at pending
      have waiting := ordered.waiting call op' pending
      exact ⟨List.mem_append_left _ waiting.invoked,
        silent call apart waiting.silent, waiting.absent⟩
  · intro call idle
    rcases stages call with ⟨_, now⟩ | ⟨apart, now⟩
    · simp [setStage, now] at idle
    · simp only [setStage, now] at idle
      obtain ⟨uncalled, quiet⟩ := ordered.idle call idle
      refine ⟨?_, silent call apart quiet⟩
      intro op' inside
      apply uncalled op'
      simpa using inside
  · intro call op' answer' answered
    rcases stages call with ⟨_, now⟩ | ⟨apart, now⟩
    · simp [setStage, now] at answered
    · simp only [setStage, now] at answered
      obtain ⟨member, quiet⟩ := ordered.answered call op' answer' answered
      exact ⟨member, silent call apart quiet⟩
  · intro call pv uses
    refine (ordered.gaps call pv (cells call pv uses)).imp_right ?_
    intro gap
    apply (gap.respond id answer).mono
    intro other use
    exact cells other pv use
  · intro first pv second pv' uses uses'
    exact ordered.distinct first pv second pv' (cells first pv uses)
      (cells second pv' uses')

theorem call (ordered : state.Ordered entry order closers) {id : Nat}
    {op : Method Value} (stage : state.stages id = .idle) :
    State.Ordered entry
      { state.setStage id (.called op) with
        history := state.history ++ [.invoke id op] } order closers := by
  obtain ⟨uncalled, quiet⟩ := ordered.idle id stage
  have fresh : ∀ entry ∈ order, entry.call ≠ id := by
    intro entry member same
    have invoked := ordered.explains.invoked entry member
    rw [same] at invoked
    exact uncalled entry.op invoked
  have cells : ∀ call pv, (Function.update state.stages id
      (Stage.called op) call).cell = some pv →
        call ≠ id ∧ (state.stages call).cell = some pv := by
    intro call pv uses
    by_cases mine : call = id
    · subst mine
      simp [Stage.cell] at uses
    · simp only [Function.update_of_ne mine] at uses
      exact ⟨mine, uses⟩
  have silent : ∀ call, ¬Responded state.history call →
      ¬Responded (state.history ++ [.invoke id op]) call := by
    intro call quiet responded
    exact quiet (responded_invoke.mp responded)
  constructor
  · exact ordered.explains.invoke fresh
  · intro call op' pending
    by_cases mine : call = id
    · subst mine
      simp only [setStage, Function.update_self, Stage.op,
        Option.some.injEq] at pending
      subst pending
      exact ⟨List.mem_append_right _ (List.mem_singleton_self _),
        silent call quiet, fresh⟩
    · simp only [setStage, Function.update_of_ne mine] at pending
      have waiting := ordered.waiting call op' pending
      exact ⟨List.mem_append_left _ waiting.invoked,
        silent call waiting.silent, waiting.absent⟩
  · intro call idle
    by_cases mine : call = id
    · subst mine
      simp [setStage] at idle
    · simp only [setStage, Function.update_of_ne mine] at idle
      obtain ⟨uncalled, quiet⟩ := ordered.idle call idle
      refine ⟨?_, silent call quiet⟩
      intro op' inside
      rcases List.mem_append.mp inside with old | new
      · exact uncalled op' old
      · obtain ⟨same, _⟩ := Event.invoke.inj (List.mem_singleton.mp new)
        exact mine same
  · intro call op' answer' answered
    by_cases mine : call = id
    · subst mine
      simp [setStage] at answered
    · simp only [setStage, Function.update_of_ne mine] at answered
      obtain ⟨member, quiet⟩ := ordered.answered call op' answer' answered
      exact ⟨member, silent call quiet⟩
  · intro call pv uses
    refine (ordered.gaps call pv (cells call pv uses).2).imp_right ?_
    intro gap
    refine Gap.mono (gap.invoke ?_) ?_
    · simp [stage, Stage.cell]
    · intro other use
      exact (cells other pv use).2
  · intro first pv second pv' uses uses'
    exact ordered.distinct first pv second pv' (cells first pv uses).2
      (cells second pv' uses').2

theorem apply (ordered : state.Ordered entry order closers) {id pv : Nat}
    {op : Method Value} {answer : Answer Value}
    (stages : next.stages =
      Function.update state.stages id (.answered op answer))
    (history : next.history = state.history)
    (before : (state.stages id).op = some op)
    (uses : (state.stages id).cell = some pv)
    (entries : next.world.entries = state.world.entries)
    (allowed : Sequential (state.world.pvs pv) op answer
      (next.world.pvs pv))
    (others : ∀ other, other ≠ pv →
      next.world.pvs other = state.world.pvs other) :
    ∃ order' closers', next.Ordered entry order' closers' := by
  by_cases serving : (state.world.entries entry).state = .serving pv
  · have serving' : (next.world.entries entry).state = .serving pv := by
      rw [entries]
      exact serving
    apply ordered.commit stages history before
    · rw [current_serving serving, current_serving serving']
      exact allowed
    · intro call other _ _
      by_cases same : other = pv
      · exact .inl (same ▸ serving')
      · refine .inr ⟨.inl ?_, others other same⟩
        intro served
        exact same (ValueState.serving.inj (served.symm.trans serving))
  · obtain ⟨order', stale⟩ := ordered.stale stages history before uses
      serving entries allowed others
    exact ⟨order', closers, stale⟩

theorem advance (ordered : state.Ordered entry order closers)
    (shaped : state.Shaped entry) {id : Nat} {accepts : Bool}
    (step : state.advance entry id accepts = some next) :
    ∃ order' closers', next.Ordered entry order' closers' := by
  have fits := shaped.fits id
  cases stage : state.stages id with
  | idle => simp [State.advance, stage] at step
  | called op =>
      simp only [State.advance, stage, Option.ite_none_right_eq_some,
        Option.isNone_iff_eq_none, Option.some.injEq] at step
      obtain ⟨_, rfl⟩ := step
      exact ⟨order, closers, ordered.silent rfl rfl (by rw [stage]; rfl) rfl
        rfl (fun _ _ => rfl) shaped (by simp [Stage.cell])⟩
  | holding op =>
      simp only [State.advance, stage, Option.some.injEq] at step
      subst step
      exact ordered.look shaped stage
  | registering op =>
      simp only [State.advance, stage] at step
      exact ordered.registered shaped stage step
  | installing op db name value =>
      simp only [State.advance, stage, Option.some.injEq] at step
      subst step
      exact ordered.installed shaped stage accepts
  | naming db name pv =>
      simp only [State.advance, stage, Option.some.injEq] at step
      subst step
      exact ⟨order, closers, ordered.silent rfl rfl (by rw [stage]; rfl) rfl
        rfl (fun _ _ => rfl) shaped (by simp [Stage.cell])⟩
  | recording db name pv =>
      simp only [State.advance, stage, Option.some.injEq] at step
      subst step
      exact ⟨order, closers, ordered.silent rfl rfl (by rw [stage]; rfl) rfl
        (by simp [World.setEntry]) (fun _ _ => rfl) shaped
        (by simp [Stage.cell])⟩
  | serving op pv =>
      simp only [State.advance, stage, Option.some.injEq] at step
      subst step
      rw [stage] at fits
      obtain ⟨value, installs, new⟩ := fits
      apply ordered.store (by rw [stage]; rfl)
      · rw [content, new.holds]
        cases op with
        | «open» other =>
            obtain rfl := installs.2
            exact .opened _ other
        | adopt db name =>
            rw [current_detached installs]
            exact .adopted value db name
        | _ => simp [Installs] at installs
      · left
        cases op with
        | «open» other => exact installs.1
        | adopt db name =>
            have detached : (state.world.entries entry).state =
              .detached value := installs
            simp [Unserved, detached]
        | _ => simp [Installs] at installs
  | removing reg =>
      simp only [State.advance, stage, Option.some.injEq] at step
      subst step
      exact ⟨order, closers, ordered.silent rfl rfl (by rw [stage]; rfl) rfl
        rfl (fun _ _ => rfl) shaped (by simp [Stage.cell])⟩
  | closing =>
      simp only [State.advance, stage, Option.some.injEq] at step
      subst step
      exact ordered.store (by rw [stage]; rfl) (.closed _) (.inr rfl)
  | writing op pv value =>
      simp only [State.advance, stage, Option.some.injEq] at step
      subst step
      rw [stage] at fits
      have uses : (state.stages id).cell = some pv := by
        rw [stage]
        rfl
      obtain ⟨old, there⟩ :=
        Option.isSome_iff_exists.mp (shaped.touched id pv uses).2
      refine ordered.apply rfl rfl (by rw [stage]; rfl) uses rfl ?_ ?_
      · simp only [World.setPv, Function.update_self, there]
        rcases fits with rfl | rfl
        · exact .opened _ value
        · exact .posted old value
      · intro other apart
        simp [World.setPv, apart]
  | reading pv =>
      simp only [State.advance, stage, Option.some.injEq] at step
      subst step
      exact ordered.apply rfl rfl (by rw [stage]; rfl) (by rw [stage]; rfl)
        rfl (.current _) (fun _ _ => rfl)
  | answered op answer =>
      simp only [State.advance, stage, Option.some.injEq] at step
      subst step
      exact ⟨order, closers, ordered.respond stage⟩
  | returned op answer => simp [State.advance, stage] at step

end Ordered

/-- The order of the calls may be continued by every step. -/
def Sound (entry : Nat) (state : State Value Context Done) : Prop :=
  state.Shaped entry ∧ ∃ order closers, state.Ordered entry order closers

theorem Fresh.sound (fresh : state.Fresh entry) : state.Sound entry := by
  have unserved : ∀ pv, (state.world.entries entry).state ≠
      .serving pv := by simp [fresh.entry]
  constructor
  · constructor
    · simp [fresh.stages, Stage.locked]
    · simp [fresh.stages, Fits]
    · simp [fresh.stages, Stage.cell]
    · intro pv serving
      exact absurd serving (unserved pv)
  · refine ⟨[], fun _ => 0, ?_⟩
    constructor
    · rw [fresh.history]
      have empty : state.world.current entry = none := by
        simp [World.current, fresh.entry]
      rw [empty]
      exact .nil
    · simp [fresh.stages, Stage.op]
    · simp [fresh.history, Responded]
    · simp [fresh.stages]
    · simp [fresh.stages, Stage.cell]
    · simp [fresh.stages, Stage.cell]

/-- What a write does on its way to the handler has no effect on the calls. -/
theorem Sound.same (sound : state.Sound entry)
    (world : next.world = state.world) (stages : next.stages = state.stages)
    (holder : next.holder = state.holder)
    (history : next.history = state.history) : next.Sound entry := by
  obtain ⟨shaped, order, closers, ordered⟩ := sound
  constructor
  · constructor
    · rw [stages, holder]
      exact shaped.lock
    · intro id
      rw [stages]
      exact (shaped.fits id).of_eq world stages
    · intro id pv uses
      rw [stages] at uses
      rw [Exists, world]
      exact shaped.touched id pv uses
    · intro pv serving
      rw [world] at serving
      rw [Exists, world]
      exact shaped.served pv serving
  · refine ⟨order, closers, ?_⟩
    constructor
    · rw [history, world]
      exact ordered.explains
    · rw [history, stages]
      exact ordered.waiting
    · rw [history, stages]
      exact ordered.idle
    · rw [history, stages]
      exact ordered.answered
    · rw [history, stages, world]
      exact ordered.gaps
    · rw [stages, world]
      exact ordered.distinct

theorem Sound.step (sound : state.Sound entry)
    {label : Label Value Context Done}
    (step : state.next entry label = some next) : next.Sound entry := by
  cases label with
  | call id op =>
      cases stage : state.stages id with
      | idle =>
          simp only [State.next, stage, Option.some.injEq] at step
          subst step
          obtain ⟨shaped, order, closers, ordered⟩ := sound
          refine ⟨?_, order, closers, ordered.call stage⟩
          refine shaped.apart (.called op) rfl rfl rfl rfl rfl
            (fun _ => trivial) rfl (fun _ => .inr rfl) (fun _ there => there)
      | _ => simp [State.next, stage] at step
  | step id accepts =>
      obtain ⟨shaped, order, closers, ordered⟩ := sound
      exact ⟨shaped.advance step, ordered.advance shaped step⟩
  | bind id =>
      simp only [State.next] at step
      split at step
      · obtain rfl := Option.some.inj step
        exact sound.same rfl rfl rfl rfl
      · simp at step
  | offer write data ctx =>
      simp only [State.next] at step
      split at step
      · obtain rfl := Option.some.inj step
        exact sound.same rfl rfl rfl rfl
      · simp at step
  | forward write done =>
      simp only [State.next] at step
      split at step
      · obtain rfl := Option.some.inj step
        exact sound.same rfl rfl rfl rfl
      · simp at step
  | dropQueue =>
      obtain rfl := Option.some.inj step
      exact sound.same rfl rfl rfl rfl

theorem sound_invariant :
    (system entry : Transition (State Value Context Done) _).Invariant
      (Sound entry) where
  initial _ := Fresh.sound
  preserved _ _ _ sound step := Sound.step sound step

end State
end Repics.Ca.Server.Cell
