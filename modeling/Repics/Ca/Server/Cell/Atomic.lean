import Repics.Ca.Server.Cell.Order

/-!
# A PV is one atomic cell

The calls on a PV are linearizable.  A client's write takes no part in that:
it becomes one operation for the handler, under the name that the PV was
adopted by, which is set before the server that adopted it accepts clients.
-/

namespace Repics.Ca.Server.Cell

open Linearization

variable {Value Context Done : Type}

namespace State

variable {entry : Nat} {state next : State Value Context Done}

/-- The database and the name of the adopted PV. -/
def reg (entry : Nat) (state : State Value Context Done) :
    Option Registration :=
  (state.world.entries entry).reg

/-- What a stage says about the registration. -/
def Enrols (entry : Nat) (state : State Value Context Done) :
    Stage Value → Prop
  | .installing (.adopt _ _) _ _ _ | .naming _ _ _ => state.reg entry = none
  | .recording _ name _ => state.reg entry = none ∧ state.name = some name
  | .serving (.adopt _ _) _ | .answered (.adopt _ _) .done
  | .returned (.adopt _ _) .done => (state.reg entry).isSome
  | _ => True

structure Registered (entry : Nat) (state : State Value Context Done) :
    Prop where
  stages : ∀ id, state.Enrols entry (state.stages id)
  named : ∀ reg, state.reg entry = some reg → state.name = some reg.name
  unnamed : state.reg entry = none → state.name = none ∨
    ∃ id db name pv, state.stages id = .recording db name pv
  detached : ∀ value, (state.world.entries entry).state = .detached value →
    state.reg entry = none ∨
      ∃ id db name pv, state.stages id = .serving (.adopt db name) pv

/-- Most steps leave the name and the registration as they are. -/
theorem Registered.keep (registered : state.Registered entry) {id : Nat}
    {stage : Stage Value}
    (stages : next.stages = Function.update state.stages id stage)
    (name : next.name = state.name) (reg : next.reg entry = state.reg entry)
    (enrols : next.Enrols entry stage)
    (calm : ∀ db name pv, state.stages id ≠ .recording db name pv)
    (detached : ∀ value, (next.world.entries entry).state =
      .detached value → state.reg entry = none ∨
        ((∀ db name pv, state.stages id ≠ .serving (.adopt db name) pv) ∧
          ∃ value, (state.world.entries entry).state = .detached value)) :
    next.Registered entry where
  stages other := by
    rw [stages]
    by_cases same : other = id
    · subst same
      rwa [Function.update_self]
    · rw [Function.update_of_ne same]
      have old := registered.stages other
      unfold Enrols at old ⊢
      rw [name, reg]
      exact old
  named := by
    rw [name, reg]
    exact registered.named
  unnamed := by
    rw [name, reg, stages]
    intro none_
    refine (registered.unnamed none_).imp_right ?_
    intro other
    obtain ⟨call, db, name, pv, stage⟩ := other
    refine ⟨call, db, name, pv, ?_⟩
    rw [Function.update_of_ne ?_]
    · exact stage
    · intro same
      exact calm db name pv (same ▸ stage)
  detached value now := by
    rw [reg, stages]
    rcases detached value now with none_ | ⟨apart, old, before⟩
    · exact .inl none_
    · refine (registered.detached old before).imp_right ?_
      intro other
      obtain ⟨call, db, name, pv, stage⟩ := other
      refine ⟨call, db, name, pv, ?_⟩
      rw [Function.update_of_ne ?_]
      · exact stage
      · intro same
        exact apart db name pv (same ▸ stage)

theorem Registered.look (registered : state.Registered entry)
    (shaped : state.Shaped entry) {id : Nat} {op : Method Value}
    (stage : state.stages id = .holding op) :
    (state.look entry id op).Registered entry := by
  have none_ : ∀ value, (state.world.entries entry).state =
      .detached value → state.reg entry = none := by
    intro value now
    refine (registered.detached value now).resolve_right ?_
    intro other
    obtain ⟨call, db, name, pv, there⟩ := other
    have same := shaped.only_stage stage rfl there rfl
    simp at same
  cases op <;> cases now : (state.world.entries entry).state <;>
    simp only [State.look, now] <;>
    refine registered.keep rfl rfl ?_ ?_ ?_ ?_ <;>
    simp_all [Enrols, reg, setStage, release, answer, store, World.setState,
      World.setEntry]

theorem Enrols.unlocked {stage : Stage Value}
    (enrols : state.Enrols entry stage) (unlocked : stage.locked = false)
    (keeps : (state.reg entry).isSome → (next.reg entry).isSome) :
    next.Enrols entry stage := by
  cases stage with
  | answered op answer =>
      cases op <;> cases answer <;>
        first | trivial | exact keeps enrols
  | returned op answer =>
      cases op <;> cases answer <;>
        first | trivial | exact keeps enrols
  | called | writing | reading | idle => trivial
  | _ => simp [Stage.locked] at unlocked

theorem Registered.alone (registered : state.Registered entry)
    (shaped : state.Shaped entry) {id : Nat} {stage : Stage Value}
    (own : (state.stages id).locked)
    (stages : next.stages = Function.update state.stages id stage)
    (enrols : next.Enrols entry stage)
    (keeps : (state.reg entry).isSome → (next.reg entry).isSome)
    (named : ∀ reg, next.reg entry = some reg → next.name = some reg.name)
    (unnamed : next.reg entry = none → next.name = none ∨
      ∃ db name pv, stage = .recording db name pv)
    (detached : ∀ value, (next.world.entries entry).state =
      .detached value → next.reg entry = none ∨
        ∃ db name pv, stage = .serving (.adopt db name) pv) :
    next.Registered entry where
  stages other := by
    rw [stages]
    by_cases same : other = id
    · subst same
      rwa [Function.update_self]
    · rw [Function.update_of_ne same]
      exact (registered.stages other).unlocked
        (shaped.others (.inr own) same) keeps
  named := named
  unnamed none_ := by
    refine (unnamed none_).imp_right ?_
    intro recording
    obtain ⟨db, name, pv, rfl⟩ := recording
    exact ⟨id, db, name, pv, by simp [stages]⟩
  detached value now := by
    refine (detached value now).imp_right ?_
    intro serving
    obtain ⟨db, name, pv, rfl⟩ := serving
    exact ⟨id, db, name, pv, by simp [stages]⟩

theorem Registered.advance (registered : state.Registered entry)
    (shaped : state.Shaped entry) {id : Nat} {accepts : Bool}
    (step : state.advance entry id accepts = some next) :
    next.Registered entry := by
  have mine := registered.stages id
  cases stage : state.stages id with
  | idle => simp [State.advance, stage] at step
  | called op =>
      simp only [State.advance, stage, Option.ite_none_right_eq_some,
        Option.isNone_iff_eq_none, Option.some.injEq] at step
      obtain ⟨_, rfl⟩ := step
      refine registered.keep rfl rfl rfl trivial ?_ ?_ <;> simp_all [setStage]
  | holding op =>
      simp only [State.advance, stage, Option.some.injEq] at step
      subst step
      exact registered.look shaped stage
  | registering op =>
      simp only [State.advance, stage] at step
      cases op <;> cases now : (state.world.entries entry).reg <;>
        simp only [State.registered, now, Option.some.injEq, reduceCtorEq]
          at step <;>
        subst step <;>
        refine registered.keep rfl rfl ?_ ?_ ?_ ?_ <;>
        simp_all [Enrols, reg, setStage, release, answer, store,
          World.setState, World.setEntry]
  | installing op db name value =>
      simp only [State.advance, stage, Option.some.injEq] at step
      subst step
      rw [stage] at mine
      cases accepts <;> cases op <;>
        refine registered.keep rfl rfl ?_ ?_ ?_ ?_ <;>
        simp_all [Enrols, reg, setStage, release, answer, State.installed,
          World.install, World.setPv, World.setName]
  | naming db name pv =>
      simp only [State.advance, stage, Option.some.injEq] at step
      subst step
      rw [stage] at mine
      have own : (state.stages id).locked := locked_of stage rfl
      have noName : state.name = none := by
        refine (registered.unnamed mine).resolve_right ?_
        intro other
        obtain ⟨call, db', name', pv', there⟩ := other
        have same := shaped.only_stage stage rfl there rfl
        simp at same
      refine registered.alone shaped own rfl ?_ (fun some_ => some_) ?_ ?_ ?_
      · exact ⟨mine, by simp [noName]⟩
      · intro reg some_
        exact absurd (Eq.trans some_.symm mine) (by simp)
      · intro _
        exact .inr ⟨db, name, pv, rfl⟩
      · intro value _
        exact .inl mine
  | recording db name pv =>
      simp only [State.advance, stage, Option.some.injEq] at step
      subst step
      rw [stage] at mine
      have own : (state.stages id).locked := locked_of stage rfl
      refine registered.alone shaped own rfl ?_ ?_ ?_ ?_ ?_
      · simp [Enrols, reg, World.setEntry]
      · simp [reg, World.setEntry]
      · intro reg' some_
        have same : (⟨db, name⟩ : Registration) = reg' := by
          simpa [reg, World.setEntry] using some_
        subst same
        exact mine.2
      · simp [reg, World.setEntry]
      · intro value _
        exact .inr ⟨db, name, pv, rfl⟩
  | serving op pv =>
      simp only [State.advance, stage, Option.some.injEq] at step
      subst step
      rw [stage] at mine
      have own : (state.stages id).locked := locked_of stage rfl
      have same : (state.store entry id op (.serving pv)).reg entry =
          state.reg entry := by
        simp [reg, store, answer, release, setStage, World.setState,
          World.setEntry]
      refine registered.alone shaped own rfl ?_ ?_ ?_ ?_ ?_
      · cases op with
        | adopt db name =>
            simp only [Enrols, same]
            exact mine
        | _ => trivial
      · rw [same]
        exact fun some_ => some_
      · rw [same]
        exact registered.named
      · rw [same]
        intro none_
        refine .inl ((registered.unnamed none_).resolve_right ?_)
        intro other
        obtain ⟨call, db', name', pv', there⟩ := other
        have same := shaped.only_stage stage rfl there rfl
        simp at same
      · intro value now
        simp [store, answer, release, setStage, World.setState,
          World.setEntry] at now
  | removing reg =>
      simp only [State.advance, stage, Option.some.injEq] at step
      subst step
      refine registered.keep rfl rfl rfl trivial ?_ ?_ <;>
        simp_all [World.setName]
  | closing =>
      simp only [State.advance, stage, Option.some.injEq] at step
      subst step
      refine registered.keep rfl rfl ?_ ?_ ?_ ?_ <;>
        simp_all [Enrols, reg, setStage, release, answer, store,
          World.setState, World.setEntry]
  | writing op pv value =>
      simp only [State.advance, stage, Option.some.injEq] at step
      subst step
      have fits := shaped.fits id
      rw [stage] at fits
      rcases fits with rfl | rfl <;>
        refine registered.keep rfl rfl rfl trivial ?_ ?_ <;>
        simp_all [World.setPv]
  | reading pv =>
      simp only [State.advance, stage, Option.some.injEq] at step
      subst step
      refine registered.keep rfl rfl rfl trivial ?_ ?_ <;> simp_all [setStage]
  | answered op answer =>
      simp only [State.advance, stage, Option.some.injEq] at step
      subst step
      rw [stage] at mine
      refine registered.keep rfl rfl rfl ?_ ?_ ?_
      · cases op <;> cases answer <;> trivial
      · simp [stage]
      · intro value now
        exact .inr ⟨by simp [stage], value, now⟩
  | returned op answer => simp [State.advance, stage] at step

theorem Registered.same (registered : state.Registered entry)
    (world : next.world = state.world) (name : next.name = state.name)
    (stages : next.stages = state.stages) : next.Registered entry := by
  obtain ⟨enrols, named, unnamed, detached⟩ := registered
  constructor
  · intro id
    have old := enrols id
    unfold Enrols reg at old ⊢
    rw [stages, world, name]
    exact old
  · rw [reg, world, name]
    exact named
  · rw [reg, world, name, stages]
    exact unnamed
  · rw [reg, world, stages]
    exact detached

theorem Registered.step (registered : state.Registered entry)
    (shaped : state.Shaped entry) {label : Label Value Context Done}
    (step : state.next entry label = some next) : next.Registered entry := by
  cases label with
  | call id op =>
      cases stage : state.stages id with
      | idle =>
          simp only [State.next, stage, Option.some.injEq] at step
          subst step
          refine registered.keep rfl rfl rfl trivial ?_ ?_
          · simp [stage]
          · intro value now
            exact .inr ⟨by simp [stage], value, now⟩
      | _ => simp [State.next, stage] at step
  | step id accepts => exact registered.advance shaped step
  | bind id =>
      simp only [State.next] at step
      split at step
      · obtain rfl := Option.some.inj step
        exact registered.same rfl rfl rfl
      · simp at step
  | offer write data ctx =>
      simp only [State.next] at step
      split at step
      · obtain rfl := Option.some.inj step
        exact registered.same rfl rfl rfl
      · simp at step
  | forward write done =>
      simp only [State.next] at step
      split at step
      · obtain rfl := Option.some.inj step
        exact registered.same rfl rfl rfl
      · simp at step
  | dropQueue =>
      obtain rfl := Option.some.inj step
      exact registered.same rfl rfl rfl

/-- The operations that a write put on the work queue. -/
def eventsOf (state : State Value Context Done) (write : Nat) :
    List (CaServerOperation Value Context Done) :=
  (state.events.filter fun event => event.1 == write).map Prod.snd

/-- A value that was written makes one operation when it is sent, with the
value and the name that the PV was adopted under, and the operation is on the
work queue unless nobody can receive it.  An alarm acknowledgement makes
none. -/
def Delivered (entry : Nat) (state : State Value Context Done)
    (write : Nat) : Prop :=
  match state.writes write with
  | .none => state.eventsOf write = []
  | .offered data _ _ => (∃ value, data = .value value) ∧
      state.eventsOf write = []
  | .refused data _ _ => data = .alarmAck ∧ state.eventsOf write = []
  | .forwarded data ctx operation sent => ∃ value reg reply,
      data = .value value ∧ state.reg entry = some reg ∧
        operation = ⟨reg.name, value, ctx, reply⟩ ∧
        state.eventsOf write = (if sent then [operation] else []) ∧
        (state.receiver → sent)

structure Adopted (entry : Nat) (state : State Value Context Done) :
    Prop where
  bound : state.bound → (state.reg entry).isSome
  offered : ∀ write data ctx forward,
    state.writes write = .offered data ctx forward →
      makeHook data ctx = .ok forward ∧ (state.reg entry).isSome
  delivered : ∀ write, state.Delivered entry write

theorem reg_advance (registered : state.Registered entry) {id : Nat}
    {accepts : Bool} (step : state.advance entry id accepts = some next)
    {reg : Registration} (some_ : state.reg entry = some reg) :
    next.reg entry = some reg := by
  have enrols := registered.stages id
  cases stage : state.stages id with
  | recording db name pv =>
      rw [stage] at enrols
      exact absurd (some_.symm.trans enrols.1) (by simp)
  | holding op =>
      simp only [advance, stage, Option.some.injEq] at step
      subst step
      rw [← some_]
      cases op <;> cases now : (state.world.entries entry).state <;>
        simp [State.look, now, State.reg, setStage, release, answer, store,
          World.setState, World.setEntry]
  | registering op =>
      simp only [advance, stage] at step
      rw [← some_]
      cases op <;> cases now : (state.world.entries entry).reg <;>
        simp only [State.registered, now, Option.some.injEq, reduceCtorEq]
          at step <;>
        subst step <;>
        simp [State.reg, setStage, release, answer, store, now,
          World.setState, World.setEntry]
  | idle => simp [State.advance, stage] at step
  | returned op answer => simp [State.advance, stage] at step
  | called op =>
      simp only [State.advance, stage, Option.ite_none_right_eq_some,
        Option.some.injEq] at step
      obtain ⟨_, rfl⟩ := step
      exact some_
  | installing op db name value =>
      simp only [State.advance, stage, Option.some.injEq] at step
      subst step
      rw [← some_]
      cases accepts <;> rfl
  | serving op pv =>
      simp only [State.advance, stage, Option.some.injEq] at step
      subst step
      rw [← some_]
      simp [State.reg, setStage, release, answer, store, World.setState,
        World.setEntry]
  | closing =>
      simp only [State.advance, stage, Option.some.injEq] at step
      subst step
      rw [← some_]
      simp [State.reg, setStage, release, answer, store, World.setState,
        World.setEntry]
  | _ =>
      simp only [State.advance, stage, Option.some.injEq] at step
      subst step
      exact some_

theorem advance_frame {id : Nat} {accepts : Bool}
    (step : state.advance entry id accepts = some next) :
    next.bound = state.bound ∧ next.receiver = state.receiver ∧
      next.writes = state.writes ∧ next.events = state.events := by
  cases stage : state.stages id with
  | holding op =>
      simp only [State.advance, stage, Option.some.injEq] at step
      subst step
      cases op <;> cases now : (state.world.entries entry).state <;>
        simp [State.look, now, setStage, release, answer, store]
  | registering op =>
      simp only [State.advance, stage] at step
      cases op <;> cases now : (state.world.entries entry).reg <;>
        simp only [State.registered, now, Option.some.injEq, reduceCtorEq]
          at step <;>
        subst step <;>
        exact ⟨rfl, rfl, rfl, rfl⟩
  | installing op db name value =>
      simp only [State.advance, stage, Option.some.injEq] at step
      subst step
      cases accepts <;> exact ⟨rfl, rfl, rfl, rfl⟩
  | idle => simp [State.advance, stage] at step
  | returned op answer => simp [State.advance, stage] at step
  | called op =>
      simp only [State.advance, stage, Option.ite_none_right_eq_some,
        Option.some.injEq] at step
      obtain ⟨_, rfl⟩ := step
      exact ⟨rfl, rfl, rfl, rfl⟩
  | _ =>
      simp only [State.advance, stage, Option.some.injEq] at step
      subst step
      exact ⟨rfl, rfl, rfl, rfl⟩

/-- Steps that leave the writes alone keep what is known of them. -/
theorem Adopted.keep (adopted : state.Adopted entry)
    (frame : next.bound = state.bound ∧ next.receiver = state.receiver ∧
      next.writes = state.writes ∧ next.events = state.events)
    (reg : ∀ reg, state.reg entry = some reg → next.reg entry = some reg) :
    next.Adopted entry := by
  obtain ⟨bound, receiver, writes, events⟩ := frame
  have some_ : (state.reg entry).isSome → (next.reg entry).isSome := by
    intro some_
    obtain ⟨found, same⟩ := Option.isSome_iff_exists.mp some_
    exact Option.isSome_iff_exists.mpr ⟨found, reg found same⟩
  constructor
  · rw [bound]
    exact fun isBound => some_ (adopted.bound isBound)
  · rw [writes]
    intro write data ctx forward offered
    obtain ⟨made, there⟩ := adopted.offered write data ctx forward offered
    exact ⟨made, some_ there⟩
  · intro write
    have old := adopted.delivered write
    unfold Delivered eventsOf at old ⊢
    rw [writes, events, receiver]
    split at old
    case h_4 data ctx operation sent _ =>
      obtain ⟨value, found, reply, isValue, same, rest⟩ := old
      exact ⟨value, found, reply, isValue, reg found same, rest⟩
    all_goals exact old

theorem eventsOf_append {state : State Value Context Done}
    {operation : CaServerOperation Value Context Done} {write other : Nat}
    {events : List (Nat × CaServerOperation Value Context Done)}
    (same : state.events = events ++ [(write, operation)]) :
    state.eventsOf other =
      ((events.filter fun event => event.1 == other).map Prod.snd) ++
        (if other = write then [operation] else []) := by
  rw [eventsOf, same, List.filter_append, List.map_append]
  by_cases isNew : other = write
  · simp [isNew]
  · have differ : ¬write = other := fun equal => isNew equal.symm
    simp [isNew, differ]

theorem Adopted.write (adopted : state.Adopted entry) {write : Nat}
    {now : Write Value Context Done} (bound : next.bound = state.bound)
    (receiver : next.receiver = state.receiver)
    (world : next.world = state.world)
    (writes : next.writes = Function.update state.writes write now)
    (events : ∀ other, other ≠ write →
      next.eventsOf other = state.eventsOf other)
    (offered : ∀ data ctx forward, now = .offered data ctx forward →
      makeHook data ctx = .ok forward ∧ (state.reg entry).isSome)
    (delivered : next.Delivered entry write) : next.Adopted entry := by
  have same : next.reg entry = state.reg entry := by rw [reg, world, reg]
  constructor
  · rw [bound, same]
    exact adopted.bound
  · intro other data ctx forward there
    rw [same]
    by_cases mine : other = write
    · rw [writes, mine, Function.update_self] at there
      exact offered data ctx forward there
    · rw [writes, Function.update_of_ne mine] at there
      exact adopted.offered other data ctx forward there
  · intro other
    by_cases mine : other = write
    · rw [mine]
      exact delivered
    · have old := adopted.delivered other
      unfold Delivered at old ⊢
      rw [writes, Function.update_of_ne mine, events other mine, same,
        receiver]
      exact old

theorem Adopted.step (adopted : state.Adopted entry)
    (registered : state.Registered entry)
    {label : Label Value Context Done}
    (step : state.next entry label = some next) : next.Adopted entry := by
  cases label with
  | call id op =>
      cases stage : state.stages id with
      | idle =>
          simp only [State.next, stage, Option.some.injEq] at step
          subst step
          exact adopted.keep ⟨rfl, rfl, rfl, rfl⟩ (fun _ same => same)
      | _ => simp [State.next, stage] at step
  | step id accepts =>
      exact adopted.keep (advance_frame step) fun _ some_ =>
        reg_advance registered step some_
  | bind id =>
      simp only [State.next] at step
      split at step
      case h_1 db name stage =>
        obtain rfl := Option.some.inj step
        have enrols := registered.stages id
        rw [stage] at enrols
        exact ⟨fun _ => enrols, adopted.offered, adopted.delivered⟩
      case h_2 => simp at step
  | offer write data ctx =>
      simp only [State.next] at step
      split at step
      case h_1 isBound empty =>
        obtain rfl := Option.some.inj step
        have old := adopted.delivered write
        rw [Delivered, empty] at old
        refine adopted.write rfl rfl rfl rfl (fun _ _ => rfl) ?_ ?_
        · intro data' ctx' forward offered
          refine ⟨?_, adopted.bound isBound⟩
          cases data with
          | value value =>
              obtain ⟨rfl, rfl, rfl⟩ := Write.offered.inj offered
              rfl
          | alarmAck => simp [makeHook] at offered
        · rw [Delivered]
          simp only [Function.update_self]
          cases data with
          | value value => exact ⟨⟨value, rfl⟩, old⟩
          | alarmAck => exact ⟨rfl, old⟩
      case h_2 => simp at step
  | forward write done =>
      simp only [State.next] at step
      split at step
      case h_1 data ctx forward offered =>
        obtain rfl := Option.some.inj step
        obtain ⟨made, there⟩ :=
          adopted.offered write data ctx forward offered
        obtain ⟨reg, some_⟩ := Option.isSome_iff_exists.mp there
        have old := adopted.delivered write
        rw [Delivered, offered] at old
        obtain ⟨⟨value, rfl⟩, none_⟩ := old
        obtain rfl := Except.ok.inj made
        refine adopted.write rfl rfl rfl rfl ?_ ?_ ?_
        · intro other apart
          cases receiver : state.receiver with
          | true =>
              rw [eventsOf_append rfl, if_neg apart, List.append_nil]
              rfl
          | false => rfl
        · intro data' ctx' forward' offered'
          simp at offered'
        · rw [Delivered]
          simp only [Function.update_self]
          refine ⟨value, reg, done.elim .plain .notify, rfl, some_, ?_, ?_,
            fun there => there⟩
          · simp only [registered.named reg some_, Option.getD_some]
          · cases receiver : state.receiver with
            | true =>
                rw [eventsOf_append rfl]
                simpa [eventsOf] using none_
            | false => simpa [eventsOf] using none_
      case h_2 => simp at step
  | dropQueue =>
      obtain rfl := Option.some.inj step
      refine ⟨adopted.bound, adopted.offered, ?_⟩
      intro write
      have old := adopted.delivered write
      cases there : state.writes write with
      | forwarded data ctx operation sent =>
          simp only [Delivered, there] at old ⊢
          obtain ⟨value, found, reply, isValue, same, made, events, _⟩ := old
          exact ⟨value, found, reply, isValue, same, made, events, by simp⟩
      | _ =>
          simp only [Delivered, there] at old ⊢
          exact old

theorem Fresh.registered (fresh : state.Fresh entry) :
    state.Registered entry := by
  have none_ : state.reg entry = none := by rw [reg, fresh.entry]
  constructor
  · simp [fresh.stages, Enrols]
  · simp [none_]
  · intro _
    exact .inl fresh.name
  · intro value _
    exact .inl none_

theorem Fresh.adopted (fresh : state.Fresh entry) :
    state.Adopted entry := by
  constructor
  · simp [fresh.bound]
  · simp [fresh.writes]
  · intro write
    simp [Delivered, fresh.writes, eventsOf, fresh.events]

theorem invariant :
    (system entry : Transition (State Value Context Done) _).Invariant
      fun state => (state.Sound entry ∧ state.Registered entry) ∧
        state.Adopted entry := by
  refine Transition.Invariant.strengthen ?_ (fun _ => Fresh.adopted) ?_
  · refine sound_invariant.strengthen (fun _ => Fresh.registered) ?_
    intro state label next sound registered step
    exact registered.step sound.1 step
  · intro state label next known adopted step
    exact adopted.step known.2 step

/-- The calls of every run are those of one atomic optional cell, and in a
complete history they are exactly the calls that returned.  A client's write
makes one operation and changes nothing itself. -/
theorem cell_atomic (reachable : (system entry).Reachable state) :
    (∃ order last, Explains Sequential none state.history order last ∧
      (Complete state.history → ∀ call ∈ order,
        Event.respond call.call call.result ∈ state.history)) ∧
    (∀ write, state.Delivered entry write) ∧
    (∀ write data ctx next,
      state.next entry (.offer write data ctx) = some next →
        next.world = state.world ∧ next.history = state.history) ∧
    ∀ write done next, state.next entry (.forward write done) = some next →
      next.world = state.world ∧ next.history = state.history := by
  obtain ⟨⟨⟨_, order, closers, ordered⟩, _⟩, adopted⟩ :=
    invariant.reachable reachable
  refine ⟨⟨order, _, ordered.explains, ?_⟩, adopted.delivered, ?_, ?_⟩
  · intro complete call member
    exact ordered.explains.returned complete member
  · intro write data ctx next step
    simp only [State.next] at step
    split at step
    · obtain rfl := Option.some.inj step
      exact ⟨rfl, rfl⟩
    · simp at step
  · intro write done next step
    simp only [State.next] at step
    split at step
    · obtain rfl := Option.some.inj step
      exact ⟨rfl, rfl⟩
    · simp at step

/-- A PV on its own. -/
def alone : State Nat Unit Unit where
  world := .fresh
  name := none
  holder := none
  stages _ := .idle
  history := []
  bound := false
  receiver := true
  writes _ := .none
  events := []

/-- A post is overtaken by a `close` and a second `open`, and a client's
write is sent. -/
def overtaken : List (Label Nat Unit Unit) :=
  [.call 0 (.open 5), .step 0 true, .step 0 true, .step 0 true, .step 0 true,
    .call 1 (.adopt 0 "a"), .step 1 true, .step 1 true, .step 1 true,
    .step 1 true, .step 1 true, .step 1 true, .step 1 true,
    .call 2 (.post 7), .step 2 true, .step 2 true,
    .call 3 .close, .step 3 true, .step 3 true, .step 3 true, .step 3 true,
    .step 3 true, .step 3 true,
    .call 4 (.open 9), .step 4 true, .step 4 true, .step 4 true,
    .step 4 true, .step 4 true, .step 4 true,
    .step 2 true, .step 2 true,
    .call 5 .current, .step 5 true, .step 5 true, .step 5 true, .step 5 true,
    .bind 1, .offer 0 (.value 3) (), .forward 0 none]

theorem alone_fresh : alone.Fresh 0 := by
  constructor <;> first | rfl | exact fun _ => rfl

/-- The current value is the one of the second `open`, and the write reached
the queue under the adopted name. -/
theorem cell_atomic_overtaken :
    let state := (overtaken.foldlM (State.next 0) alone).get rfl
    (∃ order last, Explains Sequential none state.history order last ∧
      (Complete state.history → ∀ call ∈ order,
        Event.respond call.call call.result ∈ state.history)) ∧
    state.Delivered 0 0 ∧
    state.history.getLast? = some (.respond 5 (.value (some 9))) := by
  intro state
  have reachable : (system 0).Reachable state :=
    @Transition.Reachable.of_foldlM _ _
      (fun state : State Nat Unit Unit => state.Fresh 0) _ _ alone_fresh
      overtaken rfl
  have atomic := cell_atomic reachable
  exact ⟨atomic.1, atomic.2.1 0, rfl⟩

end State
end Repics.Ca.Server.Cell
