import Repics.Ca.Server.Cell

/-!
# Where the calls on a PV can be

At most one call holds the state mutex.  What such a call found when it looked
at the PV stays so until it releases the mutex, because the others can only
set and get cells that they cloned before, and none of them knows a cell that
is being installed.
-/

namespace Repics.Ca.Server.Cell

variable {Value Context Done : Type}

namespace Stage

/-- The operation of a call that has not taken effect. -/
def op : Stage Value → Option (Method Value)
  | .called op | .holding op | .registering op | .installing op _ _ _
  | .serving op _ | .writing op _ _ => some op
  | .naming db name _ | .recording db name _ => some (.adopt db name)
  | .removing _ | .closing => some .close
  | .reading _ => some .current
  | .idle | .answered _ _ | .returned _ _ => none

/-- Whether the call holds the state mutex. -/
def locked : Stage Value → Bool
  | .holding _ | .registering _ | .installing _ _ _ _ | .naming _ _ _
  | .recording _ _ _ | .serving _ _ | .removing _ | .closing => true
  | _ => false

/-- The cell that a call uses without the mutex. -/
def cell : Stage Value → Option Nat
  | .writing _ pv _ | .reading pv => some pv
  | _ => none

end Stage

namespace State

variable {entry : Nat} {state next : State Value Context Done}

/-- The PV is not served. -/
def Unserved (entry : Nat) (state : State Value Context Done) : Prop :=
  ∀ pv, (state.world.entries entry).state ≠ .serving pv

/-- A cell that exists and has a value. -/
def Exists (state : State Value Context Done) (pv : Nat) : Prop :=
  pv < state.world.nextPv ∧ (state.world.pvs pv).isSome

/-- An `open` or an adoption of a value that is going to have the PV
served. -/
def Installs (entry : Nat) (state : State Value Context Done)
    (value : Value) : Method Value → Prop
  | .open new => state.Unserved entry ∧ new = value
  | .adopt _ _ => (state.world.entries entry).state = .detached value
  | _ => False

/-- A cell that no other call knows. -/
structure New (state : State Value Context Done) (pv : Nat) (value : Value) :
    Prop where
  made : pv < state.world.nextPv
  holds : state.world.pvs pv = some value
  unused : ∀ id, (state.stages id).cell ≠ some pv

/-- What holds while a call is at a stage. -/
def Fits (entry : Nat) (state : State Value Context Done) :
    Stage Value → Prop
  | .registering (.open _) => state.Unserved entry
  | .registering op => op = .close
  | .installing op db name value => state.Installs entry value op ∧
      ∀ db' name', op = .adopt db' name' → db' = db ∧ name' = name
  | .naming db name pv | .recording db name pv => ∃ value,
      state.Installs entry value (.adopt db name) ∧ state.New pv value
  | .serving op pv => ∃ value, state.Installs entry value op ∧
      state.New pv value
  | .writing op _ value => op = .open value ∨ op = .post value
  | _ => True

structure Shaped (entry : Nat) (state : State Value Context Done) :
    Prop where
  lock : ∀ id, (state.stages id).locked → state.holder = some id
  fits : ∀ id, state.Fits entry (state.stages id)
  touched : ∀ id pv, (state.stages id).cell = some pv → state.Exists pv
  served : ∀ pv, (state.world.entries entry).state = .serving pv →
    state.Exists pv

theorem New.of_eq {pv : Nat} {value : Value} (new : state.New pv value)
    (world : next.world = state.world)
    (stages : next.stages = state.stages) : next.New pv value where
  made := world ▸ new.made
  holds := world ▸ new.holds
  unused := stages ▸ new.unused

theorem New.moves {pv id : Nat} {value : Value} {stage : Stage Value}
    (new : state.New pv value)
    (stages : next.stages = Function.update state.stages id stage)
    (cell : stage.cell = none) (made : pv < next.world.nextPv)
    (holds : next.world.pvs pv = some value) : next.New pv value where
  made := made
  holds := holds
  unused := by
    intro other uses
    rw [stages] at uses
    by_cases same : other = id
    · rw [same, Function.update_self, cell] at uses
      simp at uses
    · rw [Function.update_of_ne same] at uses
      exact new.unused other uses

theorem Fits.of_eq {stage : Stage Value} (fits : state.Fits entry stage)
    (world : next.world = state.world)
    (stages : next.stages = state.stages) : next.Fits entry stage := by
  have installs : ∀ value op, state.Installs entry value op →
      next.Installs entry value op := by
    intro value op installs
    cases op <;> simp_all [Installs, Unserved]
  cases stage with
  | registering op =>
      cases op with
      | «open» value =>
          intro pv
          rw [world]
          exact fits pv
      | _ => exact fits
  | installing op db name value => exact ⟨installs _ _ fits.1, fits.2⟩
  | naming db name pv =>
      obtain ⟨value, here, new⟩ := fits
      exact ⟨value, installs _ _ here, new.of_eq world stages⟩
  | recording db name pv =>
      obtain ⟨value, here, new⟩ := fits
      exact ⟨value, installs _ _ here, new.of_eq world stages⟩
  | serving op pv =>
      obtain ⟨value, here, new⟩ := fits
      exact ⟨value, installs _ _ here, new.of_eq world stages⟩
  | _ => exact fits

theorem Fits.unlocked {stage : Stage Value} (fits : state.Fits entry stage)
    (unlocked : stage.locked = false) : next.Fits entry stage := by
  cases stage <;> first | exact fits | simp [Stage.locked] at unlocked

/-- The call that is at a stage has the mutex if the stage needs it. -/
theorem locked_of {id : Nat} {stage : Stage Value}
    (is : state.stages id = stage) (locked : stage.locked) :
    (state.stages id).locked := by
  rw [is]
  exact locked

namespace Shaped

theorem others (shaped : state.Shaped entry) {id : Nat}
    (own : state.holder = none ∨ (state.stages id).locked) {other : Nat}
    (apart : other ≠ id) : (state.stages other).locked = false := by
  cases locked : (state.stages other).locked with
  | false => rfl
  | true =>
      have holds := shaped.lock other locked
      rcases own with free | mine
      · simp [free] at holds
      · have same := (shaped.lock id mine).symm.trans holds
        exact absurd (Option.some.inj same).symm apart

theorem only (shaped : state.Shaped entry) {id other : Nat}
    (own : (state.stages id).locked) (there : (state.stages other).locked) :
    other = id := by
  have holds := shaped.lock other there
  rw [shaped.lock id own] at holds
  exact (Option.some.inj holds).symm

theorem only_stage (shaped : state.Shaped entry) {id other : Nat}
    {stage there : Stage Value} (is : state.stages id = stage)
    (own : stage.locked) (isThere : state.stages other = there)
    (locked : there.locked) : there = stage := by
  have same : other = id :=
    shaped.only (locked_of is own) (locked_of isThere locked)
  rw [← isThere, same, is]

theorem alone (shaped : state.Shaped entry) {id : Nat}
    {stage : Stage Value}
    (own : state.holder = none ∨ (state.stages id).locked)
    (stages : next.stages = Function.update state.stages id stage)
    (lock : stage.locked → next.holder = some id)
    (fits : next.Fits entry stage)
    (grows : ∀ pv, state.Exists pv → next.Exists pv)
    (touched : ∀ pv, stage.cell = some pv → next.Exists pv)
    (served : ∀ pv, (next.world.entries entry).state = .serving pv →
      next.Exists pv) : next.Shaped entry where
  lock other locked := by
    by_cases same : other = id
    · subst same
      simp only [stages, Function.update_self] at locked
      exact lock locked
    · rw [stages, Function.update_of_ne same,
        shaped.others own same] at locked
      simp at locked
  fits other := by
    by_cases same : other = id
    · subst same
      simpa [stages] using fits
    · rw [stages, Function.update_of_ne same]
      exact (shaped.fits other).unlocked (shaped.others own same)
  touched other pv uses := by
    by_cases same : other = id
    · subst same
      simp only [stages, Function.update_self] at uses
      exact touched pv uses
    · rw [stages, Function.update_of_ne same] at uses
      exact grows pv (shaped.touched other pv uses)
  served := served

/-- A step of a call without the mutex.  It may set the cell that it uses. -/
theorem apart (shaped : state.Shaped entry) {id : Nat}
    (stage : Stage Value)
    (stages : next.stages = Function.update state.stages id stage)
    (holder : next.holder = state.holder)
    (entries : next.world.entries = state.world.entries)
    (unlocked : stage.locked = false) (cell : stage.cell = none)
    (fits : ∀ other : State Value Context Done, other.Fits entry stage)
    (nextPv : next.world.nextPv = state.world.nextPv)
    (pvs : ∀ pv, (state.stages id).cell = some pv ∨
      next.world.pvs pv = state.world.pvs pv)
    (some_ : ∀ pv, (state.world.pvs pv).isSome → (next.world.pvs pv).isSome) :
    next.Shaped entry := by
  have grows : ∀ pv, state.Exists pv → next.Exists pv := by
    intro pv there
    exact ⟨nextPv ▸ there.1, some_ pv there.2⟩
  have keeps : ∀ pv value, state.New pv value → next.New pv value := by
    intro pv value new
    constructor
    · rw [nextPv]
      exact new.made
    · rcases pvs pv with uses | same
      · exact absurd uses (new.unused id)
      · rw [same]
        exact new.holds
    · intro other uses
      by_cases same : other = id
      · subst same
        simp [stages, cell] at uses
      · rw [stages, Function.update_of_ne same] at uses
        exact new.unused other uses
  constructor
  · intro other locked
    by_cases same : other = id
    · subst same
      simp [stages, unlocked] at locked
    · rw [stages, Function.update_of_ne same] at locked
      rw [holder]
      exact shaped.lock other locked
  · intro other
    by_cases same : other = id
    · subst same
      rw [stages, Function.update_self]
      exact fits next
    · rw [stages, Function.update_of_ne same]
      have fit := shaped.fits other
      have installs : ∀ value op, state.Installs entry value op →
          next.Installs entry value op := by
        intro value op installs
        cases op <;> simp_all [Installs, Unserved]
      cases stage : state.stages other <;> rw [stage] at fit <;>
        simp only [Fits] at fit ⊢ <;> grind [Unserved]
  · intro other pv uses
    by_cases same : other = id
    · subst same
      simp [stages, cell] at uses
    · rw [stages, Function.update_of_ne same] at uses
      exact grows pv (shaped.touched other pv uses)
  · intro pv serving
    rw [entries] at serving
    exact grows pv (shaped.served pv serving)

/-- Such a step to a stage where the call uses no cell; the cells stay. -/
theorem keeps (shaped : state.Shaped entry) {id : Nat}
    {stage : Stage Value}
    (own : state.holder = none ∨ (state.stages id).locked)
    (stages : next.stages = Function.update state.stages id stage)
    (lock : stage.locked → next.holder = some id)
    (fits : next.Fits entry stage) (cell : stage.cell = none)
    (grows : ∀ pv, state.Exists pv → next.Exists pv)
    (served : ∀ pv, (next.world.entries entry).state = .serving pv →
      state.Exists pv) : next.Shaped entry := by
  refine shaped.alone own stages lock fits grows ?_
    fun pv serving => grows pv (served pv serving)
  intro pv uses
  rw [cell] at uses
  simp at uses

theorem look (shaped : state.Shaped entry) {id : Nat} {op : Method Value}
    (stage : state.stages id = .holding op) :
    (state.look entry id op).Shaped entry := by
  have mine : (state.stages id).locked := locked_of stage rfl
  have own : state.holder = none ∨ (state.stages id).locked := .inr mine
  have holds := shaped.lock id mine
  have served := shaped.served
  cases op <;> cases now : (state.world.entries entry).state <;>
    simp only [State.look, now] <;>
    apply shaped.alone own rfl <;>
    simp_all [Stage.locked, Stage.cell, Fits, Installs, Unserved, Exists,
      setStage, release, answer, store, World.setState, World.setEntry]

theorem registered (shaped : state.Shaped entry) {id : Nat}
    {op : Method Value} (stage : state.stages id = .registering op)
    (step : state.registered entry id op = some next) :
    next.Shaped entry := by
  have mine : (state.stages id).locked := locked_of stage rfl
  have own : state.holder = none ∨ (state.stages id).locked := .inr mine
  have holds := shaped.lock id mine
  have served := shaped.served
  have fits := shaped.fits id
  rw [stage] at fits
  cases op <;> cases reg : (state.world.entries entry).reg <;>
    simp only [State.registered, reg, Option.some.injEq, reduceCtorEq]
      at step <;>
    subst step <;>
    apply shaped.alone own rfl <;>
    simp_all [Stage.locked, Stage.cell, Fits, Installs, Unserved, Exists,
      setStage, release, answer, store, World.setState, World.setEntry]

theorem installed (shaped : state.Shaped entry) {id : Nat}
    {op : Method Value} {db : Nat} {name : String} {value : Value}
    (stage : state.stages id = .installing op db name value)
    (accepts : Bool) :
    (state.installed id op db name value accepts).Shaped entry := by
  have mine : (state.stages id).locked := locked_of stage rfl
  have own : state.holder = none ∨ (state.stages id).locked := .inr mine
  have holds := shaped.lock id mine
  have fits := shaped.fits id
  rw [stage] at fits
  cases accepts with
  | false =>
      exact shaped.keeps own rfl (by simp [Stage.locked]) trivial rfl
        (fun _ there => there) shaped.served
  | true =>
      have grows : ∀ pv, state.Exists pv →
          (state.installed id op db name value true).Exists pv := by
        intro pv there
        simp only [State.installed, if_true, setStage, Exists,
          World.install, World.setPv, World.setName]
        have older := Nat.ne_of_lt there.1
        simp only [Function.update_of_ne older]
        exact ⟨Nat.lt_succ_of_lt there.1, there.2⟩
      have new : (state.installed id op db name value true).New
          state.world.nextPv value := by
        constructor
        · exact Nat.lt_succ_self _
        · simp [State.installed, setStage, World.install, World.setPv,
            World.setName]
        · intro other uses
          simp only [State.installed, if_true, setStage] at uses
          by_cases same : other = id
          · subst same
            cases op <;> simp [Stage.cell] at uses
          · rw [Function.update_of_ne same] at uses
            have there := shaped.touched other _ uses
            exact Nat.lt_irrefl _ there.1
      apply shaped.alone own rfl
      · intro _
        exact holds
      · have same : (state.installed id op db name value true).Installs
            entry value op := by
          cases op <;> exact fits.1
        cases op with
        | adopt db' name' => exact ⟨value, same, new⟩
        | _ => exact ⟨value, same, new⟩
      · exact grows
      · intro pv uses
        cases op <;> simp [Stage.cell] at uses
      · intro pv serving
        exact grows pv (shaped.served pv serving)

theorem advance (shaped : state.Shaped entry) {id : Nat} {accepts : Bool}
    (step : state.advance entry id accepts = some next) :
    next.Shaped entry := by
  have holds := shaped.lock id
  have fits := shaped.fits id
  cases stage : state.stages id with
  | idle => simp [State.advance, stage] at step
  | called op =>
      simp only [State.advance, stage, Option.ite_none_right_eq_some,
        Option.isNone_iff_eq_none, Option.some.injEq] at step
      obtain ⟨free, rfl⟩ := step
      exact shaped.keeps (.inl free) rfl (fun _ => rfl) trivial rfl
        (fun _ there => there) shaped.served
  | holding op =>
      simp only [State.advance, stage, Option.some.injEq] at step
      subst step
      exact shaped.look stage
  | registering op =>
      simp only [State.advance, stage] at step
      exact shaped.registered stage step
  | installing op db name value =>
      simp only [State.advance, stage, Option.some.injEq] at step
      subst step
      exact shaped.installed stage accepts
  | naming db name pv =>
      simp only [State.advance, stage, Option.some.injEq] at step
      subst step
      rw [stage] at fits holds
      obtain ⟨value, installs, new⟩ := fits
      refine shaped.keeps (.inr (locked_of stage rfl)) rfl
        (fun _ => holds rfl) ?_ rfl (fun _ there => there) shaped.served
      exact ⟨value, installs, new.moves rfl rfl new.made new.holds⟩
  | recording db name pv =>
      simp only [State.advance, stage, Option.some.injEq] at step
      subst step
      rw [stage] at fits holds
      obtain ⟨value, installs, new⟩ := fits
      refine shaped.keeps (.inr (locked_of stage rfl)) rfl
        (fun _ => holds rfl) ?_ rfl (fun _ there => there) ?_
      · refine ⟨value, ?_, new.moves rfl rfl new.made new.holds⟩
        simpa [Installs, World.setEntry] using installs
      · intro pv serving
        apply shaped.served pv
        simpa [World.setEntry] using serving
  | serving op pv =>
      simp only [State.advance, stage, Option.some.injEq] at step
      subst step
      rw [stage] at fits
      obtain ⟨value, _, new⟩ := fits
      refine shaped.keeps (.inr (locked_of stage rfl)) rfl
        (by simp [Stage.locked]) trivial rfl (fun _ there => there) ?_
      intro other serving
      have same : pv = other := by
        simpa [store, answer, release, setStage, World.setState,
          World.setEntry] using serving
      subst same
      exact ⟨new.made, Option.isSome_iff_exists.mpr ⟨value, new.holds⟩⟩
  | removing reg =>
      simp only [State.advance, stage, Option.some.injEq] at step
      subst step
      rw [stage] at holds
      exact shaped.keeps (.inr (locked_of stage rfl)) rfl
        (fun _ => holds rfl) trivial rfl (fun _ there => there) shaped.served
  | closing =>
      simp only [State.advance, stage, Option.some.injEq] at step
      subst step
      refine shaped.keeps (.inr (locked_of stage rfl)) rfl
        (by simp [Stage.locked]) trivial rfl (fun _ there => there) ?_
      intro other serving
      simp [store, answer, release, setStage, World.setState,
        World.setEntry] at serving
  | writing op pv value =>
      simp only [State.advance, stage, Option.some.injEq] at step
      subst step
      refine shaped.apart (.answered op .done) rfl rfl rfl rfl rfl
        (fun _ => trivial) rfl ?_ ?_
      · intro other
        by_cases same : other = pv
        · left
          simp [stage, Stage.cell, same]
        · right
          simp [World.setPv, same]
      · intro other there
        simp only [World.setPv, Function.update_apply]
        split
        · rfl
        · exact there
  | reading pv =>
      simp only [State.advance, stage, Option.some.injEq] at step
      subst step
      exact shaped.apart
        (.answered .current (.value (state.world.pvs pv))) rfl rfl rfl rfl rfl
        (fun _ => trivial) rfl (fun _ => .inr rfl) (fun _ there => there)
  | answered op answer =>
      simp only [State.advance, stage, Option.some.injEq] at step
      subst step
      exact shaped.apart (.returned op answer) rfl rfl rfl rfl rfl
        (fun _ => trivial) rfl (fun _ => .inr rfl) (fun _ there => there)
  | returned op answer => simp [State.advance, stage] at step

end Shaped

end State
end Repics.Ca.Server.Cell
