import Mathlib.Logic.Function.Basic
import Mathlib.Order.BooleanAlgebra.Set
import Repics.Lib.Transition

/-!
# Threads under a master lock

Threads run programs that take and release blocking locks and act on a shared
store.  Locks are taken and released under one master lock, which a thread may
release and take again while it holds some of the others.  Such a program is
orderly.  Threads that run orderly programs wait for one another in a circle
only after one of them came for a lock that another one kept without the
master lock.
-/

namespace Locks

/-- A program; an action may read the store for what comes next. -/
inductive Program (Lock Store : Type) where
  | done
  | lock (name : Lock) (next : Program Lock Store)
  | unlock (name : Lock) (next : Program Lock Store)
  | act (effect : Store → Store) (next : Store → Program Lock Store)

namespace Program

variable {Lock Store : Type}

/-- Reading the store. -/
def read (next : Store → Program Lock Store) : Program Lock Store :=
  .act id next

/-- What a program does to the store when it runs alone. -/
def run : Program Lock Store → Store → Store
  | .done, store => store
  | .lock _ next, store => next.run store
  | .unlock _ next, store => next.run store
  | .act effect next, store => (next store).run (effect store)

/-- The program takes and releases locks under the master lock, releases what
it took, and keeps only long locks when it releases the master lock. -/
def Orderly (master : Lock) (long : Lock → Prop) :
    Set Lock → Program Lock Store → Prop
  | held, .done => held = ∅
  | held, .lock name next =>
      name ∉ held ∧ (name = master ∨ master ∈ held) ∧
        Orderly master long (insert name held) next
  | held, .unlock name next =>
      name ∈ held ∧ master ∈ held ∧
        (name = master → ∀ other ∈ held, other ≠ master → long other) ∧
        Orderly master long (held \ {name}) next
  | held, .act _ next => ∀ store, Orderly master long held (next store)

section Orderly

variable {master : Lock} {long : Lock → Prop} {held : Set Lock}

theorem Orderly.unlock {name : Lock} {next : Program Lock Store}
    (other : name ≠ master) (absent : name ∉ held) (under : master ∈ held)
    (orderly : next.Orderly master long held) :
    (Program.unlock name next).Orderly master long (insert name held) := by
  refine ⟨Set.mem_insert name held, Set.mem_insert_of_mem name under,
    fun same => (other same).elim, ?_⟩
  rwa [Set.insert_sdiff_self_of_notMem absent]

theorem Orderly.detach {effect : Store → Store}
    {next : Store → Program Lock Store} (under : master ∈ held)
    (longs : ∀ other ∈ held, other ≠ master → long other)
    (orderly : ∀ store, (next store).Orderly master long held) :
    (Program.unlock master (.act effect fun store =>
      .lock master (next store))).Orderly master long held := by
  refine ⟨under, under, fun _ => longs, ?_⟩
  intro store
  refine ⟨fun member => member.2 rfl, .inl rfl, ?_⟩
  rw [Set.insert_sdiff_self_of_mem under]
  exact orderly store

end Orderly

end Program

/-- The owner of each lock, and the rest of the program of each thread. -/
structure State (Thread Lock Store : Type) where
  owner : Lock → Option Thread
  store : Store
  program : Thread → Program Lock Store

inductive Label (Thread Call : Type) where
  | begin (thread : Thread) (call : Call)
  | run (thread : Thread)

def Label.thread {Thread Call : Type} : Label Thread Call → Thread
  | .begin thread _ => thread
  | .run thread => thread

section Machine

variable {Thread Lock Store Call : Type} [DecidableEq Thread]
  [DecidableEq Lock]

/-- A thread that has nothing to do begins a call; a lock that is owned makes
its thread wait. -/
def next (code : Call → Program Lock Store)
    (state : State Thread Lock Store) :
    Label Thread Call → Option (State Thread Lock Store)
  | .begin thread call =>
      match state.program thread with
      | .done => some { state with
          program := Function.update state.program thread (code call) }
      | _ => none
  | .run thread =>
      match state.program thread with
      | .done => none
      | .lock name rest =>
          match state.owner name with
          | none => some { state with
              owner := Function.update state.owner name (some thread)
              program := Function.update state.program thread rest }
          | some _ => none
      | .unlock name rest => some { state with
          owner := Function.update state.owner name none
          program := Function.update state.program thread rest }
      | .act effect rest => some { state with
          store := effect state.store
          program := Function.update state.program thread
            (rest state.store) }

def machine (code : Call → Program Lock Store) (store : Store) :
    Transition (State Thread Lock Store) (Label Thread Call) :=
  .ofPartial (fun state => state = ⟨fun _ => none, store, fun _ => .done⟩)
    (next code)

end Machine

section Waiting

variable {Thread Lock Store Call : Type}

/-- A thread waits for the owner of the lock that it comes for. -/
def WaitsFor (state : State Thread Lock Store) (thread other : Thread) :
    Prop :=
  ∃ name rest, state.program thread = .lock name rest ∧
    state.owner name = some other

/-- Some threads wait for one another in a circle. -/
def Deadlocked (state : State Thread Lock Store) : Prop :=
  ∃ thread, Relation.TransGen (WaitsFor state) thread thread

/-- What the thread of a step continues with. -/
def continuation (code : Call → Program Lock Store)
    (state : State Thread Lock Store) :
    Label Thread Call → Program Lock Store
  | .begin _ call => code call
  | .run thread =>
      match state.program thread with
      | .done => .done
      | .lock _ rest => rest
      | .unlock _ rest => rest
      | .act _ rest => rest state.store

/-- The thread does not come for a long lock that another one has. -/
def Uncontended (code : Call → Program Lock Store) (long : Lock → Prop)
    (state : State Thread Lock Store) (label : Label Thread Call) : Prop :=
  ∀ name rest, continuation code state label = .lock name rest →
    long name → ∀ other, state.owner name = some other →
      other = label.thread

/-- The locks of a thread. -/
def held (state : State Thread Lock Store) (thread : Thread) : Set Lock :=
  {name | state.owner name = some thread}

end Waiting

section Sound

variable {Thread Lock Store Call : Type} {master : Lock}
  {long : Lock → Prop} {code : Call → Program Lock Store}
  {state after : State Thread Lock Store}

/-- What is left of each program is orderly, and a thread without the master
lock has long locks only. -/
structure Sound (master : Lock) (long : Lock → Prop)
    (state : State Thread Lock Store) : Prop where
  orderly : ∀ thread,
    (state.program thread).Orderly master long (held state thread)
  kept : ∀ thread, master ∈ held state thread ∨
    ∀ name ∈ held state thread, long name

theorem held_unique {name : Lock} {thread other : Thread}
    (first : name ∈ held state thread) (second : name ∈ held state other) :
    thread = other :=
  Option.some.inj (Eq.trans (Eq.symm first) second)

/-- A thread that comes for another lock than the master lock has the
master lock, and does not have the other one. -/
theorem Sound.lock (sound : Sound master long state) {thread : Thread}
    {name : Lock} {rest : Program Lock Store}
    (isLock : state.program thread = .lock name rest) :
    name ∉ held state thread ∧
      (name ≠ master → master ∈ held state thread) := by
  have orderly := sound.orderly thread
  rw [isLock] at orderly
  exact ⟨orderly.1, fun other => orderly.2.1.resolve_left other⟩

/-- Locks that threads come for, other than the master lock, are free. -/
def Free (master : Lock) (state : State Thread Lock Store) : Prop :=
  ∀ thread name rest, state.program thread = .lock name rest →
    name ≠ master → state.owner name = none

/-- Threads wait for the owner of the master lock only, and that one does not
wait. -/
theorem Free.not_deadlocked (free : Free master state)
    (sound : Sound master long state) : ¬Deadlocked state := by
  rintro ⟨thread, circle⟩
  have waits : ∀ first second, WaitsFor state first second →
      master ∈ held state second ∧ master ∉ held state first := by
    rintro first second ⟨name, rest, isLock, owned⟩
    by_cases isMaster : name = master
    · subst isMaster
      exact ⟨owned, (sound.lock isLock).1⟩
    · rw [free first name rest isLock isMaster] at owned
      simp at owned
  obtain ⟨second, first, _⟩ := Relation.TransGen.head'_iff.mp circle
  obtain ⟨before, _, last⟩ := Relation.TransGen.tail'_iff.mp circle
  exact (waits thread second first).2 (waits before thread last).1

variable [DecidableEq Thread] [DecidableEq Lock]

/-- A step of a thread leaves the others as they are. -/
structure Stepped (master : Lock) (long : Lock → Prop)
    (code : Call → Program Lock Store) (state after : State Thread Lock Store)
    (label : Label Thread Call) : Prop where
  program : after.program label.thread = continuation code state label
  others : ∀ other, other ≠ label.thread →
    after.program other = state.program other ∧
      held after other = held state other
  orderly : (after.program label.thread).Orderly master long
    (held after label.thread)
  kept : master ∈ held after label.thread ∨
    ∀ name ∈ held after label.thread, long name
  taken : ∀ name ∈ held after label.thread,
    name ∈ held state label.thread ∨
      ∃ rest, state.program label.thread = .lock name rest

theorem held_take {owner : Lock → Option Thread} {name : Lock}
    {thread : Thread} (free : owner name = none) (other : Thread) :
    {lock | Function.update owner name (some thread) lock = some other} =
      if other = thread then insert name {lock | owner lock = some other}
      else {lock | owner lock = some other} := by
  ext lock
  by_cases same : lock = name
  · subst same
    by_cases own : other = thread
    · simp [own]
    · simp [own, free, Ne.symm own]
  · by_cases own : other = thread
    · simp [own, same]
    · simp [own, Function.update_of_ne same]

theorem held_drop {owner : Lock → Option Thread} {name : Lock}
    {thread : Thread} (owned : owner name = some thread) (other : Thread) :
    {lock | Function.update owner name none lock = some other} =
      if other = thread then {lock | owner lock = some other} \ {name}
      else {lock | owner lock = some other} := by
  ext lock
  by_cases same : lock = name
  · subst same
    by_cases own : other = thread
    · simp [own]
    · simp [own, owned, Ne.symm own]
  · by_cases own : other = thread
    · simp [own, same]
    · simp [own, Function.update_of_ne same]

omit [DecidableEq Lock] in
theorem Sound.stepBegin (sound : Sound master long state)
    {thread : Thread} {call : Call}
    (orderly : (code call).Orderly master long ∅)
    (idle : state.program thread = .done) :
    Stepped master long code state { state with
      program := Function.update state.program thread (code call) }
      (.begin thread call) := by
  have nothing := sound.orderly thread
  rw [idle] at nothing
  constructor
  case program => simp [Label.thread, continuation]
  case others =>
    intro other differs
    exact ⟨Function.update_of_ne differs _ _, rfl⟩
  case orderly =>
    simp only [Label.thread, Function.update_self]
    change (code call).Orderly master long (held state thread)
    rw [show held state thread = ∅ from nothing]
    exact orderly
  case kept => exact sound.kept thread
  case taken =>
    intro name member
    exact .inl member

theorem Sound.stepLock (sound : Sound master long state) {thread : Thread}
    {name : Lock} {rest : Program Lock Store}
    (isLock : state.program thread = .lock name rest)
    (free : state.owner name = none) :
    Stepped master long code state { state with
      owner := Function.update state.owner name (some thread)
      program := Function.update state.program thread rest }
      (.run thread) := by
  have orderly := sound.orderly thread
  rw [isLock] at orderly
  obtain ⟨-, under, orderly⟩ := orderly
  have take := @held_take _ _ _ _ state.owner name thread free
  constructor
  case program => simp [Label.thread, continuation, isLock]
  case others =>
    intro other differs
    refine ⟨Function.update_of_ne differs _ _, ?_⟩
    exact (take other).trans (if_neg differs)
  case orderly =>
    simp only [Label.thread, Function.update_self]
    rw [held, take, if_pos rfl]
    exact orderly
  case kept =>
    simp only [Label.thread]
    rw [held, take, if_pos rfl]
    left
    rcases under with rfl | under
    · exact Set.mem_insert name _
    · exact Set.mem_insert_of_mem name under
  case taken =>
    simp only [Label.thread]
    rw [held, take, if_pos rfl]
    intro lock member
    rcases member with rfl | old
    · exact .inr ⟨rest, isLock⟩
    · exact .inl old

theorem Sound.stepUnlock (sound : Sound master long state) {thread : Thread}
    {name : Lock} {rest : Program Lock Store}
    (isUnlock : state.program thread = .unlock name rest) :
    Stepped master long code state { state with
      owner := Function.update state.owner name none
      program := Function.update state.program thread rest }
      (.run thread) := by
  have orderly := sound.orderly thread
  rw [isUnlock] at orderly
  obtain ⟨owned, under, longs, orderly⟩ := orderly
  have drop := @held_drop _ _ _ _ state.owner name thread owned
  constructor
  case program => simp [Label.thread, continuation, isUnlock]
  case others =>
    intro other differs
    refine ⟨Function.update_of_ne differs _ _, ?_⟩
    exact (drop other).trans (if_neg differs)
  case orderly =>
    simp only [Label.thread, Function.update_self]
    rw [held, drop, if_pos rfl]
    exact orderly
  case kept =>
    simp only [Label.thread]
    rw [held, drop, if_pos rfl]
    by_cases isMaster : name = master
    · right
      intro other member
      apply longs isMaster other member.1
      rw [← isMaster]
      exact member.2
    · left
      exact ⟨under, Ne.symm isMaster⟩
  case taken =>
    simp only [Label.thread]
    rw [held, drop, if_pos rfl]
    intro lock member
    exact .inl member.1

omit [DecidableEq Lock] in
theorem Sound.stepAct (sound : Sound master long state) {thread : Thread}
    {effect : Store → Store} {rest : Store → Program Lock Store}
    (isAct : state.program thread = .act effect rest) :
    Stepped master long code state { state with
      store := effect state.store
      program := Function.update state.program thread (rest state.store) }
      (.run thread) := by
  have orderly := sound.orderly thread
  rw [isAct] at orderly
  constructor
  case program => simp [Label.thread, continuation, isAct]
  case others =>
    intro other differs
    exact ⟨Function.update_of_ne differs _ _, rfl⟩
  case orderly =>
    simp only [Label.thread, Function.update_self]
    exact orderly state.store
  case kept => exact sound.kept thread
  case taken =>
    intro name member
    exact .inl member

theorem Sound.step (sound : Sound master long state)
    (codes : ∀ call, (code call).Orderly master long ∅)
    {label : Label Thread Call} (step : next code state label = some after) :
    Stepped master long code state after label := by
  cases label with
  | begin thread call =>
      simp only [next] at step
      split at step
      case h_2 => simp at step
      case h_1 idle =>
        obtain rfl := Option.some.inj step
        exact sound.stepBegin (codes call) idle
  | run thread =>
      simp only [next] at step
      split at step
      case h_1 => simp at step
      case h_2 name rest isLock =>
        split at step
        case h_2 => simp at step
        case h_1 free =>
          obtain rfl := Option.some.inj step
          exact sound.stepLock isLock free
      case h_3 name rest isUnlock =>
        obtain rfl := Option.some.inj step
        exact sound.stepUnlock isUnlock
      case h_4 effect rest isAct =>
        obtain rfl := Option.some.inj step
        exact sound.stepAct isAct

theorem Sound.preserved (sound : Sound master long state)
    (codes : ∀ call, (code call).Orderly master long ∅)
    {label : Label Thread Call} (step : next code state label = some after) :
    Sound master long after := by
  have stepped := sound.step codes step
  constructor
  · intro thread
    by_cases own : thread = label.thread
    · rw [own]
      exact stepped.orderly
    · obtain ⟨program, locks⟩ := stepped.others thread own
      rw [program, locks]
      exact sound.orderly thread
  · intro thread
    by_cases own : thread = label.thread
    · rw [own]
      exact stepped.kept
    · rw [(stepped.others thread own).2]
      exact sound.kept thread

variable {store : Store}

theorem Sound.invariant
    (codes : ∀ call, (code call).Orderly master long ∅) :
    (machine code store : Transition (State Thread Lock Store)
      (Label Thread Call)).Invariant (Sound master long) where
  initial := by
    intro state start
    rw [start]
    constructor
    · intro thread
      simp [held, Program.Orderly]
    · intro thread
      simp [held]
  preserved state label after sound step := sound.preserved codes step

theorem Free.step (free : Free master state)
    (codes : ∀ call, (code call).Orderly master long ∅)
    (sound : Sound master long state) {label : Label Thread Call}
    (step : next code state label = some after)
    (uncontended : Uncontended code long state label) :
    Free master after := by
  have stepped := sound.step codes step
  have later := sound.preserved codes step
  intro thread name rest isLock other
  obtain ⟨absent, under⟩ := later.lock isLock
  replace under := under other
  cases owned : after.owner name with
  | none => rfl
  | some owner =>
      have inside : name ∈ held after owner := owned
      have differs : owner ≠ thread := by
        rintro rfl
        exact absent inside
      by_cases own : thread = label.thread
      · subst own
        obtain ⟨_, locks⟩ := stepped.others owner differs
        rcases later.kept owner with both | longs
        · exact (differs (held_unique both under)).elim
        · rw [stepped.program] at isLock
          rw [locks] at inside
          exact (differs (uncontended name rest isLock
            (longs name (locks ▸ inside)) owner inside)).elim
      · obtain ⟨program, locks⟩ := stepped.others thread own
        rw [program] at isLock
        have before := free thread name rest isLock other
        by_cases taker : owner = label.thread
        · subst taker
          rcases stepped.taken name inside with old | ⟨more, takes⟩
          · rw [held, Set.mem_ofPred_eq, before] at old
            simp at old
          · rw [locks] at under
            exact (differs (held_unique ((sound.lock takes).2 other)
              under)).elim
        · rw [(stepped.others owner taker).2, held, Set.mem_ofPred_eq,
            before] at inside
          simp at inside

/-- A thread that has locks without the master lock acts until it comes for
the master lock. -/
theorem Sound.returns (codes : ∀ call, (code call).Orderly master long ∅)
    (sound : Sound master long state) {thread : Thread} {name : Lock}
    (inside : name ∈ held state thread)
    (without : master ∉ held state thread) :
    ∃ labels last, (machine code store).Run state labels last ∧
      last.owner = state.owner ∧
      (∀ other, other ≠ thread → last.program other = state.program other) ∧
      ∃ rest, last.program thread = .lock master rest := by
  generalize isProgram : state.program thread = program
  induction program generalizing state with
  | done =>
      have orderly := sound.orderly thread
      rw [isProgram] at orderly
      rw [show held state thread = ∅ from orderly] at inside
      exact inside.elim
  | lock lock rest =>
      have isMaster : lock = master := by
        by_contra other
        exact without ((sound.lock isProgram).2 other)
      subst isMaster
      exact ⟨[], state, .nil state, rfl, fun _ _ => rfl, rest, isProgram⟩
  | unlock lock rest =>
      have orderly := sound.orderly thread
      rw [isProgram] at orderly
      exact (without orderly.2.1).elim
  | act effect rest induction =>
      have step : next code state (.run thread) = some { state with
          store := effect state.store
          program := Function.update state.program thread
            (rest state.store) } := by
        simp [next, isProgram]
      obtain ⟨labels, last, run, owner, others, returns⟩ :=
        induction state.store (sound.preserved codes step) inside without
          (Function.update_self ..)
      refine ⟨.run thread :: labels, last, .cons step run, owner, ?_,
        returns⟩
      intro other differs
      rw [others other differs]
      exact Function.update_of_ne differs _ _

/-- Orderly threads do not wait for one another in a circle as long as none
comes for a long lock that another one has; a deadlock may follow when one
does. -/
theorem uncontended_guards
    (codes : ∀ call, (code call).Orderly master long ∅)
    (short : ¬long master) :
    (machine code store : Transition (State Thread Lock Store)
      (Label Thread Call)).Guards (Uncontended code long)
        fun state => ¬Deadlocked state where
  enough state reachable := by
    have invariant : ((machine code store : Transition
        (State Thread Lock Store) (Label Thread Call)).restrict
          (Uncontended code long)).Invariant fun state =>
            Sound master long state ∧ Free master state := by
      apply ((Sound.invariant codes).restrict _).strengthen
      · intro state start thread name rest isLock
        rw [start] at isLock
        simp at isLock
      · intro state label after sound free step
        exact free.step codes sound step.1 step.2
    obtain ⟨sound, free⟩ := invariant.reachable reachable
    exact free.not_deadlocked sound
  needed state label after reachable step contended := by
    have sound := (Sound.invariant codes).reachable reachable
    have stepped := sound.step codes step
    have later := sound.preserved codes step
    simp only [Uncontended, not_forall] at contended
    obtain ⟨name, rest, isLock, isLong, other, owned, differs⟩ := contended
    rw [← stepped.program] at isLock
    have inside : name ∈ held after other := by
      rw [(stepped.others other differs).2]
      exact owned
    have under : master ∈ held after label.thread := by
      apply (later.lock isLock).2
      rintro rfl
      exact short isLong
    have without : master ∉ held after other :=
      fun both => differs (held_unique both under)
    obtain ⟨labels, last, run, owner, others, back, returns⟩ :=
      later.returns codes inside without
    refine ⟨labels, last, run, not_not.mpr ⟨label.thread, ?_⟩⟩
    apply Relation.TransGen.tail (b := other)
    · apply Relation.TransGen.single
      refine ⟨name, rest, ?_, ?_⟩
      · rw [others label.thread (Ne.symm differs)]
        exact isLock
      · rw [owner]
        exact inside
    · refine ⟨master, back, returns, ?_⟩
      rw [owner]
      exact under

end Sound

end Locks
