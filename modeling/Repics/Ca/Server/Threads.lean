import Repics.Ca.Server.Lifetime
import Repics.Lib.Locks

/-!
# Python threads on Channel Access PVs

The methods as programs over the interpreter lock and the mutexes of PVs,
providers, and servers.  A method holds the interpreter lock except where it
detaches, and the mutexes block without releasing it.  Some methods keep the
state mutex of the PV while they detach, others release it before.

What a program does alone is the operation of the same name on the world.
-/

namespace Repics.Ca.Server

inductive Lock where
  | gil
  | state (entry : Nat)
  | reg (entry : Nat)
  | pvs (provider : Nat)
  | inner (server : Nat)
  deriving DecidableEq

abbrev Code (Value : Type) := Locks.Program Lock (World Value)

inductive Call (Value : Type) where
  | op (op : Op Value)
  | current (entry : Nat)
  | isOpen (entry : Nat)

namespace Code

variable {Value : Type}

/-- `Python::detach`, and `block_on`, whose future does not take any of the
locks. -/
def detach (effect : World Value → World Value)
    (next : World Value → Code Value) : Code Value :=
  .unlock .gil <| .act effect fun world => .lock .gil (next world)

def registration (entry : Nat) (next : Option Registration → Code Value) :
    Code Value :=
  .lock (.reg entry) <| .read fun world =>
    .unlock (.reg entry) <| next (world.entries entry).reg

/-- `install`; there is no cell if the database refuses the name. -/
def install (db : Nat) (name : String) (value : Value) (accepts : Bool)
    (next : Option Nat → Code Value) : Code Value :=
  detach (fun world => if accepts then world.install db name value else world)
    fun world => next (if accepts then some world.nextPv else none)

def «open» (entry : Nat) (value : Value) (accepts : Bool)
    (next : Code Value) : Code Value :=
  .lock (.state entry) <| .read fun world =>
    match (world.entries entry).state with
    | .serving pv =>
        .unlock (.state entry) <| detach (·.setPv pv value) fun _ => next
    | _ =>
        registration entry fun reg =>
          match reg with
          | some reg =>
              install reg.db reg.name value accepts fun pv =>
                match pv with
                | some pv =>
                    .act (·.setState entry (.serving pv)) fun _ =>
                      .unlock (.state entry) next
                | none => .unlock (.state entry) next
          | none =>
              .act (·.setState entry (.detached value)) fun _ =>
                .unlock (.state entry) next

def post (entry : Nat) (value : Value) (next : Code Value) : Code Value :=
  .lock (.state entry) <| .read fun world =>
    match (world.entries entry).state with
    | .serving pv =>
        .unlock (.state entry) <| detach (·.setPv pv value) fun _ => next
    | .detached _ =>
        .act (·.setState entry (.detached value)) fun _ =>
          .unlock (.state entry) next
    | .closed => .unlock (.state entry) next

def close (entry : Nat) (next : Code Value) : Code Value :=
  .lock (.state entry) <| .read fun world =>
    match (world.entries entry).state with
    | .serving _ =>
        registration entry fun reg =>
          match reg with
          | some reg =>
              detach (·.setName reg.db reg.name none) fun _ =>
                .act (·.setState entry .closed) fun _ =>
                  .unlock (.state entry) next
          | none =>
              .act (·.setState entry .closed) fun _ =>
                .unlock (.state entry) next
    | _ =>
        .act (·.setState entry .closed) fun _ => .unlock (.state entry) next

def current (entry : Nat) (next : Code Value) : Code Value :=
  .lock (.state entry) <| .read fun world =>
    match (world.entries entry).state with
    | .serving _ => .unlock (.state entry) <| detach id fun _ => next
    | _ => .unlock (.state entry) next

def isOpen (entry : Nat) (next : Code Value) : Code Value :=
  .lock (.state entry) <| .read fun _ => .unlock (.state entry) next

def adopt (entry db : Nat) (name : String) (accepts : Bool)
    (next : Option StartError → Code Value) : Code Value :=
  .lock (.state entry) <| .read fun world =>
    match (world.entries entry).state with
    | .detached value =>
        install db name value accepts fun pv =>
          match pv with
          | some pv =>
              .lock (.reg entry) <| .act (fun world => world.setEntry entry
                { world.entries entry with reg := some ⟨db, name⟩ }) fun _ =>
                  .unlock (.reg entry) <|
                    .act (·.setState entry (.serving pv)) fun _ =>
                      .unlock (.state entry) (next none)
          | none => .unlock (.state entry) (next (some (.refused name)))
    | .serving _ => .unlock (.state entry) (next (some (.alreadyServed name)))
    | .closed => .unlock (.state entry) (next (some (.neverOpened name)))

def add (provider : Nat) (name : String) (entry : Nat) (next : Code Value) :
    Code Value :=
  .lock (.pvs provider) <| .act (·.add provider name entry) fun _ =>
    .unlock (.pvs provider) next

/-- `remove`; the mutex of the table is free again when the PV is closed. -/
def remove (provider : Nat) (name : String) (next : Code Value) :
    Code Value :=
  .lock (.pvs provider) <| .act (fun world => world.setRows provider
      ((world.providers provider).eraseP fun row => row.1 == name))
    fun world => .unlock (.pvs provider) <|
      match (world.providers provider).find? fun row => row.1 == name with
      | some row => close row.2 next
      | none => next

/-- The adoption of the rows of a provider, and what comes after an error or
after the last one. -/
def adoptRows (db : Nat) (accepts : String × Nat → Bool)
    (failed next : Code Value) : List (String × Nat) → Code Value
  | [] => next
  | row :: rows =>
      adopt row.2 db row.1 (accepts row) fun error =>
        match error with
        | some _ => failed
        | none => adoptRows db accepts failed next rows

/-- The adoption of the PVs of each provider. -/
def adoptAll (db : Nat) (accepts : String × Nat → Bool)
    (failed next : Code Value) : List Nat → Code Value
  | [] => next
  | provider :: providers =>
      .lock (.pvs provider) <| .read fun world =>
        .unlock (.pvs provider) <|
          adoptRows db accepts failed
            (adoptAll db accepts failed next providers)
            (world.providers provider)

/-- `CaServer::new`. -/
def newServer (providers : List Nat) (accepts : String × Nat → Bool)
    (binds : Bool) (next : Code Value) : Code Value :=
  .act World.newDb fun world =>
    adoptAll world.nextDb accepts next
      (detach id fun _ =>
        if binds then
          .act (fun started => { started with servers :=
            started.servers ++ [⟨world.nextDb, providers, true⟩] })
              fun _ => next
        else next) providers

def stop (server : Nat) (next : Code Value) : Code Value :=
  .lock (.inner server) <| .act (·.stop server) fun world =>
    .unlock (.inner server) <|
      if world.servers[server]?.any CaServer.running then
        detach id fun _ => next
      else next

def call : Call Value → Code Value → Code Value
  | .op (.open entry value accepts), next => «open» entry value accepts next
  | .op (.post entry value), next => post entry value next
  | .op (.close entry), next => close entry next
  | .op (.add provider name entry), next => add provider name entry next
  | .op (.remove provider name), next => remove provider name next
  | .op (.start providers accepts binds), next =>
      newServer providers accepts binds next
  | .op (.stop server), next => stop server next
  | .current entry, next => current entry next
  | .isOpen entry, next => isOpen entry next

/-- Python code that holds the interpreter lock during some calls. -/
def python (calls : List (Call Value)) : Code Value :=
  .lock .gil (calls.foldr call (.unlock .gil .done))

open Locks.Program (run)

section Run

variable {world : World Value} {next : Code Value}

theorem run_open (entry : Nat) (value : Value) (accepts : Bool) :
    («open» entry value accepts next).run world =
      next.run (world.open entry value accepts) := by
  simp only [«open», World.open, run, Locks.Program.read, id]
  cases (world.entries entry).state with
  | serving pv => rfl
  | _ =>
      simp only [registration, run, Locks.Program.read, id]
      cases (world.entries entry).reg with
      | none => rfl
      | some reg => cases accepts with
        | false => rfl
        | true => rfl

theorem run_post (entry : Nat) (value : Value) :
    (post entry value next).run world = next.run (world.post entry value) := by
  simp only [post, World.post, run, Locks.Program.read, id]
  cases (world.entries entry).state with
  | serving pv => rfl
  | detached old => rfl
  | closed => rfl

theorem run_close (entry : Nat) :
    (close entry next).run world = next.run (world.close entry) := by
  simp only [close, World.close, run, Locks.Program.read, id]
  cases (world.entries entry).state with
  | serving pv =>
      simp only [registration, run, Locks.Program.read, id]
      cases (world.entries entry).reg with
      | none => rfl
      | some reg => rfl
  | detached old => rfl
  | closed => rfl

theorem run_adopt (entry db : Nat) (name : String) (accepts : Bool)
    (next : Option StartError → Code Value) :
    (adopt entry db name accepts next).run world =
      match world.adopt entry db name accepts with
      | .ok after => (next none).run after
      | .error error => (next (some error)).run world := by
  simp only [adopt, World.adopt, run, Locks.Program.read, id]
  cases (world.entries entry).state with
  | serving pv => rfl
  | closed => rfl
  | detached value =>
      cases accepts with
      | false => rfl
      | true =>
          simp [install, detach, run, World.setState, World.setEntry,
            World.install, World.setName, World.setPv]

theorem run_remove (provider : Nat) (name : String) :
    (remove provider name next).run world =
      next.run (world.remove provider name) := by
  simp only [remove, World.remove, run]
  cases found : (world.providers provider).find? fun row =>
      row.1 == name with
  | some row => exact run_close row.2
  | none =>
      have none_ : (world.providers provider).eraseP (fun row =>
          row.1 == name) = world.providers provider := by
        apply List.eraseP_of_forall_not
        simpa using found
      simp [none_, World.setRows]

theorem run_adoptRows (db : Nat) (accepts : String × Nat → Bool)
    (failed : Code Value) (rows : List (String × Nat)) :
    (adoptRows db accepts failed next rows).run world =
      match World.adoptAll db accepts rows world with
      | (after, none) => next.run after
      | (after, some _) => failed.run after := by
  induction rows generalizing world with
  | nil => rfl
  | cons row rows induction =>
      simp only [adoptRows, World.adoptAll, run_adopt]
      cases world.adopt row.2 db row.1 (accepts row) with
      | error error => rfl
      | ok after => exact induction

theorem adoptAll_append (db : Nat) (accepts : String × Nat → Bool)
    (rows more : List (String × Nat)) :
    World.adoptAll db accepts (rows ++ more) world =
      match World.adoptAll db accepts rows world with
      | (after, none) => World.adoptAll db accepts more after
      | (after, some error) => (after, some error) := by
  induction rows generalizing world with
  | nil => rfl
  | cons row rows induction =>
      simp only [List.cons_append, World.adoptAll]
      cases world.adopt row.2 db row.1 (accepts row) with
      | error error => rfl
      | ok after => exact induction

theorem run_adoptAll (db : Nat) (accepts : String × Nat → Bool)
    (failed : Code Value) (providers : List Nat) :
    (adoptAll db accepts failed next providers).run world =
      match World.adoptAll db accepts (world.rows providers) world with
      | (after, none) => next.run after
      | (after, some _) => failed.run after := by
  induction providers generalizing world with
  | nil => rfl
  | cons provider providers induction =>
      have rows : world.rows (provider :: providers) =
          world.providers provider ++ world.rows providers := rfl
      have servers := World.adoptAll_servers db accepts
        (world.providers provider) world
      simp only [adoptAll, run, Locks.Program.read, id, run_adoptRows, rows,
        adoptAll_append]
      cases result : World.adoptAll db accepts (world.providers provider)
          world with
      | mk after error =>
          rw [result] at servers
          cases error with
          | some error => rfl
          | none =>
              simp only [induction]
              rw [World.rows_of_servers servers]

theorem run_newServer (providers : List Nat)
    (accepts : String × Nat → Bool) (binds : Bool) :
    (newServer providers accepts binds next).run world =
      next.run (world.newServer providers accepts binds).1 := by
  have rows : world.newDb.rows providers = world.rows providers := rfl
  simp only [newServer, World.newServer, run, run_adoptAll, rows]
  cases World.adoptAll world.nextDb accepts (world.rows providers)
      world.newDb with
  | mk after error =>
      cases error with
      | some error => rfl
      | none => cases binds with
        | false => rfl
        | true => rfl

theorem run_stop (server : Nat) :
    (stop server next).run world = next.run (world.stop server) := by
  simp only [stop, run]
  split
  · rfl
  · rfl

theorem run_current (entry : Nat) :
    (current entry next).run world = next.run world := by
  simp only [current, run, Locks.Program.read, id]
  cases (world.entries entry).state with
  | serving pv => rfl
  | detached value => rfl
  | closed => rfl

/-- What a call does to the world. -/
def effect (world : World Value) : Call Value → World Value
  | .op op => world.apply op
  | .current _ => world
  | .isOpen _ => world

theorem run_call (one : Call Value) :
    (call one next).run world = next.run (effect world one) := by
  cases one with
  | current entry => apply run_current
  | isOpen entry => rfl
  | op op => cases op with
    | «open» entry value accepts => apply run_open
    | post entry value => apply run_post
    | close entry => apply run_close
    | add provider name entry => rfl
    | remove provider name => apply run_remove
    | start providers accepts binds => apply run_newServer
    | stop server => apply run_stop

/-- Calls that nothing interrupts are the operations one after another. -/
theorem run_python (calls : List (Call Value)) :
    (python calls).run world = calls.foldl effect world := by
  simp only [python, run]
  induction calls generalizing world with
  | nil => rfl
  | cons one calls induction =>
      rw [List.foldr_cons, run_call, List.foldl_cons]
      exact induction

end Run

/-- The mutexes that may be kept while the interpreter lock is released. -/
def Long (lock : Lock) : Prop :=
  ∃ entry, lock = .state entry

open Locks.Program (Orderly)

section Orderly

variable {next : Code Value}

theorem orderly_detach {held : Set Lock}
    {effect : World Value → World Value} {next : World Value → Code Value}
    (under : Lock.gil ∈ held)
    (longs : ∀ other ∈ held, other ≠ Lock.gil → Long other)
    (orderly : ∀ world, (next world).Orderly .gil Long held) :
    (detach effect next).Orderly .gil Long held :=
  Orderly.detach under longs orderly

theorem orderly_block {effect : World Value → World Value}
    {next : World Value → Code Value}
    (orderly : ∀ world, (next world).Orderly .gil Long {.gil}) :
    (detach effect next).Orderly .gil Long {.gil} := by
  apply orderly_detach (Set.mem_singleton _) _ orderly
  intro other member isOther
  exact (isOther member).elim

theorem orderly_registration {held : Set Lock} {entry : Nat}
    {next : Option Registration → Code Value} (under : Lock.gil ∈ held)
    (absent : .reg entry ∉ held)
    (orderly : ∀ reg, (next reg).Orderly .gil Long held) :
    (registration entry next).Orderly .gil Long held := by
  refine ⟨absent, .inr under, ?_⟩
  intro world
  exact Orderly.unlock nofun absent under (orderly _)

/-- What is held in a method of a PV. -/
def inState (entry : Nat) : Set Lock :=
  insert (.state entry) {.gil}

theorem gil_mem (entry : Nat) : Lock.gil ∈ inState entry := by
  simp [inState]

theorem inState_long (entry : Nat) :
    ∀ other ∈ inState entry, other ≠ Lock.gil → Long other := by
  intro other member isOther
  exact ⟨entry, (member.resolve_right isOther)⟩

theorem orderly_state {entry : Nat} {next : World Value → Code Value}
    (orderly : ∀ world, (next world).Orderly .gil Long (inState entry)) :
    (Locks.Program.lock (.state entry) (.read next)).Orderly .gil Long
      {.gil} :=
  ⟨by simp, .inr rfl, orderly⟩

theorem orderly_unlock {entry : Nat} (orderly : next.Orderly .gil Long {.gil}) :
    (Locks.Program.unlock (.state entry) next).Orderly .gil Long
      (inState entry) :=
  Orderly.unlock nofun (by simp) rfl orderly

theorem orderly_install {db entry : Nat} {name : String} {value : Value}
    {accepts : Bool} {next : Option Nat → Code Value}
    (orderly : ∀ pv, (next pv).Orderly .gil Long (inState entry)) :
    (install db name value accepts next).Orderly .gil Long
      (inState entry) := by
  apply orderly_detach (gil_mem entry) (inState_long entry)
  intro world
  apply orderly

theorem orderly_inState_registration {entry : Nat}
    {next : Option Registration → Code Value}
    (orderly : ∀ reg, (next reg).Orderly .gil Long (inState entry)) :
    (registration entry next).Orderly .gil Long (inState entry) :=
  orderly_registration (gil_mem entry) (by simp [inState]) orderly

theorem orderly_served {entry : Nat} {effect : World Value → World Value}
    (orderly : next.Orderly .gil Long {.gil}) :
    (Locks.Program.unlock (.state entry)
      (detach effect fun _ => next)).Orderly .gil Long (inState entry) := by
  apply orderly_unlock
  apply orderly_block
  intro world
  exact orderly

theorem orderly_open (entry : Nat) (value : Value) (accepts : Bool)
    (orderly : next.Orderly .gil Long {.gil}) :
    («open» entry value accepts next).Orderly .gil Long {.gil} := by
  apply orderly_state
  intro world
  split
  case h_1 => exact orderly_served orderly
  case h_2 =>
    apply orderly_inState_registration
    intro reg
    cases reg with
    | none =>
        intro world
        exact orderly_unlock orderly
    | some reg =>
        apply orderly_install
        intro pv
        cases pv with
        | none => exact orderly_unlock orderly
        | some pv =>
            intro world
            exact orderly_unlock orderly

theorem orderly_post (entry : Nat) (value : Value)
    (orderly : next.Orderly .gil Long {.gil}) :
    (post entry value next).Orderly .gil Long {.gil} := by
  apply orderly_state
  intro world
  split
  case h_1 => exact orderly_served orderly
  case h_2 =>
    intro world
    exact orderly_unlock orderly
  case h_3 => exact orderly_unlock orderly

theorem orderly_close (entry : Nat)
    (orderly : next.Orderly .gil Long {.gil}) :
    (close entry next).Orderly .gil Long {.gil} := by
  apply orderly_state
  intro world
  split
  case h_1 =>
    apply orderly_inState_registration
    intro reg
    cases reg with
    | none =>
        intro world
        exact orderly_unlock orderly
    | some reg =>
        apply orderly_detach (gil_mem entry) (inState_long entry)
        intro _ world
        exact orderly_unlock orderly
  case h_2 =>
    intro world
    exact orderly_unlock orderly

theorem orderly_current (entry : Nat)
    (orderly : next.Orderly .gil Long {.gil}) :
    (current entry next).Orderly .gil Long {.gil} := by
  apply orderly_state
  intro world
  split
  case h_1 => exact orderly_served orderly
  case h_2 => exact orderly_unlock orderly

theorem orderly_isOpen (entry : Nat)
    (orderly : next.Orderly .gil Long {.gil}) :
    (isOpen entry next).Orderly .gil Long {.gil} := by
  apply orderly_state
  intro world
  exact orderly_unlock orderly

theorem orderly_adopt (entry db : Nat) (name : String) (accepts : Bool)
    {next : Option StartError → Code Value}
    (orderly : ∀ error, (next error).Orderly .gil Long {.gil}) :
    (adopt entry db name accepts next).Orderly .gil Long {.gil} := by
  apply orderly_state
  intro world
  split
  case h_1 =>
    apply orderly_install
    intro pv
    cases pv with
    | none => exact orderly_unlock (orderly _)
    | some pv =>
        refine ⟨by simp [inState], .inr (gil_mem entry), ?_⟩
        intro world
        refine Orderly.unlock nofun (by simp [inState]) (gil_mem entry) ?_
        intro world
        exact orderly_unlock (orderly none)
  case h_2 => exact orderly_unlock (orderly _)
  case h_3 => exact orderly_unlock (orderly _)

theorem orderly_adoptRows (db : Nat) (accepts : String × Nat → Bool)
    {failed : Code Value} (orderlyFailed : failed.Orderly .gil Long {.gil})
    (orderly : next.Orderly .gil Long {.gil}) (rows : List (String × Nat)) :
    (adoptRows db accepts failed next rows).Orderly .gil Long {.gil} := by
  induction rows with
  | nil => exact orderly
  | cons row rows induction =>
      apply orderly_adopt
      intro error
      cases error with
      | some error => exact orderlyFailed
      | none => exact induction

/-- A mutex is taken for an action without the interpreter lock's release. -/
theorem orderly_brief (name : Lock) (other : name ≠ .gil)
    {effect : World Value → World Value} {next : World Value → Code Value}
    (orderly : ∀ world, (next world).Orderly .gil Long {.gil}) :
    (Locks.Program.lock name (.act effect fun world =>
      .unlock name (next world))).Orderly .gil Long {.gil} := by
  refine ⟨other, .inr rfl, ?_⟩
  intro world
  exact Orderly.unlock other other rfl (orderly world)

theorem orderly_adoptAll (db : Nat) (accepts : String × Nat → Bool)
    {failed : Code Value} (orderlyFailed : failed.Orderly .gil Long {.gil})
    (orderly : next.Orderly .gil Long {.gil}) (providers : List Nat) :
    (adoptAll db accepts failed next providers).Orderly .gil Long
      {.gil} := by
  induction providers with
  | nil => exact orderly
  | cons provider providers induction =>
      refine orderly_brief (.pvs provider) nofun ?_
      intro world
      exact orderly_adoptRows db accepts orderlyFailed induction _

theorem orderly_call (one : Call Value)
    (orderly : next.Orderly .gil Long {.gil}) :
    (call one next).Orderly .gil Long {.gil} := by
  cases one with
  | current entry => exact orderly_current entry orderly
  | isOpen entry => exact orderly_isOpen entry orderly
  | op op => cases op with
    | «open» entry value accepts =>
        exact orderly_open entry value accepts orderly
    | post entry value => exact orderly_post entry value orderly
    | close entry => exact orderly_close entry orderly
    | add provider name entry =>
        refine orderly_brief (.pvs provider) nofun ?_
        intro world
        exact orderly
    | remove provider name =>
        refine orderly_brief (.pvs provider) nofun ?_
        intro world
        split
        · exact orderly_close _ orderly
        · exact orderly
    | start providers accepts binds =>
        intro world
        apply orderly_adoptAll _ _ orderly
        apply orderly_block
        intro _
        split
        · intro _
          exact orderly
        · exact orderly
    | stop server =>
        refine orderly_brief (.inner server) nofun ?_
        intro world
        split
        · exact orderly_block fun _ => orderly
        · exact orderly

theorem orderly_python (calls : List (Call Value)) :
    (python calls).Orderly .gil Long ∅ := by
  refine ⟨Set.notMem_empty _, .inl rfl, ?_⟩
  rw [insert_empty_eq]
  induction calls with
  | nil =>
      refine ⟨rfl, rfl, ?_, ?_⟩
      · intro _ other member isOther
        exact (isOther member).elim
      · exact Set.sdiff_self
  | cons one calls induction => exact orderly_call one induction

end Orderly

end Code

/-- Any number of threads with any calls, from a fresh interpreter. -/
def threads (Thread Value : Type) [DecidableEq Thread] :
    Transition (Locks.State Thread Lock (World Value))
      (Locks.Label Thread (List (Call Value))) :=
  Locks.machine Code.python World.fresh

/-- Threads do not wait for each other in a circle in any run in which no
thread comes for the state of a PV while another one is detached with it;
when one does, both may wait for good. -/
theorem threads_not_deadlocked (Thread Value : Type) [DecidableEq Thread] :
    (threads Thread Value).Guards
      (Locks.Uncontended Code.python Code.Long)
      fun state => ¬Locks.Deadlocked state :=
  Locks.uncontended_guards Code.orderly_python (by simp [Code.Long])

/-- A thread closes a PV that is served, and is detached with its state;
another one asks whether the PV is open. -/
def closeAndAsk : List (Locks.Label Nat (List (Call Nat))) :=
  .begin 0 [.op (.open 0 5 true), .op (.add 0 "a" 0),
      .op (.start [0] (fun _ => true) true), .op (.close 0)] ::
    List.replicate 35 (.run 0) ++
      [.begin 1 [.isOpen 0], .run 1, .run 0]

/-- The state that the two are left in. -/
def hung : Locks.State Nat Lock (World Nat) :=
  (closeAndAsk.foldlM (Locks.next Code.python)
    ⟨fun _ => none, World.fresh, fun _ => .done⟩).get rfl

/-- The first thread waits for the interpreter lock, and the second one, which
has it, for the state of the PV. -/
theorem threads_deadlock :
    (threads Nat Nat).Reachable hung ∧ Locks.Deadlocked hung := by
  constructor
  · refine ⟨_, closeAndAsk, rfl, ?_⟩
    exact Transition.Run.of_foldlM (Option.some_get _).symm
  · refine ⟨0, ?_⟩
    apply Relation.TransGen.tail (b := 1)
    · exact Relation.TransGen.single ⟨.gil, _, rfl, rfl⟩
    · exact ⟨.state 0, _, rfl, rfl⟩

end Repics.Ca.Server
