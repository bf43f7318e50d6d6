import Mathlib.Logic.Function.Basic
import Repics.Lib.Transition

/-!
# Channel Access servers and their PVs

A served PV is a `ProcessVariable` cell in the database of a server.  The
Python side of a PV holds its value itself until a server adopts it; from then
on it has a registration, the database and the name it was adopted under, and
while it is open it delegates to its cell.  Providers list PVs by name, and a
server adopts those of its providers when it starts.

Whether a database accepts a name and whether the ports can be bound is the
environment's choice.  PVs, providers, databases, and cells are known by number;
PVs that were never opened and providers without PVs exist from the start.
-/

namespace Repics.Ca.Server

structure Registration where
  db : Nat
  name : String
  deriving DecidableEq

inductive ValueState (Value : Type) where
  | closed
  | detached (value : Value)
  | serving (pv : Nat)
  deriving DecidableEq

structure CaPvEntry (Value : Type) where
  state : ValueState Value
  reg : Option Registration

/-- The cells of a database by name. -/
abbrev PvDatabase := String → Option Nat

/-- A server that was started; it runs until it is stopped. -/
structure CaServer where
  db : Nat
  providers : List Nat
  running : Bool
  deriving DecidableEq

/-- Why `CaServer::new` fails. -/
inductive StartError where
  | alreadyServed (name : String)
  | neverOpened (name : String)
  | refused (name : String)
  | bind
  deriving DecidableEq

structure World (Value : Type) where
  pvs : Nat → Option Value
  nextPv : Nat
  dbs : Nat → PvDatabase
  nextDb : Nat
  entries : Nat → CaPvEntry Value
  providers : Nat → List (String × Nat)
  servers : List CaServer

namespace World

variable {Value : Type}

def fresh : World Value where
  pvs _ := none
  nextPv := 0
  dbs _ _ := none
  nextDb := 0
  entries _ := ⟨.closed, none⟩
  providers _ := []
  servers := []

def setEntry (world : World Value) (entry : Nat) (pv : CaPvEntry Value) :
    World Value :=
  { world with entries := Function.update world.entries entry pv }

def setState (world : World Value) (entry : Nat) (state : ValueState Value) :
    World Value :=
  world.setEntry entry { world.entries entry with state := state }

def setName (world : World Value) (db : Nat) (name : String)
    (pv : Option Nat) : World Value :=
  { world with
    dbs := Function.update world.dbs db
      (Function.update (world.dbs db) name pv) }

def setPv (world : World Value) (pv : Nat) (value : Value) : World Value :=
  { world with pvs := Function.update world.pvs pv (some value) }

section Entry

variable (world : World Value) (entry : Nat)

/-- `install` where the database accepts the name: a new cell, with the number
`nextPv`. -/
def install (db : Nat) (name : String) (value : Value) : World Value :=
  { (world.setPv world.nextPv value).setName db name (some world.nextPv) with
    nextPv := world.nextPv + 1 }

/-- `open`; an error of the database leaves the PV as it is. -/
def «open» (value : Value) (accepts : Bool) : World Value :=
  match (world.entries entry).state with
  | .serving pv => world.setPv pv value
  | _ =>
      match (world.entries entry).reg with
      | some reg =>
          if accepts then
            (world.install reg.db reg.name value).setState entry
              (.serving world.nextPv)
          else world
      | none => world.setState entry (.detached value)

/-- `post`, which is an error on a closed PV. -/
def post (value : Value) : World Value :=
  match (world.entries entry).state with
  | .serving pv => world.setPv pv value
  | .detached _ => world.setState entry (.detached value)
  | .closed => world

def close : World Value :=
  match (world.entries entry).state, (world.entries entry).reg with
  | .serving _, some reg =>
      (world.setName reg.db reg.name none).setState entry .closed
  | _, _ => world.setState entry .closed

def current : Option Value :=
  match (world.entries entry).state with
  | .serving pv => world.pvs pv
  | .detached value => some value
  | .closed => none

def isOpen : Bool :=
  match (world.entries entry).state with
  | .closed => false
  | _ => true

/-- `adopt` into a database under a name. -/
def adopt (db : Nat) (name : String) (accepts : Bool) :
    Except StartError (World Value) :=
  match (world.entries entry).state with
  | .detached value =>
      if accepts then
        .ok ((world.install db name value).setEntry entry
          ⟨.serving world.nextPv, some ⟨db, name⟩⟩)
      else .error (.refused name)
  | .serving _ => .error (.alreadyServed name)
  | .closed => .error (.neverOpened name)

end Entry

section Provider

variable (world : World Value) (provider : Nat)

def setRows (rows : List (String × Nat)) : World Value :=
  { world with providers := Function.update world.providers provider rows }

/-- `add`, which refuses a name that the provider lists already. -/
def add (name : String) (entry : Nat) : World Value :=
  if (world.providers provider).any fun row => row.1 == name then world
  else world.setRows provider (world.providers provider ++ [(name, entry)])

/-- `remove`, which closes the PV. -/
def remove (name : String) : World Value :=
  match (world.providers provider).find? fun row => row.1 == name with
  | some row =>
      (world.setRows provider ((world.providers provider).eraseP fun row =>
        row.1 == name)).close row.2
  | none => world

end Provider

/-- The adoption of a list of PVs, one after another, up to the first
error. -/
def adoptAll (db : Nat) (accepts : String × Nat → Bool) :
    List (String × Nat) → World Value → World Value × Option StartError
  | [], world => (world, none)
  | row :: rows, world =>
      match world.adopt row.2 db row.1 (accepts row) with
      | .error error => (world, some error)
      | .ok next => adoptAll db accepts rows next

section Server

variable (world : World Value)

/-- The names and PVs of a list of providers. -/
def rows (providers : List Nat) : List (String × Nat) :=
  providers.flatMap world.providers

/-- A database without names. -/
def newDb : World Value :=
  { world with
    dbs := Function.update world.dbs world.nextDb fun _ => none
    nextDb := world.nextDb + 1 }

/-- `CaServer::new`. -/
def newServer (providers : List Nat) (accepts : String × Nat → Bool)
    (binds : Bool) : World Value × Option StartError :=
  match adoptAll world.nextDb accepts (world.rows providers) world.newDb with
  | (adopted, some error) => (adopted, some error)
  | (adopted, none) =>
      if binds then
        ({ adopted with
          servers := adopted.servers ++ [⟨world.nextDb, providers, true⟩] },
          none)
      else (adopted, some .bind)

def stop (server : Nat) : World Value :=
  { world with
    servers := world.servers.modify server fun state =>
      { state with running := false } }

end Server

/-- Every PV has the value it had, and what was open and not served can still
be adopted. -/
structure Untouched (world after : World Value) : Prop where
  current : ∀ entry, after.current entry = world.current entry
  isOpen : ∀ entry, after.isOpen entry = world.isOpen entry
  adoptable : ∀ entry value, (world.entries entry).state = .detached value →
    ∀ db name, ∃ later, after.adopt entry db name true = .ok later

/-- There is no PV to adopt, or the first one is refused. -/
def NoneAdopted (world : World Value) (accepts : String × Nat → Bool) :
    List (String × Nat) → Prop
  | [] => True
  | row :: _ => accepts row = false ∨
      ∀ value, (world.entries row.2).state ≠ .detached value

/-- A PV that is served stays as it is while others are adopted. -/
theorem adoptAll_serving {db : Nat} {accepts : String × Nat → Bool}
    {rows : List (String × Nat)} {world : World Value} {entry pv : Nat}
    (serving : (world.entries entry).state = .serving pv) :
    (adoptAll db accepts rows world).1.entries entry =
      world.entries entry := by
  induction rows generalizing world with
  | nil => rfl
  | cons row rows induction =>
      simp only [adoptAll]
      split
      case h_1 => rfl
      case h_2 next adopted =>
        have same : next.entries entry = world.entries entry := by
          simp only [adopt] at adopted
          split at adopted
          case h_1 value detached =>
            split at adopted
            case isTrue =>
              obtain rfl := Except.ok.inj adopted
              have other : entry ≠ row.2 := by
                intro same
                rw [same, detached] at serving
                simp at serving
              simp [setEntry, install, setName, setPv,
                Function.update_of_ne other]
            case isFalse => simp at adopted
          case h_2 => simp at adopted
          case h_3 => simp at adopted
        rw [← same] at serving ⊢
        exact induction serving

theorem newServer_failed {world after : World Value} {providers : List Nat}
    {accepts : String × Nat → Bool} {binds : Bool} {error : StartError}
    (failed : world.newServer providers accepts binds = (after, some error)) :
    after = (adoptAll world.nextDb accepts (world.rows providers)
      world.newDb).1 := by
  simp only [newServer] at failed
  split at failed
  case h_1 adopted other result =>
    rw [result]
    exact (Prod.mk.inj failed).1.symm
  case h_2 adopted result =>
    rw [result]
    split at failed
    case isTrue => simp at failed
    case isFalse => exact (Prod.mk.inj failed).1.symm

/-- A server that fails to start leaves every PV as it was exactly when it
has adopted none. -/
theorem failed_start_untouched {world after : World Value}
    {providers : List Nat} {accepts : String × Nat → Bool} {binds : Bool}
    {error : StartError}
    (failed : world.newServer providers accepts binds =
      (after, some error)) :
    Untouched world after ↔
      NoneAdopted world accepts (world.rows providers) := by
  rw [newServer_failed failed]
  have untouched : Untouched world world.newDb := by
    constructor
    · intro entry
      rfl
    · intro entry
      rfl
    · intro entry value detached db name
      have same : (world.newDb.entries entry).state = .detached value :=
        detached
      simp only [adopt, same]
      exact ⟨_, rfl⟩
  cases listed : world.rows providers with
  | nil => exact iff_of_true untouched trivial
  | cons row rows =>
      cases state : (world.entries row.2).state with
      | detached value =>
          have same : (world.newDb.entries row.2).state = .detached value :=
            state
          cases accepted : accepts row with
          | false =>
              apply iff_of_true
              · simpa [adoptAll, adopt, same, accepted] using untouched
              · exact .inl accepted
          | true =>
              apply iff_of_false
              · intro untouched
                obtain ⟨later, adopted⟩ :=
                  untouched.adoptable row.2 value state 0 row.1
                simp only [adoptAll, adopt, same, accepted, if_true]
                  at adopted
                rw [@adoptAll_serving _ _ _ _ _ row.2 world.nextPv]
                  at adopted
                · simp [setEntry, newDb] at adopted
                · simp [setEntry, newDb]
              · intro none_
                rcases none_ with refused | closed
                · simp [accepted] at refused
                · exact closed value state
      | serving pv =>
          have same : (world.newDb.entries row.2).state = .serving pv := state
          apply iff_of_true
          · simpa [adoptAll, adopt, same] using untouched
          · right
            intro value
            simp [state]
      | closed =>
          have same : (world.newDb.entries row.2).state = .closed := state
          apply iff_of_true
          · simpa [adoptAll, adopt, same] using untouched
          · right
            intro value
            simp [state]

/-- Two PVs in one provider, the first open and the second never opened. -/
def halfOpen : World Nat :=
  ((fresh.open 0 5 true).add 0 "a" 0).add 0 "b" 1

/-- A server that is refused its first PV changes nothing. -/
theorem failed_start_untouched_closed :
    Untouched ((fresh.add 0 "b" 1).open 0 5 true : World Nat)
      (((fresh.add 0 "b" 1).open 0 5 true : World Nat).newServer [0]
        (fun _ => true) true).1 := by
  have failed : ((fresh.add 0 "b" 1).open 0 5 true : World Nat).newServer
      [0] (fun _ => true) true =
        ((((fresh.add 0 "b" 1).open 0 5 true : World Nat).newServer [0]
          (fun _ => true) true).1, some (.neverOpened "b")) := rfl
  apply (failed_start_untouched failed).mpr
  right
  intro value
  simp [fresh, add, setRows, «open», setState, setEntry]

/-- The second PV was never opened, so the server does not start; the first
one is left served by no server, and no later server can adopt it. -/
theorem failed_start_keeps_pv :
    (halfOpen.entries 0).state = .detached 5 ∧
      (halfOpen.newServer [0] (fun _ => true) true).2 =
        some (.neverOpened "b") ∧
      (halfOpen.newServer [0] (fun _ => true) true).1.servers = [] ∧
      ((halfOpen.newServer [0] (fun _ => true) true).1.entries 0).state =
        .serving 0 ∧
      ¬Untouched halfOpen
        (halfOpen.newServer [0] (fun _ => true) true).1 := by
  refine ⟨rfl, rfl, rfl, rfl, ?_⟩
  intro untouched
  obtain ⟨later, adopted⟩ := untouched.adoptable 0 5 rfl 1 "a"
  change Except.error (StartError.alreadyServed "a") = _ at adopted
  simp at adopted

end World

end Repics.Ca.Server
