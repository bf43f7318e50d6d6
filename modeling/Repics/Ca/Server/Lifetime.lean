import Mathlib.Data.List.Nodup
import Repics.Ca.Server.World

/-!
# PVs and the lifetimes of their servers

Runs of several providers, PVs, and servers.  A provider's table, the
registration of a PV, and the database of a server are three places that each
operation updates in part.  The first result says which names a running server
serves, the second which PVs are served at all.
-/

namespace Repics.Ca.Server

inductive Op (Value : Type) where
  | open (entry : Nat) (value : Value) (accepts : Bool)
  | post (entry : Nat) (value : Value)
  | close (entry : Nat)
  | add (provider : Nat) (name : String) (entry : Nat)
  | remove (provider : Nat) (name : String)
  | start (providers : List Nat) (accepts : String × Nat → Bool)
      (binds : Bool)
  | stop (server : Nat)

namespace World

variable {Value : Type}

def apply (world : World Value) : Op Value → World Value
  | .open entry value accepts => world.open entry value accepts
  | .post entry value => world.post entry value
  | .close entry => world.close entry
  | .add provider name entry => world.add provider name entry
  | .remove provider name => world.remove provider name
  | .start providers accepts binds =>
      (world.newServer providers accepts binds).1
  | .stop server => world.stop server

def system : Transition (World Value) (Op Value) :=
  .ofPartial (fun world => world = fresh) fun world op => some (world.apply op)

/-- The state is not that of a served PV. -/
def Idle (world : World Value) (entry : Nat) : Prop :=
  ∀ pv, (world.entries entry).state ≠ .serving pv

/-- Providers, servers, and the number of databases stay. -/
structure SameServers (world after : World Value) : Prop where
  providers : after.providers = world.providers
  servers : after.servers = world.servers
  nextDb : after.nextDb = world.nextDb

/-- What an operation on a PV can do to the PVs and to the databases; it
brings a PV into a database again only where `serves` holds. -/
inductive EntryStep (serves : Prop) (world : World Value) (entry : Nat)
    (after : World Value) : Prop where
  | value :
      after.entries = world.entries →
      after.dbs = world.dbs →
      after.nextPv = world.nextPv →
      EntryStep serves world entry after
  | idle (state : ValueState Value) :
      (∀ pv, state ≠ .serving pv) →
      world.Idle entry ∨ (world.entries entry).reg = none →
      after.entries = Function.update world.entries entry
        { world.entries entry with state := state } →
      after.dbs = world.dbs →
      after.nextPv = world.nextPv →
      EntryStep serves world entry after
  | served (reg : Registration) :
      serves →
      world.Idle entry →
      (world.entries entry).reg = some reg →
      after.entries = Function.update world.entries entry
        ⟨.serving world.nextPv, some reg⟩ →
      after.dbs = Function.update world.dbs reg.db
        (Function.update (world.dbs reg.db) reg.name (some world.nextPv)) →
      after.nextPv = world.nextPv + 1 →
      EntryStep serves world entry after
  | closed (reg : Registration) :
      (world.entries entry).reg = some reg →
      after.entries = Function.update world.entries entry
        ⟨.closed, some reg⟩ →
      after.dbs = Function.update world.dbs reg.db
        (Function.update (world.dbs reg.db) reg.name none) →
      after.nextPv = world.nextPv →
      EntryStep serves world entry after

section EntryStep

variable (world : World Value) (entry : Nat)

theorem open_step (value : Value) (accepts : Bool) :
    EntryStep (accepts = true) world entry
      (world.open entry value accepts) := by
  cases state : (world.entries entry).state with
  | serving pv =>
      simp only [World.open, state]
      exact .value rfl rfl rfl
  | _ =>
      have idle : world.Idle entry := by
        intro pv
        simp [state]
      cases found : (world.entries entry).reg with
      | none =>
          simp only [World.open, state, found]
          exact .idle (.detached value) (by simp) (.inl idle) rfl rfl rfl
      | some reg =>
          cases accepts with
          | false =>
              simp only [World.open, state, found]
              exact .value rfl rfl rfl
          | true =>
              simp only [World.open, state, found, if_true]
              refine .served reg trivial idle found ?_ rfl rfl
              simp [setState, setEntry, install, setName, setPv, found]

theorem open_servers (value : Value) (accepts : Bool) :
    SameServers world (world.open entry value accepts) := by
  simp only [World.open]
  split
  · exact ⟨rfl, rfl, rfl⟩
  · split
    · split
      · exact ⟨rfl, rfl, rfl⟩
      · exact ⟨rfl, rfl, rfl⟩
    · exact ⟨rfl, rfl, rfl⟩

theorem post_step (value : Value) :
    EntryStep False world entry (world.post entry value) := by
  cases state : (world.entries entry).state with
  | serving pv =>
      simp only [World.post, state]
      exact .value rfl rfl rfl
  | detached old =>
      simp only [World.post, state]
      refine .idle (.detached value) (by simp) (.inl ?_) rfl rfl rfl
      intro pv
      simp [state]
  | closed =>
      simp only [World.post, state]
      exact .value rfl rfl rfl

theorem post_servers (value : Value) :
    SameServers world (world.post entry value) := by
  simp only [World.post]
  split
  · exact ⟨rfl, rfl, rfl⟩
  · exact ⟨rfl, rfl, rfl⟩
  · exact ⟨rfl, rfl, rfl⟩

theorem close_step : EntryStep False world entry (world.close entry) := by
  cases state : (world.entries entry).state with
  | serving pv =>
      cases found : (world.entries entry).reg with
      | none =>
          simp only [World.close, state, found]
          exact .idle .closed (by simp) (.inr found) rfl rfl rfl
      | some reg =>
          simp only [World.close, state, found]
          refine .closed reg found ?_ rfl rfl
          simp [setState, setEntry, setName, found]
  | _ =>
      simp only [World.close, state]
      refine .idle .closed (by simp) (.inl ?_) rfl rfl rfl
      intro pv
      simp [state]

theorem close_servers : SameServers world (world.close entry) := by
  simp only [World.close]
  split
  · exact ⟨rfl, rfl, rfl⟩
  · exact ⟨rfl, rfl, rfl⟩

end EntryStep

/-- What is adopted was open and not served, and is a new cell of the
database afterwards. -/
theorem adopt_ok {world next : World Value} {entry db : Nat} {name : String}
    {accepts : Bool} (adopted : world.adopt entry db name accepts = .ok next) :
    world.Idle entry ∧ SameServers world next ∧
      next.entries = Function.update world.entries entry
        ⟨.serving world.nextPv, some ⟨db, name⟩⟩ ∧
      next.dbs = Function.update world.dbs db
        (Function.update (world.dbs db) name (some world.nextPv)) ∧
      next.nextPv = world.nextPv + 1 := by
  simp only [adopt] at adopted
  split at adopted
  case h_1 value detached =>
    split at adopted
    case isTrue =>
      obtain rfl := Except.ok.inj adopted
      refine ⟨?_, ⟨rfl, rfl, rfl⟩, rfl, rfl, rfl⟩
      intro pv
      simp [detached]
    case isFalse => simp at adopted
  case h_2 => simp at adopted
  case h_3 => simp at adopted

theorem update_other {dbs : Nat → PvDatabase} {db other : Nat}
    {name key : String} {pv : Option Nat}
    (differs : ¬(db = other ∧ name = key)) :
    Function.update dbs db (Function.update (dbs db) name pv) other key =
      dbs other key := by
  by_cases same : other = db
  · subst same
    have differ : key ≠ name := fun equal => differs ⟨rfl, equal.symm⟩
    rw [Function.update_self, Function.update_of_ne differ]
  · rw [Function.update_of_ne same]

/-- The PV is served under a name of a database. -/
def ServedAs (world : World Value) (db : Nat) (name : String)
    (entry : Nat) : Prop :=
  ∃ pv, world.entries entry = ⟨.serving pv, some ⟨db, name⟩⟩

/-- Every name of the database is that of a PV in the list that is served
under it. -/
def Covered (world : World Value) (db : Nat) (rows : List (String × Nat)) :
    Prop :=
  ∀ name pv, world.dbs db name = some pv →
    ∃ entry, (name, entry) ∈ rows ∧ world.ServedAs db name entry

theorem ServedAs.of_eq {world after : World Value} {db entry : Nat}
    {name : String} (served : world.ServedAs db name entry)
    (same : after.entries entry = world.entries entry) :
    after.ServedAs db name entry := by
  obtain ⟨pv, isServed⟩ := served
  exact ⟨pv, same.trans isServed⟩

theorem ServedAs.not_idle {world : World Value} {db entry : Nat}
    {name : String} (served : world.ServedAs db name entry) :
    ¬world.Idle entry := by
  intro idle
  obtain ⟨pv, isServed⟩ := served
  apply idle pv
  rw [isServed]

namespace Covered

variable {world after : World Value} {db : Nat} {rows : List (String × Nat)}

theorem mono (covered : world.Covered db rows)
    {more : List (String × Nat)} (subset : rows ⊆ more) :
    world.Covered db more := by
  intro name pv found
  obtain ⟨entry, member, served⟩ := covered name pv found
  exact ⟨entry, subset member, served⟩

/-- An operation on a PV must not serve one that is not listed. -/
theorem entryStep {serves : Prop} (covered : world.Covered db rows)
    {entry : Nat} (step : EntryStep serves world entry after)
    (listed : serves → world.Idle entry → ∀ reg,
      (world.entries entry).reg = some reg → reg.db = db →
        (reg.name, entry) ∈ rows) :
    after.Covered db rows := by
  intro name pv found
  cases step with
  | value entries dbs cells =>
      rw [dbs] at found
      obtain ⟨witness, member, served⟩ := covered name pv found
      exact ⟨witness, member, served.of_eq (by rw [entries])⟩
  | idle state notServing before entries dbs cells =>
      rw [dbs] at found
      obtain ⟨witness, member, served⟩ := covered name pv found
      refine ⟨witness, member, served.of_eq ?_⟩
      have other : witness ≠ entry := by
        intro same
        rw [same] at served
        rcases before with idle | unregistered
        · exact served.not_idle idle
        · obtain ⟨cell, isServed⟩ := served
          simp [isServed] at unregistered
      rw [entries, Function.update_of_ne other]
  | served reg serves idle registered entries dbs cells =>
      rw [dbs] at found
      by_cases here : reg.db = db ∧ reg.name = name
      · obtain ⟨rfl, rfl⟩ := here
        refine ⟨entry, listed serves idle reg registered rfl, world.nextPv, ?_⟩
        rw [entries, Function.update_self]
      · have old : world.dbs db name = some pv := by
          rw [← found]
          exact (update_other here).symm
        obtain ⟨witness, member, isServed⟩ := covered name pv old
        refine ⟨witness, member, isServed.of_eq ?_⟩
        have other : witness ≠ entry := by
          intro same
          rw [same] at isServed
          exact isServed.not_idle idle
        rw [entries, Function.update_of_ne other]
  | closed reg registered entries dbs cells =>
      rw [dbs] at found
      by_cases here : reg.db = db ∧ reg.name = name
      · obtain ⟨rfl, rfl⟩ := here
        simp at found
      · have old : world.dbs db name = some pv := by
          rw [← found]
          exact (update_other here).symm
        obtain ⟨witness, member, isServed⟩ := covered name pv old
        refine ⟨witness, member, isServed.of_eq ?_⟩
        have other : witness ≠ entry := by
          intro same
          obtain ⟨cell, isServed⟩ := isServed
          rw [same] at isServed
          rw [isServed] at registered
          obtain rfl := Option.some.inj registered
          exact here ⟨rfl, rfl⟩
        rw [entries, Function.update_of_ne other]

theorem adopt (covered : world.Covered db rows) {entry other : Nat}
    {name : String} {accepts : Bool}
    (adopted : world.adopt entry other name accepts = .ok after)
    (listed : other = db → (name, entry) ∈ rows) : after.Covered db rows := by
  obtain ⟨idle, _, entries, dbs, _⟩ := adopt_ok adopted
  intro key pv found
  rw [dbs] at found
  by_cases here : other = db ∧ name = key
  · obtain ⟨rfl, rfl⟩ := here
    refine ⟨entry, listed rfl, world.nextPv, ?_⟩
    rw [entries, Function.update_self]
  · have old : world.dbs db key = some pv := by
      rw [← found]
      exact (update_other here).symm
    obtain ⟨witness, member, isServed⟩ := covered key pv old
    refine ⟨witness, member, isServed.of_eq ?_⟩
    have differs : witness ≠ entry := by
      intro same
      rw [same] at isServed
      exact isServed.not_idle idle
    rw [entries, Function.update_of_ne differs]

theorem adoptAll (covered : world.Covered db rows) {other : Nat}
    {accepts : String × Nat → Bool} {more : List (String × Nat)}
    (listed : other = db → ∀ row ∈ more, row ∈ rows) :
    (World.adoptAll other accepts more world).1.Covered db rows := by
  induction more generalizing world with
  | nil => exact covered
  | cons row more induction =>
      simp only [World.adoptAll]
      split
      case h_1 => exact covered
      case h_2 next adopted =>
        apply induction
        · apply covered.adopt adopted
          intro same
          exact listed same row List.mem_cons_self
        · intro same other member
          exact listed same other (List.mem_cons_of_mem row member)

end Covered

theorem SameServers.trans {first second third : World Value}
    (left : SameServers first second) (right : SameServers second third) :
    SameServers first third :=
  ⟨right.providers.trans left.providers, right.servers.trans left.servers,
    right.nextDb.trans left.nextDb⟩

theorem adoptAll_servers (db : Nat) (accepts : String × Nat → Bool)
    (rows : List (String × Nat)) (world : World Value) :
    SameServers world (adoptAll db accepts rows world).1 := by
  induction rows generalizing world with
  | nil => exact ⟨rfl, rfl, rfl⟩
  | cons row rows induction =>
      simp only [adoptAll]
      split
      case h_1 => exact ⟨rfl, rfl, rfl⟩
      case h_2 next adopted =>
        exact (adopt_ok adopted).2.1.trans (induction next)

/-- The names in the databases of the servers that run are listed by their
providers, each by a PV that is served under it. -/
structure Tidy (world : World Value) : Prop where
  bound : ∀ server ∈ world.servers, server.db < world.nextDb
  covered : ∀ server ∈ world.servers, server.running = true →
    world.Covered server.db (world.rows server.providers)

/-- A PV that is closed is not opened again while the server that it is
registered with runs and no provider of the server lists it under its
registered name. -/
def OpensListed (world : World Value) : Op Value → Prop
  | .open entry _ true => world.Idle entry → ∀ reg,
      (world.entries entry).reg = some reg →
        ∀ server ∈ world.servers, server.running = true →
          server.db = reg.db →
            (reg.name, entry) ∈ world.rows server.providers
  | _ => True

theorem rows_of_servers {world after : World Value}
    (same : SameServers world after) (providers : List Nat) :
    after.rows providers = world.rows providers := by
  rw [rows, rows, same.providers]

theorem close_setRows (world : World Value) (provider entry : Nat)
    (rows : List (String × Nat)) :
    (world.setRows provider rows).close entry =
      (world.close entry).setRows provider rows := by
  cases state : (world.entries entry).state with
  | serving pv =>
      cases found : (world.entries entry).reg with
      | none => simp [World.close, World.setRows, state, found, setState,
          setEntry]
      | some reg => simp [World.close, World.setRows, state, found, setState,
          setEntry, setName]
  | _ => simp [World.close, World.setRows, state, setState, setEntry]

theorem close_idle (world : World Value) (entry : Nat) :
    (world.close entry).Idle entry := by
  intro pv
  cases state : (world.entries entry).state with
  | serving pv =>
      cases found : (world.entries entry).reg with
      | none => simp [World.close, state, found, setState, setEntry]
      | some reg =>
          simp [World.close, state, found, setState, setEntry, setName]
  | _ => simp [World.close, state, setState, setEntry]

theorem mem_eraseP {rows : List (String × Nat)}
    {matching : String × Nat → Bool} {first row : String × Nat}
    (found : rows.find? matching = some first) (member : row ∈ rows)
    (other : row ≠ first) : row ∈ rows.eraseP matching := by
  induction rows with
  | nil => simp at member
  | cons head rows induction =>
      cases matches_ : matching head with
      | true =>
          obtain rfl : head = first := by simpa [matches_] using found
          rw [List.eraseP_cons_of_pos matches_]
          exact (List.mem_cons.mp member).resolve_left other
      | false =>
          rw [List.find?_cons_of_neg (by simp [matches_])] at found
          rw [List.eraseP_cons_of_neg (by simp [matches_])]
          rcases List.mem_cons.mp member with rfl | inside
          · exact List.mem_cons_self
          · exact List.mem_cons_of_mem head (induction found inside)

theorem not_mem_eraseP {rows : List (String × Nat)}
    {matching : String × Nat → Bool} {first : String × Nat}
    (nodup : rows.Nodup) (found : rows.find? matching = some first) :
    first ∉ rows.eraseP matching := by
  induction rows with
  | nil => simp at found
  | cons head rows induction =>
      obtain ⟨absent, nodup⟩ := List.nodup_cons.mp nodup
      cases matches_ : matching head with
      | true =>
          obtain rfl : head = first := by simpa [matches_] using found
          rwa [List.eraseP_cons_of_pos matches_]
      | false =>
          rw [List.find?_cons_of_neg (by simp [matches_])] at found
          rw [List.eraseP_cons_of_neg (by simp [matches_])]
          intro member
          rcases List.mem_cons.mp member with rfl | inside
          · exact absent (List.mem_of_find?_eq_some found)
          · exact induction nodup found inside

/-- A server after another one is stopped: what still runs is as it was. -/
theorem mem_stop {world : World Value} {server : Nat} {state : CaServer}
    (member : state ∈ (world.stop server).servers) :
    ∃ old ∈ world.servers, state.db = old.db ∧
      (state.running = true → old = state) := by
  obtain ⟨index, found⟩ := List.mem_iff_getElem?.mp member
  simp only [World.stop, List.getElem?_modify] at found
  obtain ⟨old, isOld, same⟩ := Option.map_eq_some_iff.mp found
  refine ⟨old, List.mem_iff_getElem?.mpr ⟨index, isOld⟩, ?_⟩
  split at same
  · rw [← same]
    exact ⟨rfl, fun running => by simp at running⟩
  · exact ⟨congrArg CaServer.db same.symm, fun _ => same⟩

namespace Tidy

variable {world after : World Value}

theorem entryStep (tidy : world.Tidy) {serves : Prop} {entry : Nat}
    (step : EntryStep serves world entry after)
    (same : SameServers world after)
    (listed : serves → world.Idle entry → ∀ reg,
      (world.entries entry).reg = some reg →
        ∀ server ∈ world.servers, server.running = true →
          server.db = reg.db →
            (reg.name, entry) ∈ world.rows server.providers) :
    after.Tidy where
  bound := by
    rw [same.servers, same.nextDb]
    exact tidy.bound
  covered := by
    rw [same.servers]
    intro server member running
    rw [rows_of_servers same]
    apply (tidy.covered server member running).entryStep step
    intro isServing idle reg registered here
    exact listed isServing idle reg registered server member running here.symm

theorem setRows (tidy : world.Tidy) {provider : Nat}
    {rows : List (String × Nat)}
    (more : world.providers provider ⊆ rows) :
    (world.setRows provider rows).Tidy where
  bound := tidy.bound
  covered := by
    intro server member running
    apply Covered.mono (tidy.covered server member running)
    intro row inside
    obtain ⟨listing, isProvider, listed⟩ := List.mem_flatMap.mp inside
    apply List.mem_flatMap.mpr
    refine ⟨listing, isProvider, ?_⟩
    by_cases here : listing = provider
    · subst here
      simpa [World.setRows] using more listed
    · simpa [World.setRows, Function.update_of_ne here] using listed

theorem add (tidy : world.Tidy) (provider : Nat) (name : String)
    (entry : Nat) : (world.add provider name entry).Tidy := by
  simp only [World.add]
  split
  · exact tidy
  · apply tidy.setRows
    apply List.subset_append_left

theorem erase (tidy : world.Tidy) {provider : Nat}
    {matching : String × Nat → Bool} {first : String × Nat}
    (found : (world.providers provider).find? matching = some first)
    (idle : world.Idle first.2) :
    (world.setRows provider
      ((world.providers provider).eraseP matching)).Tidy where
  bound := tidy.bound
  covered := by
    intro server member running name pv isName
    obtain ⟨entry, inside, isServed⟩ :=
      tidy.covered server member running name pv isName
    refine ⟨entry, ?_, isServed⟩
    have other : (name, entry) ≠ first := by
      intro same
      rw [← same] at idle
      exact isServed.not_idle idle
    obtain ⟨listing, isProvider, listed⟩ := List.mem_flatMap.mp inside
    apply List.mem_flatMap.mpr
    refine ⟨listing, isProvider, ?_⟩
    by_cases here : listing = provider
    · subst here
      simpa [World.setRows] using mem_eraseP found listed other
    · simpa [World.setRows, Function.update_of_ne here] using listed

theorem remove (tidy : world.Tidy) (provider : Nat) (name : String) :
    (world.remove provider name).Tidy := by
  simp only [World.remove]
  split
  case h_2 => exact tidy
  case h_1 row found =>
    rw [close_setRows]
    have closed : (world.close row.2).Tidy :=
      tidy.entryStep (close_step world row.2) (close_servers world row.2)
        False.elim
    have same := (close_servers world row.2).providers
    rw [← same] at found ⊢
    exact closed.erase found (close_idle world row.2)

theorem newDb (tidy : world.Tidy) : world.newDb.Tidy where
  bound server member := Nat.lt_succ_of_lt (tidy.bound server member)
  covered := by
    intro server member running name pv found
    have other : server.db ≠ world.nextDb :=
      Nat.ne_of_lt (tidy.bound server member)
    simp only [World.newDb, Function.update_of_ne other] at found
    exact tidy.covered server member running name pv found

theorem newServer (tidy : world.Tidy) (providers : List Nat)
    (accepts : String × Nat → Bool) (binds : Bool) :
    (world.newServer providers accepts binds).1.Tidy := by
  have servers := adoptAll_servers world.nextDb accepts
    (world.rows providers) world.newDb
  have adopted : (World.adoptAll world.nextDb accepts
      (world.rows providers) world.newDb).1.Tidy := by
    constructor
    case bound =>
      rw [servers.servers, servers.nextDb]
      exact tidy.newDb.bound
    case covered =>
      rw [servers.servers]
      intro server member running
      rw [rows_of_servers servers]
      apply (tidy.newDb.covered server member running).adoptAll
      intro same
      exact (Nat.ne_of_lt (tidy.bound server member) same.symm).elim
  have own : (World.adoptAll world.nextDb accepts
      (world.rows providers) world.newDb).1.Covered world.nextDb
        (world.rows providers) := by
    apply Covered.adoptAll
    · intro name pv found
      simp [World.newDb] at found
    · intro _ row member
      exact member
  simp only [World.newServer]
  split
  case h_1 result _ isResult =>
    rw [isResult] at adopted
    exact adopted
  case h_2 result isResult =>
    rw [isResult] at adopted own servers
    split
    case isFalse => exact adopted
    case isTrue =>
      constructor
      case bound =>
        intro server member
        rcases List.mem_append.mp member with old | new
        · exact adopted.bound server old
        · obtain rfl := List.mem_singleton.mp new
          rw [show _ = _ from servers.nextDb]
          exact Nat.lt_succ_self world.nextDb
      case covered =>
        intro server member running
        rcases List.mem_append.mp member with old | new
        · exact adopted.covered server old running
        · obtain rfl := List.mem_singleton.mp new
          have rows := rows_of_servers servers providers
          intro name pv found
          obtain ⟨entry, inside, isServed⟩ := own name pv found
          exact ⟨entry, rows ▸ inside, isServed⟩

theorem stop (tidy : world.Tidy) (server : Nat) :
    (world.stop server).Tidy where
  bound := by
    intro state member
    obtain ⟨old, isOld, same⟩ := mem_stop member
    rw [same.1]
    exact tidy.bound old isOld
  covered := by
    intro state member running
    obtain ⟨old, isOld, same⟩ := mem_stop member
    obtain rfl := same.2 running
    exact tidy.covered old isOld running

theorem invariant :
    ((system : Transition (World Value) (Op Value)).restrict
      OpensListed).Invariant Tidy where
  initial := by
    intro world start
    rw [start]
    constructor
    · intro server member
      simp [fresh] at member
    · intro server member
      simp [fresh] at member
  preserved := by
    intro world op after tidy step
    obtain ⟨step, fine⟩ := step
    obtain rfl := Option.some.inj step
    cases op with
    | «open» entry value accepts =>
        apply tidy.entryStep (open_step world entry value accepts)
          (open_servers world entry value accepts)
        intro accepted
        subst accepted
        exact fine
    | post entry value =>
        apply tidy.entryStep (post_step world entry value)
          (post_servers world entry value) False.elim
    | close entry =>
        apply tidy.entryStep (close_step world entry)
          (close_servers world entry) False.elim
    | add provider name entry => apply tidy.add provider name entry
    | remove provider name => apply tidy.remove provider name
    | start providers accepts binds =>
        apply tidy.newServer providers accepts binds
    | stop server => apply tidy.stop server

end Tidy

/-- Each name that a running server serves is listed by one of its
providers. -/
def NamesListed (world : World Value) : Prop :=
  ∀ server ∈ world.servers, server.running = true →
    ∀ name pv, world.dbs server.db name = some pv →
      ∃ entry, (name, entry) ∈ world.rows server.providers

theorem Tidy.namesListed {world : World Value} (tidy : world.Tidy) :
    world.NamesListed := by
  intro server member running name pv found
  obtain ⟨entry, inside, _⟩ := tidy.covered server member running name pv found
  exact ⟨entry, inside⟩

theorem newServer_providers (world : World Value) (providers : List Nat)
    (accepts : String × Nat → Bool) (binds : Bool) :
    (world.newServer providers accepts binds).1.providers =
      world.providers := by
  have same := (adoptAll_servers world.nextDb accepts (world.rows providers)
    world.newDb).providers
  simp only [newServer]
  split
  case h_1 adopted error result =>
    rw [result] at same
    exact same
  case h_2 adopted result =>
    rw [result] at same
    split
    · exact same
    · exact same

/-- The registrations of the PVs. -/
def SameRegs (world after : World Value) : Prop :=
  ∀ entry, (after.entries entry).reg = (world.entries entry).reg

theorem EntryStep.sameRegs {serves : Prop} {world after : World Value}
    {entry : Nat} (step : EntryStep serves world entry after) :
    SameRegs world after := by
  intro other
  cases step with
  | value entries dbs cells => rw [entries]
  | idle state notServing before entries dbs cells =>
      rw [entries]
      by_cases same : other = entry
      · rw [same, Function.update_self]
      · rw [Function.update_of_ne same]
  | served reg serves idle registered entries dbs cells =>
      rw [entries]
      by_cases same : other = entry
      · rw [same, Function.update_self, registered]
      · rw [Function.update_of_ne same]
  | closed reg registered entries dbs cells =>
      rw [entries]
      by_cases same : other = entry
      · rw [same, Function.update_self, registered]
      · rw [Function.update_of_ne same]

/-- No provider lists a name twice. -/
def UniqueNames (world : World Value) : Prop :=
  ∀ provider, ((world.providers provider).map Prod.fst).Nodup

theorem UniqueNames.invariant :
    (system : Transition (World Value) (Op Value)).Invariant
      UniqueNames where
  initial := by
    intro world start provider
    rw [start]
    exact List.nodup_nil
  preserved := by
    intro world op after unique step
    obtain rfl := Option.some.inj step
    have same {after : World Value} (servers : SameServers world after) :
        after.UniqueNames := by
      intro provider
      rw [servers.providers]
      exact unique provider
    have set {provider : Nat} {rows : List (String × Nat)}
        (nodup : (rows.map Prod.fst).Nodup) :
        (world.setRows provider rows).UniqueNames := by
      intro other
      by_cases here : other = provider
      · subst here
        simpa [setRows] using nodup
      · simpa [setRows, Function.update_of_ne here] using unique other
    cases op with
    | «open» entry value accepts =>
        apply same (open_servers world entry value accepts)
    | post entry value => apply same (post_servers world entry value)
    | close entry => apply same (close_servers world entry)
    | add provider name entry =>
        simp only [apply, add]
        split
        case isTrue => exact unique
        case isFalse new =>
          apply set
          rw [List.map_append]
          apply List.nodup_append.mpr
          refine ⟨unique provider, List.nodup_singleton name, ?_⟩
          intro old isOld other isNew equal
          obtain rfl := List.mem_singleton.mp isNew
          obtain ⟨row, member, rfl⟩ := List.mem_map.mp isOld
          apply new
          rw [List.any_eq_true]
          exact ⟨row, member, by simpa using equal⟩
    | remove provider name =>
        simp only [apply, remove]
        split
        case h_2 => exact unique
        case h_1 row found =>
          have erased := @set provider _ ((unique provider).sublist
            ((List.eraseP_sublist (p := fun row => row.1 == name)).map
              Prod.fst))
          intro other
          rw [(close_servers _ row.2).providers]
          exact erased other
    | start providers accepts binds =>
        intro provider
        rw [apply, newServer_providers]
        exact unique provider
    | stop server => exact unique

theorem remove_providers {world : World Value} (unique : world.UniqueNames)
    (provider : Nat) (name : String) :
    (∀ entry, (name, entry) ∉
      (world.remove provider name).providers provider) ∧
    ∀ other, (world.remove provider name).providers other ⊆
      world.providers other := by
  simp only [remove]
  split
  case h_2 none_ =>
    refine ⟨?_, fun other row member => member⟩
    intro entry member
    have differs := List.find?_eq_none.mp none_ (name, entry) member
    simp at differs
  case h_1 row found =>
    rw [(close_servers _ row.2).providers]
    constructor
    · intro entry member
      simp only [setRows, Function.update_self] at member
      have isName : row.1 = name := by simpa using List.find?_some found
      have inside := List.mem_of_find?_eq_some found
      have same : (name, entry) = row :=
        List.inj_on_of_nodup_map (unique provider)
          (List.eraseP_subset member) inside isName.symm
      have nodup : (world.providers provider).Nodup :=
        (unique provider).of_map
      rw [same] at member
      exact not_mem_eraseP nodup found member
    · intro other
      by_cases here : other = provider
      · subst here
        simpa [setRows] using List.eraseP_subset
      · simp [setRows, Function.update_of_ne here]

/-- What the removals of a name leave of a world. -/
structure Removed (name : String) (providers : List Nat)
    (world after : World Value) : Prop where
  regs : SameRegs world after
  servers : after.servers = world.servers
  subset : ∀ provider, after.providers provider ⊆ world.providers provider
  absent : ∀ provider ∈ providers, ∀ entry,
    (name, entry) ∉ after.providers provider

theorem remove_regs (world : World Value) (provider : Nat) (name : String) :
    SameRegs world (world.remove provider name) ∧
      (world.remove provider name).servers = world.servers := by
  simp only [remove]
  split
  case h_2 => exact ⟨fun _ => rfl, rfl⟩
  case h_1 row found =>
    constructor
    · intro entry
      rw [(close_step _ row.2).sameRegs entry]
      rfl
    · rw [(close_servers _ row.2).servers]
      rfl

/-- Removals are steps, and the name is listed nowhere afterwards. -/
theorem removeAll_run (name : String) (providers : List Nat)
    {world : World Value} (unique : world.UniqueNames) :
    ∃ labels after, (system : Transition (World Value) (Op Value)).Run world
      labels after ∧ Removed name providers world after := by
  induction providers generalizing world with
  | nil =>
      exact ⟨[], world, .nil world, fun _ => rfl, rfl,
        fun _ _ member => member, by simp⟩
  | cons provider providers induction =>
      have step : (system : Transition (World Value) (Op Value)).step world
          (.remove provider name) (world.remove provider name) := rfl
      have stillUnique : (world.remove provider name).UniqueNames :=
        UniqueNames.invariant.preserved world (.remove provider name) _
          unique step
      obtain ⟨labels, after, run, removed⟩ := induction stillUnique
      obtain ⟨regs, servers⟩ := remove_regs world provider name
      obtain ⟨gone, subset⟩ := remove_providers unique provider name
      refine ⟨_, after, .cons step run, ?_, ?_, ?_, ?_⟩
      · intro entry
        rw [removed.regs, regs]
      · rw [removed.servers, servers]
      · intro other
        exact List.Subset.trans (removed.subset other) (subset other)
      · intro other member entry
        rcases List.mem_cons.mp member with rfl | inside
        · intro listed
          exact gone entry (removed.subset other listed)
        · exact removed.absent other inside entry

/-- A registered PV that is closed and opened is a cell of its database. -/
theorem reopen_dbs {world : World Value} {entry : Nat} {reg : Registration}
    (registered : (world.entries entry).reg = some reg) (value : Value) :
    ((world.close entry).open entry value true).dbs reg.db reg.name =
      some (world.close entry).nextPv := by
  have same := (close_step world entry).sameRegs entry
  rw [registered] at same
  cases state : ((world.close entry).entries entry).state with
  | serving pv => exact (close_idle world entry pv state).elim
  | _ => simp [World.open, state, same, install, setState, setEntry, setName]

theorem unlisted_breaks {world : World Value} {op : Op Value}
    (reachable : (system : Transition (World Value) (Op Value)).Reachable
      world) (unlisted : ¬world.OpensListed op) :
    (system : Transition (World Value) (Op Value)).Breakable NamesListed
      (world.apply op) := by
  cases op with
  | «open» entry value accepts =>
      cases accepts with
      | false => exact (unlisted trivial).elim
      | true =>
          simp only [OpensListed, not_forall] at unlisted
          obtain ⟨_, reg, registered, server, isServer, running, here, _⟩ :=
            unlisted
          have opened : (system : Transition (World Value) (Op Value)).Reachable
              (world.open entry value true) :=
            @Transition.Reachable.snoc _ _ _ _ _
              (Op.open entry value true) reachable rfl
          obtain ⟨labels, after, run, removed⟩ := removeAll_run reg.name
            server.providers (UniqueNames.invariant.reachable opened)
          have stillRegistered : (after.entries entry).reg = some reg := by
            rw [removed.regs, (open_step world entry value true).sameRegs,
              registered]
          refine ⟨labels ++ [.close entry] ++ [.open entry value true],
            _, .snoc (.snoc run rfl) rfl, ?_⟩
          intro listed
          have found := reopen_dbs stillRegistered value
          have still := open_servers (after.close entry) entry value true
          have closed := close_servers after entry
          rw [← here] at found
          obtain ⟨other, member⟩ := listed server (by
            change server ∈ ((after.close entry).open entry value true).servers
            rw [still.servers, closed.servers, removed.servers,
              (open_servers world entry value true).servers]
            exact isServer) running reg.name _ found
          change _ ∈ ((after.close entry).open entry value true).rows
            server.providers at member
          rw [rows_of_servers still, rows_of_servers closed] at member
          obtain ⟨provider, isProvider, inside⟩ := List.mem_flatMap.mp member
          exact removed.absent provider isProvider other inside
  | _ => exact (unlisted trivial).elim

/-- Each name that a running server serves is listed by one of its providers
in every run in which no closed PV is opened that its server does not list any
more; a PV that is opened so can be served under a name that no provider
lists. -/
theorem removed_pv_stays_removed :
    (system : Transition (World Value) (Op Value)).Guards OpensListed
      NamesListed where
  enough world reachable :=
    (Tidy.invariant.reachable reachable).namesListed
  needed world op after reachable step unlisted := by
    obtain rfl := Option.some.inj step
    apply unlisted_breaks reachable unlisted

/-- A PV is opened again after its provider removed it. -/
def removedThenOpened : World Nat :=
  (((fresh.open 0 5 true).add 0 "a" 0).newServer [0] (fun _ => true) true).1
    |>.remove 0 "a" |>.open 0 6 true

/-- The server runs and serves a name that none of its providers lists. -/
theorem removed_pv_served_again :
    (system : Transition (World Nat) (Op Nat)).Reachable removedThenOpened ∧
      removedThenOpened.servers = [⟨0, [0], true⟩] ∧
      removedThenOpened.dbs 0 "a" = some 1 ∧
      ¬removedThenOpened.NamesListed := by
  refine ⟨?_, rfl, rfl, ?_⟩
  · refine ⟨fresh, [.open 0 5 true, .add 0 "a" 0,
      .start [0] (fun _ => true) true, .remove 0 "a", .open 0 6 true],
      rfl, ?_⟩
    exact Transition.Run.of_foldlM rfl
  · intro listed
    obtain ⟨entry, member⟩ := listed ⟨0, [0], true⟩ List.mem_cons_self rfl
      "a" 1 rfl
    change (_, _) ∈ [] at member
    simp at member

end World

end Repics.Ca.Server
