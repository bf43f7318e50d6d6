import Repics.Ca.Server.Lifetime

/-!
# PVs that outlive their servers

A PV keeps its registration for good: once a server adopted it, opening it
again makes a cell in the database of that server.  The PV survives its server
if it is served only while the server runs and can be adopted afterwards.
`Numbered` holds in every run, `Living` in those whose servers start cleanly
and are not stopped while PVs are registered with them.
-/

namespace Repics.Ca.Server.World

variable {Value : Type}

theorem adopt_detached {world next : World Value} {entry db : Nat}
    {name : String} {accepts : Bool}
    (adopted : world.adopt entry db name accepts = .ok next) :
    ∃ value, accepts = true ∧
      (world.entries entry).state = .detached value := by
  simp only [adopt] at adopted
  split at adopted
  case h_1 value detached =>
    split at adopted
    case isTrue accepted => exact ⟨value, accepted, detached⟩
    case isFalse => simp at adopted
  case h_2 => simp at adopted
  case h_3 => simp at adopted

theorem stop_dbs (world : World Value) (server : Nat) :
    (world.stop server).servers.map CaServer.db =
      world.servers.map CaServer.db := by
  apply List.ext_getElem?
  intro index
  simp only [World.stop, List.getElem?_map, List.getElem?_modify]
  cases world.servers[index]? with
  | none => rfl
  | some state =>
      simp only [Option.map_some]
      split
      · rfl
      · rfl

/-- Cells and databases are new when they are made, and the cell of a PV has
no other name than the one that the PV is registered under. -/
structure Numbered (world : World Value) : Prop where
  cells : ∀ db name pv, world.dbs db name = some pv → pv < world.nextPv
  serving : ∀ entry pv, (world.entries entry).state = .serving pv →
    pv < world.nextPv
  owner : ∀ entry pv db name, (world.entries entry).state = .serving pv →
    world.dbs db name = some pv → (world.entries entry).reg = some ⟨db, name⟩
  apart : ∀ entry other pv, (world.entries entry).state = .serving pv →
    (world.entries other).state = .serving pv → entry = other
  bound : ∀ server ∈ world.servers, server.db < world.nextDb
  nodup : (world.servers.map CaServer.db).Nodup
  valued : ∀ entry reg, (world.entries entry).reg = some reg →
    Nonempty Value

namespace Numbered

variable {world after : World Value}

theorem install (numbered : world.Numbered) {entry : Nat}
    {reg : Registration} (value : Nonempty Value)
    (servers : SameServers world after)
    (entries : after.entries = Function.update world.entries entry
      ⟨.serving world.nextPv, some reg⟩)
    (dbs : after.dbs = Function.update world.dbs reg.db
      (Function.update (world.dbs reg.db) reg.name (some world.nextPv)))
    (cells : after.nextPv = world.nextPv + 1) : after.Numbered := by
  have cell : ∀ db name pv, after.dbs db name = some pv →
      (reg = ⟨db, name⟩ ∧ pv = world.nextPv) ∨
        world.dbs db name = some pv := by
    intro db name pv found
    rw [dbs] at found
    by_cases here : reg.db = db ∧ reg.name = name
    · obtain ⟨rfl, rfl⟩ := here
      simp only [Function.update_self] at found
      exact .inl ⟨rfl, (Option.some.inj found).symm⟩
    · rw [update_other here] at found
      exact .inr found
  have state : ∀ other pv, (after.entries other).state = .serving pv →
      (other = entry ∧ pv = world.nextPv) ∨
        (after.entries other = world.entries other ∧
          (world.entries other).state = .serving pv) := by
    intro other pv isServing
    rw [entries] at isServing ⊢
    by_cases same : other = entry
    · rw [same, Function.update_self] at isServing
      exact .inl ⟨same, (ValueState.serving.inj isServing).symm⟩
    · rw [Function.update_of_ne same] at isServing ⊢
      exact .inr ⟨rfl, isServing⟩
  constructor
  case cells =>
    intro db name pv found
    rw [cells]
    rcases cell db name pv found with ⟨_, rfl⟩ | old
    · exact Nat.lt_succ_self _
    · exact Nat.lt_succ_of_lt (numbered.cells db name pv old)
  case serving =>
    intro other pv isServing
    rw [cells]
    rcases state other pv isServing with ⟨_, rfl⟩ | ⟨_, old⟩
    · exact Nat.lt_succ_self _
    · exact Nat.lt_succ_of_lt (numbered.serving other pv old)
  case owner =>
    intro other pv db name isServing found
    rcases state other pv isServing with ⟨rfl, rfl⟩ | ⟨same, old⟩
    · rcases cell db name _ found with ⟨here, _⟩ | before
      · rw [entries, Function.update_self, here]
      · exact (Nat.lt_irrefl _ (numbered.cells db name _ before)).elim
    · rcases cell db name pv found with ⟨_, rfl⟩ | before
      · exact (Nat.lt_irrefl _ (numbered.serving other _ old)).elim
      · rw [same]
        exact numbered.owner other pv db name old before
  case apart =>
    intro left right pv isLeft isRight
    rcases state left pv isLeft with ⟨rfl, rfl⟩ | ⟨_, old⟩
    · rcases state right _ isRight with ⟨rfl, _⟩ | ⟨_, before⟩
      · rfl
      · exact (Nat.lt_irrefl _ (numbered.serving right _ before)).elim
    · rcases state right pv isRight with ⟨rfl, rfl⟩ | ⟨_, before⟩
      · exact (Nat.lt_irrefl _ (numbered.serving left _ old)).elim
      · exact numbered.apart left right pv old before
  case bound =>
    rw [servers.servers, servers.nextDb]
    exact numbered.bound
  case nodup =>
    rw [servers.servers]
    exact numbered.nodup
  case valued =>
    intro _ _ _
    exact value

/-- No PV is served that was not, and names of databases may be lost. -/
theorem fewer (numbered : world.Numbered) (servers : SameServers world after)
    (entries : ∀ entry, (after.entries entry).reg =
        (world.entries entry).reg ∧
      ∀ pv, (after.entries entry).state = .serving pv →
        (world.entries entry).state = .serving pv)
    (dbs : ∀ db name pv, after.dbs db name = some pv →
      world.dbs db name = some pv)
    (cells : after.nextPv = world.nextPv) : after.Numbered where
  cells db name pv found := by
    rw [cells]
    exact numbered.cells db name pv (dbs db name pv found)
  serving entry pv isServing := by
    rw [cells]
    exact numbered.serving entry pv ((entries entry).2 pv isServing)
  owner entry pv db name isServing found := by
    rw [(entries entry).1]
    exact numbered.owner entry pv db name ((entries entry).2 pv isServing)
      (dbs db name pv found)
  apart entry other pv isServing isOther :=
    numbered.apart entry other pv ((entries entry).2 pv isServing)
      ((entries other).2 pv isOther)
  bound := by
    rw [servers.servers, servers.nextDb]
    exact numbered.bound
  nodup := by
    rw [servers.servers]
    exact numbered.nodup
  valued entry reg registered := by
    rw [(entries entry).1] at registered
    exact numbered.valued entry reg registered

theorem entryStep (numbered : world.Numbered) {serves : Prop} {entry : Nat}
    (step : EntryStep serves world entry after)
    (servers : SameServers world after) : after.Numbered := by
  have regs := step.sameRegs
  cases step with
  | value entries dbs cells =>
      apply numbered.fewer servers _ _ cells
      · intro other
        rw [entries]
        exact ⟨rfl, fun _ same => same⟩
      · intro db name pv found
        rwa [dbs] at found
  | idle state notServing before entries dbs cells =>
      apply numbered.fewer servers _ _ cells
      · intro other
        refine ⟨regs other, ?_⟩
        intro pv isServing
        rw [entries] at isServing
        by_cases same : other = entry
        · rw [same, Function.update_self] at isServing
          exact (notServing pv isServing).elim
        · rwa [Function.update_of_ne same] at isServing
      · intro db name pv found
        rwa [dbs] at found
  | served reg serves idle registered entries dbs cells =>
      apply numbered.install (numbered.valued entry reg registered) servers
        entries dbs cells
  | closed reg registered entries dbs cells =>
      apply numbered.fewer servers _ _ cells
      · intro other
        refine ⟨regs other, ?_⟩
        intro pv isServing
        rw [entries] at isServing
        by_cases same : other = entry
        · rw [same, Function.update_self] at isServing
          simp at isServing
        · rwa [Function.update_of_ne same] at isServing
      · intro db name pv found
        rw [dbs] at found
        by_cases here : reg.db = db ∧ reg.name = name
        · obtain ⟨rfl, rfl⟩ := here
          simp at found
        · rwa [update_other here] at found

theorem adopt (numbered : world.Numbered) {entry db : Nat} {name : String}
    {accepts : Bool}
    (adopted : world.adopt entry db name accepts = .ok after) :
    after.Numbered := by
  obtain ⟨value, _⟩ := adopt_detached adopted
  obtain ⟨idle, servers, entries, dbs, cells⟩ := adopt_ok adopted
  apply numbered.install ⟨value⟩ servers entries dbs cells

theorem adoptAll (numbered : world.Numbered) (db : Nat)
    (accepts : String × Nat → Bool) (rows : List (String × Nat)) :
    (World.adoptAll db accepts rows world).1.Numbered := by
  induction rows generalizing world with
  | nil => exact numbered
  | cons row rows induction =>
      simp only [World.adoptAll]
      split
      case h_1 => exact numbered
      case h_2 next adopted => exact induction (numbered.adopt adopted)

theorem newDb (numbered : world.Numbered) : world.newDb.Numbered := by
  have fewer : ∀ db name pv, world.newDb.dbs db name = some pv →
      world.dbs db name = some pv := by
    intro db name pv found
    simp only [World.newDb] at found
    by_cases same : db = world.nextDb
    · subst same
      simp at found
    · rwa [Function.update_of_ne same] at found
  constructor
  case cells =>
    intro db name pv found
    apply numbered.cells db name pv (fewer db name pv found)
  case serving => exact numbered.serving
  case owner =>
    intro entry pv db name isServing found
    apply numbered.owner entry pv db name isServing (fewer db name pv found)
  case apart => exact numbered.apart
  case bound =>
    intro server member
    apply Nat.lt_succ_of_lt (numbered.bound server member)
  case nodup => exact numbered.nodup
  case valued => exact numbered.valued

theorem addServer (numbered : world.Numbered) {db : Nat}
    (newest : world.nextDb = db + 1)
    (other : ∀ server ∈ world.servers, server.db < db)
    (providers : List Nat) :
    Numbered { world with
      servers := world.servers ++ [⟨db, providers, true⟩] } where
  cells := numbered.cells
  serving := numbered.serving
  owner := numbered.owner
  apart := numbered.apart
  bound := by
    intro server member
    rcases List.mem_append.mp member with old | new
    · exact numbered.bound server old
    · obtain rfl := List.mem_singleton.mp new
      change db < world.nextDb
      omega
  nodup := by
    rw [List.map_append, List.nodup_append]
    refine ⟨numbered.nodup, by simp, ?_⟩
    intro left isLeft right isRight
    obtain ⟨server, member, rfl⟩ := List.mem_map.mp isLeft
    obtain rfl := List.mem_singleton.mp isRight
    exact Nat.ne_of_lt (other server member)
  valued := numbered.valued

theorem newServer (numbered : world.Numbered) (providers : List Nat)
    (accepts : String × Nat → Bool) (binds : Bool) :
    (world.newServer providers accepts binds).1.Numbered := by
  have adopted := numbered.newDb.adoptAll world.nextDb accepts
    (world.rows providers)
  have servers := adoptAll_servers world.nextDb accepts
    (world.rows providers) world.newDb
  simp only [World.newServer]
  split
  case h_1 result _ isResult =>
    rw [isResult] at adopted
    exact adopted
  case h_2 result isResult =>
    rw [isResult] at adopted servers
    split
    case isFalse => exact adopted
    case isTrue =>
      apply adopted.addServer servers.nextDb
      rw [servers.servers]
      exact numbered.bound

theorem stop (numbered : world.Numbered) (server : Nat) :
    (world.stop server).Numbered where
  cells := numbered.cells
  serving := numbered.serving
  owner := numbered.owner
  apart := numbered.apart
  bound := by
    intro state member
    obtain ⟨old, isOld, same⟩ := mem_stop member
    rw [same.1]
    exact numbered.bound old isOld
  nodup := by
    rw [stop_dbs]
    exact numbered.nodup
  valued := numbered.valued

theorem setRows (numbered : world.Numbered) (provider : Nat)
    (rows : List (String × Nat)) :
    (world.setRows provider rows).Numbered :=
  ⟨numbered.cells, numbered.serving, numbered.owner, numbered.apart,
    numbered.bound, numbered.nodup, numbered.valued⟩

theorem invariant :
    (system : Transition (World Value) (Op Value)).Invariant Numbered where
  initial := by
    intro world start
    rw [start]
    constructor
    case nodup => exact List.nodup_nil
    all_goals simp [fresh]
  preserved := by
    intro world op after numbered step
    obtain rfl := Option.some.inj step
    cases op with
    | «open» entry value accepts =>
        apply numbered.entryStep (open_step world entry value accepts)
          (open_servers world entry value accepts)
    | post entry value =>
        apply numbered.entryStep (post_step world entry value)
          (post_servers world entry value)
    | close entry =>
        apply numbered.entryStep (close_step world entry)
          (close_servers world entry)
    | add provider name entry =>
        simp only [World.apply, World.add]
        split
        · exact numbered
        · apply numbered.setRows
    | remove provider name =>
        simp only [World.apply, World.remove]
        split
        case h_2 => exact numbered
        case h_1 row found =>
          apply (numbered.setRows provider _).entryStep (close_step _ row.2)
            (close_servers _ row.2)
    | start providers accepts binds =>
        apply numbered.newServer providers accepts binds
    | stop server => apply numbered.stop server

end Numbered

/-- Each PV is open, not served, and listed once, and the database takes its
name. -/
structure Adoptable (world : World Value) (accepts : String × Nat → Bool)
    (rows : List (String × Nat)) : Prop where
  nodup : (rows.map Prod.snd).Nodup
  detached : ∀ row ∈ rows, accepts row = true ∧
    ∃ value, (world.entries row.2).state = .detached value

theorem adopt_ok_of_detached {world : World Value} {entry db : Nat}
    {name : String} {value : Value}
    (detached : (world.entries entry).state = .detached value) :
    ∃ next, world.adopt entry db name true = .ok next := by
  simp only [adopt, detached, if_true]
  exact ⟨_, rfl⟩

theorem adoptAll_ok_iff {db : Nat} {accepts : String × Nat → Bool}
    {rows : List (String × Nat)} {world : World Value} :
    (adoptAll db accepts rows world).2 = none ↔
      Adoptable world accepts rows := by
  induction rows generalizing world with
  | nil => exact iff_of_true rfl ⟨List.nodup_nil, by simp⟩
  | cons row rows induction =>
      simp only [adoptAll]
      split
      case h_1 error failed =>
        apply iff_of_false
        · simp
        · intro adoptable
          obtain ⟨accepted, value, detached⟩ :=
            adoptable.detached row List.mem_cons_self
          obtain ⟨next, adopted⟩ := @adopt_ok_of_detached _ _ _ db row.1 _
            detached
          rw [accepted, adopted] at failed
          simp at failed
      case h_2 next adopted =>
        have entries := (adopt_ok adopted).2.2.1
        have first := adopt_detached adopted
        have later : ∀ other, other ≠ row.2 →
            next.entries other = world.entries other := by
          intro other differs
          rw [entries, Function.update_of_ne differs]
        rw [induction]
        constructor
        · intro adoptable
          have absent : row.2 ∉ rows.map Prod.snd := by
            intro member
            obtain ⟨other, inside, same⟩ := List.mem_map.mp member
            obtain ⟨_, value, detached⟩ := adoptable.detached other inside
            rw [same, entries, Function.update_self] at detached
            simp at detached
          constructor
          case nodup =>
            exact List.nodup_cons.mpr ⟨absent, adoptable.nodup⟩
          case detached =>
            intro other member
            rcases List.mem_cons.mp member with rfl | inside
            · obtain ⟨value, accepted, detached⟩ := first
              exact ⟨accepted, value, detached⟩
            · rw [← later other.2 (fun same =>
                absent (same ▸ List.mem_map_of_mem inside))]
              exact adoptable.detached other inside
        · intro adoptable
          obtain ⟨absent, nodup⟩ := List.nodup_cons.mp adoptable.nodup
          constructor
          case nodup => exact nodup
          case detached =>
            intro other inside
            rw [later other.2 (fun same =>
              absent (same ▸ List.mem_map_of_mem inside))]
            exact adoptable.detached other (List.mem_cons_of_mem row inside)

theorem adoptAll_servedAs {db : Nat} {accepts : String × Nat → Bool}
    {rows : List (String × Nat)} {world : World Value}
    (adopted : (adoptAll db accepts rows world).2 = none) :
    ∀ row ∈ rows,
      (adoptAll db accepts rows world).1.ServedAs db row.1 row.2 := by
  induction rows generalizing world with
  | nil => simp
  | cons first rows induction =>
      simp only [adoptAll] at adopted ⊢
      split at adopted
      case h_1 => simp at adopted
      case h_2 next result =>
        intro row member
        rcases List.mem_cons.mp member with rfl | inside
        · have entries := (adopt_ok result).2.2.1
          refine ⟨world.nextPv, ?_⟩
          rw [adoptAll_serving (by rw [entries, Function.update_self])]
          rw [entries, Function.update_self]
        · exact induction adopted row inside

theorem adoptAll_none {world : World Value} {db : Nat}
    {accepts : String × Nat → Bool} {rows : List (String × Nat)}
    (none_ : world.NoneAdopted accepts rows) :
    (adoptAll db accepts rows world).1 = world := by
  cases rows with
  | nil => rfl
  | cons row rows =>
      simp only [adoptAll]
      split
      case h_1 => rfl
      case h_2 next adopted =>
        obtain ⟨value, accepted, detached⟩ := adopt_detached adopted
        rcases none_ with refused | other
        · simp [accepted] at refused
        · exact (other value detached).elim

section Start

variable {world : World Value} {providers : List Nat}
  {accepts : String × Nat → Bool} {binds : Bool}

/-- The PVs are adopted into a new database. -/
def adopted (world : World Value) (providers : List Nat)
    (accepts : String × Nat → Bool) : World Value :=
  (adoptAll world.nextDb accepts (world.rows providers) world.newDb).1

/-- A server is added where all PVs are adopted and the ports are bound. -/
theorem newServer_started
    (adoptable : Adoptable world accepts (world.rows providers)) :
    (world.newServer providers accepts true).1 =
      { world.adopted providers accepts with
        servers := world.servers ++ [⟨world.nextDb, providers, true⟩] } := by
  have ok : (adoptAll world.nextDb accepts (world.rows providers)
      world.newDb).2 = none :=
    adoptAll_ok_iff.mpr ⟨adoptable.nodup, adoptable.detached⟩
  have servers := (adoptAll_servers world.nextDb accepts
    (world.rows providers) world.newDb).servers
  simp only [newServer, adopted]
  split
  case h_1 result _ isResult => simp [isResult] at ok
  case h_2 result isResult =>
    rw [isResult] at servers ⊢
    simp only [if_true]
    rw [servers]
    rfl

theorem newServer_unstarted
    (not : ¬(Adoptable world accepts (world.rows providers) ∧
      binds = true)) :
    (world.newServer providers accepts binds).1 =
      world.adopted providers accepts := by
  simp only [newServer, adopted]
  split
  case h_1 result _ isResult => rw [isResult]
  case h_2 result isResult =>
    split
    case isFalse => rw [isResult]
    case isTrue bound =>
      have adoptable : Adoptable world.newDb accepts
          (world.rows providers) :=
        adoptAll_ok_iff.mp (by rw [isResult])
      exact (not ⟨⟨adoptable.nodup, adoptable.detached⟩, bound⟩).elim

end Start

/-- Every registration is with a database that lives, a served PV is there
under its name, and no two PVs have one registration. -/
structure Living (live : Nat → Prop) (world : World Value) : Prop where
  registered : ∀ entry reg, (world.entries entry).reg = some reg →
    live reg.db
  serving : ∀ entry pv, (world.entries entry).state = .serving pv →
    ∃ reg, (world.entries entry).reg = some reg ∧
      world.dbs reg.db reg.name = some pv
  unique : ∀ entry other reg, (world.entries entry).reg = some reg →
    (world.entries other).reg = some reg → entry = other

namespace Living

variable {live : Nat → Prop} {world after : World Value}

theorem elsewhere (living : Living live world) {entry pv : Nat}
    {reg : Registration} {cell : Option Nat}
    (isServing : (world.entries entry).state = .serving pv)
    (other : (world.entries entry).reg ≠ some reg) :
    ∃ own, (world.entries entry).reg = some own ∧
      Function.update world.dbs reg.db
        (Function.update (world.dbs reg.db) reg.name cell)
          own.db own.name = some pv := by
  obtain ⟨own, isOwn, found⟩ := living.serving entry pv isServing
  refine ⟨own, isOwn, ?_⟩
  rw [update_other]
  · exact found
  · rintro ⟨sameDb, sameName⟩
    apply other
    rw [isOwn, Option.some.injEq]
    cases own
    cases reg
    simp_all

theorem entryStep (living : Living live world) {serves : Prop}
    {entry : Nat} (step : EntryStep serves world entry after) :
    Living live after := by
  have regs := step.sameRegs
  constructor
  case registered =>
    intro other reg registered
    rw [regs] at registered
    exact living.registered other reg registered
  case unique =>
    intro left right reg isLeft isRight
    rw [regs] at isLeft isRight
    exact living.unique left right reg isLeft isRight
  case serving =>
    intro other pv isServing
    cases step with
    | value entries dbs cells =>
        rw [entries] at isServing ⊢
        rw [dbs]
        exact living.serving other pv isServing
    | idle state notServing before entries dbs cells =>
        rw [regs, dbs]
        rw [entries] at isServing
        by_cases same : other = entry
        · rw [same, Function.update_self] at isServing
          exact (notServing pv isServing).elim
        · rw [Function.update_of_ne same] at isServing
          exact living.serving other pv isServing
    | served reg serves idle registered entries dbs cells =>
        rw [regs, dbs]
        rw [entries] at isServing
        by_cases same : other = entry
        · rw [same, Function.update_self] at isServing
          obtain rfl := ValueState.serving.inj isServing
          rw [same]
          exact ⟨reg, registered, by simp⟩
        · rw [Function.update_of_ne same] at isServing
          apply living.elsewhere isServing
          intro isOther
          exact same (living.unique other entry reg isOther registered)
    | closed reg registered entries dbs cells =>
        rw [regs, dbs]
        rw [entries] at isServing
        by_cases same : other = entry
        · rw [same, Function.update_self] at isServing
          simp at isServing
        · rw [Function.update_of_ne same] at isServing
          apply living.elsewhere isServing
          intro isOther
          exact same (living.unique other entry reg isOther registered)

theorem mono (living : Living live world) {more : Nat → Prop}
    (implies : ∀ db, live db → more db) : Living more world where
  registered entry reg registered :=
    implies reg.db (living.registered entry reg registered)
  serving := living.serving
  unique := living.unique

theorem adopt (living : Living live world) {entry db : Nat} {name : String}
    {accepts : Bool} (isLive : live db)
    (free : ∀ other, (world.entries other).reg ≠ some ⟨db, name⟩)
    (adopted : world.adopt entry db name accepts = .ok after) :
    Living live after := by
  obtain ⟨_, _, entries, dbs, _⟩ := adopt_ok adopted
  constructor
  case registered =>
    intro other reg registered
    rw [entries] at registered
    by_cases same : other = entry
    · rw [same, Function.update_self] at registered
      obtain rfl := Option.some.inj registered
      exact isLive
    · rw [Function.update_of_ne same] at registered
      exact living.registered other reg registered
  case unique =>
    intro left right reg isLeft isRight
    rw [entries] at isLeft isRight
    by_cases first : left = entry
    · by_cases second : right = entry
      · rw [first, second]
      · rw [first, Function.update_self] at isLeft
        rw [Function.update_of_ne second] at isRight
        exact (free right (isRight.trans isLeft.symm)).elim
    · rw [Function.update_of_ne first] at isLeft
      by_cases second : right = entry
      · rw [second, Function.update_self] at isRight
        exact (free left (isLeft.trans isRight.symm)).elim
      · rw [Function.update_of_ne second] at isRight
        exact living.unique left right reg isLeft isRight
  case serving =>
    intro other pv isServing
    rw [entries] at isServing ⊢
    rw [dbs]
    by_cases same : other = entry
    · rw [same, Function.update_self] at isServing ⊢
      obtain rfl := ValueState.serving.inj isServing
      exact ⟨⟨db, name⟩, rfl, by simp⟩
    · rw [Function.update_of_ne same] at isServing ⊢
      exact @elsewhere _ _ _ living other pv ⟨db, name⟩ _ isServing
        (free other)

theorem adoptAll (living : Living live world) {db : Nat}
    {accepts : String × Nat → Bool} {rows : List (String × Nat)}
    (isLive : live db) (nodup : (rows.map Prod.fst).Nodup)
    (free : ∀ row ∈ rows, ∀ other,
      (world.entries other).reg ≠ some ⟨db, row.1⟩) :
    Living live (World.adoptAll db accepts rows world).1 := by
  induction rows generalizing world with
  | nil => exact living
  | cons row rows induction =>
      obtain ⟨absent, nodup⟩ := List.nodup_cons.mp nodup
      simp only [World.adoptAll]
      split
      case h_1 => exact living
      case h_2 next adopted =>
        have entries := (adopt_ok adopted).2.2.1
        apply induction _ nodup
        · intro later inside other
          rw [entries]
          by_cases same : other = row.2
          · rw [same, Function.update_self]
            intro registered
            simp only [Option.some.injEq, Registration.mk.injEq, true_and]
              at registered
            exact absent (registered ▸ List.mem_map_of_mem inside)
          · rw [Function.update_of_ne same]
            exact free later (List.mem_cons_of_mem row inside) other
        · apply living.adopt isLive (free row List.mem_cons_self) adopted

theorem newDb (living : Living live world) (other : ¬live world.nextDb) :
    Living live world.newDb where
  registered := living.registered
  unique := living.unique
  serving := by
    intro entry pv isServing
    obtain ⟨reg, registered, found⟩ := living.serving entry pv isServing
    refine ⟨reg, registered, ?_⟩
    have differs : reg.db ≠ world.nextDb := by
      intro same
      exact other (same ▸ living.registered entry reg registered)
    simpa [World.newDb, Function.update_of_ne differs] using found

end Living

/-- The database of a running server. -/
def Live (world : World Value) (db : Nat) : Prop :=
  ∃ server ∈ world.servers, server.running = true ∧ server.db = db

/-- A server starts cleanly when no PV of it can be adopted, or when all can
under different names, and the ports are bound.  It is stopped only if no PV
is registered with it. -/
def Clean (world : World Value) : Op Value → Prop
  | .start providers accepts binds =>
      world.NoneAdopted accepts (world.rows providers) ∨
        (Adoptable world accepts (world.rows providers) ∧
          ((world.rows providers).map Prod.fst).Nodup ∧ binds = true)
  | .stop server => ∀ state, world.servers[server]? = some state →
      state.running = true → ∀ entry reg,
        (world.entries entry).reg = some reg → reg.db ≠ state.db
  | _ => True

/-- The PVs are served by servers that run. -/
def Alive (world : World Value) : Prop :=
  Living world.Live world

namespace Alive

variable {world after : World Value}

theorem entryStep (alive : world.Alive) {serves : Prop} {entry : Nat}
    (step : EntryStep serves world entry after)
    (servers : SameServers world after) : after.Alive := by
  apply (Living.entryStep alive step).mono
  intro db live
  simpa [Live, servers.servers] using live

theorem setRows (alive : world.Alive) (provider : Nat)
    (rows : List (String × Nat)) : (world.setRows provider rows).Alive :=
  ⟨alive.registered, alive.serving, alive.unique⟩

theorem newDb (alive : world.Alive) (numbered : world.Numbered) :
    Living world.Live world.newDb := by
  apply Living.newDb alive
  rintro ⟨server, member, _, same⟩
  exact Nat.ne_of_lt (numbered.bound server member) same

theorem newServer (alive : world.Alive) (numbered : world.Numbered)
    {providers : List Nat} {accepts : String × Nat → Bool} {binds : Bool}
    (clean : world.Clean (.start providers accepts binds)) :
    (world.newServer providers accepts binds).1.Alive := by
  have fresh := alive.newDb numbered
  have free : ∀ name other,
      (world.newDb.entries other).reg ≠ some ⟨world.nextDb, name⟩ := by
    intro name other registered
    obtain ⟨server, member, _, same⟩ :=
      alive.registered other _ registered
    exact Nat.ne_of_lt (numbered.bound server member) same
  have adopted : ∀ live : Nat → Prop, live world.nextDb →
      (∀ db, world.Live db → live db) →
      ((world.rows providers).map Prod.fst).Nodup →
      Living live (world.adopted providers accepts) := by
    intro live isLive implies nodup
    apply (fresh.mono implies).adoptAll isLive nodup
    intro row _ other
    exact free row.1 other
  have servers := (adoptAll_servers world.nextDb accepts
    (world.rows providers) world.newDb).servers
  by_cases started : Adoptable world accepts (world.rows providers) ∧
      binds = true
  · have nodup : ((world.rows providers).map Prod.fst).Nodup := by
      rcases clean with none_ | ⟨_, nodup, _⟩
      · cases listed : world.rows providers with
        | nil => simp
        | cons row rows =>
            rw [listed] at none_ started
            obtain ⟨accepted, value, detached⟩ :=
              started.1.detached row List.mem_cons_self
            rcases none_ with refused | other
            · simp [accepted] at refused
            · exact (other value detached).elim
      · exact nodup
    obtain ⟨adoptable, rfl⟩ := started
    rw [newServer_started adoptable]
    have living := adopted (fun db => world.Live db ∨ db = world.nextDb)
      (.inr rfl) (fun db live => .inl live) nodup
    have all : Living (Live { world.adopted providers accepts with
        servers := world.servers ++ [⟨world.nextDb, providers, true⟩] })
          (world.adopted providers accepts) := by
      apply living.mono
      rintro db (⟨server, member, running, same⟩ | rfl)
      · exact ⟨server, List.mem_append_left _ member, running, same⟩
      · exact ⟨_, List.mem_append_right _ List.mem_cons_self, rfl, rfl⟩
    exact ⟨all.registered, all.serving, all.unique⟩
  · rw [newServer_unstarted started]
    have none_ : world.NoneAdopted accepts (world.rows providers) := by
      rcases clean with none_ | ⟨adoptable, _, bound⟩
      · exact none_
      · exact (started ⟨adoptable, bound⟩).elim
    have still : world.newDb.NoneAdopted accepts (world.rows providers) :=
      none_
    rw [World.adopted, adoptAll_none still]
    exact fresh

theorem stop (alive : world.Alive) {server : Nat}
    (clean : world.Clean (.stop server)) : (world.stop server).Alive where
  serving := alive.serving
  unique := alive.unique
  registered := by
    intro entry reg registered
    obtain ⟨state, member, running, same⟩ :=
      alive.registered entry reg registered
    obtain ⟨index, found⟩ := List.mem_iff_getElem?.mp member
    have other : index ≠ server := by
      rintro rfl
      exact clean state found running entry reg registered same.symm
    refine ⟨state, ?_, running, same⟩
    apply List.mem_iff_getElem?.mpr
    refine ⟨index, ?_⟩
    simp only [World.stop, List.getElem?_modify]
    rw [found]
    simp [Ne.symm other]

theorem invariant :
    ((system : Transition (World Value) (Op Value)).restrict
      Clean).Invariant fun world => world.Numbered ∧ world.Alive := by
  apply (Numbered.invariant.restrict Clean).strengthen
  · intro world start
    rw [start]
    constructor
    all_goals simp [fresh]
  · intro world op after numbered alive step
    obtain ⟨step, clean⟩ := step
    obtain rfl := Option.some.inj step
    cases op with
    | «open» entry value accepts =>
        apply alive.entryStep (open_step world entry value accepts)
          (open_servers world entry value accepts)
    | post entry value =>
        apply alive.entryStep (post_step world entry value)
          (post_servers world entry value)
    | close entry =>
        apply alive.entryStep (close_step world entry)
          (close_servers world entry)
    | add provider name entry =>
        simp only [World.apply, World.add]
        split
        · exact alive
        · apply alive.setRows
    | remove provider name =>
        simp only [World.apply, World.remove]
        split
        case h_2 => exact alive
        case h_1 row found =>
          apply (alive.setRows provider _).entryStep (close_step _ row.2)
            (close_servers _ row.2)
    | start providers accepts binds => apply alive.newServer numbered clean
    | stop server => apply alive.stop clean

end Alive

/-- A running server has the cell in its database. -/
def Held (world : World Value) (pv : Nat) : Prop :=
  ∃ server ∈ world.servers, server.running = true ∧
    ∃ name, world.dbs server.db name = some pv

/-- A PV is served only by a server that runs.  It keeps its value when a
server is stopped, can be adopted while it is open and not served, and can be
opened again after it was closed. -/
structure Survives (world : World Value) : Prop where
  serving : ∀ entry pv, (world.entries entry).state = .serving pv →
    world.Held pv
  kept : ∀ server entry,
    (world.stop server).current entry = world.current entry
  adopts : ∀ entry value, (world.entries entry).state = .detached value →
    ∀ db name, ∃ next pv, world.adopt entry db name true = .ok next ∧
      (next.entries entry).state = .serving pv ∧
      next.dbs db name = some pv ∧ next.pvs pv = some value
  reopens : ∀ entry, (world.entries entry).state = .closed → ∀ value,
    (world.open entry value true).current entry = some value ∧
      ∀ pv, ((world.open entry value true).entries entry).state =
        .serving pv → (world.open entry value true).Held pv

theorem Living.held {world : World Value} (alive : world.Alive)
    {entry pv : Nat} (isServing : (world.entries entry).state = .serving pv) :
    world.Held pv := by
  obtain ⟨reg, registered, found⟩ := alive.serving entry pv isServing
  obtain ⟨server, member, running, same⟩ :=
    alive.registered entry reg registered
  refine ⟨server, member, running, reg.name, ?_⟩
  rw [same]
  exact found

theorem open_current {world : World Value} {entry : Nat}
    (closed : (world.entries entry).state = .closed) (value : Value) :
    (world.open entry value true).current entry = some value := by
  cases registered : (world.entries entry).reg with
  | none => simp [World.open, closed, registered, current, setState, setEntry]
  | some reg =>
      simp [World.open, closed, registered, current, setState, setEntry,
        install, setName, setPv]

theorem Alive.survives {world : World Value} (alive : world.Alive) :
    world.Survives where
  serving entry pv isServing := Living.held alive isServing
  kept _ _ := rfl
  adopts entry value detached db name := by
    simp only [adopt, detached, if_true]
    refine ⟨_, world.nextPv, rfl, ?_, ?_, ?_⟩
    · simp [setEntry]
    · simp [setEntry, install, setName]
    · simp [setEntry, install, setName, setPv]
  reopens entry closed value := by
    refine ⟨open_current closed value, ?_⟩
    intro pv isServing
    have opened : (world.open entry value true).Alive :=
      alive.entryStep (open_step world entry value true)
        (open_servers world entry value true)
    exact Living.held opened isServing

theorem Survives.registered {world : World Value} (survives : world.Survives)
    (numbered : world.Numbered) {entry pv : Nat}
    (isServing : (world.entries entry).state = .serving pv) :
    ∃ server ∈ world.servers, server.running = true ∧
      ∃ name, (world.entries entry).reg = some ⟨server.db, name⟩ ∧
        world.dbs server.db name = some pv := by
  obtain ⟨server, member, running, name, found⟩ :=
    survives.serving entry pv isServing
  exact ⟨server, member, running, name,
    numbered.owner entry pv server.db name isServing found, found⟩

theorem reopen_state {world : World Value} {entry : Nat} {reg : Registration}
    (registered : (world.entries entry).reg = some reg) (value : Value) :
    ((world.close entry).open entry value true).entries entry =
      ⟨.serving (world.close entry).nextPv, some reg⟩ := by
  have same := (close_step world entry).sameRegs entry
  rw [registered] at same
  cases state : ((world.close entry).entries entry).state with
  | serving pv => exact (close_idle world entry pv state).elim
  | _ => simp [World.open, state, same, install, setState, setEntry, setName,
      setPv]

/-- After a PV is opened again whose server was stopped, it is served by
no server that runs. -/
theorem stop_breaks {world : World Value}
    (reachable : (system : Transition (World Value) (Op Value)).Reachable
      world) {server : Nat} {state : CaServer} {entry : Nat}
    {reg : Registration} (found : world.servers[server]? = some state)
    (registered : (world.entries entry).reg = some reg)
    (here : reg.db = state.db) :
    (system : Transition (World Value) (Op Value)).Breakable Survives
      (world.stop server) := by
  have numbered := Numbered.invariant.reachable reachable
  obtain ⟨value⟩ := numbered.valued entry reg registered
  refine ⟨[.close entry, .open entry value true],
    ((world.stop server).close entry).open entry value true, ?_, ?_⟩
  · exact Transition.Run.of_foldlM rfl
  · intro survives
    have last : (((world.stop server).close entry).open entry value
        true).Numbered :=
      ((numbered.stop server).entryStep (close_step _ entry)
        (close_servers _ entry)).entryStep (open_step _ entry value true)
          (open_servers _ entry value true)
    have opened := @reopen_state _ (world.stop server) entry reg registered
      value
    obtain ⟨holder, member, running, name, isReg, _⟩ :=
      survives.registered last (by rw [opened])
    rw [opened] at isReg
    obtain rfl := Option.some.inj isReg
    rw [(open_servers _ entry value true).servers,
      (close_servers _ entry).servers] at member
    obtain ⟨index, isHolder⟩ := List.mem_iff_getElem?.mp member
    simp only [World.stop, List.getElem?_modify] at isHolder
    obtain ⟨old, isOld, same⟩ := Option.map_eq_some_iff.mp isHolder
    split at same
    case isTrue =>
      rw [← same] at running
      simp at running
    case isFalse other =>
      subst same
      apply other
      apply (List.getElem?_inj _ numbered.nodup).mp
      · simpa [found, isOld] using here.symm
      · simpa using (List.getElem?_eq_some_iff.mp found).1

theorem first_adopted {world : World Value} {accepts : String × Nat → Bool}
    {rows : List (String × Nat)} (some_ : ¬world.NoneAdopted accepts rows) :
    ∃ row later value, rows = row :: later ∧ accepts row = true ∧
      (world.entries row.2).state = .detached value := by
  cases rows with
  | nil => exact (some_ trivial).elim
  | cons row later =>
      obtain ⟨accepted, other⟩ := not_or.mp some_
      simp only [ne_eq, not_forall, not_not] at other
      obtain ⟨value, detached⟩ := other
      exact ⟨row, later, value, rfl, by simpa using accepted, detached⟩

/-- A PV that was adopted for a server that does not start, or under a name
that another PV of the server has, is not held. -/
theorem start_breaks {world : World Value} (numbered : world.Numbered)
    {providers : List Nat} {accepts : String × Nat → Bool} {binds : Bool}
    (unclean : ¬world.Clean (.start providers accepts binds)) :
    ¬(world.newServer providers accepts binds).1.Survives := by
  intro survives
  obtain ⟨some_, unclean⟩ := not_or.mp unclean
  have last := numbered.newServer providers accepts binds
  have servers := (adoptAll_servers world.nextDb accepts
    (world.rows providers) world.newDb).servers
  by_cases started : Adoptable world accepts (world.rows providers) ∧
      binds = true
  · obtain ⟨adoptable, rfl⟩ := started
    apply unclean
    refine ⟨adoptable, ?_, rfl⟩
    rw [newServer_started adoptable] at survives last
    have served : ∀ row ∈ world.rows providers,
        (world.adopted providers accepts).ServedAs world.nextDb row.1 row.2 :=
      adoptAll_servedAs
        (adoptAll_ok_iff.mpr ⟨adoptable.nodup, adoptable.detached⟩)
    have cell : ∀ row ∈ world.rows providers, ∃ pv,
        ((world.adopted providers accepts).entries row.2).state =
          .serving pv ∧
        (world.adopted providers accepts).dbs world.nextDb row.1 =
          some pv := by
      intro row member
      obtain ⟨pv, isServed⟩ := served row member
      have isServing : ((world.adopted providers accepts).entries
          row.2).state = .serving pv := by rw [isServed]
      obtain ⟨holder, _, _, name, isReg, found⟩ :=
        survives.registered last isServing
      refine ⟨pv, isServing, ?_⟩
      change (((world.adopted providers accepts).entries row.2).reg =
        some _) at isReg
      rw [isServed] at isReg
      simp only [Option.some.injEq, Registration.mk.injEq] at isReg
      rw [isReg.1, isReg.2]
      exact found
    apply List.pairwise_map.mpr
    apply (List.pairwise_map.mp adoptable.nodup).imp_of_mem
    intro left right isLeft isRight differ same
    obtain ⟨pv, leftServes, leftCell⟩ := cell left isLeft
    obtain ⟨other, rightServes, rightCell⟩ := cell right isRight
    rw [same, rightCell] at leftCell
    obtain rfl := Option.some.inj leftCell
    exact differ (last.apart left.2 right.2 other leftServes rightServes)
  · rw [newServer_unstarted started] at survives last
    obtain ⟨row, later, value, listed, accepted, detached⟩ :=
      first_adopted some_
    obtain ⟨next, result⟩ := @adopt_ok_of_detached _ world.newDb row.2
      world.nextDb row.1 value detached
    have entries := (adopt_ok result).2.2.1
    have entry : (world.adopted providers accepts).entries row.2 =
        ⟨.serving world.nextPv, some ⟨world.nextDb, row.1⟩⟩ := by
      rw [adopted, listed]
      simp only [adoptAll, accepted, result]
      rw [adoptAll_serving (by rw [entries, Function.update_self])]
      rw [entries, Function.update_self]
      rfl
    obtain ⟨holder, member, _, name, isReg, _⟩ :=
      survives.registered last (by rw [entry])
    rw [entry] at isReg
    simp only [Option.some.injEq, Registration.mk.injEq] at isReg
    rw [adopted, servers] at member
    exact Nat.ne_of_lt (numbered.bound holder member) isReg.1.symm

/-- PVs survive their servers in every run in which servers start cleanly and
none is stopped that a PV is registered with; a PV may be left served by no
server otherwise. -/
theorem pvs_survive_servers :
    (system : Transition (World Value) (Op Value)).Guards Clean Survives where
  enough world reachable :=
    (Alive.invariant.reachable reachable).2.survives
  needed world op after reachable step unclean := by
    obtain rfl := Option.some.inj step
    cases op with
    | start providers accepts binds =>
        apply Transition.Breakable.now
        apply start_breaks (Numbered.invariant.reachable reachable) unclean
    | stop server =>
        simp only [Clean, not_forall] at unclean
        obtain ⟨state, found, _, entry, reg, registered, here⟩ := unclean
        apply stop_breaks reachable found registered
        simpa using here
    | _ => exact (unclean trivial).elim

/-- A server is stopped that serves a PV. -/
def stopped : World Nat :=
  (((fresh.open 0 5 true).add 0 "a" 0).newServer [0] (fun _ => true) true).1
    |>.stop 0

/-- No server runs, the PV counts as served nevertheless, and no server can
adopt it; closed and opened again it is served in the database of the server
that was stopped. -/
theorem pv_does_not_survive :
    (system : Transition (World Nat) (Op Nat)).Reachable stopped ∧
      stopped.servers = [⟨0, [0], false⟩] ∧
      (stopped.entries 0).state = .serving 0 ∧
      (∀ db name, stopped.adopt 0 db name true =
        .error (.alreadyServed name)) ∧
      (((stopped.close 0).open 0 6 true).entries 0).state = .serving 1 ∧
      ((stopped.close 0).open 0 6 true).dbs 0 "a" = some 1 ∧
      ¬stopped.Survives := by
  refine ⟨?_, rfl, rfl, fun _ _ => rfl, rfl, rfl, ?_⟩
  · refine ⟨fresh, [.open 0 5 true, .add 0 "a" 0,
      .start [0] (fun _ => true) true, .stop 0], rfl, ?_⟩
    exact Transition.Run.of_foldlM rfl
  · intro survives
    obtain ⟨server, member, running, _⟩ := survives.serving 0 0 rfl
    obtain rfl := List.mem_singleton.mp member
    simp at running

end Repics.Ca.Server.World
