import Mathlib.Data.Finset.Option
import Mathlib.Data.Finset.Union
import Repics.Lib.Transition
import Repics.Pva.Server.Entry
import Repics.Pva.Value.ChangedSet

/-!
# Posts and subscribers

While a post delivers it holds the state lock, so no other post and no
subscription comes in between, but clients go on reading their rings or drop
them.  `Delivery` is a post between storing the value and leaving the lock.
The steps that hold the lock throughout are those of the entry.

`start`, `updates` and `since` are kept for the record: the value the PV was
opened with, what each accepted post had to tell, and how many posts had been
accepted when a client registered.
-/

namespace Repics.Pva.Server

/-- A post that has stored its value and is offering it. -/
structure Delivery where
  value : PvField
  marked : List Str
  kept : List Nat
  pending : List Nat

structure Monitored (Pv : Type) where
  entry : PvEntry Pv
  delivery : Option Delivery
  start : PvField
  updates : List MonitorUpdate
  since : Nat → Nat

inductive Step where
  | store (value : Root)
  | offer
  | release
  | subscribe
  | subscribeSeeded (allowsRead : Bool) (queueSize : Nat)
  | read (sub : Nat)
  | depart (sub : Nat)

namespace Monitored

section Steps

variable {Pv : Type} (lib : Library Pv)

/-- The value is stored and the subscribers are still to be served. -/
def stored (state : Monitored Pv) (entry : PvEntry Pv) (value : Root) :
    Monitored Pv :=
  match lib.current entry.pv with
  | none => { state with entry := entry }
  | some current =>
      let marked := lib.changedBitsetPaths value.desc value.marks
      { state with
        entry := entry
        updates := state.updates ++ [.posted current marked]
        delivery :=
          if entry.subs = [] then none
          else some ⟨current, marked, [], entry.subs⟩ }

/-- A subscription needs the lock. -/
def registered (state : Monitored Pv) (result : Option (PvEntry Pv)) :
    Option (Monitored Pv) :=
  if state.delivery.isSome then none
  else
    result.map fun entry => { state with
      entry := entry
      since := Function.update state.since state.entry.clients.length
        state.updates.length }

def advance (state : Monitored Pv) : Step → Option (Monitored Pv)
  | .store value =>
      if state.delivery.isSome then none
      else
        match state.entry.store lib value with
        | .error _ => some state
        | .ok none => some state
        | .ok (some entry) => some (state.stored lib entry value)
  | .offer =>
      match state.delivery with
      | some ⟨value, marked, kept, sub :: pending⟩ =>
          let (clients, took) :=
            PvEntry.offer lib state.entry.clients value marked sub
          some { state with
            entry := { state.entry with clients := clients }
            delivery := some ⟨value, marked,
              if took then kept ++ [sub] else kept, pending⟩ }
      | _ => none
  | .release =>
      match state.delivery with
      | some ⟨_, _, kept, []⟩ => some { state with
          entry := { state.entry with subs := kept }
          delivery := none }
      | _ => none
  | .subscribe => state.registered (state.entry.subscribe lib)
  | .subscribeSeeded allowsRead queueSize =>
      state.registered (state.entry.subscribeSeeded lib allowsRead queueSize)
  | .read sub =>
      (state.entry.read sub).map fun entry => { state with entry := entry }
  | .depart sub =>
      (state.entry.depart sub).map fun entry => { state with entry := entry }

/-- The PV has just been opened with a value of the given type. -/
structure Opened (desc : FieldDesc) (state : Monitored Pv) : Prop where
  delivery : state.delivery = none
  introspection : lib.introspection state.entry.pv = some desc
  opened : state.entry.opened = some desc
  current : lib.current state.entry.pv = some state.start
  fits : PvField.Fits desc state.start
  subs : state.entry.subs = []
  clients : state.entry.clients = []
  updates : state.updates = []
  since : state.since = fun _ => 0

def system (desc : FieldDesc) : Transition (Monitored Pv) Step :=
  .ofPartial (Opened lib desc) (advance lib)

end Steps

section Views

variable {Pv : Type} (state : Monitored Pv)

/-- The subscribers that the post in progress has still to serve. -/
def pending : List Nat :=
  match state.delivery with
  | none => []
  | some delivery => delivery.pending

/-- The subscribers that the next post will serve, if they stay. -/
def roster : List Nat :=
  match state.delivery with
  | none => state.entry.subs
  | some delivery => delivery.kept ++ delivery.pending

/-- The updates that every subscriber has been offered. -/
def settled : List MonitorUpdate :=
  match state.delivery with
  | none => state.updates
  | some _ => state.updates.dropLast

/-- The updates of the posts accepted after a client registered. -/
def acceptedSince (sub : Nat) : List MonitorUpdate :=
  state.updates.drop (state.since sub)

/-- What a client has been offered so far. -/
def offeredTo (sub : Nat) : List MonitorUpdate :=
  (if sub ∈ state.pending then state.settled else state.updates).drop
    (state.since sub)

end Views

end Monitored

/-- The bits of the nodes that paths name. -/
def bitsOf (numbering : PvData) (desc : FieldDesc) (paths : Finset Str) :
    BitSet :=
  paths.biUnion fun path => (numbering.bitForPath desc path).toFinset

/-- The rings append an update or fold it into their tail, and the paths of a
change set cover the leaves that the change set covers. -/
structure Library.FoldsTails {Pv : Type} (lib : Library Pv)
    (numbering : PvData) : Prop where
  update : ∀ limit held item,
    lib.ringUpdate limit held item = held ++ [item] ∨
      ∃ front tail merged, held = front ++ [tail] ∧
        lib.ringUpdate limit held item = front ++ [merged] ∧
        merged.value = item.value ∧
        merged.marked.toFinset = tail.marked.toFinset ∪ item.marked.toFinset
  field : ∀ limit held item,
    lib.ringField limit held item = held ++ [item] ∨
      ∃ front tail, held = front ++ [tail] ∧
        lib.ringField limit held item = front ++ [item]
  paths : ∀ {desc : FieldDesc} (marks : BitSet) {path : List Str},
    desc.WellNamed → desc.IsLeaf path →
    (desc.Covered 0 (bitsOf numbering desc
      (lib.changedBitsetPaths desc marks).toFinset) path ↔
        desc.Covered 0 marks path)

/-- The value of an update and the set of its paths. -/
abbrev Look := PvField × Finset Str

namespace Look

/-- The newest value and the united paths. -/
def squash (tail item : Look) : Option Look :=
  some (item.1, tail.2 ∪ item.2)

def snapshot (numbering : PvData) (desc : FieldDesc) (look : Look) :
    Snapshot :=
  ⟨look.1, bitsOf numbering desc look.2⟩

theorem squash_snapshot (numbering : PvData) (desc : FieldDesc)
    (tail item merged : Look) (mergedEq : squash tail item = some merged) :
    Snapshot.squash (tail.snapshot numbering desc)
      (item.snapshot numbering desc) =
        some (merged.snapshot numbering desc) := by
  simp only [squash, Option.some.injEq] at mergedEq
  subst mergedEq
  simp [Snapshot.squash, snapshot, bitsOf, Finset.union_biUnion]

end Look

namespace MonitorUpdate

def look (update : MonitorUpdate) : Look :=
  (update.value, update.marked.toFinset)

def snapshot (numbering : PvData) (desc : FieldDesc)
    (update : MonitorUpdate) : Snapshot :=
  update.look.snapshot numbering desc

end MonitorUpdate

namespace Ring

/-- Everything that went through the ring, oldest first. -/
def contents {α : Type} (ring : Ring α) : List α :=
  ring.taken ++ ring.held

end Ring

namespace Client

/-- The ring has been given the updates, squashed. -/
def Follows (client : Client) (offered : List MonitorUpdate) : Prop :=
  match client.subscriber with
  | .marked ring => Squashed Look.squash
      (offered.map MonitorUpdate.look)
      (ring.contents.map MonitorUpdate.look)
  | .plain ring => Squashed (fun _ item => some item)
      (client.seed :: offered.map MonitorUpdate.value) ring.contents

section Post

variable {Pv : Type} {lib : Library Pv} {numbering : PvData}

theorem Follows.post (lawful : lib.FoldsTails numbering) {client : Client}
    {offered : List MonitorUpdate} (follows : client.Follows offered)
    (value : PvField) (marked : List Str) :
    Follows { client with
        subscriber := client.subscriber.post lib value marked }
      (offered ++ [.posted value marked]) := by
  obtain ⟨seed, subscriber, gone⟩ := client
  cases subscriber with
  | marked ring =>
      obtain ⟨limit, held, taken⟩ := ring
      simp only [Follows, Subscriber.post, Ring.post, Ring.contents,
        List.map_append, List.map_cons, List.map_nil] at follows ⊢
      rcases lawful.update limit held (.posted value marked) with
        appended | ⟨front, tail, merged, rfl, folded, valueEq, markedEq⟩
      · rw [appended, List.map_append, ← List.append_assoc]
        apply follows.append
      · rw [folded]
        simp only [List.map_append, List.map_cons, List.map_nil]
        simp only [List.map_append, List.map_cons, List.map_nil,
          ← List.append_assoc] at follows ⊢
        apply follows.merge
        simp [Look.squash, MonitorUpdate.look, valueEq, markedEq]
  | plain ring =>
      obtain ⟨limit, held, taken⟩ := ring
      simp only [Follows, Subscriber.post, Ring.post, Ring.contents,
        List.map_append, List.map_cons, List.map_nil] at follows ⊢
      rw [← List.cons_append]
      rcases lawful.field limit held value with
        appended | ⟨front, tail, rfl, folded⟩
      · rw [appended, ← List.append_assoc]
        apply follows.append
      · rw [folded]
        simp only [← List.append_assoc] at follows ⊢
        apply follows.merge rfl

/-- Reading moves an update from one part of the ring to the other. -/
theorem Follows.read {client : Client} {offered : List MonitorUpdate}
    (follows : client.Follows offered) {subscriber : Subscriber}
    (taken : client.subscriber.read = some subscriber) :
    Follows { client with subscriber := subscriber } offered := by
  obtain ⟨seed, current, gone⟩ := client
  cases current with
  | marked ring =>
      obtain ⟨limit, held, out⟩ := ring
      cases held with
      | nil => simp [Subscriber.read] at taken
      | cons item held =>
          simp only [Subscriber.read, Option.some.injEq] at taken
          subst taken
          simpa [Follows, Ring.contents] using follows
  | plain ring =>
      obtain ⟨limit, held, out⟩ := ring
      cases held with
      | nil => simp [Subscriber.read] at taken
      | cons item held =>
          simp only [Subscriber.read, Option.some.injEq] at taken
          subst taken
          simpa [Follows, Ring.contents] using follows

theorem follows_marked (seed : PvField) (limit : Nat) :
    Follows ⟨seed, .marked ⟨limit, [], []⟩, false⟩ [] :=
  .nil

theorem follows_plain (lawful : lib.FoldsTails numbering)
    (seed : PvField) (limit : Nat) :
    Follows ⟨seed, .plain (Ring.post lib.ringField ⟨limit, [], []⟩ seed),
      false⟩ [] := by
  have single : lib.ringField limit [] seed = [seed] := by
    rcases lawful.field limit [] seed with appended | ⟨front, tail, split, _⟩
    · simpa using appended
    · simp at split
  simp only [Follows, Ring.post, Ring.contents, single, List.map_nil,
    List.nil_append]
  apply Squashed.append seed .nil

end Post

end Client

namespace Monitored

variable {Pv : Type} {lib : Library Pv} {numbering : PvData}
variable {desc : FieldDesc}

/-- What is known of a client: where its seed comes from and, unless it is
gone, that posts reach it and what it has been offered. -/
structure Served (numbering : PvData) (desc : FieldDesc)
    (state : Monitored Pv) (sub : Nat) (client : Client) : Prop where
  seed : client.seed = Snapshot.latest state.start
    ((state.updates.take (state.since sub)).map
      (MonitorUpdate.snapshot numbering desc))
  listed : client.gone = false → sub ∈ state.roster
  follows : client.gone = false → client.Follows (state.offeredTo sub)

structure Sound (lib : Library Pv) (numbering : PvData) (desc : FieldDesc)
    (state : Monitored Pv) : Prop where
  startFits : PvField.Fits desc state.start
  holds : ∃ root, state.entry.Holds lib root ∧ root.desc = desc ∧
    root.field = Snapshot.latest state.start
      (state.updates.map (MonitorUpdate.snapshot numbering desc))
  linked : Snapshot.Linked desc state.start
    (state.updates.map (MonitorUpdate.snapshot numbering desc))
  earlier : ∀ sub, state.since sub ≤ state.settled.length
  delivering : ∀ delivery, state.delivery = some delivery →
    state.updates =
      state.settled ++ [.posted delivery.value delivery.marked]
  nodup : state.roster.Nodup
  roster_lt : ∀ sub ∈ state.roster, sub < state.entry.clients.length
  served : ∀ sub client, state.entry.clients[sub]? = some client →
    state.Served numbering desc sub client

theorem settled_prefix (state : Monitored Pv) :
    state.settled <+: state.updates := by
  cases found : state.delivery with
  | none => simp [settled, found]
  | some delivery =>
      simp only [settled, found]
      apply List.dropLast_prefix

/-- A client is added between two deliveries. -/
structure JoinedAs (state next : Monitored Pv) (client : Client) : Prop where
  idle : state.delivery = none
  nextIdle : next.delivery = none
  entry : next.entry = { state.entry with
    subs := state.entry.subs ++ [state.entry.clients.length]
    clients := state.entry.clients ++ [client] }
  start : next.start = state.start
  updates : next.updates = state.updates
  since : next.since = Function.update state.since
    state.entry.clients.length state.updates.length

namespace JoinedAs

variable {state next : Monitored Pv} {client : Client}

theorem roster (joined : JoinedAs state next client) :
    next.roster = state.roster ++ [state.entry.clients.length] := by
  simp [Monitored.roster, joined.idle, joined.nextIdle, joined.entry]

theorem offeredTo (joined : JoinedAs state next client) (sub : Nat) :
    next.offeredTo sub = state.updates.drop (next.since sub) := by
  simp [Monitored.offeredTo, pending, joined.nextIdle, joined.updates]

theorem earlier (joined : JoinedAs state next client)
    (sound : state.Sound lib numbering desc) (sub : Nat) :
    next.since sub ≤ next.settled.length := by
  have settledEq : next.settled = state.updates := by
    simp [settled, joined.nextIdle, joined.updates]
  have before := sound.earlier sub
  rw [joined.since, settledEq]
  by_cases new : sub = state.entry.clients.length
  · rw [new, Function.update_self]
  · rw [Function.update_of_ne new]
    apply before.trans state.settled_prefix.length_le

theorem served_old (joined : JoinedAs state next client)
    (sound : state.Sound lib numbering desc) {sub : Nat} {other : Client}
    (found : state.entry.clients[sub]? = some other) :
    next.Served numbering desc sub other := by
  have served := sound.served sub other found
  have old : sub < state.entry.clients.length :=
    (List.getElem?_eq_some_iff.mp found).1
  have sameSince : next.since sub = state.since sub := by
    rw [joined.since, Function.update_of_ne (Nat.ne_of_lt old)]
  constructor
  case seed =>
    rw [sameSince, joined.start, joined.updates]
    exact served.seed
  case listed =>
    intro live
    rw [joined.roster]
    apply List.mem_append_left _ (served.listed live)
  case follows =>
    intro live
    have follows := served.follows live
    simp only [Monitored.offeredTo, pending, joined.idle, List.not_mem_nil,
      if_false] at follows
    rw [joined.offeredTo, sameSince]
    exact follows

theorem served_new (joined : JoinedAs state next client)
    (seed : client.seed = Snapshot.latest state.start
      (state.updates.map (MonitorUpdate.snapshot numbering desc)))
    (follows : client.Follows []) :
    next.Served numbering desc state.entry.clients.length client := by
  have newSince : next.since state.entry.clients.length =
      state.updates.length := by
    rw [joined.since, Function.update_self]
  constructor
  case seed =>
    rw [newSince, joined.start, joined.updates, List.take_length]
    exact seed
  case listed =>
    intro _
    rw [joined.roster]
    apply List.mem_append_right _ (List.mem_singleton.mpr rfl)
  case follows =>
    intro _
    rw [joined.offeredTo, newSince, List.drop_length]
    exact follows

theorem sound (joined : JoinedAs state next client)
    (sound : state.Sound lib numbering desc)
    (seed : client.seed = Snapshot.latest state.start
      (state.updates.map (MonitorUpdate.snapshot numbering desc)))
    (follows : client.Follows []) : next.Sound lib numbering desc where
  startFits := by
    rw [joined.start]
    exact sound.startFits
  holds := by
    obtain ⟨root, holds, rest⟩ := sound.holds
    rw [joined.entry, joined.start, joined.updates]
    exact ⟨root, holds.frame rfl rfl rfl, rest⟩
  linked := by
    rw [joined.start, joined.updates]
    exact sound.linked
  earlier := joined.earlier sound
  delivering := by simp [joined.nextIdle]
  nodup := by
    have fresh : state.entry.clients.length ∉ state.roster := by
      intro member
      exact Nat.lt_irrefl _ (sound.roster_lt _ member)
    rw [joined.roster, List.nodup_append_comm, List.singleton_append,
      List.nodup_cons]
    exact ⟨fresh, sound.nodup⟩
  roster_lt := by
    intro sub member
    rw [joined.roster] at member
    rw [joined.entry, List.length_append, List.length_singleton]
    rcases List.mem_append.mp member with old | new
    · apply Nat.lt_succ_of_lt (sound.roster_lt sub old)
    · rw [List.mem_singleton.mp new]
      apply Nat.lt_succ_self
  served := by
    intro sub current found
    simp only [joined.entry] at found
    rcases Nat.lt_or_ge sub state.entry.clients.length with old | new
    · rw [List.getElem?_append_left old] at found
      exact joined.served_old sound found
    · have last : sub = state.entry.clients.length := by
        have bound := (List.getElem?_eq_some_iff.mp found).1
        simp only [List.length_append, List.length_singleton] at bound
        omega
      subst last
      simp only [List.getElem?_concat_length, Option.some.injEq] at found
      subst found
      exact joined.served_new seed follows

end JoinedAs

/-- A value is stored and, if there are subscribers, is to be delivered to
them. -/
structure StoredAs (state next : Monitored Pv) (new : PvField)
    (marked : List Str) : Prop where
  idle : state.delivery = none
  clients : next.entry.clients = state.entry.clients
  subs : next.entry.subs = state.entry.subs
  start : next.start = state.start
  updates : next.updates = state.updates ++ [.posted new marked]
  since : next.since = state.since
  delivery : next.delivery =
    if state.entry.subs = [] then none
    else some ⟨new, marked, [], state.entry.subs⟩

namespace StoredAs

variable {state next : Monitored Pv} {new : PvField} {marked : List Str}

theorem settled (stored : StoredAs state next new marked) :
    state.settled = state.updates := by
  simp [Monitored.settled, stored.idle]

theorem roster (stored : StoredAs state next new marked) :
    next.roster = state.roster := by
  by_cases empty : state.entry.subs = []
  · simp [Monitored.roster, stored.idle, stored.delivery, empty, stored.subs]
  · simp [Monitored.roster, stored.idle, stored.delivery, empty]

theorem earlier (stored : StoredAs state next new marked)
    (sound : state.Sound lib numbering desc) (sub : Nat) :
    next.since sub ≤ next.settled.length := by
  have before := sound.earlier sub
  rw [stored.settled] at before
  rw [stored.since]
  by_cases empty : state.entry.subs = []
  · simp only [Monitored.settled, stored.delivery, empty, if_true,
      stored.updates, List.length_append]
    omega
  · simpa [Monitored.settled, stored.delivery, empty, stored.updates] using
      before

/-- Every client stays served; those that are listed wait for the value. -/
theorem served (stored : StoredAs state next new marked)
    (sound : state.Sound lib numbering desc) {sub : Nat} {client : Client}
    (found : next.entry.clients[sub]? = some client) :
    next.Served numbering desc sub client := by
  rw [stored.clients] at found
  have served := sound.served sub client found
  constructor
  case seed =>
    have before := sound.earlier sub
    rw [stored.settled] at before
    rw [stored.start, stored.updates, stored.since,
      List.take_append_of_le_length before]
    exact served.seed
  case listed =>
    rw [stored.roster]
    exact served.listed
  case follows =>
    intro live
    have listed := served.listed live
    have follows := served.follows live
    simp only [Monitored.roster, stored.idle] at listed
    have nonempty : state.entry.subs ≠ [] := List.ne_nil_of_mem listed
    simp only [offeredTo, pending, stored.idle, List.not_mem_nil,
      if_false] at follows
    simpa [offeredTo, pending, Monitored.settled, stored.delivery, nonempty,
      listed, stored.updates, stored.since] using follows

theorem sound (stored : StoredAs state next new marked)
    (sound : state.Sound lib numbering desc)
    (linked : Snapshot.Linked desc next.start
      (next.updates.map (MonitorUpdate.snapshot numbering desc)))
    (holds : ∃ root, next.entry.Holds lib root ∧ root.desc = desc ∧
      root.field = Snapshot.latest next.start
        (next.updates.map (MonitorUpdate.snapshot numbering desc))) :
    next.Sound lib numbering desc where
  startFits := by
    rw [stored.start]
    exact sound.startFits
  holds := holds
  linked := linked
  earlier := stored.earlier sound
  delivering := by
    intro current found
    by_cases empty : state.entry.subs = []
    · simp [stored.delivery, empty] at found
    · simp only [stored.delivery, empty, if_false,
        Option.some.injEq] at found
      subst found
      simp [Monitored.settled, stored.delivery, empty, stored.updates]
  nodup := by
    rw [stored.roster]
    exact sound.nodup
  roster_lt := by
    rw [stored.roster, stored.clients]
    exact sound.roster_lt
  served := fun _ _ found => stored.served sound found

end StoredAs

namespace Sound

theorem opened {state : Monitored Pv} (start : Opened lib desc state) :
    state.Sound lib numbering desc where
  startFits := start.fits
  holds := by
    refine ⟨⟨desc, state.start, state.entry.marks⟩, ?_, rfl,
      by simp [start.updates]⟩
    rw [PvEntry.holds_iff]
    exact ⟨start.introspection, start.opened, start.current, rfl⟩
  linked := by
    rw [start.updates]
    apply Snapshot.Linked.nil
  earlier := by simp [start.since]
  delivering := by simp [start.delivery]
  nodup := by simp [roster, start.delivery, start.subs]
  roster_lt := by simp [roster, start.delivery, start.subs]
  served := by simp [start.clients]

theorem setClient {state : Monitored Pv}
    (sound : state.Sound lib numbering desc) {sub : Nat}
    {client : Client} (found : state.entry.clients[sub]? = some client)
    {changed : Client} (seed : changed.seed = client.seed)
    (follows : changed.gone = false → client.gone = false ∧
      ∀ offered, client.Follows offered → changed.Follows offered) :
    Sound lib numbering desc { state with
      entry := { state.entry with
        clients := state.entry.clients.set sub changed } } where
  startFits := sound.startFits
  holds := by
    obtain ⟨root, holds, rest⟩ := sound.holds
    exact ⟨root, holds.frame rfl rfl rfl, rest⟩
  linked := sound.linked
  earlier := sound.earlier
  delivering := sound.delivering
  nodup := sound.nodup
  roster_lt := by
    intro other member
    rw [List.length_set]
    apply sound.roster_lt other member
  served := by
    intro other current currentFound
    have sub_lt : sub < state.entry.clients.length :=
      (List.getElem?_eq_some_iff.mp found).1
    by_cases same : sub = other
    · subst same
      rw [List.getElem?_set_self sub_lt] at currentFound
      obtain rfl : changed = current := by simpa using currentFound
      have served := sound.served sub client found
      exact {
        seed := seed.trans served.seed
        listed := fun live => served.listed (follows live).1
        follows := fun live =>
          (follows live).2 _ (served.follows (follows live).1) }
    · rw [List.getElem?_set_ne same] at currentFound
      have served := sound.served other current currentFound
      exact ⟨served.seed, served.listed, served.follows⟩

theorem read {state next : Monitored Pv}
    (sound : state.Sound lib numbering desc) {sub : Nat}
    (step : state.advance lib (.read sub) = some next) :
    next.Sound lib numbering desc := by
  obtain ⟨entry, taken, rfl⟩ := Option.map_eq_some_iff.mp step
  simp only [PvEntry.read] at taken
  split at taken
  case h_1 => simp at taken
  case h_2 client found =>
    split at taken
    case isTrue => simp at taken
    case isFalse live =>
      obtain ⟨subscriber, readEq, rfl⟩ := Option.map_eq_some_iff.mp taken
      apply sound.setClient found
      · rfl
      · intro stays
        exact ⟨stays, fun offered follows => follows.read readEq⟩

theorem depart {state next : Monitored Pv}
    (sound : state.Sound lib numbering desc) {sub : Nat}
    (step : state.advance lib (.depart sub) = some next) :
    next.Sound lib numbering desc := by
  obtain ⟨entry, departed, rfl⟩ := Option.map_eq_some_iff.mp step
  obtain ⟨client, found, rfl⟩ := Option.map_eq_some_iff.mp departed
  apply sound.setClient found
  · rfl
  · simp

/-- A new client starts from the stored value and has been offered nothing. -/
theorem registered {state next : Monitored Pv}
    (sound : state.Sound lib numbering desc)
    {wrap : PvField → Subscriber}
    (follows : ∀ initial, Client.Follows ⟨initial, wrap initial, false⟩ [])
    (step : state.registered (state.entry.register lib wrap) = some next) :
    next.Sound lib numbering desc := by
  obtain ⟨root, holds, -, latest⟩ := sound.holds
  have current := ((PvEntry.holds_iff root).mp holds).2.2.1
  simp only [Monitored.registered, PvEntry.register, current] at step
  split at step
  case isTrue => simp at step
  case isFalse free =>
    simp only [Option.map_some, Option.some.injEq] at step
    have idle : state.delivery = none := by simpa using free
    have joined : JoinedAs state next ⟨root.field, wrap root.field, false⟩ :=
      by
        rw [← step]
        exact ⟨idle, idle, rfl, rfl, rfl, rfl⟩
    exact joined.sound sound latest (follows root.field)

theorem linked_posted (folds : lib.FoldsTails numbering)
    (wellNamed : desc.WellNamed) {state : Monitored Pv}
    (sound : state.Sound lib numbering desc) {marks : BitSet}
    {field new : PvField}
    (copies : PvField.Copies desc marks field
      (Snapshot.latest state.start
        (state.updates.map (MonitorUpdate.snapshot numbering desc))) new) :
    Snapshot.Linked desc state.start ((state.updates ++
      [MonitorUpdate.posted new (lib.changedBitsetPaths desc marks)]).map
        (MonitorUpdate.snapshot numbering desc)) := by
  rw [List.map_append, List.map_singleton, Snapshot.Linked.snoc_iff]
  refine ⟨sound.linked, copies.fits, ?_⟩
  intro path leaf bare
  apply copies.other path leaf
  intro covered
  apply bare
  apply (folds.paths marks wellNamed leaf).mpr covered

theorem store (lawful : lib.StoresDeltas)
    (folds : lib.FoldsTails numbering) (wellNamed : desc.WellNamed)
    {state next : Monitored Pv} (sound : state.Sound lib numbering desc)
    {value : Root} (step : state.advance lib (.store value) = some next) :
    next.Sound lib numbering desc := by
  simp only [advance] at step
  split at step
  case isTrue => simp at step
  case isFalse free =>
    have idle : state.delivery = none := by simpa using free
    cases stored : state.entry.store lib value with
    | error error =>
        simp only [stored, Option.some.injEq] at step
        exact step ▸ sound
    | ok result =>
        obtain ⟨opened, outcome⟩ := PvEntry.store_cases stored
        rcases outcome with ⟨-, rfl⟩ | ⟨-, pv, delta, rfl⟩
        · simp only [stored, Option.some.injEq] at step
          exact step ▸ sound
        · simp only [stored, Option.some.injEq] at step
          obtain ⟨root, holds, rootDesc, latest⟩ := sound.holds
          have both := (PvEntry.holds_iff root).mp holds
          obtain ⟨introspection, rootOpened, current, -⟩ := both
          have sameDesc : value.desc = desc := by
            rw [rootOpened, rootDesc] at opened
            simpa using opened.symm
          rw [rootDesc] at introspection
          have fits : PvField.Fits desc root.field := by
            rw [latest]
            apply sound.linked.latest_fits sound.startFits
          obtain ⟨nextIntrospection, new, nextCurrent, copies⟩ :=
            lawful.posted introspection current fits delta
          rw [latest] at copies
          simp only [Monitored.stored, nextCurrent, sameDesc] at step
          have storedAs : StoredAs state next new
              (lib.changedBitsetPaths desc value.marks) := by
            rw [← step]
            exact ⟨idle, rfl, rfl, rfl, rfl, rfl, rfl⟩
          apply storedAs.sound sound
          case linked =>
            rw [storedAs.start, storedAs.updates]
            exact linked_posted folds wellNamed sound copies
          case holds =>
            refine ⟨⟨desc, new, state.entry.marks ∪ value.marks⟩, ?_, rfl,
              ?_⟩
            · rw [PvEntry.holds_iff, ← step]
              exact ⟨nextIntrospection, rootDesc ▸ rootOpened, nextCurrent,
                rfl⟩
            · rw [storedAs.updates, List.map_append, List.map_singleton,
                Snapshot.latest_snoc]
              rfl

/-- One subscriber is served, or dropped when its ring is gone. -/
theorem offer (folds : lib.FoldsTails numbering) {state next : Monitored Pv}
    (sound : state.Sound lib numbering desc)
    (step : state.advance lib .offer = some next) :
    next.Sound lib numbering desc := by
  simp only [advance] at step
  split at step
  case h_2 => simp at step
  case h_1 value marked kept sub pending found =>
    have nodup := sound.nodup
    simp only [roster, found] at nodup
    have updatesEq := sound.delivering _ found
    have sub_lt : sub < state.entry.clients.length := by
      apply sound.roster_lt
      simp [roster, found]
    obtain ⟨client, subFound⟩ :
        ∃ client, state.entry.clients[sub]? = some client :=
      ⟨_, List.getElem?_eq_getElem sub_lt⟩
    obtain ⟨changed, offered, seed, gone, posted⟩ :=
      PvEntry.offer_cases lib subFound value marked
    rw [offered] at step
    simp only [Option.some.injEq] at step
    subst step
    constructor
    case startFits => exact sound.startFits
    case holds =>
      obtain ⟨root, holds, rest⟩ := sound.holds
      exact ⟨root, holds.frame rfl rfl rfl, rest⟩
    case linked => exact sound.linked
    case earlier =>
      have earlier := sound.earlier
      simp only [settled, found] at earlier
      exact earlier
    case delivering =>
      intro delivery same
      simp only [Option.some.injEq] at same
      subst same
      simp only [settled, found] at updatesEq ⊢
      exact updatesEq
    case nodup =>
      simp only [roster]
      split
      · simpa using nodup
      · apply List.Nodup.sublist _ nodup
        apply List.Sublist.append_left (List.sublist_cons_self sub pending)
    case roster_lt =>
      intro other member
      rw [List.length_set]
      apply sound.roster_lt
      simp only [roster, found, List.mem_append, List.mem_cons] at member ⊢
      rcases member with inKept | inPending
      · split at inKept
        · simp only [List.mem_append, List.mem_singleton] at inKept
          tauto
        · exact .inl inKept
      · exact .inr (.inr inPending)
    case served =>
      intro other current otherFound
      by_cases same : other = sub
      · subst same
        rw [List.getElem?_set_self sub_lt] at otherFound
        obtain rfl : changed = current := by simpa using otherFound
        have served := sound.served other client subFound
        refine ⟨seed.trans served.seed, ?_, ?_⟩
        · intro live
          have clientLive := gone.symm.trans live
          simp [roster, clientLive]
        · intro live
          have clientLive := gone.symm.trans live
          have follows :=
            (served.follows clientLive).post folds value marked
          have isPending : other ∈ state.pending := by
            simp [Monitored.pending, found]
          have notPending : other ∉ pending :=
            (List.nodup_cons.mp nodup.of_append_right).1
          rw [offeredTo, if_pos isPending, ← List.drop_append_of_le_length
            (sound.earlier other), ← updatesEq] at follows
          rw [posted clientLive]
          simp only [offeredTo, Monitored.pending, notPending, if_false]
          exact follows
      · rw [List.getElem?_set_ne (Ne.symm same)] at otherFound
        have served := sound.served other current otherFound
        refine ⟨served.seed, ?_, ?_⟩
        · intro live
          have listed := served.listed live
          simp only [roster, found, List.mem_append, List.mem_cons, same,
            false_or] at listed ⊢
          rcases listed with inKept | inPending
          · left
            split
            · exact List.mem_append_left _ inKept
            · exact inKept
          · exact .inr inPending
        · intro live
          have follows := served.follows live
          simp only [offeredTo, Monitored.pending, settled, found,
            List.mem_cons, same, false_or] at follows ⊢
          exact follows

theorem release {state next : Monitored Pv}
    (sound : state.Sound lib numbering desc)
    (step : state.advance lib .release = some next) :
    next.Sound lib numbering desc := by
  simp only [advance] at step
  split at step
  case h_2 => simp at step
  case h_1 value marked kept found =>
    simp only [Option.some.injEq] at step
    subst step
    have nodup := sound.nodup
    have roster_lt := sound.roster_lt
    simp only [roster, found, List.append_nil] at nodup roster_lt
    constructor
    case startFits => exact sound.startFits
    case holds =>
      obtain ⟨root, holds, rest⟩ := sound.holds
      exact ⟨root, holds.frame rfl rfl rfl, rest⟩
    case linked => exact sound.linked
    case earlier =>
      intro sub
      apply (sound.earlier sub).trans state.settled_prefix.length_le
    case delivering => simp
    case nodup => exact nodup
    case roster_lt => exact roster_lt
    case served =>
      intro sub client clientFound
      have served := sound.served sub client clientFound
      constructor
      case seed => exact served.seed
      case listed =>
        intro live
        have listed := served.listed live
        simp only [roster, found, List.append_nil] at listed ⊢
        exact listed
      case follows =>
        intro live
        have follows := served.follows live
        simp only [offeredTo, pending, found, List.not_mem_nil,
          if_false] at follows ⊢
        exact follows

theorem invariant (lawful : lib.StoresDeltas)
    (folds : lib.FoldsTails numbering) (wellNamed : desc.WellNamed) :
    (system lib desc).Invariant (Sound lib numbering desc) where
  initial _ start := opened start
  preserved state label next sound step := by
    cases label with
    | store value => apply sound.store lawful folds wellNamed step
    | offer => apply sound.offer folds step
    | release => apply sound.release step
    | subscribe =>
        apply sound.registered _ step
        intro initial
        apply Client.follows_plain folds
    | subscribeSeeded allowsRead queueSize =>
        cases allowsRead with
        | false =>
            have refused : state.registered none = some next := step
            simp [Monitored.registered] at refused
        | true =>
            apply sound.registered _ step
            intro initial
            apply Client.follows_marked
    | read sub => apply sound.read step
    | depart sub => apply sound.depart step

end Sound

/-- A live subscriber that no post in progress has still to serve holds the
stored value: its seed and its updates add up to it, and the paths of these
updates are those of the posts accepted since it registered.  The posts before
that are in the seed.  A plain stream ends in the stored value. -/
theorem every_post_reaches_subscriber (lawful : lib.StoresDeltas)
    (folds : lib.FoldsTails numbering) (wellNamed : desc.WellNamed)
    {state : Monitored Pv} (reachable : (system lib desc).Reachable state)
    {sub : Nat} {client : Client}
    (found : state.entry.clients[sub]? = some client)
    (live : client.gone = false) (served : sub ∉ state.pending) :
    ∃ root, state.entry.current lib = some root ∧
      client.seed = Snapshot.latest state.start
        ((state.updates.take (state.since sub)).map
          (MonitorUpdate.snapshot numbering desc)) ∧
      match client.subscriber with
      | .marked ring =>
          Snapshot.consume desc client.seed (ring.contents.map
            (MonitorUpdate.snapshot numbering desc)) = root.field ∧
          ∀ path, (∃ update ∈ state.acceptedSince sub, path ∈ update.marked) ↔
            ∃ update ∈ ring.contents, path ∈ update.marked
      | .plain ring => ring.contents.getLast? = some root.field := by
  have sound :=
    (Sound.invariant lawful folds wellNamed).reachable reachable
  obtain ⟨root, holds, -, latest⟩ := sound.holds
  have known := sound.served sub client found
  refine ⟨root, holds.2, known.seed, ?_⟩
  have follows := known.follows live
  rw [offeredTo, if_neg served] at follows
  change client.Follows (state.acceptedSince sub) at follows
  have split : state.updates =
      state.updates.take (state.since sub) ++ state.acceptedSince sub :=
    (List.take_append_drop _ _).symm
  have reached : root.field = Snapshot.latest client.seed
      ((state.acceptedSince sub).map
        (MonitorUpdate.snapshot numbering desc)) := by
    rw [latest, known.seed, ← Snapshot.latest_append, ← List.map_append,
      ← split]
  have linked := sound.linked
  rw [split, List.map_append] at linked
  have seedFits : PvField.Fits desc client.seed := by
    rw [known.seed]
    apply (linked.of_front (List.prefix_append _ _)).latest_fits
      sound.startFits
  have sinceLinked := linked.of_append
  rw [← known.seed] at sinceLinked
  obtain ⟨seed, subscriber, gone⟩ := client
  cases subscriber with
  | marked ring =>
      have squashed : Squashed Look.squash _ _ := follows
      constructor
      · have snapshots := squashed.map (Look.snapshot numbering desc)
          (Look.squash_snapshot numbering desc)
        simp only [List.map_map] at snapshots
        rw [reached]
        apply sinceLinked.consume_squashed seedFits wellNamed snapshots
      · intro path
        have paths := @Squashed.holds_iff _ Look.squash
          (fun look => path ∈ look.2) (by
            intro tail item merged mergedEq
            simp only [Look.squash, Option.some.injEq] at mergedEq
            rw [← mergedEq, Finset.mem_union]) _ _ squashed
        simpa [MonitorUpdate.look] using paths
  | plain ring =>
      have squashed : Squashed (fun _ item => some item) _ _ := follows
      have looks := squashed.getLast?_map id (by simp)
      simp only [Option.map_id_fun, id_eq] at looks
      change ring.contents.getLast? = some root.field
      rw [← looks, reached]
      simp only [Snapshot.latest, List.getLast?_cons, List.getLast?_map,
        Option.map_map]
      cases (state.acceptedSince sub).getLast? with
      | none => rfl
      | some update => rfl

theorem offers_run {state : Monitored Pv} {value : PvField}
    {marked : List Str} (pending kept : List Nat)
    (found : state.delivery = some ⟨value, marked, kept, pending⟩) :
    ∃ labels last, (system lib desc).Run state labels last ∧
      last.delivery = none ∧
      last.entry = { state.entry with
        subs := kept ++
          (PvEntry.retain lib value marked pending state.entry.clients).1
        clients :=
          (PvEntry.retain lib value marked pending
            state.entry.clients).2 } := by
  induction pending generalizing state kept with
  | nil =>
      refine ⟨[.release], { state with
        entry := { state.entry with subs := kept }
        delivery := none }, ?_, rfl, by simp [PvEntry.retain]⟩
      apply Transition.Run.cons _ (.nil _)
      simp [system, Transition.ofPartial, advance, found]
  | cons sub pending induction =>
      rcases offered : PvEntry.offer lib state.entry.clients value marked
        sub with ⟨clients, took⟩
      obtain ⟨labels, last, run, idle, entry⟩ := @induction
        { state with
          entry := { state.entry with clients := clients }
          delivery := some ⟨value, marked,
            if took then kept ++ [sub] else kept, pending⟩ } _ rfl
      refine ⟨.offer :: labels, last, ?_, idle, ?_⟩
      · apply Transition.Run.cons _ run
        simp [system, Transition.ofPartial, advance, found, offered]
      · rw [entry]
        simp only [PvEntry.retain, offered]
        cases took with
        | true => simp
        | false => simp

theorem post_run {state : Monitored Pv} (idle : state.delivery = none)
    {value : Root} {next : PvEntry Pv}
    (posted : state.entry.post lib value = .ok next) :
    ∃ labels last, (system lib desc).Run state labels last ∧
      last.delivery = none ∧ last.entry = next := by
  simp only [PvEntry.post] at posted
  cases stored : state.entry.store lib value with
  | error error => simp [stored] at posted
  | ok result =>
      cases result with
      | none =>
          simp only [stored, Except.ok.injEq] at posted
          exact ⟨[], state, .nil state, idle, posted⟩
      | some entry =>
          simp only [stored, Except.ok.injEq] at posted
          have step : (system lib desc).step state (.store value)
              (state.stored lib entry value) := by
            simp [system, Transition.ofPartial, advance, idle, stored]
          cases current : lib.current entry.pv with
          | none =>
              have unserved : entry.deliver lib value.desc value.marks =
                  entry := by
                simp [PvEntry.deliver, current]
              simp only [Monitored.stored, current] at step
              refine ⟨[.store value], _, .snoc (.nil state) step, idle, ?_⟩
              rw [← posted, unserved]
          | some field =>
              by_cases empty : entry.subs = []
              · simp only [Monitored.stored, current, empty, if_true] at step
                refine ⟨[.store value], _, .snoc (.nil state) step, rfl, ?_⟩
                rw [← posted, PvEntry.deliver, if_pos empty]
              · simp only [Monitored.stored, current, empty, if_false]
                  at step
                obtain ⟨labels, last, run, lastIdle, lastEntry⟩ :=
                  @offers_run Pv lib desc { state with
                    entry := entry
                    updates := state.updates ++ [.posted field
                      (lib.changedBitsetPaths value.desc value.marks)]
                    delivery := some ⟨field, lib.changedBitsetPaths
                      value.desc value.marks, [], entry.subs⟩ }
                    field (lib.changedBitsetPaths value.desc value.marks)
                    entry.subs [] rfl
                refine ⟨.store value :: labels, last, .cons step run,
                  lastIdle, ?_⟩
                rw [lastEntry, ← posted]
                simp [PvEntry.deliver, empty, current]

end Monitored

theorem mem_bitsOf_iff {numbering : PvData} {desc : FieldDesc}
    {paths : Finset Str} {bit : Nat} :
    bit ∈ bitsOf numbering desc paths ↔
      ∃ path ∈ paths, numbering.bitForPath desc path = some bit := by
  simp [bitsOf]

theorem isLeaf_prefix {desc : FieldDesc} {front path : List Str}
    (frontLeaf : desc.IsLeaf front) (leaf : desc.IsLeaf path)
    (isPrefix : front <+: path) : front = path := by
  obtain ⟨sub, found, notStructure⟩ := frontLeaf
  obtain ⟨rest, rfl⟩ := isPrefix
  obtain ⟨below, belowFound, belowLeaf⟩ := leaf
  rw [FieldDesc.atPath?_append, found, Option.bind_some] at belowFound
  have empty : rest = [] :=
    (FieldDesc.isLeaf_of_not_structure notStructure rest).mp
      ⟨below, belowFound, belowLeaf⟩
  rw [empty, List.append_nil]

namespace Library

theorem pushBounded_cases {α : Type} (merge : α → α → α) (limit : Nat)
    (held : List α) (item : α) :
    pushBounded merge limit held item = held ++ [item] ∨
      ∃ front tail, held = front ++ [tail] ∧
        pushBounded merge limit held item = front ++ [merge tail item] := by
  rcases List.eq_nil_or_concat' held with rfl | ⟨front, tail, rfl⟩
  · exact .inl rfl
  · by_cases room : (front ++ [tail]).length < limit
    · left
      simp only [pushBounded, List.getLast?_concat, room, if_true]
    · right
      refine ⟨front, tail, rfl, ?_⟩
      simp only [pushBounded, List.getLast?_concat, room, if_false,
        List.dropLast_concat]

theorem inMemory_foldsTails : inMemory.FoldsTails .depthFirst where
  update limit held item := by
    rcases pushBounded_cases MonitorUpdate.squashTail limit held item with
      appended | ⟨front, tail, split, folded⟩
    · exact .inl appended
    · exact .inr ⟨front, tail, _, split, folded, rfl,
        by simp [MonitorUpdate.squashTail]⟩
  field limit held item :=
    pushBounded_cases (fun _ item => item) limit held item
  paths := by
    intro desc marks path wellNamed leaf
    have lawful := PvData.depthFirst_lawful
    have rootBit : PvData.depthFirst.bitForPath desc [] = some 0 := by
      simpa using lawful.bitForPath_dotted desc [] (by simp)
    by_cases root : 0 ∈ marks
    · have below : desc.Covered 0 marks path :=
        ⟨[], 0, List.nil_prefix, by simp, by simpa using root⟩
      refine iff_of_true ⟨[], 0, List.nil_prefix, by simp, ?_⟩ below
      simp [inMemory, root, mem_bitsOf_iff, rootBit]
    · have collected (text : Str) :
          text ∈ inMemory.changedBitsetPaths desc marks ↔
            ∃ path, text = dotted path ∧ path ≠ [] ∧ desc.IsLeaf path ∧
              desc.Covered 0 marks path := by
        have expand := mem_collectMarked_expand_iff lawful wellNamed 0
          Named.nil marks false text
        simpa [inMemory, root] using expand
      have numbered {leafPath : List Str} (isLeaf : desc.IsLeaf leafPath) :
          PvData.depthFirst.bitForPath desc (dotted leafPath) =
            desc.tree.index? leafPath := by
        obtain ⟨sub, found, -⟩ := isLeaf
        apply lawful.bitForPath_dotted desc leafPath
        apply wellNamed.names
        exact (FieldDesc.isNode_iff _ _).mpr ⟨sub, found⟩
      constructor
      · intro covered
        obtain ⟨front, number, isPrefix, index, member⟩ := covered
        rw [Nat.zero_add, mem_bitsOf_iff] at member
        obtain ⟨text, inPaths, bit⟩ := member
        rw [List.mem_toFinset, collected] at inPaths
        obtain ⟨marked, rfl, -, markedLeaf, below⟩ := inPaths
        rw [numbered markedLeaf] at bit
        obtain rfl := LabelTree.index?_injective bit index
        obtain rfl := isLeaf_prefix markedLeaf leaf isPrefix
        exact below
      · intro covered
        obtain ⟨number, index⟩ : ∃ number,
            desc.tree.index? path = some number := by
          obtain ⟨sub, found, -⟩ := leaf
          exact (exists_index found).2
        refine ⟨path, number, List.prefix_rfl, index, ?_⟩
        rw [Nat.zero_add, mem_bitsOf_iff]
        refine ⟨dotted path, ?_, (numbered leaf).trans index⟩
        rw [List.mem_toFinset, collected]
        refine ⟨path, rfl, ?_, leaf, covered⟩
        intro empty
        subst empty
        rw [FieldDesc.covered_nil_iff] at covered
        exact root covered

end Library

section Example

def pair : FieldDesc :=
  .struct [] [("x".toList, .scalar .long), ("y".toList, .scalar .long)]

def pairAt (x y : Int64) : PvField :=
  .struct [] [("x".toList, .scalar (.long x)),
    ("y".toList, .scalar (.long y))]

/-- A PV opened at zero. -/
def openedPair : Monitored (Option (FieldDesc × PvField)) :=
  ⟨⟨some (pair, pairAt 0 0), [], {0}, some pair, []⟩, none, pairAt 0 0, [],
    fun _ => 0⟩

/-- Two posts fall into a ring of one. -/
def twoPosts : List Step :=
  [.subscribeSeeded true 1,
    .store ⟨pair, pairAt 1 9, {1}⟩, .offer, .release,
    .store ⟨pair, pairAt 7 2, {2}⟩, .offer, .release]

theorem every_post_reaches_subscriber_squashed :
    Snapshot.consume pair (pairAt 0 0)
      [(MonitorUpdate.mk (pairAt 1 2) ["x".toList, "y".toList] false
        []).snapshot .depthFirst pair] = pairAt 1 2 := by
  have wellNamed : pair.WellNamed := by
    simp [pair, FieldDesc.WellNamed, FieldDesc.tree, FieldDesc.memberTrees,
      LabelTree.Hereditary, LabelTree.ForestHereditary, Separated.IsKey]
  have opened : Monitored.Opened .inMemory pair openedPair :=
    ⟨rfl, rfl, rfl, rfl, by decide, rfl, rfl, rfl, rfl⟩
  have reachable : (Monitored.system .inMemory pair).Reachable _ :=
    .of_foldlM opened twoPosts rfl
  obtain ⟨root, current, -, consumed, -⟩ :=
    Monitored.every_post_reaches_subscriber Library.inMemory_storesDeltas
      Library.inMemory_foldsTails wellNamed reachable
      (show _ = some ⟨pairAt 0 0, .marked ⟨1, [⟨pairAt 1 2,
        ["x".toList, "y".toList], false, []⟩], []⟩, false⟩ from rfl)
      rfl (show 0 ∉ _ from List.not_mem_nil)
  obtain rfl : _ = root := Option.some.inj current
  exact consumed

end Example

end Repics.Pva.Server
