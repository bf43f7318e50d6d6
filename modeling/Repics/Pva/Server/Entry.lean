import Repics.Pva.Value.Root

/-!
# A served PV

A `PvEntry` pairs a PV of the library, which stores the field, with what is
kept beside it: the marks, the opened type and the producer ends of the
subscribers' rings.  Every operation below holds the state lock from its first
to its last step.  The library is a parameter; a ring is known by what a post
does to the updates it holds.
-/

namespace Repics.Pva.Server

/-- A marked update: the whole value and the paths of what changed. -/
structure MonitorUpdate where
  value : PvField
  marked : List Str
  typeChanged : Bool
  overrun : List Str

/-- The update a post makes. -/
def MonitorUpdate.posted (value : PvField) (marked : List Str) :
    MonitorUpdate :=
  ⟨value, marked, false, []⟩

/-- What the server uses of the library: its PV, and what a post leaves in a
ring that holds the given items and was bounded by the given limit. -/
structure Library (Pv : Type) where
  «open» : Pv → FieldDesc → PvField → Except Str Pv
  close : Pv → Pv
  current : Pv → Option PvField
  introspection : Pv → Option FieldDesc
  postDelta : Pv → BitSet → PvField → Except Str Pv
  fillUnmarkedFromPrior : FieldDesc → BitSet → PvField → PvField → PvField
  changedBitsetPaths : FieldDesc → BitSet → List Str
  ringUpdate : Nat → List MonitorUpdate → MonitorUpdate → List MonitorUpdate
  ringField : Nat → List PvField → PvField → List PvField

/-- An opened PV has the value it was opened with, a closed one has none, and
a delta is copied into the stored value where it is marked. -/
structure Library.StoresDeltas {Pv : Type} (lib : Library Pv) : Prop where
  opened : ∀ {pv next desc field}, lib.open pv desc field = .ok next →
    lib.introspection next = some desc ∧ lib.current next = some field
  closed : ∀ pv, lib.current (lib.close pv) = none
  posted : ∀ {pv next desc old marks field},
    lib.introspection pv = some desc → lib.current pv = some old →
    PvField.Fits desc old → lib.postDelta pv marks field = .ok next →
      lib.introspection next = some desc ∧
        ∃ new, lib.current next = some new ∧
          PvField.Copies desc marks field old new

/-- A ring: the updates it holds and, for the record, those it has handed
out. -/
structure Ring (α : Type) where
  limit : Nat
  held : List α
  taken : List α

inductive Subscriber where
  | marked (ring : Ring MonitorUpdate)
  | plain (ring : Ring PvField)

/-- The client's end of a monitor. -/
structure Client where
  seed : PvField
  subscriber : Subscriber
  gone : Bool

/-- `subs` are positions in `clients`, which lists the subscribers in the
order of their registration. -/
structure PvEntry (Pv : Type) where
  pv : Pv
  subs : List Nat
  marks : BitSet
  opened : Option FieldDesc
  clients : List Client

inductive OpKind where
  | put
  | rpc
  deriving DecidableEq

structure ServerOperation where
  kind : OpKind
  desc : FieldDesc
  value : PvField
  marks : BitSet

namespace ServerOperation

/-- `value()`: the value of the PV with the client's fields applied and
marked. -/
def toRoot (op : ServerOperation) : Root :=
  ⟨op.desc, op.value, op.marks⟩

end ServerOperation

def allMarks (lib : PvData) (desc : FieldDesc) : BitSet :=
  Finset.range (lib.totalBits desc)

section Operations

variable {Pv : Type} (lib : Library Pv)

def Ring.post {α : Type} (ringPost : Nat → List α → α → List α)
    (ring : Ring α) (item : α) : Ring α :=
  { ring with held := ringPost ring.limit ring.held item }

/-- One post to the ring of a subscriber. -/
def Subscriber.post (subscriber : Subscriber) (value : PvField)
    (marked : List Str) : Subscriber :=
  match subscriber with
  | .marked ring => .marked (ring.post lib.ringUpdate
      (.posted value marked))
  | .plain ring => .plain (ring.post lib.ringField value)

/-- Take the oldest update out of the ring. -/
def Subscriber.read : Subscriber → Option Subscriber
  | .marked ring =>
      match ring.held with
      | [] => none
      | item :: held => some (.marked
          { ring with held := held, taken := ring.taken ++ [item] })
  | .plain ring =>
      match ring.held with
      | [] => none
      | item :: held => some (.plain
          { ring with held := held, taken := ring.taken ++ [item] })

namespace PvEntry

/-- Post to one subscriber; false when its ring is gone. -/
def offer (clients : List Client) (value : PvField) (marked : List Str)
    (sub : Nat) : List Client × Bool :=
  match clients[sub]? with
  | none => (clients, false)
  | some client =>
      if client.gone then (clients, false)
      else
        (clients.set sub { client with
          subscriber := client.subscriber.post lib value marked }, true)

/-- Offer to every subscriber in order and keep those that took the post. -/
def retain (value : PvField) (marked : List Str) :
    List Nat → List Client → List Nat × List Client
  | [], clients => ([], clients)
  | sub :: subs, clients =>
      let (offered, kept) := offer lib clients value marked sub
      let (rest, served) := retain value marked subs offered
      (if kept then sub :: rest else rest, served)

def «open» (entry : PvEntry Pv) (value : Root) : Except Str (PvEntry Pv) :=
  match lib.open entry.pv value.desc value.field with
  | .error error => .error error
  | .ok pv => .ok { entry with
      pv := pv
      marks := value.marks
      opened := some value.desc }

/-- The first half of `post`: check the value and store it.  Nothing is stored
for a value without marks. -/
def store (entry : PvEntry Pv) (value : Root) :
    Except Str (Option (PvEntry Pv)) :=
  match entry.opened with
  | none => .error "SharedPV not open".toList
  | some opened =>
      if value.desc ≠ opened then
        .error ("post() value type differs from the open() type; " ++
          "close() first").toList
      else if value.marks = ∅ then .ok none
      else
        match lib.postDelta entry.pv value.marks value.field with
        | .error error => .error error
        | .ok pv => .ok (some { entry with
            pv := pv
            marks := entry.marks ∪ value.marks })

/-- The second half of `post`: deliver the stored value. -/
def deliver (entry : PvEntry Pv) (desc : FieldDesc) (marks : BitSet) :
    PvEntry Pv :=
  if entry.subs = [] then entry
  else
    match lib.current entry.pv with
    | none => entry
    | some value =>
        let (subs, clients) := retain lib value
          (lib.changedBitsetPaths desc marks) entry.subs entry.clients
        { entry with subs := subs, clients := clients }

def post (entry : PvEntry Pv) (value : Root) : Except Str (PvEntry Pv) :=
  match entry.store lib value with
  | .error error => .error error
  | .ok none => .ok entry
  | .ok (some stored) => .ok (stored.deliver lib value.desc value.marks)

def close (entry : PvEntry Pv) : PvEntry Pv :=
  { entry with
    pv := lib.close entry.pv
    subs := []
    marks := ∅
    opened := none }

/-- Register a subscriber together with the value it starts from. -/
def register (entry : PvEntry Pv) (wrap : PvField → Subscriber) :
    Option (PvEntry Pv) :=
  match lib.current entry.pv with
  | none => none
  | some initial => some { entry with
      subs := entry.subs ++ [entry.clients.length]
      clients := entry.clients ++ [⟨initial, wrap initial, false⟩] }

/-- A plain stream has no separate seed: the current value is its first
element. -/
def subscribe (entry : PvEntry Pv) : Option (PvEntry Pv) :=
  entry.register lib fun initial =>
    .plain (Ring.post lib.ringField ⟨4, [], []⟩ initial)

def subscribeSeeded (entry : PvEntry Pv) (allowsRead : Bool)
    (queueSize : Nat) : Option (PvEntry Pv) :=
  if allowsRead then
    entry.register lib fun _ => .marked ⟨max queueSize 1, [], []⟩
  else none

/-- A client takes an update out of its ring. -/
def read (entry : PvEntry Pv) (sub : Nat) : Option (PvEntry Pv) :=
  match entry.clients[sub]? with
  | none => none
  | some client =>
      if client.gone then none
      else
        client.subscriber.read.map fun subscriber => { entry with
          clients := entry.clients.set sub
            { client with subscriber := subscriber } }

/-- A client drops its ring. -/
def depart (entry : PvEntry Pv) (sub : Nat) : Option (PvEntry Pv) :=
  (entry.clients[sub]?).map fun client => { entry with
    clients := entry.clients.set sub { client with gone := true } }

/-- `current()`: the stored field with the marks kept beside it. -/
def current (entry : PvEntry Pv) : Option Root :=
  entry.opened.bind fun desc =>
    (lib.current entry.pv).map fun field => ⟨desc, field, entry.marks⟩

/-- The operation of a PUT of a whole value. -/
def putValue (numbering : PvData) (entry : PvEntry Pv) (value : PvField) :
    Except Str ServerOperation :=
  match lib.introspection entry.pv with
  | none => .error "SharedPV not open".toList
  | some desc => .ok ⟨.put, desc, value, allMarks numbering desc⟩

/-- The operation of a PUT of the changed fields; the others are taken from
the current value. -/
def putDeltaChecked (entry : PvEntry Pv) (allowsWrite : Bool)
    (denied : Str) (desc : FieldDesc) (changed : BitSet) (delta : PvField) :
    Except Str ServerOperation :=
  if allowsWrite then
    match lib.current entry.pv with
    | none => .error "SharedPV not open".toList
    | some prior => .ok ⟨.put, desc,
        lib.fillUnmarkedFromPrior desc changed delta prior, changed⟩
  else .error denied

end PvEntry

end Operations

section Entry

variable {Pv : Type} {lib : Library Pv} {entry : PvEntry Pv}

namespace PvEntry

/-- The two parts of the state agree on what is stored. -/
def Holds (lib : Library Pv) (entry : PvEntry Pv) (root : Root) : Prop :=
  lib.introspection entry.pv = some root.desc ∧
    entry.current lib = some root

theorem holds_iff (root : Root) :
    entry.Holds lib root ↔
      lib.introspection entry.pv = some root.desc ∧
        entry.opened = some root.desc ∧
        lib.current entry.pv = some root.field ∧ entry.marks = root.marks := by
  obtain ⟨desc, field, marks⟩ := root
  simp only [Holds, current, Option.bind_eq_some_iff, Option.map_eq_some_iff,
    Root.mk.injEq]
  constructor
  · intro holds
    obtain ⟨introspection, _, opened, _, currentEq, rfl, rfl, rfl⟩ := holds
    exact ⟨introspection, opened, currentEq, rfl⟩
  · intro holds
    obtain ⟨introspection, opened, currentEq, rfl⟩ := holds
    exact ⟨introspection, desc, opened, field, currentEq, rfl, rfl, rfl⟩

/-- What an operation that leaves the stored value alone does not touch. -/
theorem Holds.frame {root : Root} (holds : entry.Holds lib root)
    {next : PvEntry Pv} (pv : next.pv = entry.pv)
    (opened : next.opened = entry.opened)
    (marks : next.marks = entry.marks) : next.Holds lib root := by
  rw [holds_iff] at holds ⊢
  rw [pv, opened, marks]
  exact holds

theorem deliver_stored (lib : Library Pv) (entry : PvEntry Pv)
    (desc : FieldDesc) (marks : BitSet) :
    (entry.deliver lib desc marks).pv = entry.pv ∧
      (entry.deliver lib desc marks).opened = entry.opened ∧
      (entry.deliver lib desc marks).marks = entry.marks := by
  simp only [deliver]
  split
  · exact ⟨rfl, rfl, rfl⟩
  · split
    · exact ⟨rfl, rfl, rfl⟩
    · exact ⟨rfl, rfl, rfl⟩

/-- What `store` can do: nothing without marks, or one delta of the opened
type. -/
theorem store_cases {value : Root} {result : Option (PvEntry Pv)}
    (stored : entry.store lib value = .ok result) :
    entry.opened = some value.desc ∧
      ((value.marks = ∅ ∧ result = none) ∨
        value.marks ≠ ∅ ∧ ∃ pv,
          lib.postDelta entry.pv value.marks value.field = .ok pv ∧
            result = some { entry with
              pv := pv
              marks := entry.marks ∪ value.marks }) := by
  simp only [store] at stored
  split at stored
  case h_1 => simp at stored
  case h_2 opened openedEq =>
    split at stored
    case isTrue => simp at stored
    case isFalse same =>
      obtain rfl : value.desc = opened := not_not.mp same
      refine ⟨openedEq, ?_⟩
      split at stored
      case isTrue bare =>
        simp only [Except.ok.injEq] at stored
        exact .inl ⟨bare, stored.symm⟩
      case isFalse marked =>
        cases posted : lib.postDelta entry.pv value.marks value.field with
        | error error => simp [posted] at stored
        | ok pv =>
            simp only [posted, Except.ok.injEq] at stored
            exact .inr ⟨marked, pv, rfl, stored.symm⟩

/-- An accepted post of a marked value is the delta and its delivery. -/
theorem post_cases {value : Root} {next : PvEntry Pv}
    (posted : entry.post lib value = .ok next) :
    entry.opened = some value.desc ∧
      ((value.marks = ∅ ∧ next = entry) ∨
        value.marks ≠ ∅ ∧ ∃ pv,
          lib.postDelta entry.pv value.marks value.field = .ok pv ∧
            next.pv = pv ∧ next.opened = entry.opened ∧
            next.marks = entry.marks ∪ value.marks) := by
  simp only [post] at posted
  cases stored : entry.store lib value with
  | error error => simp [stored] at posted
  | ok result =>
      obtain ⟨opened, outcome⟩ := store_cases stored
      refine ⟨opened, ?_⟩
      rcases outcome with ⟨bare, rfl⟩ | ⟨marked, pv, delta, rfl⟩
      · simp only [stored, Except.ok.injEq] at posted
        exact .inl ⟨bare, posted.symm⟩
      · simp only [stored, Except.ok.injEq] at posted
        subst posted
        exact .inr ⟨marked, pv, delta, deliver_stored lib _ _ _⟩

theorem Holds.post (lawful : lib.StoresDeltas) {root value : Root}
    (holds : entry.Holds lib root)
    (fits : PvField.Fits root.desc root.field) {next : PvEntry Pv}
    (posted : entry.post lib value = .ok next)
    (marked : value.marks ≠ ∅) :
    ∃ field, next.Holds lib ⟨root.desc, field, root.marks ∪ value.marks⟩ ∧
      PvField.Copies root.desc value.marks value.field root.field field := by
  rw [holds_iff] at holds
  obtain ⟨introspection, opened, currentEq, marksEq⟩ := holds
  obtain ⟨sameOpened, outcome⟩ := post_cases posted
  rcases outcome with ⟨bare, -⟩ | ⟨-, pv, delta, pvEq, openedEq, nextMarks⟩
  · exact (marked bare).elim
  · obtain ⟨nextIntrospection, field, nextCurrent, copies⟩ :=
      lawful.posted introspection currentEq fits delta
    refine ⟨field, ?_, copies⟩
    rw [holds_iff, pvEq, openedEq, nextMarks, marksEq]
    exact ⟨nextIntrospection, opened, nextCurrent, rfl⟩

theorem offer_cases (lib : Library Pv) {clients : List Client} {sub : Nat}
    {client : Client} (found : clients[sub]? = some client)
    (value : PvField) (marked : List Str) :
    ∃ changed, offer lib clients value marked sub =
        (clients.set sub changed, !client.gone) ∧
      changed.seed = client.seed ∧ changed.gone = client.gone ∧
      (client.gone = false → changed = { client with
        subscriber := client.subscriber.post lib value marked }) := by
  cases gone : client.gone with
  | true =>
      refine ⟨client, ?_, rfl, gone, by simp⟩
      obtain ⟨bound, same⟩ := List.getElem?_eq_some_iff.mp found
      subst same
      simp only [offer, found, gone, if_true, Bool.not_true,
        List.set_getElem_self]
  | false =>
      refine ⟨{ client with
        subscriber := client.subscriber.post lib value marked }, ?_, rfl,
        gone, fun _ => by rw [gone]⟩
      simp only [offer, found, gone, Bool.false_eq_true, if_false,
        Bool.not_false]

theorem register_stored {wrap : PvField → Subscriber} {next : PvEntry Pv}
    (registered : entry.register lib wrap = some next) :
    next.pv = entry.pv ∧ next.opened = entry.opened ∧
      next.marks = entry.marks := by
  simp only [register] at registered
  split at registered
  · simp at registered
  · simp only [Option.some.injEq] at registered
    subst registered
    exact ⟨rfl, rfl, rfl⟩

theorem read_stored {sub : Nat} {next : PvEntry Pv}
    (taken : entry.read sub = some next) :
    next.pv = entry.pv ∧ next.opened = entry.opened ∧
      next.marks = entry.marks := by
  simp only [read] at taken
  split at taken
  · simp at taken
  · split at taken
    · simp at taken
    · obtain ⟨_, -, rfl⟩ := Option.map_eq_some_iff.mp taken
      exact ⟨rfl, rfl, rfl⟩

theorem depart_stored {sub : Nat} {next : PvEntry Pv}
    (departed : entry.depart sub = some next) :
    next.pv = entry.pv ∧ next.opened = entry.opened ∧
      next.marks = entry.marks := by
  obtain ⟨_, -, rfl⟩ := Option.map_eq_some_iff.mp departed
  exact ⟨rfl, rfl, rfl⟩

end PvEntry

end Entry

/-- The newest value, the paths united, the overlap as overrun. -/
def MonitorUpdate.squashTail (tail item : MonitorUpdate) : MonitorUpdate :=
  { item with
    marked := tail.marked ++ item.marked
    overrun := tail.overrun ++ item.overrun ++
      tail.marked.filter fun path => decide (path ∈ item.marked) }

namespace Library

/-- Append to the ring or merge into its tail. -/
def pushBounded {α : Type} (merge : α → α → α) (limit : Nat)
    (held : List α) (item : α) : List α :=
  match held.getLast? with
  | none => [item]
  | some tail =>
      if held.length < limit then held ++ [item]
      else held.dropLast ++ [merge tail item]

def inMemory : Library (Option (FieldDesc × PvField)) where
  «open» pv desc field :=
    match pv with
    | none => .ok (some (desc, field))
    | some _ => .error []
  close _ := none
  current pv := pv.map Prod.snd
  introspection pv := pv.map Prod.fst
  postDelta pv marks field :=
    match pv with
    | none => .error []
    | some (desc, old) =>
        if PvField.Fits desc field then
          .ok (some (desc, field.copyMarked desc marks 0 old))
        else .error []
  fillUnmarkedFromPrior desc changed delta prior :=
    delta.copyMarked desc changed 0 prior
  changedBitsetPaths desc marks :=
    if 0 ∈ marks then [[]]
    else collectMarked .depthFirst desc 0 [] marks false true
  ringUpdate := pushBounded MonitorUpdate.squashTail
  ringField := pushBounded fun _ item => item

theorem inMemory_storesDeltas : inMemory.StoresDeltas where
  opened := by
    intro pv next desc field result
    cases pv with
    | none =>
        simp only [inMemory, Except.ok.injEq] at result
        subst result
        exact ⟨rfl, rfl⟩
    | some _ => simp [inMemory] at result
  closed _ := rfl
  posted := by
    intro pv next desc old marks field introspection current oldFits result
    cases pv with
    | none => simp [inMemory] at current
    | some stored =>
        simp only [inMemory, Option.map_some, Option.some.injEq]
          at introspection current
        obtain rfl : stored = (desc, old) :=
          Prod.ext introspection current
        simp only [inMemory] at result
        split at result
        · case isTrue fits =>
            simp only [Except.ok.injEq] at result
            subst result
            exact ⟨rfl, _, rfl, PvField.copyMarked_copies fits oldFits marks⟩
        · simp at result

end Library

end Repics.Pva.Server
