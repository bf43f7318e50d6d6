import Repics.Pva.Value.Build
import Repics.Pva.Value.Root
import Repics.Pva.Value.ToPy

/-!
# The lock of a root

Every operation of a `Value` takes the lock of its root, and an assignment
keeps it while it goes through the object that is assigned.  Whatever it asks
of a `Value` on the way takes the lock of that `Value`, which is the same lock
when both are views of one root.
-/

namespace Repics.Pva

/-- A `Value`: the number and the content of its root, and the path of the
view. -/
structure Handle where
  root : Nat
  state : Root
  view : Str

/-- The operations of a `Value`.  The objects among the arguments are those
that are not converted before the call. -/
inductive Operation where
  | getItem (key : Str)
  | getAttr (name : Str)
  | get (key : Str)
  | has (key : Str)
  | keys
  | items
  | iter
  | len
  | getID
  | type (field : Option Str)
  | changed (fields : List PyObj)
  | changedSet (expand parents : Bool)
  | mark (field : Option Str) (val : Bool)
  | select (field : Str) (selector : Option Str)
  | todict (fields : Option (List Str))
  | tolist
  | tostr
  | repr
  | snapshot
  | markedLeaves
  | setItem (key : Str) (obj : PyObj)
  | setAttr (name : Str) (obj : PyObj)

namespace Handle

variable (lib : PvData) (python : Python) (value : Handle)

/-- Run a function of the root under its lock. -/
def locked {α : Type} (read : Root → Except PyErr α) : Asking α :=
  Locking.withLock value.root (Locking.lift (read value.state))

def full (key : Str) : Str :=
  join value.view key

/-- The view itself as an object, of a root with the number `root`. -/
def viewObj (root : Option Nat) (desc : FieldDesc) (field : PvField) :
    Except PyErr PyObj :=
  match desc, field with
  | .struct structId members, .struct _ fields =>
      (dictOf (converters python fields) members).map
        (.value root structId members)
  | _, _ => .error (.conversion "not a structure".toList)

/-- The lock is released before a view is made. -/
def item (key : Str) : Asking PyObj :=
  value.locked fun root =>
    match descAt root.desc (value.full key),
      fieldAt root.field (value.full key) with
    | some (.struct structId members), some field =>
        viewObj python (some value.root) (.struct structId members) field
    | some desc, some field => toPy python false field desc
    | _, _ => .error (.noSuchField key)

def has (key : Str) : Asking Bool :=
  value.locked fun root => .ok (descAt root.desc (value.full key)).isSome

def keys : Asking (List Str) :=
  value.locked fun root =>
    match descAt root.desc value.view with
    | some (.struct _ fields) => .ok (fields.map Prod.fst)
    | _ => .error (.conversion "not a structure".toList)

/-- The keys and then each item, with the lock taken anew. -/
def items : Asking (List (Str × PyObj)) := do
  let keys ← value.keys
  Locking.each (fun key => do
    let obj ← value.item python key
    pure (key, obj)) keys

def len : Asking Nat :=
  value.locked fun root =>
    match descAt root.desc value.view with
    | some (.struct _ fields) => .ok fields.length
    | _ => .ok 0

def getID : Asking Str :=
  value.locked fun root =>
    match descAt root.desc value.view with
    | some (.struct structId _) => .ok structId
    | _ => .error (.conversion "not a structure".toList)

def type (field : Option Str) : Asking FieldDesc :=
  value.locked fun root =>
    match descAt root.desc (value.full (field.getD [])) with
    | some desc => .ok desc
    | none => .error (.noSuchField (field.getD []))

/-- The names are taken from the arguments under the lock; only a `str` is
one. -/
def changed (fields : List PyObj) : Asking Bool :=
  value.locked fun root =>
    match fields.mapM PyObj.extractText with
    | .ok names => root.changed lib value.view names
    | .error error => .error error

/-- The descriptor and the field of the view. -/
def viewed (root : Root) : Except PyErr (FieldDesc × PvField) :=
  match descAt root.desc value.view, fieldAt root.field value.view with
  | some desc, some field => .ok (desc, field)
  | _, _ => .error .viewVanished

def todict (fields : Option (List Str)) : Asking (List (Str × PyObj)) :=
  value.locked fun root =>
    match value.viewed root with
    | .ok (.struct _ members, .struct _ subs) =>
        dictOf (converters python subs) (members.filter fun member =>
          fields.all fun names => decide (member.1 ∈ names))
    | .ok _ => .error (.conversion "not a structure".toList)
    | .error error => .error error

/-- A sub-structure view is refused before the lock is taken. -/
def snapshot : Asking Root :=
  if value.view = [] then value.locked .ok else Locking.fail .viewNotRoot

def assignLocked (path : Str) (obj : PyObj) (missing : PyErr) :
    Asking Unit :=
  match descAt value.state.desc path, fieldAt value.state.field path with
  | some sub, some target => do
      let _ ← obj.assign python sub target
      pure ()
  | _, _ => Locking.fail missing

/-- `__setitem__` and `assign_root` hold the lock for the whole assignment. -/
def assignAt (path : Str) (obj : PyObj) (missing : PyErr) : Asking Unit :=
  Locking.withLock value.root (value.assignLocked python path obj missing)

def setItem (key : Str) (obj : PyObj) : Asking Unit :=
  value.assignAt python (value.full key) obj (.noSuchField key)

/-- Names with an underscore in front are refused. -/
def publicName {α : Type} (name : Str) (action : Asking α) : Asking α :=
  if name.head? = some '_' then
    Locking.fail (.conversion name)
  else action

/-- Forget what an operation returns. -/
def discard {α : Type} (action : Asking α) : Asking Unit := do
  let _ ← action
  pure ()

/-- One operation, with what it locks on the way. -/
def run : Operation → Asking Unit
  | .getItem key | .get key => discard (value.item python key)
  | .getAttr name => publicName name (discard (value.item python name))
  | .has key => discard (value.has key)
  | .keys | .iter => discard value.keys
  | .items => discard (value.items python)
  | .len => discard value.len
  | .getID => discard value.getID
  | .type field => discard (value.type field)
  | .changed fields => discard (value.changed lib fields)
  | .changedSet expand parents => discard (value.locked fun root =>
      root.changedSet lib value.view expand parents)
  | .mark field val => value.locked fun root =>
      (root.mark lib value.view field val).2.elim (.ok ()) .error
  | .select field selector => value.locked fun root =>
      (root.select lib python.conversions value.view field selector).2.elim
        (.ok ()) .error
  | .todict fields => discard (value.todict python fields)
  | .tolist | .tostr | .repr =>
      discard (value.locked fun root => value.viewed root)
  | .snapshot => discard value.snapshot
  | .markedLeaves => do
      let root ← value.snapshot
      discard (Locking.lift (root.markedLeaves lib value.view))
  | .setItem key obj => value.setItem python key obj
  | .setAttr name obj => publicName name (value.setItem python name obj)

end Handle

/-- `Value(type, initial)`: the new root has a number of its own. -/
def create (python : Python) (desc : FieldDesc) (initial : Option PyObj)
    (root : Nat) : Asking Unit :=
  match initial with
  | none => pure ()
  | some obj =>
      (Handle.mk root ⟨desc, python.defaultValueFor desc, ∅⟩ []).assignAt
        python [] obj .viewVanished

/-- The roots of a part may be locked, and what it does is allowed. -/
structure Part.Within (allowed : List Nat × Nat → Prop) (part : Part) :
    Prop where
  assign : ∀ desc target, (part.assign desc target).Within allowed
  roots : ∀ root ∈ part.obj.roots, allowed ([], root)

structure Node.Within (allowed : List Nat × Nat → Prop) (node : Node) :
    Prop where
  roots : ∀ root ∈ node.obj.roots, allowed ([], root)
  items : ∀ items, node.items = some items →
    ∀ item ∈ items, item.Within allowed
  entries : ∀ entries, node.entries = some entries →
    ∀ entry ∈ entries, entry.2.Within allowed

/-- numpy asks the objects that it is given and what they contain. -/
def Python.AsksWithin (python : Python) : Prop :=
  ∀ scalarType obj, python.asks scalarType obj ⊆ obj.roots

section Within

variable {python : Python} {allowed : List Nat × Nat → Prop}

theorem Python.pyToScalar_within {obj : PyObj}
    (roots : ∀ root ∈ obj.roots, allowed ([], root))
    (scalarType : ScalarType) :
    (python.pyToScalar obj scalarType).Within allowed := by
  have all : (Locking.touch obj.roots : Asking Unit).Within allowed :=
    Locking.within_touch roots
  have number : (Locking.touch obj.numberLocks : Asking Unit).Within
      allowed := by
    apply Locking.within_touch
    intro root member
    exact roots root (obj.numberLocks_subset_roots member)
  unfold pyToScalar
  split
  · exact Locking.within_lift _
  · exact Locking.within_lift _
  · exact Locking.within_pure _
  · split
    · exact all.bind fun _ _ => Locking.within_pure _
    · split
      · exact Locking.within_lift _
      · exact Locking.within_pure _
      · exact Locking.within_pure _
      · refine number.bind fun _ _ => ?_
        split
        · exact Locking.within_pure _
        · exact Locking.within_pure _
        · exact Locking.within_fail _

theorem inferDesc_within {obj : PyObj}
    (roots : ∀ root ∈ obj.roots, allowed ([], root)) :
    (inferDesc python obj).Within allowed := by
  cases obj with
  | value root structId members content =>
      have own : (Locking.touch root.toList : Asking Unit).Within allowed := by
        apply Locking.within_touch
        intro number member
        exact roots number (List.mem_append_left _ member)
      exact own.bind fun _ _ => Locking.within_pure _
  | other implied iterable locks items =>
      have own : (Locking.touch locks : Asking Unit).Within allowed := by
        apply Locking.within_touch
        intro number member
        exact roots number (List.mem_append_left _ member)
      cases implied with
      | none => exact own.bind fun _ _ => Locking.within_fail _
      | some implied =>
          cases implied with
          | scalar scalarType =>
              exact own.bind fun _ _ => Locking.within_pure _
          | array scalarType =>
              exact own.bind fun _ _ => Locking.within_pure _
  | tuple items => exact Locking.within_fail _
  | dict entries => exact Locking.within_fail _
  | _ => exact Locking.within_pure _

theorem pickUnionVariant_within {obj : PyObj}
    (roots : ∀ root ∈ obj.roots, allowed ([], root))
    (variants : List (Str × FieldDesc)) :
    (pickUnionVariant python variants obj).Within allowed := by
  refine (inferDesc_within roots).bind fun wanted _ => ?_
  split
  · exact Locking.within_pure _
  · split
    · exact Locking.within_pure _
    · exact Locking.within_fail _

namespace Node.Within

variable {node : Node}

theorem locks (within : node.Within allowed) :
    (Locking.touch node.obj.locks : Asking Unit).Within allowed := by
  apply Locking.within_touch
  intro root member
  exact within.roots root (node.obj.locks_subset_roots member)

theorem iterate (within : node.Within allowed) :
    (node.iterate python).Within allowed := by
  refine within.locks.bind fun _ _ => ?_
  split
  · exact Locking.within_pure _
  · exact Locking.within_fail _

theorem iterated (within : node.Within allowed) {items : List Part}
    (ended : (node.iterate python).result = .ok items) :
    ∀ item ∈ items, item.Within allowed :=
  within.items items (Node.iterate_items ended)

theorem pyToArray (asks : python.AsksWithin) (within : node.Within allowed)
    (scalarType : ScalarType) :
    (node.pyToArray python scalarType).Within allowed := by
  unfold Node.pyToArray
  split
  · split
    · exact Locking.within_pure _
    · exact Locking.within_pure _
    · refine within.iterate.bind fun items ended => ?_
      apply Locking.within_each
      intro item member
      have given := within.iterated ended item member
      exact (Locking.within_touch given.roots).bind fun _ _ =>
        Locking.within_pure _
  · refine Locking.Within.bind (Locking.within_touch ?_) fun _ _ =>
      Locking.within_lift _
    intro root member
    exact within.roots root (asks scalarType node.obj member)

theorem assignEntries (fields : List (Str × FieldDesc))
    {entries : List (PyObj × Part)}
    (within : ∀ entry ∈ entries, entry.2.Within allowed)
    (subs : List (Str × PvField)) :
    (Node.assignEntries fields entries subs).Within allowed := by
  induction entries generalizing subs with
  | nil => exact Locking.within_pure _
  | cons entry entries induction =>
      obtain ⟨key, part⟩ := entry
      rw [Node.assignEntries]
      refine (Locking.within_lift _).bind fun name _ => ?_
      split
      · refine Locking.Within.bind ?_ fun field _ => ?_
        · exact (within _ List.mem_cons_self).assign _ _
        · apply induction
          intro other member
          exact within other (List.mem_cons_of_mem _ member)
      · exact Locking.within_fail _

theorem assignPlain (asks : python.AsksWithin)
    (within : node.Within allowed) (desc : FieldDesc) (target : PvField) :
    (node.assignPlain python desc target).Within allowed := by
  cases desc with
  | scalar scalarType =>
      exact (Python.pyToScalar_within within.roots scalarType).bind
        fun _ _ => Locking.within_pure _
  | scalarArray scalarType =>
      exact (within.pyToArray asks scalarType).bind fun _ _ =>
        Locking.within_pure _
  | struct structId fields =>
      unfold Node.assignPlain
      cases given : node.entries with
      | none => exact Locking.within_fail _
      | some entries =>
          refine within.locks.bind fun _ _ => ?_
          split
          · exact (assignEntries fields (within.entries entries given) _).bind
              fun _ _ => Locking.within_pure _
          · exact Locking.within_fail _
  | _ => exact Locking.within_pure _

theorem buildUnion (asks : python.AsksWithin) (within : node.Within allowed)
    (variants : List (Str × FieldDesc)) :
    (node.buildUnion python variants).Within allowed := by
  unfold Node.buildUnion
  split
  · exact Locking.within_pure _
  · rename_i member payload isTuple given
    refine (Locking.within_lift _).bind fun name _ => ?_
    split
    · exact Locking.within_fail _
    · have part := within.items _ given payload (by simp)
      exact (part.assign _ _).bind fun _ _ => Locking.within_pure _
  · exact Locking.within_fail _
  · refine (pickUnionVariant_within within.roots variants).bind
      fun picked _ => ?_
    exact (within.assignPlain asks _ _).bind fun _ _ =>
      Locking.within_pure _

theorem buildVariant (asks : python.AsksWithin)
    (within : node.Within allowed) :
    (node.buildVariant python).Within allowed := by
  refine (inferDesc_within within.roots).bind fun inferred _ => ?_
  cases inferred with
  | none => exact Locking.within_pure _
  | some desc =>
      exact (within.assignPlain asks _ _).bind fun _ _ =>
        Locking.within_pure _

theorem buildItems {Item : Type} (within : node.Within allowed)
    {build : Part → Asking (Option Item)}
    (builds : ∀ item : Part, item.Within allowed →
      (build item).Within allowed) :
    (node.buildItems python build).Within allowed := by
  refine within.iterate.bind fun items ended => ?_
  apply Locking.within_each
  intro item member
  split
  · exact Locking.within_pure _
  · exact builds item (within.iterated ended item member)

theorem assign (asks : python.AsksWithin) (within : node.Within allowed)
    (desc : FieldDesc) (target : PvField) :
    (node.assign python desc target).Within allowed := by
  cases desc with
  | structArray structId fields =>
      refine (within.buildItems fun item given => ?_).bind fun _ _ =>
        Locking.within_pure _
      exact (given.assign _ _).bind fun _ _ => Locking.within_pure _
  | union structId variants => exact within.buildUnion asks variants
  | unionArray structId variants =>
      refine within.iterate.bind fun items ended => ?_
      refine Locking.Within.bind (Locking.within_each ?_) fun _ _ =>
        Locking.within_pure _
      intro item member
      exact ((within.iterated ended item member).assign _ _).bind fun _ _ =>
        Locking.within_pure _
  | variant => exact within.buildVariant asks
  | variantArray =>
      refine (within.buildItems fun item given => ?_).bind fun _ _ =>
        Locking.within_pure _
      exact (given.assign _ _).bind fun _ _ => Locking.within_pure _
  | scalar scalarType => exact within.assignPlain asks _ target
  | scalarArray scalarType => exact within.assignPlain asks _ target
  | struct structId fields => exact within.assignPlain asks _ target

end Node.Within

theorem Node.leafPart_within (asks : python.AsksWithin) {obj : PyObj}
    (alone : obj.roots = []) :
    (Node.leafPart python obj).Within allowed := by
  have none : ∀ root ∈ obj.roots, allowed ([], root) := by
    rw [alone]
    simp
  have leaf : (Node.leaf obj).Within allowed := by
    refine ⟨none, ?_, ?_⟩
    · intro items given
      cases given
    · intro entries given
      cases given
  exact ⟨fun desc target => leaf.assign asks desc target, none⟩

/-- An assignment locks what its object refers to, one root at a time. -/
theorem PyObj.assign_within (asks : python.AsksWithin) (obj : PyObj)
    (roots : ∀ root ∈ obj.roots, allowed ([], root)) (desc : FieldDesc)
    (target : PvField) :
    (obj.assign python desc target).Within allowed := by
  induction obj using PyObj.childInduction generalizing desc target with
  | step obj children =>
      have child : ∀ child ∈ obj.children,
          (child.part python).Within allowed := by
        intro child member
        have childRoots : ∀ root ∈ child.roots, allowed ([], root) :=
          fun root rootMember =>
            roots root (PyObj.child_roots member rootMember)
        exact ⟨children child member childRoots, childRoots⟩
      rw [PyObj.assign_eq]
      refine Node.Within.assign asks ⟨?_, ?_, ?_⟩ desc target
      · rw [PyObj.node_obj]
        exact roots
      · intro items given
        exact PyObj.items_of child
          (fun _ => Node.leafPart_within asks (by rw [PyObj.roots]))
          (fun _ => Node.leafPart_within asks (by rw [PyObj.roots])) given
      · intro entries given
        exact PyObj.entries_of child given

end Within

section Operations

variable {lib : PvData} {python : Python}

/-- Apart from its locks an assignment ends as that of the root does. -/
theorem Handle.assignAt_result (lawful : lib.Lawful) (value : Handle)
    (path : Str) (obj : PyObj) (missing : PyErr) :
    (value.assignAt python path obj missing).result =
      (value.state.assignAt lib python.conversions path obj
        missing).2.elim (.ok ()) .error := by
  rw [Handle.assignAt, Locking.result_withLock]
  unfold assignLocked Root.assignAt
  cases descAt value.state.desc path with
  | none => rfl
  | some sub =>
      cases fieldAt value.state.field path with
      | none => rfl
      | some target =>
          have built : (obj.assign python sub target).result = _ :=
            PyObj.assign_result lawful sub
              ((lib.bitForPath value.state.desc path).getD 0) target obj
              value.state.marks
          unfold Outcome.result at built
          split at built
          · rename_i error ended
            simp only [ended]
            exact Locking.result_bind_error built _
          · rename_i ended
            simp only [ended]
            exact Locking.result_bind_ok built _

theorem Handle.assignLocked_within {allowed : List Nat × Nat → Prop}
    (asks : python.AsksWithin) (value : Handle) (path : Str) {obj : PyObj}
    (missing : PyErr) (roots : ∀ root ∈ obj.roots, allowed ([], root)) :
    (value.assignLocked python path obj missing).Within allowed := by
  unfold assignLocked
  split
  · exact (obj.assign_within asks roots _ _).bind fun _ _ =>
      Locking.within_pure _
  · exact Locking.within_fail _

/-- Under the lock of a root, an assignment waits for itself when it asks a
value of that root. -/
theorem Handle.assignAt_selfWaits_iff (asks : python.AsksWithin)
    (value : Handle) (path : Str) (obj : PyObj) (missing : PyErr) :
    (value.assignAt python path obj missing).SelfWaits ↔
      (value.assignLocked python path obj missing).Attempts value.root := by
  apply Locking.selfWaits_withLock_iff
  have flat : (value.assignLocked python path obj missing).Within
      fun attempt => attempt.1 = [] :=
    value.assignLocked_within asks path missing fun _ _ => rfl
  exact flat

theorem Handle.assignAt_not_selfWaits (asks : python.AsksWithin)
    (value : Handle) (path : Str) {obj : PyObj} (missing : PyErr)
    (apart : ¬obj.Refers value.root) :
    ¬(value.assignAt python path obj missing).SelfWaits := by
  rw [value.assignAt_selfWaits_iff asks]
  rintro ⟨held, member⟩
  have inside : (value.assignLocked python path obj missing).Within
      fun attempt => obj.Refers attempt.2 :=
    value.assignLocked_within asks path missing fun _ member => member
  exact apart (inside _ member)

theorem Handle.locked_within (value : Handle) {α : Type}
    (read : Root → Except PyErr α) :
    (value.locked read).Within fun attempt => attempt.2 ∉ attempt.1 :=
  Locking.within_withLock_lift List.not_mem_nil _

theorem Handle.discard_within {α : Type} {action : Asking α}
    {allowed : List Nat × Nat → Prop} (within : action.Within allowed) :
    (discard action).Within allowed :=
  within.bind fun _ _ => Locking.within_pure _

theorem Handle.publicName_within {α : Type} {action : Asking α}
    {allowed : List Nat × Nat → Prop} (name : Str)
    (within : action.Within allowed) :
    (publicName name action).Within allowed := by
  unfold publicName
  split
  · exact Locking.within_fail _
  · exact within

theorem Handle.snapshot_within (value : Handle) :
    value.snapshot.Within fun attempt => attempt.2 ∉ attempt.1 := by
  unfold snapshot
  split
  · exact value.locked_within _
  · exact Locking.within_fail _

theorem Python.simple_asksWithin : Python.simple.AsksWithin :=
  fun _ _ => List.Subset.refl _

end Operations

end Repics.Pva
