import Repics.Pva.Value.Python

/-!
# Building fields from Python objects

Assigning follows the object: a node is an object with what iterating it and
reading it as a dict give, and each of these parts comes with the way to
assign it to a field of any type.  The last section shows that the fields
built so are those of `assign` for the conversions defined here.
-/

namespace Repics.Pva

/-- An object and how it is assigned to a field. -/
structure Part where
  obj : PyObj
  assign : FieldDesc → PvField → Asking PvField

/-- An object with its items, unless it cannot be iterated, and its entries if
it is a dict or has a `todict`. -/
structure Node where
  obj : PyObj
  items : Option (List Part)
  entries : Option (List (PyObj × Part))

namespace PvField

def structItem : PvField → Option (Str × List (Str × PvField))
  | .struct structId fields => some (structId, fields)
  | _ => none

/-- An unselected union is a null element of an array of unions. -/
def unionItem : PvField → Option (Int × Str × PvField)
  | .union selector variantName value =>
      if selector = -1 then none else some (selector, variantName, value)
  | _ => none

def variantItem : PvField → Option (Option FieldDesc × PvField)
  | .variant desc value => some (desc, value)
  | _ => none

theorem structItem_iff {field : PvField} {structId : Str}
    {fields : List (Str × PvField)} :
    field.structItem = some (structId, fields) ↔
      field = .struct structId fields := by
  cases field <;> simp [structItem]

theorem unionItem_iff {field value : PvField} {selector : Int}
    {name : Str} :
    field.unionItem = some (selector, name, value) ↔
      selector ≠ -1 ∧ field = .union selector name value := by
  cases field with
  | union other _ _ =>
      simp only [unionItem, Option.ite_none_left_eq_some, Option.some.injEq,
        Prod.mk.injEq, union.injEq]
      constructor
      · rintro ⟨selected, rfl, same⟩
        exact ⟨selected, rfl, same⟩
      · rintro ⟨selected, rfl, same⟩
        exact ⟨selected, rfl, same⟩
  | _ => simp [unionItem]

theorem variantItem_iff {field value : PvField}
    {desc : Option FieldDesc} :
    field.variantItem = some (desc, value) ↔
      field = .variant desc value := by
  cases field <;> simp [variantItem]

end PvField

namespace Node

variable (python : Python)

/-- Iterating a `Value` gives its keys, and takes its lock for them. -/
def iterate (node : Node) : Asking (List Part) := do
  Locking.touch node.obj.locks
  match node.items with
  | some items => pure items
  | none => Locking.fail (.conversion ("'".toList ++
      python.typeName node.obj ++ "' object is not iterable".toList))

/-- The entries of a dict, in order, into the fields of a structure. -/
def assignEntries (fields : List (Str × FieldDesc)) :
    List (PyObj × Part) → List (Str × PvField) →
      Asking (List (Str × PvField))
  | [], subs => pure subs
  | (key, part) :: entries, subs => do
      let name ← Locking.lift key.extractText
      match FieldDesc.named? fields name, PvField.named? subs name with
      | some desc, some target => do
          let field ← part.assign desc target
          assignEntries fields entries (PvField.putNamed name field subs)
      | _, _ => Locking.fail (.noSuchField name)

def pyToArray (node : Node) (scalarType : ScalarType) :
    Asking (List ScalarValue) :=
  if scalarType = .string then
    match node.obj with
    | .str text | .numpy (.string text) => pure [.string text]
    | _ => do
        let items ← node.iterate python
        Locking.each (fun item => do
          Locking.touch item.obj.roots
          pure (.string (python.text item.obj))) items
  else do
    Locking.touch (python.asks scalarType node.obj)
    Locking.lift (python.asarray scalarType node.obj)

/-- Assigning to a scalar, an array of scalars or a structure.  These are the
types that an object implies and that a union picks for it. -/
def assignPlain (node : Node) : FieldDesc → PvField → Asking PvField
  | .scalar scalarType, _ => do
      let value ← python.pyToScalar node.obj scalarType
      pure (.scalar value)
  | .scalarArray scalarType, _ => do
      let items ← node.pyToArray python scalarType
      pure (.scalarArrayTyped scalarType items)
  | .struct _ fields, target =>
      match node.entries with
      | none => Locking.fail (.conversion
          ("a structure takes a dict or Value, not ".toList ++
            python.typeName node.obj))
      | some entries => do
          Locking.touch node.obj.locks
          match target with
          | .struct structId subs => do
              let subs ← assignEntries fields entries subs
              pure (.struct structId subs)
          | _ => Locking.fail .targetNotStructure
  | _, target => pure target

/-- A fresh field of a type that an object implies. -/
def buildPlain (node : Node) (desc : FieldDesc) : Asking PvField :=
  node.assignPlain python desc (python.defaultValueFor desc)

def buildUnion (node : Node) (variants : List (Str × FieldDesc)) :
    Asking PvField :=
  match node.obj, node.items with
  | .none, _ => pure (.union (-1) [] .null)
  | .tuple _, some [member, payload] => do
      let name ← Locking.lift member.obj.extractText
      match findVariant (fun label _ => decide (label = name)) variants with
      | none => Locking.fail (.unionHasNoMember name)
      | some (index, name, desc) => do
          let value ← payload.assign desc (python.defaultValueFor desc)
          pure (.union index name value)
  | .tuple _, _ => Locking.fail (.conversion
      "union assignment tuple must be (member, value)".toList)
  | _, _ => do
      let (index, name, desc) ← pickUnionVariant python variants node.obj
      let value ← node.buildPlain python desc
      pure (.union index name value)

def buildVariant (node : Node) : Asking PvField := do
  match ← inferDesc python node.obj with
  | none => pure (.variant none .null)
  | some desc => do
      let value ← node.buildPlain python desc
      pure (.variant (some desc) value)

/-- The elements of an array, where `None` is a null element. -/
def buildItems {Item : Type} (node : Node)
    (build : Part → Asking (Option Item)) : Asking (List (Option Item)) := do
  let items ← node.iterate python
  Locking.each (fun item =>
    if item.obj.isNone then pure none else build item) items

/-- Assign an object to a field. -/
def assign (node : Node) : FieldDesc → PvField → Asking PvField
  | .scalar scalarType, target =>
      node.assignPlain python (.scalar scalarType) target
  | .scalarArray scalarType, target =>
      node.assignPlain python (.scalarArray scalarType) target
  | .struct structId fields, target =>
      node.assignPlain python (.struct structId fields) target
  | .structArray structId fields, _ => do
      let items ← node.buildItems python fun item => do
        let field ← item.assign (.struct structId fields)
          (python.defaultValueFor (.struct structId fields))
        pure field.structItem
      pure (.structArray items)
  | .union _ variants, _ => node.buildUnion python variants
  | .unionArray structId variants, _ => do
      let items ← node.iterate python
      let items ← Locking.each (fun item => do
        let field ← item.assign (.union structId variants) .null
        pure field.unionItem) items
      pure (.unionArray items)
  | .variant, _ => node.buildVariant python
  | .variantArray, _ => do
      let items ← node.buildItems python fun item => do
        let field ← item.assign .variant .null
        pure field.variantItem
      pure (.variantArray items)

/-- An object without parts. -/
def leaf (obj : PyObj) : Node :=
  ⟨obj, none, none⟩

/-- An object that is made on the way, such as a character of a string; it is
never taken apart again. -/
def leafPart (obj : PyObj) : Part :=
  ⟨obj, (leaf obj).assign python⟩

def leaves (objs : List PyObj) : List Part :=
  objs.map (leafPart python)

def characters (text : Str) : List Part :=
  leaves python (text.map fun character => .str [character])

end Node

namespace PyObj

variable (python : Python)

mutual

def assign : PyObj → FieldDesc → PvField → Asking PvField
  | .str text =>
      Node.assign python ⟨.str text, some (Node.characters python text), .none⟩
  | .numpy (.string text) =>
      Node.assign python
        ⟨.numpy (.string text), some (Node.characters python text), .none⟩
  | .array scalarType items =>
      Node.assign python ⟨.array scalarType items,
        some (Node.leaves python (items.map .numpy)), .none⟩
  | .list items => Node.assign python ⟨.list items, some (parts items), .none⟩
  | .tuple items =>
      Node.assign python ⟨.tuple items, some (parts items), .none⟩
  | .dict entries => Node.assign python
      ⟨.dict entries, some (keyParts entries), some (entryParts entries)⟩
  | .value root structId members content => Node.assign python
      ⟨.value root structId members content,
        some (Node.leaves python (members.map fun member => .str member.1)),
        some (contentParts content)⟩
  | .other implied iterable locks items => Node.assign python
      ⟨.other implied iterable locks items,
        if iterable then some (parts items) else .none, .none⟩
  | obj => Node.assign python (Node.leaf obj)

def parts : List PyObj → List Part
  | [] => []
  | item :: rest => ⟨item, item.assign⟩ :: parts rest

def keyParts : List (PyObj × PyObj) → List Part
  | [] => []
  | (key, _) :: rest => ⟨key, key.assign⟩ :: keyParts rest

def entryParts : List (PyObj × PyObj) → List (PyObj × Part)
  | [] => []
  | (key, item) :: rest => (key, ⟨item, item.assign⟩) :: entryParts rest

def contentParts : List (Str × PyObj) → List (PyObj × Part)
  | [] => []
  | (name, item) :: rest =>
      (.str name, ⟨item, item.assign⟩) :: contentParts rest

end

def part (obj : PyObj) : Part :=
  ⟨obj, obj.assign python⟩

/-- An object with its parts. -/
def node : PyObj → Node
  | .str text => ⟨.str text, some (Node.characters python text), .none⟩
  | .numpy (.string text) =>
      ⟨.numpy (.string text), some (Node.characters python text), .none⟩
  | .array scalarType items => ⟨.array scalarType items,
      some (Node.leaves python (items.map .numpy)), .none⟩
  | .list items => ⟨.list items, some (items.map (part python)), .none⟩
  | .tuple items => ⟨.tuple items, some (items.map (part python)), .none⟩
  | .dict entries => ⟨.dict entries,
      some (entries.map fun entry => part python entry.1),
      some (entries.map fun entry => (entry.1, part python entry.2))⟩
  | .value root structId members content =>
      ⟨.value root structId members content,
        some (Node.leaves python (members.map fun member => .str member.1)),
        some (content.map fun entry => (.str entry.1, part python entry.2))⟩
  | .other implied iterable locks items =>
      ⟨.other implied iterable locks items,
        if iterable then some (items.map (part python)) else .none, .none⟩
  | obj => Node.leaf obj

theorem parts_eq (items : List PyObj) :
    parts python items = items.map (part python) := by
  induction items with
  | nil => rw [parts, List.map_nil]
  | cons item rest induction => rw [parts, induction, List.map_cons, part]

theorem keyParts_eq (entries : List (PyObj × PyObj)) :
    keyParts python entries =
      entries.map fun entry => part python entry.1 := by
  induction entries with
  | nil => rw [keyParts, List.map_nil]
  | cons entry rest induction =>
      rw [keyParts, induction, List.map_cons, part]

theorem entryParts_eq (entries : List (PyObj × PyObj)) :
    entryParts python entries =
      entries.map fun entry => (entry.1, part python entry.2) := by
  induction entries with
  | nil => rw [entryParts, List.map_nil]
  | cons entry rest induction =>
      rw [entryParts, induction, List.map_cons, part]

theorem contentParts_eq (content : List (Str × PyObj)) :
    contentParts python content =
      content.map fun entry => (.str entry.1, part python entry.2) := by
  induction content with
  | nil => rw [contentParts, List.map_nil]
  | cons entry rest induction =>
      rw [contentParts, induction, List.map_cons, part]

theorem assign_eq (obj : PyObj) :
    obj.assign python = (obj.node python).assign python := by
  cases obj with
  | list items => rw [PyObj.assign, node, parts_eq]
  | tuple items => rw [PyObj.assign, node, parts_eq]
  | dict entries =>
      rw [PyObj.assign, node, keyParts_eq, entryParts_eq]
  | value root structId members content =>
      rw [PyObj.assign, node, contentParts_eq]
  | other implied iterable locks items =>
      rw [PyObj.assign, node, parts_eq]
  | numpy scalar => cases scalar <;> rw [PyObj.assign, node] <;> simp
  | _ => rw [PyObj.assign, node] <;> simp

@[simp] theorem node_obj (obj : PyObj) : (obj.node python).obj = obj := by
  cases obj with
  | numpy scalar => cases scalar <;> rfl
  | _ => rfl

end PyObj

section Parts

variable {python : Python} {obj : PyObj} {property : Part → Prop}

/-- What holds of the objects an object is made of, and of the characters and
scalars that iterating gives, holds of its items. -/
theorem PyObj.items_of
    (children : ∀ child ∈ obj.children, property (child.part python))
    (text : ∀ text, property (Node.leafPart python (.str text)))
    (scalar : ∀ value, property (Node.leafPart python (.numpy value)))
    {items : List Part} (given : (obj.node python).items = some items) :
    ∀ item ∈ items, property item := by
  have characters (word : Str) :
      ∀ item ∈ Node.characters python word, property item := by
    intro item member
    obtain ⟨character, characterMember, rfl⟩ := List.mem_map.mp member
    obtain ⟨letter, -, rfl⟩ := List.mem_map.mp characterMember
    exact text [letter]
  cases obj with
  | str word =>
      cases given
      exact characters word
  | numpy value =>
      cases value with
      | string word =>
          cases given
          exact characters word
      | _ => cases given
  | array scalarType values =>
      cases given
      intro item member
      obtain ⟨leaf, leafMember, rfl⟩ := List.mem_map.mp member
      obtain ⟨value, -, rfl⟩ := List.mem_map.mp leafMember
      exact scalar value
  | list objs =>
      cases given
      intro item member
      obtain ⟨child, childMember, rfl⟩ := List.mem_map.mp member
      exact children child childMember
  | tuple objs =>
      cases given
      intro item member
      obtain ⟨child, childMember, rfl⟩ := List.mem_map.mp member
      exact children child childMember
  | dict entries =>
      cases given
      intro item member
      obtain ⟨entry, entryMember, rfl⟩ := List.mem_map.mp member
      exact children entry.1
        (List.mem_flatMap.mpr ⟨entry, entryMember, by simp⟩)
  | value root structId members content =>
      cases given
      intro item member
      obtain ⟨leaf, leafMember, rfl⟩ := List.mem_map.mp member
      obtain ⟨name, -, rfl⟩ := List.mem_map.mp leafMember
      exact text name.1
  | other implied iterable locks objs =>
      cases iterable with
      | false => cases given
      | true =>
          cases given
          intro item member
          obtain ⟨child, childMember, rfl⟩ := List.mem_map.mp member
          exact children child childMember
  | _ => cases given

theorem PyObj.entries_of
    (children : ∀ child ∈ obj.children, property (child.part python))
    {entries : List (PyObj × Part)}
    (given : (obj.node python).entries = some entries) :
    ∀ entry ∈ entries, property entry.2 := by
  cases obj with
  | dict objs =>
      cases given
      intro entry member
      obtain ⟨objEntry, objMember, rfl⟩ := List.mem_map.mp member
      exact children objEntry.2
        (List.mem_flatMap.mpr ⟨objEntry, objMember, by simp⟩)
  | value root structId members content =>
      cases given
      intro entry member
      obtain ⟨objEntry, objMember, rfl⟩ := List.mem_map.mp member
      exact children objEntry.2 (List.mem_map_of_mem objMember)
  | numpy scalar => cases scalar <;> cases given
  | _ => cases given

theorem Node.iterate_items {node : Node} {items : List Part}
    (ended : (node.iterate python).result = .ok items) :
    node.items = some items := by
  unfold iterate at ended
  rw [Locking.result_bind_ok (Locking.result_touch _)] at ended
  cases given : node.items with
  | none =>
      rw [given] at ended
      cases ended
  | some parts =>
      rw [given] at ended
      cases ended
      rfl

end Parts

/-- How an assignment ends. -/
def Outcome.result {τ : Type} (outcome : Outcome τ) : Except PyErr τ :=
  match outcome.error with
  | some error => .error error
  | none => .ok outcome.target

/-- The conversions that make `assign` build what Python objects stand for. -/
def Python.conversions (python : Python) : Conversions PyObj where
  entries
    | .dict entries =>
        .ok (entries.map fun entry => (entry.1.extractText, entry.2))
    | .value _ _ _ content =>
        .ok (content.map fun entry => (.ok entry.1, entry.2))
    | obj => .error (.conversion
        ("a structure takes a dict or Value, not ".toList ++
          python.typeName obj))
  convert desc obj := (obj.assign python desc .null).result
  defaultValueFor := python.defaultValueFor

section Conversions

variable {python : Python} {lib : PvData}

theorem Node.assignEntries_cons {fields : List (Str × FieldDesc)}
    {key : PyObj} {name : Str} {desc : FieldDesc}
    {subs : List (Str × PvField)} {target : PvField}
    (text : key.extractText = .ok name)
    (found : FieldDesc.named? fields name = some desc)
    (targetFound : PvField.named? subs name = some target) (part : Part)
    (entries : List (PyObj × Part)) :
    (assignEntries fields ((key, part) :: entries) subs).result =
      (part.assign desc target >>= fun field =>
        assignEntries fields entries
          (PvField.putNamed name field subs)).result := by
  rw [assignEntries, text, Locking.result_bind_ok (Locking.result_lift _)]
  simp only [found, targetFound]

theorem assignEntries_result (lawful : lib.Lawful)
    {fields : List (Str × FieldDesc)}
    (members : ∀ name child, (name, child) ∈ fields →
      ∀ bit target obj marks, (PyObj.assign python obj child target).result =
        (assign lib python.conversions child bit target obj marks).result)
    (bit : Nat) (entries : List (PyObj × PyObj))
    (subs : List (Str × PvField)) (marks : BitSet) :
    (Node.assignEntries fields (entries.map fun entry =>
        (entry.1, entry.2.part python)) subs).result =
      (assignEntries (assignMembers lib python.conversions fields bit)
        (entries.map fun entry => (entry.1.extractText, entry.2))
        subs marks).result := by
  induction entries generalizing subs marks with
  | nil => rfl
  | cons entry entries induction =>
      obtain ⟨key, obj⟩ := entry
      simp only [List.map_cons]
      cases extracted : key.extractText with
      | error error =>
          rw [Node.assignEntries, extracted,
            Locking.result_bind_error (Locking.result_lift _)]
          rfl
      | ok name =>
          cases found : FieldDesc.named? fields name with
          | none =>
              rw [Node.assignEntries, extracted,
                Locking.result_bind_ok (Locking.result_lift _)]
              simp only [assignEntries, found, find_assignMembers_none found]
              rfl
          | some child =>
              obtain ⟨before, offset, -⟩ := FieldDesc.named?_offset found []
              have member := members name child (FieldDesc.named?_mem found)
                (bit + before)
              simp only [assignEntries,
                find_assignMembers lawful found offset]
              cases targetFound : PvField.named? subs name with
              | none =>
                  rw [Node.assignEntries, extracted,
                    Locking.result_bind_ok (Locking.result_lift _)]
                  simp only [found, targetFound]
                  rfl
              | some target =>
                  have built := member target obj marks
                  unfold Outcome.result at built
                  rw [Node.assignEntries_cons extracted found targetFound]
                  cases ended : (assign lib python.conversions child
                      (bit + before) target obj marks).error with
                  | some error =>
                      rw [ended] at built
                      simp only [ended]
                      exact Locking.result_bind_error built _
                  | none =>
                      rw [ended] at built
                      simp only [ended]
                      exact (Locking.result_bind_ok built _).trans
                        (induction _ _)

theorem Node.result_iterate {node : Node} {items : List Part}
    (given : node.items = some items) :
    (node.iterate python).result = .ok items := by
  rw [iterate, given]
  rfl

/-- What is read as a dict goes into a structure entry by entry. -/
theorem Node.result_struct {node : Node}
    {entries : List (PyObj × Part)} (read : node.entries = some entries)
    (structId targetId : Str) (fields : List (Str × FieldDesc))
    (subs : List (Str × PvField)) :
    (node.assign python (.struct structId fields)
        (.struct targetId subs)).result =
      (assignEntries fields entries subs).result.map (.struct targetId) := by
  simp only [assign, assignPlain, read, Locking.result_bind,
    Locking.result_touch]
  cases (assignEntries fields entries subs).result with
  | error error => rfl
  | ok subs => rfl

theorem assignEntries_map_result {members : List (Str ×
      (PvField → PyObj → BitSet → Outcome PvField))}
    (entries : List (Except PyErr Str × PyObj))
    (subs : List (Str × PvField)) (marks : BitSet) (structId : Str) :
    (assignEntries members entries subs marks).result.map
        (PvField.struct structId) =
      Outcome.result
        ⟨.struct structId (assignEntries members entries subs marks).target,
          (assignEntries members entries subs marks).marks,
          (assignEntries members entries subs marks).error⟩ := by
  unfold Outcome.result
  cases (assignEntries members entries subs marks).error with
  | some error => rfl
  | none => rfl

/-- Building a field from a Python object gives what `assign` writes. -/
theorem PyObj.assign_result (lawful : lib.Lawful) (desc : FieldDesc)
    (bit : Nat) (target : PvField) (obj : PyObj) (marks : BitSet) :
    (obj.assign python desc target).result =
      (Pva.assign lib python.conversions desc bit target obj marks).result
    := by
  induction desc using FieldDesc.memberInduction
      generalizing bit target obj marks with
  | struct structId fields members =>
      have loop := assignEntries_result lawful members (bit + 1)
      rw [PyObj.assign_eq]
      cases obj with
      | dict entries =>
          cases target with
          | struct targetId subs =>
              rw [Node.result_struct rfl, loop entries subs marks,
                assignEntries_map_result]
              rfl
          | _ => rfl
      | value root valueId members content =>
          cases target with
          | struct targetId subs =>
              have same := loop (content.map fun entry =>
                (.str entry.1, entry.2)) subs marks
              simp only [List.map_map, Function.comp_def] at same
              rw [Node.result_struct rfl, same, assignEntries_map_result]
              rfl
          | _ => rfl
      | numpy scalar => cases scalar <;> rfl
      | _ => rfl
  | other desc notStructure =>
      cases desc with
      | struct _ _ => exact (notStructure trivial).elim
      | _ =>
          simp only [Pva.assign, Python.conversions]
          rw [PyObj.assign_eq]
          cases ended :
              (Node.assign python (obj.node python) _ .null).result with
          | error error => exact ended
          | ok field => exact ended

end Conversions

end Repics.Pva
