import Repics.Pva.Value.Leaves

/-!
# Values made from dicts

`Value(type, initial)` assigns the initial dict to the default of the type.  A
dict whose keys are distinct gives each of its members what is built from the
entry, and leaves the other members as they are.
-/

namespace Repics.Pva

/-- `Value(type, initial)` -/
def Root.create {Obj : Type} (lib : PvData) (conversions : Conversions Obj)
    (desc : FieldDesc) (obj : Obj) : Except PyErr Root :=
  match (Root.mk desc (conversions.defaultValueFor desc) ∅).assignRoot lib
      conversions [] obj with
  | (_, some error) => .error error
  | (root, none) => .ok root

/-- `V[key]` -/
def Root.get (python : Python) (root : Root) (key : Str) :
    Except PyErr PyObj :=
  ((Handle.mk 0 root []).item python key).result

/-- A dict with `str` keys. -/
def PyObj.strDict (entries : List (Str × PyObj)) : PyObj :=
  .dict (entries.map fun entry => (.str entry.1, entry.2))

/-- What iterating an object gives. -/
def PyObj.elements (python : Python) (obj : PyObj) :
    Except PyErr (List PyObj) :=
  ((obj.node python).iterate python).result.map fun parts =>
    parts.map Part.obj

theorem PvField.atPath?_single (field : PvField) (name : Str) :
    field.atPath? [name] = field.member? name := by
  rw [atPath?_cons]
  cases field.member? name with
  | none => rfl
  | some child => exact atPath?_nil child

theorem mapM_forall₂ {α β γ : Type} {action : β → Except PyErr γ}
    {result : α → γ} {origins : List α} {items : List β}
    (ends : List.Forall₂ (fun origin item =>
      action item = .ok (result origin)) origins items) :
    items.mapM action = .ok (origins.map result) := by
  induction ends with
  | nil => rfl
  | cons here _ induction =>
      rw [List.mapM_cons, here, induction]
      rfl

theorem mapM_ok {α β : Type} {action : α → Except PyErr β} {value : α → β}
    {items : List α}
    (ends : ∀ item ∈ items, action item = .ok (value item)) :
    items.mapM action = .ok (items.map value) :=
  mapM_forall₂ (List.forall₂_same.mpr ends)

theorem bind_ok {ε α β : Type} {first : Except ε α}
    {next : α → Except ε β} {result : β}
    (ended : (first >>= next) = .ok result) :
    ∃ value, first = .ok value ∧ next value = .ok result := by
  cases first with
  | error error => cases ended
  | ok value => exact ⟨value, rfl, ended⟩

theorem mapM_mem {α β : Type} {action : α → Except PyErr β} {items : List α}
    {values : List β} (ended : items.mapM action = .ok values) :
    ∀ value ∈ values, ∃ item ∈ items, action item = .ok value := by
  induction items generalizing values with
  | nil =>
      cases ended
      simp
  | cons item items induction =>
      rw [List.mapM_cons] at ended
      cases here : action item with
      | error error =>
          rw [here] at ended
          cases ended
      | ok value =>
          cases later : items.mapM action with
          | error error =>
              rw [here, later] at ended
              cases ended
          | ok others =>
              rw [here, later] at ended
              cases ended
              intro other member
              rcases List.mem_cons.mp member with rfl | inRest
              · exact ⟨item, List.mem_cons_self, here⟩
              · obtain ⟨origin, inItems, same⟩ := induction later other inRest
                exact ⟨origin, List.mem_cons_of_mem _ inItems, same⟩

section Create

variable {lib : PvData} {python : Python}

/-- The new root has the type and the field built from the object. -/
theorem Root.create_iff (lawful : lib.Lawful) (desc : FieldDesc)
    (obj : PyObj) (field : PvField) :
    (∃ root, Root.create lib python.conversions desc obj = .ok root ∧
        root.desc = desc ∧ root.field = field) ↔
      (obj.assign python desc (python.defaultValueFor desc)).result =
        .ok field := by
  rw [PyObj.assign_result lawful desc
    ((lib.bitForPath desc []).getD 0) _ obj ∅]
  have whole (other : PvField) : fieldAt other [] = some other := by
    rw [fieldAt, Separated.segments_nil, PvField.atPath?_nil]
  have whole' : descAt desc [] = some desc := by
    rw [descAt, Separated.segments_nil, FieldDesc.atPath?_nil]
  simp only [Root.create, Root.assignRoot, Root.assignAt, whole, whole',
    Python.conversions, Outcome.result, Separated.segments_nil,
    PvField.putAt]
  generalize Pva.assign lib _ desc _ _ obj ∅ = outcome
  obtain ⟨target, marks, error⟩ := outcome
  cases error with
  | some error => simp
  | none => simp

theorem Root.create_ok (lawful : lib.Lawful) {desc : FieldDesc}
    {obj : PyObj} {root : Root}
    (created : Root.create lib python.conversions desc obj = .ok root) :
    root.desc = desc ∧
      (obj.assign python desc (python.defaultValueFor desc)).result =
        .ok root.field := by
  have kept : ((Root.mk desc (python.defaultValueFor desc) ∅).assignRoot lib
      python.conversions [] obj).1.desc = desc := by
    simp only [Root.assignRoot, Root.assignAt]
    split <;> rfl
  have sameDesc : root.desc = desc := by
    simp only [Root.create] at created
    split at created
    · cases created
    · rename_i ended
      cases created
      have ended : (Root.mk desc (python.defaultValueFor desc) ∅).assignRoot
          lib python.conversions [] obj = (root, none) := ended
      rwa [ended] at kept
  exact ⟨sameDesc, (Root.create_iff lawful desc obj root.field).mp
    ⟨root, created, sameDesc, rfl⟩⟩

end Create

section Reading

variable {python : Python}

theorem Handle.item_leaf {value : Handle} {key : Str} {path : List Str}
    (full : value.full key = dotted path)
    (named : ∀ name ∈ path, MemberName name) {desc : FieldDesc}
    (found : value.state.desc.atPath? path = some desc)
    (leaf : ¬desc.IsStructure) {field : PvField}
    (fieldFound : value.state.field.atPath? path = some field) :
    (value.item python key).result = toPy python false field desc := by
  rw [Handle.item, Handle.locked, Locking.result_withLock,
    Locking.result_lift, full, descAt_dotted _ named, found,
    fieldAt_dotted _ named, fieldFound]
  cases desc with
  | struct _ _ => exact (leaf trivial).elim
  | _ => rfl

theorem Root.get_leaf {structId fieldId : Str}
    {members : List (Str × FieldDesc)} {subs : List (Str × PvField)}
    {name : Str} (named : MemberName name) {desc : FieldDesc}
    (found : FieldDesc.named? members name = some desc)
    (leaf : ¬desc.IsStructure) {field : PvField}
    (fieldFound : PvField.named? subs name = some field) (marks : BitSet) :
    Root.get python ⟨.struct structId members, .struct fieldId subs, marks⟩
      name = toPy python false field desc := by
  have path : ∀ label ∈ [name], MemberName label := by simpa using named
  have full : (Handle.mk 0 ⟨.struct structId members,
      .struct fieldId subs, marks⟩ []).full name = dotted [name] :=
    (Separated.render_singleton name).symm
  have desc : (FieldDesc.struct structId members).atPath? [name] =
      some desc := by
    rw [FieldDesc.atPath?_cons, FieldDesc.member?, found]
    exact FieldDesc.atPath?_nil desc
  exact Handle.item_leaf full path desc leaf
    ((PvField.atPath?_single _ _).trans fieldFound)

theorem toPy_typed (plain : Bool) (scalarType : ScalarType)
    (items : List ScalarValue) (desc : FieldDesc) :
    toPy python plain (.scalarArrayTyped scalarType items) desc =
      .ok (python.typedArrayToPy scalarType items) := by
  rw [toPy]

/-- How an element of an array is read: as a `str` or a numpy scalar. -/
def elementOf (python : Python) (scalarType : ScalarType)
    (value : ScalarValue) : PyObj :=
  if scalarType = .string then python.scalarToPy value else .numpy value

theorem PyObj.elements_of {obj : PyObj} {parts : List Part}
    (given : (obj.node python).items = some parts) :
    obj.elements python = .ok (parts.map Part.obj) := by
  rw [elements, Node.result_iterate given]
  rfl

theorem elements_typedArray (scalarType : ScalarType)
    (items : List ScalarValue) :
    (python.typedArrayToPy scalarType items).elements python =
      .ok (items.map (elementOf python scalarType)) := by
  by_cases string : scalarType = .string
  · have same : items.map (elementOf python scalarType) =
        items.map python.scalarToPy :=
      List.map_congr_left fun _ _ => if_pos string
    rw [Python.typedArrayToPy, if_pos string, PyObj.elements_of rfl, same]
    simp [PyObj.part, Function.comp_def]
  · have same : items.map (elementOf python scalarType) =
        items.map .numpy :=
      List.map_congr_left fun _ _ => if_neg string
    rw [Python.typedArrayToPy, if_neg string, PyObj.elements_of rfl, same]
    simp [Node.leaves, Node.leafPart, Function.comp_def]

end Reading

section Entries

variable {python : Python} {fields : List (Str × FieldDesc)}

/-- The member named by the entry takes the object of the entry. -/
def Takes (python : Python) (fields : List (Str × FieldDesc))
    (subs : List (Str × PvField)) (entry : Str × PyObj) (field : PvField) :
    Prop :=
  ∃ desc target, FieldDesc.named? fields entry.1 = some desc ∧
    PvField.named? subs entry.1 = some target ∧
    (entry.2.assign python desc target).result = .ok field

/-- The entries of a dict with `str` keys, as they are assigned. -/
abbrev strEntries (python : Python) (entries : List (Str × PyObj)) :
    List (PyObj × Part) :=
  entries.map fun entry => (.str entry.1, entry.2.part python)

theorem Takes.putNamed {subs : List (Str × PvField)}
    {entry : Str × PyObj} {field new : PvField} {name : Str}
    (apart : entry.1 ≠ name) :
    Takes python fields (PvField.putNamed name new subs) entry field ↔
      Takes python fields subs entry field := by
  simp only [Takes, PvField.named?_putNamed_ne apart]

theorem Takes.unique {subs : List (Str × PvField)} {entry : Str × PyObj}
    {first second : PvField} (takes : Takes python fields subs entry first)
    (other : Takes python fields subs entry second) : first = second := by
  obtain ⟨desc, target, found, targetFound, assigned⟩ := takes
  obtain ⟨_, _, otherFound, otherTarget, otherAssigned⟩ := other
  cases found.symm.trans otherFound
  cases targetFound.symm.trans otherTarget
  cases assigned.symm.trans otherAssigned
  rfl

/-- A dict with distinct keys that is assigned gives each member what is built
from the entry. -/
theorem Node.assignEntries_takes {entries : List (Str × PyObj)}
    (distinct : (entries.map Prod.fst).Nodup)
    {subs result : List (Str × PvField)}
    (ended : (assignEntries fields (strEntries python entries) subs).result =
      .ok result) :
    (∀ entry ∈ entries, ∃ field,
      Takes python fields subs entry field ∧
        PvField.named? result entry.1 = some field) ∧
    ∀ name, name ∉ entries.map Prod.fst →
      PvField.named? result name = PvField.named? subs name := by
  induction entries generalizing subs with
  | nil =>
      cases ended
      exact ⟨by simp, fun _ _ => rfl⟩
  | cons entry entries induction =>
      obtain ⟨key, obj⟩ := entry
      obtain ⟨fresh, distinct⟩ := List.nodup_cons.mp distinct
      simp only [strEntries, List.map_cons, assignEntries, PyObj.extractText]
        at ended
      rw [Locking.result_bind_ok (Locking.result_lift _)] at ended
      split at ended
      · rename_i desc target found targetFound
        obtain ⟨field, assigned, ended⟩ :=
          (Locking.result_bind_ok_iff _ _ _).mp ended
        obtain ⟨later, kept⟩ := induction distinct ended
        refine ⟨?_, ?_⟩
        · intro entry member
          rcases List.mem_cons.mp member with rfl | inRest
          · refine ⟨field, ⟨desc, target, found, targetFound, assigned⟩, ?_⟩
            rw [kept key fresh, PvField.named?_putNamed targetFound]
          · obtain ⟨new, takes, read⟩ := later entry inRest
            have apart : entry.1 ≠ key := fun same =>
              fresh (List.mem_map.mpr ⟨entry, inRest, same⟩)
            exact ⟨new, (Takes.putNamed apart).mp takes, read⟩
        · intro name absent
          simp only [List.map_cons, List.mem_cons, not_or] at absent
          rw [kept name absent.2, PvField.named?_putNamed_ne absent.1]
      · cases ended

/-- A dict with distinct keys is assigned if each member takes its entry. -/
theorem Node.assignEntries_ends {entries : List (Str × PyObj)}
    (distinct : (entries.map Prod.fst).Nodup)
    {subs : List (Str × PvField)}
    (takes : ∀ entry ∈ entries, ∃ field,
      Takes python fields subs entry field) :
    ∃ result, (assignEntries fields (strEntries python entries)
      subs).result = .ok result := by
  induction entries generalizing subs with
  | nil => exact ⟨subs, rfl⟩
  | cons entry entries induction =>
      obtain ⟨key, obj⟩ := entry
      obtain ⟨fresh, distinct⟩ := List.nodup_cons.mp distinct
      obtain ⟨field, desc, target, found, targetFound, assigned⟩ :=
        takes (key, obj) List.mem_cons_self
      have rest : ∀ entry ∈ entries, ∃ new,
          Takes python fields (PvField.putNamed key field subs) entry new
          := by
        intro entry member
        obtain ⟨new, takesEntry⟩ := takes entry (List.mem_cons_of_mem _ member)
        have apart : entry.1 ≠ key := fun same =>
          fresh (List.mem_map.mpr ⟨entry, member, same⟩)
        exact ⟨new, (Takes.putNamed apart).mpr takesEntry⟩
      obtain ⟨result, ended⟩ := induction distinct rest
      refine ⟨result, ?_⟩
      rw [strEntries, List.map_cons,
        assignEntries_cons rfl found targetFound]
      exact (Locking.result_bind_ok assigned _).trans ended

theorem PyObj.assign_dict_iff (structId targetId : Str)
    (subs : List (Str × PvField)) (entries : List (Str × PyObj))
    (field : PvField) :
    ((PyObj.strDict entries).assign python (.struct structId fields)
        (.struct targetId subs)).result = .ok field ↔
    ∃ result, (Node.assignEntries fields (strEntries python entries)
        subs).result = .ok result ∧ field = .struct targetId result := by
  have read : ((PyObj.strDict entries).node python).entries =
      some (strEntries python entries) := by
    simp only [strDict, PyObj.node, List.map_map]
    rfl
  rw [PyObj.assign_eq, Node.result_struct read structId targetId fields subs]
  cases (Node.assignEntries fields (strEntries python entries) subs).result with
  | error error => simp [Except.map]
  | ok result => simp [Except.map, eq_comm]

/-- A dict with distinct keys whose entries the members take is assigned, and
each member has what is built from its entry. -/
theorem Node.assignEntries_gives {entries : List (Str × PyObj)}
    (distinct : (entries.map Prod.fst).Nodup)
    {subs : List (Str × PvField)}
    (takes : ∀ entry ∈ entries, ∃ field,
      Takes python fields subs entry field) :
    ∃ result, (assignEntries fields (strEntries python entries)
        subs).result = .ok result ∧
      (∀ entry ∈ entries, ∀ field, Takes python fields subs entry field →
        PvField.named? result entry.1 = some field) ∧
      ∀ name, name ∉ entries.map Prod.fst →
        PvField.named? result name = PvField.named? subs name := by
  obtain ⟨result, ended⟩ := assignEntries_ends distinct takes
  obtain ⟨each, kept⟩ := assignEntries_takes distinct ended
  refine ⟨result, ended, ?_, kept⟩
  intro entry member field takes
  obtain ⟨other, otherTakes, read⟩ := each entry member
  rw [takes.unique otherTakes, read]

end Entries

theorem named?_zeroMembers (fields : List (Str × FieldDesc)) (name : Str) :
    PvField.named? (zeroMembers fields) name =
      (FieldDesc.named? fields name).map zeroField := by
  induction fields with
  | nil => rw [zeroMembers]; rfl
  | cons entry rest induction =>
      obtain ⟨label, desc⟩ := entry
      rw [zeroMembers, PvField.named?_cons, FieldDesc.named?_cons, induction]
      split <;> rfl

section Built

variable {python : Python}

theorem PyObj.assign_scalar (obj : PyObj) (scalarType : ScalarType)
    (target : PvField) :
    (obj.assign python (.scalar scalarType) target).result =
      (python.pyToScalar obj scalarType).result.map .scalar := by
  rw [PyObj.assign_eq, Node.assign, Node.assignPlain, PyObj.node_obj,
    Locking.result_bind]
  rfl

theorem PyObj.assign_str (lawful : python.Lawful) (text : Str)
    (target : PvField) :
    ((PyObj.str text).assign python (.scalar .string) target).result =
      .ok (.scalar (.string text)) := by
  have parsed : (python.pyToScalar (.str text) .string).result =
      .ok (.string text) := lawful.parse_string text
  rw [assign_scalar, parsed]
  rfl

theorem PyObj.assign_int {value : Int} (low : -2 ^ 127 ≤ value)
    (high : value < 2 ^ 127) {scalarType : ScalarType}
    (number : scalarType ≠ .string) (target : PvField) :
    ((PyObj.int value).assign python (.scalar scalarType) target).result =
      .ok (.scalar (python.intToScalar value scalarType)) := by
  rw [assign_scalar, Python.pyToScalar_int low high number]
  rfl

/-- A list of dicts is assigned to an array of structures one after the
other. -/
theorem PyObj.assign_structs {structId : Str}
    {fields : List (Str × FieldDesc)} {objs : List PyObj}
    {items : List (List (Str × PvField))}
    (each : List.Forall₂ (fun obj subs => obj.isNone = false ∧
      (obj.assign python (.struct structId fields)
        (python.defaultValueFor (.struct structId fields))).result =
          .ok (.struct structId subs)) objs items) (target : PvField) :
    ((PyObj.list objs).assign python (.structArray structId fields)
        target).result =
      .ok (.structArray (items.map fun subs => some (structId, subs))) := by
  have iterated : (((PyObj.list objs).node python).iterate python).result =
      .ok (objs.map (PyObj.part python)) := Node.result_iterate rfl
  have built : (((PyObj.list objs).node python).buildItems python
      fun item => do
        let field ← item.assign (.struct structId fields)
          (python.defaultValueFor (.struct structId fields))
        pure field.structItem).result =
      .ok (items.map fun subs => some (structId, subs)) := by
    rw [Node.buildItems, Locking.result_bind_ok iterated,
      Locking.result_each_ok_iff, List.forall₂_map_left_iff,
      List.forall₂_map_right_iff]
    refine each.imp ?_
    rintro obj subs ⟨some, assigned⟩
    simp only [PyObj.part, some]
    exact Locking.result_bind_ok assigned _
  rw [PyObj.assign_eq, Node.assign, Locking.result_bind_ok built]
  rfl

theorem result_map {action : Asking PvField} (wrap : PvField → PvField) :
    (action >>= fun field => pure (wrap field)).result =
      action.result.map wrap := by
  rw [Locking.result_bind]
  cases action.result with
  | error error => rfl
  | ok field => rfl

theorem PyObj.assign_variant {obj : PyObj} {desc : FieldDesc}
    (inferred : (inferDesc python obj).result = .ok (some desc))
    (target : PvField) :
    (obj.assign python .variant target).result =
      (obj.assign python desc (python.defaultValueFor desc)).result.map
        (.variant (some desc)) := by
  have variant : obj.assign python .variant target =
      (obj.node python).buildVariant python := by
    rw [PyObj.assign_eq]
    rfl
  rw [variant, ← PyObj.buildPlain_eq (inferDesc_plain inferred)]
  unfold Node.buildVariant
  rw [PyObj.node_obj, Locking.result_bind_ok inferred]
  exact result_map _

theorem assign_selected {name : Str} {variants : List (Str × FieldDesc)}
    {index : Nat} {desc : FieldDesc}
    (found : findVariant (fun label _ => decide (label = name)) variants =
      some (index, name, desc)) (structId : Str) (obj : PyObj)
    (target : PvField) :
    ((PyObj.tuple [.str name, obj]).assign python
        (.union structId variants) target).result =
      (obj.assign python desc (python.defaultValueFor desc)).result.map
        (.union index name) := by
  have text : (PyObj.str name).extractText = .ok name := rfl
  rw [PyObj.assign_eq]
  simp only [PyObj.node, Node.assign, Node.buildUnion, List.map_cons,
    List.map_nil, PyObj.part, text]
  rw [Locking.result_bind_ok (Locking.result_lift _)]
  simp only [found]
  exact result_map _

end Built

theorem takes_zero_iff {python : Python} {fields : List (Str × FieldDesc)}
    {name : Str} {obj : PyObj} {field : PvField} :
    Takes python fields (zeroMembers fields) (name, obj) field ↔
      ∃ desc, FieldDesc.named? fields name = some desc ∧
        (obj.assign python desc (zeroField desc)).result = .ok field := by
  simp only [Takes, named?_zeroMembers, Option.map_eq_some_iff]
  constructor
  · rintro ⟨desc, target, found, ⟨other, otherFound, rfl⟩, assigned⟩
    cases found.symm.trans otherFound
    exact ⟨desc, found, assigned⟩
  · rintro ⟨desc, found, assigned⟩
    exact ⟨desc, _, found, ⟨desc, found, rfl⟩, assigned⟩

/-- A structure made of a dict with distinct keys has for each entry the field
built from it. -/
theorem strDict_gives {python : Python} {structId : Str}
    {fields : List (Str × FieldDesc)} {entries : List (Str × PyObj)}
    (distinct : (entries.map Prod.fst).Nodup)
    (takes : ∀ entry ∈ entries, ∃ field,
      Takes python fields (zeroMembers fields) entry field) :
    ∃ subs, ((PyObj.strDict entries).assign python
        (.struct structId fields)
          (zeroField (.struct structId fields))).result =
        .ok (.struct structId subs) ∧
      ∀ entry ∈ entries, ∀ field,
        Takes python fields (zeroMembers fields) entry field →
          PvField.named? subs entry.1 = some field := by
  obtain ⟨subs, ended, given, -⟩ := Node.assignEntries_gives distinct takes
  rw [zeroField]
  exact ⟨subs, (PyObj.assign_dict_iff _ _ _ _ _).mpr ⟨subs, ended, rfl⟩,
    given⟩

section Copies

variable {python : Python}

/-- What holds of the fields of a structure and of all that its members take
holds of the fields after the dict is assigned. -/
theorem Node.assignEntries_zip {Holds : FieldDesc → PvField → Prop}
    {fields : List (Str × FieldDesc)} {entries : List (Str × PyObj)}
    (distinct : (entries.map Prod.fst).Nodup)
    {subs result : List (Str × PvField)}
    (names : subs.map Prod.fst = fields.map Prod.fst)
    (holds : ∀ member field, (member, field) ∈ fields.zip subs →
      Holds member.2 field.2)
    (taken : ∀ entry ∈ entries, ∀ desc field,
      FieldDesc.named? fields entry.1 = some desc →
        Takes python fields subs entry field → Holds desc field)
    (ended : (assignEntries fields (strEntries python entries) subs).result =
      .ok result) :
    result.map Prod.fst = fields.map Prod.fst ∧
      ∀ member field, (member, field) ∈ fields.zip result →
        Holds member.2 field.2 := by
  induction entries generalizing subs with
  | nil =>
      cases ended
      exact ⟨names, holds⟩
  | cons entry entries induction =>
      obtain ⟨key, obj⟩ := entry
      obtain ⟨fresh, distinct⟩ := List.nodup_cons.mp distinct
      simp only [strEntries, List.map_cons, assignEntries, PyObj.extractText]
        at ended
      rw [Locking.result_bind_ok (Locking.result_lift _)] at ended
      split at ended
      · rename_i desc target found targetFound
        obtain ⟨field, assigned, ended⟩ :=
          (Locking.result_bind_ok_iff _ _ _).mp ended
        have here := taken (key, obj) List.mem_cons_self desc field found
          ⟨desc, target, found, targetFound, assigned⟩
        obtain ⟨putNames, putHolds⟩ := zip_putNamed names holds found here
        refine induction distinct putNames putHolds ?_ ended
        intro other member desc new otherFound takes
        have apart : other.1 ≠ key := fun same =>
          fresh (List.mem_map.mpr ⟨other, member, same⟩)
        exact taken other (List.mem_cons_of_mem _ member) desc new otherFound
          ((Takes.putNamed apart).mp takes)
      · cases ended

/-- The member and the field of a name stand beside each other. -/
theorem named?_zip {members : List (Str × FieldDesc)}
    {fields : List (Str × PvField)}
    (names : fields.map Prod.fst = members.map Prod.fst) {name : Str}
    {desc : FieldDesc} (found : FieldDesc.named? members name = some desc)
    {field : PvField} (read : PvField.named? fields name = some field) :
    ((name, desc), (name, field)) ∈ members.zip fields := by
  induction members generalizing fields with
  | nil => cases found
  | cons member members induction =>
      obtain ⟨label, other⟩ := member
      cases fields with
      | nil => cases read
      | cons entry fields =>
          obtain ⟨fieldLabel, otherField⟩ := entry
          obtain ⟨rfl, rest⟩ := List.cons.inj names
          rw [FieldDesc.named?_cons] at found
          rw [PvField.named?_cons] at read
          by_cases same : fieldLabel = name
          · rw [if_pos same] at found read
            cases found
            cases read
            subst same
            exact List.mem_cons_self
          · rw [if_neg same] at found read
            exact List.mem_cons_of_mem _ (induction rest found read)

/-- The field is one of the type, and its Python form gives it back. -/
structure IsCopy (python : Python) (desc : FieldDesc) (field : PvField) :
    Prop where
  typed : HasType desc field
  copyable : Copyable python desc field

namespace IsCopy

theorem back (lawful : python.Lawful) {desc : FieldDesc} {field : PvField}
    (copy : IsCopy python desc field) {obj : PyObj}
    (shown : toPy python true field desc = .ok obj) {target : PvField}
    (fits : PvField.Fits desc target) :
    (obj.assign python desc target).result = .ok field := by
  obtain ⟨other, form⟩ := copy.typed.renders lawful true
  cases form.rendered.symm.trans shown
  exact (form.back (.inl rfl) target fits).mpr copy.copyable

theorem scalar {value : ScalarValue} (kept : python.Keeps value) :
    IsCopy python (.scalar value.scalarType) (.scalar value) :=
  ⟨.scalar value, .scalar _ value kept⟩

theorem struct (structId : Str) {members : List (Str × FieldDesc)}
    {fields : List (Str × PvField)}
    (distinct : (members.map Prod.fst).Nodup)
    (names : fields.map Prod.fst = members.map Prod.fst)
    (copies : ∀ member field, (member, field) ∈ members.zip fields →
      IsCopy python member.2 field.2) :
    IsCopy python (.struct structId members) (.struct structId fields) where
  typed := .struct _ _ _ distinct names fun member field inZip =>
    (copies member field inZip).typed
  copyable := .struct _ _ _ fun member field inZip =>
    (copies member field inZip).copyable

theorem members {structId : Str} {members : List (Str × FieldDesc)}
    {field : PvField} (copy : IsCopy python (.struct structId members) field) :
    ∃ fields, field = .struct structId fields ∧
      (members.map Prod.fst).Nodup ∧
      fields.map Prod.fst = members.map Prod.fst ∧
      ∀ member field, (member, field) ∈ members.zip fields →
        IsCopy python member.2 field.2 := by
  obtain ⟨typed, copyable⟩ := copy
  cases typed with
  | struct _ _ fields distinct names typed =>
      cases copyable with
      | struct _ _ _ copyable =>
          exact ⟨fields, rfl, distinct, names, fun member field inZip =>
            ⟨typed member field inZip, copyable member field inZip⟩⟩

theorem atPath? {desc sub : FieldDesc} {field subField : PvField}
    (copy : IsCopy python desc field) {path : List Str} (found : desc.atPath? path = some sub)
    (read : field.atPath? path = some subField) :
    IsCopy python sub subField := by
  induction path generalizing desc field with
  | nil =>
      rw [FieldDesc.atPath?_nil] at found
      rw [PvField.atPath?_nil] at read
      cases found
      cases read
      exact copy
  | cons name path induction =>
      rw [FieldDesc.atPath?_cons] at found
      rw [PvField.atPath?_cons] at read
      obtain ⟨child, childFound, rest⟩ := Option.bind_eq_some_iff.mp found
      obtain ⟨member, memberRead, restRead⟩ := Option.bind_eq_some_iff.mp read
      cases desc with
      | struct structId members =>
          obtain ⟨fields, rfl, -, names, copies⟩ := copy.members
          exact induction
            (copies _ _ (named?_zip names childFound memberRead)) rest
              restRead
      | _ => cases childFound

theorem structArray (structId : Str) {members : List (Str × FieldDesc)}
    {items : List (List (Str × PvField))}
    (copies : ∀ subs ∈ items, IsCopy python (.struct structId members)
      (.struct structId subs)) :
    IsCopy python (.structArray structId members)
      (.structArray (items.map fun subs => some (structId, subs))) where
  typed := by
    refine .structArray _ _ _ ?_
    intro itemId fields member
    obtain ⟨subs, inItems, same⟩ := List.mem_map.mp member
    cases same
    exact (copies fields inItems).typed
  copyable := by
    refine .structArray _ _ _ ?_
    intro itemId fields member
    obtain ⟨subs, inItems, same⟩ := List.mem_map.mp member
    cases same
    exact (copies fields inItems).copyable

theorem zip_zeroMembers {members : List (Str × FieldDesc)}
    (copies : ∀ member ∈ members,
      IsCopy python member.2 (zeroField member.2)) :
    (zeroMembers members).map Prod.fst = members.map Prod.fst ∧
      ∀ member field, (member, field) ∈ members.zip (zeroMembers members) →
        IsCopy python member.2 field.2 := by
  rw [zeroMembers_eq]
  refine ⟨by simp, ?_⟩
  intro member field inZip
  rw [← List.map_prod_left_eq_zip] at inZip
  obtain ⟨other, inMembers, same⟩ := List.mem_map.mp inZip
  cases same
  exact copies member inMembers

theorem zeroStruct (structId : Str) {members : List (Str × FieldDesc)}
    (distinct : (members.map Prod.fst).Nodup)
    (copies : ∀ member ∈ members,
      IsCopy python member.2 (zeroField member.2)) :
    IsCopy python (.struct structId members)
      (zeroField (.struct structId members)) := by
  obtain ⟨names, zip⟩ := zip_zeroMembers copies
  rw [zeroField]
  exact struct structId distinct names zip

theorem zero (empty : python.asStrLossy [] = []) {desc : FieldDesc}
    (leaf : ¬desc.IsStructure) (noFloat : desc ≠ .scalar .float) :
    IsCopy python desc (zeroField desc) := by
  cases desc with
  | struct _ _ => exact (leaf trivial).elim
  | scalar scalarType =>
      cases scalarType with
      | float => exact (noFloat rfl).elim
      | string => exact @scalar python (.string []) empty
      | boolean => exact @scalar python (.boolean false) trivial
      | byte => exact @scalar python (.byte 0) trivial
      | ubyte => exact @scalar python (.ubyte 0) trivial
      | short => exact @scalar python (.short 0) trivial
      | ushort => exact @scalar python (.ushort 0) trivial
      | int => exact @scalar python (.int 0) trivial
      | uint => exact @scalar python (.uint 0) trivial
      | long => exact @scalar python (.long 0) trivial
      | ulong => exact @scalar python (.ulong 0) trivial
      | double => exact @scalar python (.double 0) trivial
  | scalarArray scalarType =>
      refine ⟨.scalarArrayTyped _ _ (by simp), ?_⟩
      by_cases string : scalarType = .string
      · subst string
        exact .strings _ (by simp)
      · exact .numbers _ _ string
  | structArray structId fields => exact @structArray python structId _ [] nofun
  | union structId variants => exact ⟨.unselected _ _, .unselected _ _⟩
  | unionArray structId variants =>
      exact ⟨.unionArray _ _ _ (by simp) (by simp),
        .unionArray _ _ _ (by simp) (by simp)⟩
  | variant => exact ⟨.empty, .empty⟩
  | variantArray =>
      exact ⟨.variantArray _ (by simp) (by simp),
        .variantArray _ (by simp) (by simp)⟩

end IsCopy

/-- The entry gives a new structure a field that comes back. -/
structure GivesCopy (python : Python) (fields : List (Str × FieldDesc))
    (entry : Str × PyObj) (field : PvField) : Prop where
  takes : Takes python fields (zeroMembers fields) entry field
  copy : ∀ desc, FieldDesc.named? fields entry.1 = some desc →
    IsCopy python desc field

theorem GivesCopy.of {fields : List (Str × FieldDesc)} {name : Str}
    {obj : PyObj} {desc : FieldDesc} {field : PvField}
    (found : FieldDesc.named? fields name = some desc)
    (assigned : (obj.assign python desc (zeroField desc)).result = .ok field)
    (copy : IsCopy python desc field) :
    GivesCopy python fields (name, obj) field where
  takes := takes_zero_iff.mpr ⟨desc, found, assigned⟩
  copy other otherFound := by
    cases found.symm.trans otherFound
    exact copy

theorem GivesCopy.int {fields : List (Str × FieldDesc)} {name : Str}
    {scalarType : ScalarType}
    (found : FieldDesc.named? fields name = some (.scalar scalarType))
    (noText : scalarType ≠ .string) (noFloat : scalarType ≠ .float)
    {number : Int} (low : -2 ^ 127 ≤ number) (high : number < 2 ^ 127) :
    GivesCopy python fields (name, .int number)
      (.scalar (python.intToScalar number scalarType)) := by
  have kept : python.Keeps (python.intToScalar number scalarType) := by
    cases scalarType with
    | string => exact (noText rfl).elim
    | float => exact (noFloat rfl).elim
    | _ => trivial
  have copy := IsCopy.scalar kept
  rw [Python.intToScalar_type] at copy
  exact .of found (PyObj.assign_int low high noText _) copy

/-- A structure made of a dict with distinct keys has for each entry the field
that it gives, and comes back. -/
theorem strDict_copies {structId : Str} {fields : List (Str × FieldDesc)}
    (names : (fields.map Prod.fst).Nodup)
    (zeros : ∀ member ∈ fields, IsCopy python member.2 (zeroField member.2))
    {entries : List (Str × PyObj)}
    (distinct : (entries.map Prod.fst).Nodup)
    (gives : ∀ entry ∈ entries, ∃ field,
      GivesCopy python fields entry field) :
    ∃ subs, ((PyObj.strDict entries).assign python
        (.struct structId fields)
          (zeroField (.struct structId fields))).result =
        .ok (.struct structId subs) ∧
      (∀ entry ∈ entries, ∀ field, GivesCopy python fields entry field →
        PvField.named? subs entry.1 = some field) ∧
      IsCopy python (.struct structId fields) (.struct structId subs) := by
  obtain ⟨subs, ended, given, -⟩ := Node.assignEntries_gives distinct
    fun entry member => (gives entry member).imp fun _ given => given.takes
  obtain ⟨zeroNames, zeroCopies⟩ := IsCopy.zip_zeroMembers zeros
  have taken : ∀ entry ∈ entries, ∀ desc field,
      FieldDesc.named? fields entry.1 = some desc →
        Takes python fields (zeroMembers fields) entry field →
          IsCopy python desc field := by
    intro entry member desc field found takes
    obtain ⟨other, gives⟩ := gives entry member
    rw [takes.unique gives.takes]
    exact gives.copy desc found
  obtain ⟨resultNames, copies⟩ :=
    Node.assignEntries_zip distinct zeroNames zeroCopies taken ended
  rw [zeroField]
  exact ⟨subs, (PyObj.assign_dict_iff _ _ _ _ _).mpr ⟨subs, ended, rfl⟩,
    fun entry member field gives => given entry member field gives.takes,
    .struct structId names resultNames copies⟩

end Copies

end Repics.Pva
