import Repics.Pva.Value.Copyable

/-!
# Python forms of fields

Every field of a type has a Python form, and assigning this form gives the
field back exactly when it is copyable.  The proof follows the type of the
field; elements of arrays and members of structures go by the same argument,
one for each kind of list.
-/

namespace Repics.Pva

variable {python : Python}

/-- The object is the Python form of a field.  It comes back as that field
exactly when the field is copyable; a detached `Value` does so for a structure
only. -/
structure IsForm (python : Python) (plain : Bool) (desc : FieldDesc)
    (field : PvField) (obj : PyObj) : Prop where
  rendered : toPy python plain field desc = .ok obj
  single : obj.isTuple = false
  detached : obj.roots = []
  back : plain = true ∨ desc.IsPlain → ∀ target, PvField.Fits desc target →
    ((obj.assign python desc target).result = .ok field ↔
      Copyable python desc field)

def Renders (python : Python) (desc : FieldDesc) (field : PvField) : Prop :=
  ∀ plain, ∃ obj, IsForm python plain desc field obj

theorem itemRoots_eq_nil {objs : List PyObj}
    (none : ∀ obj ∈ objs, obj.roots = []) : PyObj.itemRoots objs = [] := by
  induction objs with
  | nil => rfl
  | cons obj rest induction =>
      rw [PyObj.itemRoots, none obj List.mem_cons_self, List.nil_append]
      exact induction fun other member =>
        none other (List.mem_cons_of_mem obj member)

theorem scalarToPy_roots (value : ScalarValue) :
    (python.scalarToPy value).roots = [] := by
  cases value <;> rfl

theorem renders_scalar (lawful : python.Lawful) (value : ScalarValue) :
    Renders python (.scalar value.scalarType) (.scalar value) := by
  intro plain
  refine ⟨python.scalarToPy value, ?_, ?_, ?_, ?_⟩
  · rw [toPy]
  · cases value <;> rfl
  · exact scalarToPy_roots value
  · intro _ target _
    rw [PyObj.assign_eq, Node.assign, Node.assignPlain, PyObj.node_obj,
      Locking.result_bind_ok_iff]
    constructor
    · rintro ⟨built, builtEnded, same⟩
      cases same
      exact .scalar _ value
        ((Python.scalar_kept_iff lawful value).mp builtEnded)
    · intro copyable
      cases copyable with
      | scalar _ _ kept =>
          exact ⟨value, (Python.scalar_kept_iff lawful value).mpr kept, rfl⟩

theorem typedArrayToPy_single (scalarType : ScalarType)
    (items : List ScalarValue) :
    (python.typedArrayToPy scalarType items).isTuple = false ∧
      (python.typedArrayToPy scalarType items).roots = [] := by
  unfold Python.typedArrayToPy
  split
  · refine ⟨rfl, ?_⟩
    rw [PyObj.roots]
    apply itemRoots_eq_nil
    intro obj member
    obtain ⟨item, -, rfl⟩ := List.mem_map.mp member
    exact scalarToPy_roots item
  · exact ⟨rfl, rfl⟩

theorem renders_numbers (lawful : python.Lawful) {scalarType : ScalarType}
    {items : List ScalarValue}
    (typed : ∀ item ∈ items, item.scalarType = scalarType) :
    Renders python (.scalarArray scalarType)
      (.scalarArrayTyped scalarType items) := by
  intro plain
  obtain ⟨single, detached⟩ :=
    @typedArrayToPy_single python scalarType items
  refine ⟨python.typedArrayToPy scalarType items, ?_, single, detached, ?_⟩
  · rw [toPy]
  · intro _ target _
    exact array_copied_iff lawful typed target

theorem untypedArrayToPy_single (scalarType : ScalarType)
    (items : List ScalarValue) :
    (python.untypedArrayToPy scalarType items).isTuple = false ∧
      (python.untypedArrayToPy scalarType items).roots = [] := by
  unfold Python.untypedArrayToPy
  split
  · exact typedArrayToPy_single _ _
  · refine ⟨rfl, ?_⟩
    rw [PyObj.roots]
    apply itemRoots_eq_nil
    intro obj member
    obtain ⟨item, -, rfl⟩ := List.mem_map.mp member
    exact scalarToPy_roots item

theorem renders_untyped (scalarType : ScalarType)
    (items : List ScalarValue) :
    Renders python (.scalarArray scalarType) (.scalarArray items) := by
  intro plain
  obtain ⟨single, detached⟩ :=
    @untypedArrayToPy_single python scalarType items
  refine ⟨python.untypedArrayToPy scalarType items, ?_, single, detached, ?_⟩
  · rw [toPy]
  · intro _ target _
    constructor
    · intro ended
      rw [PyObj.assign_eq, Node.assign, Node.assignPlain] at ended
      obtain ⟨built, -, same⟩ := (Locking.result_bind_ok_iff _ _ _).mp ended
      cases same
    · intro copyable
      cases copyable

theorem Aligned.roots {members : List (Str × FieldDesc)}
    {fields : List (Str × PvField)} {content : List (Str × PyObj)}
    {Related : FieldDesc → PvField → PyObj → Prop}
    (aligned : Aligned Related members fields content)
    (none : ∀ desc field obj, Related desc field obj → obj.roots = []) :
    PyObj.contentRoots content = [] ∧
      PyObj.entryRoots
        (content.map fun entry => (.str entry.1, entry.2)) = [] := by
  induction aligned with
  | nil => exact ⟨rfl, rfl⟩
  | cons name related _ induction =>
      obtain ⟨contentNone, entryNone⟩ := induction
      constructor
      · rw [PyObj.contentRoots, none _ _ _ related, contentNone,
          List.nil_append]
      · rw [List.map_cons, PyObj.entryRoots, none _ _ _ related, entryNone,
          PyObj.roots]
        rfl

theorem structForm_entries (plain : Bool) (structId : Str)
    (members : List (Str × FieldDesc)) (content : List (Str × PyObj)) :
    ((structForm plain structId members content).node python).entries =
      some (entryParts python content) := by
  cases plain with
  | true => simp [structForm, PyObj.node, entryParts]
  | false => rfl

/-- An object with the entries of a structure comes back as that structure
exactly when it is copyable. -/
theorem Aligned.struct_back_iff {structId : Str}
    {members : List (Str × FieldDesc)} {fields : List (Str × PvField)}
    {content : List (Str × PyObj)}
    (aligned : Aligned (IsForm python true) members fields content)
    (distinct : (members.map Prod.fst).Nodup) {obj : PyObj}
    (entries : (obj.node python).entries = some (entryParts python content))
    {target : PvField}
    (fits : PvField.Fits (.struct structId members) target) :
    (obj.assign python (.struct structId members) target).result =
        .ok (.struct structId fields) ↔
      Copyable python (.struct structId members)
        (.struct structId fields) := by
  cases target with
  | struct targetId subs =>
      simp only [PvField.Fits] at fits
      obtain ⟨rfl, fit⟩ := fits
      have apart : ∀ name ∈ members.map Prod.fst,
          name ∉ ([] : List (Str × PvField)).map Prod.fst :=
        fun _ _ => List.not_mem_nil
      have loop : (Node.assignEntries members (entryParts python content)
          subs).result = .ok fields ↔
            ∀ member field, (member, field) ∈ members.zip fields →
              Copyable python member.2 field.2 :=
        aligned.assignEntries_iff
          (fun _ _ _ form => form.back (.inl rfl))
          (fun _ _ member => FieldDesc.named?_of_mem distinct member)
          distinct apart fit
      rw [PyObj.assign_eq, Node.result_struct entries]
      constructor
      · intro ended
        cases looped : (Node.assignEntries members
            (entryParts python content) subs).result with
        | error error =>
            rw [looped] at ended
            cases ended
        | ok new =>
            rw [looped] at ended
            cases ended
            exact .struct targetId members fields (loop.mp looped)
      · intro copyable
        cases copyable with
        | struct _ _ _ copied =>
            rw [loop.mpr copied]
            rfl
  | _ => simp [PvField.Fits] at fits

theorem Aligned.dictOf_fields {members : List (Str × FieldDesc)}
    {fields : List (Str × PvField)} {content : List (Str × PyObj)}
    (aligned : Aligned (IsForm python true) members fields content)
    (distinct : (fields.map Prod.fst).Nodup) :
    Pva.dictOf (converters python fields) members = .ok content :=
  aligned.dictOf (fun _ _ _ form => form.rendered) fun _ _ member =>
    PvField.named?_of_mem distinct member

theorem renders_struct {structId : Str} {members : List (Str × FieldDesc)}
    {fields : List (Str × PvField)}
    (distinct : (members.map Prod.fst).Nodup)
    (names : fields.map Prod.fst = members.map Prod.fst)
    (rendered : ∀ member field, (member, field) ∈ members.zip fields →
      Renders python member.2 field.2) :
    Renders python (.struct structId members) (.struct structId fields) := by
  obtain ⟨content, aligned⟩ := Aligned.exists names
    fun member field inZip => rendered member field inZip true
  have made := aligned.dictOf_fields (names ▸ distinct)
  obtain ⟨contentNone, entryNone⟩ :=
    aligned.roots fun _ _ _ form => form.detached
  intro plain
  refine ⟨structForm plain structId members content, ?_, ?_, ?_, ?_⟩
  · rw [toPy, made]
    rfl
  · cases plain <;> rfl
  · cases plain with
    | true => exact entryNone
    | false => exact contentNone
  · intro _ target fits
    exact aligned.struct_back_iff distinct
      (structForm_entries plain structId members content) fits

theorem impliedType_plain {detached : Bool} {desc implied : FieldDesc}
    {value : PvField} (type : impliedType detached desc value = some implied) :
    desc.IsPlain := by
  cases desc with
  | scalar _ => trivial
  | scalarArray _ => trivial
  | struct _ _ => trivial
  | _ => cases type

theorem Taken.plain {detached : Bool} {variants : List (Str × FieldDesc)}
    {selector : Int} {name : Str} {desc : FieldDesc} {value : PvField}
    (taken : Taken detached variants selector name desc value) :
    desc.IsPlain := by
  obtain ⟨implied, index, type, -, -⟩ := taken
  exact impliedType_plain type

theorem Taken.selected {detached : Bool}
    {variants : List (Str × FieldDesc)} {selector : Int} {name : Str}
    {desc : FieldDesc} {value : PvField}
    (taken : Taken detached variants selector name desc value) :
    variantAt variants selector = some (name, desc) := by
  obtain ⟨implied, index, -, chosen, rfl⟩ := taken
  exact (memberFor_some chosen).1

section Member

variable {plain : Bool} {desc : FieldDesc} {value : PvField} {obj : PyObj}

/-- A value of a plain type is built again for that type when it is
copyable. -/
theorem IsForm.built_iff (lawful : python.Lawful)
    (form : IsForm python plain desc value obj) (isPlain : desc.IsPlain) :
    (obj.assign python desc (python.defaultValueFor desc)).result =
      .ok value ↔ Copyable python desc value :=
  form.back (.inr isPlain) _ (lawful.default_fits desc)

theorem IsForm.variant_iff (lawful : python.Lawful)
    (typed : HasType desc value)
    (form : IsForm python plain desc value obj) (target : PvField) :
    (obj.assign python .variant target).result =
        .ok (.variant (some desc) value) ↔
      impliedType (!plain) desc value = some desc ∧
        Copyable python desc value := by
  rw [variant_built_iff]
  constructor
  · rintro ⟨inferred, built⟩
    have isPlain := inferDesc_plain inferred
    have copyable := (form.built_iff lawful isPlain).mp built
    exact ⟨(inferDesc_toPy typed isPlain copyable form.rendered desc).mp
      inferred, copyable⟩
  · rintro ⟨type, copyable⟩
    have isPlain := impliedType_plain type
    exact ⟨(inferDesc_toPy typed isPlain copyable form.rendered desc).mpr
      type, (form.built_iff lawful isPlain).mpr copyable⟩

theorem IsForm.union_iff (lawful : python.Lawful)
    (typed : HasType desc value)
    (form : IsForm python plain desc value obj) {structId : Str}
    {variants : List (Str × FieldDesc)} {selector : Int} {name : Str}
    (selected : variantAt variants selector = some (name, desc))
    (target : PvField) :
    (obj.assign python (.union structId variants) target).result =
        .ok (.union selector name value) ↔
      Taken (!plain) variants selector name desc value ∧
        Copyable python desc value := by
  rw [union_built_iff form.single selected]
  constructor
  · rintro ⟨implied, index, inferred, chosen, rfl, built⟩
    have isPlain := (memberFor_some chosen).2
    have copyable := (form.built_iff lawful isPlain).mp built
    have type := (inferDesc_toPy typed isPlain copyable form.rendered
      implied).mp inferred
    exact ⟨⟨implied, index, type, chosen, rfl⟩, copyable⟩
  · rintro ⟨taken, copyable⟩
    have isPlain := taken.plain
    obtain ⟨implied, index, type, chosen, rfl⟩ := taken
    have inferred := (inferDesc_toPy typed isPlain copyable form.rendered
      implied).mpr type
    exact ⟨implied, index, inferred, chosen, rfl,
      (form.built_iff lawful isPlain).mpr copyable⟩

end Member

theorem renders_unselected (structId : Str)
    (variants : List (Str × FieldDesc)) :
    Renders python (.union structId variants) (.union (-1) [] .null) := by
  intro plain
  refine ⟨.none, ?_, rfl, rfl, ?_⟩
  · rw [toPy]
    rfl
  · intro _ target _
    exact iff_of_true rfl (.unselected structId variants)

theorem renders_union (lawful : python.Lawful) {structId : Str}
    {variants : List (Str × FieldDesc)} {selector : Int} {name : Str}
    {desc : FieldDesc} {value : PvField}
    (selected : variantAt variants selector = some (name, desc))
    (typed : HasType desc value) (rendered : Renders python desc value) :
    Renders python (.union structId variants)
      (.union selector name value) := by
  intro plain
  obtain ⟨obj, form⟩ := rendered plain
  refine ⟨obj, ?_, form.single, form.detached, ?_⟩
  · rw [toPy, selected]
    exact form.rendered
  · intro mode target _
    obtain rfl : plain = true := mode.resolve_right id
    rw [form.union_iff lawful typed selected]
    constructor
    · rintro ⟨taken, copyable⟩
      exact .union _ _ _ _ _ _ taken copyable
    · intro copyable
      cases copyable with
      | unselected => cases selected
      | union _ _ _ _ other _ taken copyable =>
          have same : some (name, other) = some (name, desc) :=
            taken.selected.symm.trans selected
          cases same
          exact ⟨taken, copyable⟩

theorem renders_empty : Renders python .variant (.variant none .null) := by
  intro plain
  refine ⟨.none, ?_, rfl, rfl, ?_⟩
  · rw [toPy]
  · intro _ target _
    exact iff_of_true rfl .empty

theorem HasType.ne_null {desc : FieldDesc} {value : PvField}
    (typed : HasType desc value) : value ≠ .null := by
  rintro rfl
  cases typed

theorem toPy_variant (plain : Bool) (desc outer : FieldDesc)
    {value : PvField} (some : value ≠ .null) :
    toPy python plain (.variant (.some desc) value) outer =
      toPy python plain value desc := by
  cases value with
  | null => exact (some rfl).elim
  | _ => conv_lhs => unfold toPy

theorem renders_variant (lawful : python.Lawful) {desc : FieldDesc}
    {value : PvField} (typed : HasType desc value)
    (rendered : Renders python desc value) :
    Renders python .variant (.variant (some desc) value) := by
  intro plain
  obtain ⟨obj, form⟩ := rendered plain
  refine ⟨obj, ?_, form.single, form.detached, ?_⟩
  · rw [toPy_variant plain desc .variant typed.ne_null]
    exact form.rendered
  · intro mode target _
    obtain rfl : plain = true := mode.resolve_right id
    rw [form.variant_iff lawful typed]
    constructor
    · rintro ⟨type, copyable⟩
      exact .variant desc value type copyable
    · intro copyable
      cases copyable with
      | variant _ _ type copyable => exact ⟨type, copyable⟩

def formList {α : Type} (form : α → Except PyErr PyObj) :
    List α → Except PyErr (List PyObj)
  | [] => .ok []
  | item :: rest => consPy (form item) (formList form rest)

/-- A null element is `None`. -/
def elementForm {α : Type} (form : α → Except PyErr PyObj) :
    Option α → Except PyErr PyObj
  | none => .ok .none
  | some item => form item

theorem structItemsToPy_eq (plain : Bool)
    (items : List (Option (Str × List (Str × PvField)))) (structId : Str)
    (members : List (Str × FieldDesc)) :
    structItemsToPy python plain items structId members =
      formList (elementForm fun item => toPy python plain
        (.struct item.1 item.2) (.struct structId members)) items := by
  induction items with
  | nil => rw [structItemsToPy, formList]
  | cons item rest induction =>
      cases item with
      | none => rw [structItemsToPy, formList, induction, elementForm]
      | some item =>
          rw [structItemsToPy, formList, induction, elementForm, toPy]

theorem unionItemsToPy_eq (items : List (Option (Int × Str × PvField)))
    (variants : List (Str × FieldDesc)) :
    unionItemsToPy python items variants =
      formList (elementForm fun item => toPy python false
        (.union item.1 item.2.1 item.2.2) (.union [] variants)) items := by
  induction items with
  | nil => rw [unionItemsToPy, formList]
  | cons item rest induction =>
      cases item with
      | none => rw [unionItemsToPy, formList, induction, elementForm]
      | some item =>
          rw [unionItemsToPy, formList, induction, elementForm, toPy]

theorem variantItemsToPy_eq
    (items : List (Option (Option FieldDesc × PvField))) :
    variantItemsToPy python items =
      formList (elementForm fun item => toPy python false
        (.variant item.1 item.2) .variant) items := by
  induction items with
  | nil => rw [variantItemsToPy, formList]
  | cons item rest induction =>
      cases item with
      | none => rw [variantItemsToPy, formList, induction, elementForm]
      | some item =>
          obtain ⟨stored, value⟩ := item
          rw [formList, ← induction, elementForm]
          cases stored with
          | none =>
              cases value <;>
                (conv_lhs => unfold variantItemsToPy) <;>
                (conv_rhs => unfold toPy)
          | some desc =>
              cases value <;>
                (conv_lhs => unfold variantItemsToPy) <;>
                (conv_rhs => unfold toPy)

namespace Copyable

theorem structArray_iff {structId : Str} {members : List (Str × FieldDesc)}
    {items : List (Option (Str × List (Str × PvField)))} :
    Copyable python (.structArray structId members) (.structArray items) ↔
      ∀ item, some item ∈ items →
        Copyable python (.struct structId members)
          (.struct item.1 item.2) := by
  constructor
  · intro copyable
    cases copyable with
    | structArray _ _ _ copied =>
        exact fun item member => copied item.1 item.2 member
  · intro copied
    exact .structArray structId members items fun itemId fields member =>
      copied (itemId, fields) member

theorem unionArray_iff {structId : Str} {variants : List (Str × FieldDesc)}
    {items : List (Option (Int × Str × PvField))} :
    Copyable python (.unionArray structId variants) (.unionArray items) ↔
      ∀ item, some item ∈ items →
        ∃ desc, Taken true variants item.1 item.2.1 desc item.2.2 ∧
          Copyable python desc item.2.2 := by
  constructor
  · intro copyable
    cases copyable with
    | unionArray _ _ _ taken copied =>
        rintro ⟨selector, name, value⟩ member
        obtain ⟨desc, itemTaken⟩ := taken selector name value member
        exact ⟨desc, itemTaken,
          copied selector name value desc member itemTaken⟩
  · intro copied
    refine .unionArray structId variants items ?_ ?_
    · intro selector name value member
      obtain ⟨desc, taken, -⟩ := copied (selector, name, value) member
      exact ⟨desc, taken⟩
    · intro selector name value desc member taken
      obtain ⟨other, otherTaken, copyable⟩ :=
        copied (selector, name, value) member
      cases taken.selected.symm.trans otherTaken.selected
      exact copyable

theorem variantArray_iff
    {items : List (Option (Option FieldDesc × PvField))} :
    Copyable python .variantArray (.variantArray items) ↔
      ∀ item, some item ∈ items →
        ∃ desc, item.1 = some desc ∧
          impliedType true desc item.2 = some desc ∧
            Copyable python desc item.2 := by
  constructor
  · intro copyable
    cases copyable with
    | variantArray _ types copied =>
        rintro ⟨stored, value⟩ member
        obtain ⟨desc, same, type⟩ := types stored value member
        cases same
        exact ⟨desc, rfl, type, copied desc value member⟩
  · intro copied
    refine .variantArray items ?_ ?_
    · intro stored value member
      obtain ⟨desc, same, type, -⟩ := copied (stored, value) member
      exact ⟨desc, same, type⟩
    · intro desc value member
      obtain ⟨other, same, -, copyable⟩ := copied (some desc, value) member
      cases same
      exact copyable

end Copyable

/-- The elements of an array have forms, and building them again gives the
array when it gives each element. -/
theorem elements_iff {α : Type} {form : α → Except PyErr PyObj}
    {build : PyObj → Asking (Option α)} {Back : α → Prop}
    (null : (build .none).result = .ok none) {items : List (Option α)}
    (elements : ∀ item, some item ∈ items → ∃ obj, form item = .ok obj ∧
      obj.roots = [] ∧ ((build obj).result = .ok (some item) ↔ Back item)) :
    ∃ objs, formList (elementForm form) items = .ok objs ∧
      PyObj.itemRoots objs = [] ∧
        ((Locking.each build objs).result = .ok items ↔
          ∀ item, some item ∈ items → Back item) := by
  induction items with
  | nil => exact ⟨[], rfl, rfl, iff_of_true rfl (by simp)⟩
  | cons first rest induction =>
      obtain ⟨objs, formed, detached, built⟩ := induction
        fun item member => elements item (List.mem_cons_of_mem first member)
      have head : ∃ obj, elementForm form first = .ok obj ∧
          obj.roots = [] ∧ ((build obj).result = .ok first ↔
            ∀ item, first = some item → Back item) := by
        cases first with
        | none => exact ⟨.none, rfl, rfl, iff_of_true null (by simp)⟩
        | some item =>
            obtain ⟨obj, itemFormed, itemDetached, itemBuilt⟩ :=
              elements item List.mem_cons_self
            refine ⟨obj, itemFormed, itemDetached, itemBuilt.trans ?_⟩
            simp
      obtain ⟨obj, firstFormed, firstDetached, firstBuilt⟩ := head
      refine ⟨obj :: objs, ?_, ?_, ?_⟩
      · rw [formList, firstFormed, formed, consPy]
      · rw [PyObj.itemRoots, firstDetached, detached, List.nil_append]
      · rw [Locking.result_each_ok_iff, List.forall₂_cons,
          ← Locking.result_each_ok_iff, firstBuilt, built]
        constructor
        · rintro ⟨here, later⟩ item member
          rcases List.mem_cons.mp member with same | inRest
          · exact here item same.symm
          · exact later item inRest
        · intro back
          exact ⟨fun item same => back item (same ▸ List.mem_cons_self),
            fun item member => back item (List.mem_cons_of_mem first member)⟩

theorem element_built_iff {α : Type} {action : Asking PvField}
    {element : PvField → Option α} {item : α} {field : PvField}
    (taken : ∀ built, element built = some item ↔ built = field) :
    (action >>= fun built => pure (element built)).result =
      .ok (some item) ↔ action.result = .ok field := by
  rw [Locking.result_bind_ok_iff]
  constructor
  · rintro ⟨built, ended, same⟩
    rw [ended, (taken built).mp (Except.ok.inj same)]
  · intro ended
    refine ⟨field, ended, ?_⟩
    rw [(taken field).mpr rfl]
    rfl

/-- An element that is no null element is built when its field is. -/
theorem item_built_iff {α : Type} {obj : PyObj} {action : Asking PvField}
    {element : PvField → Option α} {item : α} {field : PvField}
    (taken : ∀ built, element built = some item ↔ built = field)
    (null : obj = .none → action.result ≠ .ok field) :
    (if obj.isNone then pure none else
        action >>= fun built => pure (element built)).result =
      .ok (some item) ↔ action.result = .ok field := by
  cases isNone : obj.isNone with
  | true =>
      have same : obj = .none := by
        cases obj with
        | none => rfl
        | _ => cases isNone
      exact iff_of_false (fun impossible => by cases impossible) (null same)
  | false => exact element_built_iff taken

theorem buildItems_list {Item : Type} (objs : List PyObj)
    (build : Part → Asking (Option Item)) :
    (((PyObj.list objs).node python).buildItems python build).result =
      (Locking.each (fun obj : PyObj =>
        if obj.isNone then pure none else build (obj.part python))
          objs).result := by
  rw [Node.buildItems]
  refine (Locking.result_bind_ok (Node.result_iterate rfl) _).trans ?_
  rw [Locking.each_map]
  rfl

theorem renders_structArray (lawful : python.Lawful) {structId : Str}
    {members : List (Str × FieldDesc)}
    {items : List (Option (Str × List (Str × PvField)))}
    (rendered : ∀ itemId fields, some (itemId, fields) ∈ items →
      Renders python (.struct structId members) (.struct itemId fields)) :
    Renders python (.structArray structId members)
      (.structArray items) := by
  intro plain
  let build (obj : PyObj) : Asking (Option (Str × List (Str × PvField))) :=
    if obj.isNone then pure none else do
      let field ← obj.assign python (.struct structId members)
        (python.defaultValueFor (.struct structId members))
      pure field.structItem
  have null : (build .none).result = .ok none := rfl
  have elements : ∀ item, some item ∈ items → ∃ obj,
      toPy python plain (.struct item.1 item.2)
        (.struct structId members) = .ok obj ∧ obj.roots = [] ∧
          ((build obj).result = .ok (some item) ↔ Copyable python
            (.struct structId members) (.struct item.1 item.2)) := by
    intro item member
    obtain ⟨obj, form⟩ := rendered item.1 item.2 member plain
    refine ⟨obj, form.rendered, form.detached, ?_⟩
    rw [← form.built_iff lawful trivial]
    apply item_built_iff fun _ => PvField.structItem_iff
    rintro rfl impossible
    cases impossible
  obtain ⟨objs, formed, detached, built⟩ := elements_iff null elements
  refine ⟨.list objs, ?_, rfl, detached, ?_⟩
  · rw [toPy, structItemsToPy_eq, formed]
    rfl
  · intro _ target _
    have array : ((PyObj.list objs).assign python
        (.structArray structId members) target).result =
        .ok (.structArray items) ↔
          (Locking.each build objs).result = .ok items := by
      rw [PyObj.assign_eq, Node.assign,
        Locking.result_wrap_iff (fun _ _ => PvField.structArray.inj),
        buildItems_list]
      rfl
    rw [array, built, Copyable.structArray_iff]

theorem renders_unionArray (lawful : python.Lawful) {structId : Str}
    {variants : List (Str × FieldDesc)}
    {items : List (Option (Int × Str × PvField))}
    (shape : ∀ selector name value, some (selector, name, value) ∈ items →
      selector = -1 ∨ ∃ desc,
        variantAt variants selector = some (name, desc))
    (typed : ∀ selector name value desc,
      some (selector, name, value) ∈ items →
        variantAt variants selector = some (name, desc) →
          HasType desc value)
    (rendered : ∀ selector name value desc,
      some (selector, name, value) ∈ items →
        variantAt variants selector = some (name, desc) →
          Renders python desc value) :
    Renders python (.unionArray structId variants) (.unionArray items) := by
  intro plain
  let build (obj : PyObj) : Asking (Option (Int × Str × PvField)) := do
    let field ← obj.assign python (.union structId variants) .null
    pure field.unionItem
  have null : (build .none).result = .ok none := rfl
  have elements : ∀ item, some item ∈ items → ∃ obj,
      toPy python false (.union item.1 item.2.1 item.2.2)
        (.union [] variants) = .ok obj ∧ obj.roots = [] ∧
          ((build obj).result = .ok (some item) ↔
            ∃ desc, Taken true variants item.1 item.2.1 desc item.2.2 ∧
              Copyable python desc item.2.2) := by
    rintro ⟨selector, name, value⟩ member
    rcases shape selector name value member with rfl | ⟨desc, selected⟩
    · refine ⟨.none, by rw [toPy]; rfl, rfl, ?_⟩
      constructor
      · intro impossible
        cases impossible
      · rintro ⟨desc, taken, -⟩
        cases taken.selected
    · obtain ⟨obj, form⟩ :=
        rendered selector name value desc member selected false
      refine ⟨obj, ?_, form.detached, ?_⟩
      · rw [toPy, selected]
        exact form.rendered
      · have some : selector ≠ -1 := by
          rintro rfl
          cases selected
        refine (element_built_iff fun _ =>
          PvField.unionItem_iff.trans (and_iff_right some)).trans ?_
        rw [form.union_iff lawful
          (typed selector name value desc member selected) selected]
        constructor
        · intro copied
          exact ⟨desc, copied⟩
        · rintro ⟨other, taken, copyable⟩
          cases taken.selected.symm.trans selected
          exact ⟨taken, copyable⟩
  obtain ⟨objs, formed, detached, built⟩ := elements_iff null elements
  refine ⟨.list objs, ?_, rfl, detached, ?_⟩
  · rw [toPy, unionItemsToPy_eq, formed]
    rfl
  · intro _ target _
    have array : ((PyObj.list objs).assign python
        (.unionArray structId variants) target).result =
        .ok (.unionArray items) ↔
          (Locking.each build objs).result = .ok items := by
      have parts : ((PyObj.list objs).node python).items =
          some (objs.map (PyObj.part python)) := rfl
      rw [PyObj.assign_eq, Node.assign,
        Locking.result_bind_ok (Node.result_iterate parts),
        Locking.result_wrap_iff (fun _ _ => PvField.unionArray.inj),
        Locking.each_map]
      rfl
    rw [array, built, Copyable.unionArray_iff]

theorem renders_variantArray (lawful : python.Lawful)
    {items : List (Option (Option FieldDesc × PvField))}
    (empty : ∀ value, some (none, value) ∈ items → value = .null)
    (typed : ∀ desc value, some (some desc, value) ∈ items →
      HasType desc value)
    (rendered : ∀ desc value, some (some desc, value) ∈ items →
      Renders python desc value) :
    Renders python .variantArray (.variantArray items) := by
  intro plain
  let build (obj : PyObj) : Asking (Option (Option FieldDesc × PvField)) :=
    if obj.isNone then pure none else do
      let field ← obj.assign python .variant .null
      pure field.variantItem
  have null : (build .none).result = .ok none := rfl
  have elements : ∀ item, some item ∈ items → ∃ obj,
      toPy python false (.variant item.1 item.2) .variant = .ok obj ∧
        obj.roots = [] ∧ ((build obj).result = .ok (some item) ↔
          ∃ desc, item.1 = some desc ∧
            impliedType true desc item.2 = some desc ∧
              Copyable python desc item.2) := by
    rintro ⟨stored, value⟩ member
    cases stored with
    | none =>
        cases empty value member
        refine ⟨.none, by rw [toPy], rfl, ?_⟩
        constructor
        · intro impossible
          cases impossible
        · rintro ⟨desc, impossible, -⟩
          cases impossible
    | some desc =>
        obtain ⟨obj, form⟩ := rendered desc value member false
        have valueTyped := typed desc value member
        refine ⟨obj, ?_, form.detached, ?_⟩
        · rw [toPy_variant _ _ _ valueTyped.ne_null]
          exact form.rendered
        · have taken : (build obj).result = .ok (some (some desc, value)) ↔
              (obj.assign python .variant .null).result =
                .ok (.variant (some desc) value) := by
            apply item_built_iff fun _ => PvField.variantItem_iff
            rintro rfl impossible
            cases impossible
          rw [taken, form.variant_iff lawful valueTyped .null]
          constructor
          · intro copied
            exact ⟨desc, rfl, copied⟩
          · rintro ⟨other, same, copied⟩
            cases same
            exact copied
  obtain ⟨objs, formed, detached, built⟩ := elements_iff null elements
  refine ⟨.list objs, ?_, rfl, detached, ?_⟩
  · rw [toPy, variantItemsToPy_eq, formed]
    rfl
  · intro _ target _
    have array : ((PyObj.list objs).assign python .variantArray
        target).result = .ok (.variantArray items) ↔
          (Locking.each build objs).result = .ok items := by
      rw [PyObj.assign_eq, Node.assign,
        Locking.result_wrap_iff (fun _ _ => PvField.variantArray.inj),
        buildItems_list]
      rfl
    rw [array, built, Copyable.variantArray_iff]

theorem HasType.renders (lawful : python.Lawful) {desc : FieldDesc}
    {field : PvField} (typed : HasType desc field) :
    Renders python desc field := by
  induction typed with
  | scalar value => exact renders_scalar lawful value
  | scalarArray scalarType items => exact renders_untyped scalarType items
  | scalarArrayTyped scalarType items typed =>
      exact renders_numbers lawful typed
  | struct structId members fields distinct names _ rendered =>
      exact renders_struct distinct names rendered
  | structArray structId members items _ rendered =>
      exact renders_structArray lawful rendered
  | unselected structId variants =>
      exact renders_unselected structId variants
  | union structId variants selector name desc value selected typed
      rendered => exact renders_union lawful selected typed rendered
  | unionArray structId variants items shape typed rendered =>
      exact renders_unionArray lawful shape typed rendered
  | empty => exact renders_empty
  | variant desc value typed rendered =>
      exact renders_variant lawful typed rendered
  | variantArray items empty typed rendered =>
      exact renders_variantArray lawful empty typed rendered

end Repics.Pva
