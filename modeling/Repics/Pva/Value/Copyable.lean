import Repics.Pva.Value.RootLock

/-!
# Fields that can be copied

A `Value` given to a structure is read through `todict` and assigned like a
dict, so a copy goes out through Python objects and comes back through the
types these objects imply.  `HasType` is what assignment, `select` and the
wire leave in a field of a type, and `Copyable` says which of these fields come
back as they were.
-/

namespace Repics.Pva

/-- The field is one of the type.  Elements of arrays can be null, and those
from the wire can also be unselected unions and empty variants. -/
inductive HasType : FieldDesc → PvField → Prop where
  | scalar (value : ScalarValue) :
      HasType (.scalar value.scalarType) (.scalar value)
  | scalarArray (scalarType : ScalarType) (items : List ScalarValue) :
      HasType (.scalarArray scalarType) (.scalarArray items)
  | scalarArrayTyped (scalarType : ScalarType) (items : List ScalarValue) :
      (∀ item ∈ items, item.scalarType = scalarType) →
      HasType (.scalarArray scalarType) (.scalarArrayTyped scalarType items)
  | struct (structId : Str) (members : List (Str × FieldDesc))
      (fields : List (Str × PvField)) :
      (members.map Prod.fst).Nodup →
      fields.map Prod.fst = members.map Prod.fst →
      (∀ member field, (member, field) ∈ members.zip fields →
        HasType member.2 field.2) →
      HasType (.struct structId members) (.struct structId fields)
  | structArray (structId : Str) (members : List (Str × FieldDesc))
      (items : List (Option (Str × List (Str × PvField)))) :
      (∀ itemId fields, some (itemId, fields) ∈ items →
        HasType (.struct structId members) (.struct itemId fields)) →
      HasType (.structArray structId members) (.structArray items)
  | unselected (structId : Str) (variants : List (Str × FieldDesc)) :
      HasType (.union structId variants) (.union (-1) [] .null)
  | union (structId : Str) (variants : List (Str × FieldDesc))
      (selector : Int) (name : Str) (desc : FieldDesc) (value : PvField) :
      variantAt variants selector = some (name, desc) →
      HasType desc value →
      HasType (.union structId variants) (.union selector name value)
  | unionArray (structId : Str) (variants : List (Str × FieldDesc))
      (items : List (Option (Int × Str × PvField))) :
      (∀ selector name value, some (selector, name, value) ∈ items →
        selector = -1 ∨ ∃ desc,
          variantAt variants selector = some (name, desc)) →
      (∀ selector name value desc, some (selector, name, value) ∈ items →
        variantAt variants selector = some (name, desc) →
          HasType desc value) →
      HasType (.unionArray structId variants) (.unionArray items)
  | empty : HasType .variant (.variant none .null)
  | variant (desc : FieldDesc) (value : PvField) :
      HasType desc value → HasType .variant (.variant (some desc) value)
  | variantArray (items : List (Option (Option FieldDesc × PvField))) :
      (∀ value, some (none, value) ∈ items → value = .null) →
      (∀ desc value, some (some desc, value) ∈ items →
        HasType desc value) →
      HasType .variantArray (.variantArray items)

theorem HasType.named {members : List (Str × FieldDesc)}
    {fields : List (Str × PvField)}
    (names : fields.map Prod.fst = members.map Prod.fst)
    (typed : ∀ member field, (member, field) ∈ members.zip fields →
      HasType member.2 field.2) {name : Str} {desc : FieldDesc}
    (found : FieldDesc.named? members name = some desc) :
    ∃ field, PvField.named? fields name = some field ∧
      HasType desc field := by
  induction members generalizing fields with
  | nil => cases found
  | cons member members induction =>
      obtain ⟨label, other⟩ := member
      cases fields with
      | nil => cases names
      | cons entry fields =>
          obtain ⟨fieldLabel, field⟩ := entry
          obtain ⟨rfl, rest⟩ := List.cons.inj names
          rw [FieldDesc.named?_cons] at found
          rw [PvField.named?_cons]
          split
          · rename_i same
            rw [if_pos same] at found
            cases found
            exact ⟨field, rfl, typed _ _ List.mem_cons_self⟩
          · rename_i different
            rw [if_neg different] at found
            exact induction rest (fun member field inRest =>
              typed member field (List.mem_cons_of_mem _ inRest)) found

/-- The members of a field of a type are of the types of the members. -/
theorem HasType.atPath? {desc sub : FieldDesc} {field : PvField}
    (typed : HasType desc field) {path : List Str}
    (found : desc.atPath? path = some sub) :
    ∃ subField, field.atPath? path = some subField ∧
      HasType sub subField := by
  induction path generalizing desc field with
  | nil =>
      rw [FieldDesc.atPath?_nil] at found
      cases found
      exact ⟨field, PvField.atPath?_nil field, typed⟩
  | cons name path induction =>
      rw [FieldDesc.atPath?_cons] at found
      obtain ⟨child, childFound, rest⟩ := Option.bind_eq_some_iff.mp found
      cases typed with
      | struct structId members fields _ names typed =>
          obtain ⟨member, memberFound, memberTyped⟩ :=
            HasType.named names typed childFound
          obtain ⟨subField, subFound, subTyped⟩ := induction memberTyped rest
          refine ⟨subField, ?_, subTyped⟩
          rw [PvField.atPath?_cons, PvField.member?, memberFound]
          exact subFound
      | _ => cases childFound

/-- The types that an object can imply. -/
def FieldDesc.IsPlain : FieldDesc → Prop
  | .scalar _ | .scalarArray _ | .struct _ _ => True
  | _ => False

/-- The scalar type that the Python form of a scalar implies. -/
def ScalarType.implied : ScalarType → ScalarType
  | .boolean => .boolean
  | .string => .string
  | .float | .double => .double
  | _ => .long

/-- The type that the Python form of a field implies, if it is one that the
field can have.  A structure implies its type as a detached `Value`, and none
as a dict; an empty list of strings implies numbers. -/
def impliedType (detached : Bool) : FieldDesc → PvField → Option FieldDesc
  | .scalar scalarType, _ => some (.scalar scalarType.implied)
  | .scalarArray scalarType, .scalarArrayTyped _ items =>
      some (.scalarArray
        (if scalarType = .string ∧ items = [] then .double else scalarType))
  | .struct structId members, _ =>
      if detached then some (.struct structId members) else none
  | _, _ => none

/-- The selected member is the one chosen for what its value implies. -/
def Taken (detached : Bool) (variants : List (Str × FieldDesc))
    (selector : Int) (name : Str) (desc : FieldDesc) (value : PvField) :
    Prop :=
  ∃ implied index, impliedType detached desc value = some implied ∧
    memberFor variants (some implied) = some (index, name, desc) ∧
      selector = index

/-- The scalar survives as a Python object: a string if it is valid text, a
`float` if widening loses nothing. -/
def Python.Keeps (python : Python) : ScalarValue → Prop
  | .string text => python.asStrLossy text = text
  | .float bits => python.narrow (python.widen bits) = bits
  | _ => True

/-- The fields that come back from Python as they were.  What stands in a
union or a variant outside an array is read as plain data, so a structure in
one of them is lost; the elements of their arrays keep structures. -/
inductive Copyable (python : Python) : FieldDesc → PvField → Prop where
  | scalar (scalarType : ScalarType) (value : ScalarValue) :
      python.Keeps value → Copyable python (.scalar scalarType) (.scalar value)
  | numbers (scalarType : ScalarType) (items : List ScalarValue) :
      scalarType ≠ .string →
      Copyable python (.scalarArray scalarType)
        (.scalarArrayTyped scalarType items)
  | strings (items : List ScalarValue) :
      (∀ item ∈ items, python.Keeps item) →
      Copyable python (.scalarArray .string)
        (.scalarArrayTyped .string items)
  | struct (structId : Str) (members : List (Str × FieldDesc))
      (fields : List (Str × PvField)) :
      (∀ member field, (member, field) ∈ members.zip fields →
        Copyable python member.2 field.2) →
      Copyable python (.struct structId members) (.struct structId fields)
  | structArray (structId : Str) (members : List (Str × FieldDesc))
      (items : List (Option (Str × List (Str × PvField)))) :
      (∀ itemId fields, some (itemId, fields) ∈ items →
        Copyable python (.struct structId members)
          (.struct itemId fields)) →
      Copyable python (.structArray structId members) (.structArray items)
  | unselected (structId : Str) (variants : List (Str × FieldDesc)) :
      Copyable python (.union structId variants) (.union (-1) [] .null)
  | union (structId : Str) (variants : List (Str × FieldDesc))
      (selector : Int) (name : Str) (desc : FieldDesc) (value : PvField) :
      Taken false variants selector name desc value →
      Copyable python desc value →
      Copyable python (.union structId variants)
        (.union selector name value)
  | unionArray (structId : Str) (variants : List (Str × FieldDesc))
      (items : List (Option (Int × Str × PvField))) :
      (∀ selector name value, some (selector, name, value) ∈ items →
        ∃ desc, Taken true variants selector name desc value) →
      (∀ selector name value desc, some (selector, name, value) ∈ items →
        Taken true variants selector name desc value →
          Copyable python desc value) →
      Copyable python (.unionArray structId variants) (.unionArray items)
  | empty : Copyable python .variant (.variant none .null)
  | variant (desc : FieldDesc) (value : PvField) :
      impliedType false desc value = some desc →
      Copyable python desc value →
      Copyable python .variant (.variant (some desc) value)
  | variantArray (items : List (Option (Option FieldDesc × PvField))) :
      (∀ stored value, some (stored, value) ∈ items →
        ∃ desc, stored = some desc ∧
          impliedType true desc value = some desc) →
      (∀ desc value, some (some desc, value) ∈ items →
        Copyable python desc value) →
      Copyable python .variantArray (.variantArray items)

/-- What the copy relies on: a string is parsed as itself and is its own text,
an array of the wanted type is taken as it is, and a new structure has its
members. -/
structure Python.Lawful (python : Python) : Prop where
  parse_string : ∀ text, python.parse .string text = .ok (.string text)
  text_str : ∀ text, python.text (.str text) = text
  asarray_array : ∀ scalarType items, scalarType ≠ .string →
    (∀ item ∈ items, item.scalarType = scalarType) →
      python.asarray scalarType (.array scalarType items) = .ok items
  default_fits : ∀ desc, PvField.Fits desc (python.defaultValueFor desc)

variable {python : Python}

theorem Python.pyToScalar_int {value : Int} (low : -2 ^ 127 ≤ value)
    (high : value < 2 ^ 127) {scalarType : ScalarType}
    (number : scalarType ≠ .string) :
    (python.pyToScalar (.int value) scalarType).result =
      .ok (python.intToScalar value scalarType) := by
  simp only [pyToScalar, if_neg number, Locking.result_lift, extractInt]
  rw [if_pos ⟨low, high⟩]
  rfl

theorem Python.int_kept {value : Int}
    (bounds : -2 ^ 63 ≤ value ∧ value < 2 ^ 64)
    {scalar : ScalarValue} (number : scalar.scalarType ≠ .string)
    (back : python.intToScalar value scalar.scalarType = scalar) :
    (python.pyToScalar (.int value) scalar.scalarType).result =
      .ok scalar := by
  rw [pyToScalar_int (by omega) (by omega) number, back]

theorem wrapped_toNat {number : Nat} {size : Int} (small : number < size) :
    (number % size).toNat = number := by
  rw [Int.emod_eq_of_lt (Int.natCast_nonneg number) small,
    Int.toNat_natCast]

theorem ofInt_ubyte (number : UInt8) :
    UInt8.ofInt number.toNat = number := by
  have small := number.toNat_lt
  rw [UInt8.ofInt, wrapped_toNat (by omega), UInt8.ofNat_toNat]

theorem ofInt_ushort (number : UInt16) :
    UInt16.ofInt number.toNat = number := by
  have small := number.toNat_lt
  rw [UInt16.ofInt, wrapped_toNat (by omega), UInt16.ofNat_toNat]

theorem ofInt_uint (number : UInt32) :
    UInt32.ofInt number.toNat = number := by
  have small := number.toNat_lt
  rw [UInt32.ofInt, wrapped_toNat (by omega), UInt32.ofNat_toNat]

theorem ofInt_ulong (number : UInt64) :
    UInt64.ofInt number.toNat = number := by
  have small := number.toNat_lt
  rw [UInt64.ofInt, wrapped_toNat (by omega), UInt64.ofNat_toNat]

theorem Python.scalar_kept_iff (lawful : python.Lawful)
    (value : ScalarValue) :
    (python.pyToScalar (python.scalarToPy value) value.scalarType).result =
      .ok value ↔ python.Keeps value := by
  cases value with
  | boolean bit => exact iff_of_true rfl trivial
  | byte number =>
      have low := number.le_toInt
      have high := number.toInt_lt
      have back := congrArg ScalarValue.byte (Int8.ofInt_toInt number)
      exact iff_of_true (int_kept (by omega) nofun back) trivial
  | ubyte number =>
      have high := number.toNat_lt
      have back := congrArg ScalarValue.ubyte (ofInt_ubyte number)
      exact iff_of_true (int_kept (by omega) nofun back) trivial
  | short number =>
      have low := number.le_toInt
      have high := number.toInt_lt
      have back := congrArg ScalarValue.short (Int16.ofInt_toInt number)
      exact iff_of_true (int_kept (by omega) nofun back) trivial
  | ushort number =>
      have high := number.toNat_lt
      have back := congrArg ScalarValue.ushort (ofInt_ushort number)
      exact iff_of_true (int_kept (by omega) nofun back) trivial
  | int number =>
      have low := number.le_toInt
      have high := number.toInt_lt
      have back := congrArg ScalarValue.int (Int32.ofInt_toInt number)
      exact iff_of_true (int_kept (by omega) nofun back) trivial
  | uint number =>
      have high := number.toNat_lt
      have back := congrArg ScalarValue.uint (ofInt_uint number)
      exact iff_of_true (int_kept (by omega) nofun back) trivial
  | long number =>
      have low := number.le_toInt
      have high := number.toInt_lt
      have back := congrArg ScalarValue.long (Int64.ofInt_toInt number)
      exact iff_of_true (int_kept (by omega) nofun back) trivial
  | ulong number =>
      have high := number.toNat_lt
      have back := congrArg ScalarValue.ulong (ofInt_ulong number)
      exact iff_of_true (int_kept (by omega) nofun back) trivial
  | float bits =>
      simp [scalarToPy, pyToScalar, floatToScalar, ScalarValue.scalarType,
        Keeps]
  | double bits => exact iff_of_true rfl trivial
  | string text =>
      simp [scalarToPy, pyToScalar, ScalarValue.scalarType, Keeps,
        lawful.parse_string]

theorem assign_numbers (lawful : python.Lawful) {scalarType : ScalarType}
    {items : List ScalarValue} (number : scalarType ≠ .string)
    (typed : ∀ item ∈ items, item.scalarType = scalarType)
    (target : PvField) :
    ((python.typedArrayToPy scalarType items).assign python
        (.scalarArray scalarType) target).result =
      .ok (.scalarArrayTyped scalarType items) := by
  rw [Python.typedArrayToPy, if_neg number, PyObj.assign_eq, Node.assign,
    Node.assignPlain, Node.pyToArray, if_neg number]
  simp only [PyObj.node, Locking.result_bind, Locking.result_touch,
    Locking.result_lift, lawful.asarray_array scalarType items number typed]
  rfl

theorem assign_strings (items : List ScalarValue) (target : PvField) :
    ((python.typedArrayToPy .string items).assign python
        (.scalarArray .string) target).result =
      .ok (.scalarArrayTyped .string (items.map fun item =>
        .string (python.text (python.scalarToPy item)))) := by
  have parts : (PyObj.node python
      (.list (items.map python.scalarToPy))).items =
        some ((items.map python.scalarToPy).map (PyObj.part python)) := rfl
  have texts : (Node.pyToArray python
      (PyObj.node python (.list (items.map python.scalarToPy)))
        .string).result =
      .ok (((items.map python.scalarToPy).map (PyObj.part python)).map
        fun part => .string (python.text part.obj)) := by
    rw [Node.pyToArray, if_pos rfl]
    exact (Locking.result_bind_ok (Node.result_iterate parts) _).trans
      (Locking.result_each_map (fun _ => rfl) _)
  rw [Python.typedArrayToPy, if_pos rfl, PyObj.assign_eq, Node.assign,
    Node.assignPlain, Locking.result_bind_ok texts, List.map_map,
    List.map_map]
  rfl

/-- A string that Python keeps is the text of its Python form. -/
theorem Python.text_iff (lawful : python.Lawful) {value : ScalarValue}
    (typed : value.scalarType = .string) :
    .string (python.text (python.scalarToPy value)) = value ↔
      python.Keeps value := by
  cases value with
  | string text => simp [scalarToPy, Keeps, lawful.text_str]
  | _ => cases typed

theorem array_copied_iff (lawful : python.Lawful) {scalarType : ScalarType}
    {items : List ScalarValue}
    (typed : ∀ item ∈ items, item.scalarType = scalarType)
    (target : PvField) :
    ((python.typedArrayToPy scalarType items).assign python
        (.scalarArray scalarType) target).result =
      .ok (.scalarArrayTyped scalarType items) ↔
      Copyable python (.scalarArray scalarType)
        (.scalarArrayTyped scalarType items) := by
  by_cases string : scalarType = .string
  · subst string
    rw [assign_strings items]
    constructor
    · intro same
      have kept := List.map_inj_left.mp
        ((PvField.scalarArrayTyped.inj (Except.ok.inj same)).2.trans
          (List.map_id items).symm)
      apply Copyable.strings
      intro item member
      exact (Python.text_iff lawful (typed item member)).mp
        (kept item member)
    · intro copyable
      have kept : ∀ item ∈ items, python.Keeps item := by
        cases copyable with
        | numbers _ _ number => exact (number rfl).elim
        | strings _ kept => exact kept
      have same : items.map (fun item =>
          ScalarValue.string (python.text (python.scalarToPy item))) =
          items.map id := by
        apply List.map_inj_left.mpr
        intro item member
        exact (Python.text_iff lawful (typed item member)).mpr
          (kept item member)
      rw [same, List.map_id]
  · exact iff_of_true (assign_numbers lawful string typed target)
      (.numbers scalarType items string)

/-- Under distinct names an entry is the first one with its name. -/
theorem find?_of_mem {α : Type} {entries : List (Str × α)}
    (distinct : (entries.map Prod.fst).Nodup) {name : Str} {value : α}
    (member : (name, value) ∈ entries) :
    (entries.find? fun entry => entry.1 = name) = some (name, value) := by
  induction entries with
  | nil => cases member
  | cons entry rest induction =>
      obtain ⟨label, other⟩ := entry
      simp only [List.map_cons, List.nodup_cons] at distinct
      rcases List.mem_cons.mp member with here | later
      · cases here
        simp
      · have different : label ≠ name := by
          rintro rfl
          exact distinct.1 (List.mem_map.mpr ⟨_, later, rfl⟩)
        simp only [List.find?_cons, different, decide_false]
        exact induction distinct.2 later

namespace PvField

theorem named?_append {front : List (Str × PvField)} {name : Str}
    (absent : name ∉ front.map Prod.fst) (back : List (Str × PvField)) :
    named? (front ++ back) name = named? back name := by
  induction front with
  | nil => rfl
  | cons entry front induction =>
      obtain ⟨label, field⟩ := entry
      simp only [List.map_cons, List.mem_cons, not_or] at absent
      rw [List.cons_append, named?_cons, if_neg (Ne.symm absent.1)]
      exact induction absent.2

theorem putNamed_append {front : List (Str × PvField)} {name : Str}
    (absent : name ∉ front.map Prod.fst) (field : PvField)
    (back : List (Str × PvField)) :
    putNamed name field (front ++ back) =
      front ++ putNamed name field back := by
  induction front with
  | nil => rfl
  | cons entry front induction =>
      obtain ⟨label, other⟩ := entry
      simp only [List.map_cons, List.mem_cons, not_or] at absent
      rw [List.cons_append, putNamed, if_neg (Ne.symm absent.1),
        induction absent.2, List.cons_append]

theorem named?_front {front : List (Str × PvField)} {name : Str}
    (absent : name ∉ front.map Prod.fst) (field : PvField)
    (back : List (Str × PvField)) :
    named? (front ++ (name, field) :: back) name = some field := by
  rw [named?_append absent, named?_cons, if_pos rfl]

theorem putNamed_front {front : List (Str × PvField)} {name : Str}
    (absent : name ∉ front.map Prod.fst) (old new : PvField)
    (back : List (Str × PvField)) :
    putNamed name new (front ++ (name, old) :: back) =
      (front ++ [(name, new)]) ++ back := by
  rw [putNamed_append absent, putNamed, if_pos rfl, List.append_assoc,
    List.singleton_append]

/-- Names stay apart from those in front when the first one goes there. -/
theorem apart_front {front : List (Str × PvField)} {name : Str}
    {names : List Str}
    (apart : ∀ other ∈ name :: names, other ∉ front.map Prod.fst)
    (fresh : name ∉ names) (field : PvField) :
    ∀ other ∈ names, other ∉ (front ++ [(name, field)]).map Prod.fst := by
  intro other member inFront
  rw [List.map_append] at inFront
  rcases List.mem_append.mp inFront with early | last
  · exact apart other (List.mem_cons_of_mem _ member) early
  · rw [List.mem_singleton.mp last] at member
    exact fresh member

theorem named?_of_mem {fields : List (Str × PvField)}
    (distinct : (fields.map Prod.fst).Nodup) {name : Str} {field : PvField}
    (member : (name, field) ∈ fields) :
    named? fields name = some field := by
  rw [named?, find?_of_mem distinct member, Option.map_some]

end PvField

theorem FieldDesc.named?_of_mem {fields : List (Str × FieldDesc)}
    (distinct : (fields.map Prod.fst).Nodup) {name : Str} {desc : FieldDesc}
    (member : (name, desc) ∈ fields) :
    named? fields name = some desc := by
  rw [named?, find?_of_mem distinct member, Option.map_some]

/-- The members, the fields and the entries of a dict, side by side. -/
inductive Aligned (Related : FieldDesc → PvField → PyObj → Prop) :
    List (Str × FieldDesc) → List (Str × PvField) → List (Str × PyObj) →
      Prop where
  | nil : Aligned Related [] [] []
  | cons (name : Str) {desc : FieldDesc} {field : PvField} {obj : PyObj}
      {members : List (Str × FieldDesc)} {fields : List (Str × PvField)}
      {content : List (Str × PyObj)} :
      Related desc field obj → Aligned Related members fields content →
      Aligned Related ((name, desc) :: members) ((name, field) :: fields)
        ((name, obj) :: content)

section Aligned

variable {Related : FieldDesc → PvField → PyObj → Prop}
  {members : List (Str × FieldDesc)} {fields : List (Str × PvField)}
  {content : List (Str × PyObj)}

theorem Aligned.exists
    (names : fields.map Prod.fst = members.map Prod.fst)
    (related : ∀ member field, (member, field) ∈ members.zip fields →
      ∃ obj, Related member.2 field.2 obj) :
    ∃ content, Aligned Related members fields content := by
  induction members generalizing fields with
  | nil =>
      have none : fields = [] := List.map_eq_nil_iff.mp names
      exact ⟨[], none ▸ .nil⟩
  | cons member members induction =>
      obtain ⟨name, desc⟩ := member
      cases fields with
      | nil => cases names
      | cons entry fields =>
          obtain ⟨label, field⟩ := entry
          obtain ⟨rfl, rest⟩ := List.cons.inj names
          obtain ⟨obj, here⟩ := related _ _ List.mem_cons_self
          obtain ⟨content, aligned⟩ := induction rest
            fun member field inRest =>
              related member field (List.mem_cons_of_mem _ inRest)
          exact ⟨_, .cons label here aligned⟩

theorem Aligned.names (aligned : Aligned Related members fields content) :
    content.map Prod.fst = members.map Prod.fst := by
  induction aligned with
  | nil => rfl
  | cons name _ _ induction =>
      rw [List.map_cons, List.map_cons, induction]

theorem converters_eq (fields : List (Str × PvField)) :
    converters python fields =
      fields.map fun member => (member.1, toPy python true member.2) := by
  induction fields with
  | nil => rfl
  | cons entry rest induction =>
      rw [converters, induction, List.map_cons]

theorem find_converters (fields : List (Str × PvField)) (name : Str) :
    (converters python fields).find? (fun member => member.1 = name) =
      (PvField.named? fields name).map
        fun field => (name, toPy python true field) := by
  rw [converters_eq]
  exact Dict.find?_mapped _ fields name

theorem Aligned.dictOf (aligned : Aligned Related members fields content)
    (rendered : ∀ desc field obj, Related desc field obj →
      toPy python true field desc = .ok obj)
    {all : List (Str × PvField)}
    (found : ∀ name field, (name, field) ∈ fields →
      PvField.named? all name = some field) :
    dictOf (converters python all) members = .ok content := by
  induction aligned with
  | nil => rfl
  | cons name related _ induction =>
      have here := found name _ List.mem_cons_self
      have rest := induction fun label field member =>
        found label field (List.mem_cons_of_mem _ member)
      simp only [Pva.dictOf, find_converters, here, Option.map_some,
        rendered _ _ _ related, rest]

/-- The entries of a dict as parts of its node. -/
def entryParts (python : Python) (content : List (Str × PyObj)) :
    List (PyObj × Part) :=
  content.map fun entry => (.str entry.1, entry.2.part python)

theorem assignEntries_front {all : List (Str × FieldDesc)}
    (content : List (Str × PyObj)) {front back result : List (Str × PvField)}
    (apart : ∀ name ∈ content.map Prod.fst, name ∉ front.map Prod.fst)
    (ended : (Node.assignEntries all (entryParts python content)
      (front ++ back)).result = .ok result) :
    ∃ rest, result = front ++ rest := by
  induction content generalizing back with
  | nil => exact ⟨back, (Except.ok.inj ended).symm⟩
  | cons entry content induction =>
      obtain ⟨name, obj⟩ := entry
      have absent := apart name List.mem_cons_self
      have later : ∀ name ∈ content.map Prod.fst,
          name ∉ front.map Prod.fst := fun name member =>
        apart name (List.mem_cons_of_mem _ member)
      have text : (Locking.lift (PyObj.str name).extractText :
          Asking Str).result = .ok name := rfl
      simp only [entryParts, List.map_cons, Node.assignEntries] at ended
      rw [Locking.result_bind_ok text,
        PvField.named?_append absent] at ended
      split at ended
      · obtain ⟨field, -, restEnded⟩ :=
          (Locking.result_bind_ok_iff _ _ _).mp ended
        rw [PvField.putNamed_append absent] at restEnded
        exact induction later restEnded
      · cases ended

/-- The loop over the entries gives the fields that they come from exactly
when each entry gives its own. -/
theorem Aligned.assignEntries_iff {Back : FieldDesc → PvField → Prop}
    (aligned : Aligned Related members fields content)
    (back : ∀ desc field obj, Related desc field obj → ∀ target,
      PvField.Fits desc target →
        ((obj.assign python desc target).result = .ok field ↔
          Back desc field))
    {all : List (Str × FieldDesc)}
    (found : ∀ name desc, (name, desc) ∈ members →
      FieldDesc.named? all name = some desc)
    (distinct : (members.map Prod.fst).Nodup)
    {front old : List (Str × PvField)}
    (apart : ∀ name ∈ members.map Prod.fst, name ∉ front.map Prod.fst)
    (fits : PvField.FitMembers members old) :
    (Node.assignEntries all (entryParts python content)
        (front ++ old)).result = .ok (front ++ fields) ↔
      ∀ member field, (member, field) ∈ members.zip fields →
        Back member.2 field.2 := by
  induction aligned generalizing front old with
  | nil =>
      cases old with
      | cons => simp [PvField.FitMembers] at fits
      | nil => simp [entryParts, Node.assignEntries]
  | @cons name desc field obj members fields content related aligned
      induction =>
      cases old with
      | nil => simp [PvField.FitMembers] at fits
      | cons entry old =>
          obtain ⟨label, target⟩ := entry
          simp only [PvField.FitMembers] at fits
          obtain ⟨rfl, targetFits, restFits⟩ := fits
          simp only [List.map_cons, List.nodup_cons] at distinct
          have absent := apart label List.mem_cons_self
          have here := found label desc List.mem_cons_self
          have targetFound := PvField.named?_front absent target old
          have put (new : PvField) :=
            PvField.putNamed_front absent target new old
          have later (new : PvField) :=
            PvField.apart_front apart distinct.1 new
          have rest := induction
            (fun name desc member =>
              found name desc (List.mem_cons_of_mem _ member))
            distinct.2 (later field) restFits
          have whole (new : PvField) :
              front ++ (label, new) :: fields =
                (front ++ [(label, new)]) ++ fields := by
            rw [List.append_assoc, List.singleton_append]
          simp only [entryParts, List.map_cons]
          rw [Node.assignEntries_cons rfl here targetFound,
            Locking.result_bind_ok_iff]
          simp only [List.zip_cons_cons, List.mem_cons, put]
          constructor
          · rintro ⟨new, newEnded, restEnded⟩
            have same : field = new := by
              obtain ⟨others, equal⟩ := assignEntries_front content
                (by rw [aligned.names]; exact later new) restEnded
              rw [List.append_assoc] at equal
              have cons := List.append_cancel_left equal
              exact (Prod.mk.inj (List.cons.inj cons).1).2
            subst same
            rw [whole field] at restEnded
            rintro member other (here | inRest)
            · obtain ⟨rfl, rfl⟩ := Prod.mk.inj here
              exact (back desc field obj related target targetFits).mp
                newEnded
            · exact rest.mp restEnded member other inRest
          · intro copied
            refine ⟨field, ?_, ?_⟩
            · exact (back desc field obj related target targetFits).mpr
                (copied _ _ (.inl rfl))
            · rw [whole field]
              exact rest.mpr fun member other inRest =>
                copied member other (.inr inRest)

end Aligned

theorem findVariant_some {accepts : Str → FieldDesc → Bool}
    {variants : List (Str × FieldDesc)} {index : Nat} {name : Str}
    {desc : FieldDesc}
    (found : findVariant accepts variants = some (index, name, desc)) :
    variants[index]? = some (name, desc) ∧ accepts name desc = true := by
  obtain ⟨⟨⟨label, other⟩, number⟩, first, same⟩ :=
    Option.map_eq_some_iff.mp found
  cases same
  have accepted := List.find?_some first
  exact ⟨List.mem_zipIdx_iff_getElem?.mp (List.mem_of_find?_eq_some first),
    accepted⟩

theorem findVariant_none {accepts : Str → FieldDesc → Bool}
    (never : ∀ name desc, accepts name desc = false)
    (variants : List (Str × FieldDesc)) :
    findVariant accepts variants = none := by
  apply Option.map_eq_none_iff.mpr
  apply List.find?_eq_none.mpr
  rintro ⟨⟨name, desc⟩, index⟩ - accepted
  rw [never] at accepted
  cases accepted

theorem accepts_plain {wanted : Option FieldDesc} {desc : FieldDesc}
    (accepted : accepts wanted desc = true) : desc.IsPlain := by
  cases desc with
  | scalar _ => trivial
  | scalarArray _ => trivial
  | struct _ _ => trivial
  | _ => simp [accepts] at accepted

theorem acceptsLoosely_plain {wanted : Option FieldDesc} {desc : FieldDesc}
    (accepted : acceptsLoosely wanted desc = true) : desc.IsPlain := by
  cases desc with
  | scalar _ => trivial
  | scalarArray _ => trivial
  | struct _ _ => trivial
  | _ => simp [acceptsLoosely] at accepted

/-- A union picks scalars, arrays of scalars and structures only. -/
theorem memberFor_some {variants : List (Str × FieldDesc)}
    {wanted : Option FieldDesc} {index : Nat} {name : Str}
    {desc : FieldDesc}
    (chosen : memberFor variants wanted = some (index, name, desc)) :
    variants[index]? = some (name, desc) ∧ desc.IsPlain := by
  rcases Option.or_eq_some_iff.mp chosen with first | ⟨-, second⟩
  · obtain ⟨member, accepted⟩ := findVariant_some first
    exact ⟨member, accepts_plain accepted⟩
  · obtain ⟨member, accepted⟩ := findVariant_some second
    exact ⟨member, acceptsLoosely_plain accepted⟩

theorem memberFor_none (variants : List (Str × FieldDesc)) :
    memberFor variants none = none := by
  have strict : findVariant (fun _ => accepts none) variants = none :=
    findVariant_none (fun _ _ => rfl) variants
  have loose : findVariant (fun _ => acceptsLoosely none) variants = none :=
    findVariant_none (fun _ _ => rfl) variants
  rw [memberFor, strict, loose, Option.none_or]

theorem inferDesc_plain {obj : PyObj} {desc : FieldDesc}
    (inferred : (inferDesc python obj).result = .ok (some desc)) :
    desc.IsPlain := by
  cases obj with
  | none => cases inferred
  | tuple _ => cases inferred
  | dict _ => cases inferred
  | value _ _ _ _ =>
      cases inferred
      trivial
  | other implied _ _ _ =>
      cases implied with
      | none => cases inferred
      | some implied =>
          cases implied <;> cases inferred <;> trivial
  | _ =>
      cases inferred
      trivial

theorem pickUnionVariant_iff {variants : List (Str × FieldDesc)}
    {obj : PyObj} {picked : Nat × Str × FieldDesc} :
    (pickUnionVariant python variants obj).result = .ok picked ↔
      ∃ wanted, (inferDesc python obj).result = .ok wanted ∧
        memberFor variants wanted = some picked := by
  rw [pickUnionVariant, Locking.result_bind_ok_iff]
  constructor
  · rintro ⟨wanted, inferred, ended⟩
    refine ⟨wanted, inferred, ?_⟩
    cases chosen : memberFor variants wanted with
    | some found =>
        rw [chosen] at ended
        rw [Except.ok.inj ended]
    | none =>
        have notDict : obj.isDict = false := by
          cases obj with
          | dict _ => cases inferred
          | _ => rfl
        have nothing : findVariant (fun _ desc =>
            obj.isDict && decide desc.IsStructure) variants = none :=
          findVariant_none (fun _ _ => by rw [notDict, Bool.false_and])
            variants
        simp only [chosen, nothing] at ended
        cases ended
  · rintro ⟨wanted, inferred, chosen⟩
    refine ⟨wanted, inferred, ?_⟩
    rw [chosen]
    rfl

theorem Node.assign_plain {desc : FieldDesc} (plain : desc.IsPlain)
    (node : Node) (target : PvField) :
    node.assign python desc target =
      node.assignPlain python desc target := by
  cases desc with
  | scalar _ => rfl
  | scalarArray _ => rfl
  | struct _ _ => rfl
  | _ => cases plain

theorem PyObj.buildPlain_eq {desc : FieldDesc} (plain : desc.IsPlain)
    (obj : PyObj) :
    (obj.node python).buildPlain python desc =
      obj.assign python desc (python.defaultValueFor desc) := by
  rw [PyObj.assign_eq, Node.assign_plain plain, Node.buildPlain]

theorem variant_built_iff {obj : PyObj} {desc : FieldDesc}
    {value : PvField} (target : PvField) :
    (obj.assign python .variant target).result =
        .ok (.variant (some desc) value) ↔
      (inferDesc python obj).result = .ok (some desc) ∧
        (obj.assign python desc (python.defaultValueFor desc)).result =
          .ok value := by
  have node : obj.assign python .variant target =
      (obj.node python).buildVariant python := by
    rw [PyObj.assign_eq, Node.assign]
  rw [node, Node.buildVariant, PyObj.node_obj, Locking.result_bind_ok_iff]
  constructor
  · rintro ⟨inferred, inferredEnded, ended⟩
    cases inferred with
    | none => cases ended
    | some other =>
        obtain ⟨built, builtEnded, same⟩ :=
          (Locking.result_bind_ok_iff _ _ _).mp ended
        rw [PyObj.buildPlain_eq (inferDesc_plain inferredEnded)] at builtEnded
        cases same
        exact ⟨inferredEnded, builtEnded⟩
  · rintro ⟨inferred, built⟩
    refine ⟨some desc, inferred, ?_⟩
    refine (Locking.result_bind_ok_iff _ _ _).mpr ⟨value, ?_, rfl⟩
    rw [PyObj.buildPlain_eq (inferDesc_plain inferred)]
    exact built

theorem Node.buildUnion_eq {node : Node} (some : node.obj.isNone = false)
    (single : node.obj.isTuple = false) (variants : List (Str × FieldDesc)) :
    node.buildUnion python variants = (do
      let (index, name, desc) ← pickUnionVariant python variants node.obj
      let value ← node.buildPlain python desc
      pure (.union index name value)) := by
  obtain ⟨obj, items, entries⟩ := node
  cases obj with
  | none => cases some
  | tuple _ => cases single
  | _ => rfl

theorem PyObj.buildUnion_eq {obj : PyObj} (some : obj.isNone = false)
    (single : obj.isTuple = false) (variants : List (Str × FieldDesc)) :
    (obj.node python).buildUnion python variants = (do
      let (index, name, desc) ← pickUnionVariant python variants obj
      let value ← (obj.node python).buildPlain python desc
      pure (.union index name value)) := by
  rw [← PyObj.node_obj python obj] at some single
  rw [Node.buildUnion_eq some single, PyObj.node_obj]

/-- A selected member is stored again when it is the one chosen. -/
theorem union_built_iff {obj : PyObj} (single : obj.isTuple = false)
    {structId : Str} {variants : List (Str × FieldDesc)} {selector : Int}
    {name : Str} {desc : FieldDesc} {value : PvField}
    (selected : variantAt variants selector = some (name, desc))
    (target : PvField) :
    (obj.assign python (.union structId variants) target).result =
        .ok (.union selector name value) ↔
      ∃ implied index, (inferDesc python obj).result = .ok (some implied) ∧
        memberFor variants (some implied) = some (index, name, desc) ∧
          selector = index ∧
            (obj.assign python desc (python.defaultValueFor desc)).result =
              .ok value := by
  have node : obj.assign python (.union structId variants) target =
      (obj.node python).buildUnion python variants := by
    rw [PyObj.assign_eq, Node.assign]
  rw [node]
  cases isNone : obj.isNone with
  | true =>
      cases obj with
      | none =>
          constructor
          · intro ended
            cases ended
            cases selected
          · rintro ⟨_, _, inferred, -⟩
            cases inferred
      | _ => cases isNone
  | false =>
      rw [PyObj.buildUnion_eq isNone single, Locking.result_bind_ok_iff]
      constructor
      · rintro ⟨⟨index, label, other⟩, picked, ended⟩
        obtain ⟨wanted, inferred, chosen⟩ := pickUnionVariant_iff.mp picked
        obtain ⟨member, plain⟩ := memberFor_some chosen
        obtain ⟨built, builtEnded, same⟩ :=
          (Locking.result_bind_ok_iff _ _ _).mp ended
        rw [PyObj.buildPlain_eq plain] at builtEnded
        cases same
        have sameMember : some (name, other) = some (name, desc) :=
          member.symm.trans selected
        cases sameMember
        cases wanted with
        | none =>
            rw [memberFor_none] at chosen
            cases chosen
        | some implied =>
            exact ⟨implied, index, inferred, chosen, rfl, builtEnded⟩
      · rintro ⟨implied, index, inferred, chosen, rfl, built⟩
        obtain ⟨member, plain⟩ := memberFor_some chosen
        refine ⟨(index, name, desc), ?_, ?_⟩
        · exact pickUnionVariant_iff.mpr ⟨some implied, inferred, chosen⟩
        · refine (Locking.result_bind_ok_iff _ _ _).mpr ⟨value, ?_, rfl⟩
          rw [PyObj.buildPlain_eq plain]
          exact built

/-- The Python form of an array implies its type, but an empty list of strings
implies numbers. -/
theorem inferDesc_array {scalarType : ScalarType} {items : List ScalarValue}
    (typed : ∀ item ∈ items, item.scalarType = scalarType) :
    (inferDesc python (python.typedArrayToPy scalarType items)).result =
      .ok (impliedType false (.scalarArray scalarType)
        (.scalarArrayTyped scalarType items)) := by
  by_cases string : scalarType = .string
  · subst string
    have strings : (items.map python.scalarToPy).all PyObj.isStr = true := by
      rw [List.all_eq_true]
      intro obj member
      obtain ⟨item, itemMember, rfl⟩ := List.mem_map.mp member
      have itemTyped := typed item itemMember
      cases item with
      | string text => rfl
      | _ => cases itemTyped
    rw [Python.typedArrayToPy, if_pos rfl]
    cases items with
    | nil => rfl
    | cons item rest =>
        have some : (item :: rest).map python.scalarToPy ≠ [] := by simp
        rw [inferDesc, if_pos ⟨some, strings⟩]
        rfl
  · rw [Python.typedArrayToPy, if_neg string]
    simp [inferDesc, impliedType, string]

theorem inferDesc_toPy {plain : Bool} {desc : FieldDesc} {field : PvField}
    (typed : HasType desc field) (isPlain : desc.IsPlain)
    (copyable : Copyable python desc field) {obj : PyObj}
    (rendered : toPy python plain field desc = .ok obj)
    (implied : FieldDesc) :
    (inferDesc python obj).result = .ok (some implied) ↔
      impliedType (!plain) desc field = some implied := by
  cases typed with
  | scalar value =>
      rw [toPy] at rendered
      cases rendered
      cases value <;>
        simp [Python.scalarToPy, inferDesc, impliedType, ScalarValue.scalarType,
          ScalarType.implied]
  | scalarArrayTyped scalarType items typed =>
      rw [toPy] at rendered
      cases rendered
      rw [inferDesc_array typed, Except.ok.injEq]
      rfl
  | struct structId members fields distinct names typed =>
      rw [toPy] at rendered
      cases made : dictOf (converters python fields) members with
      | error error =>
          rw [made] at rendered
          cases rendered
      | ok content =>
          rw [made] at rendered
          cases rendered
          cases plain with
          | true =>
              constructor <;> intro impossible <;> cases impossible
          | false =>
              have inferred : (inferDesc python
                  (structForm false structId members content)).result =
                  .ok (some (.struct structId members)) := rfl
              rw [inferred, Except.ok.injEq]
              rfl
  | scalarArray scalarType items => cases copyable
  | _ => cases isPlain

end Repics.Pva
