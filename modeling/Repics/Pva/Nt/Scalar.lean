import Repics.Pva.Client.EnumChoices
import Repics.Pva.Nt
import Repics.Pva.Value.Spec
import Repics.Pva.Value.Variant

/-!
# Scalars and enumerations

`NTScalar` and `NTEnum` read their payload with the metadata beside it, and
assign the payload alone.  A payload comes back as it was read unless it is in
variants, where the type is inferred anew.
-/

namespace Repics.Pva.Nt

/-- An attribute: a `Value`, or any other object. -/
inductive Attribute where
  | value (V : Handle)
  | obj (obj : PyObj)

/-- The keywords of `buildType`. -/
structure Flags where
  display : Bool
  control : Bool
  valueAlarm : Bool
  form : Bool

/-- `valtype[-1:]` -/
def lastCode (valtype : Str) : Str :=
  valtype.drop (valtype.length - 1)

/-- `valtype[-1:] not in "?su"` -/
def isnumeric (valtype : Str) : Bool :=
  decide (lastCode valtype ∉ ["", "?", "s", "u"].map String.toList)

def displayMembers (limit : FieldDesc) (numeric form : Bool) :
    List (Str × FieldDesc) :=
  if numeric && form then
    [("limitLow".toList, limit), ("limitHigh".toList, limit),
      ("description".toList, .scalar .string),
      ("precision".toList, .scalar .int),
      ("form".toList, .struct "enum_t".toList
        [("index".toList, .scalar .int),
          ("choices".toList, .scalarArray .string)]),
      ("units".toList, .scalar .string)]
  else if numeric then
    [("limitLow".toList, limit), ("limitHigh".toList, limit),
      ("description".toList, .scalar .string),
      ("format".toList, .scalar .string), ("units".toList, .scalar .string)]
  else
    [("description".toList, .scalar .string),
      ("units".toList, .scalar .string)]

def controlMembers (limit : FieldDesc) : List (Str × FieldDesc) :=
  [("limitLow".toList, limit), ("limitHigh".toList, limit),
    ("minStep".toList, limit)]

def valueAlarmMembers (limit : FieldDesc) : List (Str × FieldDesc) :=
  [("active".toList, .scalar .boolean), ("lowAlarmLimit".toList, limit),
    ("lowWarningLimit".toList, limit), ("highWarningLimit".toList, limit),
    ("highAlarmLimit".toList, limit),
    ("lowAlarmSeverity".toList, .scalar .int),
    ("lowWarningSeverity".toList, .scalar .int),
    ("highWarningSeverity".toList, .scalar .int),
    ("highAlarmSeverity".toList, .scalar .int),
    ("hysteresis".toList, .scalar .double)]

def metaHelper (valtype : Str) (flags : Flags) :
    Except SpecErr (List (Str × FieldDesc)) := do
  let limit ← codeDesc (lastCode valtype)
  let numeric := isnumeric valtype
  let member (wanted : Bool) (name : Str) (members : List (Str × FieldDesc)) :
      List (Str × FieldDesc) :=
    if wanted then [(name, .struct [] members)] else []
  .ok (member flags.display "display".toList
      (displayMembers limit numeric flags.form) ++
    member (flags.control && numeric) "control".toList
      (controlMembers limit) ++
    member (flags.valueAlarm && numeric) "valueAlarm".toList
      (valueAlarmMembers limit))

def NTScalar.buildType (valtype : Str) (extra : List (Str × FieldDesc))
    (flags : Flags) : Except SpecErr FieldDesc := do
  let value ← codeDesc valtype
  let metadata ← metaHelper valtype flags
  let structId := if valtype.head? = some 'a'
    then "epics:nt/NTScalarArray:1.0" else "epics:nt/NTScalar:1.0"
  .ok (.struct structId.toList ([("value".toList, value),
    ("alarm".toList, alarm), ("timeStamp".toList, timeStamp)] ++ metadata ++
      extra))

def NTEnum.enumMembers : List (Str × FieldDesc) :=
  [("index".toList, .scalar .int), ("choices".toList, .scalarArray .string)]

def NTEnum.buildType (extra : List (Str × FieldDesc)) (flags : Flags) :
    Except SpecErr FieldDesc := do
  let metadata ← metaHelper "i".toList { flags with form := false }
  .ok (.struct "epics:nt/NTEnum:1.0".toList
    ([("value".toList, .struct "enum_t".toList NTEnum.enumMembers),
      ("alarm".toList, alarm), ("timeStamp".toList, timeStamp)] ++ metadata ++
      extra))

/-- `V.get(key)`: `None` where there is no such field, and a view of a
structure. -/
def getOr (python : Python) (V : Root) (key : Str) :
    Except PyErr Attribute :=
  match descAt V.desc key, fieldAt V.field key with
  | some (.struct _ _), some _ => .ok (.value ⟨0, V, key⟩)
  | some desc, some field => (toPy python false field desc).map .obj
  | _, _ => .ok (.obj .none)

/-- The metadata of an augmented value that a structure carries. -/
structure ScalarMeta where
  status : Int
  severity : Int
  stamp : Stamp
  units : Attribute
  precision : Attribute
  lowerDispLimit : Attribute
  upperDispLimit : Attribute
  lowerCtrlLimit : Attribute
  upperCtrlLimit : Attribute
  lowerAlarmLimit : Attribute
  upperAlarmLimit : Attribute
  lowerWarningLimit : Attribute
  upperWarningLimit : Attribute

/-- `V.get(front + "." + key)` if there is a member `front`. -/
def metaEntry (python : Python) (V : Root) (front key : Str) :
    Except PyErr Attribute :=
  if (descAt V.desc front).isSome then getOr python V (join front key)
  else .ok (.obj .none)

def scalarMeta (python : Python) (V : Root) : Except PyErr ScalarMeta := do
  let entry := fun front key =>
    metaEntry python V (String.toList front) (String.toList key)
  let units ← entry "display" "units"
  let precision ← entry "display" "precision"
  let lowerDispLimit ← entry "display" "limitLow"
  let upperDispLimit ← entry "display" "limitHigh"
  let lowerCtrlLimit ← entry "control" "limitLow"
  let upperCtrlLimit ← entry "control" "limitHigh"
  let lowerAlarmLimit ← entry "valueAlarm" "lowAlarmLimit"
  let upperAlarmLimit ← entry "valueAlarm" "highAlarmLimit"
  let lowerWarningLimit ← entry "valueAlarm" "lowWarningLimit"
  let upperWarningLimit ← entry "valueAlarm" "highWarningLimit"
  .ok {
    status := intAt V "alarm.status".toList
    severity := intAt V "alarm.severity".toList
    stamp := stampOf V
    units, precision, lowerDispLimit, upperDispLimit, lowerCtrlLimit,
    upperCtrlLimit, lowerAlarmLimit, upperAlarmLimit, lowerWarningLimit,
    upperWarningLimit }

namespace NTScalar

/-- What `unwrap` gives: the payload as an augmented object. -/
structure Unwrapped where
  payload : PyObj
  datatype : Str
  elementCount : Nat
  metadata : ScalarMeta

def codeNames : List (Str × Str) :=
  [("?", "boolean"), ("b", "byte"), ("B", "ubyte"), ("h", "short"),
    ("H", "ushort"), ("i", "int"), ("I", "uint"), ("l", "long"),
    ("L", "ulong"), ("f", "float"), ("d", "double"), ("s", "string")].map
    fun entry => (entry.1.toList, entry.2.toList)

/-- `V.type(key)` of a member whose type has a code. -/
def typeCode (V : Root) (key : Str) : Except PyErr Str :=
  match descAt V.desc key with
  | none => .error (.noSuchField key)
  | some desc =>
      match descToPy desc with
      | .str code => .ok code
      | _ => .error (.conversion "cannot unwrap a value field".toList)

/-- The augmented classes; a `bool` becomes an `int`. -/
def augment : PyObj → Except PyErr PyObj
  | .bool bit => .ok (.int (if bit then 1 else 0))
  | .int number => .ok (.int number)
  | .float bits => .ok (.float bits)
  | .str text => .ok (.str text)
  | .list items => .ok (.list items)
  | .array scalarType items => .ok (.array scalarType items)
  | _ => .error (.conversion "unexpected payload type".toList)

/-- `len(payload)` -/
def lengthOf : PyObj → Except PyErr Nat
  | .str text => .ok text.length
  | .list items => .ok items.length
  | .array _ items => .ok items.length
  | _ => .error (.conversion "object has no len()".toList)

/-- The payload of an array, where a null one counts as empty. -/
def arrayPayload (code : Str) : PyObj → PyObj
  | .none => if code = "as".toList then .list [] else .array .double []
  | payload => payload

/-- The augmented payload of a field of the code, and its number of
elements. -/
def payloadOf (code : Str) (payload : PyObj) : Except PyErr (PyObj × Nat) :=
  if code.head? = some 'a' then do
    let payload := arrayPayload code payload
    let elementCount ← lengthOf payload
    let payload ← augment payload
    .ok (payload, elementCount)
  else do
    let payload ← augment payload
    .ok (payload, 1)

def unwrap (python : Python) (V : Root) : Except PyErr Unwrapped := do
  let payload ← V.get python "value".toList
  let code ← typeCode V "value".toList
  let metadata ← scalarMeta python V
  let datatype := (codeNames.lookup (lastCode code)).getD "structure".toList
  let (payload, elementCount) ← payloadOf code payload
  .ok { payload, datatype, elementCount, metadata }

/-- A payload in variants is restored. -/
def Restored (python : Python) : FieldDesc → PyObj → Prop
  | .variant, payload => payload.Restored python
  | .variantArray, .list items => ∀ item ∈ items, item.Restored python
  | _, _ => True

/-- A dict assigns each key, anything else the payload. -/
def assign (lib : PvData) (python : Python) (V : Root) :
    PyObj → Except PyErr Root
  | .dict entries => do
      let items ← entries.mapM fun entry =>
        entry.1.extractText.map fun key => (key, entry.2)
      setItems lib python.conversions V items
  | py => setItems lib python.conversions V [("value".toList, py)]

end NTScalar

namespace NTEnum

/-- The strings of a list of `str`. -/
def texts : PyObj → Option (List String)
  | .none => some []
  | .list items => items.mapM fun item =>
      match item with
      | .str text => some (String.ofList text)
      | _ => none
  | _ => none

/-- What the helper reads of a value; the index stands for the metadata
too. -/
def enumValue (lib : PvData) (python : Python) (V : Root) :
    Client.EnumValue where
  changed := (V.changed lib [] ["value.choices".toList]).toOption
  choices := (V.get python "value.choices".toList).toOption.bind texts
  index :=
    match V.get python "value.index".toList, scalarMeta python V with
    | .ok (.int index), .ok _ => some index
    | _, _ => none

/-- The choices remembered afterwards, and the outcome. -/
def unwrap (lib : PvData) (python : Python) (remembered : List String)
    (V : Root) : List String × Option Client.Ntenum :=
  Client.NTEnum.unwrap remembered (enumValue lib python V)

/-- What `unwrap` returns. -/
def unwrapped (lib : PvData) (python : Python) (remembered : List String)
    (V : Root) : Except PyErr Client.Ntenum :=
  match (unwrap lib python remembered V).2 with
  | some out => .ok out
  | none => .error (.conversion "cannot unwrap".toList)

/-- An `ntenum` is put as the number that it is. -/
def assign (lib : PvData) (python : Python) (parse : String → Option Int)
    (remembered : List String) (V : Root) (obj : Client.PutObj) :
    Except PyErr Root :=
  match Client.NTEnum.assign parse remembered (enumValue lib python V) obj with
  | some index =>
      setItems lib python.conversions V
        [("value.index".toList, .int index)]
  | none => .error (.conversion "invalid literal for int()".toList)

end NTEnum

/-- What holds of every value of a type: its structures have the members of
the type, and its leaves are of their types.  An array without a type of its
own has elements of one type. -/
structure IsValue (V : Root) : Prop where
  fits : PvField.Fits V.desc V.field
  typed : ∀ path desc field, V.desc.atPath? path = some desc →
    ¬desc.IsStructure → V.field.atPath? path = some field →
      HasType desc field
  uniform : ∀ path scalarType items,
    V.desc.atPath? path = some (.scalarArray scalarType) →
      V.field.atPath? path = some (.scalarArray items) →
        ∀ item ∈ items, item.scalarType = scalarType

theorem IsValue.of_copy {python : Python} {V : Root}
    (copy : IsCopy python V.desc V.field) : IsValue V where
  fits := copy.typed.fits
  typed path desc field found _ read := (copy.atPath? found read).typed
  uniform path scalarType items found read := by
    cases (copy.atPath? found read).copyable

section Read

variable {python : Python} {V next : Root}

theorem IsValue.leaf (value : IsValue V) {path : List Str} {desc : FieldDesc}
    (found : V.desc.atPath? path = some desc) (leaf : ¬desc.IsStructure) :
    ∃ field, V.field.atPath? path = some field ∧ HasType desc field := by
  obtain ⟨field, read, -⟩ := value.fits.atPath? found
  exact ⟨field, read, value.typed path desc field found leaf read⟩

theorem get_dotted {path : List Str} (named : ∀ name ∈ path, MemberName name)
    {desc : FieldDesc} (found : V.desc.atPath? path = some desc)
    (leaf : ¬desc.IsStructure) {field : PvField}
    (read : V.field.atPath? path = some field) :
    V.get python (dotted path) = toPy python false field desc :=
  @Handle.item_leaf python ⟨0, V, []⟩ (dotted path) path rfl named desc found
    leaf field read

/-- The root with another field at a path. -/
abbrev replaced (V : Root) (path : List Str) (field : PvField)
    (marks : BitSet) : Root :=
  { V with field := V.field.putAt path field, marks }

/-- Another root has the same type, and the same fields outside a member. -/
structure SameBeside (member : Str) (V next : Root) : Prop where
  desc : next.desc = V.desc
  field : ∀ name rest, name ≠ member →
    next.field.atPath? (name :: rest) = V.field.atPath? (name :: rest)

theorem SameBeside.put (V : Root) (member : Str) (rest : List Str)
    (field : PvField) (marks : BitSet) :
    SameBeside member V (replaced V (member :: rest) field marks) where
  desc := rfl
  field name others apart := by
    apply PvField.atPath?_putAt_beside
    · intro above
      exact apart (List.cons_prefix_cons.mp above).1.symm
    · intro below
      exact apart (List.cons_prefix_cons.mp below).1

variable {member : Str}

theorem SameBeside.metaEntry_ok (lawful : python.Lawful) (value : IsValue V)
    (beside : SameBeside member V next) {front key : Str}
    (frontNamed : MemberName front) (keyNamed : MemberName key)
    (apart : front ≠ member) :
    ∃ entry, metaEntry python next front key = .ok entry := by
  have named : ∀ name ∈ [front, key], MemberName name := by
    simp [frontNamed, keyNamed]
  have path : join front key = dotted [front, key] := by
    have joined := @join_dotted_name [front] key (by simpa using frontNamed)
      keyNamed
    rwa [dotted, Separated.render_singleton] at joined
  rw [metaEntry]
  split
  · rw [getOr, path, descAt_dotted _ named, fieldAt_dotted _ named,
      beside.desc, beside.field front [key] apart]
    cases found : V.desc.atPath? [front, key] with
    | none => exact ⟨_, rfl⟩
    | some desc =>
        by_cases leaf : desc.IsStructure
        · obtain ⟨field, read, -⟩ := value.fits.atPath? found
          cases desc with
          | struct _ _ => exact ⟨_, by rw [read]⟩
          | _ => cases leaf
        · obtain ⟨field, read, typed⟩ := value.leaf found leaf
          obtain ⟨obj, form⟩ := typed.renders lawful false
          refine ⟨.obj obj, ?_⟩
          rw [read]
          cases desc with
          | struct _ _ => exact (leaf trivial).elim
          | _ => exact congrArg (Except.map Attribute.obj) form.rendered
  · exact ⟨_, rfl⟩

theorem SameBeside.scalarMeta_ok (lawful : python.Lawful) (value : IsValue V)
    (beside : SameBeside "value".toList V next) :
    ∃ metadata, scalarMeta python next = .ok metadata := by
  have entry (front key : String) (valid : MemberName front.toList ∧
      MemberName key.toList ∧ front.toList ≠ "value".toList) :
      ∃ entry, metaEntry python next front.toList key.toList = .ok entry :=
    beside.metaEntry_ok lawful value valid.1 valid.2.1 valid.2.2
  have display (key : String) (valid : MemberName key.toList) :=
    entry "display" key ⟨by simp [Separated.IsKey], valid, by simp⟩
  have control (key : String) (valid : MemberName key.toList) :=
    entry "control" key ⟨by simp [Separated.IsKey], valid, by simp⟩
  have valueAlarm (key : String) (valid : MemberName key.toList) :=
    entry "valueAlarm" key ⟨by simp [Separated.IsKey], valid, by simp⟩
  obtain ⟨_, units⟩ := display "units" (by simp [Separated.IsKey])
  obtain ⟨_, precision⟩ := display "precision" (by simp [Separated.IsKey])
  obtain ⟨_, lowDisp⟩ := display "limitLow" (by simp [Separated.IsKey])
  obtain ⟨_, highDisp⟩ := display "limitHigh" (by simp [Separated.IsKey])
  obtain ⟨_, lowCtrl⟩ := control "limitLow" (by simp [Separated.IsKey])
  obtain ⟨_, highCtrl⟩ := control "limitHigh" (by simp [Separated.IsKey])
  obtain ⟨_, lowAlarm⟩ :=
    valueAlarm "lowAlarmLimit" (by simp [Separated.IsKey])
  obtain ⟨_, highAlarm⟩ :=
    valueAlarm "highAlarmLimit" (by simp [Separated.IsKey])
  obtain ⟨_, lowWarning⟩ :=
    valueAlarm "lowWarningLimit" (by simp [Separated.IsKey])
  obtain ⟨_, highWarning⟩ :=
    valueAlarm "highWarningLimit" (by simp [Separated.IsKey])
  simp only [scalarMeta, bind, Except.bind, units, precision, lowDisp,
    highDisp, lowCtrl, highCtrl, lowAlarm, highAlarm, lowWarning,
    highWarning]
  exact ⟨_, rfl⟩

end Read

section Put

variable {lib : PvData} {python : Python} {V : Root}

theorem assign_failed {desc : FieldDesc} (leaf : ¬desc.IsStructure)
    {obj : PyObj} {error : PyErr}
    (converted : python.conversions.convert desc obj = .error error)
    (bit : Nat) (target : PvField) (marks : BitSet) :
    Pva.assign lib python.conversions desc bit target obj marks =
      ⟨target, marks, some error⟩ := by
  cases desc with
  | struct _ _ => exact (leaf trivial).elim
  | _ => simp only [Pva.assign, converted]

/-- A leaf that takes an object has what is built from it, and is marked. -/
theorem putLeaf_iff (lawful : lib.Lawful) {path : List Str}
    (named : ∀ name ∈ path, MemberName name) {desc : FieldDesc}
    (found : V.desc.atPath? path = some desc) (leaf : ¬desc.IsStructure)
    {target : PvField} (read : V.field.atPath? path = some target)
    (obj : PyObj) (next : Root) :
    setItems lib python.conversions V [(dotted path, obj)] = .ok next ↔
      ∃ field, (obj.assign python desc target).result = .ok field ∧
        next = replaced V path field
          (insert ((lib.bitForPath V.desc (dotted path)).getD 0) V.marks) := by
  rw [PyObj.assign_result lawful desc
    ((lib.bitForPath V.desc (dotted path)).getD 0) target obj V.marks]
  simp only [setItems, Root.setItem, Root.assignAt, join, if_true,
    descAt_dotted _ named, fieldAt_dotted _ named, found, read,
    Separated.segments_render named, Outcome.result]
  cases converted : python.conversions.convert desc obj with
  | error error =>
      simp [assign_failed leaf converted]
  | ok field =>
      simp [Root.assign_leaf leaf converted, eq_comm]

end Put

/-- Assigning what was read succeeds, marks a field if it is not empty, and
what is read then is the same. -/
def PutsBack {Out : Type} (assign : Root → Out → Except PyErr Root)
    (unwrap : Root → Except PyErr Out) (IsEmpty : Out → Prop)
    (Same : Out → Out → Prop) (x : Out) (V : Root) : Prop :=
  ∃ next back, assign V x = .ok next ∧ (¬IsEmpty x → next.marks ≠ ∅) ∧
    unwrap next = .ok back ∧ Same x back

namespace NTScalar

variable {lib : PvData} {python : Python} {V : Root}

theorem unwrap_iff {desc : FieldDesc} {code : Str}
    (found : V.desc.atPath? ["value".toList] = some desc)
    (coded : descToPy desc = .str code) {metadata : ScalarMeta}
    (readable : scalarMeta python V = .ok metadata) (payload : PyObj) :
    (∃ out, unwrap python V = .ok out ∧ out.payload = payload) ↔
      ∃ obj count, V.get python "value".toList = .ok obj ∧
        payloadOf code obj = .ok (payload, count) := by
  have named : ∀ name ∈ ["value".toList], MemberName name := by
    simp [Separated.IsKey]
  have type : descAt V.desc "value".toList = some desc := by
    have at_ := descAt_dotted V.desc named
    rw [dotted, Separated.render_singleton] at at_
    exact at_.trans found
  simp only [unwrap, typeCode, type, coded, readable, bind, Except.bind]
  cases V.get python "value".toList with
  | error error => simp
  | ok obj =>
      cases paid : payloadOf code obj with
      | error error => simp [paid]
      | ok both =>
          obtain ⟨other, count⟩ := both
          simp [paid]

theorem augment_payloadOf {code : Str} (single : code.head? ≠ some 'a')
    (obj payload : PyObj) :
    (∃ count, payloadOf code obj = .ok (payload, count)) ↔
      augment obj = .ok payload := by
  rw [payloadOf, if_neg single]
  cases augment obj with
  | error error => simp [bind, Except.bind]
  | ok other => simp [bind, Except.bind]

theorem sequence_payloadOf {code : Str} (array : code.head? = some 'a')
    {obj : PyObj} {items : List PyObj}
    (sequence : obj.sequence? python = some items) (payload : PyObj) :
    (∃ count, payloadOf code obj = .ok (payload, count)) ↔
      obj = payload := by
  rw [payloadOf, if_pos array]
  cases obj with
  | list _ => simp [bind, Except.bind, arrayPayload, lengthOf, augment]
  | array _ _ => simp [bind, Except.bind, arrayPayload, lengthOf, augment]
  | _ => cases sequence

theorem typedArrayToPy_sequence (scalarType : ScalarType)
    (items : List ScalarValue) :
    ∃ objs, (python.typedArrayToPy scalarType items).sequence? python =
      some objs := by
  rw [Python.typedArrayToPy]
  split <;> exact ⟨_, rfl⟩

/-- An augmented object is equal to what the object is equal to. -/
theorem equals_augment {obj payload : PyObj}
    (augmented : augment obj = .ok payload) (left : PyObj) :
    left.Equals python payload ↔ left.Equals python obj := by
  cases obj with
  | bool bit =>
      cases augmented
      have same : (PyObj.int (if bit then 1 else 0)).fraction? =
          (PyObj.bool bit).fraction? := by
        cases bit <;> rfl
      constructor
      · intro equals
        cases equals with
        | number leftIs rightIs => exact .number leftIs (same ▸ rightIs)
        | sequence _ impossible => cases impossible
      · intro equals
        cases equals with
        | number leftIs rightIs => exact .number leftIs (same ▸ rightIs)
        | sequence _ impossible => cases impossible
  | int _ => cases augmented; exact Iff.rfl
  | float _ => cases augmented; exact Iff.rfl
  | str _ => cases augmented; exact Iff.rfl
  | list _ => cases augmented; exact Iff.rfl
  | array _ _ => cases augmented; exact Iff.rfl
  | _ => cases augmented

theorem equals_augmented {value : ScalarValue} {payload : PyObj}
    (augmented : augment (python.scalarToPy value) = .ok payload) :
    payload.Equals python payload := by
  cases value with
  | float bits => cases augmented; exact .float _
  | double bits => cases augmented; exact .float _
  | string text => cases augmented; exact .str _
  | _ => cases augmented; exact .number rfl rfl

/-- The payload of a scalar is converted to a scalar that is read the
same. -/
theorem scalar_back (relays : python.Relays) (value : ScalarValue)
    {payload : PyObj}
    (augmented : augment (python.scalarToPy value) = .ok payload)
    (target : PvField) :
    ∃ stored, (payload.assign python (.scalar value.scalarType)
        target).result = .ok (.scalar stored) ∧
      stored.scalarType = value.scalarType ∧
        python.scalarToPy stored = python.scalarToPy value := by
  have kept (keeps : python.Keeps value)
      (own : python.scalarToPy value = payload) :
      ∃ stored, (payload.assign python (.scalar value.scalarType)
          target).result = .ok (.scalar stored) ∧
        stored.scalarType = value.scalarType ∧
          python.scalarToPy stored = python.scalarToPy value := by
    refine ⟨value, ?_, rfl, rfl⟩
    rw [← own, PyObj.assign_scalar,
      (Python.scalar_kept_iff relays.lawful value).mpr keeps]
    rfl
  cases value with
  | boolean bit =>
      cases augmented
      refine ⟨.boolean bit, ?_, rfl, rfl⟩
      cases bit <;> rfl
  | float bits =>
      cases augmented
      refine ⟨.float (python.narrow (python.widen bits)), rfl, rfl, ?_⟩
      rw [Python.scalarToPy, Python.scalarToPy, relays.float]
  | string text =>
      cases augmented
      refine ⟨.string (python.asStrLossy text),
        PyObj.assign_str relays.lawful _ _, rfl, ?_⟩
      rw [Python.scalarToPy, Python.scalarToPy, relays.text]
  | double bits => exact kept trivial (Except.ok.inj augmented)
  | byte _ => exact kept trivial (Except.ok.inj augmented)
  | ubyte _ => exact kept trivial (Except.ok.inj augmented)
  | short _ => exact kept trivial (Except.ok.inj augmented)
  | ushort _ => exact kept trivial (Except.ok.inj augmented)
  | int _ => exact kept trivial (Except.ok.inj augmented)
  | uint _ => exact kept trivial (Except.ok.inj augmented)
  | long _ => exact kept trivial (Except.ok.inj augmented)
  | ulong _ => exact kept trivial (Except.ok.inj augmented)

theorem array_back (relays : python.Relays) {scalarType : ScalarType}
    {items : List ScalarValue}
    (typed : ∀ item ∈ items, item.scalarType = scalarType)
    (target : PvField) :
    ∃ stored, ((python.typedArrayToPy scalarType items).assign python
        (.scalarArray scalarType) target).result =
          .ok (.scalarArrayTyped scalarType stored) ∧
      python.typedArrayToPy scalarType stored =
        python.typedArrayToPy scalarType items := by
  by_cases string : scalarType = .string
  · subst string
    refine ⟨_, assign_strings items target, ?_⟩
    simp only [Python.typedArrayToPy, if_true, List.map_map, PyObj.list.injEq]
    apply List.map_congr_left
    intro item member
    cases item with
    | string text =>
        simp [Python.scalarToPy, relays.lawful.text_str, relays.text]
    | _ => cases typed _ member
  · exact ⟨items, assign_numbers relays.lawful string typed target, rfl⟩

theorem array_read (relays : python.Relays) {scalarType : ScalarType}
    {field : PvField} (typed : HasType (.scalarArray scalarType) field)
    (uniform : ∀ items, field = .scalarArray items →
      ∀ item ∈ items, item.scalarType = scalarType) :
    ∃ items, (∀ item ∈ items, item.scalarType = scalarType) ∧
      toPy python false field (.scalarArray scalarType) =
        .ok (python.typedArrayToPy scalarType items) := by
  cases typed with
  | scalarArray _ items =>
      refine ⟨items, uniform items rfl, ?_⟩
      rw [toPy, Python.untypedArrayToPy,
        relays.kept items scalarType (uniform items rfl)]
  | scalarArrayTyped _ items typed =>
      refine ⟨items, typed, ?_⟩
      rw [toPy]

theorem augment_isRead {obj payload : PyObj} (read : obj.IsRead python)
    (augmented : augment obj = .ok payload) :
    payload.IsRead python ∧ payload.isValue = false ∧ payload ≠ .none := by
  cases obj with
  | bool bit =>
      cases augmented
      exact ⟨.int _, rfl, nofun⟩
  | int _ => cases augmented; exact ⟨read, rfl, nofun⟩
  | float _ => cases augmented; exact ⟨read, rfl, nofun⟩
  | str _ => cases augmented; exact ⟨read, rfl, nofun⟩
  | list _ => cases augmented; exact ⟨read, rfl, nofun⟩
  | array _ _ => cases augmented; exact ⟨read, rfl, nofun⟩
  | _ => cases augmented

theorem augment_ok {field : PvField} {obj : PyObj}
    (holds : HoldsLeaf python field obj) (some : obj ≠ .none) :
    ∃ payload, augment obj = .ok payload := by
  cases holds with
  | empty => exact (some rfl).elim
  | scalar value => cases value <;> exact ⟨_, rfl⟩
  | array scalarType items =>
      rw [Python.typedArrayToPy]
      split <;> exact ⟨_, rfl⟩

/-- What the payload of a variant comes back as is equal to it exactly if it
is restored. -/
theorem variant_back_iff (relays : python.Relays) {payload : PyObj}
    (read : payload.IsRead python) (noValue : payload.isValue = false)
    (some : payload ≠ .none) (target : PvField) :
    (∃ field obj back, (payload.assign python .variant target).result =
        .ok field ∧ toPy python false field .variant = .ok obj ∧
        augment obj = .ok back ∧ payload.Equals python back) ↔
      payload.Restored python := by
  constructor
  · rintro ⟨field, obj, back, assigned, shown, augmented, equals⟩
    obtain ⟨other, holds, restored⟩ := read.stored relays noValue assigned
    cases (holds.shown false).symm.trans shown
    exact restored.mp ((equals_augment augmented payload).mp equals)
  · intro restored
    obtain ⟨field, assigned⟩ := restored.stored relays.lawful read target
    obtain ⟨obj, holds, equal⟩ := read.stored relays noValue assigned
    have equals := equal.mpr restored
    have given : obj ≠ .none := by
      rintro rfl
      cases equals with
      | none => exact some rfl
      | number _ impossible => cases impossible
      | sequence _ impossible => cases impossible
    obtain ⟨back, augmented⟩ := augment_ok holds given
    exact ⟨field, obj, back, assigned, holds.shown false, augmented,
      (equals_augment augmented payload).mpr equals⟩

/-- The payload is put back exactly if what it is stored as is read as an
equal payload. -/
theorem puts_back_leaf (lawful : lib.Lawful) (keeps : python.Lawful)
    (value : IsValue V) {desc : FieldDesc} {code : Str}
    (found : V.desc.atPath? ["value".toList] = some desc)
    (leaf : ¬desc.IsStructure) (coded : descToPy desc = .str code)
    {target : PvField}
    (read : V.field.atPath? ["value".toList] = some target) {x : Unwrapped}
    (noDict : x.payload.isDict = false) (IsEmpty : Unwrapped → Prop) :
    PutsBack (fun V x => assign lib python V x.payload) (unwrap python)
        IsEmpty (fun x back => x.payload.Equals python back.payload) x V ↔
      ∃ field obj back count,
        (x.payload.assign python desc target).result = .ok field ∧
        toPy python false field desc = .ok obj ∧
        payloadOf code obj = .ok (back, count) ∧
        x.payload.Equals python back := by
  have named : ∀ name ∈ ["value".toList], MemberName name := by
    simp [Separated.IsKey]
  have put := @putLeaf_iff lib python V lawful _ named desc found leaf target
    read x.payload
  rw [dotted, Separated.render_singleton] at put
  have assigned (next : Root) : assign lib python V x.payload = .ok next ↔
      setItems lib python.conversions V [("value".toList, x.payload)] =
        .ok next := by
    cases isPayload : x.payload with
    | dict _ => rw [isPayload] at noDict; cases noDict
    | _ => rfl
  have unwraps (field : PvField) (marks : BitSet) (payload : PyObj) :
      (∃ out, unwrap python (replaced V ["value".toList] field marks) =
        .ok out ∧ out.payload = payload) ↔
      ∃ obj count, (replaced V ["value".toList] field marks).get python
          "value".toList = .ok obj ∧
        payloadOf code obj = .ok (payload, count) := by
    obtain ⟨metadata, readable⟩ :=
      (SameBeside.put V "value".toList [] field marks).scalarMeta_ok keeps
        value
    exact @unwrap_iff python (replaced V ["value".toList] field marks) desc
      code found coded metadata readable payload
  have shown (field : PvField) (marks : BitSet) :
      (replaced V ["value".toList] field marks).get python "value".toList =
        toPy python false field desc := by
    have at_ := @get_dotted python (replaced V ["value".toList] field marks)
      _ named desc found leaf field (PvField.atPath?_putAt read field)
    rwa [dotted, Separated.render_singleton] at at_
  constructor
  · rintro ⟨next, back, taken, -, unwrapped, equals⟩
    obtain ⟨field, stored, rfl⟩ := (put next).mp ((assigned next).mp taken)
    obtain ⟨obj, count, got, paid⟩ :=
      (unwraps field _ back.payload).mp ⟨back, unwrapped, rfl⟩
    exact ⟨field, obj, back.payload, count, stored,
      (shown field _).symm.trans got, paid, equals⟩
  · rintro ⟨field, obj, back, count, stored, isObj, paid, equals⟩
    have taken := (put _).mpr ⟨field, stored, rfl⟩
    obtain ⟨out, unwrapped, rfl⟩ := (unwraps field _ back).mpr
      ⟨obj, count, (shown field _).trans isObj, paid⟩
    exact ⟨_, out, (assigned _).mpr taken,
      fun _ => Finset.insert_ne_empty _ _, unwrapped, equals⟩

theorem noDict {code : Str} {obj payload : PyObj} {count : Nat}
    (paid : payloadOf code obj = .ok (payload, count)) :
    payload.isDict = false := by
  have augmented {other : PyObj} (taken : augment other = .ok payload) :
      payload.isDict = false := by
    cases other with
    | bool _ | int _ | float _ | str _ | list _ | array _ _ =>
        cases taken
        rfl
    | _ => cases taken
  by_cases array : code.head? = some 'a'
  · rw [payloadOf, if_pos array] at paid
    cases length : lengthOf (arrayPayload code obj) with
    | error error => simp [bind, Except.bind, length] at paid
    | ok number =>
        cases taken : augment (arrayPayload code obj) with
        | error error => simp [bind, Except.bind, length, taken] at paid
        | ok other =>
            simp only [bind, Except.bind, length, taken, Except.ok.injEq,
              Prod.mk.injEq] at paid
            exact augmented (paid.1 ▸ taken)
  · exact augmented ((augment_payloadOf array obj payload).mp ⟨count, paid⟩)

theorem codeDesc_cases {code : Str} {desc : FieldDesc}
    (parsed : codeDesc code = .ok desc) :
    (∃ scalarType, desc = .scalar scalarType) ∨
      (∃ scalarType, desc = .scalarArray scalarType) ∨ desc = .variant ∨
        desc = .variantArray := by
  unfold codeDesc at parsed
  split at parsed
  · split_ifs at parsed
    · cases parsed
      exact .inr (.inr (.inl rfl))
    · split at parsed
      · cases parsed
        exact .inl ⟨_, rfl⟩
      · cases parsed
  · split_ifs at parsed
    · cases parsed
      exact .inr (.inr (.inr rfl))
    · split at parsed
      · cases parsed
        exact .inr (.inl ⟨_, rfl⟩)
      · cases parsed
  · cases parsed

/-- What was read from a value is put back into another one of the type
exactly if it is restored where it goes into variants. -/
theorem puts_back_iff (lawful : lib.Lawful) (relays : python.Relays)
    {W : Root} (value : IsValue V) (source : IsValue W) {code : Str}
    {desc : FieldDesc} (parsed : codeDesc code = .ok desc)
    (found : V.desc.atPath? ["value".toList] = some desc)
    (sourceFound : W.desc.atPath? ["value".toList] = some desc)
    {x : Unwrapped} (unwrapped : unwrap python W = .ok x)
    (IsEmpty : Unwrapped → Prop) :
    PutsBack (fun V x => assign lib python V x.payload) (unwrap python)
        IsEmpty (fun x back => x.payload.Equals python back.payload) x V ↔
      Restored python desc x.payload := by
  have keeps := relays.lawful
  have leaf : ¬desc.IsStructure := by
    rcases codeDesc_cases parsed with ⟨_, rfl⟩ | ⟨_, rfl⟩ | rfl | rfl <;>
      exact id
  obtain ⟨printed, coded⟩ : ∃ printed, descToPy desc = .str printed := by
    rcases codeDesc_cases parsed with ⟨_, rfl⟩ | ⟨_, rfl⟩ | rfl | rfl <;>
      exact ⟨_, rfl⟩
  obtain ⟨target, read, -⟩ := value.leaf found leaf
  obtain ⟨field, sourceRead, typed⟩ := source.leaf sourceFound leaf
  have sourceUniform := source.uniform ["value".toList]
  obtain ⟨metadata, readable⟩ := SameBeside.scalarMeta_ok keeps source
    ⟨rfl, fun _ _ _ => rfl⟩
  obtain ⟨obj, count, got, paid⟩ := (unwrap_iff sourceFound coded readable
    x.payload).mp ⟨x, unwrapped, rfl⟩
  have named : ∀ name ∈ ["value".toList], MemberName name := by
    simp [Separated.IsKey]
  have shown := @get_dotted python W _ named desc sourceFound leaf field
    sourceRead
  rw [dotted, Separated.render_singleton, got] at shown
  rw [puts_back_leaf lawful keeps value found leaf coded read (noDict paid)]
  rcases codeDesc_cases parsed with ⟨scalarType, rfl⟩ | ⟨scalarType, rfl⟩ |
    rfl | rfl
  · refine iff_of_true ?_ trivial
    have single : printed.head? ≠ some 'a' := by
      cases coded
      cases scalarType <;> decide
    cases typed with
    | scalar scalar =>
        have augmented := (augment_payloadOf single obj x.payload).mp
          ⟨count, paid⟩
        rw [toPy] at shown
        cases shown
        obtain ⟨stored, assigned, -, same⟩ :=
          scalar_back relays scalar augmented target
        refine ⟨.scalar stored, python.scalarToPy stored, x.payload, count,
          assigned, by rw [toPy], ?_, equals_augmented augmented⟩
        rw [same]
        exact paid
  · refine iff_of_true ?_ trivial
    have array : printed.head? = some 'a' := by
      cases coded
      rfl
    obtain ⟨items, itemsTyped, itemsShown⟩ := array_read relays typed
      fun items is => sourceUniform scalarType items sourceFound
        (is ▸ sourceRead)
    rw [itemsShown] at shown
    cases shown
    obtain ⟨objs, sequence⟩ :=
      @typedArrayToPy_sequence python scalarType items
    have same := (sequence_payloadOf array sequence x.payload).mp
      ⟨count, paid⟩
    obtain ⟨stored, assigned, restored⟩ :=
      array_back relays itemsTyped target
    refine ⟨.scalarArrayTyped scalarType stored,
      python.typedArrayToPy scalarType stored, x.payload, count, ?_,
      by rw [toPy], ?_, ?_⟩
    · rw [← same]
      exact assigned
    · rw [restored]
      exact paid
    · rw [← same]
      exact PyObj.equals_typedArray scalarType items
  · have single : printed.head? ≠ some 'a' := by
      cases coded
      decide
    have augmented := (augment_payloadOf single obj x.payload).mp
      ⟨count, paid⟩
    obtain ⟨isRead, noValue, some⟩ :=
      augment_isRead (typed.isRead relays shown.symm) augmented
    rw [Restored, ← variant_back_iff relays isRead noValue some target]
    refine exists_congr fun field => exists_congr fun obj =>
      exists_congr fun back => ?_
    simp only [← augment_payloadOf single obj back]
    tauto
  · have array : printed.head? = some 'a' := by
      cases coded
      rfl
    have isRead := typed.isRead relays shown.symm
    cases typed with
    | variantArray items =>
        obtain ⟨objs, -, rfl⟩ := (toPy_variants_iff items obj).mp shown.symm
        have pays (objs : List PyObj) :=
          @sequence_payloadOf python printed array (.list objs) objs rfl
        have same := (pays objs x.payload).mp ⟨count, paid⟩
        cases isRead with
        | list _ isRead =>
            rw [← same, Restored, ← PyObj.variants_restored_iff relays isRead]
            constructor
            · rintro ⟨field, obj, back, count, assigned, shown, paid, equals⟩
              obtain ⟨items, built, rfl⟩ :=
                (assign_variants_iff objs target field).mp assigned
              obtain ⟨backs, shows, rfl⟩ :=
                (toPy_variants_iff items obj).mp shown
              obtain rfl := (pays backs back).mp ⟨count, paid⟩
              exact ⟨items, backs, built, shows,
                (PyObj.equals_sequence_iff rfl rfl).mp equals⟩
            · rintro ⟨items, backs, built, shows, equals⟩
              obtain ⟨count, paid⟩ := (pays backs (.list backs)).mpr rfl
              exact ⟨.variantArray items, .list backs, .list backs, count,
                (assign_variants_iff objs target _).mpr ⟨items, built, rfl⟩,
                (toPy_variants_iff items _).mpr ⟨backs, shows, rfl⟩, paid,
                (PyObj.equals_sequence_iff rfl rfl).mpr equals⟩

end NTScalar

namespace NTEnum

variable {lib : PvData} {python : Python}

/-- The same index, and the same choice of the same choices. -/
def Same (x back : Client.Ntenum) : Prop :=
  x.index = back.index ∧ (x.enums = back.enums → x.choice = back.choice)

theorem choice_eq {remembered : List String} {V : Client.EnumValue}
    {out : Client.Ntenum}
    (is : (Client.NTEnum.unwrap remembered V).2 = some out) :
    V.index = some out.index ∧ out.choice =
      if 0 ≤ out.index then out.enums[out.index.toNat]? else none := by
  simp only [Client.NTEnum.unwrap] at is
  split at is
  · obtain ⟨index, isIndex, rfl⟩ := Option.map_eq_some_iff.mp is
    exact ⟨isIndex, rfl⟩
  · cases is

theorem HasType.int {field : PvField} (typed : HasType (.scalar .int) field) :
    ∃ number, field = .scalar (.int number) := by
  generalize is : FieldDesc.scalar .int = desc at typed
  cases typed with
  | scalar value =>
      cases value with
      | int number => exact ⟨number, rfl⟩
      | _ => cases is
  | _ => cases is

theorem unwrap_some (remembered : List String) {V : Client.EnumValue}
    (changed : V.changed.isSome) (choices : V.choices.isSome) {index : Int}
    (isIndex : V.index = some index) :
    ∃ out, (Client.NTEnum.unwrap remembered V).2 = some out ∧
      out.index = index := by
  obtain ⟨changed, isChanged⟩ := Option.isSome_iff_exists.mp changed
  obtain ⟨choices, isChoices⟩ := Option.isSome_iff_exists.mp choices
  simp only [Client.NTEnum.unwrap, isChanged, isChoices, isIndex,
    Option.map_some]
  exact ⟨_, rfl, rfl⟩

theorem texts_strings {items : List ScalarValue}
    (typed : ∀ item ∈ items, item.scalarType = .string) :
    (texts (.list (items.map python.scalarToPy))).isSome := by
  rw [texts]
  induction items with
  | nil => rfl
  | cons item items induction =>
      cases item with
      | string text =>
          have rest := induction fun other member =>
            typed other (List.mem_cons_of_mem _ member)
          obtain ⟨others, isOthers⟩ := Option.isSome_iff_exists.mp rest
          rw [List.map_cons, List.mapM_cons, isOthers]
          rfl
      | _ => cases typed _ List.mem_cons_self

section Enum

variable {V W : Root} {structId : Str} {rest : List (Str × FieldDesc)}

theorem atPath?_index
    (desc : V.desc = .struct structId
      (("value".toList, .struct "enum_t".toList enumMembers) :: rest)) :
    V.desc.atPath? ["value".toList, "index".toList] =
      some (.scalar .int) := by
  rw [desc]
  rfl

theorem atPath?_choices
    (desc : V.desc = .struct structId
      (("value".toList, .struct "enum_t".toList enumMembers) :: rest)) :
    V.desc.atPath? ["value".toList, "choices".toList] =
      some (.scalarArray .string) := by
  rw [desc]
  rfl

theorem enumValue_reads (relays : python.Relays) (value : IsValue V)
    (desc : V.desc = .struct structId
      (("value".toList, .struct "enum_t".toList enumMembers) :: rest))
    {next : Root} (sameDesc : next.desc = V.desc)
    (choices : next.field.atPath? ["value".toList, "choices".toList] =
      V.field.atPath? ["value".toList, "choices".toList]) {number : Int32}
    (index : next.field.atPath? ["value".toList, "index".toList] =
      some (.scalar (.int number)))
    (readable : ∃ metadata, scalarMeta python next = .ok metadata) :
    (enumValue lib python next).changed.isSome ∧
      (enumValue lib python next).choices.isSome ∧
      (enumValue lib python next).index = some number.toInt := by
  have named : ∀ name ∈ ["value".toList, "choices".toList],
      MemberName name := by
    simp [Separated.IsKey]
  have choicesKey : "value.choices".toList =
      dotted ["value".toList, "choices".toList] := rfl
  have choicesFound : next.desc.atPath? ["value".toList, "choices".toList] =
      some (.scalarArray .string) := by
    rw [sameDesc]
    exact atPath?_choices desc
  refine ⟨?_, ?_, ?_⟩
  · have found : descAt next.desc (join [] "value.choices".toList) =
        some (.scalarArray .string) := by
      rw [join, if_pos rfl, choicesKey, descAt_dotted _ named]
      exact choicesFound
    simp only [enumValue, Root.changed, List.cons_ne_nil, if_false,
      Root.anyChanged, found]
    split <;> rfl
  · obtain ⟨field, read, typed⟩ := value.leaf (atPath?_choices desc) id
    obtain ⟨items, itemsTyped, shown⟩ := NTScalar.array_read relays typed
      fun items is => value.uniform _ .string items (atPath?_choices desc)
        (is ▸ read)
    have got : next.get python "value.choices".toList =
        .ok (.list (items.map python.scalarToPy)) := by
      rw [choicesKey, get_dotted named choicesFound id (choices.trans read),
        shown, Python.typedArrayToPy, if_pos rfl]
    rw [enumValue, got]
    exact texts_strings itemsTyped
  · have indexNamed : ∀ name ∈ ["value".toList, "index".toList],
        MemberName name := by
      simp [Separated.IsKey]
    have indexKey : "value.index".toList =
        dotted ["value".toList, "index".toList] := rfl
    have indexFound : next.desc.atPath? ["value".toList, "index".toList] =
        some (.scalar .int) := by
      rw [sameDesc]
      exact atPath?_index desc
    obtain ⟨metadata, isMeta⟩ := readable
    have got : next.get python "value.index".toList =
        .ok (.int number.toInt) := by
      rw [indexKey, get_dotted indexNamed indexFound id index, toPy]
      rfl
    simp only [enumValue, got, isMeta]

theorem puts_back (lawful : lib.Lawful) (relays : python.Relays)
    (value : IsValue V) (source : IsValue W)
    (desc : V.desc = .struct structId
      (("value".toList, .struct "enum_t".toList enumMembers) :: rest))
    (sourceDesc : W.desc = V.desc) (parse : String → Option Int)
    (before remembered : List String) {x : Client.Ntenum}
    (isRead : unwrapped lib python before W = .ok x)
    (IsEmpty : Client.Ntenum → Prop) :
    PutsBack (fun V x => assign lib python parse remembered V
        (.number (some x.index))) (unwrapped lib python remembered) IsEmpty
      Same x V := by
  have keeps := relays.lawful
  obtain ⟨field, sourceRead, typed⟩ := source.leaf
    (atPath?_index (sourceDesc.trans desc)) id
  obtain ⟨number, rfl⟩ := HasType.int typed
  have unwraps {root : Root} {choices : List String} {out : Client.Ntenum} :
      unwrapped lib python choices root = .ok out ↔
        (unwrap lib python choices root).2 = some out := by
    rw [unwrapped]
    cases (unwrap lib python choices root).2 <;> simp
  obtain ⟨xIndex, xChoice⟩ := choice_eq (unwraps.mp isRead)
  have sourceIndex := (@enumValue_reads lib python W structId rest relays
    source (sourceDesc.trans desc) W rfl rfl number sourceRead
      (SameBeside.scalarMeta_ok keeps source ⟨rfl, fun _ _ _ => rfl⟩)).2.2
  have isNumber : x.index = number.toInt :=
    Option.some.inj (xIndex.symm.trans sourceIndex)
  have named : ∀ name ∈ ["value".toList, "index".toList],
      MemberName name := by
    simp [Separated.IsKey]
  obtain ⟨target, read, -⟩ := value.leaf (atPath?_index desc) id
  have converted : ((PyObj.int x.index).assign python (.scalar .int)
      target).result = .ok (.scalar (.int number)) := by
    have low := number.le_toInt
    have high := number.toInt_lt
    have stored := @PyObj.assign_int python number.toInt (by omega)
      (by omega) .int (by simp) target
    rwa [Python.intToScalar, Int32.ofInt_toInt, ← isNumber] at stored
  have put := (@putLeaf_iff lib python V lawful _ named _
    (atPath?_index desc) id target read (.int x.index) _).mpr
      ⟨_, converted, rfl⟩
  have marked := Finset.insert_ne_empty
    ((lib.bitForPath V.desc (dotted ["value".toList, "index".toList])).getD 0)
    V.marks
  generalize insert _ V.marks = marks at put marked
  obtain ⟨changed, choices, index⟩ := @enumValue_reads lib python V structId
    rest relays value desc (replaced V _ _ marks) rfl
    (PvField.atPath?_putAt_beside (by simp) (by simp)) number
    (PvField.atPath?_putAt read _)
    ((SameBeside.put V _ _ _ marks).scalarMeta_ok keeps value)
  obtain ⟨back, unwrapped, backIndex⟩ :=
    unwrap_some remembered changed choices index
  obtain ⟨-, backChoice⟩ := choice_eq unwrapped
  have sameIndex : x.index = back.index := isNumber.trans backIndex.symm
  refine ⟨_, back, put, fun _ => marked, unwraps.mpr unwrapped, sameIndex, ?_⟩
  intro sameEnums
  rw [xChoice, backChoice, sameIndex, sameEnums]

end Enum

end NTEnum

end Repics.Pva.Nt
