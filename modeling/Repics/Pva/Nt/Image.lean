import Repics.Lib.Dict
import Repics.Lib.Strided
import Repics.Pva.Nt.Scalar
import Repics.Pva.Value.Variant

/-!
# Images

`NTNDArray.wrap` stores the elements of a numpy array in row-major order, its
shape from the last axis to the first, its dtype as the member of a union, and
its attributes as variants.  An array that `unwrap` gave has attributes of its
own, and these are taken instead of the given ones; the given ones are then
left over for `_annotate`, which does not know them.
-/

namespace Repics.Pva.Nt

/-- A numpy array and its `attrib`, which is empty where there is none. -/
structure Ndarray where
  dtype : ScalarType
  array : Strided ScalarValue
  attrib : List (Str × Attribute)

/-- The number of bytes of an element. -/
def itemsize : ScalarType → Nat
  | .boolean | .byte | .ubyte => 1
  | .short | .ushort => 2
  | .int | .uint | .float => 4
  | .long | .ulong | .double => 8
  | .string => 0

namespace Ndarray

def shape (value : Ndarray) : List Nat :=
  value.array.shape

def nbytes (value : Ndarray) : Nat :=
  value.shape.prod * itemsize value.dtype

/-- What holds of every numpy array: its elements are of its dtype, and its
size in bytes is a `Py_ssize_t`. -/
structure Sound (value : Ndarray) : Prop where
  typed : ∀ item ∈ value.array.ravel, item.scalarType = value.dtype
  small : value.nbytes < 2 ^ 63

end Ndarray

namespace NTNDArray

/-- The member for the character of a dtype.  A dtype of `str` stands for all
that have none. -/
def code2u : ScalarType → Option Str
  | .boolean => some "booleanValue".toList
  | .byte => some "byteValue".toList
  | .short => some "shortValue".toList
  | .int => some "intValue".toList
  | .long => some "longValue".toList
  | .ubyte => some "ubyteValue".toList
  | .ushort => some "ushortValue".toList
  | .uint => some "uintValue".toList
  | .ulong => some "ulongValue".toList
  | .float => some "floatValue".toList
  | .double => some "doubleValue".toList
  | .string => none

def valueMembers : List (Str × FieldDesc) :=
  [("booleanValue".toList, .scalarArray .boolean),
    ("byteValue".toList, .scalarArray .byte),
    ("shortValue".toList, .scalarArray .short),
    ("intValue".toList, .scalarArray .int),
    ("longValue".toList, .scalarArray .long),
    ("ubyteValue".toList, .scalarArray .ubyte),
    ("ushortValue".toList, .scalarArray .ushort),
    ("uintValue".toList, .scalarArray .uint),
    ("ulongValue".toList, .scalarArray .ulong),
    ("floatValue".toList, .scalarArray .float),
    ("doubleValue".toList, .scalarArray .double)]

def dimensionMembers : List (Str × FieldDesc) :=
  [("size".toList, .scalar .int), ("offset".toList, .scalar .int),
    ("fullSize".toList, .scalar .int), ("binning".toList, .scalar .int),
    ("reverse".toList, .scalar .boolean)]

def attributeMembers : List (Str × FieldDesc) :=
  [("name".toList, .scalar .string), ("value".toList, .variant),
    ("tags".toList, .scalarArray .string),
    ("descriptor".toList, .scalar .string), ("alarm".toList, alarm),
    ("timeStamp".toList, timeStamp), ("sourceType".toList, .scalar .int),
    ("source".toList, .scalar .string)]

def members (extra : List (Str × FieldDesc)) : List (Str × FieldDesc) :=
  [("value".toList, .union [] valueMembers),
    ("codec".toList, .struct "codec_t".toList
      [("name".toList, .scalar .string), ("parameters".toList, .variant)]),
    ("compressedSize".toList, .scalar .long),
    ("uncompressedSize".toList, .scalar .long),
    ("uniqueId".toList, .scalar .int), ("dataTimeStamp".toList, timeStamp),
    ("alarm".toList, alarm), ("timeStamp".toList, timeStamp),
    ("dimension".toList,
      .structArray "dimension_t".toList dimensionMembers),
    ("attribute".toList,
      .structArray "epics:nt/NTAttribute:1.0".toList attributeMembers)] ++
    extra

def buildType (extra : List (Str × FieldDesc)) : FieldDesc :=
  .struct "epics:nt/NTNDArray:1.0".toList (members extra)

/-- The attributes with the deduced `ColorMode`, unless it is given. -/
def withColorMode (dims : List Nat) (attrib : List (Str × Attribute)) :
    Except PyErr (List (Str × Attribute)) :=
  let put (mode : Int) :=
    Dict.put attrib "ColorMode".toList (.obj (.int mode))
  if (attrib.lookup "ColorMode".toList).isSome then .ok attrib
  else if dims.length = 2 then .ok (put 0)
  else if dims.length = 3 then
    match dims.reverse.findIdx? (· = 3) with
    | some idx => .ok (put (2 + idx))
    | none => .error (.conversion
        "unable to deduce the color dimension from shape".toList)
  else .ok attrib

/-- `isinstance(value, Value) and "value" in value` -/
def translateNDAttribute (python : Python) (name : Str) :
    Attribute → Except PyErr PyObj
  | .obj obj => .ok (.strDict [("name".toList, .str name),
      ("value".toList, obj)])
  | .value V => do
      if ← (V.has "value".toList).result then
        let item (key : Str) : Except PyErr (List (Str × PyObj)) := do
          if ← (V.has key).result then
            let obj ← (V.item python key).result
            .ok [(key, obj)]
          else .ok []
        let value ← item "value".toList
        let alarm ← item "alarm".toList
        let stamp ← item "timeStamp".toList
        .ok (.strDict ([("name".toList, .str name)] ++ value ++ alarm ++ stamp))
      else
        let (desc, field) ← V.viewed V.state
        let obj ← Handle.viewObj python (some V.root) desc field
        .ok (.strDict [("name".toList, .str name), ("value".toList, obj)])

def dimension (size : Nat) : PyObj :=
  .strDict [("size".toList, .int size), ("offset".toList, .int 0),
    ("fullSize".toList, .int size), ("binning".toList, .int 1),
    ("reverse".toList, .bool false)]

/-- The dict that the new value is made from. -/
def initial (value : Ndarray) (name : Str) (translated : List PyObj) :
    List (Str × PyObj) :=
  [("value".toList,
      .tuple [.str name, .array value.dtype value.array.ravel]),
    ("compressedSize".toList, .int value.nbytes),
    ("uncompressedSize".toList, .int value.nbytes),
    ("uniqueId".toList, .int 0),
    ("attribute".toList, .list translated),
    ("dimension".toList, .list (value.shape.reverse.map dimension))]

/-- `wrap(value)` or `wrap(value, attrib=attrib)`.  The keyword is taken out
only if the array has no attributes of its own. -/
def wrap (lib : PvData) (python : Python) (extra : List (Str × FieldDesc))
    (value : Ndarray) (attrib : Option (List (Str × Attribute))) :
    Except PyErr Root := do
  let own := !value.attrib.isEmpty
  let attribs ← withColorMode value.shape
    (if own then value.attrib else attrib.getD [])
  let name ← match code2u value.dtype with
    | some name => .ok name
    | none => .error (.conversion "no member for the dtype".toList)
  let translated ← attribs.mapM fun entry =>
    translateNDAttribute python entry.1 entry.2
  let V ← Root.create lib python.conversions (buildType extra)
    (.strDict (initial value name translated))
  if own && attrib.isSome then
    .error (.conversion
      "_annotate() got an unexpected keyword argument 'attrib'".toList)
  else .ok V

/-- `numpy.ndarray.reshape`: one size may be left open. -/
def sizesFor (size : Nat) (shape : List Int) : Option (List Nat) :=
  let known := (shape.filter (0 ≤ ·)).map Int.toNat
  match shape.filter (· < 0) with
  | [] => if size = known.prod then some known else none
  | [_] =>
      if 0 < known.prod ∧ known.prod ∣ size then
        some (shape.map fun length =>
          if 0 ≤ length then length.toNat else size / known.prod)
      else none
  | _ => none

def reshape (items : List ScalarValue) (shape : List Int) :
    Except PyErr (Strided ScalarValue) :=
  match sizesFor items.length shape with
  | none => .error (.conversion "cannot reshape array".toList)
  | some sizes =>
      if same : items.length = sizes.prod then
        .ok (Strided.reshape items sizes same)
      else .error (.conversion "cannot reshape array".toList)

/-- The array in the union; an unselected one counts as empty. -/
def pixels : PyObj → Except PyErr (ScalarType × List ScalarValue)
  | .none => .ok (.ubyte, [])
  | .array dtype items => .ok (dtype, items)
  | _ => .error (.conversion "object has no attribute 'reshape'".toList)

/-- `int(size)` of a field of code `i`. -/
def intOf : PyObj → Except PyErr Int
  | .int value => .ok value
  | _ => .error (.conversion "not an int".toList)

/-- `V[key]` for an array of structures: detached values, and `None` for null
elements or a null array. -/
def structures (V : Root) (key : Str) :
    Except PyErr (Option (List (Option Root))) :=
  match descAt V.desc key, fieldAt V.field key with
  | some (.structArray structId members), some (.structArray items) =>
      .ok (some (items.map fun item => item.map fun fields =>
        ⟨.struct structId members, .struct fields.1 fields.2, ∅⟩))
  | some _, some .null => .ok none
  | some _, some _ =>
      .error (.conversion "not an array of structures".toList)
  | _, _ => .error (.noSuchField key)

/-- A variant or a union is read as what it holds. -/
def contentOf (python : Python) :
    FieldDesc → PvField → FieldDesc × PvField
  | _, .variant (some desc) value => contentOf python desc value
  | _, .variant none value => contentOf python (python.descriptor value) value
  | .union structId variants, .union selector name value =>
      match variantAt variants selector with
      | some (_, desc) => contentOf python desc value
      | none => (.union structId variants, .union selector name value)
  | desc, field => (desc, field)

/-- `V.value`: a structure in a variant is a detached `Value`. -/
def attributeOf (python : Python) (V : Root) (key : Str) :
    Except PyErr Attribute :=
  match descAt V.desc key, fieldAt V.field key with
  | some desc, some field =>
      match contentOf python desc field with
      | (.struct structId members, .struct fieldId subs) =>
          .ok (.value ⟨0, ⟨.struct structId members, .struct fieldId subs,
            ∅⟩, []⟩)
      | _ => (V.get python key).map .obj
  | _, _ => (V.get python key).map .obj

/-- An attribute of `None`. -/
def noneHas {α : Type} : Except PyErr α :=
  .error (.conversion "'NoneType' object has no such attribute".toList)

/-- The sizes in `V["dimension"]`, as they are stored. -/
def sizes (python : Python) (V : Root) : Except PyErr (List Int) := do
  match ← structures V "dimension".toList with
  | none => .error (.conversion "'NoneType' object is not iterable".toList)
  | some items => items.mapM fun item =>
      match item with
      | none => noneHas
      | some d => do intOf (← d.get python "size".toList)

/-- `{a.name: a.value for a in V.get("attribute", None) or []}` -/
def attributes (python : Python) (V : Root) :
    Except PyErr (List (Str × Attribute)) :=
  match structures V "attribute".toList with
  | .error (.noSuchField _) | .ok none => .ok []
  | .error error => .error error
  | .ok (some items) => do
      let entries ← items.mapM fun item =>
        match item with
        | none => noneHas
        | some a => do
            let name ← a.get python "name".toList
            let name ← name.extractText
            let value ← attributeOf python a "value".toList
            .ok (name, value)
      .ok (Dict.ofEntries entries)

structure Unwrapped where
  array : Ndarray
  status : Int
  severity : Int
  stamp : Stamp

def unwrap (python : Python) (V : Root) : Except PyErr Unwrapped := do
  let arr ← V.get python "value".toList
  let (dtype, items) ← pixels arr
  let shape := (← sizes python V).reverse
  let array ← reshape items (if shape = [] then [items.length] else shape)
  let attrib ← attributes python V
  .ok {
    array := ⟨dtype, array, attrib⟩
    status := intAt V "alarm.status".toList
    severity := intAt V "alarm.severity".toList
    stamp := stampOf V }

end NTNDArray

/-- A `bool`, an `int` of 64 bits, a `float` or a `str`. -/
def Attribute.IsPlain : Attribute → Prop
  | .obj (.bool _) | .obj (.float _) | .obj (.str _) => True
  | .obj (.int number) => -2 ^ 63 ≤ number ∧ number < 2 ^ 63
  | _ => False

/-- An array of a dtype that has a member, with at least one axis, and
attributes of plain objects.  Numpy gives an array of three axes a colour axis
unless the mode is given. -/
structure Wrappable (value : Ndarray) (attrib : List (Str × Attribute)) :
    Prop where
  sound : value.Sound
  supported : value.dtype ≠ .string
  axes : value.shape ≠ []
  sizes : ∀ size ∈ value.shape, size < 2 ^ 31
  color : value.shape.length = 3 →
    3 ∈ value.shape ∨ "ColorMode".toList ∈ attrib.map Prod.fst
  keys : (attrib.map Prod.fst).Nodup
  plain : ∀ entry ∈ attrib, entry.2.IsPlain

/-- The `ColorMode` that is added to some attributes.  In three axes it names
one of length 3. -/
inductive Deduced (shape : List Nat) (attrib : List (Str × Attribute)) :
    List (Str × Attribute) → Prop
  | given (here : "ColorMode".toList ∈ attrib.map Prod.fst) :
      Deduced shape attrib []
  | mono (absent : "ColorMode".toList ∉ attrib.map Prod.fst)
      (rank : shape.length = 2) :
      Deduced shape attrib [("ColorMode".toList, .obj (.int 0))]
  | color (absent : "ColorMode".toList ∉ attrib.map Prod.fst)
      (rank : shape.length = 3) {axis : Nat}
      (length : shape.reverse[axis]? = some 3) :
      Deduced shape attrib [("ColorMode".toList, .obj (.int (2 + axis)))]
  | other (absent : "ColorMode".toList ∉ attrib.map Prod.fst)
      (rank : shape.length ≠ 2 ∧ shape.length ≠ 3) :
      Deduced shape attrib []

/-- `unwrap(wrap(value, attrib=attrib))` has the dtype, the shape and the
elements of the array, and the given attributes with the deduced one. -/
def RoundTrip (lib : PvData) (python : Python)
    (extra : List (Str × FieldDesc)) (value : Ndarray)
    (attrib : List (Str × Attribute)) : Prop :=
  ∃ V out deduced,
    NTNDArray.wrap lib python extra value (some attrib) = .ok V ∧
    NTNDArray.unwrap python V = .ok out ∧
    out.array.dtype = value.dtype ∧ out.array.shape = value.shape ∧
    (∀ index, Strided.Within index value.shape →
      out.array.array.at? index = value.array.at? index) ∧
    Deduced value.shape attrib deduced ∧
    out.array.attrib = attrib ++ deduced

/-- The library keeps texts, and the default of a type is its zero value. -/
structure Plainly (python : Python) : Prop where
  lawful : python.Lawful
  text : ∀ text, python.asStrLossy text = text
  default : ∀ desc, python.defaultValueFor desc = zeroField desc

theorem Plainly.sane {python : Python} (plainly : Plainly python) :
    python.Sane :=
  ⟨plainly.lawful, plainly.default, plainly.text []⟩

section Stored

variable {python : Python}

/-- A plain object is stored in a variant as a scalar that is read as the
object. -/
theorem variant_gives (plainly : Plainly python) {obj : PyObj}
    (plain : (Attribute.obj obj).IsPlain) (target : PvField) :
    ∃ field, (obj.assign python .variant target).result = .ok field ∧
      HoldsLeaf python field obj := by
  cases obj with
  | bool bit =>
      exact ⟨_, @PyObj.assign_variant python (.bool bit) (.scalar .boolean)
        rfl target, .scalar (.boolean bit) rfl trivial⟩
  | int number =>
      obtain ⟨low, high⟩ := plain
      have holds := @HoldsLeaf.scalar python (.long (Int64.ofInt number)) rfl
        trivial
      rw [Python.scalarToPy, Int64.toInt_ofInt_of_le low high] at holds
      refine ⟨_, ?_, holds⟩
      rw [PyObj.variant_int, Python.extractInt, if_pos (by omega)]
      rfl
  | float bits =>
      exact ⟨_, @PyObj.assign_variant python (.float bits) (.scalar .double)
        rfl target, .scalar (.double bits) rfl trivial⟩
  | str text =>
      have holds := @HoldsLeaf.scalar python (.string text) rfl
        (plainly.text text)
      rw [Python.scalarToPy, plainly.text] at holds
      refine ⟨_, ?_, holds⟩
      rw [@PyObj.assign_variant python (.str text) (.scalar .string) rfl,
        PyObj.assign_str plainly.lawful]
      rfl
  | _ => cases plain

/-- The member for the dtype of an array is selected and takes it. -/
theorem union_gives (lawful : python.Lawful) {dtype : ScalarType}
    {items : List ScalarValue} (number : dtype ≠ .string)
    (typed : ∀ item ∈ items, item.scalarType = dtype) (target : PvField) :
    ∃ name index, NTNDArray.code2u dtype = some name ∧
      variantAt NTNDArray.valueMembers index =
        some (name, .scalarArray dtype) ∧
      ((PyObj.tuple [.str name, .array dtype items]).assign python
        (.union [] NTNDArray.valueMembers) target).result =
          .ok (.union index name (.scalarArrayTyped dtype items)) ∧
      IsCopy python (.union [] NTNDArray.valueMembers)
        (.union index name (.scalarArrayTyped dtype items)) := by
  have selects : ∃ name index, NTNDArray.code2u dtype = some name ∧
      variantAt NTNDArray.valueMembers (index : Nat) =
        some (name, .scalarArray dtype) ∧
      findVariant (fun label _ => decide (label = name))
        NTNDArray.valueMembers = some (index, name, .scalarArray dtype) ∧
      memberFor NTNDArray.valueMembers (some (.scalarArray dtype)) =
        some (index, name, .scalarArray dtype) := by
    cases dtype with
    | string => exact (number rfl).elim
    | _ => exact ⟨_, _, rfl, rfl, rfl, rfl⟩
  obtain ⟨name, index, code, variant, found, chosen⟩ := selects
  have taken := assign_numbers lawful number typed
    (python.defaultValueFor (.scalarArray dtype))
  rw [Python.typedArrayToPy, if_neg number] at taken
  have implied : impliedType false (.scalarArray dtype)
      (.scalarArrayTyped dtype items) = some (.scalarArray dtype) := by
    rw [impliedType, if_neg fun both => number both.1]
  refine ⟨name, index, code, variant, ?_, ?_, ?_⟩
  · rw [assign_selected found, taken]
    rfl
  · exact .union _ _ _ _ _ _ variant (.scalarArrayTyped dtype items typed)
  · exact .union _ _ _ _ _ _ ⟨_, index, implied, chosen, rfl⟩
      (.numbers dtype items number)

theorem dimension_zeros (empty : python.asStrLossy [] = []) :
    ∀ member ∈ NTNDArray.dimensionMembers,
      IsCopy python member.2 (zeroField member.2) := by
  intro member inMembers
  simp only [NTNDArray.dimensionMembers, List.mem_cons, List.not_mem_nil,
    or_false] at inMembers
  rcases inMembers with rfl | rfl | rfl | rfl | rfl
  all_goals exact .zero empty id (by simp)

theorem dimension_gives (sane : python.Sane) {size : Nat}
    (small : size < 2 ^ 127) :
    ∃ subs, ((NTNDArray.dimension size).assign python
        (.struct "dimension_t".toList NTNDArray.dimensionMembers)
        (zeroField (.struct "dimension_t".toList
          NTNDArray.dimensionMembers))).result =
        .ok (.struct "dimension_t".toList subs) ∧
      PvField.named? subs "size".toList =
        some (.scalar (.int (Int32.ofInt size))) ∧
      IsCopy python
        (.struct "dimension_t".toList NTNDArray.dimensionMembers)
        (.struct "dimension_t".toList subs) := by
  have int {name : Str} {number : Int}
      (found : FieldDesc.named? NTNDArray.dimensionMembers name =
        some (.scalar .int)) (low : 0 ≤ number) (high : number < 2 ^ 127) :
      GivesCopy python NTNDArray.dimensionMembers (name, .int number)
        (.scalar (python.intToScalar number .int)) :=
    .int found nofun nofun (by omega) high
  have sizeGiven := @int "size".toList size rfl (by omega) (by omega)
  obtain ⟨subs, ended, given, copy⟩ := @strDict_copies python
    "dimension_t".toList NTNDArray.dimensionMembers
    (by simp [NTNDArray.dimensionMembers]) (dimension_zeros sane.empty)
    [("size".toList, .int size), ("offset".toList, .int 0),
      ("fullSize".toList, .int size), ("binning".toList, .int 1),
      ("reverse".toList, .bool false)]
    (by simp) (by
      intro entry member
      simp only [List.mem_cons, List.not_mem_nil, or_false] at member
      rcases member with rfl | rfl | rfl | rfl | rfl
      · exact ⟨_, sizeGiven⟩
      · exact ⟨_, int rfl (by omega) (by omega)⟩
      · exact ⟨_, int rfl (by omega) (by omega)⟩
      · exact ⟨_, int rfl (by omega) (by omega)⟩
      · exact ⟨_, .of rfl rfl (@IsCopy.scalar python (.boolean false)
          trivial)⟩)
  exact ⟨subs, ended, given _ List.mem_cons_self _ sizeGiven, copy⟩

theorem alarm_copy (empty : python.asStrLossy [] = []) :
    IsCopy python alarm (zeroField alarm) := by
  refine .zeroStruct _ (by simp) ?_
  intro member inMembers
  simp only [List.mem_cons, List.not_mem_nil, or_false] at inMembers
  rcases inMembers with rfl | rfl | rfl
  all_goals exact .zero empty id (by simp)

theorem timeStamp_copy (empty : python.asStrLossy [] = []) :
    IsCopy python timeStamp (zeroField timeStamp) := by
  refine .zeroStruct _ (by simp) ?_
  intro member inMembers
  simp only [List.mem_cons, List.not_mem_nil, or_false] at inMembers
  rcases inMembers with rfl | rfl | rfl
  all_goals exact .zero empty id (by simp)

theorem attribute_zeros (empty : python.asStrLossy [] = []) :
    ∀ member ∈ NTNDArray.attributeMembers,
      IsCopy python member.2 (zeroField member.2) := by
  intro member inMembers
  simp only [NTNDArray.attributeMembers, List.mem_cons, List.not_mem_nil,
    or_false] at inMembers
  rcases inMembers with rfl | rfl | rfl | rfl | rfl | rfl | rfl | rfl
  case inr.inr.inr.inr.inl => exact alarm_copy empty
  case inr.inr.inr.inr.inr.inl => exact timeStamp_copy empty
  all_goals exact .zero empty id (by simp)

/-- An object that a variant holds as a leaf is an attribute like any other. -/
theorem attribute_gives (sane : python.Sane) {name : Str}
    (kept : python.asStrLossy name = name) {obj shown : PyObj}
    {stored : PvField}
    (assigned : (obj.assign python .variant (zeroField .variant)).result =
      .ok stored) (holds : HoldsLeaf python stored shown) :
    ∃ subs, ((PyObj.strDict [("name".toList, .str name),
          ("value".toList, obj)]).assign python
        (.struct "epics:nt/NTAttribute:1.0".toList NTNDArray.attributeMembers)
        (zeroField (.struct "epics:nt/NTAttribute:1.0".toList
          NTNDArray.attributeMembers))).result =
        .ok (.struct "epics:nt/NTAttribute:1.0".toList subs) ∧
      PvField.named? subs "name".toList =
        some (.scalar (.string name)) ∧
      PvField.named? subs "value".toList = some stored ∧
      IsCopy python
        (.struct "epics:nt/NTAttribute:1.0".toList NTNDArray.attributeMembers)
        (.struct "epics:nt/NTAttribute:1.0".toList subs) := by
  have nameGiven : GivesCopy python NTNDArray.attributeMembers
      ("name".toList, .str name) (.scalar (.string name)) :=
    .of rfl (PyObj.assign_str sane.lawful name _)
      (@IsCopy.scalar python (.string name) kept)
  have valueGiven : GivesCopy python NTNDArray.attributeMembers
      ("value".toList, obj) stored :=
    .of rfl assigned ⟨holds.typed, holds.copyable⟩
  obtain ⟨subs, ended, given, copy⟩ := @strDict_copies python
    "epics:nt/NTAttribute:1.0".toList NTNDArray.attributeMembers
    (by simp [NTNDArray.attributeMembers]) (attribute_zeros sane.empty)
    [("name".toList, .str name), ("value".toList, obj)] (by simp) (by
      intro entry member
      rcases List.mem_pair.mp member with rfl | rfl
      · exact ⟨_, nameGiven⟩
      · exact ⟨_, valueGiven⟩)
  exact ⟨subs, ended, given _ List.mem_cons_self _ nameGiven,
    given _ (List.mem_cons_of_mem _ List.mem_cons_self) _ valueGiven, copy⟩

/-- The object of an attribute that is no `Value`. -/
def Attribute.toObj : Attribute → PyObj
  | .obj content => content
  | .value _ => .none

theorem Attribute.IsPlain.eq_obj {entry : Attribute} (plain : entry.IsPlain) :
    entry = .obj entry.toObj := by
  cases entry with
  | obj => rfl
  | value => cases plain

/-- The attribute is stored as a leaf and read as the other one. -/
structure Passes (python : Python) (entry back : Str × Attribute) : Prop where
  name : back.1 = entry.1
  kept : python.asStrLossy entry.1 = entry.1
  stored : ∃ obj stored shown, entry.2 = .obj obj ∧
    (obj.assign python .variant (zeroField .variant)).result = .ok stored ∧
    HoldsLeaf python stored shown ∧ back.2 = .obj shown

theorem Attribute.IsPlain.passes (plainly : Plainly python)
    {entry : Attribute} (plain : entry.IsPlain) (name : Str) :
    Passes python (name, entry) (name, entry) := by
  have plainObj := plain
  rw [plain.eq_obj] at plainObj
  obtain ⟨stored, assigned, holds⟩ :=
    variant_gives plainly plainObj (zeroField .variant)
  exact ⟨rfl, plainly.text name, entry.toObj, stored, entry.toObj,
    plain.eq_obj, assigned, holds, plain.eq_obj⟩

/-- The structure holds the attribute. -/
def HoldsAttribute (python : Python) (entry : Str × Attribute)
    (subs : List (Str × PvField)) : Prop :=
  python.asStrLossy entry.1 = entry.1 ∧
  PvField.named? subs "name".toList = some (.scalar (.string entry.1)) ∧
  ∃ stored shown, PvField.named? subs "value".toList = some stored ∧
    HoldsLeaf python stored shown ∧ entry.2 = .obj shown

/-- The field of a value for an array and some attributes.  The sizes are
integers of 32 bits. -/
structure Stores (python : Python) (extra : List (Str × FieldDesc))
    (value : Ndarray) (attribs : List (Str × Attribute)) (V : Root) :
    Prop where
  desc : V.desc = NTNDArray.buildType extra
  pixels : ∃ name index,
    variantAt NTNDArray.valueMembers index =
      some (name, .scalarArray value.dtype) ∧
    V.field.atPath? ["value".toList] = some (.union index name
      (.scalarArrayTyped value.dtype value.array.ravel))
  sizes : ∃ items, V.field.atPath? ["dimension".toList] =
      some (.structArray (items.map fun subs =>
        some ("dimension_t".toList, subs))) ∧
    List.Forall₂ (fun size subs => PvField.named? subs "size".toList =
      some (.scalar (.int (Int32.ofInt (size : Nat))))) value.shape.reverse
        items
  attributes : ∃ items, V.field.atPath? ["attribute".toList] =
      some (.structArray (items.map fun subs =>
        some ("epics:nt/NTAttribute:1.0".toList, subs))) ∧
    List.Forall₂ (HoldsAttribute python) attribs items

/-- Where each item of one list has a partner, there is a list of these. -/
theorem exists_forall₂ {α β : Type} {Related : α → β → Prop}
    {items : List α} (partner : ∀ item ∈ items, ∃ value, Related item value) :
    ∃ values, List.Forall₂ Related items values := by
  induction items with
  | nil => exact ⟨[], .nil⟩
  | cons item items induction =>
      obtain ⟨value, here⟩ := partner item List.mem_cons_self
      obtain ⟨values, rest⟩ := induction fun other member =>
        partner other (List.mem_cons_of_mem item member)
      exact ⟨value :: values, .cons here rest⟩

/-- Where each pair of partners has an item, there is a list of these. -/
theorem exists_items {α β γ : Type} {Related : α → β → Prop}
    {Made : α → β → γ → Prop} {lefts : List α} {rights : List β}
    (related : List.Forall₂ Related lefts rights)
    (made : ∀ left right, Related left right →
      ∃ item, Made left right item) :
    ∃ items, List.Forall₂ (fun left item => ∃ right,
        Made left right item) lefts items ∧
      List.Forall₂ (fun right item => ∃ left,
        Made left right item) rights items := by
  induction related with
  | nil => exact ⟨[], .nil, .nil⟩
  | @cons left right lefts rights here _ induction =>
      obtain ⟨item, itemMade⟩ := made left right here
      obtain ⟨items, ofLefts, ofRights⟩ := induction
      exact ⟨item :: items, .cons ⟨right, itemMade⟩ ofLefts,
        .cons ⟨left, itemMade⟩ ofRights⟩

theorem forall_of_forall₂ {α β : Type} {property : β → Prop} {lefts : List α}
    {items : List β}
    (related : List.Forall₂ (fun _ item => property item) lefts items) :
    ∀ item ∈ items, property item := by
  induction related with
  | nil => simp
  | cons here _ induction =>
      intro item member
      rcases List.mem_cons.mp member with rfl | later
      · exact here
      · exact induction item later

theorem sizes_given (sane : python.Sane) {sizes : List Nat}
    (small : ∀ size ∈ sizes, size < 2 ^ 127) (target : PvField) :
    ∃ items, ((PyObj.list (sizes.map NTNDArray.dimension)).assign python
        (.structArray "dimension_t".toList NTNDArray.dimensionMembers)
        target).result =
        .ok (.structArray (items.map fun subs =>
          some ("dimension_t".toList, subs))) ∧
      List.Forall₂ (fun size subs => PvField.named? subs "size".toList =
        some (.scalar (.int (Int32.ofInt (size : Nat))))) sizes items ∧
      ∀ subs ∈ items, IsCopy python
        (.struct "dimension_t".toList NTNDArray.dimensionMembers)
        (.struct "dimension_t".toList subs) := by
  obtain ⟨items, related⟩ := exists_forall₂ fun size member =>
    @dimension_gives python sane size (small size member)
  refine ⟨items, PyObj.assign_structs ?_ target,
    related.imp fun _ _ given => given.2.1,
    forall_of_forall₂ (related.imp fun _ _ given => given.2.2)⟩
  rw [List.forall₂_map_left_iff]
  refine related.imp fun _ _ given => ⟨rfl, ?_⟩
  rw [sane.default]
  exact given.1

/-- What `translateNDAttribute` makes of an attribute that is no `Value`. -/
def translated (entry : Str × Attribute) : PyObj :=
  .strDict [("name".toList, .str entry.1), ("value".toList, entry.2.toObj)]

theorem Passes.attribute (sane : python.Sane) {entry back : Str × Attribute}
    (passes : Passes python entry back) :
    ∃ subs, ((translated entry).assign python
        (.struct "epics:nt/NTAttribute:1.0".toList NTNDArray.attributeMembers)
        (zeroField (.struct "epics:nt/NTAttribute:1.0".toList
          NTNDArray.attributeMembers))).result =
        .ok (.struct "epics:nt/NTAttribute:1.0".toList subs) ∧
      HoldsAttribute python back subs ∧
      IsCopy python
        (.struct "epics:nt/NTAttribute:1.0".toList NTNDArray.attributeMembers)
        (.struct "epics:nt/NTAttribute:1.0".toList subs) := by
  obtain ⟨obj, stored, shown, is, assigned, holds, backIs⟩ := passes.stored
  obtain ⟨subs, ended, name, content, copy⟩ :=
    attribute_gives sane passes.kept assigned holds
  refine ⟨subs, ?_, ⟨?_, ?_, stored, shown, content, holds, backIs⟩, copy⟩
  · rw [translated, is]
    exact ended
  · rw [passes.name]
    exact passes.kept
  · rw [passes.name]
    exact name

theorem attributes_given (sane : python.Sane)
    {attribs backs : List (Str × Attribute)}
    (passes : List.Forall₂ (Passes python) attribs backs)
    (target : PvField) :
    ∃ items, ((PyObj.list (attribs.map translated)).assign python
        (.structArray "epics:nt/NTAttribute:1.0".toList
          NTNDArray.attributeMembers) target).result =
        .ok (.structArray (items.map fun subs =>
          some ("epics:nt/NTAttribute:1.0".toList, subs))) ∧
      List.Forall₂ (HoldsAttribute python) backs items ∧
      ∀ subs ∈ items, IsCopy python
        (.struct "epics:nt/NTAttribute:1.0".toList NTNDArray.attributeMembers)
        (.struct "epics:nt/NTAttribute:1.0".toList subs) := by
  obtain ⟨items, translations, holds⟩ := exists_items passes
    fun _ _ passes => passes.attribute sane
  refine ⟨items, PyObj.assign_structs ?_ target, ?_, ?_⟩
  · rw [List.forall₂_map_left_iff]
    refine translations.imp ?_
    rintro entry subs ⟨back, assigned, -⟩
    rw [sane.default]
    exact ⟨rfl, assigned⟩
  · exact holds.imp fun back subs ⟨_, _, holds, _⟩ => holds
  · exact forall_of_forall₂
      (holds.imp fun back subs ⟨_, _, _, copy⟩ => copy)

theorem image_zeros (empty : python.asStrLossy [] = []) :
    ∀ member ∈ NTNDArray.members [],
      IsCopy python member.2 (zeroField member.2) := by
  have codec : IsCopy python (.struct "codec_t".toList
      [("name".toList, .scalar .string), ("parameters".toList, .variant)])
      (zeroField (.struct "codec_t".toList
        [("name".toList, .scalar .string),
          ("parameters".toList, .variant)])) := by
    refine .zeroStruct _ (by simp) ?_
    intro member inMembers
    rcases List.mem_pair.mp inMembers with rfl | rfl
    all_goals exact .zero empty id (by simp)
  intro member inMembers
  simp only [NTNDArray.members, List.append_nil, List.mem_cons,
    List.not_mem_nil, or_false] at inMembers
  rcases inMembers with rfl | rfl | rfl | rfl | rfl | rfl | rfl | rfl | rfl |
    rfl
  case inr.inl => exact codec
  case inr.inr.inr.inr.inr.inl => exact timeStamp_copy empty
  case inr.inr.inr.inr.inr.inr.inl => exact alarm_copy empty
  case inr.inr.inr.inr.inr.inr.inr.inl => exact timeStamp_copy empty
  all_goals exact .zero empty id (by simp)

/-- The dict for an array and some attributes is taken if the attributes
pass. -/
theorem create_stores {lib : PvData} (lawful : lib.Lawful)
    (sane : python.Sane) (extra : List (Str × FieldDesc))
    {value : Ndarray} (sound : value.Sound) (number : value.dtype ≠ .string)
    (small : ∀ size ∈ value.shape, size < 2 ^ 127)
    {attribs backs : List (Str × Attribute)}
    (passes : List.Forall₂ (Passes python) attribs backs) :
    ∃ name V, NTNDArray.code2u value.dtype = some name ∧
      Root.create lib python.conversions (NTNDArray.buildType extra)
        (.strDict (NTNDArray.initial value name (attribs.map translated))) =
          .ok V ∧
      Stores python extra value backs V ∧
      (extra = [] → IsCopy python (NTNDArray.buildType []) V.field) := by
  have bytes := sound.small
  obtain ⟨name, index, code, variant, pixels, pixelsCopy⟩ :=
    union_gives sane.lawful number sound.typed
      (zeroField (.union [] NTNDArray.valueMembers))
  obtain ⟨sizeItems, sizesTaken, sizes, sizesCopy⟩ := sizes_given sane
    (fun size member => small size (List.mem_reverse.mp member))
    (zeroField (.structArray "dimension_t".toList
      NTNDArray.dimensionMembers))
  obtain ⟨attributeItems, attributesTaken, attributes, attributesCopy⟩ :=
    attributes_given sane passes (zeroField (.structArray
      "epics:nt/NTAttribute:1.0".toList NTNDArray.attributeMembers))
  have pixelsGiven : GivesCopy python (NTNDArray.members extra)
      ("value".toList, .tuple [.str name, .array value.dtype
        value.array.ravel]) _ := .of rfl pixels pixelsCopy
  have sizesGiven : GivesCopy python (NTNDArray.members extra)
      ("dimension".toList, .list (value.shape.reverse.map
        NTNDArray.dimension)) _ :=
    .of rfl sizesTaken (.structArray _ sizesCopy)
  have attributesGiven : GivesCopy python (NTNDArray.members extra)
      ("attribute".toList, .list (attribs.map translated)) _ :=
    .of rfl attributesTaken (.structArray _ attributesCopy)
  have distinct : ((NTNDArray.initial value name
      (attribs.map translated)).map Prod.fst).Nodup := by
    simp [NTNDArray.initial]
  have gives : ∀ entry ∈ NTNDArray.initial value name
      (attribs.map translated), ∃ field,
        GivesCopy python (NTNDArray.members extra) entry field := by
    intro entry member
    simp only [NTNDArray.initial, List.mem_cons, List.not_mem_nil,
      or_false] at member
    rcases member with rfl | rfl | rfl | rfl | rfl | rfl
    · exact ⟨_, pixelsGiven⟩
    · exact ⟨_, @GivesCopy.int python _ _ .long rfl nofun nofun _ (by omega)
        (by omega)⟩
    · exact ⟨_, @GivesCopy.int python _ _ .long rfl nofun nofun _ (by omega)
        (by omega)⟩
    · exact ⟨_, @GivesCopy.int python _ _ .int rfl nofun nofun _ (by omega)
        (by omega)⟩
    · exact ⟨_, attributesGiven⟩
    · exact ⟨_, sizesGiven⟩
  obtain ⟨subs, ended, given⟩ := @strDict_gives python
    "epics:nt/NTNDArray:1.0".toList (NTNDArray.members extra) _ distinct
    fun entry member => (gives entry member).imp fun _ given => given.takes
  have created := ended
  rw [← sane.default] at created
  obtain ⟨V, created, desc, field⟩ :=
    (Root.create_iff lawful (NTNDArray.buildType extra) _ _).mpr created
  have read {key : Str} {obj : PyObj} {member : PvField}
      (inEntries : (key, obj) ∈
        NTNDArray.initial value name (attribs.map translated))
      (given_ : GivesCopy python (NTNDArray.members extra) (key, obj)
        member) : V.field.atPath? [key] = some member := by
    rw [field, PvField.atPath?_single]
    exact given _ inEntries _ given_.takes
  refine ⟨name, V, code, created, ⟨desc, ⟨name, index, variant, ?_⟩,
    ⟨sizeItems, ?_, sizes⟩, ⟨attributeItems, ?_, attributes⟩⟩, ?_⟩
  · exact read (by simp [NTNDArray.initial]) pixelsGiven
  · exact read (by simp [NTNDArray.initial]) sizesGiven
  · exact read (by simp [NTNDArray.initial]) attributesGiven
  · rintro rfl
    obtain ⟨others, otherEnded, -, copy⟩ := @strDict_copies python
      "epics:nt/NTNDArray:1.0".toList (NTNDArray.members [])
      (by simp [NTNDArray.members]) (image_zeros sane.empty) _ distinct gives
    rw [field]
    cases ended.symm.trans otherEnded
    exact copy

end Stored

section Read

variable {python : Python} {extra : List (Str × FieldDesc)}
  {value : Ndarray} {attribs : List (Str × Attribute)} {V : Root}

theorem Stores.get_value (stores : Stores python extra value attribs V)
    (number : value.dtype ≠ .string) :
    V.get python "value".toList =
      .ok (.array value.dtype value.array.ravel) := by
  obtain ⟨name, index, variant, read⟩ := stores.pixels
  have named : ∀ name ∈ ["value".toList], MemberName name := by
    simp [Separated.IsKey]
  have found : V.desc.atPath? ["value".toList] =
      some (.union [] NTNDArray.valueMembers) := by
    rw [stores.desc]
    rfl
  have full : (Handle.mk 0 V []).full "value".toList =
      dotted ["value".toList] := rfl
  rw [Root.get, Handle.item_leaf full named found id read, toPy, variant]
  simp only [toPy_typed, Python.typedArrayToPy, if_neg number]

/-- A size as it is stored. -/
def storedSize (size : Nat) : Int :=
  (Int32.ofInt size).toInt

theorem storedSize_small {size : Nat} (small : size < 2 ^ 31) :
    storedSize size = size :=
  Int32.toInt_ofInt_of_le (by omega) (by omega)

theorem Stores.read_sizes (stores : Stores python extra value attribs V) :
    NTNDArray.sizes python V =
      .ok (value.shape.reverse.map storedSize) := by
  obtain ⟨items, read, sizes⟩ := stores.sizes
  have desc : descAt V.desc "dimension".toList =
      some (.structArray "dimension_t".toList
        NTNDArray.dimensionMembers) := by
    rw [stores.desc]
    rfl
  have field : fieldAt V.field "dimension".toList =
      some (.structArray (items.map fun subs =>
        some ("dimension_t".toList, subs))) := read
  rw [NTNDArray.sizes, NTNDArray.structures, desc, field]
  simp only [bind, Except.bind, List.map_map]
  rw [List.mapM_map]
  refine mapM_forall₂ (sizes.imp ?_)
  intro size subs stored
  have named : MemberName "size".toList := by simp [Separated.IsKey]
  have shown : toPy python false (.scalar (.int (Int32.ofInt (size : Nat))))
      (.scalar .int) = .ok (.int (storedSize size)) := by
    rw [toPy]
    rfl
  have read : Root.get python ⟨.struct "dimension_t".toList
      NTNDArray.dimensionMembers, .struct "dimension_t".toList subs, ∅⟩
        "size".toList = .ok (.int (storedSize size)) :=
    (Root.get_leaf named rfl id stored ∅).trans shown
  simp only [Function.comp_apply, Option.map_some, read]
  rfl

theorem reshape_ravel (array : Strided ScalarValue) :
    NTNDArray.reshape array.ravel (array.shape.map Int.ofNat) =
      .ok (Strided.reshape array.ravel array.shape array.length_ravel) := by
  have sizes : NTNDArray.sizesFor array.ravel.length
      (array.shape.map Int.ofNat) = some array.shape := by
    have negative : (array.shape.map Int.ofNat).filter (· < 0) = [] := by
      simp
    have known : ((array.shape.map Int.ofNat).filter (0 ≤ ·)).map Int.toNat =
        array.shape := by
      have all : (array.shape.map Int.ofNat).filter (0 ≤ ·) =
          array.shape.map Int.ofNat := by
        rw [List.filter_eq_self]
        intro size member
        obtain ⟨length, -, rfl⟩ := List.mem_map.mp member
        exact decide_eq_true (Int.natCast_nonneg length)
      rw [all, List.map_map]
      exact List.map_id' _
    rw [NTNDArray.sizesFor, negative, known]
    exact if_pos array.length_ravel
  rw [NTNDArray.reshape, sizes]
  simp only
  rw [dif_pos array.length_ravel]

theorem attributeOf_leaf {structId fieldId : Str}
    {members : List (Str × FieldDesc)} {subs : List (Str × PvField)}
    {name : Str} (named : MemberName name)
    (found : FieldDesc.named? members name = some .variant)
    {stored : PvField} (read : PvField.named? subs name = some stored)
    {shown : PyObj} (holds : HoldsLeaf python stored shown) :
    NTNDArray.attributeOf python
      ⟨.struct structId members, .struct fieldId subs, ∅⟩ name =
        .ok (.obj shown) := by
  have path : ∀ label ∈ [name], MemberName label := by simpa using named
  have field : fieldAt (.struct fieldId subs) name = some stored := by
    have at_ := fieldAt_dotted (.struct fieldId subs) path
    rw [dotted, Separated.render_singleton] at at_
    exact at_.trans ((PvField.atPath?_single _ _).trans read)
  have desc : descAt (.struct structId members) name = some .variant := by
    have at_ := descAt_dotted (.struct structId members) path
    rw [dotted, Separated.render_singleton] at at_
    rw [at_, FieldDesc.atPath?_cons, FieldDesc.member?, found]
    exact FieldDesc.atPath?_nil _
  have obj : (Root.get python ⟨.struct structId members,
      .struct fieldId subs, ∅⟩ name).map Attribute.obj = .ok (.obj shown) := by
    rw [Root.get_leaf named found id read ∅, holds.shown false]
    rfl
  unfold NTNDArray.attributeOf
  simp only [desc, field]
  cases holds with
  | empty =>
      simp only [NTNDArray.contentOf]
      cases python.descriptor .null <;> exact obj
  | scalar value => exact obj
  | array scalarType items => exact obj

theorem Stores.read_attributes
    (stores : Stores python extra value attribs V)
    (keys : (attribs.map Prod.fst).Nodup) :
    NTNDArray.attributes python V = .ok attribs := by
  obtain ⟨items, read, stored⟩ := stores.attributes
  have desc : descAt V.desc "attribute".toList =
      some (.structArray "epics:nt/NTAttribute:1.0".toList
        NTNDArray.attributeMembers) := by
    rw [stores.desc]
    rfl
  have field : fieldAt V.field "attribute".toList =
      some (.structArray (items.map fun subs =>
        some ("epics:nt/NTAttribute:1.0".toList, subs))) := read
  rw [NTNDArray.attributes, NTNDArray.structures, desc, field]
  simp only [bind, Except.bind, List.map_map]
  rw [List.mapM_map, @mapM_forall₂ _ _ _ _ (id : Str × Attribute → _) attribs]
  · simp only [List.map_id, Dict.ofEntries_eq keys]
  · refine stored.imp ?_
    rintro ⟨name, entry⟩ subs ⟨kept, nameRead, stored, shown, valueRead,
      holds, is⟩
    have nameName : MemberName "name".toList := by simp [Separated.IsKey]
    have valueName : MemberName "value".toList := by simp [Separated.IsKey]
    have shownName : toPy python false (.scalar (.string name))
        (.scalar .string) = .ok (.str name) := by
      have same : python.asStrLossy name = name := kept
      rw [toPy, Python.scalarToPy, same]
    have readName : Root.get python ⟨.struct "epics:nt/NTAttribute:1.0".toList
        NTNDArray.attributeMembers,
          .struct "epics:nt/NTAttribute:1.0".toList subs, ∅⟩ "name".toList =
        .ok (.str name) :=
      (Root.get_leaf nameName rfl id nameRead ∅).trans shownName
    have readValue := @attributeOf_leaf python
      "epics:nt/NTAttribute:1.0".toList "epics:nt/NTAttribute:1.0".toList
      NTNDArray.attributeMembers subs _ valueName rfl _ valueRead _ holds
    cases is
    simp only [Function.comp_apply, Option.map_some, readName, readValue,
      PyObj.extractText]
    rfl

/-- The array that is read from a value, if its sizes are taken. -/
theorem Stores.unwrap_eq (stores : Stores python extra value attribs V)
    (number : value.dtype ≠ .string) (axes : value.shape ≠ [])
    (keys : (attribs.map Prod.fst).Nodup) :
    NTNDArray.unwrap python V =
      (NTNDArray.reshape value.array.ravel
        (value.shape.map storedSize)).map fun array => {
          array := ⟨value.dtype, array, attribs⟩
          status := intAt V "alarm.status".toList
          severity := intAt V "alarm.severity".toList
          stamp := stampOf V } := by
  have shape : (value.shape.reverse.map storedSize).reverse =
      value.shape.map storedSize := by
    rw [List.map_reverse, List.reverse_reverse]
  have some : value.shape.map storedSize ≠ [] := by simpa using axes
  rw [NTNDArray.unwrap, stores.get_value number]
  simp only [bind, Except.bind, NTNDArray.pixels, stores.read_sizes,
    shape, if_neg some, stores.read_attributes keys]
  cases NTNDArray.reshape value.array.ravel
    (value.shape.map storedSize) with
  | error error => rfl
  | ok array => rfl

/-- The array and the attributes are read as they were stored. -/
theorem Stores.unwrap (stores : Stores python extra value attribs V)
    (number : value.dtype ≠ .string) (axes : value.shape ≠ [])
    (small : ∀ size ∈ value.shape, size < 2 ^ 31)
    (keys : (attribs.map Prod.fst).Nodup) :
    NTNDArray.unwrap python V = .ok {
      array := ⟨value.dtype, Strided.reshape value.array.ravel value.shape
        value.array.length_ravel, attribs⟩
      status := intAt V "alarm.status".toList
      severity := intAt V "alarm.severity".toList
      stamp := stampOf V } := by
  have sizes : value.shape.map storedSize = value.shape.map Int.ofNat :=
    List.map_congr_left fun size member => storedSize_small (small size member)
  have reshaped : NTNDArray.reshape value.array.ravel
      (value.shape.map Int.ofNat) = .ok _ := reshape_ravel value.array
  rw [stores.unwrap_eq number axes keys, sizes, reshaped]
  rfl

end Read

theorem deduced_gives {shape : List Nat} {attrib : List (Str × Attribute)}
    (color : shape.length = 3 →
      3 ∈ shape ∨ "ColorMode".toList ∈ attrib.map Prod.fst) :
    ∃ deduced, Deduced shape attrib deduced ∧
      NTNDArray.withColorMode shape attrib = .ok (attrib ++ deduced) := by
  have lookup : (attrib.lookup "ColorMode".toList).isSome ↔
      "ColorMode".toList ∈ attrib.map Prod.fst := by
    rw [List.lookup_isSome_iff, List.mem_map]
    simp only [beq_iff_eq, @eq_comm _ "ColorMode".toList]
  by_cases given : "ColorMode".toList ∈ attrib.map Prod.fst
  · refine ⟨[], .given given, ?_⟩
    rw [NTNDArray.withColorMode, if_pos (lookup.mpr given), List.append_nil]
  · have put (mode : Int) := Dict.put_fresh given (.obj (.int mode))
    simp only [NTNDArray.withColorMode, if_neg fun is => given (lookup.mp is),
      put]
    by_cases plane : shape.length = 2
    · exact ⟨_, .mono given plane, if_pos plane⟩
    · by_cases space : shape.length = 3
      · have colored : 3 ∈ shape.reverse :=
          List.mem_reverse.mpr ((color space).resolve_right given)
        cases found : shape.reverse.findIdx? (· = 3) with
        | none =>
            have never := List.findIdx?_eq_none_iff.mp found 3 colored
            cases never
        | some axis =>
            obtain ⟨small, here, -⟩ :=
              List.findIdx?_eq_some_iff_getElem.mp found
            have length : shape.reverse[axis]? = some 3 := by
              rw [List.getElem?_eq_getElem small, of_decide_eq_true here]
            refine ⟨_, .color given space length, ?_⟩
            rw [if_neg plane, if_pos space]
      · refine ⟨[], .other given ⟨plane, space⟩, ?_⟩
        rw [if_neg plane, if_neg space, List.append_nil]

theorem wrap_own {lib : PvData} {python : Python}
    {extra : List (Str × FieldDesc)} {value : Ndarray}
    (own : value.attrib ≠ []) (attrib : List (Str × Attribute)) (V : Root) :
    NTNDArray.wrap lib python extra value (some attrib) ≠ .ok V := by
  have notEmpty : value.attrib.isEmpty = false := by simpa using own
  intro wrapped
  simp only [NTNDArray.wrap, notEmpty, bind, Except.bind, Bool.not_false,
    Bool.true_and, Option.isSome_some, if_true] at wrapped
  repeat' split at wrapped
  all_goals cases wrapped

namespace Deduced

variable {shape : List Nat} {attrib deduced : List (Str × Attribute)}

theorem plain (is : Deduced shape attrib deduced) :
    ∀ entry ∈ deduced, entry.2.IsPlain := by
  intro entry member
  cases is with
  | given => cases member
  | mono =>
      rw [List.mem_singleton.mp member]
      exact ⟨by omega, by omega⟩
  | @color _ rank axis length =>
      have small := (List.getElem?_eq_some_iff.mp length).1
      rw [List.length_reverse] at small
      rw [List.mem_singleton.mp member]
      exact ⟨by omega, by omega⟩
  | other => cases member

theorem keys (is : Deduced shape attrib deduced)
    (distinct : (attrib.map Prod.fst).Nodup) :
    ((attrib ++ deduced).map Prod.fst).Nodup := by
  have fresh (absent : "ColorMode".toList ∉ attrib.map Prod.fst)
      (mode : Attribute) : ((attrib ++
        [("ColorMode".toList, mode)]).map Prod.fst).Nodup := by
    rw [List.map_append, List.map_singleton, ← List.concat_eq_append]
    exact distinct.concat absent
  cases is with
  | given => rwa [List.append_nil]
  | mono absent => exact fresh absent _
  | color absent => exact fresh absent _
  | other => rwa [List.append_nil]

end Deduced

/-- An array without attributes of its own is wrapped with the given and the
deduced ones. -/
theorem wrap_stores {lib : PvData} {python : Python} (lawful : lib.Lawful)
    (plainly : Plainly python) (extra : List (Str × FieldDesc))
    {value : Ndarray} (none : value.attrib = [])
    {attrib deduced : List (Str × Attribute)}
    (wrappable : Wrappable value attrib)
    (is : Deduced value.shape attrib deduced)
    (colored : NTNDArray.withColorMode value.shape attrib =
      .ok (attrib ++ deduced)) :
    ∃ V, NTNDArray.wrap lib python extra value (some attrib) = .ok V ∧
      Stores python extra value (attrib ++ deduced) V := by
  have plain : ∀ entry ∈ attrib ++ deduced, entry.2.IsPlain := by
    intro entry member
    rcases List.mem_append.mp member with given | added
    · exact wrappable.plain entry given
    · exact is.plain entry added
  have passes : List.Forall₂ (Passes python) (attrib ++ deduced)
      (attrib ++ deduced) :=
    List.forall₂_same.mpr fun entry member =>
      (plain entry member).passes plainly entry.1
  obtain ⟨name, V, code, created, stores, -⟩ := create_stores lawful
    plainly.sane extra wrappable.sound wrappable.supported
    (fun size member => by
      have small := wrappable.sizes size member
      omega) passes
  have empty : value.attrib.isEmpty = true := by rw [none]; rfl
  have objs : (attrib ++ deduced).mapM (fun entry =>
      NTNDArray.translateNDAttribute python entry.1 entry.2) =
      .ok ((attrib ++ deduced).map translated) := by
    refine mapM_ok fun entry member => ?_
    rw [(plain entry member).eq_obj]
    rfl
  refine ⟨V, ?_, stores⟩
  simp only [NTNDArray.wrap, empty, bind, Except.bind, Bool.not_true,
    Bool.false_and, Option.getD_some, Bool.false_eq_true, if_false, colored,
    code, objs, created]

/-- The round trip succeeds exactly for arrays without attributes of their
own. -/
theorem round_trip_iff {lib : PvData} {python : Python}
    (lawful : lib.Lawful) (plainly : Plainly python)
    (extra : List (Str × FieldDesc)) {value : Ndarray}
    {attrib : List (Str × Attribute)} (wrappable : Wrappable value attrib) :
    RoundTrip lib python extra value attrib ↔ value.attrib = [] := by
  constructor
  · rintro ⟨V, -, -, wrapped, -⟩
    by_contra own
    exact wrap_own own attrib V wrapped
  · intro none
    obtain ⟨deduced, is, colored⟩ := deduced_gives wrappable.color
    obtain ⟨V, wrapped, stores⟩ :=
      wrap_stores lawful plainly extra none wrappable is colored
    have unwrapped := stores.unwrap wrappable.supported wrappable.axes
      wrappable.sizes (is.keys wrappable.keys)
    refine ⟨V, _, deduced, wrapped, unwrapped, rfl, rfl, ?_, is, rfl⟩
    intro index within
    exact value.array.at?_reshape_ravel within

theorem simple_plainly : Plainly Python.simple where
  lawful := Python.simple_lawful
  text _ := rfl
  default _ := rfl

/-- Two rows of three numbers, transposed in memory. -/
def Ndarray.ramp : Ndarray where
  dtype := .short
  array := {
    shape := [2, 3]
    strides := [1, 2]
    offset := 0
    memory := [.short 0, .short 3, .short 1, .short 4, .short 2, .short 5]
    inside index within := by
      have stored : ∀ index ∈ Strided.indices [2, 3],
          (Strided.fetch [(.short 0 : ScalarValue), .short 3, .short 1,
            .short 4, .short 2, .short 5]
            (Strided.address 0 [1, 2] index)).isSome := by
        decide
      exact stored index (Strided.mem_indices_of_within within) }
  attrib := []

theorem ramp_wrappable :
    Wrappable Ndarray.ramp [("x".toList, .obj (.int 3))] where
  sound := ⟨by decide, by decide⟩
  supported := nofun
  axes := nofun
  sizes := by decide
  color := nofun
  keys := by simp
  plain := by simp [Attribute.IsPlain]

theorem ramp_round_trip :
    RoundTrip .depthFirst .simple [] Ndarray.ramp
      [("x".toList, .obj (.int 3))] :=
  (round_trip_iff PvData.depthFirst_lawful simple_plainly []
    ramp_wrappable).mpr rfl

/-- The array that `unwrap` gives cannot be wrapped with other attributes. -/
theorem unwrapped_not_wrapped :
    ∃ V out, NTNDArray.wrap .depthFirst .simple [] Ndarray.ramp none =
        .ok V ∧
      NTNDArray.unwrap .simple V = .ok out ∧
      Wrappable out.array [("x".toList, .obj (.int 3))] ∧
      ¬RoundTrip .depthFirst .simple [] out.array
        [("x".toList, .obj (.int 3))] := by
  refine ⟨_, _, rfl, rfl, ?_, ?_⟩
  · exact {
      sound := ⟨by decide, by decide⟩
      supported := nofun
      axes := nofun
      sizes := by decide
      color := nofun
      keys := by simp
      plain := by simp [Attribute.IsPlain] }
  · rintro ⟨V, -, -, wrapped, -⟩
    exact wrap_own (List.cons_ne_nil _ _) _ V wrapped

end Repics.Pva.Nt
