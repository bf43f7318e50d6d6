import Mathlib.Algebra.Group.Int.Defs
import Repics.Lib.Locking
import Repics.Pva.Value.Assign

/-!
# Python objects

The objects that conversions tell apart.  A `Value` is an object too: it has
the lock of its root, its type and the dict that `todict` makes of it.  What
is asked of a `Value` takes its lock, and so may a method of any class outside
the program.  What Python, numpy and the pvData library answer is the
parameter `Python`.
-/

namespace Repics.Pva

/-- `{:?}` of a scalar type. -/
def ScalarType.debug : ScalarType → Str
  | .boolean => "Boolean".toList
  | .byte => "Byte".toList
  | .ubyte => "UByte".toList
  | .short => "Short".toList
  | .ushort => "UShort".toList
  | .int => "Int".toList
  | .uint => "UInt".toList
  | .long => "Long".toList
  | .ulong => "ULong".toList
  | .float => "Float".toList
  | .double => "Double".toList
  | .string => "String".toList

namespace ScalarValue

def scalarType : ScalarValue → ScalarType
  | .boolean _ => .boolean
  | .byte _ => .byte
  | .ubyte _ => .ubyte
  | .short _ => .short
  | .ushort _ => .ushort
  | .int _ => .int
  | .uint _ => .uint
  | .long _ => .long
  | .ulong _ => .ulong
  | .float _ => .float
  | .double _ => .double
  | .string _ => .string

end ScalarValue

/-- What `dtype` and `shape`, or else a number, say of an object. -/
inductive Implied where
  | scalar (scalarType : ScalarType)
  | array (scalarType : ScalarType)

/-- The objects.  A `Value` that a conversion makes is detached: it has no
`root`, since nobody else can hold its lock.  An object of another class locks
the roots `locks` in its methods. -/
inductive PyObj where
  | none
  | bool (value : Bool)
  | int (value : Int)
  | float (bits : UInt64)
  | str (text : Str)
  | numpy (value : ScalarValue)
  | array (scalarType : ScalarType) (items : List ScalarValue)
  | list (items : List PyObj)
  | tuple (items : List PyObj)
  | dict (entries : List (PyObj × PyObj))
  | value (root : Option Nat) (structId : Str)
      (members : List (Str × FieldDesc)) (content : List (Str × PyObj))
  | other (implied : Option Implied) (iterable : Bool) (locks : List Nat)
      (items : List PyObj)

/-- What the conversions take from Python, numpy and the pvData library.
`float` and `double` are bit patterns. -/
structure Python where
  /-- `ScalarValue::parse` -/
  parse : ScalarType → Str → Except PyErr ScalarValue
  /-- `str(obj)` -/
  text : PyObj → Str
  typeName : PyObj → Str
  /-- `obj.extract::<i128>()` of an object with `__index__` -/
  index : PyObj → Option Int
  /-- `obj.extract::<f64>()` of an object with `__float__` -/
  number : PyObj → Option UInt64
  /-- `numpy.asarray(obj, dtype).ravel()` -/
  asarray : ScalarType → PyObj → Except PyErr (List ScalarValue)
  /-- the roots that `asarray` locks on its way -/
  asks : ScalarType → PyObj → List Nat
  defaultValueFor : FieldDesc → PvField
  asStrLossy : Str → Str
  descriptor : PvField → FieldDesc
  fromScalarValues : List ScalarValue → ScalarType →
    Option (List ScalarValue)
  /-- `x as f64` of an `f32` and back -/
  widen : UInt32 → UInt64
  narrow : UInt64 → UInt32
  /-- `i as f32`, `i as f64`, `f as i128`, `f.to_string()` -/
  floatOf : Int → UInt32
  doubleOf : Int → UInt64
  truncate : UInt64 → Int
  doubleText : UInt64 → Str

namespace PyObj

mutual

/-- The roots of the values in an object, at any depth, and those that its
methods lock. -/
def roots : PyObj → List Nat
  | .list items | .tuple items => itemRoots items
  | .dict entries => entryRoots entries
  | .value root _ _ content => root.toList ++ contentRoots content
  | .other _ _ locks items => locks ++ itemRoots items
  | .none | .bool _ | .int _ | .float _ | .str _ | .numpy _ | .array _ _ => []

def itemRoots : List PyObj → List Nat
  | [] => []
  | item :: rest => item.roots ++ itemRoots rest

def entryRoots : List (PyObj × PyObj) → List Nat
  | [] => []
  | (key, item) :: rest => key.roots ++ item.roots ++ entryRoots rest

def contentRoots : List (Str × PyObj) → List Nat
  | [] => []
  | (_, item) :: rest => item.roots ++ contentRoots rest

end

/-- The object is, or contains at some depth, a value of a root, or its
methods lock that root. -/
def Refers (obj : PyObj) (root : Nat) : Prop :=
  root ∈ obj.roots

/-- The roots that asking the object itself locks. -/
def locks : PyObj → List Nat
  | .value root _ _ _ => root.toList
  | .other _ _ locks _ => locks
  | _ => []

/-- The roots that asking the object for a number locks: a `Value` is none. -/
def numberLocks : PyObj → List Nat
  | .other _ _ locks _ => locks
  | _ => []

def isNone : PyObj → Bool
  | .none => true
  | _ => false

/-- An instance of `str`. -/
def isStr : PyObj → Bool
  | .str _ | .numpy (.string _) => true
  | _ => false

def isDict : PyObj → Bool
  | .dict _ => true
  | _ => false

def isTuple : PyObj → Bool
  | .tuple _ => true
  | _ => false

/-- `obj.extract::<String>()` -/
def extractText : PyObj → Except PyErr Str
  | .str text | .numpy (.string text) => .ok text
  | _ => .error (.conversion "argument is not a 'str'".toList)

end PyObj

/-- What an object answers, with the roots locked for the answer. -/
abbrev Asking (α : Type) : Type :=
  Locking Nat PyErr α

namespace Python

variable (python : Python)

/-- The conversion of an integer wraps around. -/
def intToScalar (value : Int) : ScalarType → ScalarValue
  | .boolean => .boolean (value ≠ 0)
  | .byte => .byte (Int8.ofInt value)
  | .ubyte => .ubyte (UInt8.ofInt value)
  | .short => .short (Int16.ofInt value)
  | .ushort => .ushort (UInt16.ofInt value)
  | .int => .int (Int32.ofInt value)
  | .uint => .uint (UInt32.ofInt value)
  | .long => .long (Int64.ofInt value)
  | .ulong => .ulong (UInt64.ofInt value)
  | .float => .float (python.floatOf value)
  | .double => .double (python.doubleOf value)
  | .string => .string (toString value).toList

def floatToScalar (bits : UInt64) : ScalarType → ScalarValue
  | .float => .float (python.narrow bits)
  | .double => .double bits
  | .string => .string (python.doubleText bits)
  | scalarType => python.intToScalar (python.truncate bits) scalarType

def boolToScalar (value : Bool) : ScalarType → ScalarValue
  | .boolean => .boolean value
  | .string => .string (if value then "true" else "false").toList
  | scalarType => python.intToScalar (if value then 1 else 0) scalarType

/-- `extract::<i128>()` of an `int` -/
def extractInt (value : Int) : Except PyErr Int :=
  if -2 ^ 127 ≤ value ∧ value < 2 ^ 127 then .ok value
  else .error (.conversion "int too big to convert".toList)

def pyToScalar (obj : PyObj) (scalarType : ScalarType) :
    Asking ScalarValue :=
  match obj with
  | .str text | .numpy (.string text) =>
      .lift (python.parse scalarType text)
  | .bool value => pure (python.boolToScalar value scalarType)
  | obj =>
      if scalarType = .string then do
        Locking.touch obj.roots
        pure (.string (python.text obj))
      else
        match obj with
        | .int value =>
            .lift ((extractInt value).map fun value =>
              python.intToScalar value scalarType)
        | .float bits | .numpy (.double bits) =>
            pure (python.floatToScalar bits scalarType)
        | obj => do
            Locking.touch obj.numberLocks
            match python.index obj, python.number obj with
            | some value, _ => pure (python.intToScalar value scalarType)
            | none, some bits => pure (python.floatToScalar bits scalarType)
            | none, none => Locking.fail (.conversion
                ("cannot assign ".toList ++ python.typeName obj ++
                  " to a ".toList ++ scalarType.debug ++ " field".toList))

end Python

/-- The type of a variant to which an object is assigned. -/
def inferDesc (python : Python) (obj : PyObj) : Asking (Option FieldDesc) :=
  match obj with
  | .none => pure none
  | .value root structId members _ => do
      Locking.touch root.toList
      pure (some (.struct structId members))
  | .bool _ => pure (some (.scalar .boolean))
  | .int _ => pure (some (.scalar .long))
  | .float _ => pure (some (.scalar .double))
  | .str _ => pure (some (.scalar .string))
  | .numpy value => pure (some (.scalar value.scalarType))
  | .array scalarType _ => pure (some (.scalarArray scalarType))
  | .list items =>
      pure (some (.scalarArray
        (if items ≠ [] ∧ items.all PyObj.isStr then .string else .double)))
  | .other (some (.scalar scalarType)) _ locks _ => do
      Locking.touch locks
      pure (some (.scalar scalarType))
  | .other (some (.array scalarType)) _ locks _ => do
      Locking.touch locks
      pure (some (.scalarArray scalarType))
  | .other none _ locks _ => do
      Locking.touch locks
      cannotInfer
  | .tuple _ | .dict _ => cannotInfer
where
  cannotInfer : Asking (Option FieldDesc) :=
    Locking.fail (.conversion
      ("cannot infer a pvData type for ".toList ++ python.typeName obj))

/-- The first member of a union that satisfies a predicate. -/
def findVariant (accepts : Str → FieldDesc → Bool)
    (variants : List (Str × FieldDesc)) : Option (Nat × Str × FieldDesc) :=
  (variants.zipIdx.find? fun variant =>
    accepts variant.1.1 variant.1.2).map fun variant =>
      (variant.2, variant.1.1, variant.1.2)

/-- The member takes an object that implies the type `wanted`. -/
def accepts (wanted : Option FieldDesc) (member : FieldDesc) : Bool :=
  match wanted, member with
  | some (.scalar .string), .scalar .string => true
  | some (.scalar .boolean), .scalar .boolean => true
  | some (.scalar .long), .scalar scalarType =>
      decide (scalarType ≠ .string ∧ scalarType ≠ .boolean)
  | some (.scalar .double), .scalar scalarType =>
      decide (scalarType = .double ∨ scalarType = .float)
  | some (.scalarArray item), .scalarArray scalarType =>
      decide (item = scalarType)
  | some (.struct _ _), .struct _ _ => true
  | _, _ => false

/-- The second pass takes any array for an array and any number for a
number. -/
def acceptsLoosely (wanted : Option FieldDesc) (member : FieldDesc) : Bool :=
  match wanted, member with
  | some (.scalarArray _), .scalarArray _ => true
  | some (.scalar .double), .scalar scalarType =>
      decide (scalarType ≠ .string ∧ scalarType ≠ .boolean)
  | _, _ => false

/-- The member chosen for the type that an object implies. -/
def memberFor (variants : List (Str × FieldDesc))
    (wanted : Option FieldDesc) : Option (Nat × Str × FieldDesc) :=
  (findVariant (fun _ => accepts wanted) variants).or
    (findVariant (fun _ => acceptsLoosely wanted) variants)

def pickUnionVariant (python : Python) (variants : List (Str × FieldDesc))
    (obj : PyObj) : Asking (Nat × Str × FieldDesc) := do
  let wanted ← inferDesc python obj
  match memberFor variants wanted with
  | some found => pure found
  | none =>
      match findVariant (fun _ desc => obj.isDict && decide desc.IsStructure)
          variants with
      | some found => pure found
      | none => Locking.fail (.conversion
          ("no union member accepts a ".toList ++ python.typeName obj ++
            "; select one with (name, value)".toList))

mutual

/-- The zero value of a type. -/
def zeroField : FieldDesc → PvField
  | .scalar .boolean => .scalar (.boolean false)
  | .scalar .byte => .scalar (.byte 0)
  | .scalar .ubyte => .scalar (.ubyte 0)
  | .scalar .short => .scalar (.short 0)
  | .scalar .ushort => .scalar (.ushort 0)
  | .scalar .int => .scalar (.int 0)
  | .scalar .uint => .scalar (.uint 0)
  | .scalar .long => .scalar (.long 0)
  | .scalar .ulong => .scalar (.ulong 0)
  | .scalar .float => .scalar (.float 0)
  | .scalar .double => .scalar (.double 0)
  | .scalar .string => .scalar (.string [])
  | .scalarArray scalarType => .scalarArrayTyped scalarType []
  | .struct structId fields => .struct structId (zeroMembers fields)
  | .structArray _ _ => .structArray []
  | .union _ _ => .union (-1) [] .null
  | .unionArray _ _ => .unionArray []
  | .variant => .variant none .null
  | .variantArray => .variantArray []

def zeroMembers : List (Str × FieldDesc) → List (Str × PvField)
  | [] => []
  | (name, desc) :: rest => (name, zeroField desc) :: zeroMembers rest

end

/-- A Python in which nothing but a `str` has a text and nothing but an array
of the right type is an array. -/
def Python.simple : Python where
  parse
    | .string, text => .ok (.string text)
    | _, text => .error (.conversion text)
  text
    | .str text => text
    | _ => []
  typeName _ := []
  index _ := none
  number _ := none
  asarray scalarType
    | .array itemType items =>
        if itemType = scalarType then .ok items
        else .error (.conversion [])
    | _ => .error (.conversion [])
  asks _ obj := obj.roots
  defaultValueFor := zeroField
  asStrLossy text := text
  descriptor _ := .variant
  fromScalarValues items _ := some items
  widen bits := bits.toUInt64
  narrow bits := bits.toUInt32
  floatOf _ := 0
  doubleOf _ := 0
  truncate _ := 0
  doubleText _ := []

namespace PyObj

/-- The objects that an object is made of. -/
def children : PyObj → List PyObj
  | .list items | .tuple items | .other _ _ _ items => items
  | .dict entries => entries.flatMap fun entry => [entry.1, entry.2]
  | .value _ _ _ content => content.map Prod.snd
  | _ => []

mutual

/-- What holds of an object because it holds of the objects it is made of
holds of every object. -/
theorem childInduction {motive : PyObj → Prop}
    (step : ∀ obj : PyObj, (∀ child ∈ obj.children, motive child) →
      motive obj)
    (obj : PyObj) : motive obj := by
  apply step
  cases obj with
  | list items => exact itemInduction step items
  | tuple items => exact itemInduction step items
  | dict entries => exact entryInduction step entries
  | value _ _ _ content => exact contentInduction step content
  | other _ _ _ items => exact itemInduction step items
  | _ => simp [children]

theorem itemInduction {motive : PyObj → Prop}
    (step : ∀ obj : PyObj, (∀ child ∈ obj.children, motive child) →
      motive obj)
    (items : List PyObj) :
    ∀ child ∈ items, motive child := by
  cases items with
  | nil => simp
  | cons item rest =>
      intro child member
      rcases List.mem_cons.mp member with here | later
      · rw [here]
        exact childInduction step item
      · exact itemInduction step rest child later

theorem entryInduction {motive : PyObj → Prop}
    (step : ∀ obj : PyObj, (∀ child ∈ obj.children, motive child) →
      motive obj)
    (entries : List (PyObj × PyObj)) :
    ∀ child ∈ entries.flatMap fun entry => [entry.1, entry.2],
      motive child := by
  cases entries with
  | nil => simp
  | cons entry rest =>
      obtain ⟨key, item⟩ := entry
      intro child member
      rcases List.mem_append.mp member with here | later
      · rcases List.mem_cons.mp here with first | second
        · have same : child = key := first
          rw [same]
          exact childInduction step key
        · rw [List.mem_singleton.mp second]
          exact childInduction step item
      · exact entryInduction step rest child later

theorem contentInduction {motive : PyObj → Prop}
    (step : ∀ obj : PyObj, (∀ child ∈ obj.children, motive child) →
      motive obj)
    (content : List (Str × PyObj)) :
    ∀ child ∈ content.map Prod.snd, motive child := by
  cases content with
  | nil => simp
  | cons entry rest =>
      obtain ⟨name, item⟩ := entry
      intro child member
      rcases List.mem_cons.mp member with here | later
      · have same : child = item := here
        rw [same]
        exact childInduction step item
      · exact contentInduction step rest child later

end

theorem mem_itemRoots {items : List PyObj} {item : PyObj}
    (member : item ∈ items) : item.roots ⊆ itemRoots items := by
  induction items with
  | nil => cases member
  | cons first rest induction =>
      rw [itemRoots]
      rcases List.mem_cons.mp member with rfl | later
      · exact List.subset_append_left _ _
      · exact List.Subset.trans (induction later) (List.subset_append_right _ _)

theorem mem_entryRoots {entries : List (PyObj × PyObj)}
    {entry : PyObj × PyObj} (member : entry ∈ entries) :
    entry.1.roots ⊆ entryRoots entries ∧
      entry.2.roots ⊆ entryRoots entries := by
  induction entries with
  | nil => cases member
  | cons first rest induction =>
      obtain ⟨key, item⟩ := first
      rw [entryRoots]
      rcases List.mem_cons.mp member with rfl | later
      · simp
      · obtain ⟨keyRoots, itemRoots⟩ := induction later
        exact ⟨List.Subset.trans keyRoots (List.subset_append_right _ _),
          List.Subset.trans itemRoots (List.subset_append_right _ _)⟩

theorem mem_contentRoots {content : List (Str × PyObj)}
    {entry : Str × PyObj} (member : entry ∈ content) :
    entry.2.roots ⊆ contentRoots content := by
  induction content with
  | nil => cases member
  | cons first rest induction =>
      obtain ⟨name, item⟩ := first
      rw [contentRoots]
      rcases List.mem_cons.mp member with rfl | later
      · exact List.subset_append_left _ _
      · exact List.Subset.trans (induction later) (List.subset_append_right _ _)

/-- An object refers to what the objects it is made of refer to. -/
theorem child_roots {obj child : PyObj} (member : child ∈ obj.children) :
    child.roots ⊆ obj.roots := by
  cases obj with
  | list items => exact mem_itemRoots member
  | tuple items => exact mem_itemRoots member
  | dict entries =>
      obtain ⟨entry, entryMember, part⟩ := List.mem_flatMap.mp member
      obtain ⟨keyRoots, itemRoots⟩ := mem_entryRoots entryMember
      rcases List.mem_cons.mp part with rfl | second
      · exact keyRoots
      · rw [List.mem_singleton.mp second]
        exact itemRoots
  | value root structId members content =>
      obtain ⟨entry, entryMember, rfl⟩ := List.mem_map.mp member
      exact List.Subset.trans (mem_contentRoots entryMember)
        (List.subset_append_right _ _)
  | other implied iterable locks items =>
      exact List.Subset.trans (mem_itemRoots member)
        (List.subset_append_right _ _)
  | _ => simp [children] at member

theorem locks_subset_roots (obj : PyObj) : obj.locks ⊆ obj.roots := by
  cases obj <;> simp [locks, roots]

theorem numberLocks_subset_roots (obj : PyObj) :
    obj.numberLocks ⊆ obj.roots := by
  cases obj <;> simp [numberLocks, roots]

end PyObj

end Repics.Pva
