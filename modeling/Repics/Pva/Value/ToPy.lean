import Repics.Pva.Value.Python

/-!
# Fields as Python objects

`field_to_py` and `field_to_plain_py` are one function here, told apart by
`plain`: with it structures become dicts, and without it detached `Value`s.
The elements of arrays of unions and of variants are never plain.  A detached
`Value` is made with the content that `todict` would give later.
-/

namespace Repics.Pva

namespace Python

variable (python : Python)

def scalarToPy : ScalarValue → PyObj
  | .boolean value => .bool value
  | .byte value => .int value.toInt
  | .ubyte value => .int value.toNat
  | .short value => .int value.toInt
  | .ushort value => .int value.toNat
  | .int value => .int value.toInt
  | .uint value => .int value.toNat
  | .long value => .int value.toInt
  | .ulong value => .int value.toNat
  | .float bits => .float (python.widen bits)
  | .double bits => .float bits
  | .string value => .str (python.asStrLossy value)

def typedArrayToPy (scalarType : ScalarType) (items : List ScalarValue) :
    PyObj :=
  if scalarType = .string then .list (items.map python.scalarToPy)
  else .array scalarType items

def untypedArrayToPy (scalarType : ScalarType) (items : List ScalarValue) :
    PyObj :=
  match python.fromScalarValues items scalarType with
  | some typed => python.typedArrayToPy scalarType typed
  | none => .list (items.map python.scalarToPy)

end Python

/-- `variants.get(usize::try_from(selector))` -/
def variantAt (variants : List (Str × FieldDesc)) :
    Int → Option (Str × FieldDesc)
  | .ofNat index => variants[index]?
  | .negSucc _ => none

/-- The entries of a dict of the members that have a field, in the order of
the members. -/
def dictOf (converters : List (Str × (FieldDesc → Except PyErr PyObj))) :
    List (Str × FieldDesc) → Except PyErr (List (Str × PyObj))
  | [] => .ok []
  | (name, child) :: rest =>
      match converters.find? (fun member => member.1 = name) with
      | none => dictOf converters rest
      | some (_, convert) =>
          match convert child, dictOf converters rest with
          | .ok obj, .ok others => .ok ((name, obj) :: others)
          | .error error, _ => .error error
          | _, .error error => .error error

def structForm (plain : Bool) (structId : Str)
    (members : List (Str × FieldDesc)) (content : List (Str × PyObj)) :
    PyObj :=
  if plain then .dict (content.map fun entry => (.str entry.1, entry.2))
  else .value none structId members content

/-- Put an object in front of a list of objects, unless one of them is an
error. -/
def consPy (obj : Except PyErr PyObj) (rest : Except PyErr (List PyObj)) :
    Except PyErr (List PyObj) :=
  match obj, rest with
  | .ok obj, .ok rest => .ok (obj :: rest)
  | .error error, _ => .error error
  | _, .error error => .error error

section ToPy

variable (python : Python)

mutual

def toPy : Bool → PvField → FieldDesc → Except PyErr PyObj
  | _, .scalar value, _ => .ok (python.scalarToPy value)
  | _, .scalarArrayTyped scalarType items, _ =>
      .ok (python.typedArrayToPy scalarType items)
  | _, .scalarArray items, .scalarArray scalarType =>
      .ok (python.untypedArrayToPy scalarType items)
  | _, .scalarArray items, _ =>
      .ok (python.untypedArrayToPy
        (items.head?.elim .double ScalarValue.scalarType) items)
  | plain, .struct _ fields, .struct structId members =>
      (dictOf (converters fields) members).map
        (structForm plain structId members)
  | plain, .structArray items, .structArray structId members =>
      (structItemsToPy plain items structId members).map .list
  | plain, .union selector _ value, .union _ variants =>
      match variantAt variants selector with
      | some (_, desc) => toPy plain value desc
      | none => .ok .none
  | _, .unionArray items, .unionArray _ variants =>
      (unionItemsToPy items variants).map .list
  | _, .variant _ .null, _ => .ok .none
  | plain, .variant (some desc) value, _ => toPy plain value desc
  | plain, .variant none value, _ =>
      toPy plain value (python.descriptor value)
  | _, .variantArray items, _ => (variantItemsToPy items).map .list
  | _, .null, _ => .ok .none
  | _, _, _ =>
      .error (.conversion "value does not fit descriptor".toList)

def converters :
    List (Str × PvField) → List (Str × (FieldDesc → Except PyErr PyObj))
  | [] => []
  | (name, field) :: rest => (name, toPy true field) :: converters rest

def structItemsToPy (plain : Bool) :
    List (Option (Str × List (Str × PvField))) → Str →
      List (Str × FieldDesc) → Except PyErr (List PyObj)
  | [], _, _ => .ok []
  | none :: rest, structId, members =>
      consPy (.ok .none) (structItemsToPy plain rest structId members)
  | some (_, fields) :: rest, structId, members =>
      consPy ((dictOf (converters fields) members).map
          (structForm plain structId members))
        (structItemsToPy plain rest structId members)

def unionItemsToPy : List (Option (Int × Str × PvField)) →
    List (Str × FieldDesc) → Except PyErr (List PyObj)
  | [], _ => .ok []
  | none :: rest, variants =>
      consPy (.ok .none) (unionItemsToPy rest variants)
  | some (selector, _, value) :: rest, variants =>
      consPy
        (match variantAt variants selector with
        | some (_, desc) => toPy false value desc
        | none => .ok .none)
        (unionItemsToPy rest variants)

def variantItemsToPy : List (Option (Option FieldDesc × PvField)) →
    Except PyErr (List PyObj)
  | [] => .ok []
  | none :: rest => consPy (.ok .none) (variantItemsToPy rest)
  | some (_, .null) :: rest => consPy (.ok .none) (variantItemsToPy rest)
  | some (some desc, value) :: rest =>
      consPy (toPy false value desc) (variantItemsToPy rest)
  | some (none, value) :: rest =>
      consPy (toPy false value (python.descriptor value))
        (variantItemsToPy rest)

end

end ToPy

end Repics.Pva
