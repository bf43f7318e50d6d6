import Mathlib.Order.Interval.Finset.Nat
import Repics.Pva.Value.Assign

/-!
# Values and their change marks

A `Value` is a view of a shared root: the path of the view, as text, is put in
front of every field name.  The root holds a field and the bits of what was
changed in it.  The operations below are the ones that change marks or read
them, as functions of the root and the path of the view.
-/

namespace Repics.Pva

structure Root where
  desc : FieldDesc
  field : PvField
  marks : BitSet

/-- What stands before each dot of a path, innermost first. -/
abbrev ancestors (path : Str) : List Str :=
  Separated.cuts '.' path

/-- Operations that change a value; names are texts or paths. -/
inductive Edit (Name Obj : Type) where
  | mark (field : Option Name) (val : Bool)
  | setItem (key : Name) (obj : Obj)
  | assignRoot (obj : Obj)
  | select (field : Name) (selector : Option Str)

namespace Edit

/-- `unmark` is `mark` with `val` false. -/
def unmark {Name Obj : Type} (field : Option Name) : Edit Name Obj :=
  .mark field false

def map {Name Other Obj : Type} (rename : Name → Other) :
    Edit Name Obj → Edit Other Obj
  | .mark field val => .mark (field.map rename) val
  | .setItem key obj => .setItem (rename key) obj
  | .assignRoot obj => .assignRoot obj
  | .select field selector => .select (rename field) selector

end Edit

namespace Root

variable {Obj : Type} (lib : PvData) (conversions : Conversions Obj)

/-- Set or clear the bits of a member and of everything below it; false when
there is no such member. -/
def markSpan (root : Root) (path : Str) (val : Bool) : Root × Bool :=
  match descAt root.desc path, lib.bitForPath root.desc path with
  | some sub, some start =>
      let stop := start + lib.totalBits sub
      if val then
        ({ root with marks := root.marks ∪ Finset.Ico start stop }, true)
      else
        ({ root with
          marks := root.marks.filter fun bit => bit < start ∨ stop ≤ bit },
          true)
  | _, _ => (root, false)

def mark (root : Root) (view : Str) (field : Option Str) (val : Bool) :
    Root × Option PyErr :=
  let path := join view (field.getD [])
  match field with
  | some key =>
      match lib.bitForPath root.desc path with
      | none => (root, some (.noSuchField key))
      | some bit =>
          if val then
            ({ root with marks := insert bit root.marks }, none)
          else ((root.markSpan lib path false).1, none)
  | none =>
      match root.markSpan lib path val with
      | (changed, true) => (changed, none)
      | (_, false) => (root, some .viewVanished)

/-- Assign to the field at a path, or raise `missing`. -/
def assignAt (root : Root) (path : Str) (obj : Obj) (missing : PyErr) :
    Root × Option PyErr :=
  match descAt root.desc path, fieldAt root.field path with
  | some sub, some target =>
      let bit := (lib.bitForPath root.desc path).getD 0
      let outcome := assign lib conversions sub bit target obj root.marks
      ({ root with
        field := root.field.putAt (Separated.segments '.' path) outcome.target
        marks := outcome.marks }, outcome.error)
  | _, _ => (root, some missing)

def setItem (root : Root) (view key : Str) (obj : Obj) :
    Root × Option PyErr :=
  root.assignAt lib conversions (join view key) obj (.noSuchField key)

def assignRoot (root : Root) (view : Str) (obj : Obj) :
    Root × Option PyErr :=
  root.assignAt lib conversions view obj .viewVanished

/-- The field of a union with a member selected. -/
def selected (variants : List (Str × FieldDesc)) :
    Option Str → Except PyErr PvField
  | none => .ok (.union (-1) [] .null)
  | some name =>
      match variants.zipIdx.find? (fun variant => variant.1.1 = name) with
      | none => .error (.unionHasNoMember name)
      | some ((variantName, desc), index) =>
          .ok (.union index variantName (conversions.defaultValueFor desc))

def select (root : Root) (view field : Str) (selector : Option Str) :
    Root × Option PyErr :=
  let path := join view field
  match descAt root.desc path with
  | some (.union _ variants) =>
      match fieldAt root.field path with
      | none => (root, some (.noSuchUnionField field))
      | some _ =>
          match selected conversions variants selector with
          | .error error => (root, some error)
          | .ok target =>
              ({ root with
                field := root.field.putAt (Separated.segments '.' path) target
                marks :=
                  match lib.bitForPath root.desc path with
                  | some bit => insert bit root.marks
                  | none => root.marks }, none)
  | _ => (root, some (.noSuchUnionField field))

/-- One operation, issued through a view. -/
def edit (root : Root) (view : Str) : Edit Str Obj → Root × Option PyErr
  | .mark field val => root.mark lib view field val
  | .setItem key obj => root.setItem lib conversions view key obj
  | .assignRoot obj => root.assignRoot lib conversions view obj
  | .select field selector =>
      root.select lib conversions view field selector

/-- Some ancestor of the path is marked; the root counts only through its own
bit. -/
def ancestorMarked (root : Root) (path : Str) : Bool :=
  (ancestors path).any fun front =>
    (lib.bitForPath root.desc front).any fun bit => bit ∈ root.marks

/-- The loop of `changed` over the field names. -/
def anyChanged (root : Root) (view : Str) : List Str → Except PyErr Bool
  | [] => .ok false
  | name :: names =>
      let path := join view name
      match descAt root.desc path with
      | none => .error (.noSuchField name)
      | some sub =>
          let start := (lib.bitForPath root.desc path).getD 0
          if (List.range' start (lib.totalBits sub)).any
                (fun bit => decide (bit ∈ root.marks)) ||
              root.ancestorMarked lib path || decide (0 ∈ root.marks) then
            .ok true
          else root.anyChanged view names

def changed (root : Root) (view : Str) (fields : List Str) :
    Except PyErr Bool :=
  root.anyChanged lib view (if fields = [] then [[]] else fields)

end Root

mutual

/-- The marked paths under a descriptor with own bit `bit` and path `front`;
`inherited` means that an ancestor is marked.  With `expand`, marked structures
contribute their leaves instead of themselves. -/
def collectMarked (lib : PvData) : FieldDesc → Nat → Str → BitSet → Bool →
    Bool → List Str
  | .struct _ fields, bit, front, marks, inherited, expand =>
      let marked := inherited || decide (bit ∈ marks)
      if marked && !expand then
        if front = [] then [] else [front]
      else
        collectMembers lib fields (bit + 1) front marks (marked && expand)
          expand
  | _, bit, front, marks, inherited, _ =>
      if (inherited || decide (bit ∈ marks)) && decide (front ≠ []) then
        [front]
      else []

def collectMembers (lib : PvData) : List (Str × FieldDesc) → Nat → Str →
    BitSet → Bool → Bool → List Str
  | [], _, _, _, _, _ => []
  | (name, child) :: rest, bit, front, marks, inherited, expand =>
      collectMarked lib child bit (join front name) marks inherited expand ++
        collectMembers lib rest (bit + lib.totalBits child) front marks
          inherited expand

end

namespace Root

variable (lib : PvData)

/-- The marked field paths, relative to the view. -/
def changedSet (root : Root) (view : Str) (expand parents : Bool) :
    Except PyErr (Finset Str) :=
  match descAt root.desc view with
  | none => .error .viewVanished
  | some sub =>
      let bit := (lib.bitForPath root.desc view).getD 0
      let inherited := decide (0 ∈ root.marks) || root.ancestorMarked lib view
      let paths := (collectMarked lib sub bit [] root.marks inherited
        expand).toFinset
      if parents then
        .ok (paths ∪ paths.biUnion fun path => (ancestors path).toFinset)
      else .ok paths

/-- The whole root, for a call that sends it; a view of a member cannot be
sent. -/
def snapshot (root : Root) (view : Str) :
    Except PyErr (FieldDesc × PvField × BitSet) :=
  if view = [] then .ok (root.desc, root.field, root.marks)
  else .error .viewNotRoot

/-- The marked leaves of the root with their fields; a view of a member cannot
be sent. -/
def markedLeaves (root : Root) (view : Str) :
    Except PyErr (List (Str × PvField)) :=
  if view = [] then
    .ok ((collectMarked lib root.desc 0 [] root.marks false true).filterMap
      fun path => (fieldAt root.field path).map fun field => (path, field))
  else .error .viewNotRoot

end Root

end Repics.Pva
