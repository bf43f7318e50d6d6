import Repics.Lib.Columns
import Repics.Lib.Dict
import Repics.Pva.Nt
import Repics.Pva.Value.Create

/-!
# Tables

`NTTable.wrap` takes its rows apart into columns, and a row that lacks a cell
leaves nothing in the column; a column without cells keeps the default of the
type.  `unwrap` takes the columns together again by position.  So the rows come
back exactly if no cell is missing, where the names of the columns can be read
back at all.
-/

namespace Repics.Pva.Nt

/-- A dict with `str` keys. -/
abbrev Row := List (Str × PyObj)

/-- `NTTable(columns, extra)`: array codes are refused, so that every column
has a scalar code. -/
structure NTTable where
  columns : List (Str × ScalarType)
  extra : List (Str × FieldDesc)

/-- What `unwrap` gives. -/
structure NTTable.Unwrapped where
  rows : List Row
  labels : List PyObj
  status : Int
  severity : Int
  stamp : Stamp

namespace NTTable

def buildType (columns extra : List (Str × FieldDesc)) : FieldDesc :=
  .struct "epics:nt/NTTable:1.0".toList
    ([("labels".toList, .scalarArray .string),
      ("value".toList, .struct [] columns),
      ("descriptor".toList, .scalar .string), ("alarm".toList, alarm),
      ("timeStamp".toList, timeStamp)] ++ extra)

variable (table : NTTable)

def labels : List Str :=
  table.columns.map Prod.fst

def members : List (Str × FieldDesc) :=
  table.columns.map fun column => (column.1, .scalarArray column.2)

def type : FieldDesc :=
  buildType table.members table.extra

/-- The loop over the labels for one row. -/
def fillRow (row : Row) : List Str → (Str → List PyObj) → Str → List PyObj
  | [], cols => cols
  | name :: names, cols =>
      match row.lookup name with
      | some cell =>
          fillRow row names (Function.update cols name (cols name ++ [cell]))
      | none => fillRow row names cols

/-- The loop over the rows.  The keys of `cols` are the labels throughout. -/
def fill (labels : List Str) : List Row → (Str → List PyObj) → Str →
    List PyObj
  | [], cols => cols
  | row :: rows, cols => fill labels rows (fillRow row labels cols)

/-- The columns that have cells. -/
def cols (rows : List Row) : List (Str × List PyObj) :=
  (table.labels.eraseDups.map fun name =>
    (name, fill table.labels rows (fun _ => []) name)).filter
      fun column => !column.2.isEmpty

/-- The columns as entries of a dict. -/
abbrev columnEntries (rows : List Row) : List (Str × PyObj) :=
  (table.cols rows).map fun column => (column.1, .list column.2)

/-- The entries of the dict that the new value is made from. -/
abbrev initial (rows : List Row) : List (Str × PyObj) :=
  [("labels".toList, .list (table.labels.map .str)),
    ("value".toList, .strDict (table.columnEntries rows))]

def wrap (lib : PvData) (python : Python) (rows : List Row) :
    Except PyErr Root :=
  Root.create lib python.conversions table.type
    (.strDict (table.initial rows))

variable (python : Python)

/-- What a column is read as, as the list of its cells. -/
def cells : PyObj → Except PyErr (List PyObj)
  | .none => .ok []
  | column => column.elements python

def unwrap (V : Root) : Except PyErr Unwrapped := do
  let items ← ((Handle.mk 0 V "value".toList).items python).result
  let columns ← items.mapM fun item => cells python item.2
  let labels ← V.get python "labels".toList
  let labels ← cells python labels
  .ok {
    rows := (Columns.zipAll columns).map fun row =>
      Dict.ofEntries ((items.map Prod.fst).zip row)
    labels
    status := intAt V "alarm.status".toList
    severity := intAt V "alarm.severity".toList
    stamp := stampOf V }

end NTTable

/-- The array that numpy makes of a list has the elements of the arrays that
it makes of the items, and the default of a type is its zero value. -/
structure Itemwise (python : Python) : Prop where
  asarray : ∀ scalarType cells items,
    python.asarray scalarType (.list cells) = .ok items →
      ∃ parts, List.Forall₂ (fun cell part =>
        python.asarray scalarType (.list [cell]) = .ok part) cells parts ∧
        items = parts.flatten
  default : ∀ desc, python.defaultValueFor desc = zeroField desc

/-- The array made of a list of cells. -/
def Makes (python : Python) (scalarType : ScalarType) (cells : List PyObj)
    (items : List ScalarValue) : Prop :=
  (((PyObj.list cells).node python).pyToArray python scalarType).result =
    .ok items

/-- The cell, converted to the type of its column, is one value. -/
def Converted (python : Python) (scalarType : ScalarType) (cell : PyObj)
    (value : ScalarValue) : Prop :=
  Makes python scalarType [cell] [value]

namespace NTTable

variable (table : NTTable)

/-- The elements of the array of a column. -/
def column (V : Root) (name : Str) : List ScalarValue :=
  match V.field.atPath? ["value".toList, name] with
  | some (.scalarArrayTyped _ items) => items
  | _ => []

/-- The row that is read has every cell of the row that was written. -/
def Keeps (python : Python) (row out : Row) : Prop :=
  ∀ name scalarType cell, table.columns.lookup name = some scalarType →
    row.lookup name = some cell → ∃ value,
      Converted python scalarType cell value ∧
        out.lookup name = some (elementOf python scalarType value)

/-- The rows are refused, or else the columns are of equal length and `unwrap`
gives one row for each, in order, with all of its cells. -/
def Survive (lib : PvData) (python : Python) (rows : List Row) : Prop :=
  ∀ V, table.wrap lib python rows = .ok V →
    (∃ length, ∀ name ∈ table.labels, (column V name).length = length) ∧
    ∃ out, unwrap python V = .ok out ∧
      List.Forall₂ (table.Keeps python) rows out.rows

/-- The names of the columns are distinct, nonempty and without dots. -/
def Plain : Prop :=
  table.labels.Nodup ∧ ∀ name ∈ table.labels, MemberName name

/-- The cells that the rows have under a name, once for each column of that
name. -/
def cellsUnder (rows : List Row) (name : Str) : List PyObj :=
  rows.flatMap fun row => table.labels.filterMap fun label =>
    if label = name then row.lookup label else none

/-- `numpy` does not take the cells of some column. -/
def Refused (python : Python) (rows : List Row) : Prop :=
  ∃ name scalarType error, table.columns.lookup name = some scalarType ∧
    scalarType ≠ .string ∧ table.cellsUnder rows name ≠ [] ∧
    python.asarray scalarType (.list (table.cellsUnder rows name)) =
      .error error

/-- Each cell is one value, and no cell is missing. -/
structure Complete (python : Python) (rows : List Row) : Prop where
  plain : table.Plain
  single : ∀ row ∈ rows, ∀ name scalarType cell,
    table.columns.lookup name = some scalarType →
      row.lookup name = some cell →
        ∃ value, Converted python scalarType cell value
  full : rows = [] ∨ table.columns ≠ [] ∧
    ∀ row ∈ rows, ∀ name ∈ table.labels, (row.lookup name).isSome

end NTTable

section Fill

theorem NTTable.fillRow_eq (row : Row) (names : List Str)
    (cols : Str → List PyObj) (name : Str) :
    fillRow row names cols name = cols name ++ names.filterMap fun label =>
      if label = name then row.lookup label else none := by
  induction names generalizing cols with
  | nil => rw [fillRow, List.filterMap_nil, List.append_nil]
  | cons label names induction =>
      rw [fillRow]
      by_cases same : label = name
      · subst same
        cases found : row.lookup label with
        | none => simp [induction, found]
        | some cell => simp [induction, found]
      · cases found : row.lookup label with
        | none => simp [induction, same]
        | some cell =>
            simp [induction, same, Function.update_of_ne (Ne.symm same)]

theorem NTTable.fill_eq (labels : List Str) (rows : List Row)
    (cols : Str → List PyObj) (name : Str) :
    fill labels rows cols name = cols name ++ rows.flatMap fun row =>
      labels.filterMap fun label =>
        if label = name then row.lookup label else none := by
  induction rows generalizing cols with
  | nil => rw [fill, List.flatMap_nil, List.append_nil]
  | cons row rows induction =>
      rw [fill, induction, fillRow_eq, List.flatMap_cons, List.append_assoc]

variable (table : NTTable)

theorem filterMap_label {labels : List Str} (distinct : labels.Nodup)
    {name : Str} (member : name ∈ labels) (row : Row) :
    (labels.filterMap fun label =>
      if label = name then row.lookup label else none) =
        (row.lookup name).toList := by
  induction labels with
  | nil => cases member
  | cons label labels induction =>
      obtain ⟨fresh, distinct⟩ := List.nodup_cons.mp distinct
      by_cases same : label = name
      · subst same
        have others : (labels.filterMap fun other =>
            if other = label then row.lookup other else none) = [] := by
          rw [List.filterMap_eq_nil_iff]
          intro other inRest
          rw [if_neg (ne_of_mem_of_not_mem inRest fresh)]
        cases found : row.lookup label with
        | none => simp [found, others]
        | some cell => simp [found, others]
      · have inRest := (List.mem_cons.mp member).resolve_left (Ne.symm same)
        simp [same, induction distinct inRest]

theorem NTTable.cellsUnder_eq (distinct : table.labels.Nodup) {name : Str}
    (member : name ∈ table.labels) (rows : List Row) :
    table.cellsUnder rows name =
      Columns.column (fun row name => List.lookup name row) rows name := by
  rw [Columns.column, List.filterMap_eq_flatMap_toList]
  simp only [cellsUnder, filterMap_label distinct member]

end Fill

section Cells

variable {python : Python} {scalarType : ScalarType} {cells : List PyObj}
  {items : List ScalarValue}

theorem makes_numbers_iff (number : scalarType ≠ .string) :
    Makes python scalarType cells items ↔
      python.asarray scalarType (.list cells) = .ok items := by
  rw [Makes, Node.pyToArray, if_neg number,
    Locking.result_bind_ok (Locking.result_touch _), Locking.result_lift]
  rfl

theorem makes_strings_iff :
    Makes python .string cells items ↔
      items = cells.map fun cell => .string (python.text cell) := by
  have texts := @Locking.result_each_map Nat PyErr Part ScalarValue
    (fun item => do
      Locking.touch item.obj.roots
      pure (.string (python.text item.obj)))
    (fun item => .string (python.text item.obj)) (fun _ => rfl)
    (cells.map (PyObj.part python))
  have iterated : (((PyObj.list cells).node python).iterate python).result =
      .ok (cells.map (PyObj.part python)) := Node.result_iterate rfl
  have made : (((PyObj.list cells).node python).pyToArray python
      .string).result = .ok (cells.map fun cell =>
        ScalarValue.string (python.text cell)) := by
    refine (Locking.result_bind_ok iterated _).trans (texts.trans ?_)
    rw [List.map_map]
    rfl
  rw [Makes, made, Except.ok.injEq]
  exact eq_comm

/-- The elements of an array come from the cells one after the other. -/
theorem Makes.parts (itemwise : Itemwise python)
    (makes : Makes python scalarType cells items) :
    ∃ parts, List.Forall₂ (fun cell part =>
      Makes python scalarType [cell] part) cells parts ∧
      items = parts.flatten := by
  by_cases string : scalarType = .string
  · subst string
    refine ⟨cells.map fun cell => [.string (python.text cell)], ?_, ?_⟩
    · rw [List.forall₂_map_right_iff, List.forall₂_same]
      intro cell _
      exact makes_strings_iff.mpr rfl
    · rw [makes_strings_iff.mp makes, List.flatten_eq_flatMap,
        List.flatMap_map, List.map_eq_flatMap]
      rfl
  · obtain ⟨parts, made, same⟩ := itemwise.asarray scalarType cells items
      ((makes_numbers_iff string).mp makes)
    exact ⟨parts, made.imp fun _ _ => (makes_numbers_iff string).mpr, same⟩

theorem Makes.converted (itemwise : Itemwise python)
    (makes : Makes python scalarType cells items)
    (single : ∀ cell ∈ cells, ∃ value,
      Converted python scalarType cell value) :
    List.Forall₂ (Converted python scalarType) cells items := by
  obtain ⟨parts, made, rfl⟩ := makes.parts itemwise
  clear makes
  induction made with
  | nil => exact .nil
  | @cons cell part cells parts here _ induction =>
      obtain ⟨value, converted⟩ := single cell List.mem_cons_self
      have same : part = [value] := Except.ok.inj (here.symm.trans converted)
      rw [same, List.flatten_cons, List.singleton_append]
      exact .cons converted (induction fun other member =>
        single other (List.mem_cons_of_mem cell member))

theorem assign_cells_iff (target field : PvField) :
    ((PyObj.list cells).assign python (.scalarArray scalarType)
        target).result = .ok field ↔
      ∃ items, Makes python scalarType cells items ∧
        field = .scalarArrayTyped scalarType items := by
  rw [PyObj.assign_eq, Node.assign, Node.assignPlain,
    Locking.result_bind_ok_iff]
  simp only [Locking.result_pure, Except.ok.injEq, Makes, eq_comm]

end Cells

namespace NTTable

variable {lib : PvData} {python : Python} {table : NTTable}
  {rows : List Row}

/-- The members of the type. -/
abbrev typeMembers (table : NTTable) : List (Str × FieldDesc) :=
  [("labels".toList, .scalarArray .string),
    ("value".toList, .struct [] table.members),
    ("descriptor".toList, .scalar .string), ("alarm".toList, alarm),
    ("timeStamp".toList, timeStamp)] ++ table.extra

theorem named?_members (table : NTTable) (name : Str) :
    FieldDesc.named? table.members name =
      (table.columns.lookup name).map .scalarArray := by
  rw [members]
  induction table.columns with
  | nil => rfl
  | cons column columns induction =>
      obtain ⟨label, scalarType⟩ := column
      rw [List.map_cons, FieldDesc.named?_cons, List.lookup_cons, induction]
      by_cases same : label = name
      · simp [same]
      · have different : (name == label) = false :=
          beq_eq_false_iff_ne.mpr (Ne.symm same)
        simp [same, different]

theorem mem_labels_iff {name : Str} :
    name ∈ table.labels ↔ ∃ scalarType,
      table.columns.lookup name = some scalarType := by
  rw [← Option.isSome_iff_exists, List.lookup_isSome_iff, labels,
    List.mem_map]
  simp only [beq_iff_eq, @eq_comm _ name]

/-- The dict of the columns has the labels that have cells, each once. -/
theorem cols_keys (rows : List Row) :
    ((table.cols rows).map Prod.fst).Nodup := by
  have distinct := Columns.nodup_eraseDups table.labels
  have keys : (table.labels.eraseDups.map fun name =>
      (name, fill table.labels rows (fun _ => []) name)).map Prod.fst =
        table.labels.eraseDups := by
    rw [List.map_map]
    exact List.map_id' _
  rw [← keys] at distinct
  exact distinct.sublist (List.filter_sublist.map Prod.fst)

theorem mem_cols_iff (rows : List Row) (column : Str × List PyObj) :
    column ∈ table.cols rows ↔ column.1 ∈ table.labels ∧
      column.2 = table.cellsUnder rows column.1 ∧ column.2 ≠ [] := by
  obtain ⟨name, cells⟩ := column
  simp only [cols, List.mem_filter, List.mem_map, List.mem_eraseDups,
    Prod.mk.injEq, fill_eq, List.nil_append, Bool.not_eq_true',
    List.isEmpty_eq_false_iff, cellsUnder]
  constructor
  · rintro ⟨⟨label, member, rfl, rfl⟩, some⟩
    exact ⟨member, rfl, some⟩
  · rintro ⟨member, same, some⟩
    exact ⟨⟨name, member, rfl, same.symm⟩, some⟩

/-- What the array of a column has after `wrap`: nothing where there is no
cell. -/
def Filled (table : NTTable) (python : Python) (rows : List Row)
    (name : Str) (scalarType : ScalarType) (items : List ScalarValue) :
    Prop :=
  if table.cellsUnder rows name = [] then items = []
  else Makes python scalarType (table.cellsUnder rows name) items

/-- The field that `wrap` makes. -/
structure Wrote (table : NTTable) (python : Python) (rows : List Row)
    (V : Root) : Prop where
  desc : V.desc = table.type
  labels : ∃ items, V.field.atPath? ["labels".toList] =
    some (.scalarArrayTyped .string items)
  columns : ∀ name scalarType,
    table.columns.lookup name = some scalarType →
      V.field.atPath? ["value".toList, name] =
          some (.scalarArrayTyped scalarType (column V name)) ∧
        table.Filled python rows name scalarType (column V name)

theorem takes_column_iff (name : Str) (cells : List PyObj)
    (field : PvField) :
    Takes python table.members (zeroMembers table.members)
        (name, .list cells) field ↔
      ∃ scalarType items, table.columns.lookup name = some scalarType ∧
        Makes python scalarType cells items ∧
        field = .scalarArrayTyped scalarType items := by
  simp only [Takes, named?_zeroMembers, named?_members,
    Option.map_eq_some_iff]
  constructor
  · rintro ⟨_, target, ⟨scalarType, found, rfl⟩, -, assigned⟩
    obtain ⟨items, makes, same⟩ := (assign_cells_iff target field).mp assigned
    exact ⟨scalarType, items, found, makes, same⟩
  · rintro ⟨scalarType, items, found, makes, same⟩
    exact ⟨_, _, ⟨scalarType, found, rfl⟩, ⟨_, ⟨scalarType, found, rfl⟩, rfl⟩,
      (assign_cells_iff _ field).mpr ⟨items, makes, same⟩⟩

theorem takes_value_iff (rows : List Row) (field : PvField) :
    Takes python table.typeMembers (zeroMembers table.typeMembers)
        ("value".toList, .strDict (table.columnEntries rows)) field ↔
      ∃ subs, (Node.assignEntries table.members
          (strEntries python (table.columnEntries rows))
          (zeroMembers table.members)).result = .ok subs ∧
        field = .struct [] subs := by
  have built := @PyObj.assign_dict_iff python table.members [] []
    (zeroMembers table.members) (table.columnEntries rows) field
  constructor
  · rintro ⟨desc, target, found, targetFound, assigned⟩
    cases found
    cases targetFound
    exact built.mp assigned
  · intro assigned
    exact ⟨_, _, rfl, rfl, built.mpr assigned⟩

theorem takes_labels_iff (labels : List PyObj) (field : PvField) :
    Takes python table.typeMembers (zeroMembers table.typeMembers)
        ("labels".toList, .list labels) field ↔
      ∃ items, Makes python .string labels items ∧
        field = .scalarArrayTyped .string items := by
  constructor
  · rintro ⟨desc, target, found, -, assigned⟩
    cases found
    exact (assign_cells_iff target field).mp assigned
  · intro made
    exact ⟨_, _, rfl, rfl, (assign_cells_iff _ field).mpr made⟩

theorem initial_assigned_iff (rows : List Row) (field : PvField) :
    ((PyObj.strDict (table.initial rows)).assign python table.type
        (zeroField table.type)).result = .ok field ↔
      ∃ subs, (Node.assignEntries table.typeMembers
          (strEntries python (table.initial rows))
          (zeroMembers table.typeMembers)).result = .ok subs ∧
        field = .struct "epics:nt/NTTable:1.0".toList subs := by
  rw [type, buildType, zeroField, PyObj.assign_dict_iff]

theorem initial_keys (rows : List Row) :
    ((table.initial rows).map Prod.fst).Nodup := by
  simp

theorem columnEntries_keys (rows : List Row) :
    ((table.columnEntries rows).map Prod.fst).Nodup := by
  rw [columnEntries, List.map_map]
  exact cols_keys rows

theorem wrap_wrote (lawful : lib.Lawful) (itemwise : Itemwise python)
    {V : Root} (wrapped : table.wrap lib python rows = .ok V) :
    table.Wrote python rows V := by
  obtain ⟨sameDesc, assigned⟩ := Root.create_ok lawful wrapped
  rw [itemwise.default, initial_assigned_iff] at assigned
  obtain ⟨subs, ended, sameField⟩ := assigned
  obtain ⟨each, -⟩ := Node.assignEntries_takes (initial_keys rows) ended
  obtain ⟨_, labelsTaken, labelsRead⟩ := each _ List.mem_cons_self
  obtain ⟨items, -, rfl⟩ := (takes_labels_iff _ _).mp labelsTaken
  obtain ⟨_, valueTaken, valueRead⟩ :=
    each _ (List.mem_cons_of_mem _ List.mem_cons_self)
  obtain ⟨columns, columnsEnded, rfl⟩ := (takes_value_iff _ _).mp valueTaken
  obtain ⟨eachColumn, others⟩ :=
    Node.assignEntries_takes (columnEntries_keys rows) columnsEnded
  have member (name : Str) :
      V.field.atPath? ["value".toList, name] =
        PvField.named? columns name := by
    have read : PvField.named? subs "value".toList =
        some (.struct [] columns) := valueRead
    rw [sameField, PvField.atPath?_cons, PvField.member?, read,
      Option.bind_some, PvField.atPath?_single]
    rfl
  refine ⟨sameDesc, ⟨items, ?_⟩, ?_⟩
  · rw [sameField, PvField.atPath?_single]
    exact labelsRead
  · intro name scalarType found
    have isLabel := mem_labels_iff.mpr ⟨scalarType, found⟩
    by_cases none : table.cellsUnder rows name = []
    · have absent : name ∉ (table.columnEntries rows).map Prod.fst := by
        intro present
        obtain ⟨_, entryMember, rfl⟩ := List.mem_map.mp present
        obtain ⟨⟨label, cells⟩, inCols, rfl⟩ := List.mem_map.mp entryMember
        obtain ⟨-, same, some⟩ := (mem_cols_iff rows _).mp inCols
        exact some (same.trans none)
      have kept := others name absent
      rw [named?_zeroMembers, named?_members, found] at kept
      have read : V.field.atPath? ["value".toList, name] =
          some (.scalarArrayTyped scalarType []) := (member name).trans kept
      simp only [column, read, Filled, if_pos none, and_self]
    · have inCols : (name, table.cellsUnder rows name) ∈ table.cols rows :=
        (mem_cols_iff rows _).mpr ⟨isLabel, rfl, none⟩
      obtain ⟨_, taken, columnRead⟩ :=
        eachColumn _ (List.mem_map_of_mem inCols)
      obtain ⟨_, made, columnFound, makes, rfl⟩ :=
        (takes_column_iff _ _ _).mp taken
      cases found.symm.trans columnFound
      have read : V.field.atPath? ["value".toList, name] =
          some (.scalarArrayTyped scalarType made) :=
        (member name).trans columnRead
      simp only [column, read, Filled, if_neg none, true_and]
      exact makes

theorem makes_of_accepted (accepted : ¬table.Refused python rows)
    {name : Str} {scalarType : ScalarType}
    (found : table.columns.lookup name = some scalarType)
    (some : table.cellsUnder rows name ≠ []) :
    ∃ items, Makes python scalarType (table.cellsUnder rows name) items := by
  by_cases string : scalarType = .string
  · subst string
    exact ⟨_, makes_strings_iff.mpr rfl⟩
  · cases taken : python.asarray scalarType
        (.list (table.cellsUnder rows name)) with
    | ok items => exact ⟨items, (makes_numbers_iff string).mpr taken⟩
    | error error =>
        exact (accepted ⟨name, scalarType, error, found, string, some,
          taken⟩).elim

/-- Unless numpy refuses the cells of a column, `wrap` makes a value. -/
theorem wrap_ends (lawful : lib.Lawful)
    (default : ∀ desc, python.defaultValueFor desc = zeroField desc)
    (accepted : ¬table.Refused python rows) :
    ∃ V, table.wrap lib python rows = .ok V := by
  have columnsTaken : ∀ entry ∈ table.columnEntries rows, ∃ field,
      Takes python table.members (zeroMembers table.members) entry field := by
    intro entry member
    obtain ⟨⟨name, cells⟩, inCols, rfl⟩ := List.mem_map.mp member
    obtain ⟨isLabel, same, some⟩ := (mem_cols_iff rows _).mp inCols
    obtain ⟨scalarType, found⟩ := mem_labels_iff.mp isLabel
    have same : cells = table.cellsUnder rows name := same
    subst same
    obtain ⟨items, makes⟩ := makes_of_accepted accepted found some
    exact ⟨_, (takes_column_iff name _ _).mpr
      ⟨scalarType, items, found, makes, rfl⟩⟩
  obtain ⟨columns, columnsEnded⟩ :=
    Node.assignEntries_ends (columnEntries_keys rows) columnsTaken
  have membersTaken : ∀ entry ∈ table.initial rows, ∃ field,
      Takes python table.typeMembers (zeroMembers table.typeMembers) entry
        field := by
    intro entry member
    rcases List.mem_cons.mp member with rfl | member
    · exact ⟨_, (takes_labels_iff _ _).mpr
        ⟨_, makes_strings_iff.mpr rfl, rfl⟩⟩
    · rw [List.mem_singleton.mp member]
      exact ⟨_, (takes_value_iff rows _).mpr ⟨columns, columnsEnded, rfl⟩⟩
  obtain ⟨subs, ended⟩ :=
    Node.assignEntries_ends (initial_keys rows) membersTaken
  have assigned := (initial_assigned_iff rows _).mpr ⟨subs, ended, rfl⟩
  rw [← default] at assigned
  obtain ⟨V, created, -⟩ := (Root.create_iff lawful _ _ _).mpr assigned
  exact ⟨V, created⟩

/-- The array of a column that has cells is made of them, so numpy has not
refused them. -/
theorem Wrote.accepted {V : Root} (wrote : table.Wrote python rows V) :
    ¬table.Refused python rows := by
  rintro ⟨name, scalarType, error, found, number, some, refused⟩
  obtain ⟨-, filled⟩ := wrote.columns name scalarType found
  rw [Filled, if_neg some, makes_numbers_iff number, refused] at filled
  cases filled

end NTTable

namespace NTTable

variable {lib : PvData} {python : Python} {table : NTTable}
  {rows : List Row} {V : Root}

/-- The type of the first column of a name, as `unwrap` finds it. -/
def typed (table : NTTable) (name : Str) : ScalarType :=
  (table.columns.lookup name).getD .string

theorem Wrote.item (wrote : table.Wrote python rows V) {name : Str}
    (isLabel : name ∈ table.labels) (last : MemberName name) :
    ((Handle.mk 0 V "value".toList).item python name).result =
      .ok (python.typedArrayToPy (table.typed name)
        (NTTable.column V name)) := by
  obtain ⟨scalarType, found⟩ := mem_labels_iff.mp isLabel
  have isTyped : table.typed name = scalarType := by
    rw [typed, found]
    rfl
  obtain ⟨read, -⟩ := wrote.columns name scalarType found
  have front : ∀ name ∈ ["value".toList], MemberName name := by
    simp [Separated.IsKey]
  have named : ∀ other ∈ ["value".toList, name], MemberName other := by
    intro other inPath
    rcases List.mem_cons.mp inPath with rfl | inPath
    · exact front _ List.mem_cons_self
    · rw [List.mem_singleton.mp inPath]
      exact last
  have desc : V.desc.atPath? ["value".toList, name] =
      some (.scalarArray scalarType) := by
    have value : table.type.member? "value".toList =
        some (.struct [] table.members) := rfl
    have inner : (FieldDesc.struct [] table.members).member? name =
        some (.scalarArray scalarType) := by
      rw [FieldDesc.member?, named?_members, found]
      rfl
    rw [wrote.desc, FieldDesc.atPath?_cons, value, Option.bind_some,
      FieldDesc.atPath?_cons, inner, Option.bind_some, FieldDesc.atPath?_nil]
  have full : (Handle.mk 0 V "value".toList).full name =
      dotted ["value".toList, name] := by
    have front' : dotted ["value".toList] = "value".toList :=
      Separated.render_singleton _
    have joined := join_dotted_name front last
    rwa [front'] at joined
  rw [Handle.item_leaf full named desc id read, toPy_typed, isTyped]

theorem Wrote.items (wrote : table.Wrote python rows V)
    (named : ∀ name ∈ table.labels, MemberName name) :
    ((Handle.mk 0 V "value".toList).items python).result =
      .ok (table.labels.map fun name => (name,
        python.typedArrayToPy (table.typed name)
          (NTTable.column V name))) := by
  have keys : ((Handle.mk 0 V "value".toList).keys).result =
      .ok table.labels := by
    have desc : descAt V.desc "value".toList =
        some (.struct [] table.members) := by
      rw [wrote.desc]
      rfl
    rw [Handle.keys, Handle.locked, Locking.result_withLock,
      Locking.result_lift]
    simp only [desc]
    rw [members, List.map_map]
    rfl
  rw [Handle.items, Locking.result_bind_ok keys,
    Locking.result_each_ok_iff, List.forall₂_map_right_iff,
    List.forall₂_same]
  intro name member
  rw [Locking.result_bind_ok (wrote.item member (named name member))]
  rfl

/-- What a column is read as has the elements of its array as cells. -/
theorem cells_typedArray (scalarType : ScalarType)
    (items : List ScalarValue) :
    cells python (python.typedArrayToPy scalarType items) =
      .ok (items.map (elementOf python scalarType)) := by
  rw [← elements_typedArray]
  unfold Python.typedArrayToPy
  split <;> rfl

theorem Wrote.get_labels (wrote : table.Wrote python rows V) :
    ∃ items, V.get python "labels".toList =
      .ok (python.typedArrayToPy .string items) := by
  obtain ⟨items, read⟩ := wrote.labels
  have desc : V.desc.atPath? ["labels".toList] =
      some (.scalarArray .string) := by
    rw [wrote.desc]
    rfl
  have named : ∀ name ∈ ["labels".toList], MemberName name := by
    simp [Separated.IsKey]
  refine ⟨items, ?_⟩
  have full : (Handle.mk 0 V []).full "labels".toList =
      dotted ["labels".toList] := rfl
  rw [Root.get, Handle.item_leaf full named desc id read, toPy_typed]

/-- The rows that are read have the cells with one position in all
columns. -/
theorem Wrote.unwrap (wrote : table.Wrote python rows V)
    (named : ∀ name ∈ table.labels, MemberName name) :
    ∃ labels, NTTable.unwrap python V = .ok {
      rows := (Columns.zipAll (table.labels.map fun name =>
        (NTTable.column V name).map
          (elementOf python (table.typed name)))).map
            fun row => Dict.ofEntries (table.labels.zip row)
      labels
      status := intAt V "alarm.status".toList
      severity := intAt V "alarm.severity".toList
      stamp := stampOf V } := by
  obtain ⟨labels, labelsRead⟩ := wrote.get_labels
  let item (name : Str) : Str × PyObj := (name,
    python.typedArrayToPy (table.typed name) (NTTable.column V name))
  have columns : (table.labels.map item).mapM
      (fun item => cells python item.2) =
      .ok (table.labels.map fun name =>
        (NTTable.column V name).map
          (elementOf python (table.typed name))) := by
    rw [List.mapM_map]
    exact mapM_ok fun name _ => cells_typedArray _ _
  have names : (table.labels.map item).map Prod.fst = table.labels := by
    rw [List.map_map]
    exact List.map_id table.labels
  refine ⟨labels.map (elementOf python .string), ?_⟩
  have items : ((Handle.mk 0 V "value".toList).items python).result =
      .ok (table.labels.map item) := wrote.items named
  rw [NTTable.unwrap, items]
  simp only [bind, Except.bind, columns, labelsRead, cells_typedArray, names]

/-- The columns of a table with plain names have their own types. -/
theorem Plain.columns (plain : table.Plain)
    (elements : Str → ScalarType → List PyObj) :
    (table.labels.map fun name => elements name (table.typed name)) =
      table.columns.map fun column => elements column.1 column.2 := by
  rw [labels, List.map_map, List.map_inj_left]
  intro column member
  have found := Dict.lookup_of_mem plain.1 member
  simp only [Function.comp_apply, typed, found, Option.getD_some]

/-- A table of named columns has no rows when nothing was written. -/
theorem Wrote.survive_empty (wrote : table.Wrote python [] V)
    (named : ∀ name ∈ table.labels, MemberName name) :
    (∃ length, ∀ name ∈ table.labels,
        (NTTable.column V name).length = length) ∧
      ∃ out, NTTable.unwrap python V = .ok out ∧ out.rows = [] := by
  have empty : ∀ name ∈ table.labels, NTTable.column V name = [] := by
    intro name member
    obtain ⟨scalarType, found⟩ := mem_labels_iff.mp member
    exact (wrote.columns name scalarType found).2
  refine ⟨⟨0, ?_⟩, ?_⟩
  · intro name member
    rw [empty name member]
    rfl
  · obtain ⟨labels, unwrapped⟩ := wrote.unwrap named
    refine ⟨_, unwrapped, ?_⟩
    rw [List.map_eq_nil_iff, Columns.zipAll_eq_nil_iff, List.map_eq_nil_iff]
    cases names : table.labels with
    | nil => exact .inl rfl
    | cons name others =>
        rw [List.map_cons, empty name (names ▸ List.mem_cons_self)]
        exact .inr List.mem_cons_self

end NTTable

theorem lookup_zip {columns : List (Str × ScalarType)}
    (distinct : (columns.map Prod.fst).Nodup) {row : List PyObj}
    {Related : Str × ScalarType → PyObj → Prop}
    (related : List.Forall₂ Related columns row)
    {column : Str × ScalarType} (member : column ∈ columns) :
    ∃ cell, (Dict.ofEntries ((columns.map Prod.fst).zip row)).lookup
        column.1 = some cell ∧ Related column cell := by
  have length : (columns.map Prod.fst).length = row.length := by
    rw [List.length_map, related.length_eq]
  have keys : (((columns.map Prod.fst).zip row).map Prod.fst).Nodup := by
    rwa [List.map_fst_zip length.le]
  rw [Dict.ofEntries_eq keys]
  have found : ∃ cell, (column.1, cell) ∈ (columns.map Prod.fst).zip row ∧
      Related column cell := by
    clear distinct length keys
    induction related with
    | nil => cases member
    | @cons other cell columns row here _ induction =>
        rw [List.map_cons, List.zip_cons_cons]
        rcases List.mem_cons.mp member with rfl | inRest
        · exact ⟨cell, List.mem_cons_self, here⟩
        · obtain ⟨cell, found, related⟩ := induction inRest
          exact ⟨cell, List.mem_cons_of_mem _ found, related⟩
  obtain ⟨cell, inRow, related⟩ := found
  exact ⟨cell, Dict.lookup_of_mem keys inRow, related⟩

namespace NTTable

variable {lib : PvData} {python : Python} {table : NTTable}
  {rows : List Row} {V : Root}

/-- The array of a complete column has the cell of each row in its place. -/
theorem Complete.column (complete : table.Complete python rows)
    (itemwise : Itemwise python) (wrote : table.Wrote python rows V)
    {name : Str} {scalarType : ScalarType}
    (found : table.columns.lookup name = some scalarType) :
    List.Forall₂ (fun row value => ∃ cell, row.lookup name = some cell ∧
      Converted python scalarType cell value) rows
        (NTTable.column V name) := by
  obtain ⟨-, filled⟩ := wrote.columns name scalarType found
  have isLabel := mem_labels_iff.mpr ⟨scalarType, found⟩
  have cells := table.cellsUnder_eq complete.plain.1 isLabel rows
  rw [Filled, cells] at filled
  rcases complete.full with rfl | ⟨-, full⟩
  · have empty : NTTable.column V name = [] := filled
    rw [empty]
    exact .nil
  · have columnFull : ∀ row ∈ rows, (row.lookup name).isSome :=
      fun row member => full row member name isLabel
    split at filled
    · rename_i none
      have noRows : rows = [] := by
        have length := (Columns.column_length_iff
          (fun row name => List.lookup name row) rows name).mpr columnFull
        rw [none] at length
        exact List.length_eq_zero_iff.mp length.symm
      rw [filled, noRows]
      exact .nil
    · refine Columns.forall₂_column columnFull
        (filled.converted itemwise ?_)
      intro cell member
      obtain ⟨row, inRows, rowFound⟩ := List.mem_filterMap.mp member
      exact complete.single row inRows name scalarType cell found rowFound

theorem lookup_row (plain : table.Plain) {position : Nat}
    {row : List PyObj}
    (found : (Columns.zipAll (table.columns.map fun column =>
      (NTTable.column V column.1).map
        (elementOf python column.2)))[position]? =
        some row)
    {column : Str × ScalarType} (member : column ∈ table.columns) :
    ∃ value, (NTTable.column V column.1)[position]? = some value ∧
      (Dict.ofEntries (table.labels.zip row)).lookup column.1 =
        some (elementOf python column.2 value) := by
  have some : (table.columns.map fun column =>
      (NTTable.column V column.1).map (elementOf python column.2)) ≠ [] := by
    rw [ne_eq, List.map_eq_nil_iff]
    exact List.ne_nil_of_mem member
  have related := Columns.getElem?_zipAll some found
  rw [List.forall₂_map_left_iff] at related
  obtain ⟨cell, rowFound, here⟩ := lookup_zip plain.1 related member
  rw [List.getElem?_map, Option.map_eq_some_iff] at here
  obtain ⟨value, here, rfl⟩ := here
  exact ⟨value, here, rowFound⟩

theorem Complete.survive (complete : table.Complete python rows)
    (lawful : lib.Lawful) (itemwise : Itemwise python) :
    table.Survive lib python rows := by
  intro V wrapped
  have wrote := wrap_wrote lawful itemwise wrapped
  have lengths : ∀ name ∈ table.labels,
      (NTTable.column V name).length = rows.length := by
    intro name member
    obtain ⟨scalarType, found⟩ := mem_labels_iff.mp member
    exact (complete.column itemwise wrote found).length_eq.symm
  obtain ⟨labels, unwrapped⟩ := wrote.unwrap complete.plain.2
  rw [complete.plain.columns fun name scalarType =>
    (NTTable.column V name).map (elementOf python scalarType)] at unwrapped
  refine ⟨⟨rows.length, lengths⟩, _, unwrapped, ?_⟩
  have size : (Columns.zipAll (table.columns.map fun column =>
      (NTTable.column V column.1).map (elementOf python column.2))).length =
        rows.length := by
    by_cases none : table.columns = []
    · rcases complete.full with rfl | ⟨some, -⟩
      · rw [none]
        rfl
      · exact (some none).elim
    · refine Columns.length_zipAll (by simpa using none) fun cells member => ?_
      obtain ⟨column, inColumns, rfl⟩ := List.mem_map.mp member
      rw [List.length_map]
      exact lengths column.1 (List.mem_map_of_mem inColumns)
  rw [List.forall₂_iff_get]
  refine ⟨by rw [List.length_map, size], ?_⟩
  intro position inRows inOut name scalarType cell found rowFound
  rw [List.length_map] at inOut
  have inColumns : (name, scalarType) ∈ table.columns :=
    Dict.mem_of_lookup found
  obtain ⟨value, here, outFound⟩ := @lookup_row python table V complete.plain
    position _ (List.getElem?_eq_getElem inOut) _ inColumns
  have placed := complete.column itemwise wrote found
  obtain ⟨inColumn, same⟩ := List.getElem?_eq_some_iff.mp here
  obtain ⟨other, otherFound, converted⟩ := placed.get inRows inColumn
  cases rowFound.symm.trans otherFound
  simp only [List.get_eq_getElem, same] at converted
  refine ⟨value, converted, ?_⟩
  simpa using outFound

theorem Survive.complete (survive : table.Survive lib python rows)
    (lawful : lib.Lawful) (itemwise : Itemwise python)
    (plain : table.Plain) (accepted : ¬table.Refused python rows) :
    table.Complete python rows := by
  obtain ⟨V, wrapped⟩ := wrap_ends lawful itemwise.default accepted
  have wrote := wrap_wrote lawful itemwise wrapped
  obtain ⟨⟨length, lengths⟩, out, unwrapped, keeps⟩ := survive V wrapped
  obtain ⟨labels, read⟩ := wrote.unwrap plain.2
  rw [plain.columns fun name scalarType =>
    (NTTable.column V name).map (elementOf python scalarType)] at read
  cases read.symm.trans unwrapped
  have single : ∀ row ∈ rows, ∀ name scalarType cell,
      table.columns.lookup name = some scalarType →
        row.lookup name = some cell →
          ∃ value, Converted python scalarType cell value := by
    intro row member name scalarType cell found rowFound
    obtain ⟨position, inRows, rfl⟩ := List.mem_iff_getElem.mp member
    obtain ⟨value, converted, -⟩ := keeps.get inRows
      (keeps.length_eq ▸ inRows) name scalarType cell found rowFound
    exact ⟨value, converted⟩
  refine ⟨plain, single, ?_⟩
  by_cases none : rows = []
  · exact .inl none
  · have size := keeps.length_eq
    have columns : table.columns ≠ [] := by
      intro empty
      rw [empty] at size
      exact none (List.length_eq_zero_iff.mp size)
    have equal : ∀ cells ∈ table.columns.map (fun column =>
        (NTTable.column V column.1).map (elementOf python column.2)),
          cells.length = length := by
      intro cells member
      obtain ⟨column, inColumns, rfl⟩ := List.mem_map.mp member
      rw [List.length_map]
      exact lengths column.1 (List.mem_map_of_mem inColumns)
    rw [List.length_map,
      Columns.length_zipAll (by simpa using columns) equal] at size
    refine .inr ⟨columns, fun row member name isLabel => ?_⟩
    obtain ⟨scalarType, found⟩ := mem_labels_iff.mp isLabel
    obtain ⟨-, filled⟩ := wrote.columns name scalarType found
    have long := lengths name isLabel
    rw [Filled, table.cellsUnder_eq plain.1 isLabel] at filled
    split at filled
    · rw [filled, List.length_nil, ← size] at long
      exact (none (List.length_eq_zero_iff.mp long.symm)).elim
    · have converted := filled.converted itemwise fun cell inColumn => by
        obtain ⟨other, inRows, rowFound⟩ := List.mem_filterMap.mp inColumn
        exact single other inRows name scalarType cell found rowFound
      rw [← converted.length_eq, ← size] at long
      exact (Columns.column_length_iff _ rows name).mp long row member

/-- All rows survive if numpy refuses some cells, no cell is missing or there
are no rows in columns that have names, and not otherwise if the names of the
columns are plain. -/
theorem rows_survive_iff (lawful : lib.Lawful) (itemwise : Itemwise python)
    (table : NTTable) (rows : List Row) :
    (table.Refused python rows ∨ table.Complete python rows ∨
        rows = [] ∧ (∀ name ∈ table.labels, MemberName name) →
      table.Survive lib python rows) ∧
    (table.Plain → table.Survive lib python rows →
      table.Refused python rows ∨ table.Complete python rows) := by
  constructor
  · rintro (refused | complete | empty)
    · intro V wrapped
      exact ((wrap_wrote lawful itemwise wrapped).accepted refused).elim
    · exact complete.survive lawful itemwise
    · obtain ⟨rfl, named⟩ := empty
      intro V wrapped
      obtain ⟨lengths, out, unwrapped, none⟩ :=
        (wrap_wrote lawful itemwise wrapped).survive_empty named
      refine ⟨lengths, out, unwrapped, ?_⟩
      rw [none]
      exact .nil
  · intro plain survive
    by_cases accepted : table.Refused python rows
    · exact .inl accepted
    · exact .inr (survive.complete lawful itemwise plain accepted)

end NTTable

/-- A Python whose numpy makes arrays of lists of `int`. -/
def listing : Python :=
  { Python.simple with
    asarray scalarType
      | .list cells => cells.mapM fun cell =>
          match cell with
          | .int value => .ok (Python.simple.intToScalar value scalarType)
          | _ => .error (.conversion [])
      | obj => Python.simple.asarray scalarType obj }

theorem listing_itemwise : Itemwise listing where
  asarray scalarType cells items taken := by
    induction cells generalizing items with
    | nil =>
        cases taken
        exact ⟨[], .nil, rfl⟩
    | cons cell cells induction =>
        have rest {value : ScalarValue}
            (first : listing.asarray scalarType (.list [cell]) = .ok [value])
            (others : listing.asarray scalarType (.list (cell :: cells)) =
              (listing.asarray scalarType (.list cells)).map (value :: ·)) :
            ∃ parts, List.Forall₂ (fun cell part =>
              listing.asarray scalarType (.list [cell]) = .ok part)
                (cell :: cells) parts ∧ items = parts.flatten := by
          rw [others] at taken
          cases ended : listing.asarray scalarType (.list cells) with
          | error error =>
              rw [ended] at taken
              cases taken
          | ok made =>
              rw [ended] at taken
              obtain ⟨parts, related, rfl⟩ := induction made ended
              cases taken
              exact ⟨[value] :: parts, .cons first related, rfl⟩
        cases cell with
        | int value =>
            refine rest rfl ?_
            simp only [listing, List.mapM_cons, bind, Except.bind]
            split <;> simp_all [Except.map, pure, Except.pure]
        | _ => cases taken
  default _ := rfl

/-- Two columns of integers. -/
def NTTable.ofPairs : NTTable where
  columns := [("x".toList, .int), ("y".toList, .int)]
  extra := []

theorem NTTable.ofPairs_plain : NTTable.ofPairs.Plain := by
  refine ⟨by decide, ?_⟩
  simp [NTTable.ofPairs, NTTable.labels, Separated.IsKey]

theorem converted_int (value : Int) :
    Converted listing .int (.int value) (.int (Int32.ofInt value)) :=
  rfl

theorem NTTable.ofPairs_single {rows : List Row}
    (ints : ∀ row ∈ rows, ∀ entry ∈ row, ∃ value, entry.2 = PyObj.int value) :
    ∀ row ∈ rows, ∀ name scalarType cell,
      NTTable.ofPairs.columns.lookup name = some scalarType →
        row.lookup name = some cell →
          ∃ value, Converted listing scalarType cell value := by
  intro row member name scalarType cell found rowFound
  obtain ⟨value, rfl⟩ := ints row member _ (Dict.mem_of_lookup rowFound)
  have int : scalarType = .int := by
    have inColumns := Dict.mem_of_lookup found
    simp only [NTTable.ofPairs, List.mem_cons, Prod.mk.injEq,
      List.not_mem_nil, or_false] at inColumns
    rcases inColumns with ⟨-, same⟩ | ⟨-, same⟩ <;> exact same
  rw [int]
  exact ⟨_, converted_int value⟩

theorem pairs_survive :
    NTTable.ofPairs.Survive .depthFirst listing
      [[("x".toList, .int 1), ("y".toList, .int 5)],
        [("y".toList, .int 7), ("x".toList, .int 2)]] := by
  have ints : ∀ row ∈ ([[("x".toList, .int 1), ("y".toList, .int 5)],
      [("y".toList, .int 7), ("x".toList, .int 2)]] : List Row),
      ∀ entry ∈ row, ∃ value, entry.2 = PyObj.int value := by
    intro row inRows entry inRow
    rcases List.mem_pair.mp inRows with rfl | rfl
    · rcases List.mem_pair.mp inRow with rfl | rfl <;> exact ⟨_, rfl⟩
    · rcases List.mem_pair.mp inRow with rfl | rfl <;> exact ⟨_, rfl⟩
  have complete : NTTable.ofPairs.Complete listing
      [[("x".toList, .int 1), ("y".toList, .int 5)],
        [("y".toList, .int 7), ("x".toList, .int 2)]] := {
    plain := NTTable.ofPairs_plain
    single := NTTable.ofPairs_single ints
    full := by simp [NTTable.ofPairs, NTTable.labels] }
  exact (NTTable.rows_survive_iff PvData.depthFirst_lawful listing_itemwise _
    _).1 (.inr (.inl complete))

/-- The first row gets the cell of `y` of the second, which is gone. -/
theorem cell_moves :
    (NTTable.ofPairs.wrap .depthFirst listing [[("x".toList, .int 1)],
        [("x".toList, .int 2), ("y".toList, .int 5)]]).bind
        (fun V => (NTTable.unwrap listing V).map NTTable.Unwrapped.rows) =
      .ok [[("x".toList, .numpy (.int 1)), ("y".toList, .numpy (.int 5))]] ∧
    ¬NTTable.ofPairs.Survive .depthFirst listing [[("x".toList, .int 1)],
      [("x".toList, .int 2), ("y".toList, .int 5)]] := by
  refine ⟨rfl, ?_⟩
  intro survive
  obtain ⟨-, out, unwrapped, keeps⟩ := survive _ rfl
  cases unwrapped
  cases keeps.length_eq

end Repics.Pva.Nt
