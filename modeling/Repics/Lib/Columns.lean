import Mathlib.Data.List.Forall2

/-!
# Rows and columns

A table with missing cells has a column for each name: the cells that its rows
have, without a trace of the rows that have none.  Taking the columns together
again row by row stops at the shortest of them.
-/

namespace Columns

variable {κ α β ρ : Type*}

/-- The cells that the rows have under a name. -/
def column (cell? : ρ → κ → Option α) (rows : List ρ) (name : κ) : List α :=
  rows.filterMap fun row => cell? row name

/-- The `zip` of the columns: the cells with one position in all of them. -/
def zipAll : List (List α) → List (List α)
  | [] => []
  | [cells] => cells.map fun cell => [cell]
  | cells :: columns => List.zipWith List.cons cells (zipAll columns)

theorem nodup_eraseDups [BEq κ] [LawfulBEq κ] (names : List κ) :
    names.eraseDups.Nodup := by
  cases names with
  | nil => exact List.nodup_nil
  | cons name names =>
      have shorter := List.length_filter_le (fun other => !other == name) names
      rw [List.eraseDups_cons, List.nodup_cons]
      refine ⟨by simp, nodup_eraseDups _⟩
termination_by names.length
decreasing_by
  rw [List.length_cons]
  omega

/-- A column is as long as the table exactly if no row lacks its cell. -/
theorem column_length_iff (cell? : ρ → κ → Option α) (rows : List ρ)
    (name : κ) :
    (column cell? rows name).length = rows.length ↔
      ∀ row ∈ rows, (cell? row name).isSome :=
  List.filterMap_length_eq_length

/-- Then what belongs to the cells in order belongs to the rows in order. -/
theorem forall₂_column {cell? : ρ → κ → Option α} {rows : List ρ} {name : κ}
    (full : ∀ row ∈ rows, (cell? row name).isSome)
    {Related : α → β → Prop} {values : List β}
    (related : List.Forall₂ Related (column cell? rows name) values) :
    List.Forall₂ (fun row value => ∃ cell, cell? row name = some cell ∧
      Related cell value) rows values := by
  induction rows generalizing values with
  | nil =>
      cases related
      exact .nil
  | cons row rows induction =>
      obtain ⟨cell, found⟩ :=
        Option.isSome_iff_exists.mp (full row List.mem_cons_self)
      simp only [column, List.filterMap_cons, found] at related
      cases related with
      | cons here rest =>
          exact .cons ⟨cell, found, here⟩ (induction (fun other member =>
            full other (List.mem_cons_of_mem row member)) rest)

theorem length_zipAll {columns : List (List α)} (nonempty : columns ≠ [])
    {length : Nat} (equal : ∀ cells ∈ columns, cells.length = length) :
    (zipAll columns).length = length := by
  induction columns with
  | nil => exact absurd rfl nonempty
  | cons cells columns induction =>
      have first := equal cells List.mem_cons_self
      cases columns with
      | nil => rw [zipAll, List.length_map, first]
      | cons next columns =>
          have rest := induction (List.cons_ne_nil next columns)
            fun other member => equal other (List.mem_cons_of_mem _ member)
          rw [zipAll, List.length_zipWith, first, rest, Nat.min_self]
          exact List.cons_ne_nil next columns

/-- There are no rows if there are no columns, or one without cells. -/
theorem zipAll_eq_nil_iff {columns : List (List α)} :
    zipAll columns = [] ↔ columns = [] ∨ [] ∈ columns := by
  induction columns with
  | nil => simp [zipAll]
  | cons cells columns induction =>
      cases columns with
      | nil => simp [zipAll]
      | cons next columns =>
          rw [zipAll, List.zipWith_eq_nil_iff, induction]
          · simp
          · exact List.cons_ne_nil next columns

theorem getElem?_zipAll {columns : List (List α)} (nonempty : columns ≠ [])
    {position : Nat} {row : List α}
    (found : (zipAll columns)[position]? = some row) :
    List.Forall₂ (fun cells cell => cells[position]? = some cell) columns
      row := by
  induction columns generalizing row with
  | nil => exact absurd rfl nonempty
  | cons cells columns induction =>
      cases columns with
      | nil =>
          rw [zipAll, List.getElem?_map, Option.map_eq_some_iff] at found
          obtain ⟨cell, here, rfl⟩ := found
          exact .cons here .nil
      | cons next columns =>
          rw [zipAll, List.getElem?_zipWith_eq_some] at found
          · obtain ⟨cell, rest, here, restFound, rfl⟩ := found
            exact .cons here
              (induction (List.cons_ne_nil next columns) restFound)
          · exact List.cons_ne_nil next columns

end Columns
