import Mathlib.Data.List.Basic

/-!
# Squashed sequences

A consumer that is slower than its producer may be given fewer items than were
pushed: a new item may be merged into the one directly before it.  `Squashed`
says that one sequence comes from another in this way.  Items are taken from
the front and pushed at the end, so the relation grows at the end.
-/

universe u v w

/-- `kept` is `pushed` with some items merged into the item before them. -/
inductive Squashed {α : Type u} (merge : α → α → Option α) :
    List α → List α → Prop where
  | nil : Squashed merge [] []
  | append {pushed kept : List α} (item : α) :
      Squashed merge pushed kept →
      Squashed merge (pushed ++ [item]) (kept ++ [item])
  | merge {pushed front : List α} {tail item merged : α} :
      Squashed merge pushed (front ++ [tail]) →
      merge tail item = some merged →
      Squashed merge (pushed ++ [item]) (front ++ [merged])

namespace Squashed

variable {α : Type u} {β : Type v}
variable {merge : α → α → Option α}

/-- What has been kept at some time comes from what had been pushed then. -/
theorem of_front {pushed kept front : List α}
    (squashed : Squashed merge pushed kept) (isPrefix : front <+: kept) :
    ∃ start, start <+: pushed ∧ Squashed merge start front := by
  induction squashed with
  | nil =>
      obtain rfl : front = [] := List.prefix_nil.mp isPrefix
      exact ⟨[], List.prefix_rfl, .nil⟩
  | append item squashed induction =>
      rcases List.prefix_concat_iff.mp isPrefix with whole | inside
      · exact ⟨_, List.prefix_rfl, whole ▸ squashed.append item⟩
      · obtain ⟨start, startPrefix, startSquashed⟩ := induction inside
        exact ⟨start, startPrefix.trans (List.prefix_append _ _),
          startSquashed⟩
  | merge squashed merged induction =>
      rcases List.prefix_concat_iff.mp isPrefix with whole | inside
      · exact ⟨_, List.prefix_rfl, whole ▸ squashed.merge merged⟩
      · obtain ⟨start, startPrefix, startSquashed⟩ :=
          induction (inside.trans (List.prefix_append _ _))
        exact ⟨start, startPrefix.trans (List.prefix_append _ _),
          startSquashed⟩

/-- Both sequences end in items that look alike when merging keeps the look
of the newer item. -/
theorem getLast?_map {pushed kept : List α}
    (squashed : Squashed merge pushed kept) (view : α → β)
    (newer : ∀ tail item merged,
      merge tail item = some merged → view merged = view item) :
    pushed.getLast?.map view = kept.getLast?.map view := by
  cases squashed with
  | nil => rfl
  | append item _ => simp
  | merge _ merged => simp [newer _ _ _ merged]

/-- What is kept looks like some of what was pushed, in the same order. -/
theorem sublist_map {pushed kept : List α}
    (squashed : Squashed merge pushed kept) (view : α → β)
    (newer : ∀ tail item merged,
      merge tail item = some merged → view merged = view item) :
    (kept.map view).Sublist (pushed.map view) := by
  induction squashed with
  | nil => exact .slnil
  | append item _ induction =>
      simp only [List.map_append, List.map_cons, List.map_nil]
      apply induction.append (List.Sublist.refl _)
  | @merge pushed front tail item merged _ mergedEq induction =>
      simp only [List.map_append, List.map_cons, List.map_nil]
        at induction ⊢
      rw [newer _ _ _ mergedEq]
      have before : (front.map view).Sublist (pushed.map view) :=
        (List.sublist_append_left _ _).trans induction
      apply before.append (List.Sublist.refl _)

/-- Selecting items commutes with squashing when only selected items merge,
and merge as their selections do. -/
theorem filterMap {other : β → β → Option β} (select : α → Option β)
    (compatible : ∀ tail item merged, merge tail item = some merged →
      ∃ left right both, select tail = some left ∧
        select item = some right ∧ select merged = some both ∧
        other left right = some both)
    {pushed kept : List α} (squashed : Squashed merge pushed kept) :
    Squashed other (pushed.filterMap select) (kept.filterMap select) := by
  induction squashed with
  | nil => exact .nil
  | append item _ induction =>
      simp only [List.filterMap_append, List.filterMap_cons,
        List.filterMap_nil]
      cases select item with
      | none => simpa using induction
      | some selected => exact induction.append selected
  | merge _ merged induction =>
      obtain ⟨left, right, both, leftEq, rightEq, bothEq, otherEq⟩ :=
        compatible _ _ _ merged
      simp only [List.filterMap_append, List.filterMap_cons,
        List.filterMap_nil, leftEq, rightEq, bothEq] at induction ⊢
      exact induction.merge otherEq

theorem map {other : β → β → Option β} (view : α → β)
    (compatible : ∀ tail item merged, merge tail item = some merged →
      other (view tail) (view item) = some (view merged))
    {pushed kept : List α} (squashed : Squashed merge pushed kept) :
    Squashed other (pushed.map view) (kept.map view) := by
  induction squashed with
  | nil => exact .nil
  | append item _ induction =>
      simp only [List.map_append, List.map_cons, List.map_nil]
      apply induction.append
  | merge _ merged induction =>
      simp only [List.map_append, List.map_cons, List.map_nil]
        at induction ⊢
      apply induction.merge (compatible _ _ _ merged)

/-- Nothing is lost or invented when a merged item holds what either of the
two held. -/
theorem holds_iff {holds : α → Prop}
    (merged_iff : ∀ tail item merged, merge tail item = some merged →
      (holds merged ↔ holds tail ∨ holds item))
    {pushed kept : List α} (squashed : Squashed merge pushed kept) :
    (∃ item ∈ pushed, holds item) ↔ ∃ item ∈ kept, holds item := by
  induction squashed with
  | nil => rfl
  | append item _ induction =>
      simp only [List.mem_append, List.mem_singleton, or_and_right,
        exists_or, exists_eq_left, induction]
  | merge _ merged induction =>
      simp only [List.mem_append, List.mem_singleton, or_and_right,
        exists_or, exists_eq_left] at induction ⊢
      rw [induction, merged_iff _ _ _ merged, or_assoc]

end Squashed
