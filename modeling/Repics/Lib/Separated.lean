import Mathlib.Data.List.Induction
import Mathlib.Data.List.Basic

/-!
# Paths written as separated text

A path is a list of keys, and its text is the keys with a separator between
them.  As long as no key is empty or contains the separator, splitting the
text gives the path back, and cutting the text at its last separator removes
the last key.
-/

universe u

namespace Separated

variable {κ : Type u} [DecidableEq κ] (separator : κ)

/-- A key that can be told apart in the text of a path. -/
def IsKey (key : List κ) : Prop :=
  key ≠ [] ∧ separator ∉ key

instance (key : List κ) : Decidable (IsKey separator key) :=
  inferInstanceAs (Decidable (_ ∧ _))

def render (path : List (List κ)) : List κ :=
  List.intercalate [separator] path

/-- The nonempty pieces between the separators. -/
def segments (text : List κ) : List (List κ) :=
  (text.splitOn separator).filter fun piece => piece ≠ []

/-- What stands before the last separator, if there is one. -/
def beforeLast? : List κ → Option (List κ)
  | [] => none
  | symbol :: rest =>
      match beforeLast? rest with
      | some front => some (symbol :: front)
      | none => if symbol = separator then some [] else none

theorem beforeLast?_length {text front : List κ}
    (cut : beforeLast? separator text = some front) :
    front.length < text.length := by
  induction text generalizing front with
  | nil => simp [beforeLast?] at cut
  | cons symbol rest induction =>
      cases inner : beforeLast? separator rest with
      | some before =>
          simp only [beforeLast?, inner, Option.some.injEq] at cut
          have shorter := induction inner
          simp only [← cut, List.length_cons]
          omega
      | none =>
          simp only [beforeLast?, inner] at cut
          split at cut
          · simp only [Option.some.injEq] at cut
            simp [← cut]
          · simp at cut

/-- What stands before each separator, from the last to the first. -/
def cuts (text : List κ) : List (List κ) :=
  match _cut : beforeLast? separator text with
  | none => []
  | some front => front :: cuts front
termination_by text.length
decreasing_by exact beforeLast?_length separator _cut

variable {separator}

omit [DecidableEq κ] in
@[simp] theorem render_nil : render separator ([] : List (List κ)) = [] :=
  rfl

omit [DecidableEq κ] in
@[simp] theorem render_singleton (key : List κ) :
    render separator [key] = key := by
  simp [render]

omit [DecidableEq κ] in
theorem render_cons {key : List κ} {path : List (List κ)}
    (nonempty : path ≠ []) :
    render separator (key :: path) =
      key ++ separator :: render separator path := by
  simp [render, List.intercalate_cons_of_ne_nil nonempty]

omit [DecidableEq κ] in
theorem render_append {front back : List (List κ)}
    (frontNonempty : front ≠ []) (backNonempty : back ≠ []) :
    render separator (front ++ back) =
      render separator front ++ separator :: render separator back := by
  induction front with
  | nil => exact (frontNonempty rfl).elim
  | cons key front induction =>
      by_cases last : front = []
      · subst last
        simp [render_cons backNonempty]
      · rw [List.cons_append, render_cons (by simp [last]), induction last,
          render_cons last, List.append_assoc, List.cons_append]

omit [DecidableEq κ] in
theorem render_ne_nil {path : List (List κ)} (nonempty : path ≠ [])
    (keys : ∀ key ∈ path, IsKey separator key) :
    render separator path ≠ [] := by
  cases path with
  | nil => exact (nonempty rfl).elim
  | cons key path =>
      have keyNonempty := (keys key (by simp)).1
      by_cases last : path = []
      · simpa [last] using keyNonempty
      · rw [render_cons last]
        simp

theorem splitOn_render {path : List (List κ)} (nonempty : path ≠ [])
    (keys : ∀ key ∈ path, IsKey separator key) :
    (render separator path).splitOn separator = path :=
  List.splitOn_intercalate separator (fun key member => (keys key member).2)
    nonempty

theorem segments_render {path : List (List κ)}
    (keys : ∀ key ∈ path, IsKey separator key) :
    segments separator (render separator path) = path := by
  by_cases empty : path = []
  · subst empty
    simp [segments]
  · rw [segments, splitOn_render empty keys, List.filter_eq_self]
    intro key member
    simpa using (keys key member).1

@[simp] theorem segments_nil : segments separator ([] : List κ) = [] := by
  simp [segments]

theorem segments_append (front back : List κ) :
    segments separator (front ++ separator :: back) =
      segments separator front ++ segments separator back := by
  simp [segments, List.splitOn_append_cons_self]

theorem not_mem_splitOn {text piece : List κ}
    (member : piece ∈ text.splitOn separator) : separator ∉ piece := by
  induction text generalizing piece with
  | nil =>
      rw [List.splitOn_nil, List.mem_singleton] at member
      rw [member]
      exact List.not_mem_nil
  | cons symbol rest induction =>
      rw [List.splitOn_cons_eq_if_modifyHead] at member
      split_ifs at member with same
      · rcases List.mem_cons.mp member with rfl | later
        · exact List.not_mem_nil
        · exact induction later
      · obtain ⟨first, others, split⟩ :=
          List.exists_cons_of_ne_nil (List.splitOn_ne_nil separator rest)
        rw [split] at member induction
        have apart : separator ≠ symbol := by
          rintro rfl
          exact same (beq_self_eq_true separator)
        rcases List.mem_cons.mp member with rfl | later
        · have absent := induction List.mem_cons_self
          simp [apart, absent]
        · exact induction (List.mem_cons_of_mem first later)

theorem isKey_of_mem_segments {text piece : List κ}
    (member : piece ∈ segments separator text) : IsKey separator piece := by
  obtain ⟨isPiece, nonempty⟩ := List.mem_filter.mp member
  exact ⟨of_decide_eq_true nonempty, not_mem_splitOn isPiece⟩

theorem segments_of_isKey {key : List κ} (valid : IsKey separator key) :
    segments separator key = [key] := by
  simp [segments, List.splitOn_eq_singleton valid.2, valid.1]

theorem beforeLast?_of_not_mem {text : List κ}
    (absent : separator ∉ text) : beforeLast? separator text = none := by
  induction text with
  | nil => rfl
  | cons symbol rest induction =>
      simp only [List.mem_cons, not_or] at absent
      have different : symbol ≠ separator := fun same => absent.1 same.symm
      simp [beforeLast?, induction absent.2, different]

theorem beforeLast?_append {front back : List κ}
    (absent : separator ∉ back) :
    beforeLast? separator (front ++ separator :: back) = some front := by
  induction front with
  | nil => simp [beforeLast?, beforeLast?_of_not_mem absent]
  | cons symbol front induction => simp [beforeLast?, induction]

theorem beforeLast?_render_singleton {key : List κ}
    (valid : IsKey separator key) :
    beforeLast? separator (render separator [key]) = none := by
  simpa using beforeLast?_of_not_mem valid.2

theorem beforeLast?_render_snoc {path : List (List κ)} {key : List κ}
    (nonempty : path ≠ []) (valid : IsKey separator key) :
    beforeLast? separator (render separator (path ++ [key])) =
      some (render separator path) := by
  rw [render_append nonempty (by simp), render_singleton]
  exact beforeLast?_append valid.2

theorem cuts_of_none {text : List κ}
    (none : beforeLast? separator text = none) : cuts separator text = [] := by
  rw [cuts]
  split
  · rfl
  · rename_i some
    simp [none] at some

theorem cuts_of_some {text front : List κ}
    (cut : beforeLast? separator text = some front) :
    cuts separator text = front :: cuts separator front := by
  rw [cuts]
  split
  · rename_i none
    simp [cut] at none
  · rename_i other some
    obtain rfl : other = front := by simpa [some] using cut
    rfl

theorem mem_cuts_render_iff {path : List (List κ)}
    (keys : ∀ key ∈ path, IsKey separator key) (text : List κ) :
    text ∈ cuts separator (render separator path) ↔
      ∃ front, front ≠ [] ∧ front <+: path ∧ front ≠ path ∧
        text = render separator front := by
  induction path using List.reverseRecOn with
  | nil =>
      have none : beforeLast? separator (render separator
          ([] : List (List κ))) = none := rfl
      rw [cuts_of_none none]
      constructor
      · simp
      · intro ancestor
        obtain ⟨front, nonempty, isPrefix, -⟩ := ancestor
        exact (nonempty (List.prefix_nil.mp isPrefix)).elim
  | append_singleton path key induction =>
      have valid := keys key (by simp)
      have pathKeys : ∀ key ∈ path, IsKey separator key :=
        fun other member => keys other (by simp [member])
      by_cases empty : path = []
      · subst empty
        have none : beforeLast? separator (render separator ([] ++ [key])) =
            none := beforeLast?_render_singleton valid
        rw [cuts_of_none none]
        constructor
        · simp
        · intro ancestor
          obtain ⟨front, nonempty, isPrefix, different, -⟩ := ancestor
          rcases List.prefix_concat_iff.mp isPrefix with whole | inside
          · exact (different whole).elim
          · exact (nonempty (List.prefix_nil.mp inside)).elim
      · rw [cuts_of_some (beforeLast?_render_snoc empty valid),
          List.mem_cons, induction pathKeys]
        constructor
        · intro ancestor
          rcases ancestor with here | above
          · exact ⟨path, empty, List.prefix_append _ _, by simp, here⟩
          · obtain ⟨front, nonempty, isPrefix, -, same⟩ := above
            refine ⟨front, nonempty,
              isPrefix.trans (List.prefix_append _ _), ?_, same⟩
            intro whole
            have length := isPrefix.length_le
            simp only [whole, List.length_append,
              List.length_singleton] at length
            omega
        · intro ancestor
          obtain ⟨front, nonempty, isPrefix, different, same⟩ := ancestor
          rcases List.prefix_concat_iff.mp isPrefix with whole | inside
          · exact (different whole).elim
          · by_cases here : front = path
            · exact .inl (here ▸ same)
            · exact .inr ⟨front, nonempty, inside, here, same⟩

end Separated
