import Repics.Lib.Collapse

/-!
# One key of a collapse

What a collapse keeps of one key is what that key alone would keep: every
entry that does not join, and the last entry of each run of entries that do.
Where the entries of other keys stand does not matter.
-/

universe u v w

namespace Collapse

variable {α : Type u} {κ : Type v}

/-- Some entries are kept; one is left out only when it and the next one
join. -/
inductive Thins (joins : α → Bool) : List α → List α → Prop where
  | nil : Thins joins [] []
  | keep {entries kept : List α} (entry : α) :
      Thins joins entries kept → Thins joins (entry :: entries) (entry :: kept)
  | drop {entry next : α} {entries kept : List α} :
      joins entry = true → joins next = true →
      Thins joins (next :: entries) kept →
      Thins joins (entry :: next :: entries) kept

namespace Thins

variable {joins : α → Bool} {entries kept : List α}

theorem refl (entries : List α) : Thins joins entries entries := by
  induction entries with
  | nil => exact .nil
  | cons entry entries induction => exact .keep entry induction

theorem append {more others : List α} (first : Thins joins entries kept)
    (second : Thins joins more others) :
    Thins joins (entries ++ more) (kept ++ others) := by
  induction first with
  | nil => exact second
  | keep entry _ induction => exact .keep entry induction
  | drop left right _ induction => exact .drop left right induction

theorem sublist (thins : Thins joins entries kept) : kept.Sublist entries := by
  induction thins with
  | nil => exact .slnil
  | keep entry _ induction => exact induction.cons_cons entry
  | drop _ _ _ induction => exact induction.cons _

theorem filter_not (thins : Thins joins entries kept) :
    kept.filter (fun entry => !joins entry) =
      entries.filter fun entry => !joins entry := by
  induction thins with
  | nil => rfl
  | keep entry _ induction => rw [List.filter_cons, List.filter_cons, induction]
  | drop left _ _ induction =>
      rw [induction, eq_comm]
      exact List.filter_cons_of_neg (by simp [left])

theorem exists_joins (thins : Thins joins entries kept) {entry : α}
    (starts : entries.head? = some entry) (joined : joins entry = true) :
    ∃ last ∈ kept, joins last = true := by
  induction thins generalizing entry with
  | nil => cases starts
  | keep first _ _ =>
      cases starts
      exact ⟨_, List.mem_cons_self, joined⟩
  | drop _ right _ induction => exact induction rfl right

/-- What is read off the entries ends alike when it can be read off every
entry that is kept of a run. -/
theorem filterMap_getLast? (thins : Thins joins entries kept) {β : Type w}
    {use : α → Option β}
    (usable : ∀ entry ∈ kept, joins entry = true → (use entry).isSome) :
    (kept.filterMap use).getLast? = (entries.filterMap use).getLast? := by
  induction thins with
  | nil => rfl
  | keep entry _ induction =>
      have later := induction fun other member =>
        usable other (.tail entry member)
      cases used : use entry with
      | none =>
          rw [List.filterMap_cons_none used, List.filterMap_cons_none used,
            later]
      | some value =>
          rw [List.filterMap_cons_some used, List.filterMap_cons_some used,
            List.getLast?_cons, List.getLast?_cons, later]
  | @drop entry next entries kept left right thins induction =>
      have nonempty : (next :: entries).filterMap use ≠ [] := by
        obtain ⟨last, member, joined⟩ := thins.exists_joins rfl right
        obtain ⟨value, used⟩ :=
          Option.isSome_iff_exists.mp (usable last member joined)
        exact List.ne_nil_of_mem
          (List.mem_filterMap.mpr ⟨last, thins.sublist.mem member, used⟩)
      rw [induction usable]
      cases used : use entry with
      | none => rw [List.filterMap_cons_none used]
      | some value =>
          rw [List.filterMap_cons_some used, List.getLast?_cons,
            List.getLast?_eq_some_getLast nonempty]
          rfl

end Thins

section Lasts

variable (joins : α → Bool)

/-- An entry is left out when it and the next one join. -/
def lasts : List α → List α
  | [] => []
  | [entry] => [entry]
  | first :: second :: rest =>
      if joins first && joins second then lasts (second :: rest)
      else first :: lasts (second :: rest)

theorem lasts_cons_ne_nil (entry : α) (rest : List α) :
    lasts joins (entry :: rest) ≠ [] := by
  induction rest generalizing entry with
  | nil => simp [lasts]
  | cons second rest induction =>
      rw [lasts]
      split
      · exact induction second
      · simp

theorem lasts_thins (entries : List α) :
    Thins joins entries (lasts joins entries) := by
  fun_induction lasts joins entries with
  | case1 => exact .nil
  | case2 entry => exact .refl [entry]
  | case3 first second rest both induction =>
      obtain ⟨left, right⟩ := Bool.and_eq_true_iff.mp both
      exact .drop left right induction
  | case4 first second rest apart induction => exact .keep first induction

theorem lasts_sublist (entries : List α) :
    (lasts joins entries).Sublist entries :=
  (lasts_thins joins entries).sublist

theorem lasts_append (early late : List α)
    (apart : (early.getLast?.any joins && late.head?.any joins) = false) :
    lasts joins (early ++ late) = lasts joins early ++ lasts joins late := by
  fun_induction lasts joins early with
  | case1 => rfl
  | case2 entry =>
      cases late with
      | nil => rfl
      | cons next late =>
          have ends : (joins entry && joins next) = false := by
            simpa using apart
          rw [List.singleton_append, lasts, if_neg (by simp [ends])]
          rfl
  | case3 first second rest both induction =>
      rw [List.getLast?_cons_cons] at apart
      rw [List.cons_append, List.cons_append, lasts, if_pos both]
      exact induction apart
  | case4 first second rest separate induction =>
      rw [List.getLast?_cons_cons] at apart
      rw [List.cons_append, List.cons_append, lasts, if_neg separate]
      exact congrArg (first :: ·) (induction apart)

/-- The newest entry of a run takes the place of the one before. -/
theorem lasts_replace (early : List α) {old entry : α}
    (first : joins old = true) (second : joins entry = true) :
    lasts joins (early ++ [old, entry]) =
      (lasts joins (early ++ [old])).dropLast ++ [entry] := by
  induction early with
  | nil => simp [lasts, first, second]
  | cons head early induction =>
      obtain ⟨next, rest, split⟩ :
          ∃ next rest, early ++ [old] = next :: rest :=
        List.exists_cons_of_ne_nil (by simp)
      have whole : early ++ [old, entry] = next :: (rest ++ [entry]) := by
        rw [List.append_cons, split, List.cons_append]
      rw [split, whole] at induction
      rw [List.cons_append, List.cons_append, split, whole, lasts, lasts]
      split
      · exact induction
      · have some := lasts_cons_ne_nil joins next rest
        rw [induction, List.dropLast_cons_of_ne_nil some, List.cons_append]

theorem lasts_concat (early : List α) (entry : α) :
    ∃ front, lasts joins (early ++ [entry]) = front ++ [entry] ∧
      front.Sublist early := by
  induction early with
  | nil => exact ⟨[], rfl, .slnil⟩
  | cons head early induction =>
      obtain ⟨front, is, sublist⟩ := induction
      obtain ⟨next, rest, split⟩ :
          ∃ next rest, early ++ [entry] = next :: rest :=
        List.exists_cons_of_ne_nil (by simp)
      rw [List.cons_append, split, lasts, ← split, is]
      split
      · exact ⟨front, rfl, sublist.cons head⟩
      · exact ⟨head :: front, rfl, sublist.cons_cons head⟩

theorem lasts_eq_self {entries : List α}
    (none : ∀ entry ∈ entries, joins entry = false) :
    lasts joins entries = entries := by
  fun_induction lasts joins entries with
  | case1 => rfl
  | case2 entry => rfl
  | case3 first second rest both induction =>
      simp [none first List.mem_cons_self] at both
  | case4 first second rest apart induction =>
      rw [induction fun entry member => none entry (.tail first member)]

theorem lasts_congr {joins other : α → Bool} {entries : List α}
    (same : ∀ entry ∈ entries, joins entry = other entry) :
    lasts joins entries = lasts other entries := by
  fun_induction lasts joins entries with
  | case1 => rfl
  | case2 entry => rfl
  | case3 first second rest both induction =>
      rw [same first (by simp), same second (by simp)] at both
      rw [lasts, if_pos both]
      exact induction fun entry member => same entry (.tail first member)
  | case4 first second rest apart induction =>
      rw [same first (by simp), same second (by simp)] at apart
      rw [lasts, if_neg apart,
        induction fun entry member => same entry (.tail first member)]

end Lasts

variable [DecidableEq κ] {key : α → κ} {joins : α → Bool}

/-- The entries of one key. -/
def ofKey (key : α → κ) (own : κ) (entries : List α) : List α :=
  entries.filter fun entry => key entry = own

section OfKey

variable {own : κ}

@[simp] theorem ofKey_nil : ofKey key own [] = [] := rfl

@[simp] theorem ofKey_append (early late : List α) :
    ofKey key own (early ++ late) =
      ofKey key own early ++ ofKey key own late :=
  List.filter_append _ _

theorem ofKey_cons_own {entry : α} (same : key entry = own)
    (rest : List α) :
    ofKey key own (entry :: rest) = entry :: ofKey key own rest :=
  List.filter_cons_of_pos (by simpa using same)

theorem ofKey_cons_other {entry : α} (other : key entry ≠ own)
    (rest : List α) : ofKey key own (entry :: rest) = ofKey key own rest :=
  List.filter_cons_of_neg (by simpa using other)

theorem mem_ofKey_iff {entry : α} {entries : List α} :
    entry ∈ ofKey key own entries ↔ entry ∈ entries ∧ key entry = own := by
  simp [ofKey]

theorem ofKey_eq_nil {entries : List α}
    (none : ∀ entry ∈ entries, key entry ≠ own) :
    ofKey key own entries = [] :=
  List.filter_eq_nil_iff.mpr (by simpa using none)

end OfKey

/-- What is kept of every key so far is what that key alone keeps, and the
entry that may be replaced is the last of its key. -/
structure Projects (key : α → κ) (joins : α → Bool) (entries : List α)
    (state : Collapse α κ) : Prop where
  out : ∀ own, ofKey key own state.out = lasts joins (ofKey key own entries)
  stands : ∀ own place, state.last own = some place →
    ∃ front old back, state.out = front ++ old :: back ∧
      front.length = place ∧ key old = own ∧ joins old = true ∧
      (∀ other ∈ back, key other ≠ own) ∧
      (ofKey key own entries).getLast? = some old
  parted : ∀ own, state.last own = none →
    (ofKey key own entries).getLast?.any joins = false

theorem Projects.empty : Projects key joins [] Collapse.empty where
  out _ := rfl
  stands _ _ last := by simp [Collapse.empty] at last
  parted _ _ := rfl

section Push

variable {entries : List α} {state : Collapse α κ} {entry : α}

theorem ofKey_concat_own (entries : List α) (entry : α) :
    ofKey key (key entry) (entries ++ [entry]) =
      ofKey key (key entry) entries ++ [entry] := by
  rw [ofKey_append, ofKey_cons_own rfl, ofKey_nil]

theorem ofKey_concat_other {own : κ} (other : key entry ≠ own)
    (entries : List α) :
    ofKey key own (entries ++ [entry]) = ofKey key own entries := by
  rw [ofKey_append, ofKey_cons_other other, ofKey_nil, List.append_nil]

theorem Projects.append (projects : Projects key joins entries state)
    (apart : joins entry = true → state.last (key entry) = none) :
    Projects key joins (entries ++ [entry])
      ⟨state.out ++ [entry], Function.update state.last (key entry)
        (if joins entry then some state.out.length else none)⟩ where
  out own := by
    by_cases same : key entry = own
    · subst same
      have ends : ((ofKey key (key entry) entries).getLast?.any joins &&
          ([entry] : List α).head?.any joins) = false := by
        cases joinsToo : joins entry with
        | false => simp [joinsToo]
        | true =>
            rw [projects.parted _ (apart joinsToo)]
            rfl
      rw [ofKey_concat_own, ofKey_concat_own, projects.out,
        lasts_append joins _ _ ends]
      rfl
    · rw [ofKey_concat_other same, ofKey_concat_other same, projects.out]
  stands own place last := by
    dsimp only at last
    by_cases same : own = key entry
    · subst same
      rw [Function.update_self, Option.ite_none_right_eq_some,
        Option.some.injEq] at last
      obtain ⟨joinsToo, rfl⟩ := last
      refine ⟨state.out, entry, [], rfl, rfl, rfl, joinsToo, by simp, ?_⟩
      rw [ofKey_concat_own, List.getLast?_concat]
    · rw [Function.update_of_ne same] at last
      obtain ⟨front, old, back, split, length, isOwn, can, later, newest⟩ :=
        projects.stands own place last
      refine ⟨front, old, back ++ [entry], ?_, length, isOwn, can, ?_, ?_⟩
      · simp [split]
      · intro other member
        rcases List.mem_append.mp member with before | isNew
        · exact later other before
        · rw [List.mem_singleton.mp isNew]
          exact Ne.symm same
      · rw [ofKey_concat_other (Ne.symm same)]
        exact newest
  parted own last := by
    dsimp only at last
    by_cases same : own = key entry
    · subst same
      rw [Function.update_self] at last
      have cannot : joins entry = false := by simpa using last
      rw [ofKey_concat_own, List.getLast?_concat]
      exact cannot
    · rw [Function.update_of_ne same] at last
      rw [ofKey_concat_other (Ne.symm same)]
      exact projects.parted own last

/-- Setting a place leaves what stands at another where it is. -/
theorem split_set {front : List α} {place : Nat}
    (away : place ≠ front.length) (old : α) (back : List α) (entry : α) :
    ∃ front' back', (front ++ old :: back).set place entry =
        front' ++ old :: back' ∧ front'.length = front.length ∧
      ∀ other ∈ back', other ∈ back ∨ other = entry := by
  rcases Nat.lt_or_gt_of_ne away with less | more
  · refine ⟨front.set place entry, back, ?_, List.length_set, ?_⟩
    · rw [List.set_append_left _ _ less]
    · exact fun other member => .inl member
  · obtain ⟨offset, rfl⟩ := Nat.exists_eq_add_of_lt more
    refine ⟨front, back.set offset entry, ?_, rfl, ?_⟩
    · rw [List.set_append_right _ _ (by omega)]
      have shift : front.length + offset + 1 - front.length = offset + 1 := by
        omega
      rw [shift, List.set_cons_succ]
    · exact fun other member => List.mem_or_eq_of_mem_set member

/-- An entry that continues a run takes the place of its last one. -/
theorem Projects.replace (projects : Projects key joins entries state)
    (can : joins entry = true) {place : Nat}
    (last : state.last (key entry) = some place) :
    Projects key joins (entries ++ [entry])
      { state with out := state.out.set place entry } := by
  obtain ⟨front, old, back, split, rfl, isOwn, joinsOld, later, newest⟩ :=
    projects.stands _ _ last
  have changed : state.out.set front.length entry =
      front ++ entry :: back := by
    rw [split, List.set_append_right _ _ (Nat.le_refl _), Nat.sub_self,
      List.set_cons_zero]
  have noneLater : ofKey key (key entry) back = [] := ofKey_eq_nil later
  constructor
  · intro own
    rw [changed]
    by_cases same : key entry = own
    · subst same
      obtain ⟨early, is⟩ := List.getLast?_eq_some_iff.mp newest
      have before := projects.out (key entry)
      rw [split, ofKey_append, ofKey_cons_own isOwn, noneLater, is] at before
      rw [ofKey_append, ofKey_cons_own rfl, noneLater, ofKey_concat_own, is,
        List.append_assoc, List.singleton_append,
        lasts_replace joins early joinsOld can, ← before,
        List.dropLast_concat]
    · have before := projects.out own
      rw [split, ofKey_append, ofKey_cons_other (isOwn ▸ same)] at before
      rw [ofKey_append, ofKey_cons_other same, ofKey_concat_other same]
      exact before
  · intro own there lastIs
    by_cases same : own = key entry
    · subst same
      obtain rfl : there = front.length :=
        Option.some.inj (lastIs.symm.trans last)
      refine ⟨front, entry, back, changed, rfl, rfl, can, later, ?_⟩
      rw [ofKey_concat_own, List.getLast?_concat]
    · obtain ⟨front', old', back', split', length, isOwn', can', later',
        newest'⟩ := projects.stands own there lastIs
      have away : front.length ≠ front'.length := by
        intro equal
        have both := List.append_inj (split.symm.trans split') equal
        have olds : old = old' := (List.cons.inj both.2).1
        rw [← olds, isOwn] at isOwn'
        exact same isOwn'.symm
      obtain ⟨first, rest, set, kept, members⟩ := split_set away old' back'
        entry
      refine ⟨first, old', rest, ?_, kept.trans length, isOwn', can', ?_, ?_⟩
      · exact (congrArg (List.set · front.length entry) split').trans set
      · intro other member
        rcases members other member with old | rfl
        · exact later' other old
        · exact Ne.symm same
      · rw [ofKey_concat_other (Ne.symm same)]
        exact newest'
  · intro own lastIs
    have same : own ≠ key entry := by
      rintro rfl
      rw [last] at lastIs
      cases lastIs
    rw [ofKey_concat_other (Ne.symm same)]
    exact projects.parted own lastIs

theorem Projects.push (projects : Projects key joins entries state) :
    Projects key joins (entries ++ [entry])
      (push key joins state entry) := by
  unfold Collapse.push
  split
  · next can =>
      split
      · next place last => exact projects.replace can last
      · next last =>
          have appended := projects.append fun _ => last
          rwa [if_pos can] at appended
  · next cannot =>
      have appended := projects.append fun can : joins entry = true =>
        absurd can cannot
      rwa [if_neg cannot] at appended

end Push

theorem projects_run (entries : List α) :
    Projects key joins entries (run key joins entries) := by
  induction entries using List.reverseRecOn with
  | nil => exact .empty
  | append_singleton entries entry induction =>
      have step : run key joins (entries ++ [entry]) =
          push key joins (run key joins entries) entry := by
        simp [run]
      rw [step]
      exact induction.push

/-- Replacing the last entry of a run keeps how many there are of a key. -/
theorem ofKey_set_length (entries : List α) {entry : α} {place : Nat}
    (last : (run key joins entries).last (key entry) = some place) (own : κ) :
    (ofKey key own ((run key joins entries).out.set place entry)).length =
      (ofKey key own (run key joins entries).out).length := by
  obtain ⟨front, old, back, split, rfl, isOwn, -⟩ :=
    (projects_run entries).stands _ _ last
  rw [split, List.set_append_right _ _ (Nat.le_refl _), Nat.sub_self,
    List.set_cons_zero, ofKey_append, ofKey_append]
  by_cases same : key entry = own
  · rw [ofKey_cons_own same, ofKey_cons_own (isOwn.trans same)]
    simp
  · rw [ofKey_cons_other same, ofKey_cons_other (isOwn ▸ same)]

theorem ofKey_run (key : α → κ) (joins : α → Bool) (own : κ)
    (entries : List α) :
    ofKey key own (run key joins entries).out =
      lasts joins (ofKey key own entries) :=
  (projects_run entries).out own

end Collapse
