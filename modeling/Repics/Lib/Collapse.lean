import Mathlib.Data.List.Induction
import Mathlib.Data.List.Sort
import Mathlib.Logic.Function.Basic
import Mathlib.Order.Basic

/-!
# Collapsing runs in place

Entries arrive with a key.  An entry that joins takes the place of the one
before it of its key when that one joins too; any other entry is put at the
end.  What is kept of a run stands where the run began, and is what came last.
So the order of arrival is kept unless one run lies wholly inside another.
-/

universe u v w

/-- What is kept so far, and where the last entry of a key stands if it may be
replaced. -/
structure Collapse (α : Type u) (κ : Type v) where
  out : List α
  last : κ → Option Nat

namespace Collapse

variable {α : Type u} {β : Type w} {κ : Type v}

section Run

variable [DecidableEq κ] (key : α → κ) (joins : α → Bool)

def empty : Collapse α κ :=
  ⟨[], fun _ => none⟩

def push (state : Collapse α κ) (entry : α) : Collapse α κ :=
  if joins entry then
    match state.last (key entry) with
    | some place => { state with out := state.out.set place entry }
    | none => ⟨state.out ++ [entry],
        Function.update state.last (key entry) (some state.out.length)⟩
  else ⟨state.out ++ [entry], Function.update state.last (key entry) none⟩

def run (entries : List α) : Collapse α κ :=
  entries.foldl (push key joins) empty

/-- What an entry looks like apart from its key does not matter. -/
theorem run_map (look : β → α) (entries : List β) :
    run key joins (entries.map look) =
      ⟨(run (key ∘ look) (joins ∘ look) entries).out.map look,
        (run (key ∘ look) (joins ∘ look) entries).last⟩ := by
  induction entries using List.reverseRecOn with
  | nil => rfl
  | append_singleton entries entry induction =>
      simp only [run, List.map_append, List.map_cons, List.map_nil,
        List.foldl_append, List.foldl_cons, List.foldl_nil] at induction ⊢
      rw [induction]
      simp only [push, Function.comp]
      split
      · split <;> simp [*]
      · simp

end Run

section Order

variable [LinearOrder α] (key : α → κ) (joins : α → Bool)
variable (entries : List α)

/-- The early entry was collapsed into the late one, at once or in turn. -/
structure Joined (early late : α) : Prop where
  less : early < late
  arrived : early ∈ entries
  same : key early = key late
  first : joins early = true
  last : joins late = true
  between : ∀ other ∈ entries, early < other → other < late →
    key other = key early → joins other = true

/-- An entry lies inside a run with all that is collapsed with it. -/
def Nested : Prop :=
  ∃ early late inner, Joined key joins entries early late ∧
    late ∈ entries ∧ inner ∈ entries ∧ early < inner ∧ inner < late ∧
    (∀ other, Joined key joins entries other inner → early < other) ∧
    ∀ other ∈ entries, Joined key joins entries inner other → other < late

/-- The run of the first entry begins before all of the run of the second. -/
def Begins (first second : α) : Prop :=
  ∃ start ∈ entries, (start = first ∨ Joined key joins entries start first) ∧
    ∀ other ∈ entries,
      (other = second ∨ Joined key joins entries other second) →
        start < other

end Order

variable [LinearOrder α] {key : α → κ} {joins : α → Bool}
variable {entries : List α}

theorem Joined.trans {first second third : α}
    (left : Joined key joins entries first second)
    (right : Joined key joins entries second third) :
    Joined key joins entries first third where
  less := lt_trans left.less right.less
  arrived := left.arrived
  same := left.same.trans right.same
  first := left.first
  last := right.last
  between other arrived after before same := by
    rcases lt_trichotomy other second with less | equal | more
    · exact left.between other arrived after less same
    · exact equal ▸ left.last
    · exact right.between other arrived more before (same.trans left.same)

/-- What is collapsed into an entry was collapsed into those between. -/
theorem Joined.split {first second third : α}
    (joined : Joined key joins entries first third)
    (arrived : second ∈ entries) (after : first < second)
    (before : second < third) (same : key second = key first) :
    Joined key joins entries first second where
  less := after
  arrived := joined.arrived
  same := same.symm
  first := joined.first
  last := joined.between second arrived after before same
  between other arrived after less same :=
    joined.between other arrived after (lt_trans less before) same

theorem Begins.irrefl {entry : α} :
    ¬Begins key joins entries entry entry := by
  intro begins
  obtain ⟨start, arrived, own, first⟩ := begins
  exact lt_irrefl start (first start arrived own)

/-- What holds of the state when some of the entries have arrived. -/
structure Kept (key : α → κ) (joins : α → Bool) (entries arrived : List α)
    (state : Collapse α κ) : Prop where
  begins : state.out.Pairwise (Begins key joins entries)
  shown : ∀ entry ∈ arrived, ∃ kept ∈ state.out,
    kept = entry ∨ Joined key joins entries entry kept
  latest : ∀ kept ∈ state.out, kept ∈ arrived ∧
    ∀ other ∈ arrived, ¬Joined key joins entries kept other
  stands : ∀ own place, state.last own = some place →
    ∃ kept, state.out[place]? = some kept ∧ key kept = own ∧
      joins kept = true ∧ ∀ other ∈ arrived, kept < other → key other ≠ own
  parted : ∀ own, state.last own = none → ∀ entry ∈ arrived,
    key entry = own → ∃ other ∈ arrived, entry ≤ other ∧ key other = own ∧
      joins other = false

theorem Kept.empty : Kept key joins entries [] (Collapse.empty) where
  begins := .nil
  shown := by simp
  latest := by simp [Collapse.empty]
  stands := by simp [Collapse.empty]
  parted := by simp

/-- The next entry comes after those that have arrived, and is next. -/
structure Next (entries arrived : List α) (entry : α) : Prop where
  self : entry ∈ entries
  before : ∀ other ∈ arrived, other ∈ entries ∧ other < entry
  only : ∀ other ∈ entries, other < entry → other ∈ arrived

variable {arrived : List α} {entry : α} {state : Collapse α κ}

theorem Kept.not_joined (kept : Kept key joins entries arrived state)
    (next : Next entries arrived entry)
    (parted : state.last (key entry) = none) (other : α) :
    ¬Joined key joins entries other entry := by
  intro joined
  have old := next.only other joined.arrived joined.less
  obtain ⟨middle, arrived, after, same, alone⟩ :=
    kept.parted _ parted other old joined.same
  have joinsToo : joins middle = true := by
    rcases eq_or_lt_of_le after with equal | less
    · exact equal ▸ joined.first
    · have is := next.before middle arrived
      exact joined.between middle is.1 less is.2
        (same.trans joined.same.symm)
  rw [joinsToo] at alone
  cases alone

theorem Kept.append [DecidableEq κ]
    (kept : Kept key joins entries arrived state)
    (next : Next entries arrived entry)
    (alone : ∀ other, ¬Joined key joins entries other entry) :
    Kept key joins entries (arrived ++ [entry])
      ⟨state.out ++ [entry], Function.update state.last (key entry)
        (if joins entry then some state.out.length else none)⟩ where
  begins := by
    apply List.pairwise_append.mpr
    refine ⟨kept.begins, List.pairwise_singleton _ _, ?_⟩
    intro first shown second isNew
    obtain rfl := List.mem_singleton.mp isNew
    obtain ⟨arrived, less⟩ := next.before first (kept.latest first shown).1
    refine ⟨first, arrived, .inl rfl, ?_⟩
    intro other _ inRun
    rcases inRun with rfl | joined
    · exact less
    · exact absurd joined (alone other)
  shown := by
    intro old member
    rcases List.mem_append.mp member with arrived | isNew
    · obtain ⟨own, shown, inRun⟩ := kept.shown old arrived
      exact ⟨own, List.mem_append_left _ shown, inRun⟩
    · exact ⟨old, List.mem_append_right _ isNew, .inl rfl⟩
  latest := by
    intro own member
    have ends (other : α) (joined : Joined key joins entries own other)
        (is : other ∈ arrived ++ [entry]) : other ∈ arrived := by
      rcases List.mem_append.mp is with old | isNew
      · exact old
      · rw [List.mem_singleton.mp isNew] at joined
        exact absurd joined (alone own)
    rcases List.mem_append.mp member with shown | isNew
    · obtain ⟨arrived, last⟩ := kept.latest own shown
      refine ⟨List.mem_append_left _ arrived, fun other is joined => ?_⟩
      exact last other (ends other joined is) joined
    · refine ⟨List.mem_append_right _ isNew, fun other is joined => ?_⟩
      have less := (next.before other (ends other joined is)).2
      rw [← List.mem_singleton.mp isNew] at less
      exact lt_asymm joined.less less
  stands := by
    intro own place isLast
    dsimp only at isLast ⊢
    by_cases isOwn : own = key entry
    · subst isOwn
      rw [Function.update_self, Option.ite_none_right_eq_some,
        Option.some.injEq] at isLast
      obtain ⟨can, rfl⟩ := isLast
      refine ⟨entry, List.getElem?_concat_length, rfl, can, ?_⟩
      intro later member less
      rcases List.mem_append.mp member with arrived | isNew
      · exact absurd less (lt_asymm (next.before later arrived).2)
      · rw [List.mem_singleton.mp isNew] at less
        exact absurd less (lt_irrefl entry)
    · rw [Function.update_of_ne isOwn] at isLast
      obtain ⟨found, isThere, same, can, last⟩ := kept.stands own place isLast
      have bound := (List.getElem?_eq_some_iff.mp isThere).1
      refine ⟨found, ?_, same, can, ?_⟩
      · rw [List.getElem?_append_left bound]
        exact isThere
      · intro later member less
        rcases List.mem_append.mp member with arrived | isNew
        · exact last later arrived less
        · rw [List.mem_singleton.mp isNew]
          exact Ne.symm isOwn
  parted := by
    intro own isLast old member same
    dsimp only at isLast
    by_cases isOwn : own = key entry
    · subst isOwn
      rw [Function.update_self] at isLast
      have cannot : joins entry = false := by simpa using isLast
      refine ⟨entry, List.mem_append_right _ (List.mem_singleton_self _), ?_,
        rfl, cannot⟩
      rcases List.mem_append.mp member with arrived | isNew
      · exact le_of_lt (next.before old arrived).2
      · exact le_of_eq (List.mem_singleton.mp isNew)
    · rw [Function.update_of_ne isOwn] at isLast
      rcases List.mem_append.mp member with arrived | isNew
      · obtain ⟨middle, is, rest⟩ := kept.parted own isLast old arrived same
        exact ⟨middle, List.mem_append_left _ is, rest⟩
      · rw [List.mem_singleton.mp isNew] at same
        exact absurd same.symm isOwn

/-- All that is collapsed into an entry is the old one and what is collapsed
into that. -/
structure Replaces (key : α → κ) (joins : α → Bool) (entries : List α)
    (old entry : α) : Prop where
  joined : Joined key joins entries old entry
  only : ∀ other, Joined key joins entries other entry →
    other = old ∨ Joined key joins entries other old

theorem Replaces.first {old other : α}
    (replaces : Replaces key joins entries old entry)
    (begins : Begins key joins entries old other) :
    Begins key joins entries entry other := by
  obtain ⟨start, arrived, inRun, before⟩ := begins
  refine ⟨start, arrived, .inr ?_, before⟩
  rcases inRun with rfl | inRun
  · exact replaces.joined
  · exact inRun.trans replaces.joined

theorem Replaces.second {old other : α}
    (replaces : Replaces key joins entries old entry)
    (begins : Begins key joins entries other old) :
    Begins key joins entries other entry := by
  obtain ⟨start, arrived, inRun, before⟩ := begins
  have joined := replaces.joined
  refine ⟨start, arrived, inRun, fun later member into => ?_⟩
  rcases into with rfl | into
  · exact lt_trans (before old joined.arrived (.inl rfl)) joined.less
  · exact before later member (replaces.only later into)

theorem Kept.replaces (kept : Kept key joins entries arrived state)
    (next : Next entries arrived entry) (can : joins entry = true)
    {place : Nat} (isLast : state.last (key entry) = some place) :
    ∃ old, state.out[place]? = some old ∧
      Replaces key joins entries old entry := by
  obtain ⟨old, isThere, same, first, last⟩ := kept.stands _ _ isLast
  have shown := List.mem_of_getElem? isThere
  obtain ⟨arrived, less⟩ := next.before old (kept.latest old shown).1
  have later (other : α) (member : other ∈ entries) (before : other < entry)
      (after : old < other) : key other ≠ key entry :=
    last other (next.only other member before) after
  refine ⟨old, isThere, ⟨less, arrived, same, first, can, ?_⟩, ?_⟩
  · intro other member after before isSame
    exact absurd (isSame.trans same) (later other member before after)
  · intro other into
    rcases lt_trichotomy other old with earlier | equal | more
    · exact .inr (into.split arrived earlier less
        (same.trans into.same.symm))
    · exact .inl equal
    · exact absurd into.same (later other into.arrived into.less more)

theorem Kept.replace (kept : Kept key joins entries arrived state)
    (next : Next entries arrived entry) (can : joins entry = true)
    {place : Nat} (isLast : state.last (key entry) = some place) :
    Kept key joins entries (arrived ++ [entry])
      { state with out := state.out.set place entry } := by
  obtain ⟨old, isThere, replaces⟩ := kept.replaces next can isLast
  obtain ⟨front, back, split, length⟩ : ∃ front back,
      state.out = front ++ old :: back ∧ front.length = place := by
    obtain ⟨bound, isOld⟩ := List.getElem?_eq_some_iff.mp isThere
    refine ⟨state.out.take place, state.out.drop (place + 1), ?_,
      List.length_take_of_le (Nat.le_of_lt bound)⟩
    rw [← isOld, List.getElem_cons_drop, List.take_append_drop]
  have changed : state.out.set place entry = front ++ entry :: back := by
    rw [split, List.set_append_right _ _ (Nat.le_of_eq length), length,
      Nat.sub_self, List.set_cons_zero]
  have order := kept.begins
  rw [split, List.pairwise_append, List.pairwise_cons] at order
  obtain ⟨inFront, ⟨toBack, inBack⟩, across⟩ := order
  have mem_iff (own : α) : own ∈ front ++ entry :: back ↔
      own = entry ∨ own ∈ state.out ∧ own ≠ old := by
    have notFront : old ∉ front := fun is =>
      (across old is old List.mem_cons_self).irrefl
    have notBack : old ∉ back := fun is => (toBack old is).irrefl
    simp only [split, List.mem_append, List.mem_cons]
    constructor
    · rintro (is | rfl | is)
      · exact .inr ⟨.inl is, fun same => notFront (same ▸ is)⟩
      · exact .inl rfl
      · exact .inr ⟨.inr (.inr is), fun same => notBack (same ▸ is)⟩
    · rintro (rfl | ⟨is | same | is, other⟩)
      · exact .inr (.inl rfl)
      · exact .inl is
      · exact absurd same other
      · exact .inr (.inr is)
  have shown := List.mem_of_getElem? isThere
  constructor
  · rw [changed, List.pairwise_append, List.pairwise_cons]
    refine ⟨inFront, ⟨fun other is => ?_, inBack⟩, fun first is other => ?_⟩
    · exact replaces.first (toBack other is)
    · intro isAfter
      rcases List.mem_cons.mp isAfter with rfl | isAfter
      · exact replaces.second (across first is old List.mem_cons_self)
      · exact across first is other (List.mem_cons_of_mem _ isAfter)
  · rw [changed]
    intro own member
    rcases List.mem_append.mp member with arrived | isNew
    · obtain ⟨last, isShown, inRun⟩ := kept.shown own arrived
      by_cases same : last = old
      · subst same
        refine ⟨entry, (mem_iff entry).mpr (.inl rfl), .inr ?_⟩
        rcases inRun with rfl | inRun
        · exact replaces.joined
        · exact inRun.trans replaces.joined
      · exact ⟨last, (mem_iff last).mpr (.inr ⟨isShown, same⟩), inRun⟩
    · obtain rfl := List.mem_singleton.mp isNew
      exact ⟨own, (mem_iff own).mpr (.inl rfl), .inl rfl⟩
  · rw [changed]
    intro own member
    rcases (mem_iff own).mp member with rfl | ⟨isShown, other⟩
    · refine ⟨List.mem_append_right _ (List.mem_singleton_self _), ?_⟩
      intro later is joined
      rcases List.mem_append.mp is with before | isNew
      · exact lt_asymm joined.less (next.before later before).2
      · exact joined.less.ne (List.mem_singleton.mp isNew).symm
    · obtain ⟨arrived, last⟩ := kept.latest own isShown
      refine ⟨List.mem_append_left _ arrived, ?_⟩
      intro later is joined
      rcases List.mem_append.mp is with before | isNew
      · exact last later before joined
      · rw [List.mem_singleton.mp isNew] at joined
        rcases replaces.only own joined with same | into
        · exact other same
        · exact last old (kept.latest old shown).1 into
  · intro own there lastIs
    obtain ⟨found, isAt, same, first, last⟩ := kept.stands own there lastIs
    by_cases here : there = place
    · subst here
      obtain rfl := Option.some.inj (isThere.symm.trans isAt)
      refine ⟨entry, ?_, replaces.joined.same.symm.trans same, can, ?_⟩
      · exact List.getElem?_set_self (List.getElem?_eq_some_iff.mp isAt).1
      · intro other member less
        rcases List.mem_append.mp member with before | isNew
        · exact absurd less (lt_asymm (next.before other before).2)
        · exact absurd (List.mem_singleton.mp isNew).symm less.ne
    · refine ⟨found, ?_, same, first, fun other member less => ?_⟩
      · rw [List.getElem?_set_ne (Ne.symm here)]
        exact isAt
      · rcases List.mem_append.mp member with before | isNew
        · exact last other before less
        · intro own
          rw [List.mem_singleton.mp isNew] at own
          rw [← own, isLast] at lastIs
          exact here (Option.some.inj lastIs).symm
  · intro own lastIs other member same
    rcases List.mem_append.mp member with before | isNew
    · obtain ⟨middle, is, rest⟩ := kept.parted own lastIs other before same
      exact ⟨middle, List.mem_append_left _ is, rest⟩
    · rw [← same, List.mem_singleton.mp isNew, isLast] at lastIs
      cases lastIs

theorem Nested.of_begins {first second : α}
    (begins : Begins key joins entries first second) (less : second < first)
    (arrived : first ∈ entries ∧ second ∈ entries)
    (latest : ∀ other ∈ entries, ¬Joined key joins entries second other) :
    Nested key joins entries := by
  obtain ⟨start, _, inRun, before⟩ := begins
  have startLess := before second arrived.2 (.inl rfl)
  rcases inRun with rfl | joined
  · exact absurd less (lt_asymm startLess)
  · refine ⟨start, first, second, joined, arrived.1, arrived.2, startLess,
      less, ?_, ?_⟩
    · intro other into
      exact before other into.arrived (.inr into)
    · intro other is into
      exact absurd into (latest other is)

/-- Runs that are kept in the order in which they began, and of which the
last entries are in order, are not nested. -/
theorem Joined.not_inside {early late inner outer last : α}
    (joined : Joined key joins entries early late)
    (innerIs : inner ∈ entries) (after : early < inner)
    (from_ : ∀ other, Joined key joins entries other inner → early < other)
    (outerRun : outer = late ∨ Joined key joins entries late outer)
    (innerRun : last = inner ∨ Joined key joins entries inner last) :
    ¬Begins key joins entries last outer := by
  intro begins
  obtain ⟨start, _, inRun, before⟩ := begins
  have outerJoined : Joined key joins entries early outer := by
    rcases outerRun with rfl | more
    · exact joined
    · exact joined.trans more
  have less := before early joined.arrived (.inr outerJoined)
  have startLess : start < inner := lt_trans less after
  have startRun : Joined key joins entries start inner := by
    rcases inRun with rfl | inRun
    · rcases innerRun with rfl | more
      · exact absurd startLess (lt_irrefl start)
      · exact absurd startLess (lt_asymm more.less)
    · rcases innerRun with rfl | more
      · exact inRun
      · exact inRun.split innerIs startLess more.less
          (more.same.trans inRun.same.symm)
  exact lt_asymm less (from_ start startRun)

variable [DecidableEq κ]

theorem Kept.push (kept : Kept key joins entries arrived state)
    (next : Next entries arrived entry) :
    Kept key joins entries (arrived ++ [entry])
      (push key joins state entry) := by
  unfold Collapse.push
  split
  · next can =>
      split
      · next place isLast => exact kept.replace next can isLast
      · next isLast =>
          have appended := kept.append next (kept.not_joined next isLast)
          rwa [if_pos can] at appended
  · next cannot =>
      have appended := kept.append next fun other joined =>
        cannot joined.last
      rwa [if_neg cannot] at appended

theorem kept_run {early later : List α}
    (sorted : (early ++ later).Pairwise (· < ·)) :
    Kept key joins (early ++ later) early (run key joins early) := by
  induction early using List.reverseRecOn generalizing later with
  | nil => exact .empty
  | append_singleton early entry induction =>
      have whole : early ++ [entry] ++ later = early ++ entry :: later :=
        (List.append_cons _ _ _).symm
      rw [whole] at sorted ⊢
      have step : run key joins (early ++ [entry]) =
          push key joins (run key joins early) entry := by
        simp [run]
      rw [step]
      apply (induction sorted).push
      obtain ⟨_, last, across⟩ := List.pairwise_append.mp sorted
      refine ⟨by simp, fun other is => ⟨by simp [is], ?_⟩, ?_⟩
      · exact across other is entry List.mem_cons_self
      · intro other is less
        rcases List.mem_append.mp is with before | after
        · exact before
        · rcases List.mem_cons.mp after with rfl | after
          · exact absurd less (lt_irrefl other)
          · have more := (List.pairwise_cons.mp last).1 other after
            exact absurd less (lt_asymm more)

theorem kept_all (key : α → κ) (joins : α → Bool)
    (sorted : entries.Pairwise (· < ·)) :
    Kept key joins entries entries (run key joins entries) := by
  have whole := List.append_nil entries
  rw [← whole] at sorted
  have all : Kept key joins (entries ++ []) entries
      (run key joins entries) := kept_run sorted
  rwa [whole] at all

/-- The order of arrival is kept exactly when no run lies inside another. -/
theorem run_sublist_iff (sorted : entries.Pairwise (· < ·)) :
    (run key joins entries).out.Sublist entries ↔
      ¬Nested key joins entries := by
  have kept := kept_all key joins sorted
  constructor
  · intro sublist nested
    have inOrder := sorted.sublist sublist
    obtain ⟨early, late, inner, joined, lateIs, innerIs, after, before,
      from_, upTo⟩ := nested
    obtain ⟨outer, outerShown, outerRun⟩ := kept.shown late lateIs
    obtain ⟨last, lastShown, innerRun⟩ := kept.shown inner innerIs
    have less : last < outer := by
      have inside : last < late := by
        rcases innerRun with rfl | more
        · exact before
        · exact upTo last (kept.latest last lastShown).1 more
      rcases outerRun with rfl | more
      · exact inside
      · exact lt_trans inside more.less
    apply joined.not_inside innerIs after from_ outerRun innerRun
    obtain ⟨left, leftBound, rfl⟩ := List.mem_iff_getElem.mp lastShown
    obtain ⟨right, rightBound, rfl⟩ := List.mem_iff_getElem.mp outerShown
    rcases Nat.lt_trichotomy left right with earlier | equal | later
    · exact List.pairwise_iff_getElem.mp kept.begins _ _ leftBound rightBound
        earlier
    · subst equal
      exact absurd less (lt_irrefl _)
    · have more := List.pairwise_iff_getElem.mp inOrder _ _ rightBound
        leftBound later
      exact absurd less (lt_asymm more)
  · intro alone
    have inOrder : (run key joins entries).out.Pairwise (· < ·) := by
      apply kept.begins.imp_of_mem
      intro first second firstShown secondShown begins
      obtain ⟨firstIs, _⟩ := kept.latest first firstShown
      obtain ⟨secondIs, latest⟩ := kept.latest second secondShown
      rcases lt_trichotomy first second with less | equal | more
      · exact less
      · exact absurd (equal ▸ begins) Begins.irrefl
      · exact absurd (.of_begins begins more ⟨firstIs, secondIs⟩ latest)
          alone
    have subperm := List.subperm_of_subset
      (inOrder.imp fun less => less.ne) fun own shown =>
        (kept.latest own shown).1
    exact List.sublist_of_subperm_of_pairwise subperm inOrder sorted

end Collapse
