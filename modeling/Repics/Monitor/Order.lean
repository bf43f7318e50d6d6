import Mathlib.Data.Fin.Basic
import Mathlib.Data.List.FinRange
import Repics.Lib.Collapse
import Repics.Monitor.Dispatcher

/-!
# The order of a plan

A plan keeps the items of the registered subscriptions and collapses the
updates of those that do not want all of them, in the place of the first.  It
does not look at what an item brings, so an item may bring its place in the
batch instead, which tells it from every other.
-/

namespace Repics.Monitor

variable {Value : Type}

section Shape

def counted (subs : Subs) (item : Item Value) : Bool :=
  subs[item.sid]?.any Subscription.registered

/-- The item is an update that may be collapsed. -/
def joins (subs : Subs) (item : Item Value) : Bool :=
  decide (item.kind = .value) &&
    subs[item.sid]?.any fun sub => !sub.config.allUpdates

/-- The plan as a collapse of the items by subscription. -/
def Plan.shape (plan : Plan Value) : Collapse (Item Value) Nat :=
  ⟨plan.out, plan.lastValue⟩

/-- What a plan changes in the subscriptions does not matter to it. -/
def SameFor (subs later : Subs) : Prop :=
  ∀ item : Item Unit, counted later item = counted subs item ∧
    joins later item = joins subs item

theorem SameFor.item {subs later : Subs} (same : SameFor subs later)
    (item : Item Value) : counted later item = counted subs item ∧
      joins later item = joins subs item :=
  same ⟨item.sid, item.kind, ⟨none, item.own.hook, item.own.callback, false⟩⟩

theorem Plan.push_same (plan : Plan Value) (item : Item Value) :
    SameFor plan.subs (plan.push item).subs := by
  have refl : SameFor plan.subs plan.subs := fun _ => ⟨rfl, rfl⟩
  unfold Plan.push
  split
  · exact refl
  · next sub found =>
      split
      · split
        · split
          · intro other
            by_cases same : item.sid = other.sid
            · have bound := (List.getElem?_eq_some_iff.mp found).1
              simp only [counted, joins, ← same, found,
                List.getElem?_set_self bound, Option.any_some, and_self]
            · simp [counted, joins, List.getElem?_set_ne same]
          · exact refl
        · exact refl
      · exact refl

theorem Plan.push_shape (plan : Plan Value) (item : Item Value) :
    (plan.push item).shape =
      if counted plan.subs item then
        Collapse.push Item.sid (joins plan.subs) plan.shape item
      else plan.shape := by
  unfold Plan.push Collapse.push
  cases found : plan.subs[item.sid]? with
  | none => simp [counted, found]
  | some sub =>
      by_cases registered : sub.registered = true
      · by_cases update : item.kind = .value ∧ ¬sub.config.allUpdates
        · cases last : plan.lastValue item.sid <;>
            simp [counted, joins, Plan.shape, found, registered, update, last]
        · have apart : joins plan.subs item = false := by
            simpa [joins, found] using update
          have counts : counted plan.subs item = true := by
            simp [counted, found, registered]
          simp only [registered, counts, apart, if_true, if_neg update,
            Bool.false_eq_true, if_false, Plan.shape]
      · simp [counted, found, registered]

theorem plan_same (subs : Subs) (batch : List (Item Value)) :
    SameFor subs (plan subs batch).subs := by
  induction batch using List.reverseRecOn with
  | nil => exact fun _ => ⟨rfl, rfl⟩
  | append_singleton batch item induction =>
      simp only [plan, List.foldl_append, List.foldl_cons, List.foldl_nil]
        at induction ⊢
      intro other
      have pushed := Plan.push_same (batch.foldl Plan.push
        ⟨[], fun _ => none, subs⟩) item other
      have before := induction other
      exact ⟨pushed.1.trans before.1, pushed.2.trans before.2⟩

/-- A plan is the collapse of the items of registered subscriptions. -/
theorem plan_shape (subs : Subs) (batch : List (Item Value)) :
    (plan subs batch).shape = Collapse.run Item.sid (joins subs)
      (batch.filter (counted subs)) := by
  induction batch using List.reverseRecOn with
  | nil => rfl
  | append_singleton batch item induction =>
      have step : plan subs (batch ++ [item]) =
          (plan subs batch).push item := by
        simp [plan]
      have same := fun item : Item Value => (plan_same subs batch).item item
      have joinsSame : joins (plan subs batch).subs = joins subs :=
        funext fun item : Item Value => (same item).2
      rw [step, Plan.push_shape, (same item).1, joinsSame, induction,
        List.filter_append]
      cases counts : counted subs item <;>
        simp [counts, Collapse.run]

end Shape

section Arrival

variable (subs : Subs) (batch : List (Item Value))

/-- The item with its place in the batch for what it brings. -/
def stamped (place : Fin batch.length) : Item Nat :=
  let item := batch[place]
  ⟨item.sid, item.kind,
    ⟨some place, item.own.hook, item.own.callback, item.own.pushRaises⟩⟩

def stamp : List (Item Nat) :=
  (List.finRange batch.length).map (stamped batch)

/-- The places of the items of registered subscriptions. -/
def places : List (Fin batch.length) :=
  (List.finRange batch.length).filter fun place => counted subs batch[place]

/-- The places of what a plan returns. -/
def kept : List (Fin batch.length) :=
  (Collapse.run (fun place => batch[place].sid)
    (fun place => joins subs batch[place]) (places subs batch)).out

theorem plan_stamp_out :
    (plan subs (stamp batch)).out =
      (kept subs batch).map (stamped batch) := by
  have shape := plan_shape subs (stamp batch)
  rw [stamp, List.filter_map, Collapse.run_map] at shape
  exact congrArg Collapse.out shape

theorem plan_out (batch : List (Item Value)) :
    (plan subs batch).out =
      (kept subs batch).map fun place => batch[place] := by
  have shape := plan_shape subs batch
  have whole : batch.filter (counted subs) =
      (places subs batch).map fun place => batch[place] := by
    have all := List.map_getElem_finRange batch
    conv_lhs => rw [← all, List.filter_map]
    rfl
  rw [whole, Collapse.run_map] at shape
  exact congrArg Collapse.out shape

theorem stamped_injective : Function.Injective (stamped batch) := by
  intro first second same
  have places := congrArg (fun item => item.own.conversion) same
  exact Fin.ext (Option.some.inj places)

/-- No update that is collapsed away and the one it is collapsed into lie
around all of what another is collapsed with. -/
def Unnested : Prop :=
  ¬Collapse.Nested (fun place => batch[place].sid)
    (fun place => joins subs batch[place]) (places subs batch)

/-- What a plan returns is in the order of arrival exactly when no run of
updates that is collapsed lies around another run. -/
theorem plan_sublist_iff :
    (plan subs (stamp batch)).out.Sublist (stamp batch) ↔
      Unnested subs batch := by
  have sorted : (places subs batch).Pairwise (· < ·) :=
    (List.pairwise_lt_finRange batch.length).sublist List.filter_sublist
  rw [plan_stamp_out, Unnested, ← Collapse.run_sublist_iff sorted]
  constructor
  · intro sublist
    obtain ⟨shown, inOrder, same⟩ := List.sublist_map_iff.mp sublist
    have injective := List.map_injective_iff.mpr (stamped_injective batch)
    obtain rfl : kept subs batch = shown := injective same
    have inPlaces (place : Fin batch.length) (is : place ∈ kept subs batch) :
        counted subs batch[place] = true := by
      have arrived := ((Collapse.kept_all _ _ sorted).latest place is).1
      exact (List.mem_filter.mp arrived).2
    have filtered := inOrder.filter fun place => counted subs batch[place]
    rwa [List.filter_eq_self.mpr inPlaces] at filtered
  · intro sublist
    exact (sublist.trans List.filter_sublist).map _

end Arrival

/-- Two subscriptions that do not want every update. -/
def pair : Subs :=
  [⟨⟨false, false, false⟩, true, .opened, 0⟩,
    ⟨⟨false, false, false⟩, true, .opened, 0⟩]

def update (sid : Nat) : Item Unit :=
  ⟨sid, .value, ⟨some (), ⟨[], false⟩, ⟨[], false⟩, false⟩⟩

/-- An update of the second arrives between two of the first. -/
theorem plan_overtakes :
    ¬(plan pair (stamp [update 0, update 1, update 0])).out.Sublist
      (stamp [update 0, update 1, update 0]) := by
  intro sublist
  have places := sublist.map fun item => item.own.conversion
  exact absurd places (by decide)

end Repics.Monitor
