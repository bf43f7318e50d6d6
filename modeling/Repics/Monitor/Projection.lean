import Repics.Lib.Collapse.Projection
import Repics.Monitor.Order

/-!
# What a subscription gets of a batch

A subscription that wants every update gets all of its items.  Any other gets
the last update of each run of updates and every other item, and the updates
that it does not get are counted.  What arrives for others, in the same batch
or in between, makes no difference.
-/

namespace Repics.Monitor

variable {Value : Type}

/-- The items of one subscription. -/
abbrev ownItems (sid : Nat) (items : List (Item Value)) : List (Item Value) :=
  Collapse.ofKey Item.sid sid items

def isUpdate (item : Item Value) : Bool :=
  decide (item.kind = .value)

/-- What a subscription is to get of its items of one batch. -/
def handed (config : Config) (items : List (Item Value)) :
    List (Item Value) :=
  if config.allUpdates then items else Collapse.lasts isUpdate items

/-- Some updates are counted as dropped. -/
def Subscription.drop (sub : Subscription) (count : Nat) : Subscription :=
  { sub with dropped := sub.dropped + count }

/-- The batches are planned one after the other. -/
def planAll (subs : Subs) : List (List (Item Value)) →
    List (Item Value) × Subs
  | [] => ([], subs)
  | batch :: rest =>
      let planned := plan subs batch
      let later := planAll planned.subs rest
      (planned.out ++ later.1, later.2)

/-- A plan gives each subscription that is registered what it is to get and
counts what it does not, and has nothing of any other. -/
structure PlanExact (subs : Subs) (batch : List (Item Value))
    (planned : Plan Value) : Prop where
  own : ∀ sid sub, subs[sid]? = some sub → sub.registered = true →
    ownItems sid planned.out = handed sub.config (ownItems sid batch)
  dropped : ∀ sid sub, subs[sid]? = some sub → sub.registered = true →
    ∃ removed, planned.subs[sid]? = some (sub.drop removed) ∧
      (ownItems sid planned.out).length + removed =
        (ownItems sid batch).length
  unknown : ∀ sid, (∀ sub, subs[sid]? = some sub → sub.registered = false) →
    ownItems sid planned.out = [] ∧ planned.subs[sid]? = subs[sid]?

/-- What a subscription is handed of a stream: all of it but the updates that
are counted, in order, with each item that no update follows in its batch. -/
structure HandedOn (sid : Nat) (sub : Subscription)
    (batches : List (List (Item Value)))
    (delivered : List (Item Value)) (later : Option Subscription) :
    Prop where
  dropped : ∃ removed, later = some (sub.drop removed) ∧
    delivered.length + removed = (ownItems sid batches.flatten).length
  subsequence : delivered.Sublist (ownItems sid batches.flatten)
  last : ∀ early batch late before item after,
    batches = early ++ batch :: late →
    ownItems sid batch = before ++ item :: after →
    (isUpdate item && after.head?.any isUpdate) = false →
    ∃ front back, delivered = front ++ item :: back ∧
      front.Sublist (ownItems sid early.flatten ++ before) ∧
      back.Sublist (after ++ ownItems sid late.flatten)

def StreamExact (subs : Subs) (batches : List (List (Item Value))) : Prop :=
  ∀ sid sub, subs[sid]? = some sub → sub.registered = true →
    HandedOn sid sub batches (ownItems sid (planAll subs batches).1)
      (planAll subs batches).2[sid]?

theorem ownItems_counted {subs : Subs} {sid : Nat} {sub : Subscription}
    (found : subs[sid]? = some sub) (registered : sub.registered = true)
    (batch : List (Item Value)) :
    ownItems sid (batch.filter (counted subs)) = ownItems sid batch := by
  rw [ownItems, Collapse.ofKey, List.filter_filter]
  apply List.filter_congr
  intro item _
  by_cases same : item.sid = sid
  · simp [counted, same, found, registered]
  · simp [same]

theorem joins_own {subs : Subs} {sid : Nat} {sub : Subscription}
    (found : subs[sid]? = some sub) {item : Item Value}
    (own : item.sid = sid) :
    joins subs item = (isUpdate item && !sub.config.allUpdates) := by
  simp [joins, isUpdate, own, found]

theorem plan_own {subs : Subs} {sid : Nat} {sub : Subscription}
    (found : subs[sid]? = some sub) (registered : sub.registered = true)
    (batch : List (Item Value)) :
    ownItems sid (plan subs batch).out =
      handed sub.config (ownItems sid batch) := by
  have shape : (plan subs batch).out = _ :=
    congrArg Collapse.out (plan_shape subs batch)
  have items : Collapse.ofKey Item.sid sid (batch.filter (counted subs)) =
      ownItems sid batch := ownItems_counted found registered batch
  rw [shape, ownItems, Collapse.ofKey_run, items, handed]
  have own (item : Item Value) (member : item ∈ ownItems sid batch) :
      joins subs item = (isUpdate item && !sub.config.allUpdates) :=
    joins_own found (Collapse.mem_ofKey_iff.mp member).2
  split
  · next every =>
      apply Collapse.lasts_eq_self
      intro item member
      rw [own item member, every, Bool.not_true, Bool.and_false]
  · next some =>
      apply Collapse.lasts_congr
      intro item member
      rw [own item member, Bool.eq_false_iff.mpr some, Bool.not_false,
        Bool.and_true]

/-- An item is not counted, takes the place of an update, or is put at the
end. -/
theorem Plan.push_cases (plan : Plan Value) (item : Item Value) :
    (counted plan.subs item = false ∧ plan.push item = plan) ∨
    (counted plan.subs item = true ∧
      ((∃ sub place, plan.subs[item.sid]? = some sub ∧
          plan.lastValue item.sid = some place ∧
          (plan.push item).out = plan.out.set place item ∧
          (plan.push item).subs = plan.subs.set item.sid (sub.drop 1)) ∨
        ((plan.push item).out = plan.out ++ [item] ∧
          (plan.push item).subs = plan.subs))) := by
  unfold Plan.push
  cases found : plan.subs[item.sid]? with
  | none => exact .inl ⟨by simp [counted, found], rfl⟩
  | some sub =>
      cases registered : sub.registered with
      | false =>
          refine .inl ⟨by simp [counted, found, registered], ?_⟩
          simp only [registered, Bool.false_eq_true, if_false]
      | true =>
          refine .inr ⟨by simp [counted, found, registered], ?_⟩
          by_cases update : item.kind = .value ∧ ¬sub.config.allUpdates
          · simp only [registered, if_true, if_pos update]
            cases plan.lastValue item.sid with
            | some place =>
                refine .inl ⟨sub, place, rfl, rfl, rfl, ?_⟩
                simp only [Subscription.drop, registered]
            | none => exact .inr ⟨rfl, rfl⟩
          · right
            simp only [registered, if_true, if_neg update, and_self]

@[simp] theorem Plan.shape_last (plan : Plan Value) :
    plan.shape.last = plan.lastValue := rfl

theorem plan_snoc (subs : Subs) (batch : List (Item Value))
    (item : Item Value) :
    plan subs (batch ++ [item]) = (plan subs batch).push item := by
  simp [plan]

theorem plan_dropped {subs : Subs} {sid : Nat} {sub : Subscription}
    (found : subs[sid]? = some sub) (registered : sub.registered = true)
    (batch : List (Item Value)) :
    ∃ removed, (plan subs batch).subs[sid]? = some (sub.drop removed) ∧
      (ownItems sid (plan subs batch).out).length + removed =
        (ownItems sid batch).length := by
  induction batch using List.reverseRecOn with
  | nil => exact ⟨0, found, rfl⟩
  | append_singleton batch item induction =>
      obtain ⟨removed, now, sum⟩ := induction
      rw [plan_snoc]
      rcases Plan.push_cases (plan subs batch) item with
        ⟨uncounted, same⟩ | ⟨-, ⟨other, place, is, last, out, after⟩ |
          ⟨out, after⟩⟩
      · have away : item.sid ≠ sid := by
          rintro rfl
          simp [counted, now, Subscription.drop, registered] at uncounted
        rw [same]
        refine ⟨removed, now, sum.trans ?_⟩
        rw [ownItems, ownItems, Collapse.ofKey_concat_other away]
      · have kept : (ownItems sid ((plan subs batch).push item).out).length =
            (ownItems sid (plan subs batch).out).length := by
          have shape := plan_shape subs batch
          have lastRun := last
          rw [← Plan.shape_last, shape] at lastRun
          have length := Collapse.ofKey_set_length _ lastRun sid
          rw [← shape] at length
          rw [out]
          exact length
        by_cases own : item.sid = sid
        · subst own
          obtain rfl : other = sub.drop removed :=
            Option.some.inj (is.symm.trans now)
          have bound := (List.getElem?_eq_some_iff.mp is).1
          refine ⟨removed + 1, ?_, ?_⟩
          · rw [after, List.getElem?_set_self bound]
            rfl
          · have one : ownItems item.sid (batch ++ [item]) =
                ownItems item.sid batch ++ [item] :=
              Collapse.ofKey_concat_own batch item
            rw [kept, one, List.length_append, ← sum]
            rfl
        · refine ⟨removed, ?_, ?_⟩
          · rw [after, List.getElem?_set_ne own]
            exact now
          · rw [kept, sum, ownItems, ownItems,
              Collapse.ofKey_concat_other own]
      · refine ⟨removed, after ▸ now, ?_⟩
        rw [out]
        simp only [ownItems, Collapse.ofKey_append, List.length_append]
          at sum ⊢
        omega

theorem plan_unknown {subs : Subs} {sid : Nat}
    (unknown : ∀ sub, subs[sid]? = some sub → sub.registered = false)
    (batch : List (Item Value)) :
    ownItems sid (plan subs batch).out = [] ∧
      (plan subs batch).subs[sid]? = subs[sid]? := by
  have away (item : Item Value) (counts : counted subs item = true) :
      item.sid ≠ sid := by
    rintro rfl
    cases found : subs[item.sid]? with
    | none => simp [counted, found] at counts
    | some sub => simp [counted, found, unknown sub found] at counts
  constructor
  · have none : ownItems sid (batch.filter (counted subs)) = [] := by
      apply Collapse.ofKey_eq_nil
      intro item member
      exact away item (List.mem_filter.mp member).2
    have shape : (plan subs batch).out = _ :=
      congrArg Collapse.out (plan_shape subs batch)
    rw [shape, ownItems, Collapse.ofKey_run]
    exact congrArg (Collapse.lasts (joins subs)) none
  · induction batch using List.reverseRecOn with
    | nil => rfl
    | append_singleton batch item same =>
        rw [plan_snoc]
        rcases Plan.push_cases (plan subs batch) item with
          ⟨-, unchanged⟩ | ⟨counts, ⟨other, place, is, last, out, after⟩ |
            ⟨out, after⟩⟩
        · rw [unchanged, same]
        · rw [((plan_same subs batch).item item).1] at counts
          rw [after, List.getElem?_set_ne (away item counts), same]
        · rw [after, same]

theorem handed_sublist (config : Config) (items : List (Item Value)) :
    (handed config items).Sublist items := by
  unfold handed
  split
  · exact List.Sublist.refl items
  · exact Collapse.lasts_sublist isUpdate items

/-- An item that no update follows, or that is none itself, is handed on. -/
theorem handed_item (config : Config) (before : List (Item Value))
    {after : List (Item Value)} {item : Item Value}
    (ends : (isUpdate item && after.head?.any isUpdate) = false) :
    ∃ front back, handed config (before ++ item :: after) =
        front ++ item :: back ∧
      front.Sublist before ∧ back.Sublist after := by
  unfold handed
  split
  · exact ⟨before, after, rfl, List.Sublist.refl _, List.Sublist.refl _⟩
  · obtain ⟨front, is, sublist⟩ :=
      Collapse.lasts_concat isUpdate before item
    refine ⟨front, Collapse.lasts isUpdate after, ?_, sublist,
      Collapse.lasts_sublist isUpdate after⟩
    have apart : ((before ++ [item]).getLast?.any isUpdate &&
        after.head?.any isUpdate) = false := by
      rw [List.getLast?_concat]
      exact ends
    rw [List.append_cons, Collapse.lasts_append _ _ _ apart, is,
      List.append_assoc, List.singleton_append]

theorem plan_exact (subs : Subs) (batch : List (Item Value)) :
    PlanExact subs batch (plan subs batch) where
  own _ _ found registered := plan_own found registered batch
  dropped _ _ found registered := plan_dropped found registered batch
  unknown _ unknown := plan_unknown unknown batch

/-- What a subscription is to get of a stream. -/
def handedAll (sid : Nat) (config : Config)
    (batches : List (List (Item Value))) : List (Item Value) :=
  batches.flatMap fun batch => handed config (ownItems sid batch)

theorem planAll_own {subs : Subs} {sid : Nat} {sub : Subscription}
    (found : subs[sid]? = some sub) (registered : sub.registered = true)
    (batches : List (List (Item Value))) :
    ownItems sid (planAll subs batches).1 =
      handedAll sid sub.config batches := by
  induction batches generalizing subs sub with
  | nil => rfl
  | cons batch rest induction =>
      obtain ⟨removed, later, -⟩ := plan_dropped found registered batch
      have still : (sub.drop removed).registered = true := registered
      have others := induction later still
      have here : ownItems sid (plan subs batch).out = _ :=
        plan_own found registered batch
      simp only [planAll, ownItems, Collapse.ofKey_append] at here others ⊢
      rw [here, others]
      rfl

theorem planAll_dropped {subs : Subs} {sid : Nat} {sub : Subscription}
    (found : subs[sid]? = some sub) (registered : sub.registered = true)
    (batches : List (List (Item Value))) :
    ∃ removed, (planAll subs batches).2[sid]? = some (sub.drop removed) ∧
      (ownItems sid (planAll subs batches).1).length + removed =
        (ownItems sid batches.flatten).length := by
  induction batches generalizing subs sub with
  | nil => exact ⟨0, found, rfl⟩
  | cons batch rest induction =>
      obtain ⟨here, later, hereSum⟩ := plan_dropped found registered batch
      have still : (sub.drop here).registered = true := registered
      obtain ⟨others, last, othersSum⟩ := induction later still
      refine ⟨here + others, ?_, ?_⟩
      · refine last.trans (congrArg some ?_)
        simp only [Subscription.drop, Nat.add_assoc]
      · simp only [planAll, ownItems, Collapse.ofKey_append,
          List.flatten_cons, List.length_append] at hereSum othersSum ⊢
        omega

theorem handedAll_sublist (sid : Nat) (config : Config)
    (batches : List (List (Item Value))) :
    (handedAll sid config batches).Sublist
      (ownItems sid batches.flatten) := by
  induction batches with
  | nil => exact .slnil
  | cons batch rest induction =>
      have here := handed_sublist config (ownItems sid batch)
      simp only [handedAll, List.flatMap_cons, List.flatten_cons, ownItems,
        Collapse.ofKey_append]
      exact here.append induction

/-- The last update before each other item, and of each batch, is handed on
in its place. -/
theorem handedAll_item {sid : Nat} (config : Config)
    (early late : List (List (Item Value))) {batch : List (Item Value)}
    {before after : List (Item Value)} {item : Item Value}
    (is : ownItems sid batch = before ++ item :: after)
    (ends : (isUpdate item && after.head?.any isUpdate) = false) :
    ∃ front back, handedAll sid config (early ++ batch :: late) =
        front ++ item :: back ∧
      front.Sublist (ownItems sid early.flatten ++ before) ∧
      back.Sublist (after ++ ownItems sid late.flatten) := by
  obtain ⟨front, back, here, first, last⟩ := handed_item config before ends
  refine ⟨handedAll sid config early ++ front,
    back ++ handedAll sid config late, ?_, ?_, ?_⟩
  · simp only [handedAll, List.flatMap_append, List.flatMap_cons, is, here,
      List.append_assoc, List.cons_append]
  · exact (handedAll_sublist sid config early).append first
  · exact last.append (handedAll_sublist sid config late)

/-- A plan collapses the updates of each subscription on their own, and so do
all plans of a stream, however it is cut into batches. -/
theorem collapsing_exact (subs : Subs) :
    (∀ batch : List (Item Value),
      PlanExact subs batch (plan subs batch)) ∧
    ∀ batches : List (List (Item Value)), StreamExact subs batches := by
  refine ⟨plan_exact subs, fun batches sid sub found registered => ?_⟩
  constructor
  · exact planAll_dropped found registered batches
  · rw [planAll_own found registered]
    exact handedAll_sublist sid sub.config batches
  · intro early batch late before item after split is ends
    rw [planAll_own found registered, split]
    exact handedAll_item sub.config early late is ends

example : (plan pair [update 0, update 1, update 0]).out.map Item.sid =
    [0, 1] := by
  decide

end Repics.Monitor
