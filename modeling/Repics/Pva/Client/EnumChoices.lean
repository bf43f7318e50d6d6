import Mathlib.Data.List.Basic

/-!
# The choices that an NTEnum helper remembers

`NTEnum.unwrap` remembers the choices of a value whose `value.choices` is
marked as changed, and uses what it remembers where a value has none; `assign`
resolves a label in the same way.  A context makes a new helper whenever a
value of another structure id comes by, and has one helper for all its PVs.

The events of one PV are its reads, updates, and puts, in the order in which
its values are unwrapped or assigned to.  Any other events may come between
them.  How Python reads an integer from text is a parameter.
-/

namespace Repics.Pva.Client

/-- What `NTEnum` reads of a value, `none` where that raises.  An array that is
null counts as empty, and `index` stands for `value.index` and the metadata. -/
structure EnumValue where
  changed : Option Bool
  choices : Option (List String)
  index : Option Int
  deriving DecidableEq

/-- What is put: a string, or something that `int` makes a number of or not. -/
inductive PutObj where
  | label (text : String)
  | number (value : Option Int)
  deriving DecidableEq

structure Ntenum where
  index : Int
  choice : Option String
  enums : List String
  deriving DecidableEq

namespace NTEnum

/-- `unwrap`: the choices remembered afterwards, and the outcome. -/
def unwrap (remembered : List String) (V : EnumValue) :
    List String × Option Ntenum :=
  match V.changed, V.choices with
  | some changed, some own =>
      let remembered := if changed then own else remembered
      let choices := if own = [] then remembered else own
      (remembered, V.index.map fun index =>
        ⟨index, if 0 ≤ index then choices[index.toNat]? else none, choices⟩)
  | _, _ => (remembered, none)

/-- `assign`: the integer that is assigned to `value.index`. -/
def assign (parse : String → Option Int) (remembered : List String)
    (V : EnumValue) : PutObj → Option Int
  | .number value => value
  | .label text =>
      V.choices.bind fun own =>
        let choices := if own = [] then remembered else own
        match choices.findIdx? (· == text) with
        | some index => some index
        | none => parse text

end NTEnum

/-- A value of the id of NTEnum, or of another one. -/
inductive AnyValue where
  | enum (V : EnumValue)
  | other (id : String)

def AnyValue.getID : AnyValue → String
  | .enum _ => "epics:nt/NTEnum:1.0"
  | .other id => id

/-- The id that the unwrapper served last, and the choices that its helper
remembers. -/
structure Remembered where
  id : Option String
  choices : List String

/-- The `_update` of the unwrapper: another id gets a new helper. -/
def Remembered.update (state : Remembered) (id : String) : Remembered :=
  if state.id = some id then state else ⟨some id, []⟩

/-- An event of the PV. -/
inductive EnumEvent where
  | unwrap (V : EnumValue)
  | assign (V : EnumValue) (obj : PutObj)

/-- An event of another PV. -/
inductive OtherEvent where
  | unwrap (V : AnyValue)
  | assign (V : AnyValue)

inductive EnumResult where
  | unwrapped (out : Option Ntenum)
  | assigned (index : Option Int)
  deriving DecidableEq

inductive Entry where
  | own (event : EnumEvent)
  | other (event : OtherEvent)

section Run

variable (parse : String → Option Int)

def EnumEvent.run (state : Remembered) :
    EnumEvent → Remembered × EnumResult
  | .unwrap V =>
      let state := state.update (AnyValue.enum V).getID
      let (choices, out) := NTEnum.unwrap state.choices V
      ({ state with choices := choices }, .unwrapped out)
  | .assign V obj =>
      let state := state.update (AnyValue.enum V).getID
      (state, .assigned (NTEnum.assign parse state.choices V obj))

def OtherEvent.run (state : Remembered) : OtherEvent → Remembered
  | .unwrap (.enum V) =>
      let state := state.update (AnyValue.enum V).getID
      { state with choices := (NTEnum.unwrap state.choices V).1 }
  | .unwrap V => state.update V.getID
  | .assign V => state.update V.getID

/-- The state after a history, and what came out for the PV. -/
def runAll (state : Remembered) :
    List Entry → Remembered × List EnumResult
  | [] => (state, [])
  | .own event :: entries =>
      let (next, result) := event.run parse state
      let (last, results) := runAll next entries
      (last, result :: results)
  | .other event :: entries => runAll (event.run state) entries

end Run

def ownEvents (entries : List Entry) : List EnumEvent :=
  entries.filterMap fun entry =>
    match entry with
    | .own event => some event
    | .other _ => none

/-- What comes out for the PV in a new context does not depend on the events
of other PVs. -/
def Isolated (parse : String → Option Int) (events : List EnumEvent) :
    Prop :=
  ∀ left right, ownEvents left = events → ownEvents right = events →
    (runAll parse ⟨none, []⟩ left).2 = (runAll parse ⟨none, []⟩ right).2

/-- The outcome needs the choices that the helper remembers. -/
def EnumEvent.Consults : EnumEvent → Prop
  | .unwrap V =>
      V.changed = some false ∧ V.choices = some [] ∧ V.index.isSome
  | .assign V (.label _) => V.choices = some []
  | .assign _ (.number _) => False

@[simp]
theorem ownEvents_own (event : EnumEvent) (entries : List Entry) :
    ownEvents (.own event :: entries) = event :: ownEvents entries :=
  rfl

@[simp]
theorem ownEvents_other (event : OtherEvent) (entries : List Entry) :
    ownEvents (.other event :: entries) = ownEvents entries :=
  rfl

theorem ownEvents_append (first second : List Entry) :
    ownEvents (first ++ second) = ownEvents first ++ ownEvents second :=
  List.filterMap_append

theorem ownEvents_map (events : List EnumEvent) :
    ownEvents (events.map .own) = events := by
  induction events with
  | nil => rfl
  | cons event events induction =>
      rw [List.map_cons, ownEvents_own, induction]

theorem runAll_own (parse : String → Option Int) (state : Remembered)
    (event : EnumEvent) (entries : List Entry) :
    (runAll parse state (.own event :: entries)).2 =
      (event.run parse state).2 ::
        (runAll parse (event.run parse state).1 entries).2 :=
  rfl

section Own

variable {parse : String → Option Int}

theorem EnumEvent.run_eq {event : EnumEvent} (plain : ¬event.Consults)
    (left right : Remembered) :
    (event.run parse left).2 = (event.run parse right).2 := by
  cases event with
  | assign V obj => cases obj with
    | number value => rfl
    | label text =>
        simp only [EnumEvent.run, NTEnum.assign]
        cases found : V.choices with
        | none => rfl
        | some own =>
            have other : own ≠ [] := by
              rintro rfl
              exact plain found
            simp [other]
  | unwrap V =>
      obtain ⟨changed, choices, index⟩ := V
      cases changed with
      | none => rfl
      | some changed => cases choices with
        | none => rfl
        | some choices => cases index with
          | none => rfl
          | some index =>
              by_cases empty : choices = []
              · subst empty
                cases changed with
                | true => rfl
                | false => exact (plain ⟨rfl, rfl, rfl⟩).elim
              · simp [EnumEvent.run, NTEnum.unwrap, empty]

theorem runAll_plain {entries : List Entry}
    (plain : ∀ event ∈ ownEvents entries, ¬event.Consults)
    (state : Remembered) :
    (runAll parse state entries).2 =
      (ownEvents entries).map fun event =>
        (event.run parse ⟨none, []⟩).2 := by
  induction entries generalizing state with
  | nil => rfl
  | cons entry entries induction =>
      cases entry with
      | other event => exact induction plain (event.run state)
      | own event =>
          have first := plain event List.mem_cons_self
          have later := induction
            (fun event member => plain event (List.mem_cons_of_mem _ member))
            (event.run parse state).1
          rw [runAll_own, later, EnumEvent.run_eq first state ⟨none, []⟩,
            ownEvents_own, List.map_cons]

end Own

section Other

variable {parse : String → Option Int}

/-- A PV with some choices is read. -/
def remember (choices : List String) : Entry :=
  .other (.unwrap (.enum ⟨some true, some choices, some 0⟩))

theorem runAll_remember (state : Remembered) (choices : List String)
    (entries : List Entry) :
    runAll parse state (remember choices :: entries) =
      runAll parse ⟨some "epics:nt/NTEnum:1.0", choices⟩ entries := by
  have id : (state.update "epics:nt/NTEnum:1.0").id =
      some "epics:nt/NTEnum:1.0" := by
    simp only [Remembered.update]
    split
    case isTrue same => exact same
    case isFalse => rfl
  simp only [remember, runAll, OtherEvent.run, NTEnum.unwrap, if_true,
    AnyValue.getID, id]

theorem EnumEvent.Consults.differ {event : EnumEvent}
    (consults : event.Consults) :
    ∃ left right,
      (event.run parse ⟨some "epics:nt/NTEnum:1.0", left⟩).2 ≠
        (event.run parse ⟨some "epics:nt/NTEnum:1.0", right⟩).2 := by
  cases event with
  | unwrap V =>
      obtain ⟨changed, choices, index⟩ := V
      obtain ⟨rfl, rfl, some_⟩ := consults
      obtain ⟨index, rfl⟩ := Option.isSome_iff_exists.mp some_
      refine ⟨[], [""], ?_⟩
      simp [EnumEvent.run, NTEnum.unwrap, Remembered.update, AnyValue.getID]
  | assign V obj => cases obj with
    | number value => exact consults.elim
    | label text =>
        refine ⟨[text], [text ++ "!", text], ?_⟩
        have none_ : V.choices = some [] := consults
        simp [EnumEvent.run, NTEnum.assign, Remembered.update,
          AnyValue.getID, none_, List.findIdx?_cons]

theorem runAll_append (state : Remembered) (first second : List Entry) :
    (runAll parse state (first ++ second)).2 =
      (runAll parse state first).2 ++
        (runAll parse (runAll parse state first).1 second).2 := by
  induction first generalizing state with
  | nil => rfl
  | cons entry first induction =>
      cases entry with
      | other event => exact induction (event.run state)
      | own event =>
          rw [List.cons_append, runAll_own, runAll_own, induction]
          rfl

theorem consults_leaks {before after : List EnumEvent} {event : EnumEvent}
    (consults : event.Consults) :
    ¬Isolated parse (before ++ event :: after) := by
  intro isolated
  obtain ⟨left, right, differ⟩ := @consults.differ parse
  have history : ∀ choices, ownEvents (before.map .own ++
      remember choices :: (event :: after).map .own) =
        before ++ event :: after := by
    intro choices
    rw [ownEvents_append, ownEvents_map, remember, ownEvents_other,
      ownEvents_map]
  have same := isolated _ _ (history left) (history right)
  simp only [runAll_append, runAll_remember] at same
  have tails := List.append_cancel_left same
  exact differ (List.cons.inj tails).1

end Other

/-- The events of other PVs do not show in what comes out for a PV exactly
when each of its values that is unwrapped has choices or marks them as changed,
and each one that a label is assigned to has choices. -/
theorem choices_isolated (parse : String → Option Int)
    (events : List EnumEvent) :
    Isolated parse events ↔ ∀ event ∈ events, ¬event.Consults := by
  constructor
  · intro isolated event member consults
    obtain ⟨before, after, rfl⟩ := List.append_of_mem member
    exact consults_leaks consults isolated
  · intro plain left right isLeft isRight
    rw [runAll_plain (isLeft ▸ plain), runAll_plain (isRight ▸ plain), isLeft,
      isRight]

/-- The value of a PV that is put without a read. -/
def unread : EnumValue :=
  ⟨some false, some [], some 0⟩

/-- A label is put without a read.  It is refused in a new context, and its
index in another PV is written after that one was read. -/
theorem label_of_another_pv :
    (runAll (fun _ => none) ⟨none, []⟩
        [.own (.assign unread (.label "On"))]).2 = [.assigned none] ∧
      (runAll (fun _ => none) ⟨none, []⟩ [remember ["Off", "On"],
        .own (.assign unread (.label "On"))]).2 = [.assigned (some 1)] ∧
      ¬Isolated (fun _ => none) [.assign unread (.label "On")] := by
  refine ⟨rfl, rfl, ?_⟩
  intro isolated
  have same := isolated [.own (.assign unread (.label "On"))]
    [remember ["Off", "On"], .own (.assign unread (.label "On"))] rfl rfl
  change [EnumResult.assigned none] = [.assigned (some 1)] at same
  simp at same

end Repics.Pva.Client
