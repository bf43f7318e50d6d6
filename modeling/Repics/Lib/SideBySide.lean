import Repics.Lib.Transition

/-!
# Components side by side

Components of one kind stand in an environment that moves by itself.  A
component acts alone: it reads the environment and changes nothing but itself.
What a component met in a run is its own acts, each with the environment as the
moves before it had left it.  A fact about a component and what it met that
each act keeps holds of every component after any run, in any interleaving.
-/

universe u v w x

/-- The moves of an environment and the acts of a component in it. -/
structure SideBySide (Env : Type u) (Comp : Type v) (Move : Type w)
    (Act : Type x) where
  move : Env → Move → Option Env
  act : Env → Comp → Act → Option Comp

namespace SideBySide

variable {Env : Type u} {Comp : Type v} {Move : Type w} {Act : Type x}
variable (side : SideBySide Env Comp Move Act)

def nextOne : Env × Comp → Move ⊕ Act → Option (Env × Comp)
  | (env, comp), .inl move => (side.move env move).map fun env => (env, comp)
  | (env, comp), .inr act =>
      (side.act env comp act).map fun comp => (env, comp)

/-- A component alone in the environment. -/
def one : Transition (Env × Comp) (Move ⊕ Act) :=
  .ofPartial (fun _ => True) side.nextOne

def nextMany :
    Env × List Comp → Move ⊕ Nat × Act → Option (Env × List Comp)
  | (env, comps), .inl move =>
      (side.move env move).map fun env => (env, comps)
  | (env, comps), .inr (index, act) =>
      comps[index]?.bind fun comp =>
        (side.act env comp act).map fun comp => (env, comps.set index comp)

/-- Components in the environment, each with its index. -/
def many : Transition (Env × List Comp) (Move ⊕ Nat × Act) :=
  .ofPartial (fun _ => True) side.nextMany

/-- The environment after a label; a move that it cannot make changes
nothing. -/
def afterOne (move : Env → Move → Option Env) (env : Env) :
    Move ⊕ Nat × Act → Env
  | .inl moved => (move env moved).getD env
  | .inr _ => env

/-- The environment after some labels. -/
def after (move : Env → Move → Option Env) (env : Env)
    (labels : List (Move ⊕ Nat × Act)) : Env :=
  labels.foldl (afterOne move) env

/-- What a component met: its acts, each with the environment at that time. -/
def met (move : Env → Move → Option Env) (index : Nat) :
    Env → List (Move ⊕ Nat × Act) → List (Act × Env)
  | _, [] => []
  | env, .inl moved :: labels =>
      met move index ((move env moved).getD env) labels
  | env, .inr (other, act) :: labels =>
      if other = index then (act, env) :: met move index env labels
      else met move index env labels

variable {side}

theorem run_cons_iff {σ : Type u} {α : Type v} {system : Transition σ α}
    {first last : σ} {label : α} {labels : List α} :
    system.Run first (label :: labels) last ↔
      ∃ next, system.step first label next ∧ system.Run next labels last := by
  constructor
  · intro run
    generalize whole : label :: labels = all at run
    induction run generalizing labels with
    | nil => simp at whole
    | @snoc _ last before final run step induction =>
        cases before with
        | nil =>
            obtain ⟨rfl, rfl⟩ := List.cons.inj whole
            generalize none : ([] : List α) = labels at run
            cases run with
            | nil => exact ⟨last, step, .nil last⟩
            | snoc _ _ => simp at none
        | cons head before =>
            obtain ⟨rfl, rfl⟩ := List.cons.inj whole
            obtain ⟨next, start, rest⟩ := induction rfl
            exact ⟨next, start, .snoc rest step⟩
  · intro split
    obtain ⟨next, step, run⟩ := split
    exact .cons step run

theorem one_act_iff {env after : Env} {comp last : Comp} {act : Act} :
    side.one.step (env, comp) (.inr act) (after, last) ↔
      env = after ∧ side.act env comp act = some last := by
  simp only [one, Transition.ofPartial, nextOne, Option.map_eq_some_iff,
    Prod.mk.injEq]
  constructor
  · intro step
    obtain ⟨_, acted, rfl, rfl⟩ := step
    exact ⟨rfl, acted⟩
  · intro step
    exact ⟨last, step.2, step.1, rfl⟩

theorem many_move_iff {env : Env} {comps : List Comp} {move : Move}
    {next : Env × List Comp} :
    side.many.step (env, comps) (.inl move) next ↔
      ∃ after, side.move env move = some after ∧ next = (after, comps) := by
  simp only [many, Transition.ofPartial, nextMany, Option.map_eq_some_iff]
  constructor
  · intro step
    obtain ⟨after, moved, rfl⟩ := step
    exact ⟨after, moved, rfl⟩
  · intro step
    obtain ⟨after, moved, rfl⟩ := step
    exact ⟨after, moved, rfl⟩

theorem many_act_iff {env : Env} {comps : List Comp} {index : Nat}
    {act : Act} {next : Env × List Comp} :
    side.many.step (env, comps) (.inr (index, act)) next ↔
      ∃ comp after, comps[index]? = some comp ∧
        side.act env comp act = some after ∧
        next = (env, comps.set index after) := by
  simp only [many, Transition.ofPartial, nextMany, Option.bind_eq_some_iff,
    Option.map_eq_some_iff]
  constructor
  · intro step
    obtain ⟨comp, found, after, acted, rfl⟩ := step
    exact ⟨comp, after, found, acted, rfl⟩
  · intro step
    obtain ⟨comp, after, found, acted, rfl⟩ := step
    exact ⟨comp, found, after, acted, rfl⟩

/-- What one component can do alone, it can do among the others. -/
theorem run_among {env last : Env} {comps : List Comp} {comp after : Comp}
    {index : Nat} {acts : List Act} (found : comps[index]? = some comp)
    (run : side.one.Run (env, comp) (acts.map .inr) (last, after)) :
    side.many.Run (env, comps) (acts.map fun act => .inr (index, act))
      (env, comps.set index after) := by
  induction acts generalizing comps comp with
  | nil =>
      generalize none : ([] : List Act).map Sum.inr = labels at run
      cases run with
      | nil =>
          obtain ⟨inside, rfl⟩ := List.getElem?_eq_some_iff.mp found
          rw [List.set_getElem_self]
          exact .nil _
      | snoc _ _ => simp at none
  | cons act acts induction =>
      obtain ⟨⟨_, middle⟩, step, rest⟩ := run_cons_iff.mp run
      obtain ⟨rfl, acted⟩ := one_act_iff.mp step
      have inside : index < comps.length :=
        (List.getElem?_eq_some_iff.mp found).1
      have later := induction (List.getElem?_set_self inside) rest
      rw [List.set_set] at later
      exact .cons
        (many_act_iff.mpr ⟨comp, middle, found, acted, rfl⟩) later

section Met

variable {move : Env → Move → Option Env}

theorem after_append (env : Env) (labels others : List (Move ⊕ Nat × Act)) :
    after move env (labels ++ others) =
      after move (after move env labels) others :=
  List.foldl_append

theorem met_append (index : Nat) (env : Env)
    (labels others : List (Move ⊕ Nat × Act)) :
    met move index env (labels ++ others) =
      met move index env labels ++
        met move index (after move env labels) others := by
  induction labels generalizing env with
  | nil => rfl
  | cons label labels induction =>
      cases label with
      | inl moved => exact induction _
      | inr act =>
          obtain ⟨other, act⟩ := act
          simp only [List.cons_append, met]
          split
          · rw [induction, List.cons_append]
            rfl
          · exact induction _

/-- An act that was met is among the labels, with the moves before it. -/
theorem met_split {index : Nat} {env here : Env} {act : Act}
    {labels : List (Move ⊕ Nat × Act)} {first later : List (Act × Env)}
    (split : met move index env labels = first ++ (act, here) :: later) :
    ∃ before rest, labels = before ++ .inr (index, act) :: rest ∧
      met move index env before = first ∧ here = after move env before := by
  induction labels generalizing env first with
  | nil => simp [met] at split
  | cons label labels induction =>
      cases label with
      | inl moved =>
          obtain ⟨before, rest, rfl, isFirst, isHere⟩ :=
            induction split
          exact ⟨.inl moved :: before, rest, rfl, isFirst, isHere⟩
      | inr own =>
          obtain ⟨other, own⟩ := own
          by_cases same : other = index
          · subst same
            simp only [met, if_true] at split
            cases first with
            | nil =>
                obtain ⟨now, -⟩ := List.cons.inj split
                obtain ⟨rfl, rfl⟩ := Prod.mk.inj now
                exact ⟨[], labels, rfl, rfl, rfl⟩
            | cons head first =>
                obtain ⟨isHead, split⟩ := List.cons.inj split
                obtain ⟨before, rest, rfl, isFirst, isHere⟩ :=
                  induction split
                refine ⟨.inr (other, own) :: before, rest, rfl, ?_, isHere⟩
                simp only [met, if_true]
                rw [isFirst, isHead]
          · simp only [met, if_neg same] at split
            obtain ⟨before, rest, rfl, isFirst, isHere⟩ :=
              induction split
            refine ⟨.inr (other, own) :: before, rest, rfl, ?_, isHere⟩
            simp only [met, if_neg same]
            exact isFirst

theorem met_here (index : Nat) (env : Env) (act : Act)
    (before rest : List (Move ⊕ Nat × Act)) :
    (act, after move env before) ∈
      met move index env (before ++ .inr (index, act) :: rest) := by
  rw [met_append]
  apply List.mem_append_right
  simp only [met, if_true]
  exact List.mem_cons_self

end Met

/-- The environment after a run is the one that its moves make. -/
theorem run_environment {labels : List (Move ⊕ Nat × Act)}
    {first last : Env × List Comp}
    (run : side.many.Run first labels last) :
    last.1 = after side.move first.1 labels := by
  induction run with
  | nil => rfl
  | @snoc middle next labels label run step induction =>
      rw [after_append, ← induction]
      obtain ⟨env, comps⟩ := middle
      cases label with
      | inl move =>
          obtain ⟨next, moved, rfl⟩ := many_move_iff.mp step
          have same : next = (side.move env move).getD env := by rw [moved]; rfl
          exact same
      | inr act =>
          obtain ⟨_, _, _, _, rfl⟩ := many_act_iff.mp step
          rfl

/-- What holds of a new component, and is kept by each act, holds of every
component after any run and of what it met. -/
theorem run_met {holds : List (Act × Env) → Comp → Prop}
    (kept : ∀ {met env comp act after}, holds met comp →
      side.act env comp act = some after → holds (met ++ [(act, env)]) after)
    {labels : List (Move ⊕ Nat × Act)} {first last : Env × List Comp}
    (run : side.many.Run first labels last)
    (begun : ∀ comp ∈ first.2, holds [] comp) :
    ∀ {index comp}, last.2[index]? = some comp →
      holds (met side.move index first.1 labels) comp := by
  induction run with
  | nil =>
      intro index comp found
      exact begun comp (List.mem_of_getElem? found)
  | @snoc middle next labels label run step induction =>
      intro index comp found
      have here := run_environment run
      rw [met_append, ← here]
      obtain ⟨env, comps⟩ := middle
      cases label with
      | inl move =>
          obtain ⟨after, _, rfl⟩ := many_move_iff.mp step
          simp only [met, List.append_nil]
          exact induction found
      | inr act =>
          obtain ⟨other, act⟩ := act
          obtain ⟨before, after, foundBefore, acted, rfl⟩ :=
            many_act_iff.mp step
          by_cases same : other = index
          · subst same
            have inside := (List.getElem?_eq_some_iff.mp foundBefore).1
            rw [List.getElem?_set_self inside] at found
            obtain rfl := Option.some.inj found
            simp only [met, if_true]
            exact kept (induction foundBefore) acted
          · rw [List.getElem?_set_ne same] at found
            simp only [met, if_neg same, List.append_nil]
            exact induction found

end SideBySide
