import Mathlib.Logic.Relation

/-!
# Labelled transition systems

A system is a set of starting states and a labelled step relation.  Runs keep
the labels they took, so that a statement may speak about the order of steps.
An invariant is proved once for the starting states and once for a step; the
same rule serves runs all of whose steps satisfy a side condition, because
those are the runs of the restricted system.
-/

universe u v w

/-- Where runs start and what one labelled step may do. -/
structure Transition (σ : Type u) (α : Type v) where
  init : σ → Prop
  step : σ → α → σ → Prop

namespace Transition

variable {σ : Type u} {α : Type v}

/-- The states joined by a list of steps, read from left to right. -/
inductive Run (system : Transition σ α) : σ → List α → σ → Prop where
  | nil (state : σ) : Run system state [] state
  | snoc {first last next : σ} {labels : List α} {label : α} :
      Run system first labels last →
      system.step last label next →
      Run system first (labels ++ [label]) next

/-- A state at the end of some run from a starting state. -/
def Reachable (system : Transition σ α) (state : σ) : Prop :=
  ∃ first labels, system.init first ∧ system.Run first labels state

/-- Only the steps that satisfy `allowed` remain. -/
def restrict (system : Transition σ α) (allowed : σ → α → Prop) :
    Transition σ α where
  init := system.init
  step state label next := system.step state label next ∧ allowed state label

/-- The system of a partial step function. -/
def ofPartial (init : σ → Prop) (next : σ → α → Option σ) :
    Transition σ α where
  init := init
  step state label last := next state label = some last

/-- A property of states that holds initially and is kept by every step. -/
structure Invariant (system : Transition σ α) (holds : σ → Prop) : Prop where
  initial : ∀ state, system.init state → holds state
  preserved : ∀ state label next,
    holds state → system.step state label next → holds next

theorem Run.cons {system : Transition σ α} {first next last : σ}
    {label : α} {labels : List α} (step : system.step first label next)
    (run : system.Run next labels last) :
    system.Run first (label :: labels) last := by
  induction run with
  | nil => exact .snoc (.nil first) step
  | snoc _ final induction => exact .snoc induction final

theorem Run.append {system : Transition σ α} {first middle last : σ}
    {early late : List α} (run : system.Run first early middle)
    (later : system.Run middle late last) :
    system.Run first (early ++ late) last := by
  induction later with
  | nil =>
      rw [List.append_nil]
      exact run
  | snoc _ step induction =>
      rw [← List.append_assoc]
      exact .snoc induction step

theorem Run.preserves {system : Transition σ α} {holds : σ → Prop}
    (preserved : ∀ state label next,
      holds state → system.step state label next → holds next)
    {first last : σ} {labels : List α} (run : system.Run first labels last)
    (start : holds first) : holds last := by
  induction run with
  | nil => exact start
  | snoc _ step induction => exact preserved _ _ _ induction step

theorem Invariant.reachable {system : Transition σ α} {holds : σ → Prop}
    (invariant : system.Invariant holds) {state : σ}
    (reachable : system.Reachable state) : holds state := by
  obtain ⟨first, labels, start, run⟩ := reachable
  exact run.preserves invariant.preserved (invariant.initial first start)

theorem Invariant.restrict {system : Transition σ α} {holds : σ → Prop}
    (invariant : system.Invariant holds) (allowed : σ → α → Prop) :
    (system.restrict allowed).Invariant holds where
  initial := invariant.initial
  preserved state label next before step :=
    invariant.preserved state label next before step.1

/-- An invariant may be proved with the help of one that is known already. -/
theorem Invariant.strengthen {system : Transition σ α}
    {known holds : σ → Prop} (base : system.Invariant known)
    (initial : ∀ state, system.init state → holds state)
    (preserved : ∀ state label next,
      known state → holds state → system.step state label next → holds next) :
    system.Invariant (fun state => known state ∧ holds state) where
  initial state start := ⟨base.initial state start, initial state start⟩
  preserved state label next both step :=
    ⟨base.preserved state label next both.1 step,
      preserved state label next both.1 both.2 step⟩

theorem Run.of_foldl {system : Transition σ α} {next : σ → α → σ}
    (total : ∀ state label, system.step state label (next state label))
    (first : σ) (labels : List α) :
    system.Run first labels (labels.foldl next first) := by
  induction labels generalizing first with
  | nil => exact .nil first
  | cons label labels induction =>
      rw [List.foldl_cons]
      apply Run.cons (total first label) (induction (next first label))

theorem Run.of_foldlM {init : σ → Prop} {next : σ → α → Option σ}
    {first last : σ} {labels : List α}
    (result : labels.foldlM next first = some last) :
    (ofPartial init next).Run first labels last := by
  induction labels generalizing first with
  | nil =>
      obtain rfl : first = last := by simpa using result
      exact .nil first
  | cons label labels induction =>
      rw [List.foldlM_cons] at result
      obtain ⟨middle, step, rest⟩ := Option.bind_eq_some_iff.mp result
      exact .cons step (induction rest)

theorem Reachable.snoc {system : Transition σ α} {state next : σ} {label : α}
    (reachable : system.Reachable state)
    (step : system.step state label next) : system.Reachable next := by
  obtain ⟨first, labels, start, run⟩ := reachable
  exact ⟨first, labels ++ [label], start, .snoc run step⟩

/-- A list of steps that can be taken leads to a reachable state. -/
theorem Reachable.of_foldlM {init : σ → Prop} {next : σ → α → Option σ}
    {first : σ} (start : init first) (labels : List α)
    (possible : (labels.foldlM next first).isSome) :
    (ofPartial init next).Reachable
      ((labels.foldlM next first).get possible) :=
  ⟨first, labels, start, .of_foldlM (Option.some_get possible).symm⟩

theorem Run.restrict {system : Transition σ α} {allowed : α → Prop}
    {first last : σ} {labels : List α} (run : system.Run first labels last)
    (all : ∀ label ∈ labels, allowed label) :
    (system.restrict fun _ => allowed).Run first labels last := by
  induction run with
  | nil => exact .nil first
  | snoc _ step induction =>
      apply Run.snoc
      · apply induction
        intro label member
        exact all label (List.mem_append_left _ member)
      · exact ⟨step, all _ (by simp)⟩

theorem Run.restrict_cons {init : σ → Prop} {next : σ → α → Option σ}
    {allowed : σ → α → Prop} {first middle last : σ} {label : α}
    {labels : List α} (step : next first label = some middle)
    (fine : allowed first label)
    (run : ((ofPartial init next).restrict allowed).Run middle labels last) :
    ((ofPartial init next).restrict allowed).Run first (label :: labels)
      last :=
  .cons ⟨step, fine⟩ run

/-- When exactly the steps that are not allowed make a state bad, and nothing
makes a bad state good again, a run ends well when all its steps are
allowed. -/
theorem Run.restrict_iff {system : Transition σ α}
    {allowed : σ → α → Prop} {bad : σ → Prop}
    (persists : ∀ state label next,
      system.step state label next → bad state → bad next)
    (exact_ : ∀ state label next,
      system.step state label next → ¬bad state →
        (allowed state label ↔ ¬bad next))
    {first last : σ} {labels : List α} (run : system.Run first labels last)
    (good : ¬bad first) :
    (system.restrict allowed).Run first labels last ↔ ¬bad last := by
  constructor
  · intro restricted
    apply restricted.preserves _ good
    intro state label next before step
    apply (exact_ state label next step.1 before).mp step.2
  · intro ends
    induction run with
    | nil => exact .nil first
    | snoc run step induction =>
        have before := fun isBad => ends (persists _ _ _ step isBad)
        apply Run.snoc (induction before)
        exact ⟨step, (exact_ _ _ _ step before).mpr ends⟩

/-- Several steps after a reachable state lead to a reachable state. -/
theorem Reachable.run {system : Transition σ α} {state last : σ}
    {labels : List α} (reachable : system.Reachable state)
    (run : system.Run state labels last) : system.Reachable last := by
  induction run with
  | nil => exact reachable
  | snoc _ step induction => exact induction.snoc step

/-- When every step is allowed, nothing is lost by the restriction. -/
theorem Reachable.restricted {system : Transition σ α}
    {allowed : σ → α → Prop} {state : σ}
    (always : ∀ state label next, (system.restrict allowed).Reachable state →
      system.step state label next → allowed state label)
    (reachable : system.Reachable state) :
    (system.restrict allowed).Reachable state := by
  obtain ⟨first, labels, start, run⟩ := reachable
  induction run with
  | nil => exact ⟨_, [], start, .nil _⟩
  | snoc _ step induction =>
      exact induction.snoc ⟨step, always _ _ _ induction step⟩

/-- Some run from the state loses the property. -/
def Breakable (system : Transition σ α) (holds : σ → Prop) (state : σ) :
    Prop :=
  ∃ labels last, system.Run state labels last ∧ ¬holds last

theorem Breakable.now {system : Transition σ α} {holds : σ → Prop}
    {state : σ} (broken : ¬holds state) : system.Breakable holds state :=
  ⟨[], state, .nil state, broken⟩

theorem Breakable.step {init : σ → Prop} {next : σ → α → Option σ}
    {holds : σ → Prop} {state middle : σ} (label : α)
    (step : next state label = some middle)
    (later : (ofPartial init next).Breakable holds middle) :
    (ofPartial init next).Breakable holds state := by
  obtain ⟨labels, last, run, broken⟩ := later
  exact ⟨label :: labels, last, .cons step run, broken⟩

/-- A property holds in every run whose steps are allowed, and after a step
that is not it may be lost. -/
structure Guards (system : Transition σ α) (allowed : σ → α → Prop)
    (holds : σ → Prop) : Prop where
  enough : ∀ state, (system.restrict allowed).Reachable state → holds state
  needed : ∀ state label next, system.Reachable state →
    system.step state label next → ¬allowed state label →
      system.Breakable holds next

/-- As `Guards`, for the first step of a run that is not allowed: allowed steps
after it are enough to lose the property. -/
structure SharplyGuards (system : Transition σ α) (allowed : σ → α → Prop)
    (holds : σ → Prop) : Prop where
  enough : ∀ state, (system.restrict allowed).Reachable state → holds state
  needed : ∀ state label next, (system.restrict allowed).Reachable state →
    system.step state label next → ¬allowed state label →
      (system.restrict allowed).Breakable holds next

theorem Breakable.allowed {init : σ → Prop} {next : σ → α → Option σ}
    {allowed : σ → α → Prop} {holds : σ → Prop} {state middle : σ}
    (label : α) (step : next state label = some middle)
    (fine : allowed state label)
    (later : ((ofPartial init next).restrict allowed).Breakable holds
      middle) :
    ((ofPartial init next).restrict allowed).Breakable holds state := by
  obtain ⟨labels, last, run, broken⟩ := later
  exact ⟨label :: labels, last, .restrict_cons step fine run, broken⟩

end Transition
