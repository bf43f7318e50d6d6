import Mathlib.Data.List.Nodup
import Mathlib.Data.List.Pairwise

/-!
# Linearizable histories

A history records when calls begin and when they return.  It is linearizable
when an order explains it: its calls are put in one order that the sequential
specification allows, that gives every call the answer it got, and in which a
call that returned before another one began comes first.  Calls that have not
returned may stand in the order, with the answer they are going to get.

An order is built while the history grows.  Most calls take effect at the end
of the order.  A call may also take effect later than its place: before a call
after which the state does not depend on what was there.  Such a place is a
gap, and the calls that wait for it began before the gap was made.
-/

universe u v w

namespace Linearization

inductive Event (Op : Type v) (Result : Type w) where
  | invoke (call : Nat) (op : Op)
  | respond (call : Nat) (result : Result)

abbrev History (Op : Type v) (Result : Type w) := List (Event Op Result)

/-- A call with the answer it gets. -/
structure Entry (Op : Type v) (Result : Type w) where
  call : Nat
  op : Op
  result : Result

/-- Which operations may answer with which result, and the state after. -/
abbrev Spec (σ : Type u) (Op : Type v) (Result : Type w) :=
  σ → Op → Result → σ → Prop

variable {σ : Type u} {Op : Type v} {Result : Type w}

/-- The calls of an order lead from one state to another. -/
def Replays (spec : Spec σ Op Result) :
    σ → List (Entry Op Result) → σ → Prop
  | first, [], last => first = last
  | first, entry :: order, last =>
      ∃ next, spec first entry.op entry.result next ∧
        Replays spec next order last

def Responded (history : History Op Result) (call : Nat) : Prop :=
  ∃ result, Event.respond call result ∈ history

/-- The first call returned before the second one began. -/
def Before (history : History Op Result) (first second : Nat) : Prop :=
  ∃ early late, history = early ++ late ∧ Responded early first ∧
    ∃ op, Event.invoke second op ∈ late

/-- An order of calls that accounts for a history. -/
structure Explains (spec : Spec σ Op Result) (start : σ)
    (history : History Op Result) (order : List (Entry Op Result))
    (last : σ) : Prop where
  legal : Replays spec start order last
  distinct : (order.map Entry.call).Nodup
  invoked : ∀ entry ∈ order, Event.invoke entry.call entry.op ∈ history
  answered : ∀ call result, Event.respond call result ∈ history →
    ∃ op, Entry.mk call op result ∈ order
  ordered : order.Pairwise fun first second =>
    ¬Before history second.call first.call

/-- Every call has returned. -/
def Complete (history : History Op Result) : Prop :=
  ∀ call op, Event.invoke call op ∈ history → Responded history call

theorem Before.responded {history : History Op Result} {first second : Nat}
    (before : Before history first second) : Responded history first := by
  obtain ⟨early, late, rfl, ⟨result, member⟩, _⟩ := before
  exact ⟨result, List.mem_append_left late member⟩

theorem responded_respond {history : History Op Result} {call other : Nat}
    {result : Result} :
    Responded (history ++ [.respond call result]) other ↔
      Responded history other ∨ other = call := by
  constructor
  · intro responded
    obtain ⟨answer, member⟩ := responded
    rcases List.mem_append.mp member with old | new
    · exact .inl ⟨answer, old⟩
    · right
      have same := List.mem_singleton.mp new
      exact (Event.respond.inj same).1
  · intro either
    rcases either with old | new
    · obtain ⟨answer, member⟩ := old
      exact ⟨answer, List.mem_append_left _ member⟩
    · subst new
      exact ⟨result, List.mem_append_right _ (List.mem_singleton_self _)⟩

theorem responded_invoke {history : History Op Result} {call other : Nat}
    {op : Op} :
    Responded (history ++ [.invoke call op]) other ↔
      Responded history other := by
  simp [Responded]

/-- The last event of a history lies in the later part of every division of
the history that is not the trivial one. -/
theorem before_snoc {history : History Op Result} {event : Event Op Result}
    {first second : Nat} :
    Before (history ++ [event]) first second ↔
      Before history first second ∨
        (Responded history first ∧ ∃ op, event = .invoke second op) := by
  constructor
  · intro before
    obtain ⟨early, late, division, responded, op, member⟩ := before
    rcases List.eq_nil_or_concat late with none_ | ⟨rest, final, some_⟩
    · simp [none_] at member
    · subst some_
      rw [List.concat_eq_append] at division member
      rw [← List.append_assoc] at division
      obtain ⟨same, single⟩ := List.append_inj' division rfl
      obtain rfl := List.singleton_inj.mp single
      rcases List.mem_append.mp member with inside | final
      · exact .inl ⟨early, rest, same, responded, op, inside⟩
      · right
        obtain ⟨result, answer⟩ := responded
        constructor
        · exact ⟨result, same ▸ List.mem_append_left rest answer⟩
        · exact ⟨op, (List.mem_singleton.mp final).symm⟩
  · intro either
    rcases either with old | ⟨responded, op, rfl⟩
    · obtain ⟨early, late, rfl, responded, op, member⟩ := old
      refine ⟨early, late ++ [event], ?_, responded, op, ?_⟩
      · exact List.append_assoc early late [event]
      · exact List.mem_append_left _ member
    · exact ⟨history, _, rfl, responded, op, List.mem_singleton_self _⟩

theorem before_respond {history : History Op Result} {call : Nat}
    {result : Result} {first second : Nat} :
    Before (history ++ [.respond call result]) first second ↔
      Before history first second := by
  simp [before_snoc]

theorem before_invoke {history : History Op Result} {call : Nat} {op : Op}
    {first second : Nat} :
    Before (history ++ [.invoke call op]) first second ↔
      Before history first second ∨
        (Responded history first ∧ second = call) := by
  simp [before_snoc, eq_comm]

section Replays

variable {spec : Spec σ Op Result}

theorem replays_append {first last : σ}
    {early late : List (Entry Op Result)} :
    Replays spec first (early ++ late) last ↔
      ∃ middle, Replays spec first early middle ∧
        Replays spec middle late last := by
  induction early generalizing first with
  | nil => simp [Replays]
  | cons entry early induction =>
      simp only [List.cons_append, Replays, induction]
      constructor
      · intro whole
        obtain ⟨next, allowed, middle, front, back⟩ := whole
        exact ⟨middle, ⟨next, allowed, front⟩, back⟩
      · intro parts
        obtain ⟨middle, ⟨next, allowed, front⟩, back⟩ := parts
        exact ⟨next, allowed, middle, front, back⟩

theorem replays_snoc {first last next : σ} {order : List (Entry Op Result)}
    {entry : Entry Op Result} (legal : Replays spec first order last)
    (allowed : spec last entry.op entry.result next) :
    Replays spec first (order ++ [entry]) next :=
  replays_append.mpr ⟨last, legal, next, allowed, rfl⟩

/-- The state after the call does not depend on the state before it. -/
def Forgets (spec : Spec σ Op Result) (entry : Entry Op Result) : Prop :=
  ∀ before next, spec before entry.op entry.result next →
    ∀ other, spec other entry.op entry.result next

/-- A call more before one that forgets the state changes nothing after. -/
theorem replays_insert {start state next last : σ}
    {early late : List (Entry Op Result)} {closer entry : Entry Op Result}
    (legal : Replays spec start (early ++ closer :: late) last)
    (forgets : Forgets spec closer)
    (reached : Replays spec start early state)
    (allowed : spec state entry.op entry.result next) :
    Replays spec start (early ++ entry :: closer :: late) last := by
  obtain ⟨before, _, after, closes, rest⟩ := replays_append.mp legal
  apply replays_append.mpr
  exact ⟨state, reached, next, allowed, after,
    forgets before after closes next, rest⟩

end Replays

namespace Explains

variable {spec : Spec σ Op Result} {start last : σ}
variable {history : History Op Result} {order : List (Entry Op Result)}

theorem nil : Explains spec start ([] : History Op Result) [] start where
  legal := rfl
  distinct := .nil
  invoked _ member := absurd member (List.not_mem_nil)
  answered _ _ member := absurd member (List.not_mem_nil)
  ordered := .nil

/-- In a complete history the calls of the order are those that returned. -/
theorem returned (explains : Explains spec start history order last)
    (complete : Complete history) {entry : Entry Op Result}
    (member : entry ∈ order) :
    Event.respond entry.call entry.result ∈ history := by
  obtain ⟨result, answer⟩ :=
    complete entry.call entry.op (explains.invoked entry member)
  obtain ⟨op, other⟩ := explains.answered entry.call result answer
  have same := List.inj_on_of_nodup_map explains.distinct member other rfl
  rw [same]
  exact answer

theorem invoke (explains : Explains spec start history order last)
    {call : Nat} {op : Op} (fresh : ∀ entry ∈ order, entry.call ≠ call) :
    Explains spec start (history ++ [.invoke call op]) order last where
  legal := explains.legal
  distinct := explains.distinct
  invoked entry member :=
    List.mem_append_left _ (explains.invoked entry member)
  answered other result member := by
    apply explains.answered other result
    simpa using member
  ordered := by
    apply explains.ordered.imp_of_mem
    intro first second member _ apart before
    rcases before_invoke.mp before with old | ⟨_, same⟩
    · exact apart old
    · exact fresh first member same

theorem respond (explains : Explains spec start history order last)
    {call : Nat} {op : Op} {result : Result}
    (member : Entry.mk call op result ∈ order) :
    Explains spec start (history ++ [.respond call result]) order last where
  legal := explains.legal
  distinct := explains.distinct
  invoked entry inside :=
    List.mem_append_left _ (explains.invoked entry inside)
  answered other answer inside := by
    rcases List.mem_append.mp inside with old | new
    · exact explains.answered other answer old
    · obtain ⟨rfl, rfl⟩ := Event.respond.inj (List.mem_singleton.mp new)
      exact ⟨op, member⟩
  ordered := explains.ordered.imp fun apart before =>
    apart (before_respond.mp before)

end Explains

/-- A call that has begun, has not returned, and is not in the order yet. -/
structure Waiting (history : History Op Result)
    (order : List (Entry Op Result)) (call : Nat) (op : Op) : Prop where
  invoked : Event.invoke call op ∈ history
  silent : ¬Responded history call
  absent : ∀ entry ∈ order, entry.call ≠ call

section Insert

variable {spec : Spec σ Op Result} {start last : σ}
variable {history : History Op Result} {order : List (Entry Op Result)}
variable {entry : Entry Op Result}

/-- A waiting call may come anywhere after the calls that returned before it
began. -/
theorem Explains.insert {early late : List (Entry Op Result)} {next : σ}
    (explains : Explains spec start history (early ++ late) last)
    (waiting : Waiting history (early ++ late) entry.call entry.op)
    (legal : Replays spec start (early ++ entry :: late) next)
    (later : ∀ other ∈ late, ¬Before history other.call entry.call) :
    Explains spec start history (early ++ entry :: late) next where
  legal := legal
  distinct := by
    rw [List.map_append, List.map_cons, List.nodup_middle, List.nodup_cons,
      ← List.map_append]
    refine ⟨?_, explains.distinct⟩
    intro member
    obtain ⟨other, inside, same⟩ := List.mem_map.mp member
    exact waiting.absent other inside same
  invoked other member := by
    rcases List.mem_append.mp member with inEarly | rest
    · exact explains.invoked other (List.mem_append_left _ inEarly)
    · rcases List.mem_cons.mp rest with same | inLate
      · subst same
        exact waiting.invoked
      · exact explains.invoked other (List.mem_append_right _ inLate)
  answered call result member := by
    obtain ⟨op, inside⟩ := explains.answered call result member
    refine ⟨op, ?_⟩
    rcases List.mem_append.mp inside with inEarly | inLate
    · exact List.mem_append_left _ inEarly
    · exact List.mem_append_right _ (List.mem_cons_of_mem _ inLate)
  ordered := by
    have ordered := List.pairwise_append.mp explains.ordered
    obtain ⟨inEarly, inLate, between⟩ := ordered
    apply List.pairwise_append.mpr
    refine ⟨inEarly, List.pairwise_cons.mpr ⟨later, inLate⟩, ?_⟩
    intro first member second rest
    rcases List.mem_cons.mp rest with same | inside
    · subst same
      intro before
      exact waiting.silent before.responded
    · exact between first member second inside

theorem Explains.commit {next : σ}
    (explains : Explains spec start history order last)
    (waiting : Waiting history order entry.call entry.op)
    (allowed : spec last entry.op entry.result next) :
    Explains spec start history (order ++ [entry]) next := by
  apply Explains.insert
  · simpa using explains
  · simpa using waiting
  · exact replays_snoc explains.legal allowed
  · intro other member
    exact absurd member List.not_mem_nil

end Insert

/-- The order has a call that forgets the state, its closer; the calls before
it lead to `state`, and none of the others returned before one of those that
wait began. -/
def Gap (spec : Spec σ Op Result) (start : σ) (history : History Op Result)
    (order : List (Entry Op Result)) (closer : Nat) (state : σ)
    (waits : Nat → Prop) : Prop :=
  ∃ early entry late, order = early ++ entry :: late ∧ entry.call = closer ∧
    Forgets spec entry ∧ Replays spec start early state ∧
    ∀ call, waits call → ∀ other ∈ entry :: late,
      ¬Before history other.call call

namespace Gap

variable {spec : Spec σ Op Result} {start state last : σ}
variable {history : History Op Result} {order : List (Entry Op Result)}
variable {closer : Nat} {waits : Nat → Prop}

theorem mono (gap : Gap spec start history order closer state waits)
    {fewer : Nat → Prop} (weaker : ∀ call, fewer call → waits call) :
    Gap spec start history order closer state fewer := by
  obtain ⟨early, entry, late, split, same, forgets, reached, later⟩ := gap
  refine ⟨early, entry, late, split, same, forgets, reached, ?_⟩
  intro call waiting
  exact later call (weaker call waiting)

theorem member (gap : Gap spec start history order closer state waits) :
    ∃ entry ∈ order, entry.call = closer := by
  obtain ⟨early, entry, late, split, same, _⟩ := gap
  refine ⟨entry, ?_, same⟩
  rw [split]
  exact List.mem_append_right _ List.mem_cons_self

theorem make {entry : Entry Op Result}
    (explains : Explains spec start history order last)
    (forgets : Forgets spec entry) (silent : ¬Responded history entry.call) :
    Gap spec start history (order ++ [entry]) entry.call last waits := by
  refine ⟨order, entry, [], rfl, rfl, forgets, explains.legal, ?_⟩
  intro call _ other member before
  obtain rfl := List.mem_singleton.mp member
  exact silent before.responded

theorem respond (gap : Gap spec start history order closer state waits)
    (call : Nat) (result : Result) :
    Gap spec start (history ++ [.respond call result]) order closer state
      waits := by
  obtain ⟨early, entry, late, split, same, forgets, reached, later⟩ := gap
  refine ⟨early, entry, late, split, same, forgets, reached, ?_⟩
  intro waiter waiting other member before
  exact later waiter waiting other member (before_respond.mp before)

theorem invoke (gap : Gap spec start history order closer state waits)
    {call : Nat} {op : Op} (outside : ¬waits call) :
    Gap spec start (history ++ [.invoke call op]) order closer state
      waits := by
  obtain ⟨early, entry, late, split, same, forgets, reached, later⟩ := gap
  refine ⟨early, entry, late, split, same, forgets, reached, ?_⟩
  intro waiter waiting other member before
  rcases before_invoke.mp before with old | ⟨_, isNew⟩
  · exact later waiter waiting other member old
  · subst isNew
    exact outside waiting

/-- A gap stays when a call that has not returned comes after it. -/
theorem commit {entry : Entry Op Result}
    (gap : Gap spec start history order closer state waits)
    (silent : ¬Responded history entry.call) :
    Gap spec start history (order ++ [entry]) closer state waits := by
  obtain ⟨early, first, late, rfl, same, forgets, reached, later⟩ := gap
  refine ⟨early, first, late ++ [entry], ?_, same, forgets, reached, ?_⟩
  · simp
  · intro waiter waiting other member before
    rw [← List.cons_append] at member
    rcases List.mem_append.mp member with old | new
    · exact later waiter waiting other old before
    · obtain rfl := List.mem_singleton.mp new
      exact silent before.responded

/-- A waiting call takes effect in the gap.  The last state is what it was,
the state at the gap is the one after the call, and the gaps made by other
calls stay. -/
theorem fill {entry : Entry Op Result} {next : σ}
    (gap : Gap spec start history order closer state waits)
    (explains : Explains spec start history order last)
    (isWaiting : waits entry.call)
    (waiting : Waiting history order entry.call entry.op)
    (allowed : spec state entry.op entry.result next) :
    ∃ filled, Explains spec start history filled last ∧
      (∀ other, other ∈ filled ↔ other ∈ order ∨ other = entry) ∧
      Gap spec start history filled closer next waits ∧
      ∀ closer' state' waits', closer' ≠ closer →
        Gap spec start history order closer' state' waits' →
        Gap spec start history filled closer' state' waits' := by
  obtain ⟨early, first, late, rfl, same, forgets, reached, later⟩ := gap
  refine ⟨early ++ entry :: first :: late, ?_, ?_, ?_, ?_⟩
  · apply explains.insert waiting
    · exact replays_insert explains.legal forgets reached allowed
    · exact later entry.call isWaiting
  · intro other
    simp only [List.mem_append, List.mem_cons]
    tauto
  · refine ⟨early ++ [entry], first, late, ?_, same, forgets, ?_, later⟩
    · simp
    · exact replays_snoc reached allowed
  · intro closer' state' waits' apart gap
    obtain ⟨early', first', late', split, same', forgets', reached',
      later'⟩ := gap
    rcases List.append_eq_append_iff.mp split with
      ⟨middle, front, back⟩ | ⟨middle, front, back⟩
    · cases middle with
      | nil =>
          obtain ⟨rfl, _⟩ := List.cons.inj back
          exact absurd (same'.symm.trans same) apart
      | cons head middle =>
          obtain ⟨rfl, back⟩ := List.cons.inj back
          subst front
          refine ⟨early ++ entry :: first :: middle, first', late', ?_,
            same', forgets', ?_, later'⟩
          · rw [back]
            simp
          · exact replays_insert reached' forgets reached allowed
    · cases middle with
      | nil =>
          obtain ⟨rfl, _⟩ := List.cons.inj back
          exact absurd (same'.symm.trans same) apart
      | cons head middle =>
          obtain ⟨rfl, back⟩ := List.cons.inj back
          subst front
          refine ⟨early', first', middle ++ entry :: first :: late, ?_,
            same', forgets', reached', ?_⟩
          · simp
          · intro waiter wait other member before
            have cases_ : other = entry ∨ other ∈ first' :: late' := by
              rw [back]
              simp only [List.mem_cons, List.mem_append] at member ⊢
              tauto
            rcases cases_ with new | old
            · subst new
              exact waiting.silent before.responded
            · exact later' waiter wait other old before

end Gap

end Linearization
