import Mathlib.Data.List.Forall2

/-!
# Actions that take locks

An action of one thread runs to a result or an error, and takes locks on the
way.  Every attempt to take a lock is recorded with the locks that the action
holds at that moment.  Locks are not reentrant: an action that tries to take a
lock it holds waits for itself.
-/

/-- The attempts of an action, each with the locks held then, and its end. -/
structure Locking (Lock Err α : Type) where
  attempts : List (List Lock × Lock)
  result : Except Err α

namespace Locking

variable {Lock Err α β : Type}

/-- Another action follows if the first one does not fail. -/
def andThen (first : Locking Lock Err α) (next : α → Locking Lock Err β) :
    Locking Lock Err β :=
  match first.result with
  | .error error => ⟨first.attempts, .error error⟩
  | .ok value =>
      ⟨first.attempts ++ (next value).attempts, (next value).result⟩

instance : Monad (Locking Lock Err) where
  pure value := ⟨[], .ok value⟩
  bind := andThen

/-- An outcome that takes no lock. -/
def lift (result : Except Err α) : Locking Lock Err α :=
  ⟨[], result⟩

def fail (error : Err) : Locking Lock Err α :=
  lift (.error error)

/-- Take and release some locks, one after the other. -/
def touch (locks : List Lock) : Locking Lock Err Unit :=
  ⟨locks.map fun lock => ([], lock), .ok ()⟩

/-- Run an action with a lock taken. -/
def withLock (lock : Lock) (action : Locking Lock Err α) :
    Locking Lock Err α :=
  ⟨([], lock) :: action.attempts.map fun attempt =>
      (lock :: attempt.1, attempt.2), action.result⟩

/-- Run an action for each item, up to the first error. -/
def each (action : α → Locking Lock Err β) :
    List α → Locking Lock Err (List β)
  | [] => pure []
  | item :: rest => do
      let first ← action item
      let others ← each action rest
      pure (first :: others)

/-- The action comes for a lock. -/
def Attempts (action : Locking Lock Err α) (lock : Lock) : Prop :=
  ∃ held, (held, lock) ∈ action.attempts

/-- Some item of a list is wanted, and all items before it let one pass. -/
def Reaches (passes wanted : α → Prop) (items : List α) : Prop :=
  ∃ before item after, items = before ++ item :: after ∧
    (∀ other ∈ before, passes other) ∧ wanted item

/-- Every attempt of the action has a property. -/
def Within (allowed : List Lock × Lock → Prop)
    (action : Locking Lock Err α) : Prop :=
  ∀ attempt ∈ action.attempts, allowed attempt

/-- The action never takes a lock while it holds another one. -/
def Flat (action : Locking Lock Err α) : Prop :=
  action.Within fun attempt => attempt.1 = []

/-- The action tries to take a lock that it holds. -/
def SelfWaits (action : Locking Lock Err α) : Prop :=
  ∃ attempt ∈ action.attempts, attempt.2 ∈ attempt.1

@[simp] theorem result_pure (value : α) :
    (pure value : Locking Lock Err α).result = .ok value :=
  rfl

@[simp] theorem result_lift (result : Except Err α) :
    (lift result : Locking Lock Err α).result = result :=
  rfl

@[simp] theorem result_touch (locks : List Lock) :
    (touch locks : Locking Lock Err Unit).result = .ok () :=
  rfl

@[simp] theorem result_withLock (lock : Lock)
    (action : Locking Lock Err α) :
    (withLock lock action).result = action.result :=
  rfl

@[simp] theorem result_bind (first : Locking Lock Err α)
    (next : α → Locking Lock Err β) :
    (first >>= next).result =
      first.result >>= fun value => (next value).result := by
  show (andThen first next).result = _
  unfold andThen
  cases first.result with
  | error _ => rfl
  | ok _ => rfl

theorem result_bind_ok {first : Locking Lock Err α} {value : α}
    (ended : first.result = .ok value) (next : α → Locking Lock Err β) :
    (first >>= next).result = (next value).result := by
  rw [result_bind, ended]
  rfl

theorem result_bind_error {first : Locking Lock Err α} {error : Err}
    (ended : first.result = .error error) (next : α → Locking Lock Err β) :
    (first >>= next).result = .error error := by
  rw [result_bind, ended]
  rfl

theorem result_bind_ok_iff (first : Locking Lock Err α)
    (next : α → Locking Lock Err β) (value : β) :
    (first >>= next).result = .ok value ↔
      ∃ between, first.result = .ok between ∧
        (next between).result = .ok value := by
  rw [result_bind]
  cases ended : first.result with
  | error error =>
      constructor
      · intro impossible
        cases impossible
      · rintro ⟨_, impossible, _⟩
        cases impossible
  | ok between =>
      constructor
      · intro nextEnded
        exact ⟨between, rfl, nextEnded⟩
      · rintro ⟨_, same, nextEnded⟩
        cases same
        exact nextEnded

/-- What only wraps up a result succeeds when that result is there. -/
theorem result_wrap_iff {action : Locking Lock Err α} {wrap : α → β}
    (injective : Function.Injective wrap) (value : α) :
    (action >>= fun result => pure (wrap result)).result =
      .ok (wrap value) ↔ action.result = .ok value := by
  rw [result_bind_ok_iff]
  constructor
  · rintro ⟨result, ended, wrapped⟩
    rw [ended, injective (Except.ok.inj wrapped)]
  · intro ended
    exact ⟨value, ended, rfl⟩

theorem each_map {γ : Type} (action : β → Locking Lock Err γ)
    (part : α → β) (items : List α) :
    each action (items.map part) =
      each (fun item => action (part item)) items := by
  induction items with
  | nil => rfl
  | cons item rest induction => rw [List.map_cons, each, each, induction]

theorem result_each_single (action : α → Locking Lock Err β) (item : α) :
    (each action [item]).result =
      (action item).result.map fun value => [value] := by
  rw [each, result_bind]
  cases (action item).result with
  | error error => rfl
  | ok value => rfl

/-- A loop gives a list when its action gives the items of the list. -/
theorem result_each_ok_iff (action : α → Locking Lock Err β)
    (items : List α) (values : List β) :
    (each action items).result = .ok values ↔
      List.Forall₂ (fun item value => (action item).result = .ok value)
        items values := by
  induction items generalizing values with
  | nil =>
      rw [List.forall₂_nil_left_iff]
      constructor
      · intro ended
        exact (Except.ok.inj ended).symm
      · rintro rfl
        rfl
  | cons item rest induction =>
      rw [each, result_bind_ok_iff, List.forall₂_cons_left_iff]
      constructor
      · rintro ⟨first, firstEnded, restEnded⟩
        obtain ⟨others, othersEnded, ended⟩ :=
          (result_bind_ok_iff _ _ _).mp restEnded
        exact ⟨first, others, firstEnded, (induction others).mp othersEnded,
          (Except.ok.inj ended).symm⟩
      · rintro ⟨first, others, firstEnded, othersEnded, rfl⟩
        refine ⟨first, firstEnded, (result_bind_ok_iff _ _ _).mpr ?_⟩
        exact ⟨others, (induction others).mpr othersEnded, rfl⟩

theorem result_each_error {action : α → Locking Lock Err β}
    {before : List α} {item : α} {error : Err}
    (earlier : ∀ other ∈ before, ∃ value, (action other).result = .ok value)
    (failed : (action item).result = .error error) (after : List α) :
    (each action (before ++ item :: after)).result = .error error := by
  induction before with
  | nil => exact result_bind_error failed _
  | cons first before induction =>
      obtain ⟨value, ended⟩ := earlier first List.mem_cons_self
      have rest := induction fun other member =>
        earlier other (.tail first member)
      rw [List.cons_append, each, result_bind_ok ended]
      exact result_bind_error rest _

theorem mem_result_each {action : α → Locking Lock Err β} {items : List α}
    {values : List β} (ended : (each action items).result = .ok values)
    {value : β} (member : value ∈ values) :
    ∃ item ∈ items, (action item).result = .ok value := by
  have related := (result_each_ok_iff action items values).mp ended
  clear ended
  induction related with
  | nil => cases member
  | @cons item other items values here _ induction =>
      rcases List.mem_cons.mp member with rfl | later
      · exact ⟨item, List.mem_cons_self, here⟩
      · obtain ⟨found, foundMember, given⟩ := induction later
        exact ⟨found, List.mem_cons_of_mem item foundMember, given⟩

theorem result_each_map {action : α → Locking Lock Err β} {value : α → β}
    (ends : ∀ item, (action item).result = .ok (value item))
    (items : List α) :
    (each action items).result = .ok (items.map value) := by
  rw [result_each_ok_iff, List.forall₂_map_right_iff, List.forall₂_same]
  intro item _
  exact ends item

theorem mem_attempts_bind_iff (first : Locking Lock Err α)
    (next : α → Locking Lock Err β) (attempt : List Lock × Lock) :
    attempt ∈ (first >>= next).attempts ↔
      attempt ∈ first.attempts ∨
        ∃ value, first.result = .ok value ∧
          attempt ∈ (next value).attempts := by
  show attempt ∈ (andThen first next).attempts ↔ _
  unfold andThen
  cases first.result with
  | error error => simp
  | ok value => simp

section Within

variable {allowed : List Lock × Lock → Prop}

theorem within_lift (result : Except Err α) :
    (lift result : Locking Lock Err α).Within allowed := by
  intro attempt member
  cases member

theorem within_pure (value : α) :
    (pure value : Locking Lock Err α).Within allowed :=
  within_lift (.ok value)

theorem within_fail (error : Err) :
    (fail error : Locking Lock Err α).Within allowed :=
  within_lift (.error error)

theorem within_touch {locks : List Lock}
    (each : ∀ lock ∈ locks, allowed ([], lock)) :
    (touch locks : Locking Lock Err Unit).Within allowed := by
  intro attempt member
  obtain ⟨lock, lockMember, rfl⟩ := List.mem_map.mp member
  exact each lock lockMember

theorem Within.bind {first : Locking Lock Err α}
    {next : α → Locking Lock Err β} (firstWithin : first.Within allowed)
    (nextWithin : ∀ value, first.result = .ok value →
      (next value).Within allowed) :
    (first >>= next).Within allowed := by
  intro attempt member
  rcases (mem_attempts_bind_iff _ _ _).mp member with early | later
  · exact firstWithin attempt early
  · obtain ⟨value, ended, nextMember⟩ := later
    exact nextWithin value ended attempt nextMember

theorem within_each {action : α → Locking Lock Err β} {items : List α}
    (within : ∀ item ∈ items, (action item).Within allowed) :
    (each action items).Within allowed := by
  induction items with
  | nil => exact within_pure []
  | cons item rest induction =>
      refine Within.bind (within item List.mem_cons_self) ?_
      intro first _
      refine Within.bind ?_ fun others _ => within_pure (first :: others)
      apply induction
      intro other member
      exact within other (List.mem_cons_of_mem item member)

end Within

section Reaches

variable {passes wanted : α → Prop}

theorem not_reaches_nil : ¬Reaches passes wanted [] := by
  simp [Reaches]

theorem reaches_cons_iff (item : α) (rest : List α) :
    Reaches passes wanted (item :: rest) ↔
      wanted item ∨ passes item ∧ Reaches passes wanted rest := by
  constructor
  · intro ⟨before, found, after, split, earlier, isWanted⟩
    cases before with
    | nil =>
        cases split
        exact .inl isWanted
    | cons first before =>
        cases split
        obtain ⟨here, earlier⟩ := List.forall_mem_cons.mp earlier
        exact .inr ⟨here, before, found, after, rfl, earlier, isWanted⟩
  · rintro (isWanted | ⟨here, before, found, after, rfl, earlier, isWanted⟩)
    · exact ⟨[], item, rest, rfl, by simp, isWanted⟩
    · exact ⟨item :: before, found, after, rfl,
        List.forall_mem_cons.mpr ⟨here, earlier⟩, isWanted⟩

theorem reaches_congr {items : List α} {lets sought : α → Prop}
    (samePasses : ∀ item ∈ items, (passes item ↔ lets item))
    (sameWanted : ∀ item ∈ items, (wanted item ↔ sought item)) :
    Reaches passes wanted items ↔ Reaches lets sought items := by
  induction items with
  | nil => exact iff_of_false not_reaches_nil not_reaches_nil
  | cons item rest induction =>
      obtain ⟨here, others⟩ := List.forall_mem_cons.mp samePasses
      obtain ⟨hereWanted, othersWanted⟩ := List.forall_mem_cons.mp sameWanted
      rw [reaches_cons_iff, reaches_cons_iff, here, hereWanted,
        induction others othersWanted]

theorem reaches_any_iff {items : List α} :
    Reaches (fun _ => True) wanted items ↔ ∃ item ∈ items, wanted item := by
  induction items with
  | nil => simp [not_reaches_nil]
  | cons item rest induction => simp [reaches_cons_iff, induction]

end Reaches

theorem attempts_touch_iff (locks : List Lock) (lock : Lock) :
    (touch locks : Locking Lock Err Unit).Attempts lock ↔ lock ∈ locks := by
  simp [Attempts, touch]

theorem not_attempts_lift (result : Except Err α) (lock : Lock) :
    ¬(lift result : Locking Lock Err α).Attempts lock := by
  simp [Attempts, lift]

theorem not_attempts_pure (value : α) (lock : Lock) :
    ¬(pure value : Locking Lock Err α).Attempts lock :=
  not_attempts_lift (.ok value) lock

/-- A sequence comes for a lock in its first part, or in its second one after
the first has succeeded. -/
theorem attempts_bind_iff (first : Locking Lock Err α)
    (next : α → Locking Lock Err β) (lock : Lock) :
    (first >>= next).Attempts lock ↔ first.Attempts lock ∨
      ∃ value, first.result = .ok value ∧ (next value).Attempts lock := by
  simp only [Attempts, mem_attempts_bind_iff, exists_or]
  apply or_congr_right
  constructor
  · intro ⟨held, value, ended, member⟩
    exact ⟨value, ended, held, member⟩
  · intro ⟨value, ended, held, member⟩
    exact ⟨held, value, ended, member⟩

theorem attempts_touch_bind_iff (locks : List Lock)
    (next : Unit → Locking Lock Err β) (lock : Lock) :
    (touch locks >>= next).Attempts lock ↔
      lock ∈ locks ∨ (next ()).Attempts lock := by
  rw [attempts_bind_iff, attempts_touch_iff]
  apply or_congr_right
  constructor
  · intro ⟨_, _, attempts⟩
    exact attempts
  · intro attempts
    exact ⟨(), rfl, attempts⟩

theorem attempts_wrap_iff (action : Locking Lock Err α) (wrap : α → β)
    (lock : Lock) :
    (action >>= fun result => pure (wrap result)).Attempts lock ↔
      action.Attempts lock := by
  rw [attempts_bind_iff]
  apply or_iff_left
  intro ⟨value, _, attempts⟩
  exact not_attempts_pure _ lock attempts

/-- A loop comes for a lock in an item that all earlier ones let it get to. -/
theorem attempts_each_iff (action : α → Locking Lock Err β) (items : List α)
    (lock : Lock) :
    (each action items).Attempts lock ↔
      Reaches (fun item => ∃ value, (action item).result = .ok value)
        (fun item => (action item).Attempts lock) items := by
  induction items with
  | nil => exact iff_of_false (not_attempts_pure [] lock) not_reaches_nil
  | cons item rest induction =>
      rw [each, attempts_bind_iff, reaches_cons_iff, ← induction]
      simp only [attempts_wrap_iff, exists_and_right]

/-- With a lock taken, an action that takes its locks one at a time waits for
itself exactly when it comes for that lock. -/
theorem selfWaits_withLock_iff {lock : Lock} {action : Locking Lock Err α}
    (flat : action.Flat) :
    (withLock lock action).SelfWaits ↔ action.Attempts lock := by
  constructor
  · rintro ⟨attempt, member, own⟩
    rcases List.mem_cons.mp member with rfl | inside
    · cases own
    · obtain ⟨⟨held, wanted⟩, innerMember, rfl⟩ := List.mem_map.mp inside
      have alone : held = [] := flat _ innerMember
      have same : wanted = lock := by simpa [alone] using own
      exact ⟨held, same ▸ innerMember⟩
  · rintro ⟨held, member⟩
    refine ⟨(lock :: held, lock), ?_, List.mem_cons_self⟩
    exact List.mem_cons_of_mem _ (List.mem_map.mpr ⟨_, member, rfl⟩)

theorem not_selfWaits_iff (action : Locking Lock Err α) :
    ¬action.SelfWaits ↔
      action.Within fun attempt => attempt.2 ∉ attempt.1 := by
  simp [SelfWaits, Within]

theorem within_withLock_lift {allowed : List Lock × Lock → Prop}
    {lock : Lock} (alone : allowed ([], lock)) (result : Except Err α) :
    (withLock lock (lift result : Locking Lock Err α)).Within allowed := by
  intro attempt member
  obtain rfl : attempt = ([], lock) := List.mem_singleton.mp member
  exact alone

end Locking
