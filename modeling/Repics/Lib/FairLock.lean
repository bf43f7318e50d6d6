import Mathlib.Data.List.Nodup
import Mathlib.Logic.Function.Basic

/-!
# A lock that is granted in order

The line of those who have asked for a lock, in the order of their asking.
Whoever stands first may take the lock, and holds it until it leaves the line.
-/

universe u

/-- How far one of the users of the lock has come. -/
inductive Stage where
  | outside
  | waiting
  | inside
  deriving DecidableEq

variable {ι : Type u}

/-- The line is that of the users, and only the first of it is inside. -/
structure FairLock (line : List ι) (stage : ι → Stage) : Prop where
  nodup : line.Nodup
  member : ∀ user, user ∈ line ↔ stage user ≠ .outside
  first : ∀ user, stage user = .inside → line.head? = some user

namespace FairLock

/-- Who stands before a user in the line. -/
def ahead [DecidableEq ι] (line : List ι) (user : ι) : List ι :=
  line.takeWhile (· ≠ user)

variable {line : List ι} {stage : ι → Stage} {user other : ι}

theorem nil : FairLock ([] : List ι) fun _ => .outside where
  nodup := .nil
  member _ := by simp
  first _ := nofun

theorem unique (lock : FairLock line stage) (one : stage user = .inside)
    (two : stage other = .inside) : user = other :=
  Option.some.inj ((lock.first user one).symm.trans (lock.first other two))

variable [DecidableEq ι]

theorem join (lock : FairLock line stage) (outside : stage user = .outside) :
    FairLock (line ++ [user]) (Function.update stage user .waiting) where
  nodup := by
    apply List.nodup_append.mpr
    refine ⟨lock.nodup, List.nodup_singleton user, ?_⟩
    rintro other member _ single rfl
    rw [List.mem_singleton] at single
    subst single
    exact (lock.member other).mp member outside
  member other := by
    rw [List.mem_append, List.mem_singleton, lock.member]
    by_cases same : other = user
    · subst same
      simp
    · simp [same]
  first other inside := by
    by_cases same : other = user
    · subst same
      simp at inside
    · rw [Function.update_of_ne same] at inside
      rw [List.head?_append, lock.first other inside]
      rfl

theorem enter (lock : FairLock line stage) (first : line.head? = some user) :
    FairLock line (Function.update stage user .inside) where
  nodup := lock.nodup
  member other := by
    by_cases same : other = user
    · subst same
      simpa using List.mem_of_head? first
    · rw [Function.update_of_ne same]
      exact lock.member other
  first other inside := by
    by_cases same : other = user
    · rw [same]
      exact first
    · rw [Function.update_of_ne same] at inside
      exact lock.first other inside

theorem leave (lock : FairLock line stage) (user : ι) :
    FairLock (line.erase user) (Function.update stage user .outside) where
  nodup := lock.nodup.erase user
  member other := by
    rw [lock.nodup.mem_erase_iff, lock.member]
    by_cases same : other = user
    · subst same
      simp
    · simp [same]
  first other inside := by
    by_cases same : other = user
    · subst same
      simp at inside
    · rw [Function.update_of_ne same] at inside
      have first := lock.first other inside
      cases line with
      | nil => cases first
      | cons head rest =>
          obtain rfl : head = other := Option.some.inj first
          rw [List.erase_cons_tail (by simpa using same)]
          rfl

theorem keep (lock : FairLock line stage) {now : Stage}
    (same : stage user = now) :
    FairLock line (Function.update stage user now) := by
  rw [← same, Function.update_eq_self]
  exact lock

@[simp] theorem ahead_self (user : ι) (line : List ι) :
    ahead (user :: line) user = [] := by
  simp [ahead]

theorem ahead_cons (apart : other ≠ user) (line : List ι) :
    ahead (other :: line) user = other :: ahead line user := by
  simp [ahead, apart]

theorem ahead_sublist (line : List ι) (user : ι) :
    (ahead line user).Sublist line :=
  List.takeWhile_sublist _

theorem ahead_split (member : user ∈ line) :
    ∃ behind, line = ahead line user ++ user :: behind := by
  induction line with
  | nil => cases member
  | cons head rest induction =>
      by_cases same : head = user
      · subst same
        exact ⟨rest, by rw [ahead_self, List.nil_append]⟩
      · have later : user ∈ rest :=
          (List.mem_cons.mp member).resolve_left (Ne.symm same)
        obtain ⟨behind, split⟩ := induction later
        refine ⟨behind, ?_⟩
        rw [ahead_cons same, List.cons_append, ← split]

theorem ahead_join (member : user ∈ line) (last : ι) :
    ahead (line ++ [last]) user = ahead line user := by
  induction line with
  | nil => cases member
  | cons head rest induction =>
      by_cases same : head = user
      · subst same
        simp
      · have later : user ∈ rest :=
          (List.mem_cons.mp member).resolve_left (Ne.symm same)
        rw [List.cons_append, ahead_cons same, ahead_cons same,
          induction later]

theorem ahead_last (away : user ∉ line) :
    ahead (line ++ [user]) user = line := by
  induction line with
  | nil => exact ahead_self user []
  | cons head rest induction =>
      have apart : head ≠ user := fun same =>
        away (List.mem_cons.mpr (.inl same.symm))
      have later : user ∉ rest := fun member =>
        away (List.mem_cons_of_mem head member)
      rw [List.cons_append, ahead_cons apart, induction later]

theorem ahead_erase (apart : other ≠ user) (line : List ι) :
    ahead (line.erase other) user = (ahead line user).erase other := by
  induction line with
  | nil => rfl
  | cons head rest induction =>
      by_cases same : head = other
      · subst same
        rw [List.erase_cons_head, ahead_cons apart, List.erase_cons_head]
      · have different : (head == other) = false := by simpa using same
        rw [List.erase_cons_tail (by simp [different])]
        by_cases here : head = user
        · subst here
          simp
        · rw [ahead_cons here, ahead_cons here, induction,
            List.erase_cons_tail (by simp [different])]

end FairLock
