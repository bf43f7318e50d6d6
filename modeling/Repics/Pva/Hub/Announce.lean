import Mathlib.Data.Finset.Basic
import Repics.Lib.Transition
import Repics.Pva.Hub.Monitor

/-!
# One wake for many monitors

The hub carries only which monitors have something.  A push sets the flag of
its queue under the lock and sends the id after releasing it; a receiver pops
ids first and takes their queues afterwards.  Steps are therefore the critical
sections and channel operations, and `sending` and `popped` hold the ids that
are between two of them.  A monitor keeps, besides its queue, everything that
was pushed to it and everything that was taken from it.
-/

namespace Repics.Pva.Hub

/-- How far `subscribe` has come with a monitor; it returns after it has
signalled, or when opening fails. -/
inductive Phase where
  | opening
  | opened
  | signalled
  | failed
  deriving DecidableEq

structure Monitor where
  queue : Queue
  phase : Phase
  pushed : List Update
  taken : List Update

structure PvaMonitorHub where
  nextId : Nat
  monitors : Nat → Option Monitor
  subs : Finset Nat
  sending : List Nat
  ready : List Nat
  popped : List Nat

namespace PvaMonitorHub

def new : PvaMonitorHub where
  nextId := 1
  monitors := fun _ => none
  subs := ∅
  sending := []
  ready := []
  popped := []

/-- Steps of producers, of `subscribe`, of `close_subscription` and of
`recv_batch`. -/
inductive Action where
  | register (limit : Nat)
  | push (id : Nat) (event : MonitorConnEvent)
  | pushValue (id : Nat) (desc : FieldDesc) (value : PvField)
      (changed : BitSet)
  | send (id : Nat)
  | openFailed (id : Nat)
  | openDone (id : Nat)
  | signal (id : Nat)
  | closeSubscription (id : Nat)
  | pop
  | take (id : Nat)

/-- Replace a monitor, whose producer may have to send its id. -/
def store (hub : PvaMonitorHub) (id : Nat) (monitor : Monitor)
    (sends : Bool) : PvaMonitorHub :=
  { hub with
    monitors := Function.update hub.monitors id (some monitor)
    sending := if sends then id :: hub.sending else hub.sending }

def step (hub : PvaMonitorHub) : Action → Option PvaMonitorHub
  | .register limit =>
      some { hub with
        nextId := hub.nextId + 1
        monitors := Function.update hub.monitors hub.nextId
          (some ⟨.opened limit, .opening, [.disconnected], []⟩)
        subs := insert hub.nextId hub.subs }
  | .push id event =>
      (hub.monitors id).map fun monitor =>
        let (queue, sends) := monitor.queue.push (.ofEvent event)
        hub.store id
          { monitor with
            queue := queue
            pushed := monitor.pushed ++ [.ofEvent event] } sends
  | .pushValue id desc value changed =>
      (hub.monitors id).map fun monitor =>
        let (queue, sends) := monitor.queue.pushValue desc value changed
        hub.store id
          { monitor with
            queue := queue
            pushed := monitor.pushed ++ [.value desc value changed] } sends
  | .send id =>
      if id ∈ hub.sending then
        some { hub with
          sending := hub.sending.erase id
          ready := hub.ready ++ [id] }
      else none
  | .openFailed id =>
      (hub.monitors id).bind fun monitor =>
        if monitor.phase = .opening then
          some { hub.store id { monitor with phase := .failed } false with
            subs := hub.subs.erase id }
        else none
  | .openDone id =>
      (hub.monitors id).bind fun monitor =>
        if monitor.phase = .opening then
          some (hub.store id { monitor with phase := .opened } false)
        else none
  | .signal id =>
      (hub.monitors id).bind fun monitor =>
        if monitor.phase = .opened then
          let (queue, sends) := monitor.queue.signal
          some (hub.store id
            { monitor with queue := queue, phase := .signalled } sends)
        else none
  | .closeSubscription id => some { hub with subs := hub.subs.erase id }
  | .pop =>
      match hub.ready with
      | [] => none
      | id :: rest =>
          some { hub with ready := rest, popped := hub.popped ++ [id] }
  | .take id =>
      if id ∈ hub.popped then
        let found := if id ∈ hub.subs then hub.monitors id else none
        let rest := { hub with popped := hub.popped.erase id }
        match found with
        | none => some rest
        | some monitor =>
            let (queue, items) := monitor.queue.take
            some (rest.store id
              { monitor with
                queue := queue
                taken := monitor.taken ++ items } false)
      else none

def system : Transition PvaMonitorHub Action :=
  .ofPartial (· = new) step

/-- How often an id is about to be sent, in the channel, or popped and not yet
looked up. -/
def announcements (hub : PvaMonitorHub) (id : Nat) : Nat :=
  hub.sending.count id + hub.ready.count id + hub.popped.count id

end PvaMonitorHub

/-- What holds of one monitor, given whether it is in the table and how often
it is announced. -/
structure Monitor.Sound (monitor : Monitor) (inTable : Prop)
    (announcements : Nat) : Prop where
  atMostOnce : announcements ≤ monitor.queue.signalled.toNat
  signalled : inTable → announcements = monitor.queue.signalled.toNat
  waiting : monitor.phase = .signalled → monitor.queue.items ≠ [] →
    monitor.queue.signalled = true
  squashed : Squashed Update.squash? monitor.pushed
    (monitor.taken ++ monitor.queue.items)
  first : monitor.pushed.head? = some .disconnected

namespace Monitor.Sound

variable {old : Monitor} {inTable : Prop} {announcements : Nat}

theorem created (inTable : Prop) (limit : Nat) :
    (Monitor.mk (.opened limit) .opening [.disconnected] []).Sound
      inTable 0 where
  atMostOnce := Nat.zero_le _
  signalled _ := rfl
  waiting phase := by simp at phase
  squashed := Squashed.nil.append _
  first := rfl

/-- Whoever finds the flag down sets it and announces the monitor. -/
theorem announce (sound : old.Sound inTable announcements)
    {monitor : Monitor} (set : monitor.queue.signalled = true)
    (squashed : Squashed Update.squash? monitor.pushed
      (monitor.taken ++ monitor.queue.items))
    (first : monitor.pushed.head? = some .disconnected) :
    monitor.Sound inTable
      (announcements + if !old.queue.signalled then 1 else 0) where
  atMostOnce := by
    have bound := sound.atMostOnce
    cases flag : old.queue.signalled <;> simp_all
  signalled member := by
    have exactly := sound.signalled member
    cases flag : old.queue.signalled <;> simp_all
  waiting _ _ := set
  squashed := squashed
  first := first

theorem head?_append (sound : old.Sound inTable announcements)
    (u : Update) : (old.pushed ++ [u]).head? = some .disconnected := by
  have first := sound.first
  cases split : old.pushed with
  | nil => simp [split] at first
  | cons head rest => simpa [split] using first

theorem leave (sound : old.Sound inTable announcements) {outside : Prop}
    (absent : ¬outside) : old.Sound outside announcements where
  atMostOnce := sound.atMostOnce
  signalled member := (absent member).elim
  waiting := sound.waiting
  squashed := sound.squashed
  first := sound.first

theorem enter (sound : old.Sound inTable announcements) {phase : Phase}
    (notSignalled : phase ≠ .signalled) :
    ({ old with phase := phase } : Monitor).Sound inTable announcements where
  atMostOnce := sound.atMostOnce
  signalled := sound.signalled
  waiting signalled := (notSignalled signalled).elim
  squashed := sound.squashed
  first := sound.first

theorem take (sound : old.Sound inTable announcements) (member : inTable) :
    ({ old with
        queue := old.queue.take.1
        taken := old.taken ++ old.queue.take.2 } : Monitor).Sound
      inTable (announcements - 1) where
  atMostOnce := by
    have bound := sound.atMostOnce
    have small : old.queue.signalled.toNat ≤ 1 := Bool.toNat_le _
    change announcements - 1 ≤ 0
    omega
  signalled _ := by
    have exactly := sound.signalled member
    have small : old.queue.signalled.toNat ≤ 1 := Bool.toNat_le _
    change announcements - 1 = 0
    omega
  waiting _ nonempty := (nonempty rfl).elim
  squashed := by simpa [Queue.take] using sound.squashed
  first := sound.first

/-- A popped announcement of a monitor outside the table is dropped. -/
theorem drop (sound : old.Sound inTable announcements)
    (absent : ¬inTable) : old.Sound inTable (announcements - 1) where
  atMostOnce := (Nat.sub_le _ _).trans sound.atMostOnce
  signalled member := (absent member).elim
  waiting := sound.waiting
  squashed := sound.squashed
  first := sound.first

end Monitor.Sound

namespace PvaMonitorHub

structure Consistent (hub : PvaMonitorHub) : Prop where
  fresh : ∀ id, hub.nextId ≤ id → hub.monitors id = none
  known : ∀ id ∈ hub.subs, ∃ monitor, hub.monitors id = some monitor
  unknown : ∀ id, hub.monitors id = none → hub.announcements id = 0
  sound : ∀ id monitor, hub.monitors id = some monitor →
    monitor.Sound (id ∈ hub.subs) (hub.announcements id)

theorem new_consistent : new.Consistent where
  fresh _ _ := rfl
  known id member := by simp [new] at member
  unknown id _ := by simp [announcements, new]
  sound id monitor found := by simp [new] at found

/-- A step that concerns one monitor keeps everything consistent when it
leaves that monitor sound. -/
theorem Consistent.replace {hub next : PvaMonitorHub} {id : Nat}
    {old monitor : Monitor} (consistent : hub.Consistent)
    (found : hub.monitors id = some old)
    (nextId : next.nextId = hub.nextId)
    (monitors : next.monitors =
      Function.update hub.monitors id (some monitor))
    (subs : ∀ other ≠ id, other ∈ next.subs ↔ other ∈ hub.subs)
    (announced : ∀ other ≠ id,
      next.announcements other = hub.announcements other)
    (sound : monitor.Sound (id ∈ next.subs) (next.announcements id)) :
    next.Consistent where
  fresh other large := by
    have different : other ≠ id := by
      rintro rfl
      rw [nextId] at large
      simp [consistent.fresh other large] at found
    rw [monitors, Function.update_of_ne different]
    exact consistent.fresh other (nextId ▸ large)
  known other member := by
    by_cases same : other = id
    · exact ⟨monitor, by rw [monitors, same, Function.update_self]⟩
    · rw [monitors, Function.update_of_ne same]
      exact consistent.known other ((subs other same).mp member)
  unknown other none := by
    by_cases same : other = id
    · rw [monitors, same, Function.update_self] at none
      simp at none
    · rw [monitors, Function.update_of_ne same] at none
      rw [announced other same]
      exact consistent.unknown other none
  sound other otherMonitor otherFound := by
    by_cases same : other = id
    · subst same
      rw [monitors, Function.update_self, Option.some.injEq] at otherFound
      exact otherFound ▸ sound
    · rw [monitors, Function.update_of_ne same] at otherFound
      rw [announced other same, subs other same]
      exact consistent.sound other otherMonitor otherFound

/-- A step that only moves announcements keeps everything consistent. -/
theorem Consistent.move {hub next : PvaMonitorHub}
    (consistent : hub.Consistent) (nextId : next.nextId = hub.nextId)
    (monitors : next.monitors = hub.monitors) (subs : next.subs = hub.subs)
    (announced : ∀ id, next.announcements id = hub.announcements id) :
    next.Consistent where
  fresh id large := by
    rw [monitors]
    exact consistent.fresh id (nextId ▸ large)
  known id member := by
    rw [monitors]
    exact consistent.known id (subs ▸ member)
  unknown id none := by
    rw [announced]
    exact consistent.unknown id (monitors ▸ none)
  sound id monitor found := by
    rw [announced, subs]
    exact consistent.sound id monitor (monitors ▸ found)

@[simp] theorem store_subs (hub : PvaMonitorHub) (id : Nat)
    (monitor : Monitor) (sends : Bool) :
    (hub.store id monitor sends).subs = hub.subs :=
  rfl

theorem announcements_store (hub : PvaMonitorHub) (id other : Nat)
    (monitor : Monitor) (sends : Bool) :
    (hub.store id monitor sends).announcements other =
      hub.announcements other +
        if sends ∧ other = id then 1 else 0 := by
  cases sends with
  | false => simp [announcements, store]
  | true =>
      by_cases same : other = id
      · simp [announcements, store, same]
        omega
      · simp [announcements, store, same, Ne.symm same]

/-- Storing a monitor that announces itself when its flag was down. -/
theorem Consistent.announce {hub : PvaMonitorHub} (consistent : hub.Consistent)
    {id : Nat} {old monitor : Monitor} (found : hub.monitors id = some old)
    (set : monitor.queue.signalled = true)
    (squashed : Squashed Update.squash? monitor.pushed
      (monitor.taken ++ monitor.queue.items))
    (first : monitor.pushed.head? = some .disconnected) :
    (hub.store id monitor (!old.queue.signalled)).Consistent := by
  refine consistent.replace found rfl rfl (fun _ _ => Iff.rfl) ?_ ?_
  · intro other different
    simp [announcements_store, different]
  · have sound := (consistent.sound id old found).announce set squashed first
    simpa [announcements_store] using sound

theorem Consistent.register {hub : PvaMonitorHub}
    (consistent : hub.Consistent) (limit : Nat) :
    ({ hub with
        nextId := hub.nextId + 1
        monitors := Function.update hub.monitors hub.nextId
          (some ⟨.opened limit, .opening, [.disconnected], []⟩)
        subs := insert hub.nextId hub.subs } :
      PvaMonitorHub).Consistent where
  fresh id large := by
    have different : id ≠ hub.nextId := by
      change hub.nextId + 1 ≤ id at large
      omega
    change Function.update hub.monitors hub.nextId _ id = none
    rw [Function.update_of_ne different]
    exact consistent.fresh id (Nat.le_of_succ_le large)
  known id member := by
    by_cases same : id = hub.nextId
    · exact ⟨⟨.opened limit, .opening, [.disconnected], []⟩,
        by simp [same]⟩
    · obtain ⟨monitor, found⟩ := consistent.known id
        (by simpa [same] using member)
      exact ⟨monitor, by simpa [same] using found⟩
  unknown id none := by
    by_cases same : id = hub.nextId
    · simp [same] at none
    · exact consistent.unknown id (by simpa [same] using none)
  sound id monitor found := by
    by_cases same : id = hub.nextId
    · subst same
      simp only [Function.update_self, Option.some.injEq] at found
      have silent :=
        consistent.unknown hub.nextId (consistent.fresh _ (Nat.le_refl _))
      simp only [announcements] at silent ⊢
      rw [silent, ← found]
      exact .created _ limit
    · simpa [announcements, same] using consistent.sound id monitor
        (by simpa [same] using found)

theorem monitors_eq {hub : PvaMonitorHub} {id : Nat} {monitor : Monitor}
    (found : hub.monitors id = some monitor) :
    hub.monitors = Function.update hub.monitors id (some monitor) :=
  (Function.update_eq_self_iff.mpr found.symm).symm

theorem announcements_taken {hub : PvaMonitorHub} {id : Nat}
    (popped : id ∈ hub.popped) (other : Nat) :
    ({ hub with popped := hub.popped.erase id } :
      PvaMonitorHub).announcements other =
      hub.announcements other - if other = id then 1 else 0 := by
  have positive := List.count_pos_iff.mpr popped
  by_cases same : other = id
  · subst same
    simp only [announcements, List.count_erase_self, if_true]
    omega
  · simp [announcements, same, List.count_erase_of_ne same]

/-- A popped id takes the queue of its monitor, or is dropped when the monitor
has left the table. -/
theorem Consistent.take {hub next : PvaMonitorHub}
    (consistent : hub.Consistent) {id : Nat}
    (step : hub.step (.take id) = some next) : next.Consistent := by
  simp only [PvaMonitorHub.step] at step
  split at step
  · rename_i popped
    by_cases member : id ∈ hub.subs
    · obtain ⟨monitor, found⟩ := consistent.known id member
      simp only [member, if_true, found, Option.some.injEq] at step
      subst step
      refine consistent.replace found rfl rfl (fun _ _ => Iff.rfl) ?_ ?_
      · intro other different
        rw [announcements_store, announcements_taken popped]
        simp [different]
      · have taken := (consistent.sound id monitor found).take member
        rw [announcements_store, announcements_taken popped]
        simpa using taken
    · simp only [member, if_false, Option.some.injEq] at step
      subst step
      cases found : hub.monitors id with
      | none =>
          have silent := consistent.unknown id found
          have positive := List.count_pos_iff.mpr popped
          simp only [announcements] at silent
          omega
      | some monitor =>
          refine consistent.replace found rfl (monitors_eq found)
            (fun _ _ => Iff.rfl) ?_ ?_
          · intro other different
            rw [announcements_taken popped]
            simp [different]
          · have dropped :=
              (consistent.sound id monitor found).drop member
            rw [announcements_taken popped]
            simpa using dropped
  · simp at step

theorem Consistent.closeSubscription {hub : PvaMonitorHub}
    (consistent : hub.Consistent) (id : Nat) :
    ({ hub with subs := hub.subs.erase id } : PvaMonitorHub).Consistent := by
  cases found : hub.monitors id with
  | none =>
      have absent : id ∉ hub.subs := by
        intro member
        obtain ⟨monitor, known⟩ := consistent.known id member
        simp [found] at known
      exact consistent.move rfl rfl (Finset.erase_eq_of_notMem absent)
        fun _ => rfl
  | some monitor =>
      refine consistent.replace found rfl (monitors_eq found) ?_
        (fun _ _ => rfl) ?_
      · intro other different
        simp [different]
      · exact (consistent.sound id monitor found).leave (by simp)

theorem step_preserves {hub next : PvaMonitorHub} {action : Action}
    (consistent : hub.Consistent) (step : hub.step action = some next) :
    next.Consistent := by
  cases action with
  | register limit =>
      obtain rfl := Option.some.inj step
      exact consistent.register limit
  | push id event =>
      obtain ⟨monitor, found, rfl⟩ := Option.map_eq_some_iff.mp step
      have sound := consistent.sound id monitor found
      exact consistent.announce found rfl
        (Queue.push_squashed sound.squashed _) (sound.head?_append _)
  | pushValue id desc value changed =>
      obtain ⟨monitor, found, rfl⟩ := Option.map_eq_some_iff.mp step
      have sound := consistent.sound id monitor found
      obtain ⟨set, sends⟩ :=
        monitor.queue.pushValue_signals desc value changed
      have stored : (hub.store id
          { monitor with
            queue := (monitor.queue.pushValue desc value changed).1
            pushed := monitor.pushed ++ [.value desc value changed] }
          (!monitor.queue.signalled)).Consistent :=
        consistent.announce found set
          (Queue.pushValue_squashed sound.squashed desc value changed)
          (sound.head?_append _)
      rw [← sends] at stored
      exact stored
  | send id =>
      simp only [PvaMonitorHub.step] at step
      split at step
      · rename_i member
        obtain rfl := Option.some.inj step
        refine consistent.move rfl rfl rfl ?_
        intro other
        have positive := List.count_pos_iff.mpr member
        by_cases same : other = id
        · subst same
          simp only [announcements, List.count_erase_self,
            List.count_append, List.count_singleton_self]
          omega
        · simp [announcements, List.count_erase_of_ne same,
            Ne.symm same]
      · simp at step
  | openFailed id =>
      obtain ⟨monitor, found, rest⟩ := Option.bind_eq_some_iff.mp step
      split at rest
      · obtain rfl := Option.some.inj rest
        have sound := consistent.sound id monitor found
        refine consistent.replace found rfl rfl ?_ (fun _ _ => rfl) ?_
        · intro other different
          simp [different]
        · exact (sound.enter (by simp)).leave (by simp)
      · simp at rest
  | openDone id =>
      obtain ⟨monitor, found, rest⟩ := Option.bind_eq_some_iff.mp step
      split at rest
      · obtain rfl := Option.some.inj rest
        have sound := consistent.sound id monitor found
        exact consistent.replace found rfl rfl (fun _ _ => Iff.rfl)
          (fun _ _ => rfl) (sound.enter (by simp))
      · simp at rest
  | signal id =>
      obtain ⟨monitor, found, rest⟩ := Option.bind_eq_some_iff.mp step
      split at rest
      · obtain rfl := Option.some.inj rest
        have sound := consistent.sound id monitor found
        exact consistent.announce found rfl sound.squashed sound.first
      · simp at rest
  | closeSubscription id =>
      obtain rfl := Option.some.inj step
      exact consistent.closeSubscription id
  | pop =>
      simp only [PvaMonitorHub.step] at step
      split at step
      · simp at step
      · rename_i id rest ready
        obtain rfl := Option.some.inj step
        refine consistent.move rfl rfl rfl ?_
        intro other
        simp [announcements, ready, List.count_cons]
        omega
  | take id => exact consistent.take step

theorem reachable_consistent {hub : PvaMonitorHub}
    (reachable : system.Reachable hub) : hub.Consistent := by
  have invariant : system.Invariant Consistent :=
    { initial := fun _ start => start ▸ new_consistent
      preserved := fun _ _ _ consistent step => step_preserves consistent step }
  exact invariant.reachable reachable

/-- A monitor in the table is announced exactly when its flag is set, and once
only; outside the table the flag may outlive the announcement.  Taken and
queued updates are what was pushed, up to squashing. -/
theorem monitor_announced_once {hub : PvaMonitorHub}
    (reachable : system.Reachable hub) {id : Nat} {monitor : Monitor}
    (found : hub.monitors id = some monitor) :
    (id ∈ hub.subs →
      (monitor.queue.signalled = true ↔ hub.announcements id = 1) ∧
      (monitor.phase = .signalled → monitor.queue.items ≠ [] →
        hub.announcements id = 1)) ∧
    (hub.announcements id ≤ 1 ∧
      (hub.announcements id = 1 → monitor.queue.signalled = true)) ∧
    (monitor.pushed.head? = some .disconnected ∧
      Squashed Update.squash? monitor.pushed
        (monitor.taken ++ monitor.queue.items)) := by
  have sound := (reachable_consistent reachable).sound id monitor found
  refine ⟨?_, ?_, sound.first, sound.squashed⟩
  · intro member
    have exactly := sound.signalled member
    refine ⟨?_, ?_⟩
    · rw [exactly]
      cases monitor.queue.signalled <;> simp
    · intro phase nonempty
      rw [exactly, sound.waiting phase nonempty]
      rfl
  · have bound := sound.atMostOnce
    have small : monitor.queue.signalled.toNat ≤ 1 := Bool.toNat_le _
    refine ⟨bound.trans small, ?_⟩
    intro once
    rw [once] at bound
    cases flag : monitor.queue.signalled with
    | true => rfl
    | false => simp [flag] at bound

theorem reachable_of (actions : List Action)
    (possible : (actions.foldlM step new).isSome) :
    system.Reachable ((actions.foldlM step new).get possible) :=
  @Transition.Reachable.of_foldlM _ _ (· = new) step new rfl actions possible

/-- A push that finds the flag down because a receiver has just taken the
queue. -/
theorem monitor_announced_once_after_take :
    ∃ hub, system.Reachable hub ∧
      (hub.monitors 1).map (·.queue.items.length) = some 1 ∧
      hub.announcements 1 = 1 := by
  have reachable := reachable_of [.register 4, .push 1 .disconnected,
    .send 1, .openDone 1, .signal 1, .pop, .take 1, .push 1 .finished] rfl
  let monitor : Monitor := ⟨⟨[.finished], 4, true⟩, .signalled,
    [.disconnected, .disconnected, .finished],
    [.disconnected, .disconnected]⟩
  have announced := (@monitor_announced_once _ reachable 1 monitor rfl).1
    (by decide)
  exact ⟨_, reachable, rfl, announced.2 rfl (by simp [monitor])⟩

/-- A monitor that was closed before its id was taken. -/
theorem closed_monitor_stays_signalled :
    ∃ hub, system.Reachable hub ∧ ∃ monitor,
      hub.monitors 1 = some monitor ∧
      ¬(monitor.queue.signalled = true ↔ hub.announcements 1 = 1) :=
  ⟨_, reachable_of [.register 4, .openDone 1, .signal 1, .send 1,
    .closeSubscription 1, .pop, .take 1] rfl, _, rfl, by decide⟩

end PvaMonitorHub

end Repics.Pva.Hub
