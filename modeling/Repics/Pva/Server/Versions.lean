import Mathlib.Data.List.Sort
import Repics.Pva.Server.Subscribers
import Repics.Pva.Value.Copy
import Repics.Pva.Value.Copyable

/-!
# The values of a PV in their order

The accepted posts number the values that a PV has had.  A marked ring that a
subscriber has not left holds some of them, in their order: the seed is the
value at the registration and what follows is newer.  Values that are posted
with their type keep it.
-/

namespace Repics.Pva

/-- A member that is copied or kept has the type of the member. -/
theorem copyMembers_typed {members : List (Str × FieldDesc)}
    {news olds : List (Str × PvField)} (marks : BitSet) (bit : Nat)
    (newNames : news.map Prod.fst = members.map Prod.fst)
    (oldNames : olds.map Prod.fst = members.map Prod.fst)
    (newTyped : ∀ member field, (member, field) ∈ members.zip news →
      HasType member.2 field.2)
    (keeps : ∀ member old, (member, old) ∈ members.zip olds →
      ∀ bit new, HasType member.2 new →
        HasType member.2 (PvField.copyMarked member.2 marks bit new old.2)) :
    (PvField.copyMembers members marks bit news olds).map Prod.fst =
        members.map Prod.fst ∧
      ∀ member field,
        (member, field) ∈
          members.zip (PvField.copyMembers members marks bit news olds) →
        HasType member.2 field.2 := by
  induction members generalizing bit news olds with
  | nil => simp [PvField.copyMembers]
  | cons entry members induction =>
      cases news with
      | nil => simp at newNames
      | cons new news =>
          cases olds with
          | nil => simp at oldNames
          | cons old olds =>
              simp only [List.map_cons, List.cons.injEq] at newNames oldNames
              obtain ⟨names, typed⟩ := induction
                (bit + entry.2.tree.size) newNames.2 oldNames.2
                (fun member field inside =>
                  newTyped member field (by simp [inside]))
                (fun member old inside =>
                  keeps member old (by simp [inside]))
              simp only [PvField.copyMembers, List.map_cons, names,
                List.zip_cons_cons, List.mem_cons, true_and]
              intro member field inside
              rcases inside with first | later
              · simp only [Prod.mk.injEq] at first
                rw [first.1, first.2]
                apply keeps entry old (by simp)
                apply newTyped entry new (by simp)
              · exact typed member field later

theorem HasType.copyMarked {desc : FieldDesc} {old : PvField}
    (oldTyped : HasType desc old) (marks : BitSet) (bit : Nat)
    {new : PvField} (newTyped : HasType desc new) :
    HasType desc (PvField.copyMarked desc marks bit new old) := by
  induction oldTyped generalizing bit new with
  | struct structId members olds nodup oldNames oldTyped keeps =>
      by_cases marked : bit ∈ marks
      · simpa [PvField.copyMarked, marked] using newTyped
      · cases newTyped with
        | struct _ _ news _ newNames newTyped =>
            have copied := copyMembers_typed marks (bit + 1) newNames
              oldNames newTyped (fun member old inside bit new typed =>
                keeps member old inside bit typed)
            simp only [PvField.copyMarked, marked, if_false]
            apply HasType.struct _ _ _ nodup copied.1 copied.2
  | scalar value =>
      simp only [PvField.copyMarked]
      split
      · exact newTyped
      · apply HasType.scalar
  | _ =>
      simp only [PvField.copyMarked]
      split
      · exact newTyped
      · constructor <;> assumption

namespace Server

/-- The step reads the ring of a subscriber or drops it. -/
def Step.touches (sub : Nat) : Step → Bool
  | .read other | .depart other => decide (other = sub)
  | _ => false

namespace Monitored

/-- The value after the first `count` accepted posts. -/
def valueAt {Pv : Type} (server : Monitored Pv) (count : Nat) : PvField :=
  ((server.updates.take count).getLast?.map MonitorUpdate.value).getD
    server.start

/-- The values are ones that the PV had by the given post, in this order. -/
def Showed {Pv : Type} (server : Monitored Pv) (count : Nat)
    (values : List PvField) : Prop :=
  ∃ versions : List Nat, versions.Pairwise (· ≤ ·) ∧
    (∀ version ∈ versions, version ≤ count) ∧
    values = versions.map server.valueAt

section Values

variable {Pv : Type} {lib : Library Pv} {numbering : PvData}
variable {desc : FieldDesc} {server next : Monitored Pv}

theorem latest_valueAt (server : Monitored Pv) (numbering : PvData)
    (desc : FieldDesc) (count : Nat) :
    Snapshot.latest server.start ((server.updates.take count).map
      (MonitorUpdate.snapshot numbering desc)) = server.valueAt count := by
  rw [Snapshot.latest, List.getLast?_map, Option.map_map, valueAt]
  congr 1

theorem valueAt_grow (start : next.start = server.start)
    (grows : server.updates <+: next.updates) {count : Nat}
    (early : count ≤ server.updates.length) :
    next.valueAt count = server.valueAt count := by
  obtain ⟨later, split⟩ := grows
  rw [valueAt, valueAt, start, ← split, List.take_append_of_le_length early]

theorem valueAt_succ {count : Nat} (inside : count < server.updates.length) :
    server.valueAt (count + 1) = server.updates[count].value := by
  rw [valueAt, List.take_succ_eq_append_getElem inside, List.getLast?_concat]
  rfl

theorem values_drop (server : Monitored Pv) (count : Nat) :
    (server.updates.drop count).map MonitorUpdate.value =
      (List.range' (count + 1) (server.updates.length - count)).map
        server.valueAt := by
  apply List.ext_getElem
  · simp
  · intro index left right
    simp only [List.length_map, List.length_drop] at left
    simp only [List.getElem_map, List.getElem_drop, List.getElem_range']
    rw [← valueAt_succ (by omega)]
    congr 1
    omega

namespace Showed

theorem nil (server : Monitored Pv) (count : Nat) : server.Showed count [] :=
  ⟨[], .nil, by simp, rfl⟩

theorem grow {count later : Nat} {values : List PvField}
    (showed : server.Showed count values)
    (start : next.start = server.start)
    (grows : server.updates <+: next.updates)
    (early : count ≤ server.updates.length) (le : count ≤ later) :
    next.Showed later values := by
  obtain ⟨versions, sorted, bounded, rfl⟩ := showed
  refine ⟨versions, sorted, ?_, ?_⟩
  · intro version member
    exact (bounded version member).trans le
  · apply List.map_congr_left
    intro version member
    apply (valueAt_grow start grows _).symm
    exact (bounded version member).trans early

theorem append {count last : Nat} {front back : List PvField}
    (showed : server.Showed count front) {versions : List Nat}
    (sorted : versions.Pairwise (· ≤ ·))
    (between : ∀ version ∈ versions, count ≤ version ∧ version ≤ last)
    (le : count ≤ last) (values : back = versions.map server.valueAt) :
    server.Showed last (front ++ back) := by
  obtain ⟨earlier, earlierSorted, bounded, rfl⟩ := showed
  refine ⟨earlier ++ versions, ?_, ?_, by rw [values, List.map_append]⟩
  · rw [List.pairwise_append]
    refine ⟨earlierSorted, sorted, ?_⟩
    intro old oldIn new newIn
    exact (bounded old oldIn).trans (between new newIn).1
  · intro version member
    rcases List.mem_append.mp member with old | new
    · exact (bounded version old).trans le
    · exact (between version new).2

theorem sublist {count : Nat} {some all : List PvField}
    (showed : server.Showed count all) (part : some.Sublist all) :
    server.Showed count some := by
  obtain ⟨versions, sorted, bounded, rfl⟩ := showed
  obtain ⟨kept, keptPart, rfl⟩ := List.sublist_map_iff.mp part
  refine ⟨kept, sorted.sublist keptPart, ?_, rfl⟩
  intro version member
  exact bounded version (keptPart.subset member)

end Showed

/-- What is known of a subscriber with a marked ring. -/
structure Ringed (numbering : PvData) (desc : FieldDesc)
    (server : Monitored Pv) (sub : Nat) (seed : PvField)
    (ring : Ring MonitorUpdate) : Prop where
  start : seed = server.valueAt (server.since sub)
  earlier : server.since sub ≤ server.updates.length
  versions : ∃ versions : List Nat, versions.Pairwise (· ≤ ·) ∧
    (∀ version ∈ versions,
      server.since sub ≤ version ∧ version ≤ server.updates.length) ∧
    ring.contents.map MonitorUpdate.value = versions.map server.valueAt
  linked : ∃ offered, Snapshot.Linked desc seed offered ∧
    Squashed Snapshot.squash offered
      (ring.contents.map (MonitorUpdate.snapshot numbering desc)) ∧
    (sub ∉ server.pending → Snapshot.latest seed offered =
      server.valueAt server.updates.length)

theorem Sound.ringed (sound : server.Sound lib numbering desc) {sub : Nat}
    {seed : PvField} {ring : Ring MonitorUpdate}
    (found : server.entry.clients[sub]? = some ⟨seed, .marked ring, false⟩) :
    Ringed numbering desc server sub seed ring := by
  have served := sound.served sub _ found
  have seedEq : seed = server.valueAt (server.since sub) := by
    rw [← latest_valueAt server numbering desc]
    exact served.seed
  have squashed : Squashed Look.squash
      ((server.offeredTo sub).map MonitorUpdate.look)
      (ring.contents.map MonitorUpdate.look) := served.follows rfl
  have settled : server.since sub ≤ server.settled.length :=
    sound.earlier sub
  have front : server.offeredTo sub <+:
      server.updates.drop (server.since sub) := by
    rw [offeredTo]
    split
    · apply server.settled_prefix.drop
    · exact List.prefix_rfl
  constructor
  case start => exact seedEq
  case earlier => exact settled.trans server.settled_prefix.length_le
  case versions =>
    have kept := squashed.sublist_map Prod.fst (by
      intro tail item merged mergedEq
      simp only [Look.squash, Option.some.injEq] at mergedEq
      rw [← mergedEq])
    simp only [List.map_map] at kept
    have posted : (ring.contents.map MonitorUpdate.value).Sublist
        ((List.range' (server.since sub + 1)
          (server.updates.length - server.since sub)).map
            server.valueAt) := by
      rw [← values_drop]
      exact kept.trans (front.sublist.map MonitorUpdate.value)
    obtain ⟨versions, part, values⟩ := List.sublist_map_iff.mp posted
    refine ⟨versions, ?_, ?_, values⟩
    · apply List.Pairwise.sublist part
      apply List.Pairwise.imp Nat.le_of_lt
      apply List.pairwise_lt_range'
      exact Nat.one_pos
    · intro version member
      have inside := List.mem_range'_1.mp (part.subset member)
      omega
  case linked =>
    have snapshots := squashed.map (Look.snapshot numbering desc)
      (Look.squash_snapshot numbering desc)
    simp only [List.map_map] at snapshots
    have linked := sound.linked
    rw [← List.take_append_drop (server.since sub) server.updates,
      List.map_append] at linked
    have since := linked.of_append
    rw [latest_valueAt, ← seedEq] at since
    refine ⟨_, since.of_front (front.map _), snapshots, ?_⟩
    intro idle
    rw [offeredTo, if_neg idle, seedEq, ← latest_valueAt server numbering desc
      server.updates.length, List.take_length,
      ← latest_valueAt server numbering desc, ← Snapshot.latest_append,
      ← List.map_append, List.take_append_drop]

namespace Ringed

variable {sub : Nat} {seed : PvField} {ring : Ring MonitorUpdate}

/-- The seed and the updates of the ring, as they are sent. -/
def sent (numbering : PvData) (desc : FieldDesc) (seed : PvField)
    (updates : List MonitorUpdate) : List Snapshot :=
  ⟨seed, {0}⟩ :: updates.map (MonitorUpdate.snapshot numbering desc)

theorem sent_values (updates : List MonitorUpdate) :
    (sent numbering desc seed updates).map Snapshot.value =
      seed :: updates.map MonitorUpdate.value := by
  simp only [sent, List.map_cons, List.map_map]
  congr 1

theorem sent_snoc (updates : List MonitorUpdate) (update : MonitorUpdate) :
    sent numbering desc seed (updates ++ [update]) =
      sent numbering desc seed updates ++
        [update.snapshot numbering desc] := by
  simp [sent]

/-- The values of the seed and the updates are ones that the PV had since the
subscriber registered. -/
theorem all_versions (ringed : Ringed numbering desc server sub seed ring) :
    ∃ versions : List Nat, versions.Pairwise (· ≤ ·) ∧
      (∀ version ∈ versions,
        server.since sub ≤ version ∧ version ≤ server.updates.length) ∧
      (sent numbering desc seed ring.contents).map Snapshot.value =
        versions.map server.valueAt := by
  obtain ⟨versions, sorted, bounded, values⟩ := ringed.versions
  refine ⟨server.since sub :: versions, ?_, ?_, ?_⟩
  · apply List.Pairwise.cons _ sorted
    intro version member
    exact (bounded version member).1
  · intro version member
    rcases List.mem_cons.mp member with first | later
    · rw [first]
      exact ⟨Nat.le_refl _, ringed.earlier⟩
    · exact bounded version later
  · rw [sent_values, List.map_cons, ← ringed.start, values]

theorem typed (ringed : Ringed numbering desc server sub seed ring)
    (typed : ∀ count, HasType desc (server.valueAt count)) :
    ∀ item ∈ sent numbering desc seed ring.contents,
      HasType desc item.value := by
  obtain ⟨versions, -, -, values⟩ := ringed.all_versions
  intro item member
  have shown : item.value ∈ versions.map server.valueAt := by
    rw [← values]
    apply List.mem_map_of_mem member
  obtain ⟨version, -, same⟩ := List.mem_map.mp shown
  rw [← same]
  exact typed version

theorem latest_eq (ringed : Ringed numbering desc server sub seed ring)
    (idle : sub ∉ server.pending) (copy : PvField) :
    Snapshot.latest copy (sent numbering desc seed ring.contents) =
      server.valueAt server.updates.length := by
  obtain ⟨offered, -, squashed, last⟩ := ringed.linked
  have same := @Snapshot.latest_squashed seed _ _ squashed
  change Snapshot.latest copy ([⟨seed, {0}⟩] ++ _) = _
  rw [Snapshot.latest_append, ← last idle, same]
  rfl

end Ringed

end Values

section Steps

variable {Pv : Type} {lib : Library Pv} {numbering : PvData}
variable {desc : FieldDesc} {server next : Monitored Pv} {step : Step}

/-- The value that was posted is stored, and nothing else is recorded. -/
theorem store_cases {value : Root}
    (advanced : server.advance lib (.store value) = some next) :
    next.entry.clients = server.entry.clients ∧ next.since = server.since ∧
      next.start = server.start ∧
      (next.updates = server.updates ∨ ∃ pv field marked,
        server.entry.opened = some value.desc ∧
        lib.postDelta server.entry.pv value.marks value.field = .ok pv ∧
        lib.current pv = some field ∧
        next.updates = server.updates ++ [.posted field marked]) := by
  simp only [advance] at advanced
  split at advanced
  · simp at advanced
  · cases stored : server.entry.store lib value with
    | error error =>
        simp only [stored, Option.some.injEq] at advanced
        subst advanced
        exact ⟨rfl, rfl, rfl, .inl rfl⟩
    | ok result =>
        obtain ⟨opened, outcome⟩ := PvEntry.store_cases stored
        rcases outcome with ⟨-, rfl⟩ | ⟨-, pv, posted, rfl⟩
        · simp only [stored, Option.some.injEq] at advanced
          subst advanced
          exact ⟨rfl, rfl, rfl, .inl rfl⟩
        · simp only [stored, Option.some.injEq] at advanced
          subst advanced
          cases current : lib.current pv with
          | none => simp [Monitored.stored, current]
          | some field =>
              refine ⟨by simp [Monitored.stored, current],
                by simp [Monitored.stored, current],
                by simp [Monitored.stored, current], .inr ⟨pv, field,
                  lib.changedBitsetPaths value.desc value.marks, opened,
                  posted, current, by simp [Monitored.stored, current]⟩⟩

/-- A step that stores nothing leaves the values as they were. -/
theorem advance_values (advanced : server.advance lib step = some next)
    (other : ∀ value, step ≠ .store value) :
    next.start = server.start ∧ next.updates = server.updates := by
  cases step with
  | store value => exact (other value rfl).elim
  | offer =>
      simp only [advance] at advanced
      split at advanced
      · simp only [Option.some.injEq] at advanced
        subst advanced
        exact ⟨rfl, rfl⟩
      · simp at advanced
  | release =>
      simp only [advance] at advanced
      split at advanced
      · simp only [Option.some.injEq] at advanced
        subst advanced
        exact ⟨rfl, rfl⟩
      · simp at advanced
  | subscribe | subscribeSeeded _ _ =>
      simp only [advance, registered] at advanced
      split at advanced
      · simp at advanced
      · obtain ⟨_, -, rfl⟩ := Option.map_eq_some_iff.mp advanced
        exact ⟨rfl, rfl⟩
  | read _ | depart _ =>
      obtain ⟨_, -, rfl⟩ := Option.map_eq_some_iff.mp advanced
      exact ⟨rfl, rfl⟩

theorem advance_grows (advanced : server.advance lib step = some next) :
    next.start = server.start ∧ server.updates <+: next.updates := by
  by_cases stores : ∃ value, step = .store value
  · obtain ⟨value, rfl⟩ := stores
    obtain ⟨-, -, start, same | ⟨_, _, _, -, -, -, updates⟩⟩ :=
      store_cases advanced
    · exact ⟨start, by rw [same]⟩
    · refine ⟨start, ?_⟩
      rw [updates]
      apply List.prefix_append
  · obtain ⟨start, same⟩ := advance_values advanced
      (fun value eq => stores ⟨value, eq⟩)
    exact ⟨start, by rw [same]⟩

theorem registered_cases {wrap : PvField → Subscriber}
    (advanced : server.registered (server.entry.register lib wrap) =
      some next) :
    ∃ initial, lib.current server.entry.pv = some initial ∧
      next.entry.clients =
        server.entry.clients ++ [⟨initial, wrap initial, false⟩] ∧
      next.since = Function.update server.since server.entry.clients.length
        server.updates.length := by
  simp only [registered] at advanced
  split at advanced
  · simp at advanced
  · obtain ⟨entry, registered, rfl⟩ := Option.map_eq_some_iff.mp advanced
    simp only [PvEntry.register] at registered
    split at registered
    · simp at registered
    · case h_2 initial current =>
        simp only [Option.some.injEq] at registered
        subst registered
        exact ⟨initial, current, rfl, rfl⟩

theorem registered_old {wrap : PvField → Subscriber}
    (advanced : server.registered (server.entry.register lib wrap) =
      some next) {sub : Nat} (old : sub < server.entry.clients.length) :
    next.since sub = server.since sub ∧
      next.entry.clients[sub]? = server.entry.clients[sub]? := by
  obtain ⟨initial, -, clients, since⟩ := registered_cases advanced
  rw [clients, since, Function.update_of_ne (Nat.ne_of_lt old),
    List.getElem?_append_left old]
  exact ⟨rfl, rfl⟩

/-- Only reading its ring and dropping it change what a client has taken. -/
theorem advance_ring (advanced : server.advance lib step = some next)
    {sub : Nat} {seed : PvField} {ring : Ring MonitorUpdate}
    (found : server.entry.clients[sub]? = some ⟨seed, .marked ring, false⟩)
    (apart : Step.touches sub step = false) :
    next.since sub = server.since sub ∧
      ∃ later : Ring MonitorUpdate,
        next.entry.clients[sub]? = some ⟨seed, .marked later, false⟩ ∧
        later.taken = ring.taken := by
  have old : sub < server.entry.clients.length :=
    (List.getElem?_eq_some_iff.mp found).1
  cases step with
  | store value =>
      obtain ⟨clients, since, -⟩ := store_cases advanced
      rw [clients, since]
      exact ⟨rfl, ring, found, rfl⟩
  | offer =>
      simp only [advance] at advanced
      split at advanced
      case h_2 => simp at advanced
      case h_1 value marked kept other pending delivering =>
        simp only [Option.some.injEq] at advanced
        subst advanced
        refine ⟨rfl, ?_⟩
        by_cases own : other = sub
        · subst own
          simp only [PvEntry.offer, found, Bool.false_eq_true, if_false,
            List.getElem?_set_self old]
          exact ⟨_, rfl, rfl⟩
        · refine ⟨ring, ?_, rfl⟩
          simp only [PvEntry.offer]
          split
          · exact found
          · split
            · exact found
            · simp only [List.getElem?_set_ne own, found]
  | release =>
      simp only [advance] at advanced
      split at advanced
      · simp only [Option.some.injEq] at advanced
        subst advanced
        exact ⟨rfl, ring, found, rfl⟩
      · simp at advanced
  | subscribe =>
      obtain ⟨since, clients⟩ := registered_old advanced old
      rw [clients]
      exact ⟨since, ring, found, rfl⟩
  | subscribeSeeded allowsRead queueSize =>
      simp only [advance, PvEntry.subscribeSeeded] at advanced
      split at advanced
      · obtain ⟨since, clients⟩ := registered_old advanced old
        rw [clients]
        exact ⟨since, ring, found, rfl⟩
      · simp [registered] at advanced
  | read other =>
      have own : other ≠ sub := by simpa [Step.touches] using apart
      obtain ⟨entry, taken, rfl⟩ := Option.map_eq_some_iff.mp advanced
      simp only [PvEntry.read] at taken
      split at taken
      · simp at taken
      · split at taken
        · simp at taken
        · obtain ⟨subscriber, -, rfl⟩ := Option.map_eq_some_iff.mp taken
          refine ⟨rfl, ring, ?_, rfl⟩
          simp only [List.getElem?_set_ne own, found]
  | depart other =>
      have own : other ≠ sub := by simpa [Step.touches] using apart
      obtain ⟨entry, departed, rfl⟩ := Option.map_eq_some_iff.mp advanced
      obtain ⟨client, -, rfl⟩ := Option.map_eq_some_iff.mp departed
      refine ⟨rfl, ring, ?_, rfl⟩
      simp only [List.getElem?_set_ne own, found]

theorem Sound.advance_typed (lawful : lib.StoresDeltas)
    (wellNamed : desc.WellNamed) (sound : server.Sound lib numbering desc)
    (typed : ∀ count, HasType desc (server.valueAt count))
    (advanced : server.advance lib step = some next)
    (posts : ∀ value, step = .store value →
      HasType value.desc value.field) (count : Nat) :
    HasType desc (next.valueAt count) := by
  have early {count : Nat} (inside : count ≤ server.updates.length) :
      HasType desc (next.valueAt count) := by
    obtain ⟨start, grows⟩ := advance_grows advanced
    rw [valueAt_grow start grows inside]
    exact typed count
  have same (updates : next.updates = server.updates) :
      HasType desc (next.valueAt count) := by
    rw [valueAt, updates, (advance_grows advanced).1]
    exact typed count
  by_cases stores : ∃ value, step = .store value
  case neg =>
    apply same
    apply (advance_values advanced _).2
    intro value eq
    exact stores ⟨value, eq⟩
  case pos =>
    obtain ⟨value, rfl⟩ := stores
    obtain ⟨-, -, start, unchanged | ⟨pv, field, marked, opened, posted,
      current, updates⟩⟩ := store_cases advanced
    · exact same unchanged
    · by_cases inside : count ≤ server.updates.length
      · exact early inside
      · obtain ⟨root, holds, rfl, rootField⟩ := sound.holds
        obtain ⟨introspection, openedRoot, currentRoot, -⟩ :=
          (PvEntry.holds_iff root).mp holds
        have rootTyped : HasType root.desc root.field := by
          have last := typed server.updates.length
          rw [← latest_valueAt server numbering root.desc, List.take_length]
            at last
          rw [rootField]
          exact last
        obtain ⟨-, new, newCurrent, copies⟩ := lawful.posted introspection
          currentRoot rootTyped.fits posted
        have sameDesc : value.desc = root.desc := by
          rw [opened, Option.some.injEq] at openedRoot
          exact openedRoot
        obtain rfl : field = new := by
          rw [current, Option.some.injEq] at newCurrent
          exact newCurrent
        have valueTyped := posts value rfl
        rw [sameDesc] at valueTyped
        have whole : next.valueAt count = field := by
          rw [valueAt, updates, List.take_of_length_le]
          · simp [MonitorUpdate.posted]
          · simp only [List.length_append, List.length_singleton]
            omega
        rw [whole, copies.eq_copyMarked wellNamed valueTyped.fits
          rootTyped.fits]
        apply rootTyped.copyMarked _ _ valueTyped

end Steps

end Monitored

end Server

end Repics.Pva
