import Repics.Lib.Transition
import Repics.Pva.Nt
import Repics.Pva.Server.Entry

/-!
# The served value

A `Ledger` says what a PV is supposed to serve: the value it was opened with
and the posts that were accepted since.  It is kept from the outside, by the
results of the calls.  What `current()` returns is the fold of the ledger, and
nothing but an accepted post or a change of the opened value adds to it.
-/

namespace Repics.Pva.Server

/-- A value as Python holds it: the field fits the descriptor. -/
structure Value extends Root where
  fits : PvField.Fits desc field

def rootSnapshot (root : Root) : Snapshot :=
  ⟨root.field, root.marks⟩

/-- The opened value and the accepted posts. -/
structure Ledger where
  opened : Value
  posts : List Root

namespace Ledger

/-- The value is the fold of the ledger, marks included. -/
structure Describes (ledger : Ledger) (root : Root) : Prop where
  desc : root.desc = ledger.opened.desc
  folded : Snapshot.Folded ledger.opened.desc ledger.opened.field
    (ledger.posts.map rootSnapshot) root.field
  marks : ∀ bit, bit ∈ root.marks ↔
    bit ∈ ledger.opened.marks ∨ ∃ post ∈ ledger.posts, bit ∈ post.marks

/-- Nothing is served while closed. -/
def Serves : Option Ledger → Option Root → Prop
  | none, none => True
  | some ledger, some root => ledger.Describes root
  | _, _ => False

end Ledger

inductive Action where
  | «open» (value : Value)
  | post (value : Root)
  | close
  | putValue (value : PvField)
  | putDeltaChecked (allowsWrite : Bool) (denied : Str) (desc : FieldDesc)
      (changed : BitSet) (delta : PvField)
  | done (index : Nat) (reply : Except Str Unit)
  | subscribe
  | subscribeSeeded (allowsRead : Bool) (queueSize : Nat)
  | read (sub : Nat)
  | depart (sub : Nat)

/-- A PV and the operations its handler has not completed. -/
structure Service (Pv : Type) where
  entry : PvEntry Pv
  operations : List ServerOperation

/-- The ledger after a call that returned the given result. -/
def account (ledger : Option Ledger) :
    Action → Except Str Unit → Option Ledger
  | .open value, .ok _ => some ⟨value, []⟩
  | .close, _ => none
  | .post value, .ok _ =>
      if value.marks = ∅ then ledger
      else ledger.map fun open_ => { open_ with
        posts := open_.posts ++ [value] }
  | _, _ => ledger

section Service

variable {Pv : Type} (lib : Library Pv) (numbering : PvData)

namespace Service

/-- A call that changes the entry or raises. -/
def call (service : Service Pv) :
    Except Str (PvEntry Pv) → Service Pv × Except Str Unit
  | .ok entry => ({ service with entry := entry }, .ok ())
  | .error error => (service, .error error)

/-- A client PUT waits for the handler or is refused at once. -/
def accept (service : Service Pv) :
    Except Str ServerOperation → Service Pv × Except Str Unit
  | .ok op => ({ service with operations := service.operations ++ [op] },
      .ok ())
  | .error error => (service, .error error)

def step (service : Service Pv) : Action → Service Pv × Except Str Unit
  | .open value => service.call (service.entry.open lib value.toRoot)
  | .post value => service.call (service.entry.post lib value)
  | .close => service.call (.ok (service.entry.close lib))
  | .putValue value =>
      service.accept (service.entry.putValue lib numbering value)
  | .putDeltaChecked allowsWrite denied desc changed delta =>
      service.accept (service.entry.putDeltaChecked lib allowsWrite denied
        desc changed delta)
  | .done index reply =>
      ({ service with operations := service.operations.eraseIdx index },
        reply)
  | .subscribe =>
      service.call (.ok ((service.entry.subscribe lib).getD service.entry))
  | .subscribeSeeded allowsRead queueSize =>
      service.call (.ok ((service.entry.subscribeSeeded lib allowsRead
        queueSize).getD service.entry))
  | .read sub => service.call (.ok ((service.entry.read sub).getD
      service.entry))
  | .depart sub => service.call (.ok ((service.entry.depart sub).getD
      service.entry))

end Service

/-- A service together with its ledger. -/
structure Accounted (Pv : Type) where
  service : Service Pv
  ledger : Option Ledger

namespace Accounted

def entry (state : Accounted Pv) : PvEntry Pv :=
  state.service.entry

def next (state : Accounted Pv) (action : Action) : Accounted Pv :=
  let (service, result) := state.service.step lib numbering action
  ⟨service, account state.ledger action result⟩

/-- A new PV is closed. -/
structure Initial (state : Accounted Pv) : Prop where
  ledger : state.ledger = none
  current : lib.current state.entry.pv = none
  opened : state.entry.opened = none

def system : Transition (Accounted Pv) Action where
  init := Initial lib
  step state action last := state.next lib numbering action = last

/-- Nothing has been done that is to be served or sent. -/
def Quiet (state : Accounted Pv) : Action → Prop
  | .post value =>
      value.marks = ∅ ∨ ∃ error, state.entry.post lib value = .error error
  | .open value => ∃ error, state.entry.open lib value.toRoot = .error error
  | .putValue _ | .putDeltaChecked _ _ _ _ _ | .done _ _ => True
  | _ => False

end Accounted

end Service

section Runs

variable {Pv : Type} {lib : Library Pv} {numbering : PvData}

namespace Ledger

theorem Describes.fits {ledger : Ledger} {root : Root}
    (describes : ledger.Describes root) :
    PvField.Fits root.desc root.field := by
  rw [describes.desc]
  apply describes.folded.fits ledger.opened.fits

theorem describes_opened (value : Value) :
    Describes ⟨value, []⟩ value.toRoot where
  desc := rfl
  folded := .nil
  marks := by simp

theorem Describes.post {ledger : Ledger} {root value : Root}
    (describes : ledger.Describes root) {field : PvField}
    (copies : PvField.Copies root.desc value.marks value.field root.field
      field) :
    Describes { ledger with posts := ledger.posts ++ [value] }
      ⟨root.desc, field, root.marks ∪ value.marks⟩ where
  desc := describes.desc
  folded := by
    rw [describes.desc] at copies
    simp only [List.map_append, List.map_cons, List.map_nil]
    apply describes.folded.snoc copies
  marks := by
    intro bit
    rw [Finset.mem_union, describes.marks bit]
    simp [or_assoc, or_and_right, exists_or]

end Ledger

theorem Service.accept_entry (service : Service Pv)
    (result : Except Str ServerOperation) :
    (service.accept result).1.entry = service.entry := by
  cases result with
  | error error => rfl
  | ok op => rfl

namespace Accounted

/-- The entry stores what its ledger describes. -/
inductive Sound (lib : Library Pv) (state : Accounted Pv) : Prop where
  | closed : state.ledger = none → state.entry.opened = none →
      lib.current state.entry.pv = none → Sound lib state
  | opened {ledger : Ledger} {root : Root} : state.ledger = some ledger →
      state.entry.Holds lib root → ledger.Describes root → Sound lib state

theorem Sound.serves {state : Accounted Pv} (sound : state.Sound lib) :
    Ledger.Serves state.ledger (state.entry.current lib) := by
  cases sound with
  | closed ledger opened _ =>
      simp [ledger, PvEntry.current, opened, Ledger.Serves]
  | opened ledger holds describes =>
      rw [ledger, holds.2]
      exact describes

/-- Nothing changes for the ledger when the stored value stays. -/
theorem Sound.frame {state last : Accounted Pv} (sound : state.Sound lib)
    (ledger : last.ledger = state.ledger)
    (stored : last.entry.pv = state.entry.pv ∧
      last.entry.opened = state.entry.opened ∧
      last.entry.marks = state.entry.marks) : last.Sound lib := by
  obtain ⟨pv, opened, marks⟩ := stored
  cases sound with
  | closed same notOpened notCurrent =>
      apply Sound.closed (ledger.trans same) (opened.trans notOpened)
      rw [pv, notCurrent]
  | opened same holds describes =>
      apply Sound.opened (ledger.trans same) (holds.frame pv opened marks)
        describes

theorem Sound.open {state : Accounted Pv} (lawful : lib.StoresDeltas)
    (sound : state.Sound lib) (value : Value) :
    (state.next lib numbering (.open value)).Sound lib := by
  cases result : state.service.entry.open lib value.toRoot with
  | error error =>
      simp only [next, Service.step, Service.call, result, account]
      apply sound.frame rfl ⟨rfl, rfl, rfl⟩
  | ok entry =>
      simp only [next, Service.step, Service.call, result, account]
      simp only [PvEntry.open] at result
      split at result
      case h_1 => simp at result
      case h_2 pv openedPv =>
        simp only [Except.ok.injEq] at result
        subst result
        obtain ⟨introspection, current⟩ := lawful.opened openedPv
        apply Sound.opened rfl _ (Ledger.describes_opened value)
        rw [PvEntry.holds_iff]
        exact ⟨introspection, rfl, current, rfl⟩

theorem Sound.post {state : Accounted Pv} (lawful : lib.StoresDeltas)
    (sound : state.Sound lib) (value : Root) :
    (state.next lib numbering (.post value)).Sound lib := by
  cases result : state.service.entry.post lib value with
  | error error =>
      simp only [next, Service.step, Service.call, result, account]
      apply sound.frame rfl ⟨rfl, rfl, rfl⟩
  | ok entry =>
      obtain ⟨opened, outcome⟩ := PvEntry.post_cases result
      simp only [next, Service.step, Service.call, result, account]
      by_cases bare : value.marks = ∅
      · rw [if_pos bare]
        have same : entry = state.service.entry := by
          rcases outcome with ⟨-, same⟩ | ⟨marked, -⟩
          · exact same
          · exact (marked bare).elim
        apply sound.frame
        · rfl
        · rw [same]
          exact ⟨rfl, rfl, rfl⟩
      · rw [if_neg bare]
        cases sound with
        | closed _ notOpened _ =>
            have absurd : none = some value.desc := notOpened.symm.trans opened
            simp at absurd
        | opened ledger holds describes =>
            obtain ⟨field, nextHolds, copies⟩ :=
              holds.post lawful describes.fits result bare
            rw [ledger]
            apply Sound.opened rfl nextHolds (describes.post copies)

theorem Sound.close {state : Accounted Pv} (lawful : lib.StoresDeltas) :
    (state.next lib numbering .close).Sound lib :=
  .closed rfl rfl (lawful.closed _)

theorem Sound.getD {state : Accounted Pv} (sound : state.Sound lib)
    {result : Option (PvEntry Pv)}
    (stored : ∀ entry, result = some entry → entry.pv = state.entry.pv ∧
      entry.opened = state.entry.opened ∧
      entry.marks = state.entry.marks) :
    Sound lib ⟨⟨result.getD state.service.entry, state.service.operations⟩,
      state.ledger⟩ := by
  cases result with
  | none =>
      apply sound.frame
      · rfl
      · exact ⟨rfl, rfl, rfl⟩
  | some entry =>
      apply sound.frame
      · rfl
      · exact stored entry rfl

theorem Sound.accept {state : Accounted Pv} (sound : state.Sound lib)
    (result : Except Str ServerOperation) :
    Sound lib ⟨(state.service.accept result).1, state.ledger⟩ := by
  apply sound.frame
  · rfl
  · rw [Accounted.entry, Service.accept_entry]
    exact ⟨rfl, rfl, rfl⟩

theorem Sound.next {state : Accounted Pv} (lawful : lib.StoresDeltas)
    (sound : state.Sound lib) (action : Action) :
    (state.next lib numbering action).Sound lib := by
  cases action with
  | «open» value => apply sound.open lawful value
  | post value => apply sound.post lawful value
  | close => apply Sound.close lawful
  | putValue value => apply sound.accept
  | putDeltaChecked allowsWrite denied desc changed delta =>
      apply sound.accept
  | done index reply =>
      apply sound.frame
      · rfl
      · exact ⟨rfl, rfl, rfl⟩
  | subscribe =>
      apply sound.getD
      intro entry registered
      apply PvEntry.register_stored registered
  | subscribeSeeded allowsRead queueSize =>
      apply sound.getD
      intro entry registered
      simp only [PvEntry.subscribeSeeded] at registered
      split at registered
      · apply PvEntry.register_stored registered
      · simp at registered
  | read sub =>
      apply sound.getD
      intro entry taken
      apply PvEntry.read_stored taken
  | depart sub =>
      apply sound.getD
      intro entry departed
      apply PvEntry.depart_stored departed

theorem sound_invariant (lawful : lib.StoresDeltas) :
    (system lib numbering).Invariant (Sound lib) where
  initial _ start := .closed start.ledger start.opened start.current
  preserved _ action _ sound step := step ▸ sound.next lawful action

/-- A quiet action leaves the entry as it is, subscribers included. -/
theorem Quiet.entry {state : Accounted Pv} {action : Action}
    (quiet : state.Quiet lib action) :
    (state.next lib numbering action).entry = state.entry := by
  cases action with
  | «open» value =>
      obtain ⟨error, refused⟩ := quiet
      have result : state.service.entry.open lib value.toRoot =
          .error error := refused
      simp [next, Accounted.entry, Service.step, Service.call, result]
  | post value =>
      cases result : state.service.entry.post lib value with
      | error error =>
          simp [next, Accounted.entry, Service.step, Service.call, result]
      | ok entry =>
          obtain ⟨-, outcome⟩ := PvEntry.post_cases result
          have bare : value.marks = ∅ := by
            rcases quiet with bare | ⟨error, refused⟩
            · exact bare
            · have refused : state.service.entry.post lib value =
                  .error error := refused
              simp [result] at refused
          rcases outcome with ⟨-, same⟩ | ⟨marked, -⟩
          · simp [next, Accounted.entry, Service.step, Service.call, result,
              same]
          · exact (marked bare).elim
  | putValue value => apply Service.accept_entry
  | putDeltaChecked allowsWrite denied desc changed delta =>
      apply Service.accept_entry
  | done index reply => rfl
  | close => exact quiet.elim
  | subscribe => exact quiet.elim
  | subscribeSeeded allowsRead queueSize => exact quiet.elim
  | read sub => exact quiet.elim
  | depart sub => exact quiet.elim

/-- A post of an open PV changes the leaves that it covers and no other. -/
theorem Sound.post_agreeOff {state : Accounted Pv}
    (lawful : lib.StoresDeltas) (sound : state.Sound lib) {value : Root}
    {posted : PvEntry Pv}
    (accepted : state.entry.post lib value = .ok posted)
    {before after : Root} (beforeEq : state.entry.current lib = some before)
    (afterEq : posted.current lib = some after) :
    value.desc = before.desc ∧ after.desc = before.desc ∧
      PvField.AgreeOff before.desc value.marks after.field before.field := by
  obtain ⟨opened, outcome⟩ := PvEntry.post_cases accepted
  cases sound with
  | closed _ notOpened _ => simp [notOpened] at opened
  | @opened ledger root ledgerEq holds describes =>
      obtain rfl : root = before := by
        have current := holds.2
        rw [beforeEq] at current
        simpa using current.symm
      have rootOpened := ((PvEntry.holds_iff root).mp holds).2.1
      have sameDesc : value.desc = root.desc := by
        rw [rootOpened] at opened
        simpa using opened.symm
      refine ⟨sameDesc, ?_⟩
      by_cases bare : value.marks = ∅
      · rcases outcome with ⟨-, rfl⟩ | ⟨marked, -⟩
        · rw [beforeEq] at afterEq
          obtain rfl : root = after := by simpa using afterEq
          exact ⟨rfl, .refl _ _ _⟩
        · exact (marked bare).elim
      · obtain ⟨field, nextHolds, copies⟩ :=
          holds.post lawful describes.fits accepted bare
        have current := nextHolds.2
        rw [afterEq] at current
        obtain rfl : after = _ := by simpa using current
        exact ⟨rfl, copies.other⟩

/-- What is served is the fold of the accepted posts.  Refused and unmarked
posts and client PUTs change nothing.  A handler that posts the value of its
operation changes only the leaves that the client marked, and wrapping that
value again adds no more than the time stamp. -/
theorem served_value_is_fold (lawful : lib.StoresDeltas)
    (numberingLawful : numbering.Lawful) {state : Accounted Pv}
    (reachable : (system lib numbering).Reachable state) :
    Ledger.Serves state.ledger (state.entry.current lib) ∧
    (∀ action, state.Quiet lib action →
      (state.next lib numbering action).entry = state.entry) ∧
    ∀ allowsWrite denied desc changed delta op,
      state.entry.putDeltaChecked lib allowsWrite denied desc changed delta =
        .ok op →
      ∀ labels later, (system lib numbering).Run state labels later →
        ∀ before, later.entry.current lib = some before →
          (∀ posted after,
            later.entry.post lib op.toRoot = .ok posted →
            posted.current lib = some after →
              PvField.AgreeOff before.desc changed after.field
                before.field) ∧
          ∀ (Obj : Type) (conversions : Conversions Obj) viaFloat stampDict
            wrapped posted after,
            PvField.Fits op.desc op.value →
            Nt.wrapAugmented numbering conversions viaFloat stampDict
              op.toRoot = .ok wrapped →
            later.entry.post lib wrapped = .ok posted →
            posted.current lib = some after →
              ∀ path, before.desc.IsLeaf path →
                ¬before.desc.Covered 0 changed path →
                ¬["timeStamp".toList] <+: path →
                  after.field.atPath? path = before.field.atPath? path := by
  have sound := (sound_invariant lawful).reachable reachable
  refine ⟨sound.serves, fun action quiet => quiet.entry, ?_⟩
  intro allowsWrite denied desc changed delta op created labels later run
    before beforeEq
  have laterSound := (sound_invariant lawful).reachable (reachable.run run)
  have marksEq : op.marks = changed := by
    simp only [PvEntry.putDeltaChecked] at created
    split at created
    · split at created
      · simp at created
      · simp only [Except.ok.injEq] at created
        rw [← created]
    · simp at created
  constructor
  · intro posted after accepted afterEq
    obtain ⟨-, -, agree⟩ :=
      laterSound.post_agreeOff lawful accepted beforeEq afterEq
    rw [← marksEq]
    exact agree
  · intro Obj conversions viaFloat stampDict wrapped posted after fits
      wrappedEq accepted afterEq path leaf notMarked notStamp
    obtain ⟨sameDesc, -, agree⟩ :=
      laterSound.post_agreeOff lawful accepted beforeEq afterEq
    have bare : ¬before.desc.Covered 0 wrapped.marks path := by
      intro covered
      rw [← sameDesc] at covered notMarked
      obtain ⟨rawDesc, below⟩ := Nt.covered_wrapAugmented conversions
        viaFloat stampDict numberingLawful fits wrappedEq
      rcases below path covered with old | new
      · rw [← rawDesc] at old
        apply notMarked
        rw [← marksEq]
        exact old
      · exact notStamp new
    apply agree path leaf bare

end Accounted

end Runs

section Example

/-- Integers and dicts of integers. -/
def stampObjects : Conversions (List (Str × Int) ⊕ Int) where
  entries
    | .inl items => .ok (items.map fun (key, value) => (.ok key, .inr value))
    | .inr _ => .error
        (.conversion "a structure takes a dict or Value, not int".toList)
  convert
    | .scalar .long, .inr value =>
        .ok (.scalar (.long (Int64.ofInt value)))
    | .scalar .int, .inr value => .ok (.scalar (.int (Int32.ofInt value)))
    | _, _ => .error (.conversion "must be real number, not dict".toList)
  defaultValueFor _ := .null

def ntDouble : FieldDesc :=
  Nt.scalarType (.scalar .double) []

/-- A value of type `ntDouble` at a whole second. -/
def ntDoubleAt (bits : UInt64) (seconds : Int64) : PvField :=
  .struct "epics:nt/NTScalar:1.0".toList
    [("value".toList, .scalar (.double bits)),
      ("alarm".toList, .struct "alarm_t".toList
        [("severity".toList, .scalar (.int 0)),
          ("status".toList, .scalar (.int 0)),
          ("message".toList, .scalar (.string []))]),
      ("timeStamp".toList, .struct "time_t".toList
        [("secondsPastEpoch".toList, .scalar (.long seconds)),
          ("nanoseconds".toList, .scalar (.int 0)),
          ("userTag".toList, .scalar (.int 0))])]

/-- A new PV that was opened and had its seconds posted. -/
def stampedRun : List Action :=
  [.open ⟨⟨ntDouble, ntDoubleAt 0 0, {0}⟩, by decide⟩,
    .putDeltaChecked true [] ntDouble {1} (ntDoubleAt 1 0),
    .post ⟨ntDouble, ntDoubleAt 0 5, {7}⟩]

def newPv : Accounted (Option (FieldDesc × PvField)) :=
  ⟨⟨⟨none, [], ∅, none, []⟩, []⟩, none⟩

def stamped : Accounted (Option (FieldDesc × PvField)) :=
  stampedRun.foldl (Accounted.next .inMemory .depthFirst) newPv

theorem stamped_reachable :
    (Accounted.system .inMemory .depthFirst).Reachable stamped :=
  ⟨newPv, stampedRun, ⟨rfl, rfl, rfl⟩, .of_foldl (fun _ _ => rfl) _ _⟩

theorem served_value_is_fold_stamped :
    Ledger.Serves stamped.ledger (stamped.entry.current .inMemory) :=
  (Accounted.served_value_is_fold Library.inMemory_storesDeltas
    PvData.depthFirst_lawful stamped_reachable).1

/-- The client marks the payload only.  The value of its operation, wrapped
again and posted after the seconds were, takes the seconds back. -/
theorem reposted_value_takes_stamp_back :
    ∃ op wrapped posted before after,
      stamped.service.operations = [op] ∧ op.marks = {1} ∧
      Nt.wrapAugmented .depthFirst stampObjects id
        (fun stamp => .inl [("secondsPastEpoch".toList, stamp.seconds),
          ("nanoseconds".toList, stamp.nanoseconds)]) op.toRoot =
        .ok wrapped ∧
      stamped.entry.post .inMemory wrapped = .ok posted ∧
      stamped.entry.current .inMemory = some before ∧
      posted.current .inMemory = some after ∧
      ¬ntDouble.Covered 0 {1}
        ["timeStamp".toList, "secondsPastEpoch".toList] ∧
      before.field.atPath? ["timeStamp".toList,
        "secondsPastEpoch".toList] = some (.scalar (.long 5)) ∧
      after.field.atPath? ["timeStamp".toList,
        "secondsPastEpoch".toList] = some (.scalar (.long 0)) :=
  ⟨_, _, _, _, _, rfl, rfl, rfl, rfl, rfl, rfl, by decide, rfl, rfl⟩

end Example

end Repics.Pva.Server
