import Repics.Pva.Hub.Decoder
import Repics.Pva.Server.Versions

/-!
# A monitor from the server to its consumer

A link joins a served PV with one client: the ring that the server fills for
it, the frames between the two, and the decoder and queue of the client.
Posts, other clients, lost connections and `recv_batch` come in any order.  A
client that connects again is a new subscriber, but its decoder and its queue
stay, and so does the copy of the consumer.
-/

namespace Repics.Pva

open Hub Server

/-- What `epics_pva_rs` puts on the wire for a value and its change set, and
how it reads that. -/
structure Wire where
  codec : Codec
  encode : FieldDesc → PvField → BitSet → ByteOrder → List UInt8

namespace Wire

/-- The delta tells what the snapshot marks. -/
structure Tells (desc : FieldDesc) (delta sent : Snapshot) : Prop where
  fits : PvField.Fits desc delta.value
  covered : ∀ path, desc.IsLeaf path →
    (desc.Covered 0 delta.changed path ↔ desc.Covered 0 sent.changed path)
  same : ∀ path, desc.IsLeaf path → desc.Covered 0 sent.changed path →
    delta.value.atPath? path = sent.value.atPath? path

/-- A frame of a value of the type is read back as far as it is marked. -/
structure Carries (wire : Wire) (desc : FieldDesc) : Prop where
  codec : wire.codec.Lawful
  read : ∀ value changed order, HasType desc value →
    ∃ delta, (Input.frame desc (wire.encode desc value changed order)
        order).delta? wire.codec = some delta ∧
      Tells desc delta ⟨value, changed⟩

namespace Tells

variable {desc : FieldDesc} {delta sent : Snapshot}

theorem apply_eq (tells : Tells desc delta sent) (wellNamed : desc.WellNamed)
    (sentFits : PvField.Fits desc sent.value) {copy : PvField}
    (copyFits : PvField.Fits desc copy) :
    Snapshot.apply desc copy delta = Snapshot.apply desc copy sent := by
  have copies := PvField.copyMarked_copies tells.fits copyFits delta.changed
  have told : PvField.Copies desc sent.changed sent.value copy
      (Snapshot.apply desc copy delta) := by
    constructor
    case fits => exact copies.fits
    case covered =>
      intro path leaf covered
      rw [← tells.same path leaf covered]
      apply copies.covered path leaf
      exact (tells.covered path leaf).mpr covered
    case other =>
      intro path leaf bare
      apply copies.other path leaf
      intro covered
      exact bare ((tells.covered path leaf).mp covered)
  apply told.eq_copyMarked wellNamed sentFits copyFits

theorem completed_eq {deltas sents : List Snapshot}
    (tells : List.Forall₂ (Tells desc) deltas sents)
    (wellNamed : desc.WellNamed)
    (sentFits : ∀ sent ∈ sents, PvField.Fits desc sent.value)
    {copy : PvField} (copyFits : PvField.Fits desc copy) :
    (Snapshot.completed desc copy deltas).map Snapshot.value =
      (Snapshot.completed desc copy sents).map Snapshot.value := by
  induction tells generalizing copy with
  | nil => rfl
  | @cons delta sent deltas sents first _ induction =>
      have fits := sentFits sent (by simp)
      have same := first.apply_eq wellNamed fits copyFits
      simp only [Snapshot.completed, List.map_cons, same]
      congr 1
      apply induction
      · intro other member
        apply sentFits other
        simp [member]
      · apply Snapshot.apply_fits fits copyFits

end Tells

end Wire

structure Frame where
  body : List UInt8
  order : ByteOrder

/-- `sub` is the client's subscriber, none while it is not connected, and
`flight` are the frames that have been sent and not received, oldest first. -/
structure Link (Pv : Type) where
  server : Monitored Pv
  sub : Option Nat
  flight : List Frame
  session : Session

/-- `serve` is a step of the server that is not for this client. -/
inductive LinkStep where
  | serve (step : Server.Step)
  | connect (queueSize : Nat) (order : ByteOrder)
  | send (order : ByteOrder)
  | receive
  | lose
  | event (event : MonitorConnEvent)
  | take

namespace Link

/-- The update that the ring of a subscriber hands out next. -/
def next? {Pv : Type} (server : Monitored Pv) (sub : Nat) :
    Option MonitorUpdate :=
  match server.entry.clients[sub]? with
  | some ⟨_, .marked ring, _⟩ => ring.held.head?
  | _ => none

section Steps

variable {Pv : Type} (lib : Library Pv) (numbering : PvData) (wire : Wire)
variable (desc : FieldDesc)

def frame (snapshot : Snapshot) (order : ByteOrder) : Frame :=
  ⟨wire.encode desc snapshot.value snapshot.changed order, order⟩

def advance (link : Link Pv) : LinkStep → Option (Link Pv)
  | .serve step =>
      if link.sub.any (Step.touches · step) then none
      else
        (link.server.advance lib step).map fun server =>
          { link with server := server }
  | .connect queueSize order =>
      match link.sub with
      | some _ => none
      | none =>
          let sub := link.server.entry.clients.length
          (link.server.advance lib (.subscribeSeeded true queueSize)).bind
            fun server =>
              (server.entry.clients[sub]?).map fun client => { link with
                server := server
                sub := some sub
                flight := [frame wire desc ⟨client.seed, {0}⟩ order] }
  | .send order =>
      link.sub.bind fun sub =>
        (next? link.server sub).bind fun update =>
          (link.server.advance lib (.read sub)).map fun server => { link with
            server := server
            flight := link.flight ++
              [frame wire desc (update.snapshot numbering desc) order] }
  | .receive =>
      match link.flight with
      | [] => none
      | frame :: flight => some { link with
          flight := flight
          session := link.session.step wire.codec
            (.frame desc frame.body frame.order) }
  | .lose => link.sub.map fun _ => { link with sub := none, flight := [] }
  | .event event => some { link with
      session := link.session.step wire.codec (.event event) }
  | .take => some { link with
      session := link.session.step wire.codec .take }

/-- The PV has just been opened, and the monitor of the client too. -/
structure Begun (link : Link Pv) : Prop where
  opened : Monitored.Opened lib desc link.server
  typed : HasType desc link.server.start
  sub : link.sub = none
  flight : link.flight = []
  session : ∃ limit, link.session = .opened limit

/-- What is posted is a value of its type. -/
def Typed : LinkStep → Prop
  | .serve (.store value) => HasType value.desc value.field
  | _ => True

def system : Transition (Link Pv) LinkStep :=
  (Transition.ofPartial (Begun lib desc)
    (advance lib numbering wire desc)).restrict fun _ => Typed

end Steps

end Link

theorem Server.Monitored.Ringed.consume_front {Pv : Type}
    {numbering : PvData} {desc : FieldDesc} {server : Monitored Pv}
    {sub : Nat} {seed : PvField} {ring : Server.Ring MonitorUpdate}
    (ringed : Monitored.Ringed numbering desc server sub seed ring)
    (typed : ∀ count, HasType desc (server.valueAt count))
    (wellNamed : desc.WellNamed) {copy : PvField}
    (copyFits : PvField.Fits desc copy) {front : List Snapshot}
    (isPrefix : front <+:
      Monitored.Ringed.sent numbering desc seed ring.contents) :
    Snapshot.consume desc copy front = Snapshot.latest copy front := by
  cases front with
  | nil => rfl
  | cons first rest =>
      obtain ⟨rfl, restPrefix⟩ := List.cons_prefix_cons.mp isPrefix
      obtain ⟨offered, linked, squashed, -⟩ := ringed.linked
      have seedFits : PvField.Fits desc seed := by
        rw [ringed.start]
        exact (typed _).fits
      have whole : Snapshot.apply desc copy ⟨seed, {0}⟩ = seed :=
        Session.apply_whole wellNamed seedFits copyFits
          (Session.whole_of_root desc (by simp))
      rw [Snapshot.consume_cons, whole,
        linked.consume_prefix seedFits wellNamed squashed restPrefix]
      change _ = Snapshot.latest copy ([⟨seed, {0}⟩] ++ rest)
      rw [Snapshot.latest_append]
      rfl

namespace Link

variable {Pv : Type} {lib : Library Pv} {numbering : PvData} {wire : Wire}
variable {desc : FieldDesc} {copy : PvField}

/-- The values of the deltas that have been decoded, each completed. -/
def shown (desc : FieldDesc) (copy : PvField) (deltas : List Snapshot) :
    List PvField :=
  (Snapshot.completed desc copy deltas).map Snapshot.value

/-- What a connected client has received and what is on the way to it. -/
structure Joined (numbering : PvData) (wire : Wire) (desc : FieldDesc)
    (copy : PvField) (link : Link Pv) (past fresh : List Snapshot)
    (sub : Nat) (seed : PvField) (ring : Server.Ring MonitorUpdate)
    (received coming : List Snapshot) : Prop where
  isSub : link.sub = some sub
  found : link.server.entry.clients[sub]? =
    some ⟨seed, .marked ring, false⟩
  sent : Monitored.Ringed.sent numbering desc seed ring.taken =
    received ++ coming
  told : List.Forall₂ (Wire.Tells desc) fresh received
  flight : List.Forall₂
    (fun one snapshot => ∃ order, one = frame wire desc snapshot order)
    link.flight coming
  past : link.server.Showed (link.server.since sub) (shown desc copy past)

/-- The deltas of earlier connections, and those of the present one. -/
inductive Tracked (numbering : PvData) (wire : Wire) (desc : FieldDesc)
    (copy : PvField) (link : Link Pv) (past : List Snapshot) :
    List Snapshot → Prop where
  | apart :
      link.sub = none →
      link.flight = [] →
      link.server.Showed link.server.updates.length
        (shown desc copy past) →
      Tracked numbering wire desc copy link past []
  | joined {fresh : List Snapshot} {sub : Nat} {seed : PvField}
      {ring : Server.Ring MonitorUpdate} {received coming : List Snapshot} :
      Joined numbering wire desc copy link past fresh sub seed ring received
        coming →
      Tracked numbering wire desc copy link past fresh

structure Sound (lib : Library Pv) (numbering : PvData) (wire : Wire)
    (desc : FieldDesc) (copy : PvField) (link : Link Pv) : Prop where
  server : link.server.Sound lib numbering desc
  typed : ∀ count, HasType desc (link.server.valueAt count)
  decoded : ∃ past fresh,
    Tracked numbering wire desc copy link past fresh ∧
    Session.UpToDate desc copy (past ++ fresh) link.session ∧
    ∀ delta ∈ past ++ fresh, PvField.Fits desc delta.value

namespace Joined

variable {link : Link Pv} {past fresh : List Snapshot} {sub : Nat}
variable {seed : PvField} {ring : Server.Ring MonitorUpdate}
variable {received coming : List Snapshot}

theorem ringed (joined : Joined numbering wire desc copy link past fresh sub
      seed ring received coming)
    (sound : link.server.Sound lib numbering desc) :
    Monitored.Ringed numbering desc link.server sub seed ring :=
  sound.ringed joined.found

/-- What has been received is a front of all that the ring was given. -/
theorem received_prefix (joined : Joined numbering wire desc copy link past
      fresh sub seed ring received coming) :
    received <+: Monitored.Ringed.sent numbering desc seed ring.contents := by
  have front : received <+:
      Monitored.Ringed.sent numbering desc seed ring.taken := by
    rw [joined.sent]
    apply List.prefix_append
  apply front.trans
  rw [Monitored.Ringed.sent, Monitored.Ringed.sent, List.cons_prefix_cons]
  refine ⟨rfl, ?_⟩
  rw [Server.Ring.contents, List.map_append]
  apply List.prefix_append

theorem fresh_shown (joined : Joined numbering wire desc copy link past fresh
      sub seed ring received coming)
    (sound : link.server.Sound lib numbering desc)
    (typed : ∀ count, HasType desc (link.server.valueAt count))
    (wellNamed : desc.WellNamed) {held : PvField}
    (heldFits : PvField.Fits desc held) :
    shown desc held fresh = received.map Snapshot.value := by
  have ringed := joined.ringed sound
  have isPrefix := joined.received_prefix
  have fits : ∀ item ∈ received, PvField.Fits desc item.value := by
    intro item member
    exact (ringed.typed typed item (isPrefix.subset member)).fits
  rw [shown, Wire.Tells.completed_eq joined.told wellNamed fits heldFits]
  apply Snapshot.completed_values
  intro front frontPrefix
  exact ringed.consume_front typed wellNamed heldFits
    (frontPrefix.trans isPrefix)

/-- Together with what was shown before, these are values of the PV in their
order. -/
theorem showed (joined : Joined numbering wire desc copy link past fresh sub
      seed ring received coming)
    (sound : link.server.Sound lib numbering desc)
    (typed : ∀ count, HasType desc (link.server.valueAt count))
    (wellNamed : desc.WellNamed) (copyFits : PvField.Fits desc copy)
    (fits : ∀ delta ∈ past, PvField.Fits desc delta.value) :
    link.server.Showed link.server.updates.length
      (shown desc copy (past ++ fresh)) := by
  have ringed := joined.ringed sound
  obtain ⟨versions, sorted, between, values⟩ := ringed.all_versions
  have all := joined.past.append sorted between ringed.earlier values
  apply all.sublist
  rw [shown, Snapshot.completed_append, List.map_append]
  apply List.Sublist.append_left
  have fresh := joined.fresh_shown sound typed wellNamed
    (Snapshot.consume_fits copyFits fits)
  rw [shown] at fresh
  rw [fresh]
  apply List.Sublist.map
  apply joined.received_prefix.sublist

end Joined

namespace Sound

variable {link next : Link Pv}

theorem begun (start : Begun lib desc link) :
    Sound lib numbering wire desc copy link := by
  have opened := start.opened
  obtain ⟨limit, session⟩ := start.session
  constructor
  case server => exact Monitored.Sound.opened opened
  case typed =>
    intro count
    simp only [Monitored.valueAt, opened.updates, List.take_nil,
      List.getLast?_nil, Option.map_none, Option.getD_none]
    exact start.typed
  case decoded =>
    refine ⟨[], [], ?_, ?_, by simp⟩
    · apply Tracked.apart start.sub start.flight
      apply Monitored.Showed.nil
    · rw [session]
      apply Session.UpToDate.opened

theorem serve (lawful : lib.StoresDeltas) (folds : lib.FoldsTails numbering)
    (wellNamed : desc.WellNamed)
    (sound : Sound lib numbering wire desc copy link) {step : Server.Step}
    {server : Monitored Pv}
    (advanced : link.server.advance lib step = some server)
    (apart : ∀ sub, link.sub = some sub → Step.touches sub step = false)
    (posts : ∀ value, step = .store value →
      HasType value.desc value.field) :
    Sound lib numbering wire desc copy { link with server := server } := by
  obtain ⟨past, fresh, tracked, upToDate, fits⟩ := sound.decoded
  obtain ⟨start, grows⟩ := Monitored.advance_grows advanced
  constructor
  case server =>
    apply (Monitored.Sound.invariant lawful folds wellNamed).preserved
      link.server step _ sound.server advanced
  case typed =>
    apply sound.server.advance_typed lawful wellNamed sound.typed advanced
      posts
  case decoded =>
    refine ⟨past, fresh, ?_, upToDate, fits⟩
    cases tracked with
    | apart isSub flight showed =>
        refine .apart isSub flight ?_
        apply showed.grow start grows (Nat.le_refl _) grows.length_le
    | joined joined =>
        obtain ⟨since, later, found, taken⟩ := Monitored.advance_ring
          advanced joined.found (apart _ joined.isSub)
        apply Tracked.joined
        constructor
        case isSub => exact joined.isSub
        case found => exact found
        case sent =>
          rw [taken]
          exact joined.sent
        case told => exact joined.told
        case flight => exact joined.flight
        case past =>
          apply joined.past.grow start grows
            (joined.ringed sound.server).earlier
          rw [since]

theorem connect (lawful : lib.StoresDeltas)
    (folds : lib.FoldsTails numbering) (wellNamed : desc.WellNamed)
    (sound : Sound lib numbering wire desc copy link) {queueSize : Nat}
    {order : ByteOrder} (isSub : link.sub = none)
    {server : Monitored Pv} {client : Client}
    (advanced : link.server.advance lib (.subscribeSeeded true queueSize) =
      some server)
    (found : server.entry.clients[link.server.entry.clients.length]? =
      some client) :
    Sound lib numbering wire desc copy { link with
      server := server
      sub := some link.server.entry.clients.length
      flight := [frame wire desc ⟨client.seed, {0}⟩ order] } := by
  have served := sound.serve lawful folds wellNamed advanced
    (by simp [isSub]) (by simp)
  constructor
  case server => exact served.server
  case typed => exact served.typed
  case decoded =>
    obtain ⟨past, fresh, tracked, upToDate, fits⟩ := served.decoded
    refine ⟨past, fresh, ?_, upToDate, fits⟩
    cases tracked with
    | joined joined =>
        have other : link.sub = some _ := joined.isSub
        simp [isSub] at other
    | apart _ _ showed =>
        have updates := (Monitored.advance_values advanced (by simp)).2
        simp only [Monitored.advance, PvEntry.subscribeSeeded, if_true]
          at advanced
        obtain ⟨initial, -, clients, since⟩ :=
          Monitored.registered_cases advanced
        simp only [clients, List.getElem?_concat_length, Option.some.injEq]
          at found
        subst found
        refine .joined (?_ : Joined _ _ _ _ _ _ _
          link.server.entry.clients.length initial ⟨max queueSize 1, [], []⟩
          [] [⟨initial, {0}⟩])
        constructor
        case isSub => exact rfl
        case found => rw [clients, List.getElem?_concat_length]
        case sent => exact rfl
        case told => exact .nil
        case flight => exact .cons ⟨order, rfl⟩ .nil
        case past =>
          rw [since, Function.update_self, ← updates]
          exact showed

theorem send (lawful : lib.StoresDeltas) (folds : lib.FoldsTails numbering)
    (wellNamed : desc.WellNamed)
    (sound : Sound lib numbering wire desc copy link) {sub : Nat}
    (isSub : link.sub = some sub) {update : MonitorUpdate}
    (nextUpdate : next? link.server sub = some update)
    {server : Monitored Pv}
    (advanced : link.server.advance lib (.read sub) = some server)
    (order : ByteOrder) :
    Sound lib numbering wire desc copy { link with
      server := server
      flight := link.flight ++
        [frame wire desc (update.snapshot numbering desc) order] } := by
  obtain ⟨past, fresh, tracked, upToDate, fits⟩ := sound.decoded
  obtain ⟨start, updates⟩ := Monitored.advance_values advanced (by simp)
  constructor
  case server =>
    apply (Monitored.Sound.invariant lawful folds wellNamed).preserved
      link.server (.read sub) _ sound.server advanced
  case typed =>
    apply sound.server.advance_typed lawful wellNamed sound.typed advanced
      (by simp)
  case decoded =>
    refine ⟨past, fresh, ?_, upToDate, fits⟩
    cases tracked with
    | apart none _ _ => simp [none] at isSub
    | @joined _ other seed ring received coming joined =>
        obtain rfl : sub = other := by
          simpa [isSub] using joined.isSub
        have found := joined.found
        obtain ⟨limit, held, taken⟩ := ring
        simp only [next?, found] at nextUpdate
        obtain ⟨rest, rfl⟩ : ∃ rest, held = update :: rest := by
          cases held with
          | nil => simp at nextUpdate
          | cons first rest =>
              simp only [List.head?_cons, Option.some.injEq] at nextUpdate
              exact ⟨rest, by rw [nextUpdate]⟩
        obtain ⟨entry, read, rfl⟩ := Option.map_eq_some_iff.mp advanced
        simp only [PvEntry.read, found, Bool.false_eq_true, if_false,
          Server.Subscriber.read, Option.map_some, Option.some.injEq] at read
        have old : sub < link.server.entry.clients.length :=
          (List.getElem?_eq_some_iff.mp found).1
        refine .joined (?_ : Joined _ _ _ _ _ _ _ sub seed
          ⟨limit, rest, taken ++ [update]⟩ received
          (coming ++ [update.snapshot numbering desc]))
        constructor
        case isSub => exact isSub
        case found => simp only [← read, List.getElem?_set_self old]
        case sent =>
          have sent := joined.sent
          simp only [Monitored.Ringed.sent_snoc] at sent ⊢
          rw [sent, List.append_assoc]
        case told => exact joined.told
        case flight =>
          apply List.rel_append joined.flight
          exact .cons ⟨order, rfl⟩ .nil
        case past => exact joined.past

theorem receive (carries : wire.Carries desc) (wellNamed : desc.WellNamed)
    (copyFits : PvField.Fits desc copy)
    (sound : Sound lib numbering wire desc copy link) {one : Frame}
    {flight : List Frame} (inFlight : link.flight = one :: flight) :
    Sound lib numbering wire desc copy { link with
      flight := flight
      session := link.session.step wire.codec
        (.frame desc one.body one.order) } := by
  obtain ⟨past, fresh, tracked, upToDate, fits⟩ := sound.decoded
  refine ⟨sound.server, sound.typed, ?_⟩
  cases tracked with
  | apart _ empty _ => simp [inFlight] at empty
  | @joined _ sub seed ring received coming joined =>
      have flightEq := joined.flight
      rw [inFlight] at flightEq
      cases flightEq with
      | @cons _ snapshot _ coming first rest =>
          obtain ⟨order, rfl⟩ := first
          have inside : snapshot ∈ Monitored.Ringed.sent numbering desc seed
              ring.taken := by
            rw [joined.sent]
            simp
          have typed : HasType desc snapshot.value := by
            apply (joined.ringed sound.server).typed sound.typed
            revert inside
            simp only [Monitored.Ringed.sent, Server.Ring.contents,
              List.map_append, List.mem_cons, List.mem_append]
            tauto
          obtain ⟨delta, deltaEq, tells⟩ := carries.read snapshot.value
            snapshot.changed order typed
          refine ⟨past, fresh ++ [delta], ?_, ?_, ?_⟩
          · refine .joined (?_ : Joined _ _ _ _ _ _ _ sub seed ring
              (received ++ [snapshot]) coming)
            constructor
            case isSub => exact joined.isSub
            case found => exact joined.found
            case sent => rw [joined.sent, List.append_assoc]; rfl
            case told => exact List.rel_append joined.told (.cons tells .nil)
            case flight => exact rest
            case past => exact joined.past
          · have step := upToDate.frame carries.codec wellNamed copyFits fits
              (wire.encode desc snapshot.value snapshot.changed order) order
              (by
                intro empty other otherEq
                obtain ⟨-, none⟩ := List.append_eq_nil_iff.mp empty
                have told := joined.told
                rw [none] at told
                cases told
                have sent := joined.sent
                simp only [Monitored.Ringed.sent, List.nil_append,
                  List.cons.injEq] at sent
                rw [deltaEq, Option.some.injEq] at otherEq
                rw [← otherEq]
                intro path leaf
                rw [tells.covered path leaf, ← sent.1]
                apply Session.whole_of_root desc _ path leaf
                simp)
            rw [deltaEq] at step
            rw [← List.append_assoc]
            exact step
          · intro other member
            rw [← List.append_assoc, List.mem_append] at member
            rcases member with old | new
            · exact fits other old
            · obtain rfl := List.mem_singleton.mp new
              exact tells.fits

/-- The deltas of a lost connection are those of an earlier one. -/
theorem lose (wellNamed : desc.WellNamed)
    (copyFits : PvField.Fits desc copy)
    (sound : Sound lib numbering wire desc copy link) :
    Sound lib numbering wire desc copy
      { link with sub := none, flight := [] } := by
  obtain ⟨past, fresh, tracked, upToDate, fits⟩ := sound.decoded
  refine ⟨sound.server, sound.typed, past ++ fresh, [], ?_, ?_, ?_⟩
  · refine .apart rfl rfl ?_
    cases tracked with
    | apart _ _ showed =>
        rw [List.append_nil]
        exact showed
    | joined joined =>
        apply joined.showed sound.server sound.typed wellNamed copyFits
        intro delta member
        exact fits delta (List.mem_append_left _ member)
  · rw [List.append_nil]
    exact upToDate
  · rw [List.append_nil]
    exact fits

theorem withSession (sound : Sound lib numbering wire desc copy link)
    {session : Session}
    (keeps : ∀ deltas, Session.UpToDate desc copy deltas link.session →
      Session.UpToDate desc copy deltas session) :
    Sound lib numbering wire desc copy { link with session := session } := by
  obtain ⟨past, fresh, tracked, upToDate, fits⟩ := sound.decoded
  refine ⟨sound.server, sound.typed, past, fresh, ?_, keeps _ upToDate,
    fits⟩
  cases tracked with
  | apart isSub flight showed => exact .apart isSub flight showed
  | joined joined =>
      exact .joined ⟨joined.isSub, joined.found, joined.sent, joined.told,
        joined.flight, joined.past⟩

theorem invariant (lawful : lib.StoresDeltas)
    (folds : lib.FoldsTails numbering) (carries : wire.Carries desc)
    (wellNamed : desc.WellNamed) (copyFits : PvField.Fits desc copy) :
    (system lib numbering wire desc).Invariant
      (Sound lib numbering wire desc copy) where
  initial _ start := begun start
  preserved link label next sound step := by
    obtain ⟨advanced, typed⟩ := step
    simp only [Transition.ofPartial] at advanced
    cases label with
    | serve step =>
        simp only [advance] at advanced
        split at advanced
        · simp at advanced
        · case isFalse other =>
            obtain ⟨server, served, rfl⟩ := Option.map_eq_some_iff.mp advanced
            apply sound.serve lawful folds wellNamed served
            · intro sub isSub
              simpa [isSub] using other
            · intro value eq
              subst eq
              exact typed
    | connect queueSize order =>
        simp only [advance] at advanced
        split at advanced
        · simp at advanced
        · case h_2 isSub =>
            obtain ⟨server, served, rest⟩ :=
              Option.bind_eq_some_iff.mp advanced
            obtain ⟨client, found, rfl⟩ := Option.map_eq_some_iff.mp rest
            apply sound.connect lawful folds wellNamed isSub served found
    | send order =>
        obtain ⟨sub, isSub, rest⟩ := Option.bind_eq_some_iff.mp advanced
        obtain ⟨update, found, rest⟩ := Option.bind_eq_some_iff.mp rest
        obtain ⟨server, served, rfl⟩ := Option.map_eq_some_iff.mp rest
        apply sound.send lawful folds wellNamed isSub found served
    | receive =>
        simp only [advance] at advanced
        split at advanced
        · simp at advanced
        · case h_2 one flight inFlight =>
            simp only [Option.some.injEq] at advanced
            subst advanced
            apply sound.receive carries wellNamed copyFits inFlight
    | lose =>
        obtain ⟨sub, -, rfl⟩ := Option.map_eq_some_iff.mp advanced
        apply sound.lose wellNamed copyFits
    | event event =>
        simp only [advance, Option.some.injEq] at advanced
        subst advanced
        apply sound.withSession
        intro deltas upToDate
        apply upToDate.event
    | take =>
        simp only [advance, Option.some.injEq] at advanced
        subst advanced
        apply sound.withSession
        intro deltas upToDate
        apply upToDate.take

end Sound

/-- The client is connected and nothing is left for it on the way. -/
structure Drained (link : Link Pv) : Prop where
  connected : ∃ sub, link.sub = some sub ∧ sub ∉ link.server.pending ∧
    next? link.server sub = none
  flight : link.flight = []
  queue : link.session.queue.items = []

namespace Sound

variable {link : Link Pv}

/-- What is left of the deltas after squashing is shown in order. -/
theorem shows (sound : Sound lib numbering wire desc copy link)
    (wellNamed : desc.WellNamed) (copyFits : PvField.Fits desc copy) :
    link.server.Showed link.server.updates.length
      (link.session.delivered.map Snapshot.value) := by
  obtain ⟨past, fresh, tracked, upToDate, fits⟩ := sound.decoded
  have all : link.server.Showed link.server.updates.length
      (shown desc copy (past ++ fresh)) := by
    cases tracked with
    | apart _ _ showed =>
        rw [List.append_nil]
        exact showed
    | joined joined =>
        apply joined.showed sound.server sound.typed wellNamed copyFits
        intro delta member
        exact fits delta (List.mem_append_left _ member)
  apply all.sublist
  have kept := upToDate.snapshots.sublist_map Snapshot.value (by
    intro tail item merged mergedEq
    simp only [Snapshot.squash, Option.some.injEq] at mergedEq
    rw [← mergedEq])
  rw [List.map_append] at kept
  apply (List.sublist_append_left _ _).trans kept

theorem consumes (sound : Sound lib numbering wire desc copy link)
    (wellNamed : desc.WellNamed) (copyFits : PvField.Fits desc copy)
    {front : List Snapshot} {pair : Snapshot}
    (isPrefix : front ++ [pair] <+: link.session.delivered) :
    Snapshot.consume desc copy (front ++ [pair]) = pair.value := by
  obtain ⟨past, fresh, -, upToDate, fits⟩ := sound.decoded
  have linked := Snapshot.Linked.of_completed copyFits fits
  rw [linked.consume_prefix copyFits wellNamed upToDate.snapshots
    (isPrefix.trans (List.prefix_append _ _)), Snapshot.latest_snoc]

/-- With nothing left on the way the consumer holds the last value. -/
theorem catches_up (sound : Sound lib numbering wire desc copy link)
    (wellNamed : desc.WellNamed) (copyFits : PvField.Fits desc copy)
    (drained : link.Drained) :
    Snapshot.consume desc copy link.session.delivered =
      link.server.valueAt link.server.updates.length := by
  obtain ⟨past, fresh, tracked, upToDate, fits⟩ := sound.decoded
  obtain ⟨sub, isSub, idle, empty⟩ := drained.connected
  cases tracked with
  | apart none _ _ => simp [none] at isSub
  | @joined _ other seed ring received coming joined =>
      obtain rfl : sub = other := by
        simpa [isSub] using joined.isSub
      have heldEmpty : ring.held = [] := by
        simpa [next?, joined.found] using empty
      have noneComing : coming = [] := by
        have flight := joined.flight
        rw [drained.flight] at flight
        cases flight
        rfl
      have all : received =
          Monitored.Ringed.sent numbering desc seed ring.contents := by
        have sent := joined.sent
        rw [noneComing, List.append_nil] at sent
        rw [← sent, Server.Ring.contents, heldEmpty, List.append_nil]
      have heldFits : PvField.Fits desc (Snapshot.consume desc copy past) :=
        by
          apply Snapshot.consume_fits copyFits
          intro delta member
          exact fits delta (List.mem_append_left _ member)
      have values := joined.fresh_shown sound.server sound.typed wellNamed
        heldFits
      have linked := Snapshot.Linked.of_completed copyFits fits
      have squashed := upToDate.snapshots
      rw [drained.queue, List.filterMap_nil, List.append_nil] at squashed
      calc Snapshot.consume desc copy link.session.delivered
          = Snapshot.consume desc copy (past ++ fresh) := by
            rw [linked.consume_squashed copyFits wellNamed squashed,
              Snapshot.latest_completed]
        _ = Snapshot.consume desc (Snapshot.consume desc copy past)
              fresh := by
            rw [Snapshot.consume, List.foldl_append]
            rfl
        _ = Snapshot.latest (Snapshot.consume desc copy past) received := by
            rw [shown] at values
            rw [← Snapshot.latest_completed, Snapshot.latest,
              Snapshot.latest, ← List.getLast?_map, ← List.getLast?_map,
              values]
        _ = link.server.valueAt link.server.updates.length := by
            rw [all]
            apply (joined.ringed sound.server).latest_eq idle

theorem current (sound : Sound lib numbering wire desc copy link) :
    ∃ root, link.server.entry.current lib = some root ∧
      root.field = link.server.valueAt link.server.updates.length := by
  obtain ⟨root, holds, -, latest⟩ := sound.server.holds
  refine ⟨root, holds.2, ?_⟩
  rw [latest, ← Monitored.latest_valueAt _ numbering desc,
    List.take_length]

end Sound

/-- The values that a consumer is handed are values the PV had, in the order
in which it had them, whatever was squashed on the way and however often the
connection was lost.  A consumer that copies the changed fields of each holds
that value.  When nothing is left on the way to a connected client, it holds
the stored one. -/
theorem consumer_follows (lawful : lib.StoresDeltas)
    (folds : lib.FoldsTails numbering) (carries : wire.Carries desc)
    (wellNamed : desc.WellNamed) (copyFits : PvField.Fits desc copy)
    {link : Link Pv}
    (reachable : (system lib numbering wire desc).Reachable link) :
    link.server.Showed link.server.updates.length
      (link.session.delivered.map Snapshot.value) ∧
    (∀ front pair, front ++ [pair] <+: link.session.delivered →
      Snapshot.consume desc copy (front ++ [pair]) = pair.value) ∧
    (link.Drained → ∃ root, link.server.entry.current lib = some root ∧
      Snapshot.consume desc copy link.session.delivered = root.field) := by
  have sound := (Sound.invariant lawful folds carries wellNamed
    copyFits).reachable reachable
  refine ⟨sound.shows wellNamed copyFits,
    fun _ _ => sound.consumes wellNamed copyFits, ?_⟩
  intro drained
  obtain ⟨root, current, field⟩ := sound.current
  refine ⟨root, current, ?_⟩
  rw [field]
  apply sound.catches_up wellNamed copyFits drained

/-- Steps that hand on what has been posted. -/
def Moves : LinkStep → Prop
  | .serve .offer | .serve .release | .send _ | .receive | .take => True
  | _ => False

/-- Only such steps lead from the one state to the other. -/
structure Flowed (lib : Library Pv) (numbering : PvData) (wire : Wire)
    (desc : FieldDesc) (link last : Link Pv) (labels : List LinkStep) :
    Prop where
  run : (system lib numbering wire desc).Run link labels last
  moves : ∀ label ∈ labels, Moves label
  sub : last.sub = link.sub
  start : last.server.start = link.server.start
  updates : last.server.updates = link.server.updates

namespace Flowed

variable {link middle last : Link Pv} {labels later : List LinkStep}

theorem refl (link : Link Pv) :
    Flowed lib numbering wire desc link link [] :=
  ⟨.nil link, by simp, rfl, rfl, rfl⟩

theorem cons {label : LinkStep}
    (step : (system lib numbering wire desc).step link label middle)
    (moves : Moves label) (sub : middle.sub = link.sub)
    (start : middle.server.start = link.server.start)
    (updates : middle.server.updates = link.server.updates)
    (flowed : Flowed lib numbering wire desc middle last labels) :
    Flowed lib numbering wire desc link last (label :: labels) where
  run := .cons step flowed.run
  moves := by
    intro other member
    rcases List.mem_cons.mp member with first | rest
    · rw [first]
      exact moves
    · exact flowed.moves other rest
  sub := flowed.sub.trans sub
  start := flowed.start.trans start
  updates := flowed.updates.trans updates

theorem append (first : Flowed lib numbering wire desc link middle labels)
    (second : Flowed lib numbering wire desc middle last later) :
    Flowed lib numbering wire desc link last (labels ++ later) where
  run := first.run.append second.run
  moves := by
    intro label member
    rcases List.mem_append.mp member with early | late
    · exact first.moves label early
    · exact second.moves label late
  sub := second.sub.trans first.sub
  start := second.start.trans first.start
  updates := second.updates.trans first.updates

/-- A step of the server that is for no subscriber in particular. -/
theorem serve {step : Server.Step} {server : Monitored Pv}
    (advanced : link.server.advance lib step = some server)
    (untouched : ∀ sub, Step.touches sub step = false)
    (moves : Moves (.serve step))
    (flowed : Flowed lib numbering wire desc { link with server := server }
      last labels) :
    Flowed lib numbering wire desc link last (.serve step :: labels) := by
  have stores : ∀ value, step ≠ .store value := by
    intro value eq
    rw [eq] at moves
    exact moves
  obtain ⟨start, updates⟩ := Monitored.advance_values advanced stores
  refine flowed.cons ⟨?_, ?_⟩ moves ?_ start updates
  · have free : link.sub.any (Step.touches · step) = false := by
      simp [untouched]
    simp only [Transition.ofPartial, advance, free, Bool.false_eq_true,
      if_false, advanced, Option.map_some]
  · cases step with
    | store value => exact (stores value rfl).elim
    | _ => trivial
  · rfl

end Flowed

theorem delivers (link : Link Pv) :
    ∃ labels last, Flowed lib numbering wire desc link last labels ∧
      last.server.delivery = none := by
  cases delivering : link.server.delivery with
  | none => exact ⟨[], link, .refl link, delivering⟩
  | some delivery =>
      obtain ⟨value, marked, kept, pending⟩ := delivery
      induction pending generalizing link kept with
      | nil =>
          refine ⟨[.serve .release], { link with server :=
            { link.server with
              entry := { link.server.entry with subs := kept }
              delivery := none } }, ?_, rfl⟩
          refine Flowed.serve ?_ (fun _ => rfl) trivial (.refl _)
          simp only [Monitored.advance, delivering]
      | cons sub pending induction =>
          rcases offered : PvEntry.offer lib link.server.entry.clients value
            marked sub with ⟨clients, took⟩
          obtain ⟨labels, last, flowed, idle⟩ := induction { link with
            server := { link.server with
              entry := { link.server.entry with clients := clients }
              delivery := some ⟨value, marked,
                if took then kept ++ [sub] else kept, pending⟩ } } _ rfl
          refine ⟨.serve .offer :: labels, last, ?_, idle⟩
          refine Flowed.serve ?_ (fun _ => rfl) trivial flowed
          simp only [Monitored.advance, delivering, offered]

theorem sends {link : Link Pv} {sub : Nat} {seed : PvField}
    {ring : Server.Ring MonitorUpdate} (isSub : link.sub = some sub)
    (idle : link.server.delivery = none)
    (found : link.server.entry.clients[sub]? =
      some ⟨seed, .marked ring, false⟩) :
    ∃ labels last, Flowed lib numbering wire desc link last labels ∧
      last.server.delivery = none ∧ next? last.server sub = none := by
  obtain ⟨limit, held, taken⟩ := ring
  induction held generalizing link taken with
  | nil => exact ⟨[], link, .refl link, idle, by simp [next?, found]⟩
  | cons update held induction =>
      have old : sub < link.server.entry.clients.length :=
        (List.getElem?_eq_some_iff.mp found).1
      obtain ⟨labels, last, flowed, rest⟩ := @induction { link with
        server := { link.server with
          entry := { link.server.entry with
            clients := link.server.entry.clients.set sub
              ⟨seed, .marked ⟨limit, held, taken ++ [update]⟩, false⟩ } }
        flight := link.flight ++ [frame wire desc
          (update.snapshot numbering desc) .little] } isSub idle
        (taken ++ [update]) (List.getElem?_set_self old)
      refine ⟨.send .little :: labels, last, ?_, rest⟩
      refine flowed.cons ⟨?_, trivial⟩ trivial ?_ ?_ ?_
      case refine_2 | refine_3 | refine_4 => rfl
      simp only [Transition.ofPartial, advance, isSub, Option.bind_some,
        next?, found, List.head?_cons, Monitored.advance, PvEntry.read,
        Bool.false_eq_true, if_false, Server.Subscriber.read,
        Option.map_some]

theorem receives (link : Link Pv) :
    ∃ labels last, Flowed lib numbering wire desc link last labels ∧
      last.server = link.server ∧ last.flight = [] := by
  cases flying : link.flight with
  | nil => exact ⟨[], link, .refl link, rfl, flying⟩
  | cons first flight =>
      induction flight generalizing link first with
      | nil =>
          refine ⟨[.receive], { link with
            flight := []
            session := link.session.step wire.codec
              (.frame desc first.body first.order) }, ?_, rfl, rfl⟩
          refine (Flowed.refl _).cons ⟨?_, trivial⟩ trivial ?_ ?_ ?_
          case refine_2 | refine_3 | refine_4 => rfl
          simp only [Transition.ofPartial, advance, flying]
      | cons second flight induction =>
          obtain ⟨labels, last, flowed, server, empty⟩ := induction
            { link with
              flight := second :: flight
              session := link.session.step wire.codec
                (.frame desc first.body first.order) } second rfl
          refine ⟨.receive :: labels, last, ?_, server, empty⟩
          refine flowed.cons ⟨?_, trivial⟩ trivial ?_ ?_ ?_
          case refine_2 | refine_3 | refine_4 => rfl
          simp only [Transition.ofPartial, advance, flying]

theorem takes (link : Link Pv) :
    Flowed lib numbering wire desc link
      { link with session := link.session.step wire.codec .take }
      [.take] := by
  refine (Flowed.refl _).cons ⟨?_, trivial⟩ trivial ?_ ?_ ?_
  case refine_2 | refine_3 | refine_4 => rfl
  simp only [Transition.ofPartial, advance]

/-- Once nothing is posted any more, handing on what there is brings the
consumer of a connected client up to the stored value. -/
theorem connected_link_drains (lawful : lib.StoresDeltas)
    (folds : lib.FoldsTails numbering) (carries : wire.Carries desc)
    (wellNamed : desc.WellNamed) (copyFits : PvField.Fits desc copy)
    {link : Link Pv}
    (reachable : (system lib numbering wire desc).Reachable link)
    (connected : link.sub ≠ none) :
    ∃ root, link.server.entry.current lib = some root ∧
      ∃ labels last, (system lib numbering wire desc).Run link labels last ∧
        (∀ label ∈ labels, Moves label) ∧ last.Drained ∧
        Snapshot.consume desc copy last.session.delivered = root.field := by
  have invariant := Sound.invariant lawful folds carries wellNamed copyFits
  obtain ⟨root, current, field⟩ := (invariant.reachable reachable).current
  obtain ⟨firstLabels, first, delivered, idle⟩ :=
    @delivers _ lib numbering wire desc link
  have firstSound := invariant.reachable (reachable.run delivered.run)
  obtain ⟨past, fresh, tracked, -, -⟩ := firstSound.decoded
  cases tracked with
  | apart none _ _ => exact (connected (delivered.sub.symm.trans none)).elim
  | @joined _ sub seed ring received coming joined =>
      obtain ⟨secondLabels, second, sent, secondIdle, empty⟩ :=
        @sends _ lib numbering wire desc _ _ _ _ joined.isSub idle
          joined.found
      obtain ⟨thirdLabels, third, gone, server, landed⟩ :=
        @receives _ lib numbering wire desc second
      have flowed := delivered.append (sent.append (gone.append (takes third)))
      have lastSound := invariant.reachable (reachable.run flowed.run)
      have lastSub : third.sub = some sub := by
        rw [gone.sub, sent.sub]
        exact joined.isSub
      have drained : Drained { third with
          session := third.session.step wire.codec .take } := by
        constructor
        case connected =>
          refine ⟨sub, lastSub, ?_, ?_⟩
          · rw [Monitored.pending, server, secondIdle]
            exact List.not_mem_nil
          · rw [server]
            exact empty
        case flight => exact landed
        case queue => rfl
      refine ⟨root, current, _, _, flowed.run, flowed.moves, drained, ?_⟩
      rw [lastSound.catches_up wellNamed copyFits drained, field,
        Monitored.valueAt, Monitored.valueAt, flowed.updates, flowed.start]

end Link

section Example

open Session

def bytes (a b : UInt8) : PvField :=
  .struct [] [("a".toList, .scalar (.ubyte a)),
    ("b".toList, .scalar (.ubyte b))]

def markByte (root first second : Bool) : UInt8 :=
  (if root then 1 else 0) + (if first then 2 else 0) +
    (if second then 4 else 0)

/-- The bits of a pair in a byte, and the members that are marked. -/
def encodeMarked (root first second : Bool) (a b : UInt8) : List UInt8 :=
  1 :: markByte root first second ::
    ((if root || first then [a] else []) ++
      (if root || second then [b] else []))

def encodePair (value : PvField) (changed : BitSet) : List UInt8 :=
  match value with
  | .struct _ [(_, .scalar (.ubyte a)), (_, .scalar (.ubyte b))] =>
      encodeMarked (decide (0 ∈ changed)) (decide (1 ∈ changed))
        (decide (2 ∈ changed)) a b
  | _ => []

def pairWire : Wire where
  codec := byteCodec
  encode _ value changed _ := encodePair value changed

theorem isLeaf_bytePair {path : List Str} (leaf : bytePair.IsLeaf path) :
    path = ["a".toList] ∨ path = ["b".toList] := by
  cases path with
  | nil =>
      obtain ⟨sub, found, notStructure⟩ := leaf
      simp only [FieldDesc.atPath?_nil, Option.some.injEq] at found
      subst found
      simp [bytePair, FieldDesc.IsStructure] at notStructure
  | cons name rest =>
      obtain ⟨child, found, childLeaf⟩ :=
        (FieldDesc.isLeaf_cons_iff _ _ _).mp leaf
      simp only [bytePair, FieldDesc.member?, FieldDesc.named?_cons,
        FieldDesc.named?_nil] at found
      have last : rest = [] := by
        split at found
        · simp only [Option.some.injEq] at found
          subst found
          exact (FieldDesc.isLeaf_of_not_structure (by
            simp [FieldDesc.IsStructure]) rest).mp childLeaf
        · split at found
          · simp only [Option.some.injEq] at found
            subst found
            exact (FieldDesc.isLeaf_of_not_structure (by
              simp [FieldDesc.IsStructure]) rest).mp childLeaf
          · simp at found
      rw [last]
      split at found
      · case isTrue same => exact .inl (by rw [same])
      · split at found
        · case isTrue same => exact .inr (by rw [same])
        · simp at found

theorem covered_bytePair (marks : BitSet) :
    (bytePair.Covered 0 marks ["a".toList] ↔ 0 ∈ marks ∨ 1 ∈ marks) ∧
    (bytePair.Covered 0 marks ["b".toList] ↔ 0 ∈ marks ∨ 2 ∈ marks) := by
  constructor
  · rw [@FieldDesc.covered_cons_iff bytePair (.scalar .ubyte) "a".toList 1
      rfl rfl, FieldDesc.covered_nil_iff]
  · rw [@FieldDesc.covered_cons_iff bytePair (.scalar .ubyte) "b".toList 2
      rfl rfl, FieldDesc.covered_nil_iff]

theorem HasType.ubyte {field : PvField}
    (typed : HasType (.scalar .ubyte) field) :
    ∃ value, field = .scalar (.ubyte value) := by
  generalize descEq : FieldDesc.scalar .ubyte = desc at typed
  cases typed with
  | scalar value =>
      cases value with
      | ubyte value => exact ⟨value, rfl⟩
      | _ => simp [ScalarValue.scalarType] at descEq
  | _ => simp at descEq

theorem HasType.isBytes {value : PvField}
    (typed : HasType bytePair value) : ∃ a b, value = bytes a b := by
  cases typed with
  | struct _ _ fields _ names typed =>
      obtain ⟨first, second, rfl⟩ : ∃ first second,
          fields = [("a".toList, first), ("b".toList, second)] := by
        rcases fields with _ | ⟨⟨firstName, first⟩, _ |
          ⟨⟨secondName, second⟩, _ | _⟩⟩
        case cons.cons.nil =>
          simp only [List.map_cons, List.map_nil, List.cons.injEq,
            and_true] at names
          exact ⟨first, second, by rw [names.1, names.2]⟩
        all_goals simp at names
      obtain ⟨a, rfl⟩ := (typed ("a".toList, .scalar .ubyte)
        ("a".toList, first) (by simp)).ubyte
      obtain ⟨b, rfl⟩ := (typed ("b".toList, .scalar .ubyte)
        ("b".toList, second) (by simp)).ubyte
      exact ⟨a, b, rfl⟩

theorem byteBitSet_one (byte : UInt8) (rest : List UInt8)
    (order : ByteOrder) :
    byteBitSet (1 :: byte :: rest) order =
      some ((Finset.range 8).filter fun bit =>
        byte.toNat.testBit bit = true, rest) := by
  simp only [byteBitSet, UInt8.toNat_one, List.length_cons,
    Nat.le_add_left, if_true, Nat.mul_one, List.drop_succ_cons,
    List.drop_zero, Option.some.injEq, Prod.mk.injEq, and_true]
  apply Finset.filter_congr
  intro bit inside
  have small : bit < 8 := Finset.mem_range.mp inside
  simp [Nat.div_eq_of_lt small, Nat.mod_eq_of_lt small]

theorem read_encodeMarked (root first second : Bool) (a b : UInt8)
    (order : ByteOrder) :
    ∃ bits, (Input.frame bytePair (encodeMarked root first second a b)
        order).delta? byteCodec =
          some ⟨bytes (if root || first then a else 0)
            (if root || second then b else 0), bits⟩ ∧
      (0 ∈ bits ↔ root = true) ∧ (1 ∈ bits ↔ first = true) ∧
      (2 ∈ bits ↔ second = true) := by
  have marks : ∀ root first second : Bool,
      let bits := (Finset.range 8).filter fun bit =>
        (markByte root first second).toNat.testBit bit = true
      (0 ∈ bits ↔ root = true) ∧ (1 ∈ bits ↔ first = true) ∧
        (2 ∈ bits ↔ second = true) := by
    decide
  obtain ⟨zero, one, two⟩ := marks root first second
  refine ⟨_, ?_, zero, one, two⟩
  simp only [Input.delta?, encodeMarked, byteCodec, byteBitSet_one,
    Option.bind_some]
  simp only [bytePair, byteMembers, nextByte, zero, one, two, Nat.zero_add,
    Nat.reduceAdd]
  cases root <;> cases first <;> cases second <;> rfl

theorem pairWire_carries : pairWire.Carries bytePair where
  codec := byteCodec_lawful
  read := by
    intro value changed order typed
    obtain ⟨a, b, rfl⟩ := typed.isBytes
    obtain ⟨bits, read, root, first, second⟩ := read_encodeMarked
      (decide (0 ∈ changed)) (decide (1 ∈ changed)) (decide (2 ∈ changed))
      a b order
    simp only [decide_eq_true_eq] at root first second
    refine ⟨_, read, ⟨rfl, rfl, trivial, rfl, trivial, trivial⟩, ?_, ?_⟩
    · intro path leaf
      rcases isLeaf_bytePair leaf with onA | onB
      · rw [onA, (covered_bytePair _).1, (covered_bytePair _).1, root, first]
      · rw [onB, (covered_bytePair _).2, (covered_bytePair _).2, root,
          second]
    · intro path leaf covered
      rcases isLeaf_bytePair leaf with onA | onB
      · rw [onA, (covered_bytePair _).1] at covered
        have marked : (decide (0 ∈ changed) || decide (1 ∈ changed)) =
            true := by
          simpa using covered
        rw [onA, marked]
        rfl
      · rw [onB, (covered_bytePair _).2] at covered
        have marked : (decide (0 ∈ changed) || decide (2 ∈ changed)) =
            true := by
          simpa using covered
        rw [onB, marked]
        rfl

/-- A PV opened with a pair. -/
def openedBytes : Link (Option (FieldDesc × PvField)) where
  server := ⟨⟨some (bytePair, bytes 10 20), [], {0}, some bytePair, []⟩,
    none, bytes 10 20, [], fun _ => 0⟩
  sub := none
  flight := []
  session := .opened 4

theorem bytes_typed (a b : UInt8) : HasType bytePair (bytes a b) := by
  apply HasType.struct
  · decide
  · rfl
  · intro member field inside
    have either : (member, field) =
          (("a".toList, .scalar .ubyte), ("a".toList, .scalar (.ubyte a))) ∨
        (member, field) =
          (("b".toList, .scalar .ubyte), ("b".toList, .scalar (.ubyte b))) :=
      by simpa [bytePair, bytes] using inside
    rcases either with first | second
    · cases first
      exact .scalar (.ubyte a)
    · cases second
      exact .scalar (.ubyte b)

theorem openedBytes_begun : Link.Begun .inMemory bytePair openedBytes where
  opened := ⟨rfl, rfl, rfl, rfl, by decide, rfl, rfl, rfl, rfl⟩
  typed := bytes_typed 10 20
  sub := rfl
  flight := rfl
  session := ⟨4, rfl⟩

/-- The connection is lost before a post and made again after it. -/
def reconnecting : List LinkStep :=
  [.connect 1 .little, .receive, .take, .lose,
    .serve (.store ⟨bytePair, bytes 11 0, {1}⟩), .serve .offer,
    .serve .release, .connect 1 .little, .receive, .take]

def reconnected : Link (Option (FieldDesc × PvField)) :=
  (reconnecting.foldlM
    (Link.advance .inMemory .depthFirst pairWire bytePair)
    openedBytes).get rfl

theorem reconnected_reachable :
    (Link.system .inMemory .depthFirst pairWire bytePair).Reachable
      reconnected := by
  refine ⟨openedBytes, reconnecting, openedBytes_begun,
    Transition.Run.restrict ?_ ?_⟩
  · apply Transition.Run.of_foldlM
    apply (Option.some_get _).symm
  · simp [reconnecting, Link.Typed, bytes_typed]

theorem consumer_follows_reconnected :
    reconnected.server.Showed 1 [bytes 10 20, bytes 11 20] ∧
      Snapshot.consume bytePair (bytes 0 0) reconnected.session.delivered =
        bytes 11 20 := by
  obtain ⟨showed, -, drained⟩ := Link.consumer_follows
    Library.inMemory_storesDeltas Library.inMemory_foldsTails
    pairWire_carries bytePair_wellNamed (bytes_typed 0 0).fits
    reconnected_reachable
  refine ⟨showed, ?_⟩
  obtain ⟨root, current, held⟩ := drained
    ⟨⟨1, rfl, List.not_mem_nil, rfl⟩, rfl, rfl⟩
  obtain rfl : _ = root := Option.some.inj current
  exact held

theorem reconnected_link_drains :
    ∃ root, reconnected.server.entry.current .inMemory = some root ∧
      ∃ labels last, (Link.system .inMemory .depthFirst pairWire
          bytePair).Run reconnected labels last ∧
        (∀ label ∈ labels, Link.Moves label) ∧ last.Drained ∧
        Snapshot.consume bytePair (bytes 0 0) last.session.delivered =
          root.field :=
  Link.connected_link_drains Library.inMemory_storesDeltas
    Library.inMemory_foldsTails pairWire_carries bytePair_wellNamed
    (bytes_typed 0 0).fits reconnected_reachable (by decide)

end Example

end Repics.Pva
