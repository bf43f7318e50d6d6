import Repics.Pva.Hub.Monitor

/-!
# Completing partial updates

The wire callback of a monitor decodes a frame, completes it from the previous
full value and pushes the result.  Decoder and queue together keep a consumer
up to date that copies the changed fields of every pair it is given, whatever
was squashed in between.
-/

namespace Repics.Pva.Hub

inductive ByteOrder where
  | big
  | little
  deriving DecidableEq

/-- The decoding functions of `epics_pva_rs`. -/
structure Codec where
  bitSet : List UInt8 → ByteOrder → Option (BitSet × List UInt8)
  field : FieldDesc → BitSet → Nat → List UInt8 → ByteOrder → Option PvField
  fillUnmarkedFromPrior :
    FieldDesc → BitSet → Nat → PvField → PvField → PvField

/-- Decoded fields fit their descriptor, and completing a field takes what is
not marked from the prior one. -/
structure Codec.Lawful (codec : Codec) : Prop where
  field_fits : ∀ desc changed body order field,
    codec.field desc changed 0 body order = some field →
      PvField.Fits desc field
  fill_copies : ∀ desc changed decoded prior,
    PvField.Fits desc decoded → PvField.Fits desc prior →
      PvField.Copies desc changed decoded prior
        (codec.fillUnmarkedFromPrior desc changed 0 decoded prior)

/-- The last full value, so that a partial update can be completed. -/
structure Decoder where
  desc : Option FieldDesc
  prior : Option PvField

namespace Decoder

def fresh : Decoder where
  desc := none
  prior := none

/-- A new descriptor forgets the prior value. -/
def expect (d : Decoder) (desc : FieldDesc) : Decoder :=
  if d.desc = some desc then d else ⟨some desc, none⟩

def decode (codec : Codec) (d : Decoder) (desc : FieldDesc)
    (body : List UInt8) (order : ByteOrder) :
    Decoder × Option (FieldDesc × PvField × BitSet) :=
  match codec.bitSet body order with
  | none => (d.expect desc, none)
  | some (changed, rest) =>
      match codec.field desc changed 0 rest order with
      | none => (d.expect desc, none)
      | some decoded =>
          let full :=
            match (d.expect desc).prior with
            | some prior =>
                codec.fillUnmarkedFromPrior desc changed 0 decoded prior
            | none => decoded
          ({ d.expect desc with prior := some full },
            some (desc, full, changed))

end Decoder

/-- What reaches a monitor, from the wire and from `recv_batch`. -/
inductive Input where
  | frame (desc : FieldDesc) (body : List UInt8) (order : ByteOrder)
  | event (event : MonitorConnEvent)
  | take

namespace Input

/-- The changed fields of a frame that can be decoded. -/
def delta? (codec : Codec) : Input → Option Snapshot
  | .frame desc body order =>
      (codec.bitSet body order).bind fun (changed, rest) =>
        (codec.field desc changed 0 rest order).map fun decoded =>
          ⟨decoded, changed⟩
  | _ => none

/-- Every frame has the descriptor. -/
def OfType (desc : FieldDesc) : Input → Prop
  | .frame other _ _ => other = desc
  | _ => True

end Input

/-- One monitor with what has been taken from it. -/
structure Session where
  decoder : Decoder
  queue : Queue
  taken : List Update

namespace Session

def opened (limit : Nat) : Session where
  decoder := .fresh
  queue := .opened limit
  taken := []

def step (codec : Codec) (s : Session) : Input → Session
  | .frame desc body order =>
      match s.decoder.decode codec desc body order with
      | (decoder, some (desc, value, changed)) =>
          { s with
            decoder := decoder
            queue := (s.queue.pushValue desc value changed).1 }
      | (decoder, none) => { s with decoder := decoder }
  | .event event => { s with queue := (s.queue.push (.ofEvent event)).1 }
  | .take =>
      { s with
        queue := s.queue.take.1
        taken := s.taken ++ s.queue.take.2 }

def after (codec : Codec) (limit : Nat) (inputs : List Input) : Session :=
  inputs.foldl (step codec) (opened limit)

/-- The pairs of value and change set that have been handed out. -/
def delivered (s : Session) : List Snapshot :=
  s.taken.filterMap Update.snapshot?

def deltas (codec : Codec) (inputs : List Input) : List Snapshot :=
  inputs.filterMap (Input.delta? codec)

/-- The change set reaches every leaf. -/
def Whole (desc : FieldDesc) (changed : BitSet) : Prop :=
  ∀ path, desc.IsLeaf path → desc.Covered 0 changed path

theorem whole_of_root (desc : FieldDesc) {changed : BitSet}
    (root : 0 ∈ changed) : Whole desc changed :=
  fun _ _ => ⟨[], 0, List.nil_prefix, by simp, by simpa using root⟩

/-- Applying a delta that reaches every leaf forgets the copy. -/
theorem apply_whole {desc : FieldDesc} (wellNamed : desc.WellNamed)
    {delta : Snapshot} {copy : PvField}
    (fits : PvField.Fits desc delta.value)
    (copyFits : PvField.Fits desc copy)
    (whole : Whole desc delta.changed) :
    Snapshot.apply desc copy delta = delta.value := by
  have copies := PvField.copyMarked_copies fits copyFits delta.changed
  refine copies.eq_of_agreeOff wellNamed fits ?_
  intro path leaf bare
  exact (bare (whole path leaf)).elim

/-- The decoder holds the last complete value, and everything pushed is either
taken or queued, up to squashing. -/
structure UpToDate (desc : FieldDesc) (copy : PvField)
    (deltas : List Snapshot) (s : Session) : Prop where
  known : s.decoder.desc = some desc ∨ s.decoder.desc = none ∧ deltas = []
  nothing : deltas = [] → s.decoder.prior = none
  prior : deltas ≠ [] → s.decoder.prior = some (Snapshot.consume desc copy deltas)
  pushed : ∃ updates,
    Squashed Update.squash? updates (s.taken ++ s.queue.items) ∧
      updates.filterMap Update.snapshot? =
        Snapshot.completed desc copy deltas

@[simp] theorem after_snoc (codec : Codec) (limit : Nat)
    (inputs : List Input) (input : Input) :
    after codec limit (inputs ++ [input]) =
      (after codec limit inputs).step codec input := by
  simp [after]

theorem deltas_snoc (codec : Codec) (inputs : List Input) (input : Input) :
    deltas codec (inputs ++ [input]) =
      deltas codec inputs ++ (input.delta? codec).toList := by
  cases delta : input.delta? codec <;> simp [deltas, delta]

namespace UpToDate

variable {codec : Codec} {desc : FieldDesc} {copy : PvField}
variable {deltas : List Snapshot} {s : Session}

theorem opened (desc : FieldDesc) (copy : PvField) (limit : Nat) :
    UpToDate desc copy [] (Session.opened limit) where
  known := .inr ⟨rfl, rfl⟩
  nothing _ := rfl
  prior nonempty := (nonempty rfl).elim
  pushed := ⟨[.disconnected], Squashed.nil.append _, rfl⟩

/-- A decoder that meets its descriptor again keeps its prior value. -/
theorem expect_prior (upToDate : UpToDate desc copy deltas s) :
    (s.decoder.expect desc).desc = some desc ∧
      (s.decoder.expect desc).prior = s.decoder.prior := by
  rcases upToDate.known with same | ⟨unknown, empty⟩
  · simp [Decoder.expect, same]
  · simp [Decoder.expect, unknown, upToDate.nothing empty]

theorem event (upToDate : UpToDate desc copy deltas s)
    (event : MonitorConnEvent) :
    UpToDate desc copy deltas (s.step codec (.event event)) where
  known := upToDate.known
  nothing := upToDate.nothing
  prior := upToDate.prior
  pushed := by
    obtain ⟨updates, squashed, completed⟩ := upToDate.pushed
    exact ⟨_, Queue.push_squashed squashed _, by simp [completed]⟩

theorem take (upToDate : UpToDate desc copy deltas s) :
    UpToDate desc copy deltas (s.step codec .take) where
  known := upToDate.known
  nothing := upToDate.nothing
  prior := upToDate.prior
  pushed := by
    obtain ⟨updates, squashed, completed⟩ := upToDate.pushed
    refine ⟨updates, ?_, completed⟩
    simpa [step, Queue.take] using squashed

/-- A frame that cannot be decoded changes nothing that matters. -/
theorem undecoded (upToDate : UpToDate desc copy deltas s) :
    UpToDate desc copy deltas { s with decoder := s.decoder.expect desc } := by
  obtain ⟨sameDesc, samePrior⟩ := upToDate.expect_prior
  exact {
    known := .inl sameDesc
    nothing := fun empty => samePrior.trans (upToDate.nothing empty)
    prior := fun nonempty => samePrior.trans (upToDate.prior nonempty)
    pushed := upToDate.pushed }

theorem decoded (upToDate : UpToDate desc copy deltas s)
    {delta : Snapshot} {full : PvField}
    (complete : full = Snapshot.consume desc copy (deltas ++ [delta])) :
    UpToDate desc copy (deltas ++ [delta])
      { s with
        decoder := { s.decoder.expect desc with prior := some full }
        queue := (s.queue.pushValue desc full delta.changed).1 } where
  known := .inl upToDate.expect_prior.1
  nothing empty := by simp at empty
  prior _ := by rw [complete]
  pushed := by
    obtain ⟨updates, squashed, completed⟩ := upToDate.pushed
    refine ⟨_, Queue.pushValue_squashed squashed desc full delta.changed, ?_⟩
    simp [Snapshot.completed_snoc, completed, Update.snapshot?, complete]

/-- What the decoder makes of a delta is the complete value after it. -/
theorem full_eq (upToDate : UpToDate desc copy deltas s)
    (lawful : codec.Lawful) (wellNamed : desc.WellNamed)
    (copyFits : PvField.Fits desc copy)
    (fits : ∀ delta ∈ deltas, PvField.Fits desc delta.value)
    {delta : Snapshot} (deltaFits : PvField.Fits desc delta.value)
    (whole : deltas = [] → Whole desc delta.changed) :
    (match (s.decoder.expect desc).prior with
      | some prior => codec.fillUnmarkedFromPrior desc delta.changed 0
          delta.value prior
      | none => delta.value) =
      Snapshot.consume desc copy (deltas ++ [delta]) := by
  rw [upToDate.expect_prior.2, Snapshot.consume_snoc]
  have heldFits := Snapshot.consume_fits copyFits fits
  by_cases empty : deltas = []
  · rw [upToDate.nothing empty]
    exact (apply_whole wellNamed deltaFits heldFits (whole empty)).symm
  · rw [upToDate.prior empty]
    exact (lawful.fill_copies desc delta.changed delta.value _ deltaFits
      heldFits).eq_copyMarked wellNamed deltaFits heldFits

theorem frame (upToDate : UpToDate desc copy deltas s)
    (lawful : codec.Lawful) (wellNamed : desc.WellNamed)
    (copyFits : PvField.Fits desc copy)
    (fits : ∀ delta ∈ deltas, PvField.Fits desc delta.value)
    (body : List UInt8) (order : ByteOrder)
    (whole : deltas = [] → ∀ delta,
      (Input.frame desc body order).delta? codec = some delta →
        Whole desc delta.changed) :
    UpToDate desc copy
      (deltas ++ ((Input.frame desc body order).delta? codec).toList)
      (s.step codec (.frame desc body order)) := by
  cases bits : codec.bitSet body order with
  | none =>
      simpa [Input.delta?, step, Decoder.decode, bits] using
        upToDate.undecoded
  | some result =>
      obtain ⟨changed, rest⟩ := result
      cases value : codec.field desc changed 0 rest order with
      | none =>
          simpa [Input.delta?, step, Decoder.decode, bits, value] using
            upToDate.undecoded
      | some decoded =>
          have delta : (Input.frame desc body order).delta? codec =
              some ⟨decoded, changed⟩ := by
            simp [Input.delta?, bits, value]
          have complete := upToDate.full_eq lawful wellNamed copyFits fits
            (lawful.field_fits _ _ _ _ _ value)
            (fun empty => whole empty _ delta)
          rw [delta]
          simpa [step, Decoder.decode, bits, value] using
            upToDate.decoded complete

end UpToDate

theorem deltas_fit {codec : Codec} (lawful : codec.Lawful)
    {desc : FieldDesc} {inputs : List Input}
    (oneType : ∀ input ∈ inputs, input.OfType desc) :
    ∀ delta ∈ deltas codec inputs, PvField.Fits desc delta.value := by
  intro delta member
  obtain ⟨input, inputMember, found⟩ := List.mem_filterMap.mp member
  have same := oneType input inputMember
  cases input with
  | frame other body order =>
      obtain rfl : other = desc := same
      simp only [Input.delta?, Option.bind_eq_some_iff,
        Option.map_eq_some_iff] at found
      obtain ⟨⟨changed, rest⟩, -, decoded, value, rfl⟩ := found
      exact lawful.field_fits _ _ _ _ _ value
  | _ => simp [Input.delta?] at found

theorem after_upToDate {codec : Codec} (lawful : codec.Lawful)
    {desc : FieldDesc} (wellNamed : desc.WellNamed) {copy : PvField}
    (copyFits : PvField.Fits desc copy) (limit : Nat) {inputs : List Input}
    (oneType : ∀ input ∈ inputs, input.OfType desc)
    (whole : ∀ first ∈ (deltas codec inputs).head?,
      Whole desc first.changed) :
    UpToDate desc copy (deltas codec inputs)
      (after codec limit inputs) := by
  induction inputs using List.reverseRecOn with
  | nil => exact UpToDate.opened desc copy limit
  | append_singleton inputs input induction =>
      have frontType : ∀ input ∈ inputs, input.OfType desc :=
        fun other member => oneType other (by simp [member])
      rw [deltas_snoc] at whole ⊢
      have upToDate := induction frontType (by
        intro first member
        refine whole first ?_
        cases split : deltas codec inputs with
        | nil => simp [split] at member
        | cons head rest => simpa [split] using member)
      rw [after_snoc]
      cases input with
      | frame other body order =>
          have same : (Input.frame other body order).OfType desc :=
            oneType _ (by simp)
          obtain rfl : other = desc := same
          refine upToDate.frame lawful wellNamed copyFits
            (deltas_fit lawful frontType) body order ?_
          intro empty delta found
          exact whole delta (by simp [empty, found])
      | event event => simpa [Input.delta?] using upToDate.event event
      | take => simpa [Input.delta?] using upToDate.take

/-- Taken and queued pairs are the completed frames, squashed. -/
theorem UpToDate.snapshots {desc : FieldDesc} {copy : PvField}
    {deltas : List Snapshot} {s : Session}
    (upToDate : UpToDate desc copy deltas s) :
    Squashed Snapshot.squash (Snapshot.completed desc copy deltas)
      (s.delivered ++ s.queue.items.filterMap Update.snapshot?) := by
  obtain ⟨updates, squashed, completed⟩ := upToDate.pushed
  rw [← completed, delivered, ← List.filterMap_append]
  exact squashed.filterMap Update.snapshot? fun _ _ _ => Update.squash?_snapshot

/-- A consumer that copies the changed fields of every pair it is given holds
the complete value after each of them, and after the last take the value of
the first frame with all later ones applied. -/
theorem consumer_holds_complete_value {codec : Codec}
    (lawful : codec.Lawful) {desc : FieldDesc}
    (wellNamed : desc.WellNamed) {copy : PvField}
    (copyFits : PvField.Fits desc copy) (limit : Nat) {inputs : List Input}
    (oneType : ∀ input ∈ inputs, input.OfType desc)
    (whole : ∀ first ∈ (deltas codec inputs).head?,
      Whole desc first.changed) :
    let s := after codec limit inputs
    (∃ frames, frames <+: deltas codec inputs ∧
      Squashed Snapshot.squash (Snapshot.completed desc copy frames)
        s.delivered) ∧
    (∀ front pair, front ++ [pair] <+: s.delivered →
      Snapshot.consume desc copy (front ++ [pair]) = pair.value) ∧
    (s.queue.items = [] → ∀ first later,
      deltas codec inputs = first :: later →
        Snapshot.consume desc copy s.delivered =
          Snapshot.consume desc first.value later) := by
  intro s
  have upToDate : UpToDate desc copy (deltas codec inputs) s :=
    after_upToDate lawful wellNamed copyFits limit oneType whole
  have fits := deltas_fit lawful oneType
  have linked := Snapshot.Linked.of_completed copyFits fits
  have squashed := upToDate.snapshots
  refine ⟨?_, ?_, ?_⟩
  · obtain ⟨start, startPrefix, startSquashed⟩ :=
      squashed.of_front (List.prefix_append _ _)
    obtain ⟨frames, framesPrefix, rfl⟩ :=
      Snapshot.prefix_completed startPrefix
    exact ⟨frames, framesPrefix, startSquashed⟩
  · intro front pair isPrefix
    rw [linked.consume_prefix copyFits wellNamed squashed
      (isPrefix.trans (List.prefix_append _ _)), Snapshot.latest_snoc]
  · intro drained first later split
    rw [drained, List.filterMap_nil, List.append_nil] at squashed
    rw [linked.consume_squashed copyFits wellNamed squashed,
      Snapshot.latest_completed, split, Snapshot.consume_cons,
      apply_whole wellNamed (fits first (by simp [split])) copyFits
        (whole first (by simp [split]))]

def byteBitSet (body : List UInt8) (_ : ByteOrder) :
    Option (BitSet × List UInt8) :=
  match body with
  | [] => none
  | size :: rest =>
      if size.toNat ≤ rest.length then
        some ((Finset.range (8 * size.toNat)).filter fun bit =>
            ((rest.getD (bit / 8) 0).toNat.testBit (bit % 8)) = true,
          rest.drop size.toNat)
      else none

/-- The next byte when the member is marked, and zero otherwise. -/
def nextByte (marked : Bool) (body : List UInt8) :
    Option (UInt8 × List UInt8) :=
  if marked then body.head?.map (·, body.tail) else some (0, body)

def byteMembers (marked : Nat → Bool) : Nat → List (Str × FieldDesc) →
    List UInt8 → Option (List (Str × PvField))
  | _, [], _ => some []
  | bit, (name, _) :: members, body =>
      (nextByte (marked bit) body).bind fun (byte, rest) =>
        (byteMembers marked (bit + 1) members rest).map
          ((name, .scalar (.ubyte byte)) :: ·)

/-- The wire format of a structure whose members are bytes. -/
def byteCodec : Codec where
  bitSet := byteBitSet
  field desc changed bit body _ :=
    match desc with
    | .struct structId members =>
        if members.all fun member => member.2 = .scalar .ubyte then
          (byteMembers
            (fun member => decide (bit ∈ changed ∨ member ∈ changed))
            (bit + 1) members body).map (.struct structId)
        else none
    | _ => none
  fillUnmarkedFromPrior := PvField.copyMarked

theorem byteMembers_fit {marked : Nat → Bool} {bit : Nat}
    {members : List (Str × FieldDesc)} {body : List UInt8}
    {fields : List (Str × PvField)}
    (bytes : ∀ member ∈ members, member.2 = .scalar .ubyte)
    (decoded : byteMembers marked bit members body = some fields) :
    PvField.FitMembers members fields := by
  induction members generalizing bit body fields with
  | nil =>
      simp only [byteMembers, Option.some.injEq] at decoded
      simp [← decoded, PvField.FitMembers]
  | cons entry members induction =>
      obtain ⟨name, desc⟩ := entry
      obtain rfl : desc = .scalar .ubyte := bytes (name, desc) (by simp)
      simp only [byteMembers, Option.bind_eq_some_iff,
        Option.map_eq_some_iff] at decoded
      obtain ⟨⟨byte, rest⟩, -, tail, tailDecoded, rfl⟩ := decoded
      simp only [PvField.FitMembers, PvField.Fits, true_and]
      exact induction (fun member inside => bytes member (by simp [inside]))
        tailDecoded

theorem byteCodec_lawful : byteCodec.Lawful where
  field_fits desc changed body order field decoded := by
    cases desc with
    | struct structId members =>
        simp only [byteCodec] at decoded
        split at decoded
        · rename_i bytes
          obtain ⟨fields, fieldsDecoded, rfl⟩ :=
            Option.map_eq_some_iff.mp decoded
          exact ⟨rfl, byteMembers_fit (by simpa using bytes) fieldsDecoded⟩
        · simp at decoded
    | _ => simp [byteCodec] at decoded
  fill_copies desc changed decoded prior fits priorFits :=
    PvField.copyMarked_copies fits priorFits changed

def bytePair : FieldDesc :=
  .struct [] [("a".toList, .scalar .ubyte), ("b".toList, .scalar .ubyte)]

theorem bytePair_wellNamed : bytePair.WellNamed := by
  simp [bytePair, FieldDesc.WellNamed, FieldDesc.tree,
    FieldDesc.memberTrees, LabelTree.Hereditary, LabelTree.ForestHereditary,
    Separated.IsKey]

/-- Two partial updates are squashed behind a complete one. -/
theorem consumer_holds_squashed_bytes :
    let bytes (a b : UInt8) : PvField := .struct []
      [("a".toList, .scalar (.ubyte a)), ("b".toList, .scalar (.ubyte b))]
    let s := after byteCodec 1
      [.frame bytePair [1, 1, 10, 20] .little, .take,
        .frame bytePair [1, 2, 11] .little,
        .frame bytePair [1, 4, 21] .little, .take]
    Snapshot.consume bytePair (bytes 0 0) s.delivered =
      Snapshot.consume bytePair (bytes 10 20)
        [⟨bytes 11 0, {1}⟩, ⟨bytes 0 21, {2}⟩] := by
  intro bytes s
  have holds := @consumer_holds_complete_value byteCodec byteCodec_lawful
    bytePair bytePair_wellNamed (bytes 0 0)
    (by simp [bytes, bytePair, PvField.Fits, PvField.FitMembers]) 1
    [.frame bytePair [1, 1, 10, 20] .little, .take,
      .frame bytePair [1, 2, 11] .little,
      .frame bytePair [1, 4, 21] .little, .take]
    (by simp [Input.OfType])
    (by
      intro first member
      refine whole_of_root bytePair ?_
      revert first
      decide)
  exact holds.2.2 rfl ⟨bytes 10 20, {0}⟩ _ rfl

end Session

end Repics.Pva.Hub
