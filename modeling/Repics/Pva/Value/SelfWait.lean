import Repics.Pva.Value.Copy

/-!
# When an assignment waits for itself

An assignment goes through the object that is assigned, up to the first part
that cannot be converted, and it does so under the lock of its root.  So it
waits for itself when it comes to ask a `Value` of that root.  Which parts of
an object are asked depends on the type they are assigned to: a number is
never asked of a `Value`, but a text is asked of whatever is no string.
-/

namespace Repics.Pva

namespace PyObj

/-- The objects that iterating gives, but for the characters, scalars and names
that are made on the way. -/
def items : PyObj → List PyObj
  | .list items | .tuple items | .other _ true _ items => items
  | .dict entries => entries.map Prod.fst
  | _ => []

/-- The entries of what a structure takes. -/
def entries? : PyObj → Option (List (PyObj × PyObj))
  | .dict entries => some entries
  | .value _ _ _ content =>
      some (content.map fun entry => (.str entry.1, entry.2))
  | _ => .none

end PyObj

/-- Whether the elements of an array may be null, and their type. -/
def FieldDesc.element? : FieldDesc → Option (Bool × FieldDesc)
  | .structArray structId fields => some (true, .struct structId fields)
  | .unionArray structId variants => some (false, .union structId variants)
  | .variantArray => some (true, .variant)
  | _ => none

/-- An object can be assigned to a field of the type. -/
def Python.Takes (python : Python) (desc : FieldDesc) (obj : PyObj) : Prop :=
  (written python.conversions desc obj).2 = true

/-- An entry of a dict can be assigned to a structure. -/
def Python.TakesEntry (python : Python) (fields : List (Str × FieldDesc))
    (entry : PyObj × PyObj) : Prop :=
  ∃ name desc, entry.1.extractText = .ok name ∧
    FieldDesc.named? fields name = some desc ∧ python.Takes desc entry.2

/-- Before anything in it fails to convert, an object that is assigned to a
field of a type is asked for what a root locks. -/
inductive PyObj.Asked (python : Python) (root : Nat) :
    PyObj → FieldDesc → Prop where
  | text {obj : PyObj} :
      obj.Refers root → Asked python root obj (.scalar .string)
  | number {obj : PyObj} {scalarType : ScalarType} :
      scalarType ≠ .string → root ∈ obj.numberLocks →
      Asked python root obj (.scalar scalarType)
  | texts {obj : PyObj} :
      (root ∈ obj.locks ∨ ∃ item ∈ obj.items, item.Refers root) →
      Asked python root obj (.scalarArray .string)
  | numbers {obj : PyObj} {scalarType : ScalarType} :
      scalarType ≠ .string → root ∈ python.asks scalarType obj →
      Asked python root obj (.scalarArray scalarType)
  | todict {obj : PyObj} {structId : Str}
      {fields : List (Str × FieldDesc)} :
      obj.entries?.isSome → root ∈ obj.locks →
      Asked python root obj (.struct structId fields)
  | entry {obj key value : PyObj} {structId name : Str}
      {fields : List (Str × FieldDesc)} {desc : FieldDesc}
      {before after : List (PyObj × PyObj)} :
      obj.entries? = some (before ++ (key, value) :: after) →
      (∀ earlier ∈ before, python.TakesEntry fields earlier) →
      key.extractText = .ok name →
      FieldDesc.named? fields name = some desc →
      Asked python root value desc →
      Asked python root obj (.struct structId fields)
  | iterated {obj : PyObj} {desc : FieldDesc} :
      desc.element?.isSome → root ∈ obj.locks → Asked python root obj desc
  | item {obj item : PyObj} {desc element : FieldDesc} {nulls : Bool}
      {before after : List PyObj} :
      desc.element? = some (nulls, element) →
      obj.items = before ++ item :: after →
      (∀ earlier ∈ before,
        (nulls && earlier.isNone) = true ∨ python.Takes element earlier) →
      Asked python root item element → Asked python root obj desc
  | inferred {obj : PyObj} :
      root ∈ obj.locks → Asked python root obj .variant
  | implied {obj : PyObj} {desc : FieldDesc} :
      (inferDesc python obj).result = .ok (some desc) →
      Asked python root obj desc → Asked python root obj .variant
  | selected {member payload : PyObj} {structId name label : Str}
      {variants : List (Str × FieldDesc)} {index : Nat} {desc : FieldDesc} :
      member.extractText = .ok name →
      findVariant (fun label _ => decide (label = name)) variants =
        some (index, label, desc) →
      Asked python root payload desc →
      Asked python root (.tuple [member, payload]) (.union structId variants)
  | picking {obj : PyObj} {structId : Str}
      {variants : List (Str × FieldDesc)} :
      root ∈ obj.locks → Asked python root obj (.union structId variants)
  | picked {obj : PyObj} {structId name : Str}
      {variants : List (Str × FieldDesc)} {index : Nat} {desc : FieldDesc} :
      (pickUnionVariant python variants obj).result =
        .ok (index, name, desc) →
      Asked python root obj desc →
      Asked python root obj (.union structId variants)

section Asked

variable {python : Python} {root : Nat}

namespace PyObj

theorem items_children {obj item : PyObj} (member : item ∈ obj.items) :
    item ∈ obj.children := by
  cases obj with
  | dict entries =>
      obtain ⟨entry, entryMember, rfl⟩ := List.mem_map.mp member
      exact List.mem_flatMap.mpr ⟨entry, entryMember, List.mem_cons_self⟩
  | list _ => exact member
  | tuple _ => exact member
  | other _ iterable _ _ =>
      cases iterable with
      | false => cases member
      | true => exact member
  | _ => cases member

theorem entries_children {obj : PyObj} {entries : List (PyObj × PyObj)}
    (given : obj.entries? = some entries) {entry : PyObj × PyObj}
    (member : entry ∈ entries) : entry.2 ∈ obj.children := by
  cases obj with
  | dict entries =>
      cases given
      exact List.mem_flatMap.mpr ⟨entry, member, by simp⟩
  | value _ _ _ content =>
      cases given
      obtain ⟨inner, innerMember, rfl⟩ := List.mem_map.mp member
      exact List.mem_map_of_mem innerMember
  | _ => cases given

theorem Asked.refers (asks : python.AsksWithin) {obj : PyObj}
    {desc : FieldDesc} (asked : Asked python root obj desc) :
    obj.Refers root := by
  induction asked with
  | text refers => exact refers
  | number _ member => exact numberLocks_subset_roots _ member
  | @texts obj reaches =>
      rcases reaches with own | ⟨item, member, refers⟩
      · exact locks_subset_roots _ own
      · exact child_roots (items_children member) refers
  | numbers _ member => exact asks _ _ member
  | todict _ member => exact locks_subset_roots _ member
  | @entry obj key value structId name fields desc before after given =>
      rename_i refers
      have member : (key, value) ∈ before ++ (key, value) :: after := by simp
      exact child_roots (entries_children given member) refers
  | iterated _ member => exact locks_subset_roots _ member
  | item _ given _ _ refers =>
      exact child_roots (items_children (given ▸ by simp)) refers
  | inferred member => exact locks_subset_roots _ member
  | implied _ _ refers => exact refers
  | selected _ _ _ refers =>
      exact child_roots (by simp [children]) refers
  | picking member => exact locks_subset_roots _ member
  | picked _ _ refers => exact refers

end PyObj

theorem Python.takes_iff {desc : FieldDesc} {target : PvField}
    (fits : PvField.Fits desc target) (obj : PyObj) :
    python.Takes desc obj ↔
      ∃ field, (obj.assign python desc target).result = .ok field := by
  have wrote := (@assign_wrote _ .depthFirst python.conversions
    PvData.depthFirst_lawful desc 0 target fits obj ∅).error
  rw [Takes, ← wrote,
    PyObj.assign_result PvData.depthFirst_lawful desc 0 target obj ∅,
    Outcome.result]
  cases (assign .depthFirst python.conversions desc 0 target obj ∅).error with
  | none => simp
  | some error => simp

theorem PyObj.assign_fits {desc : FieldDesc} {target field : PvField}
    (fits : PvField.Fits desc target) {obj : PyObj}
    (ended : (obj.assign python desc target).result = .ok field) :
    PvField.Fits desc field := by
  have wrote := (@assign_wrote _ .depthFirst python.conversions
    PvData.depthFirst_lawful desc 0 target fits obj ∅).fits
  rw [PyObj.assign_result PvData.depthFirst_lawful desc 0 target obj ∅,
    Outcome.result] at ended
  cases error : (Pva.assign .depthFirst python.conversions desc 0 target obj
      ∅).error with
  | some error =>
      rw [error] at ended
      cases ended
  | none =>
      rw [error] at ended
      cases ended
      exact wrote

theorem Python.pyToScalar_text_attempts_iff (obj : PyObj) :
    (python.pyToScalar obj .string).Attempts root ↔ obj.Refers root := by
  have asked : (do
      Locking.touch obj.roots
      pure (.string (python.text obj)) : Asking ScalarValue).Attempts root ↔
        obj.Refers root :=
    (Locking.attempts_wrap_iff _ _ root).trans
      (Locking.attempts_touch_iff _ root)
  have silent (result : Except PyErr ScalarValue)
      (alone : obj.roots = []) :
      (Locking.lift result : Asking ScalarValue).Attempts root ↔
        obj.Refers root :=
    iff_of_false (Locking.not_attempts_lift result root)
      (by simp [PyObj.Refers, alone])
  cases obj with
  | str text => exact silent _ (by rw [PyObj.roots])
  | bool value => exact silent (.ok _) (by rw [PyObj.roots])
  | numpy value =>
      cases value with
      | string text => exact silent _ (by rw [PyObj.roots])
      | _ => exact asked
  | _ => exact asked

theorem Python.pyToScalar_number_attempts_iff (obj : PyObj)
    {scalarType : ScalarType} (notString : scalarType ≠ .string) :
    (python.pyToScalar obj scalarType).Attempts root ↔
      root ∈ obj.numberLocks := by
  have silent (result : Except PyErr ScalarValue)
      (alone : obj.numberLocks = []) :
      (Locking.lift result : Asking ScalarValue).Attempts root ↔
        root ∈ obj.numberLocks :=
    iff_of_false (Locking.not_attempts_lift result root) (by simp [alone])
  unfold pyToScalar
  split
  · exact silent _ rfl
  · exact silent _ rfl
  · exact silent (.ok _) rfl
  · rw [if_neg notString]
    split
    · exact silent _ rfl
    · exact silent (.ok _) rfl
    · exact silent (.ok _) rfl
    · rw [Locking.attempts_touch_bind_iff]
      apply or_iff_left
      intro attempts
      split at attempts
      · exact Locking.not_attempts_pure _ root attempts
      · exact Locking.not_attempts_pure _ root attempts
      · exact Locking.not_attempts_lift _ root attempts

/-- The object is asked as the relation says, for fields that fit. -/
def PyObj.AskedRightly (python : Python) (root : Nat) (obj : PyObj) : Prop :=
  ∀ desc target, PvField.Fits desc target →
    ((obj.assign python desc target).Attempts root ↔
      obj.Asked python root desc)

/-- An entry whose value is asked. -/
def PyObj.AskedEntry (python : Python) (root : Nat)
    (fields : List (Str × FieldDesc)) (entry : PyObj × PyObj) : Prop :=
  ∃ name desc, entry.1.extractText = .ok name ∧
    FieldDesc.named? fields name = some desc ∧
    entry.2.Asked python root desc

theorem assignEntries_attempts_iff {fields : List (Str × FieldDesc)}
    {entries : List (PyObj × PyObj)}
    (parts : ∀ entry ∈ entries, entry.2.AskedRightly python root)
    {subs : List (Str × PvField)} (fit : PvField.FitMembers fields subs) :
    (Node.assignEntries fields (entries.map fun entry =>
        (entry.1, entry.2.part python)) subs).Attempts root ↔
      Locking.Reaches (python.TakesEntry fields)
        (PyObj.AskedEntry python root fields) entries := by
  induction entries generalizing subs with
  | nil =>
      exact iff_of_false (Locking.not_attempts_pure subs root)
        Locking.not_reaches_nil
  | cons entry entries induction =>
      obtain ⟨key, obj⟩ := entry
      obtain ⟨here, others⟩ := List.forall_mem_cons.mp parts
      rw [Locking.reaches_cons_iff, List.map_cons, Node.assignEntries,
        Locking.attempts_bind_iff, Locking.result_lift]
      simp only [Locking.not_attempts_lift, false_or, PyObj.AskedEntry,
        Python.TakesEntry]
      cases key.extractText with
      | error error => simp
      | ok name =>
          simp only [Except.ok.injEq, exists_and_left, exists_eq_left']
          cases found : FieldDesc.named? fields name with
          | none =>
              have never : ¬(Locking.fail (.noSuchField name) : Asking
                  (List (Str × PvField))).Attempts root :=
                Locking.not_attempts_lift _ root
              simpa using never
          | some child =>
              obtain ⟨target, targetFound, targetFits⟩ :=
                fit.exists_named found
              have rest (field : PvField)
                  (ended : (obj.assign python child target).result =
                    .ok field) :=
                induction others
                  (fit.putNamed found (PyObj.assign_fits targetFits ended))
              simp only [targetFound, Option.some.injEq, exists_eq_left',
                Locking.attempts_bind_iff, python.takes_iff targetFits]
              apply or_congr (here child target targetFits)
              constructor
              · intro later
                obtain ⟨field, ended, attempts⟩ := later
                exact ⟨⟨field, ended⟩, (rest field ended).mp attempts⟩
              · intro later
                obtain ⟨⟨field, ended⟩, reaches⟩ := later
                exact ⟨field, ended, (rest field ended).mpr reaches⟩

/-- The items of an object are its own ones, or made on the way. -/
theorem PyObj.node_items (obj : PyObj) :
    (obj.node python).items = some (obj.items.map (part python)) ∨
      obj.items = [] ∧ ∀ parts, (obj.node python).items = some parts →
        ∀ part ∈ parts, ∃ leaf, leaf.roots = [] ∧
          part = Node.leafPart python leaf := by
  cases obj with
  | list items => exact .inl rfl
  | tuple items => exact .inl rfl
  | dict entries =>
      left
      rw [node, items, List.map_map]
      rfl
  | other implied iterable locks items =>
      cases iterable with
      | true => exact .inl rfl
      | false => exact .inr ⟨rfl, by simp [node]⟩
  | str text =>
      refine .inr ⟨rfl, fun parts given part member => ?_⟩
      cases given
      obtain ⟨leaf, leafMember, rfl⟩ := List.mem_map.mp member
      obtain ⟨letter, -, rfl⟩ := List.mem_map.mp leafMember
      exact ⟨_, by rw [roots], rfl⟩
  | array scalarType values =>
      refine .inr ⟨rfl, fun parts given part member => ?_⟩
      cases given
      obtain ⟨leaf, leafMember, rfl⟩ := List.mem_map.mp member
      obtain ⟨value, -, rfl⟩ := List.mem_map.mp leafMember
      exact ⟨_, by rw [roots], rfl⟩
  | value number structId members content =>
      refine .inr ⟨rfl, fun parts given part member => ?_⟩
      cases given
      obtain ⟨leaf, leafMember, rfl⟩ := List.mem_map.mp member
      obtain ⟨name, -, rfl⟩ := List.mem_map.mp leafMember
      exact ⟨_, by rw [roots], rfl⟩
  | numpy value =>
      refine .inr ⟨rfl, fun parts given part member => ?_⟩
      cases value with
      | string text =>
          cases given
          obtain ⟨leaf, leafMember, rfl⟩ := List.mem_map.mp member
          obtain ⟨letter, -, rfl⟩ := List.mem_map.mp leafMember
          exact ⟨_, by rw [roots], rfl⟩
      | _ => cases given
  | _ =>
      refine .inr ⟨rfl, fun parts given => ?_⟩
      cases given

theorem Node.iterate_attempts_iff (node : Node) :
    (node.iterate python).Attempts root ↔ root ∈ node.obj.locks := by
  rw [iterate, Locking.attempts_touch_bind_iff]
  apply or_iff_left
  intro attempts
  split at attempts
  · exact Locking.not_attempts_pure _ root attempts
  · exact Locking.not_attempts_lift _ root attempts

theorem PyObj.each_attempts_iff {obj : PyObj} {Item : Type}
    {action : Part → Asking Item} {passes wanted : PyObj → Prop}
    (leaves : ∀ leaf : PyObj, leaf.roots = [] →
      ¬(action (Node.leafPart python leaf)).Attempts root)
    (ends : ∀ item ∈ obj.items,
      ((∃ value, (action (item.part python)).result = .ok value) ↔
        passes item))
    (asked : ∀ item ∈ obj.items,
      ((action (item.part python)).Attempts root ↔ wanted item)) :
    ((obj.node python).iterate python >>= Locking.each action).Attempts
        root ↔
      root ∈ obj.locks ∨ Locking.Reaches passes wanted obj.items := by
  rw [Locking.attempts_bind_iff, Node.iterate_attempts_iff, PyObj.node_obj]
  apply or_congr_right
  rcases @PyObj.node_items python obj with own | ⟨alone, made⟩
  · rw [Node.result_iterate own]
    simp only [Except.ok.injEq, exists_eq_left']
    rw [Locking.each_map, Locking.attempts_each_iff]
    exact Locking.reaches_congr ends asked
  · rw [alone]
    apply iff_of_false _ Locking.not_reaches_nil
    intro given
    obtain ⟨parts, ended, attempts⟩ := given
    obtain ⟨before, part, after, split, -, there⟩ :=
      (Locking.attempts_each_iff _ _ _).mp attempts
    obtain ⟨leaf, noRoots, rfl⟩ :=
      made parts (Node.iterate_items ended) part (by simp [split])
    exact leaves leaf noRoots there

theorem Node.leafPart_not_attempts (asks : python.AsksWithin) {obj : PyObj}
    (alone : obj.roots = []) (desc : FieldDesc) (target : PvField) :
    ¬((Node.leafPart python obj).assign desc target).Attempts root := by
  intro given
  obtain ⟨held, member⟩ := given
  have never : (Node.leafPart python obj).Within fun _ => False :=
    Node.leafPart_within asks alone
  exact never.assign desc target _ member

theorem PyObj.pyToArray_attempts_iff (obj : PyObj)
    (scalarType : ScalarType) :
    ((obj.node python).pyToArray python scalarType).Attempts root ↔
      obj.Asked python root (.scalarArray scalarType) := by
  by_cases isString : scalarType = .string
  · subst isString
    have asked : obj.Asked python root (.scalarArray .string) ↔
        root ∈ obj.locks ∨ ∃ item ∈ obj.items, item.Refers root := by
      constructor
      · intro asked
        cases asked with
        | texts reaches => exact reaches
        | numbers notString _ => exact absurd rfl notString
        | iterated isArray _ => cases isArray
        | item isArray _ _ _ => cases isArray
      · exact .texts
    have text (item : Part) :
        (do
          Locking.touch item.obj.roots
          pure (.string (python.text item.obj)) :
            Asking ScalarValue).Attempts root ↔ item.obj.Refers root :=
      (Locking.attempts_wrap_iff _ _ root).trans
        (Locking.attempts_touch_iff _ root)
    have loop : ((obj.node python).iterate python >>= Locking.each fun item =>
        (do
          Locking.touch item.obj.roots
          pure (.string (python.text item.obj)) :
            Asking ScalarValue)).Attempts root ↔
        root ∈ obj.locks ∨ Locking.Reaches (fun _ => True)
          (fun item => item.Refers root) obj.items := by
      apply PyObj.each_attempts_iff
      · intro leaf alone attempts
        have refers : leaf.Refers root := (text _).mp attempts
        rw [PyObj.Refers, alone] at refers
        cases refers
      · intro item _
        exact iff_true_intro ⟨_, rfl⟩
      · intro item _
        exact text (item.part python)
    rw [Locking.reaches_any_iff] at loop
    rw [asked, Node.pyToArray, if_pos rfl, PyObj.node_obj]
    split
    · apply iff_of_false (Locking.not_attempts_pure _ root)
      simp [locks, items]
    · apply iff_of_false (Locking.not_attempts_pure _ root)
      simp [locks, items]
    · exact loop
  · rw [Node.pyToArray, if_neg isString, PyObj.node_obj,
      Locking.attempts_touch_bind_iff]
    constructor
    · rintro (member | attempts)
      · exact .numbers isString member
      · exact absurd attempts (Locking.not_attempts_lift _ root)
    · intro asked
      cases asked with
      | texts _ => exact absurd rfl isString
      | numbers _ member => exact .inl member
      | iterated isArray _ => cases isArray
      | item isArray _ _ _ => cases isArray

theorem PyObj.node_entries (obj : PyObj) :
    (obj.node python).entries = obj.entries?.map fun entries =>
      entries.map fun entry => (entry.1, entry.2.part python) := by
  cases obj with
  | value number structId members content =>
      rw [node, entries?, Option.map_some, List.map_map]
      rfl
  | numpy value => cases value <;> rfl
  | _ => rfl

/-- A type that an object can imply is asked for as the relation says. -/
theorem PyObj.plain_attempts_iff {obj : PyObj}
    (children : ∀ child ∈ obj.children, child.AskedRightly python root)
    {desc : FieldDesc} (plain : desc.IsPlain) {target : PvField}
    (fits : PvField.Fits desc target) :
    (obj.assign python desc target).Attempts root ↔
      obj.Asked python root desc := by
  rw [PyObj.assign_eq, Node.assign_plain plain]
  cases desc with
  | scalar scalarType =>
      rw [Node.assignPlain, Locking.attempts_wrap_iff, PyObj.node_obj]
      by_cases isString : scalarType = .string
      · subst isString
        rw [Python.pyToScalar_text_attempts_iff]
        constructor
        · exact .text
        · intro asked
          cases asked with
          | text refers => exact refers
          | number notString _ => exact absurd rfl notString
          | iterated isArray _ => cases isArray
          | item isArray _ _ _ => cases isArray
      · rw [Python.pyToScalar_number_attempts_iff obj isString]
        constructor
        · exact .number isString
        · intro asked
          cases asked with
          | text _ => exact absurd rfl isString
          | number _ member => exact member
          | iterated isArray _ => cases isArray
          | item isArray _ _ _ => cases isArray
  | scalarArray scalarType =>
      rw [Node.assignPlain, Locking.attempts_wrap_iff,
        PyObj.pyToArray_attempts_iff]
  | struct structId fields =>
      rw [Node.assignPlain, PyObj.node_entries]
      cases given : obj.entries? with
      | none =>
          apply iff_of_false (Locking.not_attempts_lift _ root)
          intro asked
          cases asked with
          | todict isRead _ => simp [given] at isRead
          | entry isRead _ _ _ _ => simp [given] at isRead
          | iterated isArray _ => cases isArray
          | item isArray _ _ _ => cases isArray
      | some entries =>
          cases target with
          | struct targetId subs =>
              obtain ⟨-, fit⟩ : targetId = structId ∧
                  PvField.FitMembers fields subs := by
                simpa [PvField.Fits] using fits
              have loop := assignEntries_attempts_iff (fun entry member =>
                children _ (PyObj.entries_children given member)) fit
              rw [Option.map_some, Locking.attempts_touch_bind_iff,
                PyObj.node_obj, Locking.attempts_wrap_iff, loop]
              constructor
              · rintro (own | ⟨before, ⟨key, value⟩, after, split, earlier,
                  name, desc, text, found, asked⟩)
                · exact .todict (by rw [given]; rfl) own
                · exact .entry (split ▸ given) earlier text found asked
              · intro asked
                cases asked with
                | todict _ own => exact .inl own
                | entry isRead earlier text found asked =>
                    cases given.symm.trans isRead
                    exact .inr ⟨_, _, _, rfl, earlier, _, _, text, found,
                      asked⟩
                | iterated isArray _ => cases isArray
                | item isArray _ _ _ => cases isArray
          | _ => simp [PvField.Fits] at fits
  | _ => cases plain

theorem PyObj.elements_attempts_iff (asks : python.AsksWithin) {obj : PyObj}
    (children : ∀ child ∈ obj.children, child.AskedRightly python root)
    {desc element : FieldDesc} {nulls : Bool}
    (isArray : desc.element? = some (nulls, element)) {target : PvField}
    (fits : PvField.Fits element target) {Item : Type}
    (wrap : PvField → Option Item) :
    ((obj.node python).iterate python >>= Locking.each fun item =>
        if (nulls && item.obj.isNone) = true then pure Option.none
        else item.assign element target >>= fun field =>
          pure (wrap field)).Attempts root ↔
      obj.Asked python root desc := by
  have loop : ((obj.node python).iterate python >>=
      Locking.each fun item =>
        if (nulls && item.obj.isNone) = true then pure Option.none
        else item.assign element target >>= fun field =>
          pure (wrap field)).Attempts root ↔
      root ∈ obj.locks ∨ Locking.Reaches (fun item =>
        (nulls && item.isNone) = true ∨ python.Takes element item)
        (fun item => item.Asked python root element) obj.items := by
    apply PyObj.each_attempts_iff
    · intro leaf alone attempts
      split at attempts
      · exact Locking.not_attempts_pure _ root attempts
      · rw [Locking.attempts_wrap_iff] at attempts
        exact Node.leafPart_not_attempts asks alone _ _ attempts
    · intro item member
      rw [python.takes_iff fits]
      split
      · rename_i skipped
        exact iff_of_true ⟨Option.none, rfl⟩ (.inl skipped)
      · rename_i notNull
        have taken : ¬(nulls && item.isNone) = true := notNull
        rw [or_iff_right taken]
        constructor
        · intro given
          obtain ⟨_, ended⟩ := given
          obtain ⟨field, built, -⟩ :=
            (Locking.result_bind_ok_iff _ _ _).mp ended
          exact ⟨field, built⟩
        · intro given
          obtain ⟨field, built⟩ := given
          exact ⟨_, (Locking.result_bind_ok_iff _ _ _).mpr
            ⟨field, built, rfl⟩⟩
    · intro item member
      have asked := children item (items_children member) element target fits
      split
      · rename_i skipped
        apply iff_of_false (Locking.not_attempts_pure _ root)
        intro never
        have refers := never.refers asks
        cases item with
        | none => cases refers
        | _ => simp [part, isNone] at skipped
      · exact (Locking.attempts_wrap_iff _ _ root).trans asked
  rw [loop]
  constructor
  · rintro (own | ⟨before, item, after, split, earlier, asked⟩)
    · exact .iterated (by rw [isArray]; rfl) own
    · exact .item isArray split earlier asked
  · intro asked
    cases asked with
    | iterated _ own => exact .inl own
    | item isElement split earlier asked =>
        cases isArray.symm.trans isElement
        exact .inr ⟨_, _, _, split, earlier, asked⟩
    | _ => cases isArray

/-- The type that an object implies is found by asking the object itself. -/
theorem inferDesc_attempts_iff (obj : PyObj) :
    (inferDesc python obj).Attempts root ↔ root ∈ obj.locks := by
  cases obj with
  | value number structId members content =>
      rw [inferDesc, Locking.attempts_touch_bind_iff]
      exact or_iff_left (Locking.not_attempts_pure _ root)
  | other implied iterable locks items =>
      cases implied with
      | none =>
          rw [inferDesc, Locking.attempts_touch_bind_iff]
          exact or_iff_left (Locking.not_attempts_lift _ root)
      | some implied =>
          cases implied with
          | scalar _ =>
              rw [inferDesc, Locking.attempts_touch_bind_iff]
              exact or_iff_left (Locking.not_attempts_pure _ root)
          | array _ =>
              rw [inferDesc, Locking.attempts_touch_bind_iff]
              exact or_iff_left (Locking.not_attempts_pure _ root)
  | tuple _ =>
      exact iff_of_false (Locking.not_attempts_lift _ root)
        (by simp [PyObj.locks])
  | dict _ =>
      exact iff_of_false (Locking.not_attempts_lift _ root)
        (by simp [PyObj.locks])
  | _ =>
      exact iff_of_false (Locking.not_attempts_pure _ root)
        (by simp [PyObj.locks])

theorem pickUnionVariant_attempts_iff (variants : List (Str × FieldDesc))
    (obj : PyObj) :
    (pickUnionVariant python variants obj).Attempts root ↔
      root ∈ obj.locks := by
  rw [pickUnionVariant, Locking.attempts_bind_iff, inferDesc_attempts_iff]
  apply or_iff_left
  intro picked
  obtain ⟨_, _, attempts⟩ := picked
  split at attempts
  · exact Locking.not_attempts_pure _ root attempts
  · split at attempts
    · exact Locking.not_attempts_pure _ root attempts
    · exact Locking.not_attempts_lift _ root attempts

theorem PyObj.variant_attempts_iff
    (defaults : ∀ desc, PvField.Fits desc (python.defaultValueFor desc))
    {obj : PyObj}
    (children : ∀ child ∈ obj.children, child.AskedRightly python root)
    (target : PvField) :
    (obj.assign python .variant target).Attempts root ↔
      obj.Asked python root .variant := by
  rw [PyObj.assign_eq, Node.assign, Node.buildVariant,
    Locking.attempts_bind_iff, PyObj.node_obj, inferDesc_attempts_iff]
  have built {desc : FieldDesc}
      (inferred : (inferDesc python obj).result = .ok (some desc)) :
      ((obj.node python).buildPlain python desc >>= fun value =>
          (pure (.variant (some desc) value) : Asking PvField)).Attempts
            root ↔ obj.Asked python root desc := by
    rw [Locking.attempts_wrap_iff,
      PyObj.buildPlain_eq (inferDesc_plain inferred)]
    exact PyObj.plain_attempts_iff children (inferDesc_plain inferred)
      (defaults desc)
  constructor
  · rintro (own | ⟨wanted, inferred, attempts⟩)
    · exact .inferred own
    · cases wanted with
      | none => exact absurd attempts (Locking.not_attempts_pure _ root)
      | some desc => exact .implied inferred ((built inferred).mp attempts)
  · intro asked
    cases asked with
    | inferred own => exact .inl own
    | implied inferred asked =>
        exact .inr ⟨_, inferred, (built inferred).mpr asked⟩
    | iterated isArray _ => cases isArray
    | item isArray _ _ _ => cases isArray

/-- A tuple names the member of a union that its payload goes to. -/
theorem PyObj.asked_tuple_iff {items : List PyObj} {structId : Str}
    {variants : List (Str × FieldDesc)} :
    (tuple items).Asked python root (.union structId variants) ↔
      ∃ member payload name index label desc, items = [member, payload] ∧
        member.extractText = .ok name ∧
        findVariant (fun label _ => decide (label = name)) variants =
          some (index, label, desc) ∧ payload.Asked python root desc := by
  constructor
  · intro asked
    cases asked with
    | selected text found asked =>
        exact ⟨_, _, _, _, _, _, rfl, text, found, asked⟩
    | picking own => cases own
    | picked chosen _ =>
        obtain ⟨_, inferred, -⟩ := pickUnionVariant_iff.mp chosen
        cases inferred
    | iterated isArray _ => cases isArray
    | item isArray _ _ _ => cases isArray
  · rintro ⟨_, _, _, _, _, _, rfl, text, found, asked⟩
    exact .selected text found asked

theorem pair_attempts_iff
    (defaults : ∀ desc, PvField.Fits desc (python.defaultValueFor desc))
    {member payload : PyObj} (asked : payload.AskedRightly python root)
    {variants : List (Str × FieldDesc)} :
    (((PyObj.tuple [member, payload]).node python).buildUnion python
        variants).Attempts root ↔
      ∃ first second name index label desc,
        [member, payload] = [first, second] ∧
        first.extractText = .ok name ∧
        findVariant (fun label _ => decide (label = name)) variants =
          some (index, label, desc) ∧ second.Asked python root desc := by
  show Locking.Attempts (Locking.lift member.extractText >>= _) root ↔ _
  rw [Locking.attempts_bind_iff, Locking.result_lift,
    or_iff_right (Locking.not_attempts_lift _ root)]
  constructor
  · intro given
    obtain ⟨name, text, attempts⟩ := given
    cases found : findVariant (fun label _ => decide (label = name))
        variants with
    | none =>
        simp only [found] at attempts
        exact absurd attempts (Locking.not_attempts_lift _ root)
    | some picked =>
        obtain ⟨index, label, desc⟩ := picked
        simp only [found] at attempts
        exact ⟨_, _, _, _, _, _, rfl, text, found,
          (asked desc _ (defaults desc)).mp
            ((Locking.attempts_wrap_iff _ _ root).mp attempts)⟩
  · rintro ⟨_, _, name, index, label, desc, same, text, found, reached⟩
    cases same
    refine ⟨name, text, ?_⟩
    simp only [found]
    exact (Locking.attempts_wrap_iff _ _ root).mpr
      ((asked desc _ (defaults desc)).mpr reached)

theorem PyObj.union_attempts_iff (asks : python.AsksWithin)
    (defaults : ∀ desc, PvField.Fits desc (python.defaultValueFor desc))
    {obj : PyObj}
    (children : ∀ child ∈ obj.children, child.AskedRightly python root)
    (structId : Str) (variants : List (Str × FieldDesc))
    (target : PvField) :
    (obj.assign python (.union structId variants) target).Attempts root ↔
      obj.Asked python root (.union structId variants) := by
  rw [PyObj.assign_eq, Node.assign]
  have others (some : obj.isNone = false) (single : obj.isTuple = false) :
      ((obj.node python).buildUnion python variants).Attempts root ↔
        obj.Asked python root (.union structId variants) := by
    rw [PyObj.buildUnion_eq some single, Locking.attempts_bind_iff,
      pickUnionVariant_attempts_iff]
    have built {index : Nat} {name : Str} {desc : FieldDesc}
        (chosen : (pickUnionVariant python variants obj).result =
          .ok (index, name, desc)) :
        ((obj.node python).buildPlain python desc >>= fun value =>
            (pure (.union index name value) : Asking PvField)).Attempts
              root ↔ obj.Asked python root desc := by
      obtain ⟨_, -, found⟩ := pickUnionVariant_iff.mp chosen
      have plain := (memberFor_some found).2
      rw [Locking.attempts_wrap_iff, PyObj.buildPlain_eq plain]
      exact PyObj.plain_attempts_iff children plain (defaults desc)
    constructor
    · rintro (own | ⟨⟨index, name, desc⟩, chosen, attempts⟩)
      · exact .picking own
      · exact .picked chosen ((built chosen).mp attempts)
    · intro asked
      cases asked with
      | picking own => exact .inl own
      | picked chosen asked =>
          exact .inr ⟨_, chosen, (built chosen).mpr asked⟩
      | selected _ _ _ => cases single
      | iterated isArray _ => cases isArray
      | item isArray _ _ _ => cases isArray
  cases obj with
  | none =>
      apply iff_of_false (Locking.not_attempts_pure _ root)
      intro asked
      cases asked.refers asks
  | tuple items =>
      rw [PyObj.asked_tuple_iff]
      rcases items with _ | ⟨member, _ | ⟨payload, _ | ⟨third, rest⟩⟩⟩
      · exact iff_of_false (Locking.not_attempts_lift _ root) (by simp)
      · exact iff_of_false (Locking.not_attempts_lift _ root) (by simp)
      · exact pair_attempts_iff defaults
          (children payload (by simp [PyObj.children]))
      · exact iff_of_false (Locking.not_attempts_lift _ root) (by simp)
  | _ => exact others rfl rfl

/-- An assignment comes for the lock of a root exactly when its object is
asked for what that root locks. -/
theorem PyObj.assign_attempts_iff (asks : python.AsksWithin)
    (defaults : ∀ desc, PvField.Fits desc (python.defaultValueFor desc))
    (obj : PyObj) : obj.AskedRightly python root := by
  induction obj using PyObj.childInduction with
  | step obj children =>
      intro desc target fits
      have plain (isPlain : desc.IsPlain) :=
        PyObj.plain_attempts_iff children isPlain fits
      cases desc with
      | scalar _ => exact plain trivial
      | scalarArray _ => exact plain trivial
      | struct _ _ => exact plain trivial
      | structArray structId fields =>
          have isArray : (FieldDesc.structArray structId fields).element? =
              some (true, .struct structId fields) := by rfl
          rw [PyObj.assign_eq, Node.assign, Locking.attempts_wrap_iff]
          exact PyObj.elements_attempts_iff asks children isArray
            (defaults _) PvField.structItem
      | unionArray structId variants =>
          have isArray : (FieldDesc.unionArray structId variants).element? =
              some (false, .union structId variants) := by rfl
          have leaf : PvField.Fits (.union structId variants) .null := by
            simp [PvField.Fits]
          have loop := PyObj.elements_attempts_iff asks children isArray leaf
            PvField.unionItem
          simp only [Bool.false_and, Bool.false_eq_true, if_false] at loop
          rw [PyObj.assign_eq, Node.assign, ← loop,
            Locking.attempts_bind_iff, Locking.attempts_bind_iff]
          apply or_congr_right
          apply exists_congr
          intro items
          exact and_congr_right fun _ => Locking.attempts_wrap_iff _ _ root
      | variantArray =>
          have isArray : FieldDesc.variantArray.element? =
              some (true, .variant) := by rfl
          have leaf : PvField.Fits .variant .null := by simp [PvField.Fits]
          rw [PyObj.assign_eq, Node.assign, Locking.attempts_wrap_iff]
          exact PyObj.elements_attempts_iff asks children isArray leaf
            PvField.variantItem
      | union structId variants =>
          exact PyObj.union_attempts_iff asks defaults children structId
            variants target
      | variant =>
          exact PyObj.variant_attempts_iff defaults children target

end Asked

section Operations

variable {lib : PvData} {python : Python}

/-- The object is asked for the root of the value when it is assigned to the
member at a key. -/
def Handle.AsksOwn (python : Python) (value : Handle) (key : Str)
    (obj : PyObj) : Prop :=
  ∃ desc, descAt value.state.desc (value.full key) = some desc ∧
    obj.Asked python value.root desc

/-- Only assignments ask objects, and an attribute with an underscore in front
is not assigned. -/
def Operation.AsksOwn (python : Python) (value : Handle) : Operation → Prop
  | .setItem key obj => value.AsksOwn python key obj
  | .setAttr name obj =>
      name.head? ≠ some '_' ∧ value.AsksOwn python name obj
  | _ => False

theorem Handle.setItem_selfWaits_iff (asks : python.AsksWithin)
    (defaults : ∀ desc, PvField.Fits desc (python.defaultValueFor desc))
    (value : Handle)
    (fits : PvField.Fits value.state.desc value.state.field) (key : Str)
    (obj : PyObj) :
    (value.setItem python key obj).SelfWaits ↔
      value.AsksOwn python key obj := by
  rw [setItem, value.assignAt_selfWaits_iff asks, AsksOwn]
  unfold assignLocked
  cases found : descAt value.state.desc (value.full key) with
  | none =>
      apply iff_of_false (Locking.not_attempts_lift _ value.root)
      simp
  | some desc =>
      obtain ⟨target, targetFound, targetFits⟩ := fits.atPath? found
      have here : fieldAt value.state.field (value.full key) =
          some target := targetFound
      simp only [here, Option.some.injEq, exists_eq_left']
      exact (Locking.attempts_wrap_iff _ _ value.root).trans
        (PyObj.assign_attempts_iff asks defaults obj desc target targetFits)

theorem Handle.publicName_selfWaits_iff {α : Type} (name : Str)
    (action : Asking α) :
    (publicName name action).SelfWaits ↔
      name.head? ≠ some '_' ∧ action.SelfWaits := by
  unfold publicName
  split
  · rename_i hidden
    apply iff_of_false
    · rw [Locking.not_selfWaits_iff]
      exact Locking.within_fail _
    · exact fun both => both.1 hidden
  · rename_i shown
    exact (and_iff_right shown).symm

/-- An operation waits for itself when it assigns an object that is asked for
its root. -/
theorem Handle.run_selfWaits_iff (asks : python.AsksWithin)
    (defaults : ∀ desc, PvField.Fits desc (python.defaultValueFor desc))
    (value : Handle)
    (fits : PvField.Fits value.state.desc value.state.field)
    (operation : Operation) :
    (value.run lib python operation).SelfWaits ↔
      operation.AsksOwn python value := by
  have never {action : Asking Unit}
      (within : action.Within fun attempt => attempt.2 ∉ attempt.1) :
      action.SelfWaits ↔ False :=
    iff_false_intro ((Locking.not_selfWaits_iff _).mpr within)
  cases operation with
  | getAttr name =>
      exact never
        (publicName_within name (discard_within (value.locked_within _)))
  | items =>
      refine never (discard_within ((value.locked_within _).bind
        fun keys _ => ?_))
      apply Locking.within_each
      intro key _
      exact (value.locked_within _).bind fun _ _ => Locking.within_pure _
  | mark field val => exact never (value.locked_within _)
  | select field selector => exact never (value.locked_within _)
  | snapshot => exact never (discard_within value.snapshot_within)
  | markedLeaves =>
      exact never (value.snapshot_within.bind fun _ _ =>
        discard_within (Locking.within_lift _))
  | setItem key obj =>
      exact value.setItem_selfWaits_iff asks defaults fits key obj
  | setAttr name obj =>
      exact (publicName_selfWaits_iff name _).trans (and_congr_right fun _ =>
        value.setItem_selfWaits_iff asks defaults fits name obj)
  | _ => exact never (discard_within (value.locked_within _))

/-- A `Value` with two structures of one type. -/
def Handle.ofPair : Handle where
  root := 0
  state :=
    { desc := .struct [] [(['a'], .struct [] [(['x'], .scalar .long)]),
        (['b'], .struct [] [(['x'], .scalar .long)])]
      field := .struct [] [(['a'], .struct [] [(['x'], .scalar (.long 1))]),
        (['b'], .struct [] [(['x'], .scalar (.long 2))])]
      marks := ∅ }
  view := []

end Operations

end Repics.Pva
