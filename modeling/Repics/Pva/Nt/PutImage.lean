import Repics.Pva.Nt.Image

/-!
# Images that are put back

`NTNDArray.assign` wraps an array in a value of the default type and assigns the
members of that value one by one.  An array that was read has its attributes
with it, and they go into variants again.
-/

namespace Repics.Pva.Nt

section Members

variable {lib : PvData} {python : Python}

/-- The member that the entry names takes its object. -/
def Gives (python : Python) (V : Root) (entry : Str × PyObj)
    (field : PvField) : Prop :=
  ∃ sub target, V.desc.atPath? [entry.1] = some sub ∧
    V.field.atPath? [entry.1] = some target ∧
    (entry.2.assign python sub target).result = .ok field

theorem setItem_member (lawful : lib.Lawful) {V : Root}
    (fits : PvField.Fits V.desc V.field) {key : Str}
    (named : MemberName key) {sub : FieldDesc}
    (found : V.desc.atPath? [key] = some sub) {target : PvField}
    (read : V.field.atPath? [key] = some target) {obj : PyObj}
    {field : PvField}
    (assigned : (obj.assign python sub target).result = .ok field) :
    ∃ marks, V.setItem lib python.conversions [] key obj =
        (replaced V [key] field marks, none) ∧ V.marks ⊆ marks ∧
      (¬sub.IsStructure → marks ≠ ∅) ∧ PvField.Fits sub field := by
  have path : Separated.segments '.' key = [key] :=
    Separated.segments_of_isKey named
  have descFound : descAt V.desc key = some sub := by
    rw [descAt, path]
    exact found
  have fieldFound : fieldAt V.field key = some target := by
    rw [fieldAt, path]
    exact read
  obtain ⟨other, otherRead, targetFits⟩ := fits.atPath? found
  cases read.symm.trans otherRead
  rw [PyObj.assign_result lawful sub
    ((lib.bitForPath V.desc key).getD 0) target obj V.marks] at assigned
  have wrote := @assign_wrote _ lib python.conversions lawful sub
    ((lib.bitForPath V.desc key).getD 0) target targetFits obj V.marks
  have marked (leaf : ¬sub.IsStructure) :
      (Pva.assign lib python.conversions sub
        ((lib.bitForPath V.desc key).getD 0) target obj V.marks).error = none →
      (Pva.assign lib python.conversions sub
        ((lib.bitForPath V.desc key).getD 0) target obj V.marks).marks ≠
          ∅ := by
    cases converted : python.conversions.convert sub obj with
    | error error =>
        rw [assign_failed leaf converted]
        simp
    | ok made =>
        rw [Root.assign_leaf leaf converted]
        exact fun _ => Finset.insert_ne_empty _ _
  simp only [Root.setItem, Root.assignAt, join, if_true, descFound,
    fieldFound, path]
  generalize Pva.assign lib python.conversions sub
    ((lib.bitForPath V.desc key).getD 0) target obj V.marks = outcome
    at assigned wrote marked
  obtain ⟨after, marks, error⟩ := outcome
  cases error with
  | some error => cases assigned
  | none =>
      obtain rfl : after = field := Except.ok.inj assigned
      exact ⟨marks, rfl, fun number old => (wrote.marked number).mpr (.inl old),
        fun leaf => marked leaf rfl, wrote.fits⟩

/-- Members that take their objects are assigned one after the other. -/
theorem setItems_gives (lawful : lib.Lawful) {given : Str → PvField}
    {entries : List (Str × PyObj)}
    (distinct : (entries.map Prod.fst).Nodup)
    (named : ∀ entry ∈ entries, MemberName entry.1) {V : Root}
    (fits : PvField.Fits V.desc V.field)
    (gives : ∀ entry ∈ entries, Gives python V entry (given entry.1)) :
    ∃ next, setItems lib python.conversions V entries = .ok next ∧
      next.desc = V.desc ∧
      (∀ entry ∈ entries,
        next.field.atPath? [entry.1] = some (given entry.1)) ∧
      (∀ name, name ∉ entries.map Prod.fst →
        next.field.atPath? [name] = V.field.atPath? [name]) ∧
      V.marks ⊆ next.marks ∧
      ∀ entry ∈ entries, ∀ sub, V.desc.atPath? [entry.1] = some sub →
        ¬sub.IsStructure → next.marks ≠ ∅ := by
  induction entries generalizing V with
  | nil => exact ⟨V, rfl, rfl, by simp, fun _ _ => rfl, subset_rfl, by simp⟩
  | cons entry entries induction =>
      obtain ⟨key, obj⟩ := entry
      obtain ⟨sub, target, found, read, assigned⟩ :=
        gives _ List.mem_cons_self
      obtain ⟨fresh, distinct⟩ := List.nodup_cons.mp distinct
      obtain ⟨marks, put, more, marked, fieldFits⟩ := setItem_member lawful
        fits (named _ List.mem_cons_self) found read assigned
      have beside {name : Str} (apart : name ≠ key) :
          (replaced V [key] (given key) marks).field.atPath? [name] =
            V.field.atPath? [name] :=
        (SameBeside.put V key [] _ marks).field name [] apart
      have rest : ∀ other ∈ entries,
          Gives python (replaced V [key] (given key) marks) other
            (given other.1) := by
        intro other member
        obtain ⟨otherSub, otherTarget, otherFound, otherRead, taken⟩ :=
          gives other (List.mem_cons_of_mem _ member)
        have apart : other.1 ≠ key := fun same =>
          fresh (List.mem_map.mpr ⟨other, member, same⟩)
        exact ⟨otherSub, otherTarget, otherFound,
          (beside apart).trans otherRead, taken⟩
      obtain ⟨next, set, desc, laters, kept, later, filled⟩ :=
        @induction distinct
          (fun other member => named other (List.mem_cons_of_mem _ member))
          (replaced V [key] (given key) marks) (fits.putAt found fieldFits)
          rest
      refine ⟨next, ?_, desc, ?_, ?_, more.trans later, ?_⟩
      · rw [setItems, put]
        exact set
      · intro other member
        rcases List.mem_cons.mp member with rfl | inRest
        · exact (kept key fresh).trans (PvField.atPath?_putAt read _)
        · exact laters other inRest
      · intro name absent
        simp only [List.map_cons, List.mem_cons, not_or] at absent
        rw [kept name absent.2, beside absent.1]
      · intro other member otherSub otherFound leaf
        rcases List.mem_cons.mp member with rfl | inRest
        · cases found.symm.trans otherFound
          exact fun none => marked leaf
            (Finset.subset_empty.mp (none ▸ later))
        · exact filled other inRest otherSub otherFound leaf

theorem aligned_entries {Related : FieldDesc → PvField → PyObj → Prop}
    {members : List (Str × FieldDesc)} {fields : List (Str × PvField)}
    {content : List (Str × PyObj)}
    (aligned : Aligned Related members fields content) :
    ∀ entry ∈ content, ∃ desc field, (entry.1, desc) ∈ members ∧
      (entry.1, field) ∈ fields ∧ Related desc field entry.2 := by
  induction aligned with
  | nil => simp
  | cons name related _ induction =>
      intro entry member
      rcases List.mem_cons.mp member with rfl | inRest
      · exact ⟨_, _, List.mem_cons_self, List.mem_cons_self, related⟩
      · obtain ⟨desc, field, inMembers, inFields, related⟩ :=
          induction entry inRest
        exact ⟨desc, field, List.mem_cons_of_mem _ inMembers,
          List.mem_cons_of_mem _ inFields, related⟩

/-- The members of a value that is a copy are taken by a value with the same
members, and then it has the same fields. -/
theorem put_content (lawful : lib.Lawful) (keeps : python.Lawful)
    {source V : Root} {structId : Str} {members : List (Str × FieldDesc)}
    (desc : source.desc = .struct structId members)
    (copy : IsCopy python (.struct structId members) source.field)
    (fits : PvField.Fits V.desc V.field)
    (same : ∀ name desc, FieldDesc.named? members name = some desc →
      V.desc.atPath? [name] = some desc)
    (named : ∀ member ∈ members, MemberName member.1)
    (leaf : ∃ member ∈ members, ¬member.2.IsStructure) :
    ∃ content next,
      ((Handle.mk 0 source []).todict python none).result = .ok content ∧
      setItems lib python.conversions V content = .ok next ∧
      next.desc = V.desc ∧ next.marks ≠ ∅ ∧
      ∀ name ∈ members.map Prod.fst,
        next.field.atPath? [name] = source.field.atPath? [name] := by
  obtain ⟨subs, isField, distinct, names, copies⟩ := copy.members
  obtain ⟨content, aligned⟩ := @Aligned.exists (fun desc field obj =>
      toPy python true field desc = .ok obj ∧ IsCopy python desc field)
    members subs names fun member field inZip => by
      obtain ⟨obj, form⟩ := (copies member field inZip).typed.renders keeps
        true
      exact ⟨obj, form.rendered, copies member field inZip⟩
  have subsDistinct : (subs.map Prod.fst).Nodup := names ▸ distinct
  have made : dictOf (converters python subs) members = .ok content :=
    aligned.dictOf (fun _ _ _ both => both.1) fun _ _ member =>
      PvField.named?_of_mem subsDistinct member
  have keys := aligned.names
  have gives : ∀ entry ∈ content, Gives python V entry
      ((PvField.named? subs entry.1).getD .null) := by
    intro entry inContent
    obtain ⟨desc, field, inMembers, inFields, shown, copy⟩ :=
      aligned_entries aligned entry inContent
    have found := same entry.1 desc
      (FieldDesc.named?_of_mem distinct inMembers)
    obtain ⟨target, read, targetFits⟩ := fits.atPath? found
    rw [PvField.named?_of_mem subsDistinct inFields]
    exact ⟨desc, target, found, read, copy.back keeps shown targetFits⟩
  have entryOf {name : Str} (inList : name ∈ members.map Prod.fst) :
      ∃ entry ∈ content, entry.1 = name :=
    List.mem_map.mp (keys ▸ inList)
  obtain ⟨next, set, nextDesc, given, -, -, filled⟩ := @setItems_gives lib
    python lawful (fun name => (PvField.named? subs name).getD .null) content
    (keys ▸ distinct) (fun entry member => by
      obtain ⟨other, inList, isName⟩ := List.mem_map.mp
        (keys ▸ List.mem_map_of_mem member :
          entry.1 ∈ members.map Prod.fst)
      exact isName ▸ named other inList) V fits gives
  refine ⟨content, next, ?_, set, nextDesc, ?_, ?_⟩
  · have viewed : (Handle.mk 0 source []).viewed source =
        .ok (.struct structId members, .struct structId subs) := by
      rw [Handle.viewed, descAt, fieldAt, Separated.segments_nil,
        FieldDesc.atPath?_nil, PvField.atPath?_nil, desc, isField]
    rw [Handle.todict, Handle.locked, Locking.result_withLock,
      Locking.result_lift]
    simp only [viewed, Option.all_none, List.filter_true]
    exact made
  · obtain ⟨member, inList, leaf⟩ := leaf
    obtain ⟨entry, inContent, isName⟩ :=
      entryOf (List.mem_map_of_mem inList)
    refine filled entry inContent member.2 ?_ leaf
    rw [isName]
    exact same _ _ (FieldDesc.named?_of_mem distinct inList)
  · intro name inList
    obtain ⟨entry, inContent, rfl⟩ := entryOf inList
    obtain ⟨desc, field, -, inFields, -⟩ :=
      aligned_entries aligned entry inContent
    rw [given entry inContent, isField, PvField.atPath?_single,
      PvField.member?, PvField.named?_of_mem subsDistinct inFields]
    rfl

end Members

namespace NTNDArray

/-- `wrap(py)` takes the attributes that the array has with it. -/
def assign (lib : PvData) (python : Python) (V : Root) (py : Ndarray) :
    Except PyErr Root := do
  let wrapped ← wrap lib python [] py none
  let content ← ((Handle.mk 0 wrapped []).todict python none).result
  setItems lib python.conversions V content

/-- Equal attributes under a name.  A `Value` is not equal to another one. -/
def SameAttribute (python : Python) :
    Option Attribute → Option Attribute → Prop
  | some (.obj obj), some (.obj other) => obj.Equals python other
  | none, none => True
  | _, _ => False

/-- The same elements and shape, and equal attributes. -/
structure Same (python : Python) (x back : Unwrapped) : Prop where
  dtype : back.array.dtype = x.array.dtype
  shape : back.array.shape = x.array.shape
  elements : ∀ index, Strided.Within index x.array.shape →
    back.array.array.at? index = x.array.array.at? index
  attrib : ∀ name, SameAttribute python (x.array.attrib.lookup name)
    (back.array.attrib.lookup name)

/-- No colour mode is added, the attributes are restored from variants, and
the sizes are those that 32 bits hold. -/
structure Restored (python : Python) (x : Unwrapped) : Prop where
  color : "ColorMode".toList ∈ x.array.attrib.map Prod.fst ∨
    x.array.shape.length ≠ 2 ∧ x.array.shape.length ≠ 3
  attrib : ∀ entry ∈ x.array.attrib, ∃ obj, entry.2 = .obj obj ∧
    obj.Restored python
  sizes : sizesFor x.array.array.ravel.length
    (x.array.shape.map storedSize) = some x.array.shape

end NTNDArray

/-- The sizes of a numpy array are of type `Py_ssize_t`. -/
structure Ndarray.Sized (value : Ndarray) : Prop where
  bytes : value.nbytes < 2 ^ 63
  sizes : ∀ size ∈ value.shape, size < 2 ^ 63

namespace NTNDArray

section Source

variable {python : Python}

theorem reshape_ok {items : List ScalarValue} {shape : List Int}
    {array : Strided ScalarValue}
    (reshaped : reshape items shape = .ok array) :
    ∃ sizes same, sizesFor items.length shape = some sizes ∧
      array = Strided.reshape items sizes same := by
  rw [reshape] at reshaped
  split at reshaped
  · cases reshaped
  · rename_i sizes found
    split at reshaped
    · rename_i same
      exact ⟨sizes, same, found, (Except.ok.inj reshaped).symm⟩
    · cases reshaped

theorem sizesFor_ne_nil {size : Nat} {shape : List Int} {sizes : List Nat}
    (found : sizesFor size shape = some sizes) (axes : shape ≠ []) :
    sizes ≠ [] := by
  rintro rfl
  rw [sizesFor] at found
  split at found
  · rename_i none
    split at found
    · have empty := Option.some.inj found
      rw [List.map_eq_nil_iff] at empty
      have all : ∀ length ∈ shape, ¬length < 0 := by
        intro length member negative
        have here : length ∈ shape.filter (· < 0) :=
          List.mem_filter.mpr ⟨member, decide_eq_true negative⟩
        rw [none] at here
        cases here
      refine axes (List.eq_nil_iff_forall_not_mem.mpr ?_)
      intro length member
      have here : length ∈ shape.filter (0 ≤ ·) :=
        List.mem_filter.mpr
          ⟨member, decide_eq_true (not_lt.mp (all length member))⟩
      rw [empty] at here
      cases here
    · cases found
  · split at found
    · exact axes (List.map_eq_nil_iff.mp (Option.some.inj found))
    · cases found
  · cases found

theorem attributeOf_obj {V : Root} {key : Str} {obj : PyObj}
    (isObj : attributeOf python V key = .ok (.obj obj)) :
    V.get python key = .ok obj := by
  have given : (V.get python key).map Attribute.obj = .ok (.obj obj) →
      V.get python key = .ok obj := by
    cases V.get python key with
    | error error => exact nofun
    | ok other =>
        intro same
        cases same
        rfl
  rw [attributeOf] at isObj
  split at isObj
  · split at isObj
    · cases isObj
    · exact given isObj
  · exact given isObj

/-- An attribute that was read has a name that is kept, and its object was
read. -/
theorem attribute_read (relays : python.Relays) {structId fieldId : Str}
    {subs : List (Str × PvField)}
    (typed : HasType (.struct structId attributeMembers)
      (.struct fieldId subs)) {name : Str} {nameObj : PyObj}
    {content : Attribute}
    (nameRead : Root.get python ⟨.struct structId attributeMembers,
      .struct fieldId subs, ∅⟩ "name".toList = .ok nameObj)
    (isName : nameObj.extractText = .ok name)
    (contentRead : attributeOf python ⟨.struct structId attributeMembers,
      .struct fieldId subs, ∅⟩ "value".toList = .ok content) :
    python.asStrLossy name = name ∧
      ∀ obj, content = .obj obj → obj.IsRead python := by
  have read {key : Str} (named : MemberName key) {desc : FieldDesc}
      (found : FieldDesc.named? attributeMembers key = some desc)
      (leaf : ¬desc.IsStructure) {obj : PyObj}
      (got : Root.get python ⟨.struct structId attributeMembers,
        .struct fieldId subs, ∅⟩ key = .ok obj) : obj.IsRead python := by
    have path : (FieldDesc.struct structId attributeMembers).atPath? [key] =
        some desc := by
      rw [FieldDesc.atPath?_cons, FieldDesc.member?, found]
      exact FieldDesc.atPath?_nil desc
    obtain ⟨field, fieldRead, fieldTyped⟩ := typed.atPath? path
    rw [PvField.atPath?_single] at fieldRead
    exact fieldTyped.isRead relays
      ((Root.get_leaf named found leaf fieldRead ∅).symm.trans got)
  constructor
  · cases read (by simp [Separated.IsKey]) rfl id nameRead with
    | str text kept =>
        cases isName
        exact kept
    | _ => cases isName
  · rintro obj rfl
    exact read (by simp [Separated.IsKey]) rfl id
      (attributeOf_obj contentRead)

variable {W : Root} {extra : List (Str × FieldDesc)}

theorem found_member {key : Str} (named : MemberName key) {sub : FieldDesc}
    (found : FieldDesc.named? (members extra) key = some sub)
    (desc : W.desc = buildType extra) :
    W.desc.atPath? [key] = some sub ∧ descAt W.desc key = some sub ∧
      fieldAt W.field key = W.field.atPath? [key] := by
  have path : Separated.segments '.' key = [key] :=
    Separated.segments_of_isKey named
  have at_ : W.desc.atPath? [key] = some sub := by
    rw [desc, buildType, FieldDesc.atPath?_cons, FieldDesc.member?, found]
    exact FieldDesc.atPath?_nil sub
  exact ⟨at_, by rw [descAt, path]; exact at_, by rw [fieldAt, path]⟩

theorem attributes_read (relays : python.Relays) (source : IsValue W)
    (desc : W.desc = buildType extra) {attribs : List (Str × Attribute)}
    (got : attributes python W = .ok attribs) :
    (attribs.map Prod.fst).Nodup ∧ ∀ entry ∈ attribs,
      python.asStrLossy entry.1 = entry.1 ∧
        ∀ obj, entry.2 = .obj obj → obj.IsRead python := by
  obtain ⟨found, descFound, fieldFound⟩ := @found_member W extra
    "attribute".toList (by simp [Separated.IsKey]) _ rfl desc
  obtain ⟨field, read, typed⟩ := source.leaf found id
  cases typed with
  | structArray _ _ items itemsTyped =>
      rw [attributes, structures, descFound, fieldFound, read] at got
      simp only at got
      obtain ⟨entries, ended, made⟩ := bind_ok got
      obtain rfl := Except.ok.inj made
      obtain ⟨distinct, among⟩ := Dict.ofEntries_spec entries
      refine ⟨distinct, ?_⟩
      intro entry member
      obtain ⟨item, inItems, made⟩ :=
        mapM_mem ended entry (among entry member)
      obtain ⟨stored, inStored, rfl⟩ := List.mem_map.mp inItems
      cases stored with
      | none => cases made
      | some stored =>
          obtain ⟨nameObj, nameRead, made⟩ := bind_ok made
          obtain ⟨name, isName, made⟩ := bind_ok made
          obtain ⟨content, contentRead, made⟩ := bind_ok made
          obtain rfl := Except.ok.inj made
          exact attribute_read relays (itemsTyped _ _ inStored) nameRead
            isName contentRead

/-- What is known of an image that was read. -/
structure IsRead (python : Python) (x : Unwrapped) : Prop where
  number : x.array.dtype ≠ .string
  typed : ∀ item ∈ x.array.array.ravel, item.scalarType = x.array.dtype
  axes : x.array.shape ≠ []
  keys : (x.array.attrib.map Prod.fst).Nodup
  attrib : ∀ entry ∈ x.array.attrib, python.asStrLossy entry.1 = entry.1 ∧
    ∀ obj, entry.2 = .obj obj → obj.IsRead python

theorem unwrap_read (relays : python.Relays) (source : IsValue W)
    (desc : W.desc = buildType extra) {x : Unwrapped}
    (unwrapped : unwrap python W = .ok x) : IsRead python x := by
  obtain ⟨arr, got, unwrapped⟩ := bind_ok unwrapped
  obtain ⟨⟨dtype, items⟩, isPixels, unwrapped⟩ := bind_ok unwrapped
  obtain ⟨shape, -, unwrapped⟩ := bind_ok unwrapped
  obtain ⟨array, reshaped, unwrapped⟩ := bind_ok unwrapped
  obtain ⟨attribs, isAttribs, unwrapped⟩ := bind_ok unwrapped
  obtain rfl := Except.ok.inj unwrapped
  obtain ⟨found, -, -⟩ := @found_member W extra "value".toList
    (by simp [Separated.IsKey]) _ rfl desc
  obtain ⟨field, read, typed⟩ := source.leaf found id
  have named : ∀ name ∈ ["value".toList], MemberName name := by
    simp [Separated.IsKey]
  have shown := @get_dotted python W _ named _ found id field read
  rw [dotted, Separated.render_singleton, got] at shown
  have isNumbers : dtype ≠ .string ∧
      ∀ item ∈ items, item.scalarType = dtype := by
    cases typed.isRead relays shown.symm with
    | none =>
        cases isPixels
        exact ⟨(by simp), by simp⟩
    | array scalarType items number typed =>
        cases isPixels
        exact ⟨number, typed⟩
    | _ => cases isPixels
  obtain ⟨sizes, same, found, rfl⟩ := reshape_ok reshaped
  obtain ⟨keys, attrib⟩ := attributes_read relays source desc isAttribs
  refine ⟨isNumbers.1, ?_, ?_, keys, attrib⟩
  · intro item member
    exact isNumbers.2 item (Strided.mem_memory _ member)
  · refine sizesFor_ne_nil found ?_
    split
    · exact List.cons_ne_nil _ _
    · assumption

end Source

section Put

variable {lib : PvData} {python : Python} {extra : List (Str × FieldDesc)}

/-- An object that was read and that a variant takes is an attribute, and what
is read for it is equal to it exactly if it is restored. -/
theorem passes_read (relays : python.Relays) {name : Str}
    (kept : python.asStrLossy name = name) {obj : PyObj}
    (read : obj.IsRead python) (noValue : obj.isValue = false)
    {stored : PvField}
    (assigned : (obj.assign python .variant (zeroField .variant)).result =
      .ok stored) :
    ∃ back, Passes python (name, .obj obj) (name, .obj back) ∧
      (obj.Equals python back ↔ obj.Restored python) := by
  obtain ⟨back, holds, equal⟩ := read.stored relays noValue assigned
  exact ⟨back, ⟨rfl, kept, obj, stored, back, rfl, assigned, holds, rfl⟩,
    equal⟩

theorem translate_passes {attribs backs : List (Str × Attribute)}
    (passes : List.Forall₂ (Passes python) attribs backs) :
    attribs.mapM (fun entry =>
      translateNDAttribute python entry.1 entry.2) =
        .ok (attribs.map translated) := by
  induction passes with
  | nil => rfl
  | cons here _ induction =>
      obtain ⟨obj, stored, shown, isObj, -⟩ := here.stored
      rw [List.mapM_cons, induction, isObj, translateNDAttribute,
        List.map_cons, translated, isObj]
      rfl

/-- The array with its attributes is stored in a value of the default type. -/
theorem wrap_read (lawful : lib.Lawful) (relays : python.Relays)
    {x : Unwrapped} (read : IsRead python x) (sized : x.array.Sized)
    {attribs backs : List (Str × Attribute)}
    (colored : withColorMode x.array.shape x.array.attrib = .ok attribs)
    (passes : List.Forall₂ (Passes python) attribs backs) :
    ∃ wrapped, wrap lib python [] x.array none = .ok wrapped ∧
      Stores python [] x.array backs wrapped ∧
      IsCopy python (buildType []) wrapped.field := by
  obtain ⟨name, wrapped, code, created, stores, copy⟩ := create_stores lawful
    relays.toSane [] ⟨read.typed, sized.bytes⟩ read.number
    (fun size member => by
      have small := sized.sizes size member
      omega) passes
  refine ⟨wrapped, ?_, stores, copy rfl⟩
  have own : (if !x.array.attrib.isEmpty then x.array.attrib
      else (none : Option (List (Str × Attribute))).getD []) =
        x.array.attrib := by
    cases x.array.attrib <;> rfl
  simp only [wrap, own, colored, code, translate_passes passes, created,
    bind, Except.bind, Option.isSome_none, Bool.and_false,
    Bool.false_eq_true, if_false]

/-- The members of images are leaves or structures with names. -/
theorem members_named :
    ∀ member ∈ members [], MemberName member.1 := by
  simp [members, Separated.IsKey]

theorem named?_members {name : Str} {sub : FieldDesc}
    (found : FieldDesc.named? (members []) name = some sub) :
    FieldDesc.named? (members extra) name = some sub := by
  have extended : members extra = members [] ++ extra := by simp [members]
  rw [FieldDesc.named?] at found ⊢
  rw [extended, List.find?_append]
  obtain ⟨member, isMember, same⟩ := Option.map_eq_some_iff.mp found
  rw [isMember]
  exact congrArg some same

/-- Another value with the same three fields stores the array too. -/
theorem stores_congr {value : Ndarray} {backs : List (Str × Attribute)}
    {wrapped next : Root} (stores : Stores python [] value backs wrapped)
    (desc : next.desc = buildType extra)
    (same : ∀ name ∈ (members []).map Prod.fst,
      next.field.atPath? [name] = wrapped.field.atPath? [name]) :
    Stores python extra value backs next := by
  obtain ⟨-, pixels, sizes, attributes⟩ := stores
  have pixelsSame := same "value".toList (by simp [members])
  have sizesSame := same "dimension".toList (by simp [members])
  have attributesSame := same "attribute".toList (by simp [members])
  exact ⟨desc, pixelsSame ▸ pixels, sizesSame ▸ sizes,
    attributesSame ▸ attributes⟩

theorem assign_read (lawful : lib.Lawful) (relays : python.Relays)
    {x : Unwrapped} (read : IsRead python x) (sized : x.array.Sized)
    {attribs backs : List (Str × Attribute)}
    (colored : withColorMode x.array.shape x.array.attrib = .ok attribs)
    (passes : List.Forall₂ (Passes python) attribs backs) {V : Root}
    (value : IsValue V) (desc : V.desc = buildType extra) :
    ∃ next, assign lib python V x.array = .ok next ∧ next.marks ≠ ∅ ∧
      Stores python extra x.array backs next := by
  obtain ⟨wrapped, made, stores, copy⟩ :=
    wrap_read lawful relays read sized colored passes
  have found (name : Str) (sub : FieldDesc)
      (isMember : FieldDesc.named? (members []) name = some sub) :
      V.desc.atPath? [name] = some sub := by
    rw [desc, buildType, FieldDesc.atPath?_cons, FieldDesc.member?,
      named?_members isMember]
    exact FieldDesc.atPath?_nil sub
  obtain ⟨content, next, shown, set, nextDesc, filled, same⟩ :=
    put_content lawful relays.lawful stores.desc copy value.fits found
      members_named ⟨_, List.mem_cons_self, id⟩
  refine ⟨next, ?_, filled, stores_congr stores (nextDesc.trans desc) same⟩
  simp only [assign, made, shown, set, bind, Except.bind]

theorem structs_taken {structId : Str} {fields : List (Str × FieldDesc)}
    {objs : List PyObj} {target field : PvField}
    (assigned : ((PyObj.list objs).assign python
      (.structArray structId fields) target).result = .ok field) :
    ∀ obj ∈ objs, obj.isNone = false → ∃ taken,
      (obj.assign python (.struct structId fields)
        (python.defaultValueFor (.struct structId fields))).result =
          .ok taken := by
  rw [PyObj.assign_eq, Node.assign, Locking.result_bind_ok_iff] at assigned
  obtain ⟨items, ended, -⟩ := assigned
  rw [buildItems_list, Locking.result_each_ok_iff] at ended
  clear field
  induction ended with
  | nil => simp
  | @cons first item objs items here _ induction =>
      intro obj member some
      rcases List.mem_cons.mp member with rfl | inRest
      · rw [some, if_neg Bool.false_ne_true] at here
        obtain ⟨taken, built, -⟩ :=
          (Locking.result_bind_ok_iff _ _ _).mp here
        exact ⟨taken, built⟩
      · exact induction obj inRest some

/-- A dict that a structure takes has entries that its members take. -/
theorem strDict_taken {structId : Str} {fields : List (Str × FieldDesc)}
    {entries : List (Str × PyObj)} {field : PvField}
    (distinct : (entries.map Prod.fst).Nodup)
    (assigned : ((PyObj.strDict entries).assign python
      (.struct structId fields) (zeroField (.struct structId fields))).result =
        .ok field) :
    ∀ entry ∈ entries, ∃ desc taken,
      FieldDesc.named? fields entry.1 = some desc ∧
      (entry.2.assign python desc (zeroField desc)).result = .ok taken := by
  rw [zeroField] at assigned
  obtain ⟨result, ended, -⟩ :=
    (PyObj.assign_dict_iff _ _ _ _ _).mp assigned
  intro entry member
  obtain ⟨taken, takes, -⟩ :=
    (Node.assignEntries_takes distinct ended).1 entry member
  obtain ⟨desc, found, assigned⟩ := takes_zero_iff.mp takes
  exact ⟨desc, taken, found, assigned⟩

theorem withColorMode_ok {shape : List Nat}
    {attrib attribs : List (Str × Attribute)}
    (colored : withColorMode shape attrib = .ok attribs) :
    ∃ deduced, Deduced shape attrib deduced ∧
      attribs = attrib ++ deduced := by
  by_cases color : shape.length = 3 →
      3 ∈ shape ∨ "ColorMode".toList ∈ attrib.map Prod.fst
  · obtain ⟨deduced, is, same⟩ := deduced_gives color
    exact ⟨deduced, is, Except.ok.inj (colored.symm.trans same)⟩
  · obtain ⟨space, missing⟩ := Classical.not_imp.mp color
    rw [not_or] at missing
    have absent : ¬(attrib.lookup "ColorMode".toList).isSome := by
      intro found
      obtain ⟨mode, found⟩ := Option.isSome_iff_exists.mp found
      exact missing.2
        (List.mem_map.mpr ⟨_, Dict.mem_of_lookup found, rfl⟩)
    have never : shape.reverse.findIdx? (· = 3) = none := by
      rw [List.findIdx?_eq_none_iff]
      intro length member
      refine decide_eq_false ?_
      rintro rfl
      exact missing.1 (List.mem_reverse.mp member)
    rw [withColorMode, if_neg absent, if_neg (by omega), if_pos space,
      never] at colored
    cases colored

theorem wrap_taken (lawful : lib.Lawful) (sane : python.Sane)
    {value : Ndarray} {wrapped : Root}
    (made : wrap lib python [] value none = .ok wrapped)
    (plain : ∀ entry ∈ value.attrib, ∃ obj, entry.2 = .obj obj) :
    ∃ deduced, Deduced value.shape value.attrib deduced ∧
      withColorMode value.shape value.attrib =
        .ok (value.attrib ++ deduced) ∧
      ∀ entry ∈ value.attrib ++ deduced, ∃ stored,
        (entry.2.toObj.assign python .variant (zeroField .variant)).result =
          .ok stored := by
  have own : (if !value.attrib.isEmpty then value.attrib
      else (none : Option (List (Str × Attribute))).getD []) =
        value.attrib := by
    cases value.attrib <;> rfl
  simp only [wrap, own] at made
  obtain ⟨attribs, colored, made⟩ := bind_ok made
  cases code : code2u value.dtype with
  | none =>
      rw [code] at made
      cases made
  | some name =>
  rw [code] at made
  obtain ⟨other, isName, made⟩ := bind_ok made
  obtain rfl := Except.ok.inj isName
  obtain ⟨objs, translations, made⟩ := bind_ok made
  obtain ⟨V, created, -⟩ := bind_ok made
  obtain ⟨deduced, is, rfl⟩ := withColorMode_ok colored
  refine ⟨deduced, is, colored, ?_⟩
  have isObj : ∀ entry ∈ value.attrib ++ deduced,
      entry.2 = .obj entry.2.toObj := by
    intro entry member
    rcases List.mem_append.mp member with given | added
    · obtain ⟨obj, same⟩ := plain entry given
      rw [same]
      rfl
    · exact (is.plain entry added).eq_obj
  have same : (value.attrib ++ deduced).mapM (fun entry =>
      translateNDAttribute python entry.1 entry.2) =
        .ok ((value.attrib ++ deduced).map translated) := by
    refine mapM_ok fun entry member => ?_
    rw [isObj entry member]
    rfl
  obtain rfl := Except.ok.inj (translations.symm.trans same)
  obtain ⟨-, assigned⟩ := Root.create_ok lawful created
  rw [sane.default] at assigned
  have distinct : ((initial value name ((value.attrib ++ deduced).map
      translated)).map Prod.fst).Nodup := by
    simp [initial]
  obtain ⟨desc, taken, found, listAssigned⟩ := strDict_taken distinct assigned
    ("attribute".toList, .list ((value.attrib ++ deduced).map translated))
    (by simp [initial])
  cases found
  intro entry member
  obtain ⟨built, entryAssigned⟩ := structs_taken listAssigned
    (translated entry) (List.mem_map_of_mem member) rfl
  rw [sane.default] at entryAssigned
  obtain ⟨desc, stored, found, contentAssigned⟩ := strDict_taken (by simp)
    entryAssigned ("value".toList, entry.2.toObj) (by simp)
  cases found
  exact ⟨stored, contentAssigned⟩

theorem same_keys {attribs backs : List (Str × Attribute)}
    (passes : List.Forall₂ (Passes python) attribs backs) :
    backs.map Prod.fst = attribs.map Prod.fst := by
  induction passes with
  | nil => rfl
  | cons here _ induction =>
      rw [List.map_cons, List.map_cons, here.name, induction]

/-- An attribute is equal to what is read for it exactly if it is restored. -/
def Judged (python : Python) (entry back : Str × Attribute) : Prop :=
  SameAttribute python (some entry.2) (some back.2) ↔
    ∃ obj, entry.2 = .obj obj ∧ obj.Restored python

theorem attributes_back (relays : python.Relays)
    {attribs : List (Str × Attribute)}
    (read : ∀ entry ∈ attribs, python.asStrLossy entry.1 = entry.1 ∧
      ∀ obj, entry.2 = .obj obj → obj.IsRead python)
    (taken : ∀ entry ∈ attribs, ∃ obj stored, entry.2 = .obj obj ∧
      obj.isValue = false ∧
      (obj.assign python .variant (zeroField .variant)).result =
        .ok stored) :
    ∃ backs, List.Forall₂ (fun entry back =>
      Passes python entry back ∧ Judged python entry back) attribs backs := by
  refine exists_forall₂ fun entry member => ?_
  obtain ⟨kept, isRead⟩ := read entry member
  obtain ⟨obj, stored, is, noValue, assigned⟩ := taken entry member
  obtain ⟨back, passes, equal⟩ :=
    passes_read relays kept (isRead obj is) noValue assigned
  obtain ⟨name, content⟩ := entry
  obtain rfl : content = .obj obj := is
  refine ⟨_, passes, ?_⟩
  rw [Judged]
  exact equal.trans ⟨fun restored => ⟨obj, rfl, restored⟩,
    fun ⟨_, same, restored⟩ => Attribute.obj.inj same ▸ restored⟩

theorem deduced_read (relays : python.Relays) {shape : List Nat}
    {attrib deduced : List (Str × Attribute)}
    (is : Deduced shape attrib deduced) :
    ∀ entry ∈ deduced, entry.1 = "ColorMode".toList ∧
      python.asStrLossy entry.1 = entry.1 ∧
      ∃ mode : Int, entry.2 = .obj (.int mode) := by
  have kept : python.asStrLossy "ColorMode".toList = "ColorMode".toList :=
    relays.ascii _ (by simp)
  intro entry member
  cases is with
  | given => cases member
  | mono =>
      rw [List.mem_singleton.mp member]
      exact ⟨rfl, kept, 0, rfl⟩
  | @color _ rank axis length =>
      rw [List.mem_singleton.mp member]
      exact ⟨rfl, kept, 2 + axis, rfl⟩
  | other => cases member

/-- What is known of the attributes that are put, the deduced one included. -/
theorem colored_read (relays : python.Relays) {x : Unwrapped}
    (read : IsRead python x) {deduced : List (Str × Attribute)}
    (is : Deduced x.array.shape x.array.attrib deduced) :
    ∀ entry ∈ x.array.attrib ++ deduced,
      python.asStrLossy entry.1 = entry.1 ∧
        ∀ obj, entry.2 = .obj obj → obj.IsRead python := by
  intro entry member
  rcases List.mem_append.mp member with given | added
  · exact read.attrib entry given
  · obtain ⟨-, kept, mode, isMode⟩ := deduced_read relays is entry added
    refine ⟨kept, ?_⟩
    intro obj same
    rw [isMode] at same
    cases same
    exact .int mode

theorem puts_back (lawful : lib.Lawful) (relays : python.Relays)
    {x : Unwrapped} (read : IsRead python x) (sized : x.array.Sized)
    {V : Root} (value : IsValue V) (desc : V.desc = buildType extra)
    (restored : Restored python x) :
    ∃ next back, assign lib python V x.array = .ok next ∧ next.marks ≠ ∅ ∧
      unwrap python next = .ok back ∧ Same python x back := by
  have colored : withColorMode x.array.shape x.array.attrib =
      .ok x.array.attrib := by
    have known : x.array.shape.length = 3 → 3 ∈ x.array.shape ∨
        "ColorMode".toList ∈ x.array.attrib.map Prod.fst := by
      intro space
      rcases restored.color with here | ⟨-, notSpace⟩
      · exact .inr here
      · exact (notSpace space).elim
    obtain ⟨deduced, is, same⟩ := deduced_gives known
    have none : deduced = [] := by
      cases is with
      | given => rfl
      | mono absent plane =>
          exact (restored.color.elim absent fun other => other.1 plane).elim
      | color absent space =>
          exact (restored.color.elim absent fun other => other.2 space).elim
      | other => rfl
    rw [same, none, List.append_nil]
  obtain ⟨backs, judged⟩ := attributes_back relays read.attrib (by
    intro entry member
    obtain ⟨obj, is, restored⟩ := restored.attrib entry member
    obtain ⟨stored, assigned⟩ := restored.stored relays.lawful
      ((read.attrib entry member).2 obj is) (zeroField .variant)
    exact ⟨obj, stored, is, restored.not_value, assigned⟩)
  have passes := judged.imp fun _ _ both => both.1
  obtain ⟨next, assigned, marked, stores⟩ :=
    assign_read lawful relays read sized colored passes value desc
  have keys : (backs.map Prod.fst).Nodup := by
    rw [same_keys passes]
    exact read.keys
  have unwrapped := stores.unwrap_eq read.number read.axes keys
  have length : x.array.array.ravel.length = x.array.shape.prod :=
    x.array.array.length_ravel
  rw [reshape, restored.sizes] at unwrapped
  simp only [dif_pos length] at unwrapped
  refine ⟨next, _, assigned, marked, unwrapped, rfl, rfl, ?_, ?_⟩
  · intro index within
    exact x.array.array.at?_reshape_ravel within
  · intro name
    have related := Dict.lookup_forall₂
      (judged.imp fun _ _ both => ⟨both.1.name, both.2⟩) name
    have among (content : Attribute)
        (found : x.array.attrib.lookup name = some content) :=
      restored.attrib _ (Dict.mem_of_lookup found)
    change SameAttribute python (x.array.attrib.lookup name)
      (backs.lookup name)
    generalize x.array.attrib.lookup name = before at related among
    generalize backs.lookup name = after at related
    cases related with
    | none => trivial
    | some judged => exact judged.mpr (among _ rfl)

theorem restored_of_back (lawful : lib.Lawful) (relays : python.Relays)
    {x : Unwrapped} (read : IsRead python x) (sized : x.array.Sized)
    {V next : Root} (value : IsValue V) (desc : V.desc = buildType extra)
    (assigned : assign lib python V x.array = .ok next) {back : Unwrapped}
    (unwrapped : unwrap python next = .ok back) (same : Same python x back) :
    Restored python x := by
  have equals : ∀ entry ∈ x.array.attrib, ∃ obj other,
      entry.2 = .obj obj ∧ obj.Equals python other := by
    intro entry member
    have here := same.attrib entry.1
    rw [Dict.lookup_of_mem read.keys member] at here
    cases is : entry.2 with
    | value V =>
        rw [is] at here
        cases back.array.attrib.lookup entry.1 <;> exact here.elim
    | obj obj =>
        rw [is] at here
        cases found : back.array.attrib.lookup entry.1 with
        | none =>
            rw [found] at here
            exact here.elim
        | some other =>
            rw [found] at here
            cases other with
            | value V => exact here.elim
            | obj other => exact ⟨obj, other, rfl, here⟩
  obtain ⟨wrapped, made, -⟩ := bind_ok assigned
  obtain ⟨deduced, is, colored, taken⟩ := wrap_taken lawful relays.toSane made
    fun entry member => (equals entry member).imp fun _ ⟨_, is, _⟩ => is
  obtain ⟨backs, judged⟩ := attributes_back relays
    (colored_read relays read is) (by
      intro entry member
      obtain ⟨stored, assigned⟩ := taken entry member
      rcases List.mem_append.mp member with given | added
      · obtain ⟨obj, other, isObj, equal⟩ := equals entry given
        rw [isObj] at assigned
        exact ⟨obj, stored, isObj, equal.not_value, assigned⟩
      · obtain ⟨-, -, mode, isMode⟩ := deduced_read relays is entry added
        rw [isMode] at assigned
        exact ⟨.int mode, stored, isMode, rfl, assigned⟩)
  have passes := judged.imp fun _ _ both => both.1
  obtain ⟨_, again, -, stores⟩ :=
    assign_read lawful relays read sized colored passes value desc
  cases assigned.symm.trans again
  have keys : (backs.map Prod.fst).Nodup := by
    rw [same_keys passes]
    exact is.keys read.keys
  rw [stores.unwrap_eq read.number read.axes keys] at unwrapped
  cases reshaped : reshape x.array.array.ravel
      (x.array.shape.map storedSize) with
  | error error =>
      rw [reshaped] at unwrapped
      cases unwrapped
  | ok array =>
      rw [reshaped] at unwrapped
      cases unwrapped
      have related := Dict.lookup_forall₂
        (judged.imp fun _ _ both => ⟨both.1.name, both.2⟩)
      have distinct := is.keys read.keys
      refine ⟨?_, ?_, ?_⟩
      · have added (mode : Attribute)
            (absent : "ColorMode".toList ∉ x.array.attrib.map Prod.fst)
            (inAll : ("ColorMode".toList, mode) ∈
              x.array.attrib ++ deduced) : False := by
          have here := related "ColorMode".toList
          have before := same.attrib "ColorMode".toList
          rw [Dict.lookup_of_mem distinct inAll] at here
          have none : x.array.attrib.lookup "ColorMode".toList = none := by
            rw [List.lookup_eq_none_iff]
            intro entry member
            exact bne_iff_ne.mpr fun isColor => absent
              (List.mem_map.mpr ⟨entry, member, isColor.symm⟩)
          rw [none] at before
          generalize backs.lookup "ColorMode".toList = found at here before
          cases here
          exact before
        cases is with
        | given here => exact .inl here
        | mono absent =>
            exact (added _ absent
              (List.mem_append_right _ List.mem_cons_self)).elim
        | color absent =>
            exact (added _ absent
              (List.mem_append_right _ List.mem_cons_self)).elim
        | other _ rank => exact .inr rank
      · intro entry member
        have here := related entry.1
        have after := same.attrib entry.1
        rw [Dict.lookup_of_mem read.keys member] at after
        rw [Dict.lookup_of_mem distinct
          (List.mem_append_left deduced member)] at here
        generalize backs.lookup entry.1 = found at here after
        cases here with
        | some judged => exact judged.mp after
      · obtain ⟨sizes, _, found, rfl⟩ := reshape_ok reshaped
        rw [found]
        exact congrArg some same.shape

/-- An array that was read is put back exactly if it is restored. -/
theorem puts_back_iff (lawful : lib.Lawful) (relays : python.Relays)
    {x : Unwrapped} (read : IsRead python x) (sized : x.array.Sized)
    {V : Root} (value : IsValue V) (desc : V.desc = buildType extra)
    (IsEmpty : Unwrapped → Prop) :
    PutsBack (fun V x => assign lib python V x.array) (unwrap python) IsEmpty
      (Same python) x V ↔ Restored python x := by
  constructor
  · rintro ⟨next, back, assigned, -, unwrapped, same⟩
    exact restored_of_back lawful relays read sized value desc assigned
      unwrapped same
  · intro restored
    obtain ⟨next, back, assigned, marked, unwrapped, same⟩ :=
      puts_back lawful relays read sized value desc restored
    exact ⟨next, back, assigned, fun _ => marked, unwrapped, same⟩

end Put

end NTNDArray

end Repics.Pva.Nt
