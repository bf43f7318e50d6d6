import Repics.Pva.Value.Copy
import Repics.Pva.Value.Spec

/-!
# What a put sends

A put sends the marked leaves of a root by name.  Names may be empty, repeated
or contain dots, so a leaf is told by its address here: the position of each
member on the way to it.  `Addressable` says which leaves their names lead to.
-/

namespace Repics.Pva

/-- Where a node stands: the positions of the members on the way to it. -/
abbrev Address := List Nat

namespace FieldDesc

def atAddress? : FieldDesc → Address → Option FieldDesc
  | desc, [] => some desc
  | .struct _ fields, index :: rest =>
      (fields[index]?).bind fun member => member.2.atAddress? rest
  | _, _ :: _ => none

/-- The names of the members on the way to an address. -/
def namesAt : FieldDesc → Address → List Str
  | .struct _ fields, index :: rest =>
      match fields[index]? with
      | some (name, child) => name :: child.namesAt rest
      | none => []
  | _, _ => []

/-- The number of nodes in and below some members. -/
def nodes (fields : List (Str × FieldDesc)) : Nat :=
  LabelTree.forestSize (memberTrees fields)

/-- The depth-first number of the node at an address. -/
def numberAt : FieldDesc → Address → Nat
  | .struct _ fields, index :: rest =>
      match fields[index]? with
      | some (_, child) =>
          1 + nodes (fields.take index) + child.numberAt rest
      | none => 0
  | _, _ => 0

/-- The address to which a path of names leads: each name stands for the first
member that has it. -/
def locate : FieldDesc → List Str → Option Address
  | _, [] => some []
  | .struct _ fields, name :: path =>
      (fields.findIdx? fun member => member.1 = name).bind fun index =>
        (fields[index]?).bind fun member =>
          (member.2.locate path).map (index :: ·)
  | _, _ :: _ => none

/-- No name on the way to an address is empty, contains a dot or stands for a
member before. -/
def Addressable : FieldDesc → Address → Prop
  | _, [] => True
  | .struct _ fields, index :: rest =>
      ∃ name child, fields[index]? = some (name, child) ∧ MemberName name ∧
        (∀ before < index, ∀ member, fields[before]? = some member →
          member.1 ≠ name) ∧
        child.Addressable rest
  | _, _ :: _ => False

def IsLeafAt (desc : FieldDesc) (address : Address) : Prop :=
  ∃ leaf, desc.atAddress? address = some leaf ∧ ¬leaf.IsStructure

end FieldDesc

def PvField.atAddress? : PvField → Address → Option PvField
  | field, [] => some field
  | .struct _ fields, index :: rest =>
      (fields[index]?).bind fun member => member.2.atAddress? rest
  | _, _ :: _ => none

namespace Root

/-- The leaf is marked, or a structure above it. -/
def MarkedLeaf (root : Root) (leaf : Address) : Prop :=
  root.desc.IsLeafAt leaf ∧
    ∃ node, node <+: leaf ∧ root.desc.numberAt node ∈ root.marks

/-- The leaf at an address is sent under a path that leads to it, and indexing
by the path gives the field sent. -/
structure SentAs (root : Root) (leaf : Address) (sent : Str × PvField) :
    Prop where
  leads : root.desc.locate (Separated.segments '.' sent.1) = some leaf
  field : root.field.atAddress? leaf = some sent.2
  indexed : fieldAt root.field sent.1 = some sent.2

/-- What is sent corresponds, one to one, to the marked leaves. -/
def Sends (root : Root) (sent : List (Str × PvField)) : Prop :=
  ∃ leaves : List Address, leaves.Nodup ∧
    (∀ leaf, leaf ∈ leaves ↔ root.MarkedLeaf leaf) ∧
    List.Forall₂ root.SentAs leaves sent

end Root

namespace FieldDesc

theorem findIdx?_name_iff {fields : List (Str × FieldDesc)} {name : Str}
    {index : Nat} :
    (fields.findIdx? fun member => member.1 = name) = some index ↔
      (∃ child, fields[index]? = some (name, child)) ∧
        ∀ before < index, ∀ member, fields[before]? = some member →
          member.1 ≠ name := by
  rw [List.findIdx?_eq_some_iff_getElem]
  constructor
  · rintro ⟨inside, same, first⟩
    have name_eq : fields[index].1 = name := of_decide_eq_true same
    refine ⟨⟨fields[index].2, ?_⟩, ?_⟩
    · rw [← name_eq]
      exact List.getElem?_eq_getElem inside
    · intro before earlier member found
      obtain ⟨bound, same⟩ := List.getElem?_eq_some_iff.mp found
      have different := first before earlier
      rw [same] at different
      exact of_decide_eq_false (Bool.not_eq_true _ ▸ different)
  · rintro ⟨⟨child, found⟩, first⟩
    obtain ⟨inside, same⟩ := List.getElem?_eq_some_iff.mp found
    refine ⟨inside, by simp [same], ?_⟩
    intro before earlier
    have bound : before < fields.length := by omega
    have different :=
      first before earlier _ (List.getElem?_eq_getElem bound)
    simpa using different

theorem locate_cons_iff {structId name : Str}
    {fields : List (Str × FieldDesc)} {path : List Str} {address : Address} :
    (struct structId fields).locate (name :: path) = some address ↔
      ∃ index child rest, address = index :: rest ∧
        fields[index]? = some (name, child) ∧
        (∀ before < index, ∀ member, fields[before]? = some member →
          member.1 ≠ name) ∧
        child.locate path = some rest := by
  simp only [locate, Option.bind_eq_some_iff, Option.map_eq_some_iff,
    findIdx?_name_iff]
  constructor
  · rintro ⟨index, ⟨⟨child, found⟩, first⟩, member, memberFound, rest, located,
      rfl⟩
    cases found.symm.trans memberFound
    exact ⟨index, child, rest, rfl, found, first, located⟩
  · rintro ⟨index, child, rest, rfl, found, first, located⟩
    exact ⟨index, ⟨⟨child, found⟩, first⟩, _, found, rest, located, rfl⟩

theorem namesAt_cons {structId name : Str}
    {fields : List (Str × FieldDesc)} {index : Nat} {child : FieldDesc}
    (found : fields[index]? = some (name, child)) (rest : Address) :
    (struct structId fields).namesAt (index :: rest) =
      name :: child.namesAt rest := by
  simp only [namesAt, found]

theorem namesAt_nil (desc : FieldDesc) : desc.namesAt [] = [] := by
  cases desc <;> rfl

theorem Addressable.locate {desc : FieldDesc} {address : Address}
    (addressable : desc.Addressable address) :
    desc.locate (desc.namesAt address) = some address ∧
      ∀ name ∈ desc.namesAt address, MemberName name := by
  induction address generalizing desc with
  | nil => simp [namesAt_nil, FieldDesc.locate]
  | cons index rest induction =>
      cases desc with
      | struct structId fields =>
          obtain ⟨name, child, found, valid, first, below⟩ := addressable
          obtain ⟨located, names⟩ := induction below
          rw [namesAt_cons found, locate_cons_iff]
          refine ⟨⟨index, child, rest, rfl, found, first, located⟩, ?_⟩
          intro key member
          rcases List.mem_cons.mp member with rfl | later
          · exact valid
          · exact names key later
      | _ => cases addressable

theorem addressable_of_locate {desc : FieldDesc} {path : List Str}
    {address : Address} (located : desc.locate path = some address)
    (names : ∀ name ∈ path, MemberName name) :
    desc.Addressable address ∧ desc.namesAt address = path := by
  induction path generalizing desc address with
  | nil =>
      rw [FieldDesc.locate] at located
      cases located
      exact ⟨by simp [Addressable], namesAt_nil desc⟩
  | cons name path induction =>
      cases desc with
      | struct structId fields =>
          obtain ⟨index, child, rest, rfl, found, first, below⟩ :=
            locate_cons_iff.mp located
          obtain ⟨addressable, same⟩ := induction below fun key member =>
            names key (List.mem_cons_of_mem name member)
          refine ⟨?_, by rw [namesAt_cons found, same]⟩
          exact ⟨name, child, found, names name List.mem_cons_self, first,
            addressable⟩
      | _ => cases located

end FieldDesc

theorem PvField.FitMembers.at_index {members : List (Str × FieldDesc)}
    {fields : List (Str × PvField)} (fits : FitMembers members fields)
    {index : Nat} {name : Str} {child : FieldDesc}
    (found : members[index]? = some (name, child))
    (first : ∀ before < index, ∀ member, members[before]? = some member →
      member.1 ≠ name) :
    ∃ sub, fields[index]? = some (name, sub) ∧ Fits child sub ∧
      named? fields name = some sub := by
  induction index generalizing members fields with
  | zero =>
      cases members with
      | nil => cases found
      | cons member members =>
          cases fields with
          | nil => simp [FitMembers] at fits
          | cons field fields =>
              obtain ⟨label, sub⟩ := field
              cases found
              simp only [FitMembers] at fits
              obtain ⟨rfl, subFits, -⟩ := fits
              exact ⟨sub, rfl, subFits, by simp [named?_cons]⟩
  | succ index induction =>
      cases members with
      | nil => cases found
      | cons member members =>
          obtain ⟨memberName, desc⟩ := member
          cases fields with
          | nil => simp [FitMembers] at fits
          | cons field fields =>
              obtain ⟨label, other⟩ := field
              simp only [FitMembers] at fits
              obtain ⟨rfl, -, restFits⟩ := fits
              have apart : label ≠ name := first 0 (by omega) _ rfl
              obtain ⟨sub, here, subFits, named⟩ := induction restFits found
                fun before earlier member memberFound =>
                  first (before + 1) (by omega) member memberFound
              exact ⟨sub, here, subFits, by rw [named?_cons, if_neg apart,
                named]⟩

/-- A field that fits has the same names at the same addresses. -/
theorem PvField.Fits.atAddress? {desc : FieldDesc} {field : PvField}
    (fits : Fits desc field) {path : List Str} {address : Address}
    (located : desc.locate path = some address) :
    ∃ found, field.atAddress? address = some found ∧
      field.atPath? path = some found := by
  induction path generalizing desc field address with
  | nil =>
      rw [FieldDesc.locate] at located
      cases located
      exact ⟨field, by simp [PvField.atAddress?], atPath?_nil field⟩
  | cons name path induction =>
      cases desc with
      | struct structId members =>
          cases field with
          | struct fieldId fields =>
              obtain ⟨index, child, rest, rfl, found, first, below⟩ :=
                FieldDesc.locate_cons_iff.mp located
              obtain ⟨sub, here, subFits, named⟩ :=
                fits.2.at_index found first
              obtain ⟨last, lastFound, lastNamed⟩ := induction subFits below
              refine ⟨last, ?_, ?_⟩
              · simp only [PvField.atAddress?, here, Option.bind_some,
                  lastFound]
              · rw [atPath?_cons, PvField.member?, named, Option.bind_some,
                  lastNamed]
          | _ => cases fits
      | _ => cases located

theorem segments_join (front key : Str) :
    Separated.segments '.' (join front key) =
      Separated.segments '.' front ++ Separated.segments '.' key := by
  unfold join
  split_ifs with frontEmpty keyEmpty
  · rw [frontEmpty, Separated.segments_nil, List.nil_append]
  · rw [keyEmpty, Separated.segments_nil, List.append_nil]
  · exact Separated.segments_append front key

theorem segments_foldl_join (front : Str) (names : List Str) :
    Separated.segments '.' (names.foldl join front) =
      Separated.segments '.' front ++
        names.flatMap (Separated.segments '.') := by
  induction names generalizing front with
  | nil => simp
  | cons name names induction =>
      rw [List.foldl_cons, induction, segments_join, List.flatMap_cons,
        List.append_assoc]

namespace FieldDesc

/-- The path that is sent for an address. -/
def textAt (desc : FieldDesc) (address : Address) : Str :=
  (desc.namesAt address).foldl join []

theorem segments_textAt (desc : FieldDesc) (address : Address) :
    Separated.segments '.' (desc.textAt address) =
      (desc.namesAt address).flatMap (Separated.segments '.') := by
  rw [textAt, segments_foldl_join, Separated.segments_nil, List.nil_append]

theorem Addressable.segments_textAt {desc : FieldDesc} {address : Address}
    (addressable : desc.Addressable address) :
    Separated.segments '.' (desc.textAt address) = desc.namesAt address := by
  rw [FieldDesc.segments_textAt]
  have names := addressable.locate.2
  generalize desc.namesAt address = path at names
  induction path with
  | nil => rfl
  | cons name path induction =>
      rw [List.flatMap_cons,
        Separated.segments_of_isKey (names name List.mem_cons_self),
        induction fun key member =>
          names key (List.mem_cons_of_mem name member)]
      rfl

/-- The text of an address leads to it if the node is addressable. -/
theorem Addressable.textAt_leads {desc : FieldDesc} {address : Address}
    (addressable : desc.Addressable address) :
    desc.locate (Separated.segments '.' (desc.textAt address)) =
      some address := by
  rw [addressable.segments_textAt]
  exact addressable.locate.1

theorem addressable_of_leads {desc : FieldDesc} {text : Str}
    {address : Address}
    (leads : desc.locate (Separated.segments '.' text) = some address) :
    desc.Addressable address :=
  (addressable_of_locate leads fun _ member =>
    Separated.isKey_of_mem_segments member).1

end FieldDesc

section Marked

variable (marks : BitSet)

mutual

/-- The addresses of the marked leaves under a descriptor with own bit
`bit`. -/
def markedUnder : FieldDesc → Nat → Bool → List Address
  | .struct _ fields, bit, inherited =>
      markedMembers fields (bit + 1) 0 (inherited || decide (bit ∈ marks))
  | _, bit, inherited =>
      if inherited || decide (bit ∈ marks) then [[]] else []

def markedMembers : List (Str × FieldDesc) → Nat → Nat → Bool → List Address
  | [], _, _, _ => []
  | (_, child) :: rest, bit, index, inherited =>
      (markedUnder child bit inherited).map (index :: ·) ++
        markedMembers rest (bit + child.tree.size) (index + 1) inherited

end

theorem markedUnder_other {desc : FieldDesc} (other : ¬desc.IsStructure)
    (bit : Nat) (inherited : Bool) :
    markedUnder marks desc bit inherited =
      if inherited || decide (bit ∈ marks) then [[]] else [] := by
  cases desc with
  | struct => exact absurd trivial other
  | _ => rfl

theorem nodes_cons (name : Str) (child : FieldDesc)
    (fields : List (Str × FieldDesc)) :
    FieldDesc.nodes ((name, child) :: fields) =
      child.tree.size + FieldDesc.nodes fields :=
  rfl

theorem mem_markedMembers_iff {fields : List (Str × FieldDesc)}
    {bit index : Nat} {inherited : Bool} {address : Address} :
    address ∈ markedMembers marks fields bit index inherited ↔
      ∃ offset name child rest, address = (index + offset) :: rest ∧
        fields[offset]? = some (name, child) ∧
        rest ∈ markedUnder marks child
          (bit + FieldDesc.nodes (fields.take offset)) inherited := by
  induction fields generalizing bit index with
  | nil => simp [markedMembers]
  | cons member fields induction =>
      obtain ⟨label, first⟩ := member
      rw [markedMembers, List.mem_append, List.mem_map, induction]
      constructor
      · rintro (⟨rest, inside, rfl⟩ | ⟨offset, name, child, rest, rfl, found,
          inside⟩)
        · exact ⟨0, label, first, rest, rfl, rfl, inside⟩
        · refine ⟨offset + 1, name, child, rest, ?_, found, ?_⟩
          · rw [Nat.add_assoc, Nat.add_comm 1 offset]
          · rw [List.take_succ_cons, nodes_cons, ← Nat.add_assoc]
            exact inside
      · rintro ⟨offset, name, child, rest, rfl, found, inside⟩
        cases offset with
        | zero =>
            cases found
            exact .inl ⟨rest, inside, rfl⟩
        | succ offset =>
            rw [List.take_succ_cons, nodes_cons, ← Nat.add_assoc] at inside
            refine .inr ⟨offset, name, child, rest, ?_, found, inside⟩
            rw [Nat.add_assoc, Nat.add_comm 1 offset]

theorem isLeafAt_cons_iff {structId : Str} {fields : List (Str × FieldDesc)}
    {index : Nat} {rest : Address} :
    (FieldDesc.struct structId fields).IsLeafAt (index :: rest) ↔
      ∃ name child, fields[index]? = some (name, child) ∧
        child.IsLeafAt rest := by
  simp only [FieldDesc.IsLeafAt, FieldDesc.atAddress?,
    Option.bind_eq_some_iff]
  constructor
  · rintro ⟨leaf, ⟨⟨name, child⟩, found, leafFound⟩, isLeaf⟩
    exact ⟨name, child, found, leaf, leafFound, isLeaf⟩
  · rintro ⟨name, child, found, leaf, leafFound, isLeaf⟩
    exact ⟨leaf, ⟨(name, child), found, leafFound⟩, isLeaf⟩

/-- A node of a structure is marked, or one above it, if the structure is or
one from the member on. -/
theorem marked_cons_iff {structId : Str} {fields : List (Str × FieldDesc)}
    {index : Nat} {name : Str} {child : FieldDesc}
    (found : fields[index]? = some (name, child)) (rest : Address)
    (bit : Nat) :
    (∃ node, node <+: index :: rest ∧
        bit + (FieldDesc.struct structId fields).numberAt node ∈ marks) ↔
      bit ∈ marks ∨ ∃ node, node <+: rest ∧
        bit + 1 + FieldDesc.nodes (fields.take index) +
          child.numberAt node ∈ marks := by
  have number (node : Address) :
      bit + (FieldDesc.struct structId fields).numberAt (index :: node) =
        bit + 1 + FieldDesc.nodes (fields.take index) +
          child.numberAt node := by
    simp only [FieldDesc.numberAt, found]
    omega
  constructor
  · rintro ⟨node, isPrefix, marked⟩
    rcases List.prefix_cons_iff.mp isPrefix with rfl | ⟨below, rfl, inside⟩
    · exact .inl marked
    · rw [number] at marked
      exact .inr ⟨below, inside, marked⟩
  · rintro (marked | ⟨node, isPrefix, marked⟩)
    · exact ⟨[], List.nil_prefix, marked⟩
    · rw [← number] at marked
      exact ⟨index :: node, List.cons_prefix_cons.mpr ⟨rfl, isPrefix⟩, marked⟩

theorem numberAt_nil (desc : FieldDesc) : desc.numberAt [] = 0 := by
  cases desc <;> rfl

/-- The marked leaves are the leaves that are marked, or below a node that
is. -/
theorem mem_markedUnder_iff {desc : FieldDesc} {bit : Nat} {inherited : Bool}
    {address : Address} :
    address ∈ markedUnder marks desc bit inherited ↔
      desc.IsLeafAt address ∧ (inherited = true ∨ ∃ node, node <+: address ∧
        bit + desc.numberAt node ∈ marks) := by
  induction desc using FieldDesc.memberInduction
      generalizing bit inherited address with
  | struct structId fields members =>
      rw [markedUnder, mem_markedMembers_iff]
      cases address with
      | nil =>
          refine iff_of_false (by simp) ?_
          rintro ⟨⟨leaf, found, isLeaf⟩, -⟩
          rw [FieldDesc.atAddress?] at found
          cases found
          exact isLeaf trivial
      | cons index rest =>
          simp only [isLeafAt_cons_iff, Nat.zero_add, List.cons.injEq]
          constructor
          · rintro ⟨offset, name, child, below, ⟨rfl, rfl⟩, found, inside⟩
            have member := List.mem_of_getElem? found
            rw [members name child member] at inside
            rw [marked_cons_iff marks found]
            refine ⟨⟨name, child, found, inside.1⟩, ?_⟩
            have marked := inside.2
            simp only [Bool.or_eq_true, decide_eq_true_eq] at marked
            tauto
          · rintro ⟨⟨name, child, found, leaf⟩, marked⟩
            have member := List.mem_of_getElem? found
            rw [marked_cons_iff marks found] at marked
            refine ⟨index, name, child, rest, ⟨rfl, rfl⟩, found, ?_⟩
            rw [members name child member]
            refine ⟨leaf, ?_⟩
            simp only [Bool.or_eq_true, decide_eq_true_eq]
            tauto
  | other desc notStructure =>
      rw [markedUnder_other marks notStructure]
      cases address with
      | nil =>
          have leaf : desc.IsLeafAt [] :=
            ⟨desc, by rw [FieldDesc.atAddress?], notStructure⟩
          simp [leaf, numberAt_nil, List.prefix_nil]
      | cons index rest =>
          refine iff_of_false (by split <;> simp) ?_
          rintro ⟨⟨leaf, found, -⟩, -⟩
          cases desc with
          | struct => exact notStructure trivial
          | _ => cases found

theorem nodup_markedUnder (desc : FieldDesc) (bit : Nat) (inherited : Bool) :
    (markedUnder marks desc bit inherited).Nodup := by
  induction desc using FieldDesc.memberInduction generalizing bit inherited with
  | struct structId fields members =>
      rw [markedUnder]
      generalize bit + 1 = next, 0 = index,
        (inherited || decide (bit ∈ marks)) = marked
      induction fields generalizing next index with
      | nil => simp [markedMembers]
      | cons member fields induction =>
          obtain ⟨label, first⟩ := member
          have here := members label first List.mem_cons_self next marked
          have rest := induction
            (fun name child inside =>
              members name child (List.mem_cons_of_mem _ inside))
            (next + first.tree.size) (index + 1)
          rw [markedMembers, List.nodup_append]
          refine ⟨here.map (List.cons_injective), rest, ?_⟩
          intro address inside other later same
          obtain ⟨below, -, rfl⟩ := List.mem_map.mp inside
          obtain ⟨offset, _, _, _, rfl, -⟩ :=
            (mem_markedMembers_iff marks).mp later
          have heads := (List.cons.inj same).1
          omega
  | other desc notStructure =>
      rw [markedUnder_other marks notStructure]
      split <;> simp

theorem collectMembers_eq {lib : PvData} (lawful : lib.Lawful)
    {structId : Str} {all fields : List (Str × FieldDesc)} {index : Nat}
    (suffix : all.drop index = fields)
    (members : ∀ name child, (name, child) ∈ fields →
      ∀ bit front inherited,
        collectMarked lib child bit front marks inherited true =
          ((markedUnder marks child bit inherited).map fun address =>
            (child.namesAt address).foldl join front).filter fun text =>
              text ≠ [])
    (bit : Nat) (front : Str) (inherited : Bool) :
    collectMembers lib fields bit front marks inherited true =
      ((markedMembers marks fields bit index inherited).map fun address =>
        ((FieldDesc.struct structId all).namesAt address).foldl join
          front).filter fun text => text ≠ [] := by
  induction fields generalizing bit index with
  | nil => rfl
  | cons member fields induction =>
      obtain ⟨name, child⟩ := member
      have found : all[index]? = some (name, child) := by
        have head := @List.getElem?_drop _ all index 0
        rw [suffix] at head
        exact head.symm
      have rest : all.drop (index + 1) = fields := by
        rw [← List.drop_drop, suffix]
        rfl
      rw [collectMembers, markedMembers, List.map_append, List.filter_append,
        members name child List.mem_cons_self, lawful.totalBits_eq,
        induction rest fun other desc inside =>
          members other desc (List.mem_cons_of_mem _ inside)]
      simp only [List.map_map, Function.comp_def,
        FieldDesc.namesAt_cons found, List.foldl_cons]

/-- The program collects the texts of the marked leaves, in order; the root
has no text. -/
theorem collectMarked_eq {lib : PvData} (lawful : lib.Lawful)
    (desc : FieldDesc) (bit : Nat) (front : Str) (inherited : Bool) :
    collectMarked lib desc bit front marks inherited true =
      ((markedUnder marks desc bit inherited).map fun address =>
        (desc.namesAt address).foldl join front).filter fun text =>
          text ≠ [] := by
  induction desc using FieldDesc.memberInduction
      generalizing bit front inherited with
  | struct structId fields members =>
      rw [markedUnder, collectMarked, ← collectMembers_eq marks lawful
        (List.drop_zero) members]
      simp
  | other desc notStructure =>
      have collected : collectMarked lib desc bit front marks inherited true =
          if (inherited || decide (bit ∈ marks)) && decide (front ≠ []) then
            [front]
          else [] := by
        cases desc with
        | struct => exact absurd trivial notStructure
        | _ => rfl
      rw [markedUnder_other marks notStructure, collected]
      cases inherited || decide (bit ∈ marks) with
      | false => rfl
      | true => simp [FieldDesc.namesAt_nil, List.filter_cons]

end Marked

section Sent

variable {lib : PvData} {root : Root}

namespace Root

/-- The marked leaves of a root, in order. -/
def markedAddresses (root : Root) : List Address :=
  markedUnder root.marks root.desc 0 false

theorem mem_markedAddresses_iff (leaf : Address) :
    leaf ∈ root.markedAddresses ↔ root.MarkedLeaf leaf := by
  simp [markedAddresses, mem_markedUnder_iff, MarkedLeaf]

/-- What is sent for a leaf: nothing if its text is empty or leads nowhere. -/
def sentFor (root : Root) (leaf : Address) : Option (Str × PvField) :=
  if root.desc.textAt leaf = [] then none
  else (fieldAt root.field (root.desc.textAt leaf)).map fun field =>
    (root.desc.textAt leaf, field)

theorem markedLeaves_eq (lawful : lib.Lawful) (root : Root) :
    root.markedLeaves lib [] =
      .ok (root.markedAddresses.filterMap root.sentFor) := by
  rw [markedLeaves, if_pos rfl, collectMarked_eq root.marks lawful,
    List.filterMap_filter, List.filterMap_map]
  congr 2
  funext leaf
  simp only [Function.comp_apply, sentFor, FieldDesc.textAt]
  by_cases empty : (root.desc.namesAt leaf).foldl join [] = []
  · simp [empty]
  · simp [empty]

theorem sentFor_of_addressable (fits : PvField.Fits root.desc root.field)
    {leaf : Address} (below : leaf ≠ [])
    (addressable : root.desc.Addressable leaf) :
    ∃ field, root.sentFor leaf = some (root.desc.textAt leaf, field) ∧
      root.SentAs leaf (root.desc.textAt leaf, field) := by
  have leads := addressable.textAt_leads
  have nonempty : root.desc.textAt leaf ≠ [] := by
    intro empty
    rw [empty, Separated.segments_nil, FieldDesc.locate] at leads
    cases leads
    exact below rfl
  obtain ⟨field, found, named⟩ := fits.atAddress? leads
  have indexed : fieldAt root.field (root.desc.textAt leaf) = some field :=
    named
  refine ⟨field, ?_, ⟨leads, found, indexed⟩⟩
  rw [sentFor, if_neg nonempty, indexed]
  rfl

/-- If something is sent for each leaf, it is sent under the text of the
leaf. -/
theorem map_fst_sentFor {leaves : List Address}
    (total : ∀ leaf ∈ leaves, (root.sentFor leaf).isSome) :
    (leaves.filterMap root.sentFor).map Prod.fst =
      leaves.map root.desc.textAt := by
  induction leaves with
  | nil => rfl
  | cons leaf leaves induction =>
      obtain ⟨sent, isSent⟩ :=
        Option.isSome_iff_exists.mp (total leaf List.mem_cons_self)
      have text : sent.1 = root.desc.textAt leaf := by
        unfold sentFor at isSent
        split_ifs at isSent
        obtain ⟨field, -, rfl⟩ := Option.map_eq_some_iff.mp isSent
        rfl
      have rest := induction fun other member =>
        total other (List.mem_cons_of_mem leaf member)
      rw [List.filterMap_cons_some isSent, List.map_cons, rest, text,
        List.map_cons]

theorem ne_nil_of_sentFor {leaf : Address}
    (isSent : (root.sentFor leaf).isSome) : leaf ≠ [] := by
  rintro rfl
  rw [sentFor, FieldDesc.textAt, FieldDesc.namesAt_nil, List.foldl_nil,
    if_pos rfl] at isSent
  cases isSent

/-- If what is sent corresponds to the marked leaves, each leaf is sent under
its own text. -/
theorem Sends.addressable
    (sends : root.Sends (root.markedAddresses.filterMap root.sentFor))
    {leaf : Address} (marked : root.MarkedLeaf leaf) :
    leaf ≠ [] ∧ root.desc.Addressable leaf := by
  obtain ⟨leaves, distinct, isMarked, sent⟩ := sends
  have same : leaves.Perm root.markedAddresses :=
    (List.perm_ext_iff_of_nodup distinct
      (nodup_markedUnder _ _ _ _)).mpr fun address =>
        (isMarked address).trans (mem_markedAddresses_iff address).symm
  have total := List.filterMap_length_eq_length.mp
    (sent.length_eq.symm.trans same.length_eq)
  let located (address : Address) :=
    root.desc.locate (Separated.segments '.' (root.desc.textAt address))
  have whereTo : leaves.map some = root.markedAddresses.map located := by
    have leads : leaves.map some =
        (root.markedAddresses.filterMap root.sentFor).map fun pair =>
          root.desc.locate (Separated.segments '.' pair.1) := by
      rw [← List.forall₂_eq_eq_eq, List.forall₂_map_left_iff,
        List.forall₂_map_right_iff]
      exact sent.imp fun _ _ sentAs => sentAs.leads.symm
    have texts := congrArg (List.map fun text =>
      root.desc.locate (Separated.segments '.' text)) (map_fst_sentFor total)
    rw [List.map_map, List.map_map] at texts
    exact leads.trans texts
  have injective : (root.markedAddresses.map located).Nodup :=
    whereTo ▸ distinct.map (Option.some_injective _)
  have inside := (mem_markedAddresses_iff leaf).mpr marked
  have target : located leaf ∈ leaves.map some :=
    whereTo ▸ List.mem_map_of_mem inside
  obtain ⟨other, otherLeaf, leads⟩ := List.mem_map.mp target
  have addressable := FieldDesc.addressable_of_leads leads.symm
  have otherInside : other ∈ root.markedAddresses := same.mem_iff.mp otherLeaf
  have itself : leaf = other :=
    List.inj_on_of_nodup_map injective inside otherInside
      (leads.symm.trans addressable.textAt_leads.symm)
  exact ⟨ne_nil_of_sentFor (total leaf inside), itself ▸ addressable⟩

theorem sends_of_addressable (fits : PvField.Fits root.desc root.field)
    (addressable : ∀ leaf, root.MarkedLeaf leaf →
      leaf ≠ [] ∧ root.desc.Addressable leaf) :
    root.Sends (root.markedAddresses.filterMap root.sentFor) := by
  refine ⟨root.markedAddresses, nodup_markedUnder _ _ _ _,
    mem_markedAddresses_iff, ?_⟩
  have each : ∀ leaf ∈ root.markedAddresses, ∃ sent,
      root.sentFor leaf = some sent ∧ root.SentAs leaf sent := by
    intro leaf inside
    obtain ⟨below, good⟩ := addressable leaf
      ((mem_markedAddresses_iff leaf).mp inside)
    obtain ⟨field, isSent, sentAs⟩ := sentFor_of_addressable fits below good
    exact ⟨_, isSent, sentAs⟩
  generalize root.markedAddresses = leaves at each
  induction leaves with
  | nil => exact .nil
  | cons leaf leaves induction =>
      obtain ⟨sent, isSent, sentAs⟩ := each leaf List.mem_cons_self
      rw [List.filterMap_cons_some isSent]
      exact .cons sentAs (induction fun other inside =>
        each other (List.mem_cons_of_mem leaf inside))

theorem mark_bare (lawful : lib.Lawful) (root : Root) :
    (root.mark lib [] none true).1 = { root with
      marks := root.marks ∪ Finset.Ico 0 (0 + lib.totalBits root.desc) } := by
  have top : descAt root.desc [] = some root.desc := by
    rw [descAt, Separated.segments_nil, FieldDesc.atPath?_nil]
  have bit : lib.bitForPath root.desc [] = some 0 := by
    have number := lawful.bitForPath_dotted root.desc [] (by simp)
    rwa [LabelTree.index?_nil] at number
  have path : join [] ((none : Option Str).getD []) = [] := rfl
  simp only [mark, path, markSpan, top, bit, if_true]

theorem markedLeaf_of_mark (lawful : lib.Lawful) (leaf : Address) :
    (root.mark lib [] none true).1.MarkedLeaf leaf ↔
      root.desc.IsLeafAt leaf := by
  rw [mark_bare lawful, MarkedLeaf, and_iff_left]
  refine ⟨[], List.nil_prefix, Finset.mem_union_right _ ?_⟩
  have size := root.desc.tree.size_pos
  rw [numberAt_nil, Finset.mem_Ico, lawful.totalBits_eq]
  omega

theorem sent_iff (lawful : lib.Lawful)
    (fits : PvField.Fits root.desc root.field) :
    (∃ sent, root.markedLeaves lib [] = .ok sent ∧ root.Sends sent) ↔
      ∀ leaf, root.MarkedLeaf leaf →
        leaf ≠ [] ∧ root.desc.Addressable leaf := by
  rw [markedLeaves_eq lawful]
  constructor
  · rintro ⟨sent, same, sends⟩
    cases same
    exact fun leaf marked => sends.addressable marked
  · intro addressable
    exact ⟨_, rfl, sends_of_addressable fits addressable⟩

end Root

end Sent

/-- The marked leaves are sent one to one, each under a path that leads to it,
exactly if each of them is a member that its names lead to; and a bare
`mark()` marks, and so sends, every leaf under the same condition. -/
theorem leaves_sent_iff {lib : PvData} (lawful : lib.Lawful) {root : Root}
    (fits : PvField.Fits root.desc root.field) :
    ((∃ sent, root.markedLeaves lib [] = .ok sent ∧ root.Sends sent) ↔
      ∀ leaf, root.MarkedLeaf leaf →
        leaf ≠ [] ∧ root.desc.Addressable leaf) ∧
    (∀ leaf, (root.mark lib [] none true).1.MarkedLeaf leaf ↔
      root.desc.IsLeafAt leaf) ∧
    ((∃ sent, (root.mark lib [] none true).1.markedLeaves lib [] = .ok sent ∧
        (root.mark lib [] none true).1.Sends sent) ↔
      ∀ leaf, root.desc.IsLeafAt leaf →
        leaf ≠ [] ∧ root.desc.Addressable leaf) := by
  have all := fun leaf => root.markedLeaf_of_mark lawful leaf
  refine ⟨root.sent_iff lawful fits, all, ?_⟩
  rw [Root.sent_iff lawful]
  · rw [Root.mark_bare lawful] at all ⊢
    simp only [all]
  · rw [Root.mark_bare lawful]
    exact fits

/-- A value of `Type([("x", "i"), (second, "i")])` with both members
marked. -/
def Root.ofPair (second : Str) : Root where
  desc := .struct [] [(['x'], .scalar .int), (second, .scalar .int)]
  field := .struct [] [(['x'], .scalar (.int 1)), (second, .scalar (.int 2))]
  marks := {1, 2}

theorem pair_sent :
    ((∃ sent, (Root.ofPair ['y']).markedLeaves .depthFirst [] = .ok sent ∧
        (Root.ofPair ['y']).Sends sent) ↔
      ∀ leaf, (Root.ofPair ['y']).MarkedLeaf leaf →
        leaf ≠ [] ∧ (Root.ofPair ['y']).desc.Addressable leaf) :=
  (leaves_sent_iff PvData.depthFirst_lawful (by decide)).1

/-- `Type` accepts a name twice; the first member is sent twice then, and the
second never.  A member without a name is not sent at all. -/
theorem twins_not_sent :
    typeNew (.iterable "list".toList [.tuple [.str ['x'], .str ['i']],
        .tuple [.str ['x'], .str ['i']]]) none =
      .ok (Root.ofPair ['x']).desc ∧
    (Root.ofPair ['x']).markedLeaves .depthFirst [] =
      .ok [(['x'], .scalar (.int 1)), (['x'], .scalar (.int 1))] ∧
    (¬∃ sent, (Root.ofPair ['x']).markedLeaves .depthFirst [] = .ok sent ∧
      (Root.ofPair ['x']).Sends sent) ∧
    (Root.ofPair []).markedLeaves .depthFirst [] =
      .ok [(['x'], .scalar (.int 1))] := by
  refine ⟨rfl, rfl, ?_, rfl⟩
  rw [Root.sent_iff PvData.depthFirst_lawful (by decide)]
  intro addressable
  have marked : (Root.ofPair ['x']).MarkedLeaf [1] :=
    ⟨⟨_, rfl, id⟩, [1], List.prefix_rfl, by decide⟩
  obtain ⟨-, name, child, found, -, first, -⟩ := addressable [1] marked
  cases found
  exact first 0 (by omega) _ rfl rfl

end Repics.Pva
