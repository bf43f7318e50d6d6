import Mathlib.Data.List.Basic

/-!
# Dicts in the order of their keys

A dict is the list of its entries.  Setting a key that is there keeps its
place, and setting another one appends it, so a dict made of entries with
distinct keys is the list of these.
-/

namespace Dict

variable {κ α : Type*} [BEq κ]

/-- Set a key. -/
def put : List (κ × α) → κ → α → List (κ × α)
  | [], key, value => [(key, value)]
  | (label, other) :: rest, key, value =>
      if label == key then (label, value) :: rest
      else (label, other) :: put rest key value

/-- The dict made of some entries, of which later ones win. -/
def ofEntries (entries : List (κ × α)) : List (κ × α) :=
  entries.foldl (fun dict entry => put dict entry.1 entry.2) []

variable [LawfulBEq κ]

theorem put_fresh {dict : List (κ × α)} {key : κ}
    (fresh : key ∉ dict.map Prod.fst) (value : α) :
    put dict key value = dict ++ [(key, value)] := by
  induction dict with
  | nil => rfl
  | cons entry dict induction =>
      obtain ⟨label, other⟩ := entry
      simp only [List.map_cons, List.mem_cons, not_or] at fresh
      have apart : (label == key) = false :=
        beq_eq_false_iff_ne.mpr (Ne.symm fresh.1)
      rw [put, apart, induction fresh.2]
      rfl

theorem foldl_put {dict entries : List (κ × α)}
    (distinct : ((dict ++ entries).map Prod.fst).Nodup) :
    entries.foldl (fun dict entry => put dict entry.1 entry.2) dict =
      dict ++ entries := by
  induction entries generalizing dict with
  | nil => rw [List.foldl_nil, List.append_nil]
  | cons entry entries induction =>
      obtain ⟨key, value⟩ := entry
      have fresh : key ∉ dict.map Prod.fst := by
        intro member
        rw [List.map_append, List.map_cons] at distinct
        exact (List.nodup_append.mp distinct).2.2 key member key
          List.mem_cons_self rfl
      rw [List.foldl_cons, put_fresh fresh, induction (by simpa using
        distinct), List.append_assoc, List.singleton_append]

theorem ofEntries_eq {entries : List (κ × α)}
    (distinct : (entries.map Prod.fst).Nodup) : ofEntries entries = entries :=
  foldl_put distinct

theorem mem_put {dict : List (κ × α)} {key : κ} {value : α}
    {entry : κ × α} (member : entry ∈ put dict key value) :
    entry ∈ dict ∨ entry = (key, value) := by
  induction dict with
  | nil => exact .inr (List.mem_singleton.mp member)
  | cons other dict induction =>
      obtain ⟨label, old⟩ := other
      rw [put] at member
      split at member
      · rename_i same
        rcases List.mem_cons.mp member with rfl | inRest
        · exact .inr (by rw [eq_of_beq same])
        · exact .inl (List.mem_cons_of_mem _ inRest)
      · rcases List.mem_cons.mp member with rfl | inRest
        · exact .inl List.mem_cons_self
        · exact (induction inRest).imp_left (List.mem_cons_of_mem _)

theorem nodup_put {dict : List (κ × α)}
    (distinct : (dict.map Prod.fst).Nodup) (key : κ) (value : α) :
    ((put dict key value).map Prod.fst).Nodup := by
  induction dict with
  | nil => simp [put]
  | cons other dict induction =>
      obtain ⟨label, old⟩ := other
      obtain ⟨fresh, distinct⟩ := List.nodup_cons.mp distinct
      rw [put]
      split
      · exact List.nodup_cons.mpr ⟨fresh, distinct⟩
      · rename_i different
        refine List.nodup_cons.mpr ⟨?_, induction distinct⟩
        intro inPut
        obtain ⟨entry, member, same⟩ := List.mem_map.mp inPut
        rcases mem_put member with old | rfl
        · exact fresh (List.mem_map.mpr ⟨entry, old, same⟩)
        · exact different (beq_iff_eq.mpr same.symm)

/-- The keys of a dict are distinct, and its entries are among those that it
is made of. -/
theorem ofEntries_spec (entries : List (κ × α)) :
    ((ofEntries entries).map Prod.fst).Nodup ∧
      ∀ entry ∈ ofEntries entries, entry ∈ entries := by
  have loop (rest dict : List (κ × α))
      (distinct : (dict.map Prod.fst).Nodup) :
      ((rest.foldl (fun dict entry => put dict entry.1 entry.2)
        dict).map Prod.fst).Nodup ∧
      ∀ entry ∈ rest.foldl (fun dict entry => put dict entry.1 entry.2) dict,
        entry ∈ dict ∨ entry ∈ rest := by
    induction rest generalizing dict with
    | nil => exact ⟨distinct, fun _ => .inl⟩
    | cons first rest induction =>
        obtain ⟨nodup, among⟩ :=
          induction _ (nodup_put distinct first.1 first.2)
        refine ⟨nodup, ?_⟩
        intro entry member
        rcases among entry member with inPut | inRest
        · refine (mem_put inPut).imp_right ?_
          rintro rfl
          exact List.mem_cons_self
        · exact .inr (List.mem_cons_of_mem _ inRest)
  obtain ⟨nodup, among⟩ := loop entries [] List.nodup_nil
  exact ⟨nodup, fun entry member =>
    (among entry member).resolve_left List.not_mem_nil⟩

/-- Dicts with the same keys in one order are looked up alike. -/
theorem lookup_forall₂ {β : Type*} {Related : κ × α → κ × β → Prop}
    {left : List (κ × α)} {right : List (κ × β)}
    (related : List.Forall₂ (fun entry other =>
      other.1 = entry.1 ∧ Related entry other) left right) (key : κ) :
    Option.Rel (fun value other => Related (key, value) (key, other))
      (left.lookup key) (right.lookup key) := by
  induction related with
  | nil => exact .none
  | @cons entry other left right here _ induction =>
      obtain ⟨label, value⟩ := entry
      obtain ⟨otherLabel, otherValue⟩ := other
      obtain ⟨rfl, here⟩ := here
      rw [List.lookup_cons, List.lookup_cons]
      by_cases same : key = otherLabel
      · subst same
        rw [beq_self_eq_true]
        exact .some here
      · rw [beq_eq_false_iff_ne.mpr same]
        exact induction

theorem lookup_of_mem {dict : List (κ × α)}
    (distinct : (dict.map Prod.fst).Nodup) {key : κ} {value : α}
    (member : (key, value) ∈ dict) : dict.lookup key = some value := by
  induction dict with
  | nil => cases member
  | cons entry dict induction =>
      obtain ⟨label, other⟩ := entry
      obtain ⟨fresh, distinct⟩ := List.nodup_cons.mp distinct
      rcases List.mem_cons.mp member with here | inRest
      · cases here
        exact List.lookup_cons_self
      · have apart : (key == label) = false :=
          beq_eq_false_iff_ne.mpr fun same =>
            fresh (List.mem_map.mpr ⟨_, inRest, same⟩)
        rw [List.lookup_cons, apart]
        exact induction distinct inRest

theorem mem_of_lookup {dict : List (κ × α)} {key : κ} {value : α}
    (found : dict.lookup key = some value) : (key, value) ∈ dict := by
  obtain ⟨before, after, rfl, -⟩ := List.lookup_eq_some_iff.mp found
  exact List.mem_append_right before List.mem_cons_self

section Mapped

variable {κ α β : Type*} [DecidableEq κ]

theorem find?_mapped (image : α → β) (entries : List (κ × α)) (key : κ) :
    (entries.map fun entry => (entry.1, image entry.2)).find?
        (fun entry => entry.1 = key) =
      ((entries.find? fun entry => entry.1 = key).map Prod.snd).map
        fun value => (key, image value) := by
  induction entries with
  | nil => rfl
  | cons entry entries induction =>
      by_cases same : entry.1 = key
      · simp [same]
      · simpa [same] using induction

end Mapped

end Dict
