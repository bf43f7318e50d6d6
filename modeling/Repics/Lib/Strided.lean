import Mathlib.Algebra.BigOperators.Group.List.Basic
import Mathlib.Algebra.GroupWithZero.Nat
import Mathlib.Algebra.Ring.Int.Defs
import Mathlib.Data.List.Forall2

/-!
# Arrays with strides

An array of any rank reads a memory through an offset and one stride for each
axis, so a transposed array, one with gaps or one turned around has the memory
of another.  Its elements in row-major order determine it, together with its
shape: an array made of them in that order has the same element everywhere.
-/

/-- The index is inside the shape. -/
abbrev Strided.Within (index shape : List Nat) : Prop :=
  List.Forall₂ (· < ·) index shape

/-- The address of an element. -/
def Strided.address (offset : Int) (strides : List Int) (index : List Nat) :
    Int :=
  offset + (List.zipWith (fun stride place => stride * place) strides
    (index.map Int.ofNat)).sum

/-- The element at an address. -/
def Strided.fetch {α : Type*} (memory : List α) (address : Int) : Option α :=
  if address < 0 then none else memory[address.toNat]?

/-- Every index inside the shape has an element. -/
structure Strided (α : Type*) where
  shape : List Nat
  strides : List Int
  offset : Int
  memory : List α
  inside : ∀ index, Strided.Within index shape →
    (Strided.fetch memory (Strided.address offset strides index)).isSome

namespace Strided

variable {α : Type*}

def at? (array : Strided α) (index : List Nat) : Option α :=
  fetch array.memory (address array.offset array.strides index)

/-- The indices inside a shape, the last axis first. -/
def indices : List Nat → List (List Nat)
  | [] => [[]]
  | size :: shape =>
      (List.range size).flatMap fun place => (indices shape).map (place :: ·)

/-- The elements in row-major order. -/
def ravel (array : Strided α) : List α :=
  (indices array.shape).filterMap array.at?

/-- The place of an index in row-major order. -/
def position : List Nat → List Nat → Nat
  | _ :: shape, place :: index => place * shape.prod + position shape index
  | _, _ => 0

/-- The strides of an array that is laid out in row-major order. -/
def rowMajor : List Nat → List Int
  | [] => []
  | _ :: shape => shape.prod :: rowMajor shape

theorem length_indices (shape : List Nat) :
    (indices shape).length = shape.prod := by
  induction shape with
  | nil => rfl
  | cons size shape induction => simp [indices, induction]

theorem getElem?_flatMap_range {items : Nat → List α} {length : Nat}
    (equal : ∀ place, (items place).length = length) {size place rest : Nat}
    (small : place < size) (inner : rest < length) :
    ((List.range size).flatMap items)[place * length + rest]? =
      (items place)[rest]? := by
  induction size with
  | zero => omega
  | succ size induction =>
      have before : ((List.range size).flatMap items).length =
          size * length := by simp [equal]
      rw [List.range_succ, List.flatMap_append, List.flatMap_singleton]
      by_cases earlier : place < size
      · have low : place * length + rest < size * length := by
          have step := Nat.mul_le_mul_right length (Nat.succ_le_of_lt earlier)
          rw [Nat.succ_mul] at step
          omega
        rw [List.getElem?_append_left (before ▸ low), induction earlier]
      · obtain rfl : place = size := by omega
        rw [List.getElem?_append_right (by omega), before,
          Nat.add_sub_cancel_left]

theorem position_lt {index shape : List Nat} (within : Within index shape) :
    position shape index < shape.prod := by
  induction within with
  | nil => exact Nat.one_pos
  | @cons place size index shape small _ induction =>
      have step := Nat.mul_le_mul_right shape.prod (Nat.succ_le_of_lt small)
      rw [Nat.succ_mul] at step
      rw [position, List.prod_cons]
      omega

theorem getElem?_indices {index shape : List Nat}
    (within : Within index shape) :
    (indices shape)[position shape index]? = some index := by
  induction within with
  | nil => rfl
  | @cons place size index shape small within induction =>
      have equal : ∀ place, ((indices shape).map (place :: ·)).length =
          shape.prod := by simp [length_indices]
      rw [indices, position,
        getElem?_flatMap_range equal small (position_lt within),
        List.getElem?_map, induction, Option.map_some]

theorem within_of_mem_indices {index shape : List Nat}
    (member : index ∈ indices shape) : Within index shape := by
  induction shape generalizing index with
  | nil =>
      rw [List.mem_singleton.mp member]
      exact .nil
  | cons size shape induction =>
      obtain ⟨place, small, inMap⟩ := List.mem_flatMap.mp member
      obtain ⟨rest, inRest, rfl⟩ := List.mem_map.mp inMap
      exact .cons (List.mem_range.mp small) (induction inRest)

theorem mem_indices_of_within {index shape : List Nat}
    (within : Within index shape) : index ∈ indices shape :=
  List.mem_of_getElem? (getElem?_indices within)

/-- In row-major order the address of an element is its position. -/
theorem address_rowMajor {index shape : List Nat}
    (within : Within index shape) :
    address 0 (rowMajor shape) index = position shape index := by
  induction within with
  | nil => rfl
  | @cons place size index shape _ _ induction =>
      rw [address, zero_add] at induction
      rw [address, rowMajor, position, List.map_cons, List.zipWith_cons_cons,
        List.sum_cons, induction]
      push_cast
      simp [mul_comm]

theorem getElem?_filterMap {β : Type*} {convert : β → Option α}
    {items : List β} (all : ∀ item ∈ items, (convert item).isSome)
    (place : Nat) :
    (items.filterMap convert)[place]? = items[place]?.bind convert := by
  induction items generalizing place with
  | nil => rfl
  | cons item items induction =>
      obtain ⟨value, found⟩ :=
        Option.isSome_iff_exists.mp (all item List.mem_cons_self)
      have rest := induction fun other member =>
        all other (List.mem_cons_of_mem item member)
      rw [List.filterMap_cons, found]
      cases place with
      | zero => exact found.symm
      | succ place => exact rest place

variable (array : Strided α)

theorem at?_isSome {index : List Nat} (member : index ∈ indices array.shape) :
    (array.at? index).isSome :=
  array.inside index (within_of_mem_indices member)

theorem mem_memory {item : α} (member : item ∈ array.ravel) :
    item ∈ array.memory := by
  obtain ⟨index, -, found⟩ := List.mem_filterMap.mp member
  rw [at?, fetch] at found
  split at found
  · cases found
  · exact List.mem_of_getElem? found

theorem length_ravel : array.ravel.length = array.shape.prod := by
  rw [← length_indices]
  exact List.filterMap_length_eq_length.mpr fun _ => array.at?_isSome

theorem getElem?_ravel {index : List Nat}
    (within : Within index array.shape) :
    array.ravel[position array.shape index]? = array.at? index := by
  rw [ravel, getElem?_filterMap fun _ => array.at?_isSome,
    getElem?_indices within, Option.bind_some]

/-- An array with the elements in row-major order. -/
def reshape (items : List α) (shape : List Nat)
    (same : items.length = shape.prod) : Strided α where
  shape := shape
  strides := rowMajor shape
  offset := 0
  memory := items
  inside index within := by
    have small := position_lt within
    rw [address_rowMajor within, fetch, if_neg (by omega)]
    simp [same, small]

/-- An array made of the elements of another has them in the same places. -/
theorem at?_reshape_ravel {index : List Nat}
    (within : Within index array.shape) :
    (reshape array.ravel array.shape array.length_ravel).at? index =
      array.at? index := by
  have here : (reshape array.ravel array.shape array.length_ravel).at? index =
      fetch array.ravel (address 0 (rowMajor array.shape) index) := rfl
  rw [here, address_rowMajor within, fetch, if_neg (by omega),
    ← array.getElem?_ravel within]
  rfl

end Strided
