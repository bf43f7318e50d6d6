import Repics.Ca.Client.Readback
import Repics.Lib.Utf8

/-!
# Texts as characters

A text is put as the bytes of its encoding and a NUL, and a read as characters
decodes the bytes before the first NUL, with replacements for what is not
UTF-8.  A read or a monitor that asks for fewer elements cuts the text, perhaps
within a character.
-/

namespace Repics.Ca

variable {Double Error : Type}

/-- What `put_value` is given for `DBR_CHAR_STR` and `DBR_CHAR_UNICODE`, or for
`DBR_CHAR_BYTES`. -/
inductive CharPut where
  | text (text : String)
  | bytes (raw : List UInt8)

/-- `put_value`, for characters. -/
def putValue : CharPut → List UInt8
  | .text text => Utf8.encode text.toList ++ [0]
  | .bytes raw => raw ++ [0]

/-- The request that reads what was put. -/
def CharPut.marker (put : CharPut) : Marker :=
  match put with
  | .text _ => .charStr
  | .bytes _ => .charBytes

/-- The value that was put. -/
def CharPut.value (put : CharPut) : PyValue Double String :=
  match put with
  | .text string => .str string
  | .bytes raw => .bytes raw

/-- `decode("utf-8", errors="replace")` -/
def Python.utf8 (python : Python Double String) : Python Double String :=
  { python with decode := fun raw => String.ofList (Utf8.decode raw) }

/-- A record of characters after a put that it has room for; a read may find
old elements behind those that were sent. -/
structure Record.Holds (record : Record Double String Error)
    (sent : List UInt8) : Prop where
  native : record.native = .char
  fits : sent.length ≤ record.elementCount
  whole : ∃ shape old, record.value none = .char shape ∧
    shape.elements = sent ++ old
  part : ∀ count, count ≤ record.elementCount → ∃ shape old,
    record.value (some count) = .char shape ∧
      shape.elements = (sent ++ old).take count

/-- How many characters a read with a count can bring. -/
def Record.room (record : Record Double String Error) (count : Int) : Nat :=
  (record.amount count).getD record.elementCount

section Bytes

variable {record : Record Double String Error}

theorem Record.amount_le (record : Record Double String Error) {count : Int}
    {number : Nat} (asked : record.amount count = some number) :
    number ≤ record.elementCount := by
  unfold Record.amount at asked
  split at asked
  · simp at asked
  · split at asked
    · obtain rfl := Option.some.inj asked
      exact Nat.le_refl _
    · obtain rfl := Option.some.inj asked
      exact Nat.min_le_right _ _

theorem untilNul_take (raw : List UInt8) (count : Nat) :
    untilNul (raw.take count) = (untilNul raw).take count :=
  List.take_takeWhile.symm

theorem untilNul_zero (raw rest : List UInt8) :
    untilNul (raw ++ 0 :: rest) = untilNul raw := by
  unfold untilNul
  rw [List.takeWhile_append]
  split
  case isTrue same =>
    rw [List.takeWhile_cons_of_neg (by simp), List.append_nil]
    exact ((List.takeWhile_prefix _).eq_of_length same).symm
  case isFalse => rfl

/-- What a read finds before the first NUL is what was sent before it, as far
as was asked for. -/
theorem Record.Holds.untilNul {raw : List UInt8}
    (holds : record.Holds (raw ++ [0])) (count : Int) :
    ∃ shape, record.value (record.amount count) = .char shape ∧
      Ca.untilNul shape.elements =
        (Ca.untilNul raw).take (record.room count) := by
  have sent (old : List UInt8) :
      Ca.untilNul (raw ++ [0] ++ old) = Ca.untilNul raw := by
    rw [List.append_assoc, List.singleton_append, untilNul_zero]
  unfold Record.room
  cases asked : record.amount count with
  | none =>
      obtain ⟨shape, old, value, elements⟩ := holds.whole
      refine ⟨shape, value, ?_⟩
      have shorter : (Ca.untilNul raw).length ≤ raw.length :=
        (List.takeWhile_prefix _).length_le
      have fits := holds.fits
      rw [List.length_append, List.length_singleton] at fits
      rw [elements, sent, Option.getD_none,
        List.take_of_length_le (by omega)]
  | some number =>
      obtain ⟨shape, old, value, elements⟩ :=
        holds.part number (record.amount_le asked)
      refine ⟨shape, value, ?_⟩
      rw [elements, untilNul_take, sent, Option.getD_some]

end Bytes

section Back

variable {python : Python Double String}
variable {library : Library Double String Error}
variable {record : Record Double String Error}

/-- What comes back of a value when there is room for some bytes: what stands
before the first NUL, and a replacement for a character that is cut. -/
def CharPut.kept (room : Nat) : CharPut → PyValue Double String
  | .text string => .str (String.ofList
      (Utf8.cut room (string.toList.takeWhile fun char => char ≠ '\x00')))
  | .bytes raw => .bytes ((untilNul raw).take room)

/-- There is room for all of a value, or for a part of the replacement that it
ends with. -/
def CharPut.Whole (room : Nat) : CharPut → Prop
  | .text string => '\x00' ∉ string.toList ∧
      ((Utf8.encode string.toList).length ≤ room ∨
        ∃ before, string.toList = before ++ [Utf8.replacement] ∧
          (Utf8.encode before).length < room)
  | .bytes raw => 0 ∉ raw ∧ raw.length ≤ room

/-- The bytes of a value before its end. -/
def CharPut.content : CharPut → List UInt8
  | .text string => Utf8.encode string.toList
  | .bytes raw => raw

theorem untilNul_eq_iff (raw : List UInt8) : untilNul raw = raw ↔ 0 ∉ raw := by
  unfold untilNul
  rw [List.takeWhile_eq_self_iff]
  constructor
  · intro all member
    simpa using all 0 member
  · intro clean byte member
    have other : byte ≠ 0 := fun zero => clean (zero ▸ member)
    simpa using other

/-- The bytes before the first NUL are those of the characters before it. -/
theorem untilNul_encode (text : List Char) :
    untilNul (Utf8.encode text) =
      Utf8.encode (text.takeWhile fun char => char ≠ '\x00') := by
  induction text with
  | nil => rfl
  | cons char text induction =>
      rw [Utf8.encode_cons]
      by_cases nul : char = '\x00'
      · have bytes : String.utf8EncodeChar '\x00' = [] ++ [0] := by decide
        rw [List.takeWhile_cons_of_neg (by simpa using nul), nul, bytes,
          List.append_assoc, List.singleton_append, untilNul_zero]
        rfl
      · rw [List.takeWhile_cons_of_pos (by simpa using nul),
          Utf8.encode_cons, ← induction]
        apply List.takeWhile_append_of_pos
        intro byte member
        have other : byte ≠ 0 := by
          rintro rfl
          exact nul ((Utf8.zero_mem_char char).mp member)
        simpa using other

/-- A cut keeps characters of the text, and a replacement at most. -/
theorem decode_take_clean {text : List Char} (clean : '\x00' ∉ text)
    (room : Nat) : '\x00' ∉ Utf8.decode ((Utf8.encode text).take room) := by
  by_cases whole : (Utf8.encode text).length ≤ room
  · rw [List.take_of_length_le whole, Utf8.decode_encode]
    exact clean
  · obtain ⟨before, char, after, part, rfl, _, inside, taken⟩ :=
      Utf8.exists_cut text (Nat.lt_of_not_le whole)
    rw [List.mem_append, not_or] at clean
    rw [taken, Utf8.decode_text, List.mem_append, not_or]
    apply And.intro clean.1
    cases part with
    | zero => exact List.not_mem_nil
    | succ part =>
        rw [Utf8.decode_part (Nat.succ_pos part) inside, List.mem_singleton]
        decide

/-- The bytes before the NUL, as many as there is room for, are the value again
exactly when it is whole. -/
theorem mark_content_iff (put : CharPut) (room : Nat) :
    (python.utf8).mark put.marker ((untilNul put.content).take room) =
        put.value ↔
      put.Whole room := by
  cases put with
  | text string =>
      have texts (chars : List Char) :
          (PyValue.str (String.ofList chars) : PyValue Double String) =
              .str string ↔ chars = string.toList := by
        rw [PyValue.str.injEq, ← String.toList_inj, String.toList_ofList]
      apply Iff.trans (texts _)
      by_cases nul : '\x00' ∈ string.toList
      · have clean : '\x00' ∉
            string.toList.takeWhile fun char => char ≠ '\x00' := by
          intro member
          simpa using List.mem_takeWhile_imp member
        apply iff_of_false
        · intro same
          have other := decode_take_clean clean room
          rw [← untilNul_encode] at other
          exact other (same.symm ▸ nul)
        · exact fun whole => whole.1 nul
      · have sent : untilNul (Utf8.encode string.toList) =
            Utf8.encode string.toList := by
          rw [untilNul_eq_iff, Utf8.zero_mem_encode]
          exact nul
        rw [CharPut.content, sent, Utf8.decode_take_iff]
        exact (and_iff_right nul).symm
  | bytes raw =>
      apply Iff.trans (PyValue.bytes.injEq _ _).to_iff
      change (untilNul raw).take room = raw ↔ 0 ∉ raw ∧ raw.length ≤ room
      constructor
      · intro same
        have before : untilNul raw = raw := by
          apply (List.takeWhile_prefix _).eq_of_length_le
          have shorter := congrArg List.length same
          rw [List.length_take] at shorter
          exact shorter ▸ Nat.min_le_right _ _
        apply And.intro ((untilNul_eq_iff raw).mp before)
        rw [before] at same
        rw [← List.take_eq_self_iff]
        exact same
      · intro whole
        obtain ⟨clean, fits⟩ := whole
        rw [(untilNul_eq_iff raw).mpr clean, List.take_of_length_le fits]

theorem mark_content (put : CharPut) (room : Nat) :
    (python.utf8).mark put.marker ((untilNul put.content).take room) =
      put.kept room := by
  cases put with
  | text string =>
      have decoded := Utf8.decode_take
        (string.toList.takeWhile fun char => char ≠ '\x00') room
      rw [← untilNul_encode] at decoded
      exact congrArg (fun chars => PyValue.str (String.ofList chars)) decoded
  | bytes raw => rfl

/-- **What is put comes back**, read or monitored, as far as was asked for and
up to its first NUL, with the replacement for a character that is cut; so it is
the same exactly when it has no NUL and there is room for it, or for a part of
the replacement that it ends with. -/
theorem put_comes_back_iff (converts : record.Converts python.utf8)
    (serves : library.Serves record) {put : CharPut}
    (holds : record.Holds (putValue put)) (name : String) (form : Form)
    (count : Int) (mask : Option Nat) :
    (caget python.utf8 library name form (.marker put.marker) count).map
        Augmented.value = .ok (put.kept (record.room count)) ∧
      (camonitor python.utf8 library name form (.marker put.marker) count
        mask).map Augmented.value = .ok (put.kept (record.room count)) ∧
      ((put.kept (record.room count) : PyValue Double String) = put.value ↔
        put.Whole (record.room count)) := by
  have sent : putValue put = put.content ++ [0] := by
    cases put with
    | text string => rfl
    | bytes raw => rfl
  rw [sent] at holds
  obtain ⟨shape, value, elements⟩ := holds.untilNul count
  have marked : (Datatype.marker put.marker).monitored := rfl
  have reply (form : Form) : record.reply .char form (record.amount count) =
      .ok (record.snapshot .char form (.char shape)) := by
    have asRead : record.convert .char (.char shape) = .ok (.char shape) :=
      converts.native (.char shape)
    rw [Record.reply, value, asRead]
    rfl
  have delivered (form : Form) :
      ((python.utf8.deliver name (some put.marker)
          (record.reply .char form (record.amount count))).map
        Augmented.value : Except (Failure Error) _) =
          .ok (put.kept (record.room count)) := by
    rw [reply, deliver_marked _ _ _ (charBytes_char python.utf8 shape),
      elements, ← @mark_content Double python]
    rfl
  refine ⟨?_, ?_, ?_⟩
  · rw [caget_reply serves name form marked]
    exact delivered form
  · rw [camonitor_reply serves name form marked, holds.native]
    exact delivered .time
  · rw [← @mark_content Double python]
    exact mark_content_iff put _

/-- A channel of characters after a put, with room for some. -/
def sampleChars (put : CharPut) (room : Nat) :
    Record (Option Int) String Unit :=
  { sample (.char (.array [])) with
    elementCount := room
    value amount := .char (.array ((putValue put).take (amount.getD room)))
    typed _ := rfl }

theorem sampleChars_converts (put : CharPut) (room : Nat) :
    (sampleChars put room).Converts samplePython.utf8 :=
  have converts := sample_converts (.char (.array []))
  { native := converts.native
    typed := converts.typed
    text := converts.text
    char := converts.char
    charOf := converts.charOf
    finite := converts.finite
    fills := converts.fills }

theorem sampleChars_holds {put : CharPut} {room : Nat}
    (fits : (putValue put).length ≤ room) :
    (sampleChars put room).Holds (putValue put) where
  native := rfl
  fits := fits
  whole := by
    refine ⟨_, [], rfl, ?_⟩
    rw [List.append_nil]
    exact List.take_of_length_le fits
  part count least := by
    refine ⟨_, [], rfl, ?_⟩
    rw [List.append_nil]
    rfl

/-- All of a text comes back, and of its first byte a replacement. -/
theorem micrometres_come_back :
    (caget samplePython.utf8 (sampleLibrary (sampleChars (.text "µm") 4))
      "length" .time (.marker .charStr) 0).map Augmented.value =
        .ok (.str "µm") ∧
      (caget samplePython.utf8 (sampleLibrary (sampleChars (.text "µm") 4))
        "length" .time (.marker .charStr) 1).map Augmented.value =
          .ok (.str "\uFFFD") := by
  have comes (count : Int) := (put_comes_back_iff
    (sampleChars_converts (.text "µm") 4) (sampleLibrary_serves _)
    (sampleChars_holds (by decide)) "length" .time count none).1
  exact ⟨comes 0, comes 1⟩

end Back

end Repics.Ca
