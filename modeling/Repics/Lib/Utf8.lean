import Mathlib.Data.List.TakeWhile

/-!
# UTF-8 with replacement

A decoder that puts U+FFFD in place of what is not UTF-8: a byte that cannot
start a character, or the longest start of a character that does not go on.
Texts come back from their encodings, and an encoding that is cut off comes
back as the characters that are whole, with one replacement for a part of a
character.
-/

namespace Utf8

/-- What the first byte of a character tells: how many bytes follow, the bounds
of the next one, and its bits. -/
structure Lead where
  more : Nat
  least : Nat
  most : Nat
  value : Nat

def lead? (byte : Nat) : Option Lead :=
  if byte ≤ 0x7F then some ⟨0, 0x80, 0xBF, byte⟩
  else if 0xC2 ≤ byte ∧ byte ≤ 0xDF then some ⟨1, 0x80, 0xBF, byte - 0xC0⟩
  else if byte = 0xE0 then some ⟨2, 0xA0, 0xBF, 0⟩
  else if byte = 0xED then some ⟨2, 0x80, 0x9F, 0xD⟩
  else if 0xE1 ≤ byte ∧ byte ≤ 0xEF then some ⟨2, 0x80, 0xBF, byte - 0xE0⟩
  else if byte = 0xF0 then some ⟨3, 0x90, 0xBF, 0⟩
  else if byte = 0xF4 then some ⟨3, 0x80, 0x8F, 4⟩
  else if 0xF1 ≤ byte ∧ byte ≤ 0xF3 then some ⟨3, 0x80, 0xBF, byte - 0xF0⟩
  else none

/-- The bytes that go on with a character, as many as there may be. -/
def follow : Nat → Nat → Nat → List UInt8 → List UInt8
  | more + 1, least, most, byte :: rest =>
      if least ≤ byte.toNat ∧ byte.toNat ≤ most then
        byte :: follow more 0x80 0xBF rest
      else []
  | _, _, _, _ => []

/-- The bits of the bytes that follow, after those of the first one. -/
def assemble (value : Nat) (bytes : List UInt8) : Nat :=
  bytes.foldl (fun value byte => value * 64 + (byte.toNat - 0x80)) value

def replacement : Char := '\uFFFD'

/-- The character that starts with a byte, and how many bytes it takes beside
that one. -/
def first (byte : UInt8) (rest : List UInt8) : Char × Nat :=
  match lead? byte.toNat with
  | none => (replacement, 0)
  | some lead =>
      let tail := follow lead.more lead.least lead.most rest
      if tail.length = lead.more then
        (Char.ofNat (assemble lead.value tail), lead.more)
      else (replacement, tail.length)

/-- The characters after some bytes that are left out. -/
def decodeFrom : Nat → List UInt8 → List Char
  | _, [] => []
  | skip + 1, _ :: rest => decodeFrom skip rest
  | 0, byte :: rest =>
      (first byte rest).1 :: decodeFrom (first byte rest).2 rest

def decode (bytes : List UInt8) : List Char :=
  decodeFrom 0 bytes

def encode (text : List Char) : List UInt8 :=
  text.flatMap String.utf8EncodeChar

theorem decodeFrom_drop (skip : Nat) (bytes : List UInt8) :
    decodeFrom skip bytes = decode (bytes.drop skip) := by
  induction bytes generalizing skip with
  | nil =>
      rw [List.drop_nil]
      cases skip with
      | zero => rfl
      | succ skip => rfl
  | cons byte bytes induction =>
      cases skip with
      | zero => rfl
      | succ skip => exact induction skip

theorem decode_cons (byte : UInt8) (rest : List UInt8) :
    decode (byte :: rest) =
      (first byte rest).1 :: decode (rest.drop (first byte rest).2) := by
  rw [← decodeFrom_drop]
  rfl

theorem encode_append (text more : List Char) :
    encode (text ++ more) = encode text ++ encode more :=
  List.flatMap_append

theorem encode_cons (char : Char) (text : List Char) :
    encode (char :: text) = String.utf8EncodeChar char ++ encode text :=
  rfl

/-- A first byte tells of a character that these bytes are the rest of it. -/
structure Encodes (char : Char) (byte : UInt8) (tail : List UInt8)
    (start : Lead) : Prop where
  lead : lead? byte.toNat = some start
  more : tail.length = start.more
  follow : follow start.more start.least start.most tail = tail
  value : assemble start.value tail = char.toNat

theorem toNat_ofNat_small {number : Nat} (small : number < 256) :
    (UInt8.ofNat number).toNat = number := by
  rw [UInt8.toNat_ofNat', Nat.mod_eq_of_lt small]

theorem lead_two {byte : Nat} (least : 0xC2 ≤ byte) (most : byte ≤ 0xDF) :
    lead? byte = some ⟨1, 0x80, 0xBF, byte - 0xC0⟩ := by
  unfold lead?
  rw [if_neg (by omega), if_pos ⟨least, most⟩]

theorem lead_three {byte : Nat} (least : 0xE0 ≤ byte) (most : byte ≤ 0xEF) :
    lead? byte = some ⟨2, if byte = 0xE0 then 0xA0 else 0x80,
      if byte = 0xED then 0x9F else 0xBF, byte - 0xE0⟩ := by
  unfold lead?
  rw [if_neg (by omega), if_neg (by omega)]
  by_cases first : byte = 0xE0
  · subst first
    rfl
  · rw [if_neg first, if_neg first]
    by_cases surrogates : byte = 0xED
    · subst surrogates
      rfl
    · rw [if_neg surrogates, if_neg surrogates,
        if_pos ⟨by omega, most⟩]

theorem lead_four {byte : Nat} (least : 0xF0 ≤ byte) (most : byte ≤ 0xF4) :
    lead? byte = some ⟨3, if byte = 0xF0 then 0x90 else 0x80,
      if byte = 0xF4 then 0x8F else 0xBF, byte - 0xF0⟩ := by
  unfold lead?
  rw [if_neg (by omega), if_neg (by omega), if_neg (by omega),
    if_neg (by omega), if_neg (by omega)]
  by_cases first : byte = 0xF0
  · subst first
    rfl
  · rw [if_neg first, if_neg first]
    by_cases last : byte = 0xF4
    · subst last
      rfl
    · rw [if_neg last, if_neg last, if_pos ⟨by omega, by omega⟩]

theorem follow_nil (more least most : Nat) :
    follow more least most [] = [] := by
  cases more with
  | zero => rfl
  | succ more => rfl

theorem follow_all {least most : Nat} {byte : UInt8} {rest : List UInt8}
    (bounds : least ≤ byte.toNat ∧ byte.toNat ≤ most)
    (tails : ∀ other ∈ rest, 0x80 ≤ other.toNat ∧ other.toNat ≤ 0xBF) :
    follow (rest.length + 1) least most (byte :: rest) = byte :: rest := by
  induction rest generalizing least most byte with
  | nil => rw [follow, if_pos bounds, follow_nil]
  | cons other rest induction =>
      have next := induction (tails other List.mem_cons_self)
        fun more member => tails more (List.mem_cons_of_mem _ member)
      rw [follow, if_pos bounds, List.length_cons, next]

theorem toNat_tail (number : Nat) :
    (UInt8.ofNat (number % 64 + 128)).toNat = number % 64 + 128 :=
  toNat_ofNat_small (by omega)

theorem tail_bounds (number : Nat) :
    0x80 ≤ (UInt8.ofNat (number % 64 + 128)).toNat ∧
      (UInt8.ofNat (number % 64 + 128)).toNat ≤ 0xBF := by
  rw [toNat_tail]
  omega

section Widths

variable {char : Char}

theorem encodes_one (small : char.toNat ≤ 0x7F) :
    Encodes char (UInt8.ofNat char.toNat) []
      ⟨0, 0x80, 0xBF, char.toNat⟩ where
  lead := by
    rw [toNat_ofNat_small (by omega), lead?, if_pos small]
  more := rfl
  follow := rfl
  value := rfl

theorem encodes_two (large : 0x7F < char.toNat)
    (small : char.toNat ≤ 0x7FF) :
    Encodes char (UInt8.ofNat (char.toNat / 64 % 32 + 192))
      [UInt8.ofNat (char.toNat % 64 + 128)]
      ⟨1, 0x80, 0xBF, char.toNat / 64 % 32⟩ where
  lead := by
    rw [toNat_ofNat_small (by omega), lead_two (by omega) (by omega),
      Nat.add_sub_cancel]
  more := rfl
  follow := follow_all (tail_bounds _) (List.forall_mem_nil _)
  value := by
    simp only [assemble, List.foldl_cons, List.foldl_nil, toNat_tail]
    omega

theorem encodes_three (large : 0x7FF < char.toNat)
    (small : char.toNat ≤ 0xFFFF) :
    Encodes char (UInt8.ofNat (char.toNat / 4096 % 16 + 224))
      [UInt8.ofNat (char.toNat / 64 % 64 + 128),
        UInt8.ofNat (char.toNat % 64 + 128)]
      ⟨2, if char.toNat / 4096 % 16 + 224 = 0xE0 then 0xA0 else 0x80,
        if char.toNat / 4096 % 16 + 224 = 0xED then 0x9F else 0xBF,
        char.toNat / 4096 % 16⟩ where
  lead := by
    rw [toNat_ofNat_small (by omega), lead_three (by omega) (by omega),
      Nat.add_sub_cancel]
  more := rfl
  follow := by
    have valid : char.toNat < 0xD800 ∨
        0xDFFF < char.toNat ∧ char.toNat < 0x110000 := char.valid
    have bounds :
        (if char.toNat / 4096 % 16 + 224 = 0xE0 then 0xA0 else 0x80) ≤
            (UInt8.ofNat (char.toNat / 64 % 64 + 128)).toNat ∧
          (UInt8.ofNat (char.toNat / 64 % 64 + 128)).toNat ≤
            if char.toNat / 4096 % 16 + 224 = 0xED then 0x9F else 0xBF := by
      rw [toNat_tail]
      constructor
      · split <;> omega
      · split <;> omega
    have all := follow_all bounds
      (List.forall_mem_singleton.mpr (tail_bounds char.toNat))
    exact all
  value := by
    simp only [assemble, List.foldl_cons, List.foldl_nil, toNat_tail]
    omega

theorem encodes_four (large : 0xFFFF < char.toNat) :
    Encodes char (UInt8.ofNat (char.toNat / 262144 % 8 + 240))
      [UInt8.ofNat (char.toNat / 4096 % 64 + 128),
        UInt8.ofNat (char.toNat / 64 % 64 + 128),
        UInt8.ofNat (char.toNat % 64 + 128)]
      ⟨3, if char.toNat / 262144 % 8 + 240 = 0xF0 then 0x90 else 0x80,
        if char.toNat / 262144 % 8 + 240 = 0xF4 then 0x8F else 0xBF,
        char.toNat / 262144 % 8⟩ := by
  have valid : char.toNat < 0xD800 ∨
      0xDFFF < char.toNat ∧ char.toNat < 0x110000 := char.valid
  constructor
  case lead =>
    rw [toNat_ofNat_small (by omega), lead_four (by omega) (by omega),
      Nat.add_sub_cancel]
  case more => rfl
  case follow =>
    have bounds :
        (if char.toNat / 262144 % 8 + 240 = 0xF0 then 0x90 else 0x80) ≤
            (UInt8.ofNat (char.toNat / 4096 % 64 + 128)).toNat ∧
          (UInt8.ofNat (char.toNat / 4096 % 64 + 128)).toNat ≤
            if char.toNat / 262144 % 8 + 240 = 0xF4 then 0x8F else 0xBF := by
      rw [toNat_tail]
      constructor
      · split <;> omega
      · split <;> omega
    have all := follow_all bounds (List.forall_mem_cons.mpr
      ⟨tail_bounds (char.toNat / 64),
        List.forall_mem_singleton.mpr (tail_bounds char.toNat)⟩)
    exact all
  case value =>
    simp only [assemble, List.foldl_cons, List.foldl_nil, toNat_tail]
    omega

end Widths

theorem exists_encodes (char : Char) :
    ∃ byte tail start, String.utf8EncodeChar char = byte :: tail ∧
      Encodes char byte tail start := by
  have same : char.val.toNat = char.toNat := rfl
  unfold String.utf8EncodeChar
  simp only [same]
  split
  case isTrue small => exact ⟨_, _, _, rfl, encodes_one small⟩
  case isFalse large =>
    split
    case isTrue small =>
      exact ⟨_, _, _, rfl, encodes_two (by omega) small⟩
    case isFalse larger =>
      split
      case isTrue small =>
        exact ⟨_, _, _, rfl, encodes_three (by omega) small⟩
      case isFalse largest =>
        exact ⟨_, _, _, rfl, encodes_four (by omega)⟩

/-- What follows is decided by the bytes that belong to the character. -/
theorem follow_append {more least most : Nat} {tail : List UInt8}
    (whole : follow more least most tail = tail)
    (full : tail.length = more) (rest : List UInt8) :
    follow more least most (tail ++ rest) = tail := by
  induction tail generalizing more least most with
  | nil =>
      rw [← full, List.length_nil]
      cases rest with
      | nil => rfl
      | cons byte rest => rfl
  | cons byte tail induction =>
      obtain ⟨more, rfl⟩ : ∃ fewer, more = fewer + 1 :=
        ⟨tail.length, full.symm⟩
      simp only [follow] at whole
      split at whole
      case isTrue bounds =>
        rw [List.cons_append, follow, if_pos bounds,
          induction (List.cons.inj whole).2 (by simpa using full)]
      case isFalse => simp at whole

theorem follow_take {more least most : Nat} {tail : List UInt8}
    (whole : follow more least most tail = tail) (count : Nat) :
    follow more least most (tail.take count) = tail.take count := by
  induction tail generalizing more least most count with
  | nil => rw [List.take_nil]; exact whole
  | cons byte tail induction =>
      cases more with
      | zero => simp [follow] at whole
      | succ more =>
          cases count with
          | zero => rw [List.take_zero, follow_nil]
          | succ count =>
              simp only [follow] at whole
              split at whole
              case isTrue bounds =>
                rw [List.take_succ_cons, follow, if_pos bounds,
                  induction (List.cons.inj whole).2]
              case isFalse => simp at whole

theorem decode_char (char : Char) (rest : List UInt8) :
    decode (String.utf8EncodeChar char ++ rest) = char :: decode rest := by
  obtain ⟨byte, tail, start, bytes, encodes⟩ := exists_encodes char
  have isFirst : first byte (tail ++ rest) = (char, tail.length) := by
    unfold first
    rw [encodes.lead]
    simp only
    rw [follow_append encodes.follow encodes.more, if_pos encodes.more,
      encodes.value, Char.ofNat_toNat, encodes.more]
  rw [bytes, List.cons_append, decode_cons, isFirst]
  simp only [List.drop_left]

theorem decode_text (text : List Char) (rest : List UInt8) :
    decode (encode text ++ rest) = text ++ decode rest := by
  induction text with
  | nil => rfl
  | cons char text induction =>
      rw [encode_cons, List.append_assoc, decode_char, induction,
        List.cons_append]

theorem decode_encode (text : List Char) : decode (encode text) = text := by
  have decoded := decode_text text []
  rw [List.append_nil] at decoded
  rw [decoded]
  exact List.append_nil text

theorem decode_part {char : Char} {count : Nat} (some_ : 0 < count)
    (part : count < (String.utf8EncodeChar char).length) :
    decode ((String.utf8EncodeChar char).take count) = [replacement] := by
  obtain ⟨byte, tail, start, bytes, encodes⟩ := exists_encodes char
  obtain ⟨count, rfl⟩ : ∃ fewer, count = fewer + 1 :=
    ⟨count - 1, by omega⟩
  rw [bytes, List.length_cons] at part
  have short : (tail.take count).length = count := by
    rw [List.length_take]
    omega
  have isFirst : first byte (tail.take count) = (replacement, count) := by
    unfold first
    rw [encodes.lead]
    simp only
    rw [follow_take encodes.follow, short, if_neg]
    rw [← encodes.more]
    omega
  rw [bytes, List.take_succ_cons, decode_cons, isFirst]
  simp only
  rw [List.drop_eq_nil_of_le (by omega)]
  rfl

/-- Where an encoding is cut: after a whole number of characters, or within
one of them. -/
theorem exists_cut (text : List Char) {count : Nat}
    (cut : count < (encode text).length) :
    ∃ before char after part, text = before ++ char :: after ∧
      count = (encode before).length + part ∧
      part < (String.utf8EncodeChar char).length ∧
      (encode text).take count =
        encode before ++ (String.utf8EncodeChar char).take part := by
  induction text generalizing count with
  | nil => simp [encode] at cut
  | cons char text induction =>
      rw [encode_cons, List.length_append] at cut
      by_cases within : count < (String.utf8EncodeChar char).length
      · refine ⟨[], char, text, count, rfl, by simp [encode], within, ?_⟩
        rw [encode_cons, List.take_append_of_le_length (by omega)]
        rfl
      · obtain ⟨before, other, after, part, rfl, isCount, inside, taken⟩ :=
          @induction (count - (String.utf8EncodeChar char).length) (by omega)
        refine ⟨char :: before, other, after, part, rfl, ?_, inside, ?_⟩
        · rw [encode_cons, List.length_append]
          omega
        · rw [encode_cons, List.take_append,
            List.take_of_length_le (by omega), taken, encode_cons,
            List.append_assoc]

/-- The characters that there are enough bytes for, and a replacement for one
of which there is a part. -/
def cut (room : Nat) : List Char → List Char
  | [] => []
  | char :: text =>
      if (String.utf8EncodeChar char).length ≤ room then
        char :: cut (room - (String.utf8EncodeChar char).length) text
      else if room = 0 then [] else [replacement]

/-- A cut encoding is read as the characters before the cut, with a replacement
for one that is cut. -/
theorem decode_take (text : List Char) (room : Nat) :
    decode ((encode text).take room) = cut room text := by
  induction text generalizing room with
  | nil =>
      rw [encode, List.flatMap_nil, List.take_nil, cut]
      rfl
  | cons char text induction =>
      rw [encode_cons, cut]
      split
      · rename_i fits
        rw [List.take_append, List.take_of_length_le fits, decode_char,
          induction]
      · rename_i tooLong
        rw [List.take_append_of_le_length (by omega)]
        split
        · rename_i nothing
          rw [nothing]
          rfl
        · exact decode_part (by omega) (by omega)

/-- **A cut encoding** is read as the text exactly when nothing was cut off, or
when the last character is the replacement and a part of it is left. -/
theorem decode_take_iff (text : List Char) (count : Nat) :
    decode ((encode text).take count) = text ↔
      (encode text).length ≤ count ∨
        ∃ before, text = before ++ [replacement] ∧
          (encode before).length < count := by
  by_cases whole : (encode text).length ≤ count
  · rw [List.take_of_length_le whole, decode_encode]
    exact iff_of_true rfl (.inl whole)
  · obtain ⟨before, char, after, part, rfl, isCount, inside, taken⟩ :=
      exists_cut text (Nat.lt_of_not_le whole)
    rw [taken, decode_text]
    constructor
    · intro same
      have rest := List.append_cancel_left same
      right
      cases part with
      | zero => simp [decode, decodeFrom] at rest
      | succ part =>
          rw [decode_part (Nat.succ_pos part) inside] at rest
          obtain ⟨rfl, rfl⟩ := List.cons.inj rest
          exact ⟨before, rfl, by omega⟩
    · intro split
      rcases split with all | split
      · exact (whole all).elim
      · obtain ⟨others, same, less⟩ := split
        rcases List.eq_nil_or_concat after with rfl | more
        · obtain ⟨rfl, last⟩ := List.append_inj' same rfl
          obtain rfl := List.singleton_inj.mp last
          rw [decode_part (by omega) inside]
        · obtain ⟨init, last, rfl⟩ := more
          rw [List.concat_eq_append, ← List.cons_append,
            ← List.append_assoc] at same
          obtain ⟨rfl, -⟩ := List.append_inj' same rfl
          rw [encode_append, encode_cons] at less
          simp only [List.length_append] at less
          omega

theorem zero_mem_char (char : Char) :
    0 ∈ String.utf8EncodeChar char ↔ char = '\x00' := by
  have toNat (number : Nat) (small : number < 256) :
      0 = UInt8.ofNat number ↔ number = 0 := by
    rw [← UInt8.toNat_inj, toNat_ofNat_small small]
    exact eq_comm
  have isNul : char = '\x00' ↔ char.toNat = 0 := by
    rw [← Char.toNat_inj]
    rfl
  have same : char.val.toNat = char.toNat := rfl
  unfold String.utf8EncodeChar
  simp only [same]
  rw [isNul]
  split
  case isTrue small =>
    rw [List.mem_singleton, toNat _ (by omega)]
  case isFalse large =>
    split
    case isTrue small =>
      simp only [List.mem_cons, List.not_mem_nil, or_false]
      rw [toNat _ (by omega), toNat _ (by omega)]
      omega
    case isFalse larger =>
      split
      case isTrue small =>
        simp only [List.mem_cons, List.not_mem_nil, or_false]
        rw [toNat _ (by omega), toNat _ (by omega), toNat _ (by omega)]
        omega
      case isFalse largest =>
        simp only [List.mem_cons, List.not_mem_nil, or_false]
        rw [toNat _ (by omega), toNat _ (by omega), toNat _ (by omega),
          toNat _ (by omega)]
        omega

theorem zero_mem_encode (text : List Char) :
    0 ∈ encode text ↔ '\x00' ∈ text := by
  simp only [encode, List.mem_flatMap, zero_mem_char, exists_eq_right]

end Utf8
