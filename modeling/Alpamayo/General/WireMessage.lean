import Alpamayo.General.Wire

/-!
This file reads the fields of a message in the wire format of protocol buffers.
-/

namespace Wire

/-- The lowest three bits of the key tell which form the value has. -/
inductive FieldValue where
  | varint (value : Nat)
  | fixed64 (bytes : List UInt8)
  | lengthDelimited (bytes : List UInt8)
  | fixed32 (bytes : List UInt8)

structure Field where
  tag : Nat
  value : FieldValue

namespace FieldValue

def code : FieldValue → Nat
  | varint _ => 0
  | fixed64 _ => 1
  | lengthDelimited _ => 2
  | fixed32 _ => 5

def encode : FieldValue → List UInt8
  | varint value => encodeVarint value
  | fixed64 bytes => bytes
  | lengthDelimited bytes => encodeVarint bytes.length ++ bytes
  | fixed32 bytes => bytes

/-- The numbers have 64 bits, and the other forms their number of bytes. -/
def Valid : FieldValue → Prop
  | varint value => value < 2 ^ 64
  | fixed64 bytes => bytes.length = 8
  | lengthDelimited bytes => bytes.length < 2 ^ 64
  | fixed32 bytes => bytes.length = 4

end FieldValue

/-- The key has the tag above the form of the value. -/
def Field.encode (field : Field) : List UInt8 :=
  encodeVarint (field.tag * 8 + field.value.code) ++ field.value.encode

/-- The key of a field has 32 bits, and the tag is not zero. -/
structure Field.Valid (field : Field) : Prop where
  positive : 0 < field.tag
  small : field.tag < 2 ^ 29
  value : field.value.Valid

def encodeFields (fields : List Field) : List UInt8 := fields.flatMap Field.encode

/-- The bytes are there or the message is cut off. -/
def takeBytes (count : Nat) (bytes : List UInt8) : Option (List UInt8 × List UInt8) :=
  if count ≤ bytes.length then some (bytes.take count, bytes.drop count) else none

/-- The forms of groups are not used any more. -/
def decodeValue : Nat → List UInt8 → Option (FieldValue × List UInt8)
  | 0, bytes => (decodeVarint bytes).map fun (value, rest) => (.varint value, rest)
  | 1, bytes => (takeBytes 8 bytes).map fun (content, rest) => (.fixed64 content, rest)
  | 2, bytes => (decodeVarint bytes).bind fun (count, rest) =>
      (takeBytes count rest).map fun (content, rest) => (.lengthDelimited content, rest)
  | 5, bytes => (takeBytes 4 bytes).map fun (content, rest) => (.fixed32 content, rest)
  | _, _ => none

def decodeField (bytes : List UInt8) : Option (Field × List UInt8) :=
  (decodeVarint bytes).bind fun (key, rest) =>
    if 0 < key / 8 && key < 2 ^ 32 then
      (decodeValue (key % 8) rest).map fun (value, rest) => (⟨key / 8, value⟩, rest)
    else none

/-- The loop reads one field in each round. -/
def decodeFieldsLoop : Nat → List UInt8 → Option (List Field)
  | _, [] => some []
  | 0, _ :: _ => none
  | rounds + 1, byte :: bytes => (decodeField (byte :: bytes)).bind fun (field, rest) =>
      (decodeFieldsLoop rounds rest).map fun fields => field :: fields

/-- A field has at least one byte. -/
def decodeFields (bytes : List UInt8) : Option (List Field) := decodeFieldsLoop bytes.length bytes

section roundTrip

variable {field : Field} {fields : List Field} {value : FieldValue}

theorem takeBytes_append (content rest : List UInt8) :
    takeBytes content.length (content ++ rest) = some (content, rest) := by
  rw [takeBytes, if_pos (by simp), List.take_left, List.drop_left]

/-- The value comes back with the bytes after it. -/
theorem decodeValue_encode (valid : value.Valid) (rest : List UInt8) :
    decodeValue value.code (value.encode ++ rest) = some (value, rest) := by
  cases value with
  | varint value =>
      simp only [FieldValue.code, FieldValue.encode, decodeValue]
      rw [decodeVarint_encodeVarint valid, Option.map_some]
  | fixed64 bytes =>
      have content : takeBytes 8 (bytes ++ rest) = some (bytes, rest) := by
        rw [← takeBytes_append bytes rest, (valid : bytes.length = 8)]
      simp only [FieldValue.code, FieldValue.encode, decodeValue]
      rw [content, Option.map_some]
  | lengthDelimited bytes =>
      simp only [FieldValue.code, FieldValue.encode, decodeValue]
      rw [List.append_assoc, decodeVarint_encodeVarint valid, Option.bind_some]
      dsimp only
      rw [takeBytes_append, Option.map_some]
  | fixed32 bytes =>
      have content : takeBytes 4 (bytes ++ rest) = some (bytes, rest) := by
        rw [← takeBytes_append bytes rest, (valid : bytes.length = 4)]
      simp only [FieldValue.code, FieldValue.encode, decodeValue]
      rw [content, Option.map_some]

theorem FieldValue.code_lt (value : FieldValue) : value.code < 8 := by
  cases value <;> simp [FieldValue.code]

/-- The field comes back with the bytes after it. -/
theorem decodeField_encode (valid : field.Valid) (rest : List UInt8) :
    decodeField (field.encode ++ rest) = some (field, rest) := by
  have code := field.value.code_lt
  have small := valid.small
  have positive := valid.positive
  have tag : (field.tag * 8 + field.value.code) / 8 = field.tag := by omega
  have form : (field.tag * 8 + field.value.code) % 8 = field.value.code := by omega
  have accepted : 0 < (field.tag * 8 + field.value.code) / 8 ∧
      field.tag * 8 + field.value.code < 2 ^ 32 := by omega
  rw [decodeField, Field.encode, List.append_assoc, decodeVarint_encodeVarint (by omega),
    Option.bind_some]
  dsimp only
  rw [if_pos (by simpa using accepted), form, decodeValue_encode valid.value, Option.map_some, tag]

theorem length_encode_pos (field : Field) : 0 < field.encode.length := by
  have key := encodedLenVarint_pos (field.tag * 8 + field.value.code)
  rw [Field.encode, List.length_append, length_encodeVarint]
  omega

/-- The loop reads all fields when it has a round for each of them. -/
theorem decodeFieldsLoop_encodeFields (valid : ∀ field ∈ fields, field.Valid) {rounds : Nat}
    (enough : fields.length ≤ rounds) :
    decodeFieldsLoop rounds (encodeFields fields) = some fields := by
  induction fields generalizing rounds with
  | nil => cases rounds <;> rfl
  | cons field fields ih =>
      have first := valid field List.mem_cons_self
      have later := ih (fun other member => valid other (List.mem_cons_of_mem field member))
        (Nat.le_sub_one_of_lt enough)
      obtain ⟨left, rfl⟩ := Nat.exists_eq_add_one.mpr (Nat.lt_of_lt_of_le (Nat.succ_pos _) enough)
      obtain ⟨byte, bytes, nonempty⟩ := List.exists_cons_of_length_pos (length_encode_pos field)
      have decoded := decodeField_encode first (encodeFields fields)
      rw [nonempty, List.cons_append] at decoded
      rw [encodeFields, List.flatMap_cons, ← encodeFields, nonempty, List.cons_append,
        decodeFieldsLoop, decoded, Option.bind_some]
      dsimp only
      rw [show left = left + 1 - 1 from rfl, later, Option.map_some]

theorem length_le_encodeFields (fields : List Field) :
    fields.length ≤ (encodeFields fields).length := by
  induction fields with
  | nil => exact Nat.le_refl 0
  | cons field fields ih =>
      have first := length_encode_pos field
      rw [encodeFields, List.flatMap_cons, ← encodeFields, List.length_append, List.length_cons]
      omega

/-- Valid fields come back in their order. -/
theorem decodeFields_encodeFields (valid : ∀ field ∈ fields, field.Valid) :
    decodeFields (encodeFields fields) = some fields :=
  decodeFieldsLoop_encodeFields valid (length_le_encodeFields fields)

end roundTrip

/-- The values of one field stand in the order of the message. -/
def occurrences (tag : Nat) (fields : List Field) : List FieldValue :=
  (fields.filter fun field => field.tag = tag).map Field.value

def repeated (tag : Nat) (values : List FieldValue) : List Field := values.map (Field.mk tag)

def FieldValue.number : FieldValue → Option Nat
  | varint value => some value
  | _ => none

def FieldValue.content : FieldValue → Option (List UInt8)
  | lengthDelimited bytes => some bytes
  | _ => none

/-- The last value counts, and a field without values is zero. -/
def readUint64 (tag : Nat) (fields : List Field) : Option Nat :=
  ((occurrences tag fields).mapM FieldValue.number).map fun values => values.getLastD 0

/-- The number is read in its two's complement. -/
def readInt64 (tag : Nat) (fields : List Field) : Option Int :=
  (readUint64 tag fields).map fun value => (BitVec.ofNat 64 value).toInt

/-- A number of 32 bits has 64 on the wire. -/
def readInt32 (tag : Nat) (fields : List Field) : Option Int :=
  (readUint64 tag fields).map fun value => (BitVec.ofNat 32 value).toInt

/-- Every value counts. -/
def readRepeated (tag : Nat) (fields : List Field) : Option (List (List UInt8)) :=
  (occurrences tag fields).mapM FieldValue.content

/-- Every text must be valid, and the last one counts. -/
def readString (tag : Nat) (fields : List Field) : Option String :=
  (readRepeated tag fields).bind fun contents =>
    (contents.mapM fun content => String.fromUTF8? content.toByteArray).map fun texts =>
      texts.getLastD ""

/-- The values of a message field are merged, and a field without values is absent. -/
def readMessage {A : Type} (read : List Field → Option A) (tag : Nat) (fields : List Field) :
    Option (Option A) :=
  (readRepeated tag fields).bind fun contents =>
    if contents.isEmpty then some none
    else ((decodeFields contents.flatten).bind read).map some

/-- A zero is left out. -/
def uint64Values (value : Nat) : List FieldValue := if value = 0 then [] else [.varint value]

def int64Values (value : Int) : List FieldValue :=
  if value = 0 then [] else [.varint (value % 18446744073709551616).toNat]

/-- An empty text is left out. -/
def stringValues (value : String) : List FieldValue :=
  if value.isEmpty then [] else [.lengthDelimited value.toUTF8.toList]

section read

variable {A : Type} {tag : Nat} {fields : List Field}

@[simp] theorem occurrences_append (tag : Nat) (fields later : List Field) :
    occurrences tag (fields ++ later) = occurrences tag fields ++ occurrences tag later := by
  simp [occurrences]

@[simp] theorem occurrences_repeated (tag other : Nat) (values : List FieldValue) :
    occurrences tag (repeated other values) = if other = tag then values else [] := by
  induction values with
  | nil => simp [occurrences, repeated]
  | cons value values ih =>
      rw [occurrences, repeated] at ih ⊢
      by_cases same : other = tag
      · simpa [same] using ih
      · simp [same]

@[simp] theorem encodeFields_append (fields later : List Field) :
    encodeFields (fields ++ later) = encodeFields fields ++ encodeFields later :=
  List.flatMap_append

theorem encodeFields_stringValues (tag : Nat) (value : String) :
    encodeFields (repeated tag (stringValues value)) =
      if value.isEmpty then [] else encodeString tag value := by
  rw [stringValues]
  split
  · rfl
  · simp [encodeFields, repeated, Field.encode, FieldValue.encode, FieldValue.code, encodeString,
      encodeBytes, encodeKey, WireType.code]

theorem encodeFields_uint64Values (tag value : Nat) :
    encodeFields (repeated tag (uint64Values value)) =
      if value = 0 then [] else encodeUint64 tag value := by
  rw [uint64Values]
  split
  · rfl
  · simp [encodeFields, repeated, Field.encode, FieldValue.encode, FieldValue.code, encodeUint64,
      encodeKey, WireType.code]

theorem encodeFields_int64Values (tag : Nat) (value : Int) :
    encodeFields (repeated tag (int64Values value)) =
      if value = 0 then [] else encodeInt64 tag value := by
  rw [int64Values]
  split
  · rfl
  · simp [encodeFields, repeated, Field.encode, FieldValue.encode, FieldValue.code, encodeInt64,
      encodeKey, WireType.code]

theorem encodeFields_contents (tag : Nat) (contents : List (List UInt8)) :
    encodeFields (repeated tag (contents.map FieldValue.lengthDelimited)) =
      contents.flatMap (encodeBytes tag) := by
  induction contents with
  | nil => rfl
  | cons content contents ih =>
      rw [List.flatMap_cons, ← ih]
      simp [encodeFields, repeated, Field.encode, FieldValue.encode, FieldValue.code, encodeBytes,
        encodeKey, WireType.code]

/-- A short enough message has valid fields when its numbers are valid. -/
def FieldValue.Plain : FieldValue → Prop
  | varint value => value < 2 ^ 64
  | lengthDelimited _ => True
  | _ => False

structure Field.Plain (field : Field) : Prop where
  positive : 0 < field.tag
  small : field.tag < 2 ^ 29
  value : field.value.Plain

theorem length_encode_le {field : Field} (member : field ∈ fields) :
    field.encode.length ≤ (encodeFields fields).length := by
  obtain ⟨before, later, rfl⟩ := List.append_of_mem member
  rw [encodeFields_append, encodeFields, encodeFields, List.flatMap_cons, List.length_append,
    List.length_append]
  omega

theorem valid_of_plain (short : (encodeFields fields).length < 2 ^ 64)
    (plain : ∀ field ∈ fields, field.Plain) : ∀ field ∈ fields, field.Valid := by
  intro field member
  obtain ⟨positive, small, value⟩ := plain field member
  have length := length_encode_le member
  refine ⟨positive, small, ?_⟩
  cases form : field.value with
  | varint number =>
      rw [form] at value
      exact value
  | lengthDelimited content =>
      rw [Field.encode, form, FieldValue.encode] at length
      simp only [List.length_append] at length
      change content.length < 2 ^ 64
      omega
  | fixed64 bytes =>
      rw [form] at value
      exact value.elim
  | fixed32 bytes =>
      rw [form] at value
      exact value.elim

theorem plain_repeated {values : List FieldValue} (positive : 0 < tag) (small : tag < 2 ^ 29)
    (plain : ∀ value ∈ values, value.Plain) : ∀ field ∈ repeated tag values, field.Plain := by
  intro field member
  obtain ⟨value, inside, rfl⟩ := List.mem_map.mp member
  exact ⟨positive, small, plain value inside⟩

theorem plain_stringValues (text : String) : ∀ value ∈ stringValues text, value.Plain := by
  intro value member
  rw [stringValues] at member
  split at member
  · cases member
  · obtain rfl := List.mem_singleton.mp member
    trivial

theorem plain_contents (contents : List (List UInt8)) :
    ∀ value ∈ contents.map FieldValue.lengthDelimited, value.Plain := by
  intro value member
  obtain ⟨content, inside, rfl⟩ := List.mem_map.mp member
  trivial

theorem plain_uint64Values {number : Nat} (small : number < 2 ^ 64) :
    ∀ value ∈ uint64Values number, value.Plain := by
  intro value member
  rw [uint64Values] at member
  split at member
  · cases member
  · obtain rfl := List.mem_singleton.mp member
    exact small

theorem plain_int64Values (number : Int) : ∀ value ∈ int64Values number, value.Plain := by
  intro value member
  rw [int64Values] at member
  split at member
  · cases member
  · obtain rfl := List.mem_singleton.mp member
    change (number % 18446744073709551616).toNat < 2 ^ 64
    omega

theorem readUint64_eq {value : Nat} (found : occurrences tag fields = uint64Values value) :
    readUint64 tag fields = some value := by
  rw [readUint64, found, uint64Values]
  split
  · rename_i zero
    simp [zero]
  · simp [FieldValue.number]

theorem readInt64_eq {value : Int} (low : -9223372036854775808 ≤ value)
    (high : value < 9223372036854775808) (found : occurrences tag fields = int64Values value) :
    readInt64 tag fields = some value := by
  rw [readInt64, readUint64, found, int64Values]
  split
  · rename_i zero
    simp [zero]
  · have same : (BitVec.ofNat 64 (value % 18446744073709551616).toNat).toInt = value := by
      rw [BitVec.toInt_eq_toNat_bmod, BitVec.toNat_ofNat, Int.bmod_def]
      omega
    simp only [List.mapM_cons, List.mapM_nil, FieldValue.number, Option.pure_def,
      Option.bind_eq_bind, Option.bind_some, Option.map_some, List.getLastD_cons, List.getLastD_nil]
    rw [same]

/-- The sign of the number fills the 64 bits of the wire. -/
theorem readInt32_eq {value : Int} (low : -2147483648 ≤ value) (high : value < 2147483648)
    (found : occurrences tag fields = int64Values value) : readInt32 tag fields = some value := by
  rw [readInt32, readUint64, found, int64Values]
  split
  · rename_i zero
    simp [zero]
  · have same : (BitVec.ofNat 32 (value % 18446744073709551616).toNat).toInt = value := by
      rw [BitVec.toInt_eq_toNat_bmod, BitVec.toNat_ofNat, Int.bmod_def]
      omega
    simp only [List.mapM_cons, List.mapM_nil, FieldValue.number, Option.pure_def,
      Option.bind_eq_bind, Option.bind_some, Option.map_some, List.getLastD_cons, List.getLastD_nil]
    rw [same]

theorem fromUTF8_utf8 (text : String) :
    String.fromUTF8? text.toUTF8.toList.toByteArray = some text := by
  have same : text.toUTF8.toList.toByteArray = text.toByteArray := by
    rw [toList_eq]
    apply ByteArray.ext
    simp
  rw [same]
  simp [String.fromUTF8?, text.isValidUTF8, String.fromUTF8]

theorem mapM_content (contents : List (List UInt8)) :
    (contents.map FieldValue.lengthDelimited).mapM FieldValue.content = some contents := by
  induction contents with
  | nil => rfl
  | cons content contents ih =>
      rw [List.map_cons, List.mapM_cons, ih]
      rfl

theorem readRepeated_eq (contents : List (List UInt8))
    (found : occurrences tag fields = contents.map FieldValue.lengthDelimited) :
    readRepeated tag fields = some contents := by
  rw [readRepeated, found, mapM_content]

theorem readString_eq {text : String} (found : occurrences tag fields = stringValues text) :
    readString tag fields = some text := by
  rw [stringValues] at found
  split at found
  · rename_i empty
    rw [readString, readRepeated, found]
    simp [String.isEmpty_iff.mp empty]
  · have content := readRepeated_eq [text.toUTF8.toList] found
    rw [readString, content, Option.bind_some, List.mapM_cons, fromUTF8_utf8]
    rfl

theorem readMessage_none (read : List Field → Option A) (found : occurrences tag fields = []) :
    readMessage read tag fields = some none := by
  rw [readMessage, readRepeated, found]
  rfl

/-- A message that occurs once is read from its fields. -/
theorem readMessage_some (read : List Field → Option A) {content : List Field}
    (valid : ∀ field ∈ content, field.Valid)
    (found : occurrences tag fields = [.lengthDelimited (encodeFields content)]) :
    readMessage read tag fields = (read content).map some := by
  have once := readRepeated_eq [encodeFields content] found
  rw [readMessage, once, Option.bind_some]
  simp [decodeFields_encodeFields valid]

end read

end Wire
