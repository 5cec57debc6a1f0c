import Mathlib.Algebra.Ring.Nat

/-!
This file contains the wire format of protocol buffers.
-/

namespace Wire

/-- The loop writes seven bits in each byte; a 64-bit number has at most ten bytes. -/
def encodeVarintLoop : Nat → Nat → List UInt8
  | 0, _ => []
  | rounds + 1, value =>
      if value < 128 then [UInt8.ofNat value]
      else UInt8.ofNat (value % 128 + 128) :: encodeVarintLoop rounds (value / 128)

/-- The number is written with its lowest bits first. -/
def encodeVarint (value : Nat) : List UInt8 := encodeVarintLoop 10 value

/-- The loop reads seven bits from each byte; the tenth byte has room for one. -/
def decodeVarintLoop : Nat → List UInt8 → Option (Nat × List UInt8)
  | 0, _ => none
  | _ + 1, [] => none
  | rounds + 1, byte :: rest =>
      if byte.toNat < 128 then
        if rounds = 0 && 2 ≤ byte.toNat then none else some (byte.toNat, rest)
      else
        (decodeVarintLoop rounds rest).map fun decoded =>
          (byte.toNat - 128 + 128 * decoded.1, decoded.2)

/-- The number comes with the bytes after it; an invalid number has no value. -/
def decodeVarint (bytes : List UInt8) : Option (Nat × List UInt8) := decodeVarintLoop 10 bytes

theorem length_decodeVarintLoop {rounds : Nat} {bytes : List UInt8} {read : Nat × List UInt8}
    (found : decodeVarintLoop rounds bytes = some read) : read.2.length ≤ bytes.length := by
  induction rounds generalizing bytes read with
  | zero => cases found
  | succ rounds ih =>
      cases bytes with
      | nil => cases found
      | cons byte rest =>
          rw [decodeVarintLoop] at found
          split at found
          · split at found
            · cases found
            · cases found
              exact Nat.le_succ rest.length
          · obtain ⟨later, known, rfl⟩ := Option.map_eq_some_iff.mp found
            have shorter := ih known
            exact Nat.le_succ_of_le shorter

/-- A number is read from the bytes before its rest. -/
theorem length_decodeVarint {bytes : List UInt8} {read : Nat × List UInt8}
    (found : decodeVarint bytes = some read) : read.2.length ≤ bytes.length :=
  length_decodeVarintLoop found

/-- The rounds that are left for a number read what they wrote. -/
theorem decodeVarintLoop_encode (rounds value : Nat) (small : value < 2 * 128 ^ rounds)
    (rest : List UInt8) :
    decodeVarintLoop (rounds + 1) (encodeVarintLoop (rounds + 1) value ++ rest) = some (value, rest) := by
  induction rounds generalizing value with
  | zero =>
      have bit : value < 2 := by omega
      have byte : (UInt8.ofNat value).toNat = value := by
        rw [UInt8.toNat_ofNat']
        omega
      rw [encodeVarintLoop, if_pos (by omega), List.singleton_append, decodeVarintLoop, byte,
        if_pos (by omega)]
      simp only [decide_true, Bool.true_and, decide_eq_true_eq]
      rw [if_neg (by omega)]
  | succ rounds ih =>
      rw [encodeVarintLoop]
      split
      · rename_i last
        have byte : (UInt8.ofNat value).toNat = value := by
          rw [UInt8.toNat_ofNat']
          omega
        rw [List.singleton_append, decodeVarintLoop, byte, if_pos last]
        simp
      · have byte : (UInt8.ofNat (value % 128 + 128)).toNat = value % 128 + 128 := by
          rw [UInt8.toNat_ofNat']
          omega
        have later : value / 128 < 2 * 128 ^ rounds := by
          rw [Nat.pow_succ] at small
          omega
        rw [List.cons_append, decodeVarintLoop, byte, if_neg (by omega), ih _ later, Option.map_some]
        congr 2
        dsimp only
        omega

/-- A 64-bit number comes back with the bytes after it. -/
theorem decodeVarint_encodeVarint {value : Nat} (small : value < 2 ^ 64) (rest : List UInt8) :
    decodeVarint (encodeVarint value ++ rest) = some (value, rest) :=
  decodeVarintLoop_encode 9 value (by omega) rest

/-- A field is a number or has a length. -/
inductive WireType where
  | varint
  | lengthDelimited

/-- The lowest three bits of a key hold this code. -/
def WireType.code : WireType → Nat
  | varint => 0
  | lengthDelimited => 2

/-- The key joins the tag and the type of a field. -/
def encodeKey (tag : Nat) (wireType : WireType) : List UInt8 :=
  encodeVarint (tag * 8 + wireType.code)

/-- A field with a length holds any bytes. -/
def encodeBytes (tag : Nat) (value : List UInt8) : List UInt8 :=
  encodeKey tag .lengthDelimited ++ encodeVarint value.length ++ value

/-- A string field holds the bytes of its text. -/
def encodeString (tag : Nat) (value : String) : List UInt8 :=
  encodeBytes tag value.toUTF8.toList

/-- An unsigned number is written as it is. -/
def encodeUint64 (tag value : Nat) : List UInt8 :=
  encodeKey tag .varint ++ encodeVarint value

/-- A signed number is written in its 64-bit two's complement. -/
def encodeInt64 (tag : Nat) (value : Int) : List UInt8 :=
  encodeKey tag .varint ++ encodeVarint (value % 18446744073709551616).toNat

/-- A message without its default field is empty. -/
def uint64Message (value : Nat) : List UInt8 :=
  if value = 0 then [] else encodeUint64 1 value

/-- A message without its default field is empty. -/
def int64Message (value : Int) : List UInt8 :=
  if value = 0 then [] else encodeInt64 1 value

/-- A message comes with the length that it says it has. -/
def encodeMessage (tag encodedLen : Nat) (raw : List UInt8) : List UInt8 :=
  encodeKey tag .lengthDelimited ++ encodeVarint encodedLen ++ raw

/-- The loop counts the bytes of a number without writing them. -/
def encodedLenVarintLoop : Nat → Nat → Nat
  | 0, _ => 0
  | rounds + 1, value => if value < 128 then 1 else 1 + encodedLenVarintLoop rounds (value / 128)

def encodedLenVarint (value : Nat) : Nat := encodedLenVarintLoop 10 value

/-- The type of a field does not change the length of its key. -/
def keyLen (tag : Nat) : Nat := encodedLenVarint (tag * 8)

def encodedLenBytes (tag count : Nat) : Nat := keyLen tag + encodedLenVarint count + count

def encodedLenString (tag : Nat) (value : String) : Nat := encodedLenBytes tag value.utf8ByteSize

def encodedLenUint64 (tag value : Nat) : Nat := keyLen tag + encodedLenVarint value

def encodedLenInt64 (tag : Nat) (value : Int) : Nat :=
  keyLen tag + encodedLenVarint (value % 18446744073709551616).toNat

/-- Both loops take the same rounds. -/
theorem length_encodeVarintLoop (rounds value : Nat) :
    (encodeVarintLoop rounds value).length = encodedLenVarintLoop rounds value := by
  induction rounds generalizing value with
  | zero => rfl
  | succ rounds ih =>
      rw [encodeVarintLoop, encodedLenVarintLoop]
      split
      · rfl
      · rw [List.length_cons, ih, Nat.add_comm]

@[simp] theorem length_encodeVarint (value : Nat) :
    (encodeVarint value).length = encodedLenVarint value :=
  length_encodeVarintLoop 10 value

theorem encodedLenVarint_pos (value : Nat) : 0 < encodedLenVarint value := by
  rw [encodedLenVarint, encodedLenVarintLoop]
  split <;> omega

/-- The lowest three bits do not change the number of bytes. -/
theorem encodedLenVarintLoop_key (rounds tag : Nat) {code : Nat} (small : code < 8) :
    encodedLenVarintLoop rounds (tag * 8 + code) = encodedLenVarintLoop rounds (tag * 8) := by
  cases rounds with
  | zero => rfl
  | succ rounds =>
      have same : (tag * 8 + code) / 128 = tag * 8 / 128 := by omega
      rw [encodedLenVarintLoop, encodedLenVarintLoop, same]
      split <;> split <;> omega

@[simp] theorem length_encodeKey (tag : Nat) (wireType : WireType) :
    (encodeKey tag wireType).length = keyLen tag := by
  have small : wireType.code < 8 := by cases wireType <;> decide
  rw [encodeKey, length_encodeVarint, encodedLenVarint, encodedLenVarintLoop_key 10 tag small]
  rfl

@[simp] theorem length_encodeMessage (tag encodedLen : Nat) (raw : List UInt8) :
    (encodeMessage tag encodedLen raw).length =
      keyLen tag + encodedLenVarint encodedLen + raw.length := by
  simp [encodeMessage, Nat.add_assoc]

@[simp] theorem length_encodeBytes (tag : Nat) (value : List UInt8) :
    (encodeBytes tag value).length = encodedLenBytes tag value.length := by
  simp [encodeBytes, encodedLenBytes, Nat.add_assoc]

/-- The loop lists the bytes after its index. -/
theorem toList_loop (bytes : ByteArray) (index : Nat) (read : List UInt8) :
    ByteArray.toList.loop bytes index read = read.reverse ++ bytes.data.toList.drop index := by
  fun_induction ByteArray.toList.loop bytes index read with
  | case1 index read inside ih =>
      have inside' : index < bytes.data.toList.length := by simpa using inside
      have byte : bytes.get! index = bytes.data.toList[index] :=
        getElem!_pos bytes.data index inside
      rw [ih, byte, List.reverse_cons, List.append_assoc, List.singleton_append,
        List.getElem_cons_drop inside']
  | case2 index read outside =>
      have outside' : bytes.data.toList.length ≤ index := by simpa using outside
      rw [List.drop_of_length_le outside', List.append_nil]

theorem toList_eq (bytes : ByteArray) : bytes.toList = bytes.data.toList := toList_loop bytes 0 []

@[simp] theorem length_utf8 (text : String) : text.toUTF8.toList.length = text.utf8ByteSize := by
  rw [toList_eq]
  simp

@[simp] theorem length_encodeString (tag : Nat) (value : String) :
    (encodeString tag value).length = encodedLenString tag value := by
  rw [encodeString, length_encodeBytes, length_utf8, encodedLenString]

@[simp] theorem length_encodeUint64 (tag value : Nat) :
    (encodeUint64 tag value).length = encodedLenUint64 tag value := by
  simp [encodeUint64, encodedLenUint64]

@[simp] theorem length_encodeInt64 (tag : Nat) (value : Int) :
    (encodeInt64 tag value).length = encodedLenInt64 tag value := by
  simp [encodeInt64, encodedLenInt64]

/-- The keys and the contents of a repeated field are counted apart. -/
theorem length_flatMap_repeated {A : Type} {tag : Nat} {encode : A → List UInt8} {len : A → Nat}
    (length : ∀ item, (encode item).length = keyLen tag + encodedLenVarint (len item) + len item)
    (items : List A) :
    (items.flatMap encode).length = keyLen tag * items.length +
      (items.map fun item => len item + encodedLenVarint (len item)).sum := by
  induction items with
  | nil => rfl
  | cons item items ih =>
      rw [List.flatMap_cons, List.length_append, ih, length, List.map_cons, List.sum_cons,
        List.length_cons, Nat.mul_add]
      omega

end Wire
