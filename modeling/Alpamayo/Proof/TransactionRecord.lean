import Alpamayo.Storage.TransactionIndex

/-!
This file shows that a record of the transaction index is read back from every format.
-/

namespace Alpamayo.TransactionIndexValue

variable {codec : ErrorCodec} {decodeError : Bool} {context : String} {value index : Nat}
  {data rest tail : Bytes}

/-- A written number comes back with the bytes after it. -/
theorem decodeVarintContext_encode (small : value < 2 ^ 64) (rest : Bytes) :
    decodeVarintContext context (Wire.encodeVarint value ++ rest) = .ok (value, rest) := by
  rw [decodeVarintContext, Wire.decodeVarint_encodeVarint small]
  rfl

theorem decodeVarintContext_last (small : value < 2 ^ 64) :
    decodeVarintContext context (Wire.encodeVarint value) = .ok (value, []) := by
  have read : decodeVarintContext context (Wire.encodeVarint value ++ []) = .ok (value, []) :=
    decodeVarintContext_encode small []
  rw [List.append_nil] at read
  exact read

theorem encodeVarint_ne_nil (value : Nat) : Wire.encodeVarint value ≠ [] := by
  apply List.ne_nil_of_length_pos
  rw [Wire.length_encodeVarint]
  exact Wire.encodedLenVarint_pos value

/-- The three numbers of the place come back before the rest is read. -/
theorem decode_encodePlace {slot offset size : Nat} (slotFits : slot < 2 ^ 64)
    (offsetFits : offset < 2 ^ 64) (sizeFits : size < 2 ^ 64) (tail : Bytes) :
    decode codec (encodePlace slot offset size ++ tail) decodeError =
      (decodeTail codec decodeError tail).map fun read => ⟨slot, offset, size, read.1, read.2⟩ := by
  rw [decode, encodePlace, List.append_assoc, List.append_assoc, decodeVarintContext_encode slotFits]
  change (decodeVarintContext _ _ >>= _) = _
  rw [decodeVarintContext_encode offsetFits]
  change (decodeVarintContext _ _ >>= _) = _
  rw [decodeVarintContext_encode sizeFits]
  rfl

/-- A bare index has no bytes after it, so it is not taken for the length of an error. -/
theorem decodeTail_index (small : index < 4294967296) :
    decodeTail codec decodeError (Wire.encodeVarint index) = .ok (none, index) := by
  have some : (Wire.encodeVarint index).isEmpty = false :=
    List.isEmpty_eq_false_iff.mpr (encodeVarint_ne_nil index)
  have noError : (decide (index = 0) || decide (([] : Bytes).length < index)) = true := by
    simp only [List.length_nil, Bool.or_eq_true, decide_eq_true_eq]
    omega
  rw [decodeTail, if_neg (by simp [some]), decodeVarintContext_last (by omega)]
  change (if (decide (index = 0) || decide (([] : Bytes).length < index)) = true then _ else _) = _
  rw [if_pos noError, toIndex, Nat.mod_eq_of_lt small]

/-- The length of an error is never zero and never above the number of the bytes after it. -/
theorem decodeTail_err (nonempty : data ≠ []) (fits : data.length < 2 ^ 64) (rest : Bytes) :
    decodeTail codec decodeError (Wire.encodeVarint data.length ++ data ++ rest) =
      decodeErr codec decodeError data.length (data ++ rest) := by
  have positive : 0 < data.length := List.length_pos_iff.mpr nonempty
  have isError : ¬ (decide (data.length = 0) || decide ((data ++ rest).length < data.length)) =
      true := by
    rw [List.length_append]
    simp only [Bool.or_eq_true, decide_eq_true_eq]
    omega
  rw [decodeTail, List.append_assoc, if_neg (by simp [encodeVarint_ne_nil]),
    decodeVarintContext_encode fits]
  change (if (decide (data.length = 0) || decide ((data ++ rest).length < data.length)) = true then _
    else _) = _
  rw [if_neg isError]

/-- The error comes back from bytes that it can be read from. -/
def Readable (codec : ErrorCodec) (err : TransactionError) : Prop :=
  codec.serialize err ≠ [] ∧ (codec.serialize err).length < 2 ^ 64 ∧
    codec.deserialize (codec.serialize err) = .ok err

/-- Without the wish to decode errors, an error is only skipped. -/
def shown (decodeError : Bool) (err : Option TransactionError) : Option TransactionError :=
  if decodeError then err else none

theorem decodeErr_index {err : TransactionError} (readable : Readable codec err)
    (small : index < 4294967296) :
    decodeErr codec decodeError (codec.serialize err).length
        (codec.serialize err ++ Wire.encodeVarint index) = .ok (shown decodeError (some err), index) := by
  have left : (Wire.encodeVarint index).isEmpty = false :=
    List.isEmpty_eq_false_iff.mpr (encodeVarint_ne_nil index)
  have last : decodeVarintContext "failed to decode index" (Wire.encodeVarint index) =
      .ok (index, []) := decodeVarintContext_last (by omega)
  cases decodeError with
  | true => simp [decodeErr, readable.2.2, left, last, toIndex, Nat.mod_eq_of_lt small, shown,
      Except.mapError, Except.map, bind, Except.bind]
  | false => simp [decodeErr, left, last, toIndex, Nat.mod_eq_of_lt small, shown, bind, Except.bind]

/-- A record that is older than the index ends with the error. -/
theorem decodeErr_last {err : TransactionError} (readable : Readable codec err) :
    decodeErr codec decodeError (codec.serialize err).length (codec.serialize err) =
      .ok (shown decodeError (some err), 0) := by
  cases decodeError with
  | true => simp [decodeErr, readable.2.2, shown, Except.mapError, Except.map, bind, Except.bind]
  | false => simp [decodeErr, shown, bind, Except.bind]

theorem decodeTail_encode {err : Option TransactionError} (readable : ∀ error ∈ err, Readable codec error)
    (small : index < 4294967296) :
    decodeTail codec decodeError (encodeErr codec err ++ Wire.encodeVarint index) =
      .ok (shown decodeError err, index) := by
  cases err with
  | none =>
      have same : shown decodeError none = none := by cases decodeError <;> rfl
      rw [same]
      exact decodeTail_index small
  | some error =>
      have fits := readable error rfl
      exact (decodeTail_err fits.1 fits.2.1 _).trans (decodeErr_index fits small)

/-- The older formats have no index, and the oldest one has no error either. -/
theorem decodeTail_older {err : Option TransactionError}
    (readable : ∀ error ∈ err, Readable codec error) :
    decodeTail codec decodeError (encodeErr codec err) = .ok (shown decodeError err, 0) := by
  cases err with
  | none => cases decodeError <;> rfl
  | some error =>
      have fits := readable error rfl
      have read : decodeTail codec decodeError (Wire.encodeVarint (codec.serialize error).length ++
          codec.serialize error ++ []) =
            decodeErr codec decodeError (codec.serialize error).length (codec.serialize error ++ []) :=
        decodeTail_err fits.1 fits.2.1 []
      rw [List.append_nil, List.append_nil] at read
      exact read.trans (decodeErr_last fits)

/-- The numbers of a record have their machine types, and its error can be read. -/
structure Fits (codec : ErrorCodec) (record : TransactionIndexValue) : Prop where
  slot : record.slot < 2 ^ 64
  offset : record.offset < 2 ^ 64
  size : record.size < 2 ^ 64
  err : ∀ error ∈ record.err, Readable codec error
  index : record.index < 4294967296

/-- A record comes back from its bytes, and from those of the two older formats with the index
zero. -/
theorem readsEveryLayout (codec : ErrorCodec) (record : TransactionIndexValue)
    (fits : record.Fits codec) :
    decode codec (record.encode codec) true = .ok record ∧
    decode codec (record.encode codec) false = .ok { record with err := none } ∧
    decode codec (encodePlace record.slot record.offset record.size ++ encodeErr codec record.err)
      true = .ok { record with index := 0 } ∧
    decode codec (encodePlace record.slot record.offset record.size) true =
      .ok { record with err := none, index := 0 } := by
  have place (decodeError : Bool) (tail : Bytes) :
      decode codec (encodePlace record.slot record.offset record.size ++ tail) decodeError =
        (decodeTail codec decodeError tail).map fun read =>
          ⟨record.slot, record.offset, record.size, read.1, read.2⟩ :=
    decode_encodePlace fits.slot fits.offset fits.size tail
  refine ⟨?_, ?_, ?_, ?_⟩
  · rw [encode, List.append_assoc, place, decodeTail_encode fits.err fits.index]
    rfl
  · rw [encode, List.append_assoc, place, decodeTail_encode fits.err fits.index]
    rfl
  · rw [place, decodeTail_older fits.err]
    rfl
  · have oldest := place true []
    rw [List.append_nil] at oldest
    rw [oldest]
    rfl

/-- The errors of this codec are their own bytes. -/
def plainErrors : ErrorCodec := ⟨fun err => err, .ok⟩

/-- The index 300 has two bytes and comes after an error of three bytes. -/
theorem readsEveryLayout_failed :
    decode plainErrors ((⟨7, 100, 50, some [8, 0, 0], 300⟩ : TransactionIndexValue).encode plainErrors)
      true = .ok ⟨7, 100, 50, some [8, 0, 0], 300⟩ ∧
    decode plainErrors ((⟨7, 100, 50, some [8, 0, 0], 300⟩ : TransactionIndexValue).encode plainErrors)
      false = .ok ⟨7, 100, 50, none, 300⟩ ∧
    decode plainErrors (encodePlace 7 100 50 ++ encodeErr plainErrors (some [8, 0, 0])) true =
      .ok ⟨7, 100, 50, some [8, 0, 0], 0⟩ ∧
    decode plainErrors (encodePlace 7 100 50) true = .ok ⟨7, 100, 50, none, 0⟩ :=
  readsEveryLayout plainErrors ⟨7, 100, 50, some [8, 0, 0], 300⟩ {
    slot := by decide
    offset := by decide
    size := by decide
    err := by
      intro error known
      cases known
      exact ⟨by decide, by decide, rfl⟩
    index := by decide }

end Alpamayo.TransactionIndexValue
