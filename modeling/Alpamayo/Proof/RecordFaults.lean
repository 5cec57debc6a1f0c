import Alpamayo.Proof.TransactionRecord
import Alpamayo.Storage.RecordBytes

/-!
This file shows which bytes stop a record decoder instead of failing.
-/

namespace Alpamayo

section numbers

variable {context : String} {slice : Bytes}

theorem decodeVarint_eq_context :
    Buf.decodeVarint context slice = Buf.checked (decodeVarintContext context slice) := by
  unfold Buf.decodeVarint decodeVarintContext
  cases Wire.decodeVarint slice <;> rfl

theorem decodeVarint_eq_number :
    Buf.decodeVarint context slice = Buf.checked (decodeNumber context slice) := by
  unfold Buf.decodeVarint decodeNumber
  cases Wire.decodeVarint slice <;> rfl

/-- After a number the two forms of a decoder go on with the same bytes. -/
theorem decodeVarint_bind_eq {A : Type} {next : Nat × Bytes → Except Buf.Fault A}
    {other : Nat × Bytes → Except String A}
    (same : ∀ read, Wire.decodeVarint slice = some read → next read = Buf.checked (other read)) :
    (Buf.decodeVarint context slice >>= next) =
      Buf.checked (decodeNumber context slice >>= other) := by
  unfold Buf.decodeVarint decodeNumber
  cases found : Wire.decodeVarint slice with
  | none => rfl
  | some read => exact same read found

theorem optionalVarint_eq_optional {present : Bool} :
    Buf.optionalVarint present context slice = Buf.checked (decodeOptional present context slice) := by
  cases present with
  | true =>
      rw [Buf.optionalVarint, decodeOptional, if_pos rfl, if_pos rfl, decodeVarint_eq_number]
      cases decodeNumber context slice <;> rfl
  | false => rfl

end numbers

namespace TransactionIndexValue

variable {codec : ErrorCodec} {decodeError : Bool} {slice : Bytes}

/-- The bytes of the error are there, so slicing them and advancing past them do not stop. -/
theorem errBytes_advance {errSize : Nat} (inside : errSize ≤ slice.length) :
    (do let err ← errBytes codec decodeError errSize slice
        let slice ← Buf.advance errSize slice
        (indexBytes slice).map fun index => (err, index)) =
      Buf.checked (decodeErr codec decodeError errSize slice) := by
  have index (err : Option TransactionError) :
      ((indexBytes (slice.drop errSize)).map fun index => (err, index)) = Buf.checked
        (if (slice.drop errSize).isEmpty then .ok (err, 0)
        else decodeVarintContext "failed to decode index" (slice.drop errSize) >>= fun read =>
          .ok (err, toIndex read.1)) := by
    unfold indexBytes
    split
    · rfl
    · rw [decodeVarint_eq_context]
      cases decodeVarintContext "failed to decode index" (slice.drop errSize) <;> rfl
  cases decodeError with
  | true =>
      rw [errBytes, if_pos rfl, Buf.range_zero inside, Buf.advance_of_le inside, decodeErr, if_pos rfl]
      change ((SfaIndexValue.readErr codec (slice.take errSize)).map some >>= _) = _
      unfold SfaIndexValue.readErr
      cases codec.deserialize (slice.take errSize) with
      | error error => rfl
      | ok err => exact index (some err)
  | false =>
      rw [errBytes, if_neg (by decide), Buf.advance_of_le inside, decodeErr, if_neg (by decide)]
      exact index none

theorem tailBytes_eq : tailBytes codec decodeError slice =
    Buf.checked (decodeTail codec decodeError slice) := by
  unfold tailBytes decodeTail
  split
  · rfl
  · rw [decodeVarint_eq_context, Buf.checked_bind]
    apply bind_congr
    rintro ⟨a, rest⟩
    change (if (decide (a = 0) || decide (rest.length < a)) = true then _ else _) =
      Buf.checked (if (decide (a = 0) || decide (rest.length < a)) = true then _ else _)
    split
    · rfl
    · rename_i isError
      have inside : a ≤ rest.length := by
        simp only [Bool.or_eq_true, decide_eq_true_eq, not_or] at isError
        omega
      exact errBytes_advance inside

/-- The decoder does not stop: it is the one whose slices take what is there. -/
theorem decodeBytes_eq : decodeBytes codec slice decodeError =
    Buf.checked (decode codec slice decodeError) := by
  unfold decodeBytes decode
  rw [decodeVarint_eq_context, Buf.checked_bind]
  apply bind_congr
  rintro ⟨slot, slice⟩
  change (Buf.decodeVarint _ slice >>= _) = Buf.checked (decodeVarintContext _ slice >>= _)
  rw [decodeVarint_eq_context, Buf.checked_bind]
  apply bind_congr
  rintro ⟨offset, slice⟩
  change (Buf.decodeVarint _ slice >>= _) = Buf.checked (decodeVarintContext _ slice >>= _)
  rw [decodeVarint_eq_context, Buf.checked_bind]
  apply bind_congr
  rintro ⟨size, slice⟩
  change (tailBytes _ _ slice >>= _) = Buf.checked (decodeTail _ _ slice >>= _)
  rw [tailBytes_eq, Buf.checked_bind]
  rfl

end TransactionIndexValue

/-- The length of the rest was checked, so the hash is sliced. -/
theorem hashBytes_eq {context : String} {slice : Bytes} :
    hashBytes context slice = Buf.checked (decodeHash context slice) := by
  unfold hashBytes decodeHash
  by_cases enough : 32 ≤ slice.length
  · rw [decide_eq_true enough, dif_pos enough]
    change (Buf.range 0 32 slice >>= _) = _
    rw [Buf.range_zero enough]
    change (toHash (slice.take 32) >>= _) = _
    rw [toHash, dif_pos (List.length_take_of_le enough)]
    change (Buf.advance 32 slice >>= _) = _
    rw [Buf.advance_of_le enough]
    rfl
  · rw [decide_eq_false enough, dif_neg enough]
    rfl

namespace InflationRewardBaseValue

theorem partitionBytes_eq {len : Nat} {slice : Bytes} : partitionBytes len slice =
    if len ≤ slice.length then .ok (Bits.unpack (slice.take len))
    else .error (.failed "not enough bytes for partitions") := by
  unfold partitionBytes
  by_cases enough : len ≤ slice.length
  · rw [decide_eq_true enough, if_pos enough]
    change (Buf.range 0 len slice).map _ = _
    rw [Buf.range_zero enough]
    rfl
  · rw [decide_eq_false enough, if_neg enough]
    rfl

/-- Every slice of the decoder is checked before, so it does not stop. -/
theorem decodeBytes_eq {slice : Bytes} : decodeBytes slice = Buf.checked (decode slice) := by
  cases slice with
  | nil => rfl
  | cons flags slice =>
      change fieldBytes flags slice = Buf.checked (decodeNumber _ slice >>= _)
      rw [fieldBytes, decodeVarint_eq_number, Buf.checked_bind]
      apply bind_congr
      rintro ⟨slot, slice⟩
      change (Buf.optionalVarint _ _ slice >>= _) = Buf.checked (decodeOptional _ _ slice >>= _)
      rw [optionalVarint_eq_optional, Buf.checked_bind]
      apply bind_congr
      rintro ⟨blockHeight, slice⟩
      change (hashBytes _ slice >>= _) = Buf.checked (decodeHash _ slice >>= _)
      rw [hashBytes_eq, Buf.checked_bind]
      apply bind_congr
      rintro ⟨previousBlockhash, slice⟩
      change (Buf.optionalVarint _ _ slice >>= _) = Buf.checked (decodeOptional _ _ slice >>= _)
      rw [optionalVarint_eq_optional, Buf.checked_bind]
      apply bind_congr
      rintro ⟨numRewardPartitions, slice⟩
      change (Buf.decodeVarint _ slice >>= _) = Buf.checked (decodeNumber _ slice >>= _)
      rw [decodeVarint_eq_number, Buf.checked_bind]
      apply bind_congr
      rintro ⟨len, slice⟩
      change (partitionBytes len slice >>= _) = Buf.checked (if len ≤ slice.length then _ else _)
      rw [partitionBytes_eq]
      split <;> rfl

end InflationRewardBaseValue

/-- The bytes after so many numbers, if they can be read. -/
def afterVarints : Nat → Bytes → Option Bytes
  | 0, slice => some slice
  | numbers + 1, slice => (Wire.decodeVarint slice).bind fun read => afterVarints numbers read.2

theorem forall_afterVarints {numbers : Nat} {slice : Bytes} {property : Bytes → Prop} :
    (∀ rest, afterVarints (numbers + 1) slice = some rest → property rest) ↔
      ∀ read, Wire.decodeVarint slice = some read →
        ∀ rest, afterVarints numbers read.2 = some rest → property rest := by
  rw [afterVarints]
  cases Wire.decodeVarint slice <;> simp

namespace RpcInflationReward

/-- Only two bytes are read otherwise than in the other form of the decoder. -/
theorem commissionBytes_eq {slice : Bytes} (sized : slice.length ≠ 2) :
    commissionBytes slice = Buf.checked (decodeCommission slice) := by
  rcases slice with - | ⟨commission, - | ⟨low, - | ⟨high, rest⟩⟩⟩
  · rfl
  · rfl
  · exact absurd rfl sized
  · rfl

theorem calm_commissionBytes_iff {slice : Bytes} :
    Buf.Calm (commissionBytes slice) ↔ slice.length ≠ 2 := by
  constructor
  · intro calm two
    obtain ⟨commission, low, rfl⟩ := List.length_eq_two.mp two
    exact Buf.not_calm_panicked calm
  · intro sized
    rw [commissionBytes_eq sized]
    exact Buf.calm_checked

/-- Unless two bytes are left after the four numbers, the decoder is its other form. -/
theorem decodeBytes_eq {slice : Bytes}
    (sized : ∀ rest, afterVarints 4 slice = some rest → rest.length ≠ 2) :
    decodeBytes slice = Buf.checked (decode slice) := by
  unfold decodeBytes decode
  refine decodeVarint_bind_eq fun epoch known => ?_
  have sized := forall_afterVarints.mp sized epoch known
  refine decodeVarint_bind_eq fun effectiveSlot known => ?_
  have sized := forall_afterVarints.mp sized effectiveSlot known
  refine decodeVarint_bind_eq fun amount known => ?_
  have sized := forall_afterVarints.mp sized amount known
  refine decodeVarint_bind_eq fun postBalance known => ?_
  have sized := forall_afterVarints.mp sized postBalance known postBalance.2 rfl
  change (commissionBytes postBalance.2 >>= _) = Buf.checked (decodeCommission postBalance.2 >>= _)
  rw [commissionBytes_eq sized, Buf.checked_bind]
  rfl

/-- Exactly two bytes after the four numbers stop the decoder. -/
theorem calm_decodeBytes_iff {slice : Bytes} : Buf.Calm (decodeBytes slice) ↔
    ∀ rest, afterVarints 4 slice = some rest → rest.length ≠ 2 := by
  constructor
  · intro calm
    unfold decodeBytes at calm
    refine forall_afterVarints.mpr fun epoch known => ?_
    have calm := Buf.calm_decodeVarint_bind_iff.mp calm epoch known
    refine forall_afterVarints.mpr fun effectiveSlot known => ?_
    have calm := Buf.calm_decodeVarint_bind_iff.mp calm effectiveSlot known
    refine forall_afterVarints.mpr fun amount known => ?_
    have calm := Buf.calm_decodeVarint_bind_iff.mp calm amount known
    refine forall_afterVarints.mpr fun postBalance known => ?_
    have calm := Buf.calm_decodeVarint_bind_iff.mp calm postBalance known
    rintro rest ⟨⟩
    exact calm_commissionBytes_iff.mp (Buf.calm_bind_iff.mp calm).1
  · intro sized
    rw [decodeBytes_eq sized]
    exact Buf.calm_checked

end RpcInflationReward

namespace SlotBasicIndexValue

theorem calm_decode (slice : Bytes) : Buf.Calm (decode slice) := by
  refine Buf.Calm.bind Buf.calm_tryGetU8 ?_
  rintro ⟨bits, slice⟩ -
  refine Buf.Calm.bind (Buf.calm_fromBits _ bits) ?_
  rintro flags -
  split
  · exact Buf.calm_ok _
  · refine Buf.Calm.bind (Buf.calm_optionalVarint _) ?_
    rintro ⟨blockTime, slice⟩ -
    refine Buf.Calm.bind (Buf.calm_optionalVarint _) ?_
    rintro ⟨blockHeight, slice⟩ -
    refine Buf.Calm.bind Buf.calm_decodeVarint ?_
    rintro ⟨storageId, slice⟩ -
    have converted : Buf.Calm (toStorageId storageId) := by
      unfold toStorageId
      split
      · exact Buf.calm_ok _
      · exact Buf.calm_failed
    refine Buf.Calm.bind converted ?_
    rintro storageId -
    refine Buf.Calm.bind Buf.calm_decodeVarint ?_
    rintro ⟨offset, slice⟩ -
    refine Buf.Calm.bind Buf.calm_decodeVarint ?_
    rintro ⟨size, slice⟩ -
    exact Buf.calm_ok _

end SlotBasicIndexValue

/-- Every one of so many lists announces no more hashes than the bytes after its number hold. -/
def listsFit : Nat → Bytes → Bool
  | 0, _ => true
  | lists + 1, slice => (Wire.decodeVarint slice).all fun read =>
      8 * read.1 ≤ read.2.length && listsFit lists (read.2.drop (8 * read.1))

theorem listsFit_succ_iff {lists : Nat} {slice : Bytes} : listsFit (lists + 1) slice = true ↔
    ∀ read, Wire.decodeVarint slice = some read →
      8 * read.1 ≤ read.2.length ∧ listsFit lists (read.2.drop (8 * read.1)) = true := by
  rw [listsFit]
  cases Wire.decodeVarint slice <;> simp

namespace SlotExtraIndexValue

variable {context : String} {slice : Bytes} {count index : Nat}

/-- The hashes that are there are read. -/
theorem readHashes_of_le (inside : (index + count) * 8 ≤ slice.length) :
    ∃ hashes, readHashes slice count index = .ok hashes ∧ hashes.length = count := by
  induction count generalizing index with
  | zero => exact ⟨[], rfl, rfl⟩
  | succ count ih =>
      have others : (index + 1 + count) * 8 ≤ slice.length := by omega
      obtain ⟨hashes, read, rfl⟩ := ih others
      rw [readHashes, Buf.range_of_le (by omega) (by omega)]
      change ∃ all, (readHashes slice hashes.length (index + 1) >>= _) = _ ∧ _
      rw [read]
      exact ⟨_, rfl, rfl⟩

/-- The loop stops at the first hash that is not there. -/
theorem le_length_of_calm_readHashes (calm : Buf.Calm (readHashes slice count index))
    (positive : 0 < count) : (index + count) * 8 ≤ slice.length := by
  induction count generalizing index with
  | zero => exact absurd positive (Nat.lt_irrefl 0)
  | succ count ih =>
      rw [readHashes] at calm
      have here := Buf.calm_range_iff.mp (Buf.calm_bind_iff.mp calm).1
      have later := (Buf.calm_bind_iff.mp calm).2 _ (Buf.range_of_le here.1 here.2)
      rcases Nat.eq_zero_or_pos count with rfl | others
      · exact here.2
      · have inside := ih (Buf.calm_bind_iff.mp later).1 others
        omega

/-- A list whose hashes are all there is read, and the bytes after them are left. -/
theorem decodeHashes_of_le (context : String) {rest : Bytes}
    (found : Wire.decodeVarint slice = some (count, rest)) (inside : 8 * count ≤ rest.length)
    (fits : rest.length ≤ 9223372036854775807) :
    ∃ hashes, decodeHashes context slice = .ok (hashes, rest.drop (8 * count)) := by
  have all : (0 + count) * 8 ≤ rest.length := by omega
  obtain ⟨hashes, read, rfl⟩ := readHashes_of_le all
  refine ⟨hashes, ?_⟩
  rw [decodeHashes, Buf.decodeVarint_eq_ok_iff.mpr found]
  change (Buf.withCapacity 8 hashes.length >>= _) = _
  rw [Buf.withCapacity, if_pos (by omega)]
  change (readHashes rest hashes.length 0 >>= _) = _
  rw [read]
  change (Buf.advance (hashes.length * 8) rest >>= _) = _
  rw [Buf.advance_of_le (by omega), Nat.mul_comm 8]
  rfl

/-- A list that announces more hashes than there are stops the decoder. -/
theorem le_length_of_calm_decodeHashes {rest : Bytes} (calm : Buf.Calm (decodeHashes context slice))
    (found : Wire.decodeVarint slice = some (count, rest)) : 8 * count ≤ rest.length := by
  rw [decodeHashes, Buf.calm_decodeVarint_bind_iff] at calm
  obtain ⟨allocated, loop⟩ := Buf.calm_bind_iff.mp (calm _ found)
  have read := loop () (if_pos (Buf.calm_withCapacity_iff.mp allocated))
  rcases Nat.eq_zero_or_pos count with rfl | positive
  · exact Nat.zero_le _
  · have inside : (0 + count) * 8 ≤ rest.length :=
      le_length_of_calm_readHashes (Buf.calm_bind_iff.mp read).1 positive
    omega

/-- A list is calm exactly if its hashes are there and the bytes after them are calm. -/
theorem calm_decodeHashes_bind_iff {B : Type} {next : List HashedKey × Bytes → Except Buf.Fault B}
    (property : Bytes → Prop) (fits : slice.length ≤ 9223372036854775807)
    (later : ∀ hashes rest, rest.length ≤ slice.length →
      (Buf.Calm (next (hashes, rest)) ↔ property rest)) :
    Buf.Calm (decodeHashes context slice >>= next) ↔ ∀ read, Wire.decodeVarint slice = some read →
      8 * read.1 ≤ read.2.length ∧ property (read.2.drop (8 * read.1)) := by
  have shorter : ∀ read, Wire.decodeVarint slice = some read →
      (read.2.drop (8 * read.1)).length ≤ slice.length := by
    intro read found
    have := Wire.length_decodeVarint found
    rw [List.length_drop]
    omega
  constructor
  · intro calm read found
    have inside := le_length_of_calm_decodeHashes (Buf.calm_bind_iff.mp calm).1 found
    obtain ⟨hashes, decoded⟩ := decodeHashes_of_le context found inside
      ((Wire.length_decodeVarint found).trans fits)
    rw [decoded] at calm
    exact ⟨inside, (later hashes _ (shorter read found)).mp calm⟩
  · intro all
    cases found : Wire.decodeVarint slice with
    | none =>
        rw [decodeHashes, Buf.decodeVarint, found]
        exact Buf.calm_failed
    | some read =>
        obtain ⟨inside, calm⟩ := all read found
        obtain ⟨hashes, decoded⟩ := decodeHashes_of_le context found inside
          ((Wire.length_decodeVarint found).trans fits)
        rw [decoded]
        exact (later hashes _ (shorter read found)).mpr calm

/-- The decoder is calm exactly if both lists fit; bytes after them are a failure. -/
theorem calm_decode_iff (fits : slice.length ≤ 9223372036854775807) :
    Buf.Calm (decode slice) ↔ listsFit 2 slice = true := by
  rw [listsFit_succ_iff]
  refine calm_decodeHashes_bind_iff (fun rest => listsFit 1 rest = true) fits ?_
  intro transactions rest shorter
  rw [listsFit_succ_iff]
  refine calm_decodeHashes_bind_iff (fun rest => listsFit 0 rest = true)
    (shorter.trans fits) ?_
  intro sfa rest _
  refine iff_of_true (Buf.Calm.bind (Buf.calm_ensure _) ?_) rfl
  rintro _ -
  exact Buf.calm_ok _

end SlotExtraIndexValue

namespace SfaIndexValue

variable {codec : ErrorCodec}

/-- The length is checked before the bytes are sliced and skipped. -/
theorem calm_decodeSized {A : Type} {present : Bool} {name : String}
    {read : Bytes → Except Buf.Fault A} (calm : ∀ data, Buf.Calm (read data)) (slice : Bytes) :
    Buf.Calm (decodeSized present name read slice) := by
  unfold decodeSized
  split
  · refine Buf.Calm.bind Buf.calm_decodeVarint ?_
    rintro ⟨size, slice⟩ -
    refine Buf.Calm.bind (Buf.calm_ensure _) ?_
    intro _ checked
    have inside : size ≤ slice.length := of_decide_eq_true (Buf.ensure_eq_ok_iff.mp checked)
    refine Buf.Calm.bind (Buf.calm_range_iff.mpr ⟨Nat.zero_le size, inside⟩) ?_
    rintro data -
    refine Buf.Calm.bind (calm data) ?_
    rintro value -
    refine Buf.Calm.bind (Buf.calm_advance_iff.mpr inside) ?_
    rintro rest -
    exact Buf.calm_ok _
  · exact Buf.calm_ok _

theorem calm_readErr (data : Bytes) : Buf.Calm (readErr codec data) := by
  unfold readErr
  split
  · exact Buf.calm_ok _
  · exact Buf.calm_failed

theorem calm_readMemo (data : Bytes) : Buf.Calm (readMemo data) := by
  unfold readMemo
  split
  · exact Buf.calm_ok _
  · exact Buf.calm_failed

theorem calm_decode (slice : Bytes) : Buf.Calm (decode codec slice) := by
  unfold decode
  split
  · exact Buf.calm_ok _
  · refine Buf.Calm.bind Buf.calm_tryGetU8 ?_
    rintro ⟨bits, slice⟩ -
    refine Buf.Calm.bind (Buf.calm_fromBits _ bits) ?_
    rintro flags -
    rw [Buf.calm_map_iff]
    refine Buf.Calm.bind Buf.calm_tryCopyToSlice ?_
    rintro ⟨signature, slice⟩ -
    have index : Buf.Calm
        (decodeIndex (Buf.contains flags SfaIndexValueFlags.transactionIndex) slice) := by
      unfold decodeIndex
      split
      · exact Buf.calm_map_iff.mpr Buf.calm_tryCopyToSlice
      · exact Buf.calm_ok _
    refine Buf.Calm.bind index ?_
    rintro ⟨transactionIndex, slice⟩ -
    refine Buf.Calm.bind (calm_decodeSized calm_readErr slice) ?_
    rintro ⟨err, slice⟩ -
    refine Buf.Calm.bind (calm_decodeSized calm_readMemo slice) ?_
    rintro ⟨memo, slice⟩ -
    exact Buf.calm_ok _

end SfaIndexValue

namespace RecordKind

/-- Two kinds of records have bytes that stop their decoders: hashes that are announced and are not
there, and two bytes after the numbers of a reward. -/
def WellSized (slice : Bytes) : RecordKind → Prop
  | slotExtra => listsFit 2 slice = true
  | inflationRewardAddress => ∀ rest, afterVarints 4 slice = some rest → rest.length ≠ 2
  | slotBasic | transaction _ | sfa | inflationRewardBase => True

/-- A decoder returns or fails without a panic exactly if the bytes are well sized for its kind of
record; a slice has at most `isize::MAX` bytes. -/
theorem decode_calm_iff (codec : ErrorCodec) (kind : RecordKind) (slice : Bytes)
    (fits : slice.length ≤ 9223372036854775807) :
    Buf.Calm (kind.decode codec slice) ↔ kind.WellSized slice := by
  cases kind with
  | slotBasic => exact iff_of_true (Buf.calm_map_iff.mpr (SlotBasicIndexValue.calm_decode slice)) trivial
  | slotExtra => exact Buf.calm_map_iff.trans (SlotExtraIndexValue.calm_decode_iff fits)
  | transaction decodeError =>
      refine iff_of_true (Buf.calm_map_iff.mpr ?_) trivial
      rw [TransactionIndexValue.decodeBytes_eq]
      exact Buf.calm_checked
  | sfa => exact iff_of_true (Buf.calm_map_iff.mpr (SfaIndexValue.calm_decode slice)) trivial
  | inflationRewardBase =>
      refine iff_of_true (Buf.calm_map_iff.mpr ?_) trivial
      rw [InflationRewardBaseValue.decodeBytes_eq]
      exact Buf.calm_checked
  | inflationRewardAddress => exact Buf.calm_map_iff.trans RpcInflationReward.calm_decodeBytes_iff

/-- One hash is announced and is there, and the second list is empty; two announced hashes are not. -/
theorem decode_calm_iff_hash :
    Buf.Calm (slotExtra.decode TransactionIndexValue.plainErrors [1, 0, 0, 0, 0, 0, 0, 0, 9, 0]) ∧
      ¬ Buf.Calm (slotExtra.decode TransactionIndexValue.plainErrors [2, 0, 0, 0, 0, 0, 0, 0, 9, 0]) := by
  have fits : listsFit 2 [1, 0, 0, 0, 0, 0, 0, 0, 9, 0] = true := by decide
  have short : ¬ listsFit 2 [2, 0, 0, 0, 0, 0, 0, 0, 9, 0] = true := by decide
  constructor
  · exact (decode_calm_iff TransactionIndexValue.plainErrors slotExtra
      [1, 0, 0, 0, 0, 0, 0, 0, 9, 0] (by decide)).mpr fits
  · intro calm
    exact short ((decode_calm_iff TransactionIndexValue.plainErrors slotExtra
      [2, 0, 0, 0, 0, 0, 0, 0, 9, 0] (by decide)).mp calm)

/-- A record of the hashes of a slot that is only the number 1, and a reward whose four numbers have
two bytes after them, are panics. -/
theorem decode_calm_false :
    slotExtra.decode TransactionIndexValue.plainErrors [1] =
      .error (.panicked "range end index 8 out of range for slice of length 0") ∧
    inflationRewardAddress.decode TransactionIndexValue.plainErrors [2, 5, 30, 100, 7, 1] =
      .error (.panicked "index out of bounds: the len is 2 but the index is 2") ∧
    ¬ ∀ (codec : ErrorCodec) (kind : RecordKind) (slice : Bytes),
      slice.length ≤ 9223372036854775807 → Buf.Calm (kind.decode codec slice) := by
  have hashes : slotExtra.decode TransactionIndexValue.plainErrors [1] =
      .error (.panicked "range end index 8 out of range for slice of length 0") := by
    change Except.error (Buf.Fault.panicked
      s!"range end index {8} out of range for slice of length {0}") = _
    rfl
  have reward : inflationRewardAddress.decode TransactionIndexValue.plainErrors [2, 5, 30, 100, 7, 1] =
      .error (.panicked "index out of bounds: the len is 2 but the index is 2") := by
    change Except.error (Buf.Fault.panicked
      s!"index out of bounds: the len is {2} but the index is {2}") = _
    rfl
  refine ⟨hashes, reward, ?_⟩
  intro calm
  have here := calm TransactionIndexValue.plainErrors slotExtra [1] (by decide)
  rw [hashes] at here
  exact Buf.not_calm_panicked here

end RecordKind

end Alpamayo
