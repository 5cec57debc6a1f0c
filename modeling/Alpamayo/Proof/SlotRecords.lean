import Alpamayo.Storage.SlotIndex

/-!
This file shows that both records of a slot are read back from their bytes.
-/

namespace Alpamayo

/-- The two's complement is undone. -/
theorem castI64_castU64 {value : Int} (fits : IsInt64 value) : castI64 (castU64 value) = value := by
  unfold IsInt64 at fits
  unfold castI64 castU64
  split <;> omega

theorem castU64_lt (value : Int) : castU64 value < 2 ^ 64 := by
  unfold castU64
  omega

namespace SlotBasicIndexValue

variable {value : SlotBasicIndexValue}

/-- The numbers of a record have their machine types. -/
structure Fits (value : SlotBasicIndexValue) : Prop where
  blockTime : ∀ time ∈ value.blockTime, IsInt64 time
  blockHeight : ∀ height ∈ value.blockHeight, height < 2 ^ 64
  offset : value.offset < 2 ^ 64
  size : value.size < 2 ^ 64

/-- The flags of a live slot take one byte, and they are those of its optional fields. -/
theorem flags_live (live : value.dead = false) :
    Wire.encodeVarint value.flags.toNat = [value.flags] ∧
      Buf.fromBits SlotBasicIndexValueFlags.all "invalid flags" value.flags = .ok value.flags ∧
      Buf.contains value.flags SlotBasicIndexValueFlags.dead = false ∧
      Buf.contains value.flags SlotBasicIndexValueFlags.blockTime = value.blockTime.isSome ∧
      Buf.contains value.flags SlotBasicIndexValueFlags.blockHeight = value.blockHeight.isSome := by
  unfold flags
  rw [live]
  generalize value.blockTime.isSome = hasTime
  generalize value.blockHeight.isSome = hasHeight
  cases hasTime
  · cases hasHeight <;> decide
  · cases hasHeight <;> decide

/-- A storage id fits its machine type. -/
theorem toStorageId_toNat (storageId : StorageId) : toStorageId storageId.toNat = .ok storageId := by
  unfold toStorageId
  rw [if_pos storageId.toNat_lt, UInt8.ofNat_toNat]

/-- The fields after the flags are read back. -/
theorem decodeLive_encode (fits : value.Fits) (live : value.dead = false) (rest : Bytes) :
    decodeLive value.flags ((value.blockTime.map castU64).elim [] Wire.encodeVarint ++
      (value.blockHeight.elim [] Wire.encodeVarint ++ (Wire.encodeVarint value.storageId.toNat ++
        (Wire.encodeVarint value.offset ++ (Wire.encodeVarint value.size ++ rest))))) = .ok value := by
  obtain ⟨-, -, -, hasTime, hasHeight⟩ := flags_live live
  have times : ∀ number ∈ value.blockTime.map castU64, number < 2 ^ 64 := by
    intro number known
    obtain ⟨time, -, rfl⟩ := Option.map_eq_some_iff.mp known
    exact castU64_lt time
  have back : (value.blockTime.map castU64).map castI64 = value.blockTime := by
    cases known : value.blockTime with
    | none => rfl
    | some time =>
        rw [Option.map_some, Option.map_some, castI64_castU64 (fits.blockTime time known)]
  have storageId : value.storageId.toNat < 2 ^ 64 := by
    have := value.storageId.toNat_lt
    omega
  have isSome : value.blockTime.isSome = (value.blockTime.map castU64).isSome :=
    Option.isSome_map.symm
  unfold decodeLive
  rw [hasTime, isSome, Buf.optionalVarint_encode times, hasHeight]
  change (Buf.optionalVarint _ _ _ >>= _) = _
  rw [Buf.optionalVarint_encode fits.blockHeight]
  change (Buf.decodeVarint _ _ >>= _) = _
  rw [Buf.decodeVarint_encode storageId]
  change (toStorageId _ >>= _) = _
  rw [toStorageId_toNat]
  change (Buf.decodeVarint _ _ >>= _) = _
  rw [Buf.decodeVarint_encode fits.offset]
  change (Buf.decodeVarint _ _ >>= _) = _
  rw [Buf.decodeVarint_encode fits.size]
  change Except.ok _ = _
  rw [back, ← live]

/-- A record comes back from its bytes; a dead one has no other fields. -/
theorem decode_encode (fits : value.Fits) (plain : value.dead = true → value = { dead := true }) :
    decode value.encode = .ok value := by
  cases isDead : value.dead with
  | true =>
      rw [plain isDead]
      rfl
  | false =>
      obtain ⟨oneByte, known, notDead, -, -⟩ := flags_live isDead
      have read := decodeLive_encode fits isDead []
      rw [List.append_nil] at read
      rw [encode, isDead, if_neg (by decide), oneByte, List.singleton_append]
      unfold decode
      change (Buf.fromBits _ _ _ >>= _) = _
      rw [known]
      change (if Buf.contains value.flags SlotBasicIndexValueFlags.dead = true then _ else _) = _
      rw [notDead, if_neg (by decide)]
      exact read

end SlotBasicIndexValue

/-- The eight bytes of a hash spell it. -/
theorem HashedKey.ofBytes_toBytes (key : HashedKey) : ofBytes (toBytes key) = key := by
  unfold ofBytes toBytes
  rw [Buf.ofBigEndian_bigEndian key.isLt, BitVec.ofNat_toNat, BitVec.setWidth_eq]

@[simp] theorem HashedKey.length_toBytes (key : HashedKey) : (toBytes key).length = 8 :=
  Buf.length_bigEndian 8 key.toNat

@[simp] theorem HashedKey.length_flatMap (keys : List HashedKey) :
    (keys.flatMap toBytes).length = keys.length * 8 := by
  induction keys with
  | nil => rfl
  | cons key keys ih =>
      rw [List.flatMap_cons, List.length_append, length_toBytes, ih, List.length_cons]
      omega

namespace SlotExtraIndexValue

variable {keys : List HashedKey} {value : SlotExtraIndexValue}

/-- The loop reads the hashes after those that it has read. -/
theorem readHashes_flatMap (before : Bytes) {index : Nat} (length : before.length = index * 8)
    (keys : List HashedKey) (rest : Bytes) :
    readHashes (before ++ (keys.flatMap HashedKey.toBytes ++ rest)) keys.length index = .ok keys := by
  induction keys generalizing before index with
  | nil => rfl
  | cons key keys ih =>
      have here : Buf.range (index * 8) ((index + 1) * 8)
          (before ++ ((key :: keys).flatMap HashedKey.toBytes ++ rest)) =
            .ok (HashedKey.toBytes key) := by
        have inside : (index + 1) * 8 ≤
            (before ++ ((key :: keys).flatMap HashedKey.toBytes ++ rest)).length := by
          rw [List.length_append, List.length_append, HashedKey.length_flatMap, List.length_cons]
          omega
        unfold Buf.range
        rw [if_pos (by omega), if_pos inside]
        apply congrArg Except.ok
        rw [List.flatMap_cons, List.append_assoc, ← List.append_assoc before,
          List.take_append_of_le_length (by simp; omega), List.take_of_length_le (by simp; omega),
          ← length, List.drop_left]
      have longer : (before ++ HashedKey.toBytes key).length = (index + 1) * 8 := by
        rw [List.length_append, HashedKey.length_toBytes, length]
        omega
      have later := ih (before ++ HashedKey.toBytes key) longer
      rw [List.append_assoc, ← List.append_assoc (HashedKey.toBytes key), ← List.flatMap_cons] at later
      rw [List.length_cons, readHashes, here]
      change (readHashes _ _ _ >>= _) = _
      rw [later]
      change Except.ok _ = _
      rw [HashedKey.ofBytes_toBytes]

/-- A counted list is read back. -/
theorem decodeHashes_encode {context : String} (fits : 8 * keys.length ≤ 9223372036854775807)
    (rest : Bytes) :
    decodeHashes context (Wire.encodeVarint keys.length ++
      (keys.flatMap HashedKey.toBytes ++ rest)) = .ok (keys, rest) := by
  have read := readHashes_flatMap [] (Nat.zero_mul 8).symm keys rest
  rw [List.nil_append] at read
  unfold decodeHashes
  rw [Buf.decodeVarint_encode (by omega)]
  change (Buf.withCapacity _ _ >>= _) = _
  rw [Buf.withCapacity, if_pos fits]
  change (readHashes _ _ _ >>= _) = _
  rw [read]
  change (Buf.advance _ _ >>= _) = _
  rw [← HashedKey.length_flatMap, Buf.advance_append]
  rfl

/-- A vector has at most so many bytes. -/
structure Fits (value : SlotExtraIndexValue) : Prop where
  transactions : 8 * value.transactions.length ≤ 9223372036854775807
  sfa : 8 * value.sfa.length ≤ 9223372036854775807

/-- A record comes back from its bytes. -/
theorem decode_encode (fits : value.Fits) : decode value.encode = .ok value := by
  have last : decodeHashes "failed to read sfa size" (Wire.encodeVarint value.sfa.length ++
      (value.sfa.flatMap HashedKey.toBytes ++ [])) = .ok (value.sfa, []) :=
    decodeHashes_encode fits.sfa []
  rw [List.append_nil] at last
  unfold decode encode
  rw [decodeHashes_encode fits.transactions]
  change (decodeHashes _ _ >>= _) = _
  rw [last]
  rfl

end SlotExtraIndexValue

/-- Both records of a slot come back from their bytes. -/
theorem slotRecords_roundTrip (basic : SlotBasicIndexValue) (extra : SlotExtraIndexValue)
    (basicFits : basic.Fits) (plain : basic.dead = true → basic = { dead := true })
    (extraFits : extra.Fits) :
    SlotBasicIndexValue.decode basic.encode = .ok basic ∧
      SlotExtraIndexValue.decode extra.encode = .ok extra :=
  ⟨SlotBasicIndexValue.decode_encode basicFits plain, SlotExtraIndexValue.decode_encode extraFits⟩

/-- A block before 1970 and two lists of hashes come back. -/
theorem slotRecords_roundTrip_negative :
    SlotBasicIndexValue.decode (SlotBasicIndexValue.encode ⟨false, some (-3), some 300, 7, 1000, 128⟩) =
      .ok ⟨false, some (-3), some 300, 7, 1000, 128⟩ ∧
    SlotExtraIndexValue.decode (SlotExtraIndexValue.encode ⟨[1, 2], [3]⟩) = .ok ⟨[1, 2], [3]⟩ := by
  refine slotRecords_roundTrip _ _ ?_ (by rintro ⟨⟩) ⟨by decide, by decide⟩
  constructor
  · rintro _ ⟨⟩
    exact ⟨by decide, by decide⟩
  · rintro _ ⟨⟩
    decide
  · decide
  · decide

end Alpamayo
