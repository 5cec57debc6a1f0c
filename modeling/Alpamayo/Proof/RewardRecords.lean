import Alpamayo.Proof.InflationReward

/-!
This file shows that the records of the inflation rewards keep their meaning in every rewrite.
-/

namespace Alpamayo

namespace InflationRewardBaseValue

/-- A round marks partitions, writes the record and reads it back. -/
def rewrite (self : InflationRewardBaseValue) (marks : List Nat) :
    Except PushRewardError InflationRewardBaseValue := do
  let base ← marks.foldlM InflationRewardIndex.setPartition self
  (decode base.encode).mapError .decode

/-- The record has the fields of the first one, and of its bits exactly the marked ones are set. -/
structure Marked (start : InflationRewardBaseValue) (count : Nat) (marks : List Nat)
    (value : InflationRewardBaseValue) : Prop where
  slot : value.slot = start.slot
  blockHeight : value.blockHeight = start.blockHeight
  previousBlockhash : value.previousBlockhash = start.previousBlockhash
  numRewardPartitions : value.numRewardPartitions = start.numRewardPartitions
  bits : ∀ index < count, value.partitions[index]? = some (decide (index ∈ marks))
  further : ∀ index, count ≤ index → value.partitions[index]? ≠ some true
  length : value.partitions.length ≤ 8 * ((count + 7) / 8)

variable {start value : InflationRewardBaseValue} {count : Nat} {marks : List Nat}

namespace Marked

/-- No bit of a new record is set. -/
theorem new (slot : Nat) (blockHeight : Option Nat) (previousBlockhash : Hash)
    (numRewardPartitions : Option Nat) :
    Marked (.new slot blockHeight previousBlockhash numRewardPartitions) (numRewardPartitions.getD 0) []
      (.new slot blockHeight previousBlockhash numRewardPartitions) where
  slot := rfl
  blockHeight := rfl
  previousBlockhash := rfl
  numRewardPartitions := rfl
  bits index inside := by
    rw [InflationRewardBaseValue.new, List.getElem?_replicate, if_pos inside]
    rfl
  further index outside := by
    rw [InflationRewardBaseValue.new, List.getElem?_replicate, if_neg (Nat.not_lt.mpr outside)]
    exact Option.some_ne_none true |>.symm
  length := by
    rw [InflationRewardBaseValue.new, List.length_replicate]
    omega

/-- A record has at least its own partitions. -/
theorem le_length (marked : Marked start count marks value) : count ≤ value.partitions.length := by
  by_contra shorter
  have known := marked.bits value.partitions.length (by omega)
  rw [List.getElem?_eq_none le_rfl] at known
  cases known

/-- A partition of the record can be marked. -/
theorem setPartition (marked : Marked start count marks value) {index : Nat} (inside : index < count) :
    ∃ after, InflationRewardIndex.setPartition value index = .ok after ∧
      Marked start count (marks ++ [index]) after := by
  have exists_bit : index < value.partitions.length := Nat.lt_of_lt_of_le inside marked.le_length
  refine ⟨_, by rw [InflationRewardIndex.setPartition, if_neg (by omega), if_pos exists_bit], ?_⟩
  refine ⟨marked.slot, marked.blockHeight, marked.previousBlockhash, marked.numRewardPartitions,
    ?_, ?_, ?_⟩
  · intro other known
    rw [List.getElem?_set]
    by_cases same : index = other
    · subst same
      rw [if_pos rfl, if_pos exists_bit]
      simp
    · rw [if_neg same, marked.bits other known]
      simp [Ne.symm same]
  · intro other outside
    rw [List.getElem?_set_ne (by omega)]
    exact marked.further other outside
  · rw [List.length_set]
    exact marked.length

/-- So can several ones, one after another. -/
theorem foldlM_setPartition (marked : Marked start count marks value) {news : List Nat}
    (inside : ∀ index ∈ news, index < count) :
    ∃ after, news.foldlM InflationRewardIndex.setPartition value = .ok after ∧
      Marked start count (marks ++ news) after := by
  induction news generalizing marks value with
  | nil =>
      rw [List.append_nil]
      exact ⟨value, rfl, marked⟩
  | cons index news ih =>
      obtain ⟨middle, set, marked⟩ := marked.setPartition (inside index List.mem_cons_self)
      obtain ⟨after, ran, marked⟩ := ih marked fun other known =>
        inside other (List.mem_cons_of_mem _ known)
      rw [List.append_assoc, List.singleton_append] at marked
      refine ⟨after, ?_, marked⟩
      rw [List.foldlM_cons, set]
      exact ran

/-- The numbers of the record fit the format as those of the first one do. -/
theorem valid (marked : Marked start count marks value) (slot : start.slot < 2 ^ 64)
    (blockHeight : ∀ number ∈ start.blockHeight, number < 2 ^ 64)
    (numRewardPartitions : ∀ number ∈ start.numRewardPartitions, number < 2 ^ 64)
    (small : count < 2 ^ 64) : value.Valid where
  slot := marked.slot ▸ slot
  blockHeight := marked.blockHeight ▸ blockHeight
  numRewardPartitions := marked.numRewardPartitions ▸ numRewardPartitions
  partitions := by
    have := marked.length
    rw [Bits.length_pack]
    omega

/-- The record is read back with the same bits; the whole bytes add only bits that are not set. -/
theorem decode_encode (marked : Marked start count marks value) (valid : value.Valid) :
    ∃ read, decode value.encode = .ok read ∧ Marked start count marks read := by
  refine ⟨_, InflationRewardBaseValue.decode_encode valid, marked.slot, marked.blockHeight,
    marked.previousBlockhash, marked.numRewardPartitions, ?_, ?_, ?_⟩
  · intro index inside
    have covered : index < 8 * ((value.partitions.length + 7) / 8) := by
      have := marked.le_length
      omega
    rw [Bits.getElem?_unpack_pack covered, List.getD_eq_getElem?_getD, marked.bits index inside]
    rfl
  · intro index outside set
    exact marked.further index outside (Bits.getElem?_unpack_pack_eq_true.mp set)
  · have := marked.length
    rw [Bits.length_unpack, Bits.length_pack]
    omega

/-- A round adds its marks. -/
theorem rewrite (marked : Marked start count marks value)
    (valid : ∀ marks value, Marked start count marks value → value.Valid) {news : List Nat}
    (inside : ∀ index ∈ news, index < count) :
    ∃ after, value.rewrite news = .ok after ∧ Marked start count (marks ++ news) after := by
  obtain ⟨base, set, marked⟩ := marked.foldlM_setPartition inside
  obtain ⟨read, decoded, marked⟩ := marked.decode_encode (valid _ base marked)
  refine ⟨read, ?_, marked⟩
  rw [InflationRewardBaseValue.rewrite, set]
  change (decode base.encode).mapError _ = _
  rw [decoded]
  rfl

/-- All rounds keep the marks of the earlier ones. -/
theorem foldlM_rewrite (marked : Marked start count marks value)
    (valid : ∀ marks value, Marked start count marks value → value.Valid) {rounds : List (List Nat)}
    (inside : ∀ news ∈ rounds, ∀ index ∈ news, index < count) :
    ∃ after, rounds.foldlM InflationRewardBaseValue.rewrite value = .ok after ∧
      Marked start count (marks ++ rounds.flatten) after := by
  induction rounds generalizing marks value with
  | nil =>
      rw [List.flatten_nil, List.append_nil]
      exact ⟨value, rfl, marked⟩
  | cons news rounds ih =>
      obtain ⟨middle, ran, marked⟩ := marked.rewrite valid (inside news List.mem_cons_self)
      obtain ⟨after, others, marked⟩ := ih marked fun later known =>
        inside later (List.mem_cons_of_mem _ known)
      rw [List.append_assoc, ← List.flatten_cons] at marked
      refine ⟨after, ?_, marked⟩
      rw [List.foldlM_cons, ran]
      exact others

end Marked

end InflationRewardBaseValue

/-- A record without basis points ends with the commission, if there is one. -/
theorem RpcInflationReward.decode_encodeOlder {reward : RpcInflationReward} (valid : reward.Valid) :
    decode reward.encodeOlder = .ok { reward with commissionBps := none } := by
  simp only [encodeOlder, decode, decodeNumber_encode valid.epoch,
    decodeNumber_encode valid.effectiveSlot, decodeNumber_encode valid.amount,
    decodeNumber_encode valid.postBalance, bind, Except.bind]
  cases reward.commission <;> rfl

/-- A base record that went through any rounds and got further marks is read back with its fields and
with exactly the marked bits, and a reward is read back from both layouts. -/
theorem rewardRecords_roundTrip (slot : Nat) (blockHeight : Option Nat) (previousBlockhash : Hash)
    (numRewardPartitions : Option Nat) (rounds : List (List Nat)) (marks : List Nat)
    (reward : RpcInflationReward) (slotFits : slot < 2 ^ 64)
    (heightFits : ∀ number ∈ blockHeight, number < 2 ^ 64)
    (partitionsFit : ∀ number ∈ numRewardPartitions, number < 2 ^ 64)
    (inside : ∀ news ∈ rounds, ∀ index ∈ news, index < numRewardPartitions.getD 0)
    (lastInside : ∀ index ∈ marks, index < numRewardPartitions.getD 0) (valid : reward.Valid) :
    (∃ value read,
      (do let base ← rounds.foldlM InflationRewardBaseValue.rewrite
            (.new slot blockHeight previousBlockhash numRewardPartitions)
          marks.foldlM InflationRewardIndex.setPartition base) = .ok value ∧
      InflationRewardBaseValue.decode value.encode = .ok read ∧ read.slot = slot ∧ read.blockHeight = blockHeight ∧
      read.previousBlockhash = previousBlockhash ∧ read.numRewardPartitions = numRewardPartitions ∧
      (∀ index < numRewardPartitions.getD 0, read.partitions[index]? = value.partitions[index]? ∧
        value.partitions[index]? = some (decide (index ∈ rounds.flatten ++ marks))) ∧
      ∀ index, numRewardPartitions.getD 0 ≤ index → read.partitions[index]? ≠ some true) ∧
    RpcInflationReward.decode reward.encode = .ok reward ∧
    RpcInflationReward.decode reward.encodeOlder = .ok { reward with commissionBps := none } := by
  have small : numRewardPartitions.getD 0 < 2 ^ 64 := by
    cases numRewardPartitions with
    | none => decide
    | some count => exact partitionsFit count rfl
  have start := InflationRewardBaseValue.Marked.new slot blockHeight previousBlockhash
    numRewardPartitions
  have fits : ∀ marks value, InflationRewardBaseValue.Marked
      (.new slot blockHeight previousBlockhash numRewardPartitions) (numRewardPartitions.getD 0)
      marks value → value.Valid :=
    fun _ _ marked => marked.valid slotFits heightFits partitionsFit small
  obtain ⟨base, ran, marked⟩ := start.foldlM_rewrite fits inside
  rw [List.nil_append] at marked
  obtain ⟨value, set, marked⟩ := marked.foldlM_setPartition lastInside
  obtain ⟨read, decoded, back⟩ := marked.decode_encode (fits _ value marked)
  refine ⟨⟨value, read, ?_, decoded, back.slot, back.blockHeight, back.previousBlockhash,
    back.numRewardPartitions, ?_, back.further⟩, RpcInflationReward.decode_encode valid,
    RpcInflationReward.decode_encodeOlder valid⟩
  · rw [ran]
    exact set
  · intro index known
    exact ⟨(back.bits index known).trans (marked.bits index known).symm, marked.bits index known⟩

/-- Ten partitions take two bytes; the partitions 1 and 8 are marked in two rounds, and then the
partition 9. -/
theorem rewardRecords_roundTrip_ten :
    (∃ value read,
      (do let base ← [[1], [8]].foldlM InflationRewardBaseValue.rewrite
            (.new 5 (some 4) ⟨List.replicate 32 0, rfl⟩ (some 10))
          [9].foldlM InflationRewardIndex.setPartition base) = .ok value ∧
      InflationRewardBaseValue.decode value.encode = .ok read ∧ read.slot = 5 ∧
      read.blockHeight = some 4 ∧ read.previousBlockhash = ⟨List.replicate 32 0, rfl⟩ ∧
      read.numRewardPartitions = some 10 ∧
      (∀ index < 10, read.partitions[index]? = value.partitions[index]? ∧
        value.partitions[index]? = some (decide (index ∈ [1, 8, 9]))) ∧
      ∀ index, 10 ≤ index → read.partitions[index]? ≠ some true) ∧
    RpcInflationReward.decode (RpcInflationReward.encode ⟨2, 5, 300, 1000, some 7, some 700⟩) =
      .ok ⟨2, 5, 300, 1000, some 7, some 700⟩ ∧
    RpcInflationReward.decode (RpcInflationReward.encodeOlder ⟨2, 5, 300, 1000, some 7, some 700⟩) =
      .ok ⟨2, 5, 300, 1000, some 7, none⟩ := by
  refine rewardRecords_roundTrip 5 (some 4) ⟨List.replicate 32 0, rfl⟩ (some 10) [[1], [8]] [9]
    ⟨2, 5, 300, 1000, some 7, some 700⟩ (by decide) ?_ ?_ (by decide) (by decide) ?_
  · rintro _ ⟨⟩
    decide
  · rintro _ ⟨⟩
    decide
  · exact ⟨by decide, by decide, by decide, by decide, fun _ => rfl⟩

end Alpamayo
