import Alpamayo.Storage.InflationReward
import Mathlib.Order.Monotone.Basic

/-!
This file shows that the cache of the inflation rewards serves no wrong answer.
-/

namespace Alpamayo

section records

variable {context : String} {rest : Bytes}

/-- A 64-bit number is read back from a record. -/
theorem decodeNumber_encode {value : Nat} (small : value < 2 ^ 64) :
    decodeNumber context (Wire.encodeVarint value ++ rest) = .ok (value, rest) := by
  rw [decodeNumber, Wire.decodeVarint_encodeVarint small]

theorem decodeOptional_encode {value : Option Nat} (small : ∀ number ∈ value, number < 2 ^ 64) :
    decodeOptional value.isSome context (value.elim [] Wire.encodeVarint ++ rest) =
      .ok (value, rest) := by
  cases value with
  | none => rfl
  | some number =>
      simp only [decodeOptional, Option.isSome_some, if_true, Option.elim_some,
        decodeNumber_encode (small number rfl), Except.map]

theorem decodeHash_encode (hash : Hash) :
    decodeHash context (hash.bytes ++ rest) = .ok (hash, rest) := by
  have length := hash.length
  have enough : 32 ≤ (hash.bytes ++ rest).length := by
    rw [List.length_append]
    omega
  have first : (hash.bytes ++ rest).take 32 = hash.bytes := List.take_left' length
  have second : (hash.bytes ++ rest).drop 32 = rest := List.drop_left' length
  rw [decodeHash, dif_pos enough]
  simp only [first, second]

end records

namespace InflationRewardBaseValue

/-- The numbers of the record have 64 bits. -/
structure Valid (value : InflationRewardBaseValue) : Prop where
  slot : value.slot < 2 ^ 64
  blockHeight : ∀ number ∈ value.blockHeight, number < 2 ^ 64
  numRewardPartitions : ∀ number ∈ value.numRewardPartitions, number < 2 ^ 64
  partitions : (Bits.pack value.partitions).length < 2 ^ 64

variable {value : InflationRewardBaseValue}

/-- A record comes back with its bits in whole bytes. -/
theorem decode_encode (valid : value.Valid) : decode value.encode =
    .ok { value with partitions := Bits.unpack (Bits.pack value.partitions) } := by
  have height : decide (0 < value.flags &&& 1) = value.blockHeight.isSome := by
    rw [flags]
    cases value.blockHeight.isSome <;> cases value.numRewardPartitions.isSome <;> decide
  have count : decide (0 < value.flags &&& 2) = value.numRewardPartitions.isSome := by
    rw [flags]
    cases value.blockHeight.isSome <;> cases value.numRewardPartitions.isSome <;> decide
  simp only [encode, decode, height, count, decodeNumber_encode valid.slot,
    decodeOptional_encode valid.blockHeight, decodeHash_encode,
    decodeOptional_encode valid.numRewardPartitions, decodeNumber_encode valid.partitions, bind,
    Except.bind, le_refl, if_true, List.take_length]

end InflationRewardBaseValue

namespace RpcInflationReward

/-- The numbers of a reward have 64 bits, and the basis points come with a commission. -/
structure Valid (reward : RpcInflationReward) : Prop where
  epoch : reward.epoch < 2 ^ 64
  effectiveSlot : reward.effectiveSlot < 2 ^ 64
  amount : reward.amount < 2 ^ 64
  postBalance : reward.postBalance < 2 ^ 64
  commission : reward.commissionBps.isSome = true → reward.commission.isSome = true

/-- A reward comes back from its record. -/
theorem decode_encode {reward : RpcInflationReward} (valid : reward.Valid) :
    decode reward.encode = .ok reward := by
  simp only [encode, decode, decodeNumber_encode valid.epoch, decodeNumber_encode valid.effectiveSlot,
    decodeNumber_encode valid.amount, decodeNumber_encode valid.postBalance, bind, Except.bind]
  have alongside := valid.commission
  obtain ⟨epoch, effectiveSlot, amount, postBalance, commission, commissionBps⟩ := reward
  cases commission with
  | none =>
      cases commissionBps with
      | none => rfl
      | some commissionBps => exact absurd (alongside rfl) (by simp)
  | some commission =>
      cases commissionBps with
      | none => rfl
      | some commissionBps =>
          have bound := commissionBps.toNat_lt
          have low : (UInt8.ofNat (commissionBps.toNat % 256)).toNat = commissionBps.toNat % 256 := by
            rw [UInt8.toNat_ofNat']
            omega
          have high : (UInt8.ofNat (commissionBps.toNat / 256)).toNat = commissionBps.toNat / 256 := by
            rw [UInt8.toNat_ofNat']
            omega
          have same : commissionBps.toNat % 256 + 256 * (commissionBps.toNat / 256) =
              commissionBps.toNat := by omega
          simp only [decodeCommission, low, high, same, UInt16.ofNat_toNat]

end RpcInflationReward

namespace RewardMap

variable {map : RewardMap} {address : Pubkey} {reward : RpcInflationReward}

/-- The lookup finds the only entry of an address. -/
theorem get_eq_some_iff : map.get address = some reward ↔ (address, reward) ∈ map.entries := by
  obtain ⟨entries, distinct⟩ := map
  simp only [get]
  induction entries with
  | nil => simp
  | cons entry rest ih =>
      obtain ⟨other, value⟩ := entry
      simp only [List.map_cons, List.nodup_cons] at distinct
      rw [List.lookup_cons, List.mem_cons]
      by_cases same : address = other
      · subst same
        have absent : (address, reward) ∉ rest := fun member =>
          distinct.1 (List.mem_map.mpr ⟨_, member, rfl⟩)
        simp [absent, eq_comm]
      · have differs : (address == other) = false := by simpa using same
        simp only [differs, Prod.mk.injEq, same, false_and, false_or]
        exact ih distinct.2

/-- A search from the end finds the same entry. -/
theorem find?_reverse {epoch : Nat} : (map.entries.reverse.find? fun entry =>
    InflationRewardKey.reward epoch entry.1 = .reward epoch address) =
      (map.get address).map fun reward => (address, reward) := by
  cases known : map.get address with
  | none =>
      rw [Option.map_none, List.find?_eq_none]
      intro entry member same
      have key : entry.1 = address := by simpa using same
      have found : map.get address = some entry.2 := by
        rw [get_eq_some_iff, ← key]
        exact List.mem_reverse.mp member
      rw [known] at found
      cases found
  | some reward =>
      cases found : map.entries.reverse.find? fun entry =>
          InflationRewardKey.reward epoch entry.1 = .reward epoch address with
      | none =>
          have all := List.find?_eq_none.mp found (address, reward)
            (List.mem_reverse.mpr (get_eq_some_iff.mp known))
          simp at all
      | some entry =>
          have key : entry.1 = address := by simpa using List.find?_some found
          have other : map.get address = some entry.2 := by
            rw [get_eq_some_iff, ← key]
            exact List.mem_reverse.mp (List.mem_of_find?_eq_some found)
          rw [known] at other
          rw [Option.map_some, Option.some.inj other, ← key]

end RewardMap

namespace InflationRewardIndex

variable {db : InflationRewardIndex} {epoch : Nat} {base : InflationRewardBaseValue} {map : RewardMap}

/-- The batch stores the base record. -/
theorem get_spawnPushReward_base :
    (db.spawnPushReward epoch base map).get (.base epoch) = some base.encode := by
  rw [spawnPushReward, HashMap.get_foldl_insert map.entries
    (fun entry => InflationRewardKey.reward epoch entry.1) fun entry => entry.2.encode]
  have none : (map.entries.reverse.find? fun entry =>
      InflationRewardKey.reward epoch entry.1 = .base epoch) = none := by simp
  rw [none, Option.map_none, Option.none_or, HashMap.get_insert_self]

/-- The batch stores the rewards of the map over the older ones. -/
theorem get_spawnPushReward_reward (address : Pubkey) :
    (db.spawnPushReward epoch base map).get (.reward epoch address) =
      ((map.get address).map RpcInflationReward.encode).or (db.get (.reward epoch address)) := by
  rw [spawnPushReward, HashMap.get_foldl_insert map.entries
    (fun entry => InflationRewardKey.reward epoch entry.1) fun entry => entry.2.encode,
    RewardMap.find?_reverse, HashMap.get_insert, if_neg (by simp), Option.map_map]
  rfl

end InflationRewardIndex

/-- The boundary block of an epoch and the blocks of the partitions fix the rewards; the hasher
assigns each rewarded address to its partition. -/
structure EpochRewards (hasher : EpochRewardsHasher) where
  epoch : Nat
  slot : Nat
  blockHeight : Option Nat
  previousBlockhash : Hash
  numRewardPartitions : Option Nat
  base : RewardMap
  partition : Nat → RewardMap
  valid : (InflationRewardBaseValue.new slot blockHeight previousBlockhash numRewardPartitions).Valid
  baseValid : ∀ entry ∈ base.entries, entry.2.Valid
  partitionValid : ∀ index, ∀ entry ∈ (partition index).entries, entry.2.Valid
  assigned : ∀ count ∈ numRewardPartitions, ∀ index < count,
    ∀ entry ∈ (partition index).entries, hasher count previousBlockhash entry.1 = index

/-- A call of `getInflationReward` issues such pushes. -/
inductive RewardPush where
  | base
  | partition (index : Nat)
  deriving DecidableEq

namespace EpochRewards

variable {hasher : EpochRewardsHasher}

/-- The base record of the epoch without a stored partition. -/
def record (self : EpochRewards hasher) : InflationRewardBaseValue :=
  .new self.slot self.blockHeight self.previousBlockhash self.numRewardPartitions

def request (self : EpochRewards hasher) : RewardPush → InflationRewardRequest
  | .base => .inflationRewardBase self.epoch self.slot self.blockHeight self.previousBlockhash
      self.numRewardPartitions self.base
  | .partition index => .inflationRewardPartition self.epoch index (self.partition index)

/-- The epoch has the partition of the push. -/
def Permits (self : EpochRewards hasher) : RewardPush → Prop
  | .base => True
  | .partition index => ∃ count ∈ self.numRewardPartitions, index < count

/-- The writer takes the pushes one after another. -/
def run (self : EpochRewards hasher) (db : InflationRewardIndex) (pushes : List RewardPush) :
    Option InflationRewardIndex :=
  pushes.foldlM (fun db push => db.write (self.request push)) db

/-- The address has this reward in the boundary block or in a partition. -/
def Has (self : EpochRewards hasher) (address : Pubkey) (reward : RpcInflationReward) : Prop :=
  self.base.get address = some reward ∨ ∃ count ∈ self.numRewardPartitions, ∃ index < count,
    (self.partition index).get address = some reward

/-- The answer is a reward of the address, or the address has none. -/
def Answers (self : EpochRewards hasher) (address : Pubkey) : Option RpcInflationReward → Prop
  | some reward => self.Has address reward
  | none => ∀ reward, ¬ self.Has address reward

/-- The record has the fields of the boundary block and a bit for each partition. -/
structure Records (rewards : EpochRewards hasher) (value : InflationRewardBaseValue) : Prop where
  fields : { value with partitions := [] } = { rewards.record with partitions := [] }
  length : value.partitions.length = 8 * ((rewards.numRewardPartitions.getD 0 + 7) / 8)

/-- What the base record says about the stored rewards is true. -/
structure Caches (rewards : EpochRewards hasher) (db : InflationRewardIndex) : Prop where
  base : ∀ slice, db.get (.base rewards.epoch) = some slice →
    ∃ value, InflationRewardBaseValue.decode slice = .ok value ∧ rewards.Records value ∧
      (∀ address, rewards.base.get address ≠ none → db.get (.reward rewards.epoch address) ≠ none) ∧
      ∀ index, value.partitions[index]? = some true → ∀ address,
        (rewards.partition index).get address ≠ none → db.get (.reward rewards.epoch address) ≠ none
  stored : ∀ address slice, db.get (.reward rewards.epoch address) = some slice →
    ∃ reward, RpcInflationReward.decode slice = .ok reward ∧ rewards.Has address reward

/-- No reward of the epoch is lost. -/
def Grows (self : EpochRewards hasher) (before after : InflationRewardIndex) : Prop :=
  ∀ address, before.get (.reward self.epoch address) ≠ none →
    after.get (.reward self.epoch address) ≠ none

variable {self : EpochRewards hasher} {db after : InflationRewardIndex}

theorem Grows.refl : self.Grows db db := fun _ known => known

theorem Grows.trans {last : InflationRewardIndex} (first : self.Grows db after)
    (second : self.Grows after last) : self.Grows db last :=
  fun address known => second address (first address known)

/-- A batch with a map of the epoch loses no reward and stores those of the map. -/
theorem grows_spawnPushReward (base : InflationRewardBaseValue) (map : RewardMap) :
    self.Grows db (db.spawnPushReward self.epoch base map) ∧
      ∀ address, map.get address ≠ none →
        (db.spawnPushReward self.epoch base map).get (.reward self.epoch address) ≠ none := by
  constructor <;> intro address known <;>
    rw [InflationRewardIndex.get_spawnPushReward_reward]
  · cases map.get address <;> simp [known]
  · cases found : map.get address with
    | none => exact absurd found known
    | some reward => simp

/-- A batch with valid rewards of the epoch stores only rewards of the epoch. -/
theorem Caches.stored_spawnPushReward (caches : self.Caches db) {base : InflationRewardBaseValue}
    {map : RewardMap} (valid : ∀ entry ∈ map.entries, entry.2.Valid)
    (has : ∀ address reward, map.get address = some reward → self.Has address reward)
    (address : Pubkey) (slice : Bytes)
    (known : (db.spawnPushReward self.epoch base map).get (.reward self.epoch address) = some slice) :
    ∃ reward, RpcInflationReward.decode slice = .ok reward ∧ self.Has address reward := by
  rw [InflationRewardIndex.get_spawnPushReward_reward] at known
  cases found : map.get address with
  | none =>
      rw [found] at known
      exact caches.stored address slice known
  | some reward =>
      rw [found] at known
      cases known
      have member := RewardMap.get_eq_some_iff.mp found
      exact ⟨reward, RpcInflationReward.decode_encode (valid _ member), has address reward found⟩

/-- A push of the base record resets the bits. -/
theorem Caches.pushBase (caches : self.Caches db) :
    self.Caches (db.spawnPushReward self.epoch self.record self.base) := by
  refine ⟨fun slice known => ?_, caches.stored_spawnPushReward self.baseValid
    fun _ _ found => Or.inl found⟩
  rw [InflationRewardIndex.get_spawnPushReward_base] at known
  cases known
  have length : self.record.partitions.length = self.numRewardPartitions.getD 0 :=
    List.length_replicate
  refine ⟨_, InflationRewardBaseValue.decode_encode self.valid, ⟨rfl, ?_⟩,
    (grows_spawnPushReward self.record self.base).2, ?_⟩
  · show (Bits.unpack (Bits.pack self.record.partitions)).length = _
    rw [Bits.length_unpack, Bits.length_pack, length]
  · intro index bit
    have fresh := Bits.getElem?_unpack_pack_eq_true.mp bit
    rw [record, InflationRewardBaseValue.new, List.getElem?_replicate] at fresh
    split at fresh <;> cases fresh

/-- The fields of a record of the epoch have 64 bits. -/
theorem Records.valid {value : InflationRewardBaseValue} (records : self.Records value) :
    value.Valid := by
  have fields := records.fields
  have length := records.length
  simp only [InflationRewardBaseValue.mk.injEq] at fields
  obtain ⟨slot, blockHeight, -, count, -⟩ := fields
  have valid := self.valid
  refine ⟨?_, ?_, ?_, ?_⟩
  · rw [slot]
    exact valid.slot
  · rw [blockHeight]
    exact valid.blockHeight
  · rw [count]
    exact valid.numRewardPartitions
  · have bound := valid.partitions
    rw [Bits.length_pack, InflationRewardBaseValue.new, List.length_replicate] at bound
    rw [Bits.length_pack, length]
    omega

/-- The partition stores its rewards together with its bit. -/
theorem Caches.pushPartition (caches : self.Caches db) {index count : Nat}
    (isCount : count ∈ self.numRewardPartitions) (inside : index < count)
    {slice : Bytes} (known : db.get (.base self.epoch) = some slice) :
    ∃ after, db.spawnPushPartitionReward self.epoch index (self.partition index) = .ok after ∧
      self.Caches after ∧ self.Grows db after := by
  obtain ⟨value, decoded, records, base, partitions⟩ := caches.base slice known
  rw [Option.mem_def] at isCount
  have room : index < value.partitions.length := by
    rw [records.length, isCount, Option.getD_some]
    omega
  let marked : InflationRewardBaseValue := { value with partitions := value.partitions.set index true }
  have written : db.spawnPushPartitionReward self.epoch index (self.partition index) =
      .ok (db.spawnPushReward self.epoch marked (self.partition index)) := by
    simp only [InflationRewardIndex.spawnPushPartitionReward, known, decoded,
      InflationRewardIndex.setPartition]
    rw [if_neg (by omega), if_pos (by omega)]
    rfl
  have grows : self.Grows db (db.spawnPushReward self.epoch marked (self.partition index)) ∧
      ∀ address, (self.partition index).get address ≠ none →
        (db.spawnPushReward self.epoch marked (self.partition index)).get
          (.reward self.epoch address) ≠ none :=
    grows_spawnPushReward marked (self.partition index)
  refine ⟨_, written, ⟨?_, ?_⟩, grows.1⟩
  · intro slice stored
    rw [InflationRewardIndex.get_spawnPushReward_base] at stored
    cases stored
    have length : marked.partitions.length = value.partitions.length := List.length_set
    have kept : self.Records marked := ⟨records.fields, length.trans records.length⟩
    refine ⟨_, InflationRewardBaseValue.decode_encode kept.valid, ⟨records.fields, ?_⟩, ?_, ?_⟩
    · show (Bits.unpack (Bits.pack marked.partitions)).length = _
      rw [Bits.length_unpack, Bits.length_pack, kept.length]
      omega
    · exact fun address rewarded => grows.1 address (base address rewarded)
    · intro other bit address rewarded
      have before := Bits.getElem?_unpack_pack_eq_true.mp bit
      rw [List.getElem?_set] at before
      split at before
      · rename_i same
        subst same
        exact grows.2 address rewarded
      · exact grows.1 address (partitions other before address rewarded)
  · refine caches.stored_spawnPushReward (self.partitionValid index) fun address reward found => ?_
    exact Or.inr ⟨count, isCount, index, inside, found⟩

/-- A push of the epoch never ends the writer. -/
theorem Caches.write (caches : self.Caches db) {push : RewardPush} (permits : self.Permits push) :
    ∃ after, db.write (self.request push) = some after ∧ self.Caches after ∧ self.Grows db after := by
  cases push with
  | base => exact ⟨_, rfl, caches.pushBase, (grows_spawnPushReward self.record self.base).1⟩
  | partition index =>
      obtain ⟨count, isCount, inside⟩ := permits
      cases known : db.get (.base self.epoch) with
      | none =>
          refine ⟨db, ?_, caches, Grows.refl⟩
          simp only [request, InflationRewardIndex.write,
            InflationRewardIndex.spawnPushPartitionReward, known]
      | some slice =>
          obtain ⟨after, written, kept⟩ := caches.pushPartition isCount inside known
          refine ⟨after, ?_, kept⟩
          simp only [request, InflationRewardIndex.write, written]

/-- The writer survives every run of pushes and loses no reward. -/
theorem Caches.run (caches : self.Caches db) {pushes : List RewardPush}
    (permits : ∀ push ∈ pushes, self.Permits push) :
    ∃ after, self.run db pushes = some after ∧ self.Caches after ∧ self.Grows db after := by
  induction pushes generalizing db with
  | nil => exact ⟨db, rfl, caches, Grows.refl⟩
  | cons push pushes ih =>
      obtain ⟨middle, written, kept, grows⟩ := caches.write (permits push List.mem_cons_self)
      obtain ⟨after, ran, last, later⟩ := ih kept fun push member =>
        permits push (List.mem_cons_of_mem _ member)
      refine ⟨after, ?_, last, grows.trans later⟩
      rw [EpochRewards.run, List.foldlM_cons, written]
      exact ran

/-- The pushes of a run come one after another. -/
theorem run_append (self : EpochRewards hasher) (db : InflationRewardIndex)
    (first second : List RewardPush) :
    self.run db (first ++ second) = (self.run db first).bind fun db => self.run db second :=
  List.foldlM_append

/-- An excluded address has no reward. -/
theorem Caches.excluded (caches : self.Caches db) {slice : Bytes} {value : InflationRewardBaseValue}
    {address : Pubkey} (known : db.get (.base self.epoch) = some slice)
    (decoded : InflationRewardBaseValue.decode slice = .ok value)
    (missing : db.get (.reward self.epoch address) = none)
    (excludes : value.excludes hasher address = true) : self.Answers address none := by
  obtain ⟨found, same, records, base, partitions⟩ := caches.base slice known
  obtain rfl := Except.ok.inj (decoded.symm.trans same)
  have fields := records.fields
  simp only [InflationRewardBaseValue.mk.injEq] at fields
  obtain ⟨-, -, hash, count, -⟩ := fields
  intro reward has
  cases has with
  | inl rewarded => exact base address (by rw [rewarded]; simp) missing
  | inr rewarded =>
      obtain ⟨number, isCount, index, inside, rewarded⟩ := rewarded
      have assigned := self.assigned number isCount index inside _
        (RewardMap.get_eq_some_iff.mp rewarded)
      have numbered : value.numRewardPartitions = some number := count.trans isCount
      have hashed : value.previousBlockhash = self.previousBlockhash := hash
      rw [InflationRewardBaseValue.excludes, numbered] at excludes
      simp only [hashed, assigned, Bool.and_eq_true, decide_eq_true_eq] at excludes
      exact partitions index excludes.2 address (by rw [rewarded]; simp) missing

end EpochRewards

section reading

variable {hasher : EpochRewardsHasher} {rewards : EpochRewards hasher}
  {states : Nat → InflationRewardIndex} {addresses : List Pubkey} {read : InflationRewardRead}

/-- Each address that is not missed has its answer, and a missed one has none. -/
structure ServesAll (rewards : EpochRewards hasher) (addresses : List Pubkey)
    (answers : List (Option RpcInflationReward)) (missed : List Nat) : Prop where
  length : answers.length = addresses.length
  served : ∀ index address, addresses[index]? = some address → index ∉ missed →
    ∃ found, answers[index]? = some found ∧ rewards.Answers address found
  missed : ∀ index ∈ missed, answers[index]? = some none

/-- The base record was read before now, or each address so far had its reward. -/
structure Fetched (rewards : EpochRewards hasher) (states : Nat → InflationRewardIndex)
    (addresses : List Pubkey) (read : InflationRewardRead) : Prop where
  base : ∀ value ∈ read.base, ∃ moment < read.reads, ∃ slice,
    (states moment).get (.base rewards.epoch) = some slice ∧
      InflationRewardBaseValue.decode slice = .ok value
  unfetched : read.baseFetched = false → read.base = none ∧ read.reads = addresses.length ∧
    ∀ index address, addresses[index]? = some address →
      (states index).get (.reward rewards.epoch address) ≠ none

/-- No push comes between the read of the first missing address and that of the base record. -/
def ReadsTogether (states : Nat → InflationRewardIndex) (epoch : Nat) (addresses : List Pubkey) :
    Prop :=
  ∀ index address, addresses[index]? = some address →
    (states index).get (.reward epoch address) = none →
    (∀ earlier < index, ∀ other, addresses[earlier]? = some other →
      (states earlier).get (.reward epoch other) ≠ none) →
    states (index + 1) = states index

variable {answers : List (Option RpcInflationReward)} {missed : List Nat} {address : Pubkey}

/-- An index behind an appended list is an old one or the last one. -/
theorem getElem?_concat_eq_some {A : Type} {list : List A} {last value : A} {index : Nat}
    (known : (list ++ [last])[index]? = some value) :
    (index < list.length ∧ list[index]? = some value) ∨ (index = list.length ∧ last = value) := by
  rw [List.getElem?_append] at known
  split at known
  · exact Or.inl ⟨‹_›, known⟩
  · obtain ⟨inside, same⟩ := List.getElem?_eq_some_iff.mp known
    have position : index = list.length := by
      rw [List.length_singleton] at inside
      omega
    subst position
    simp only [Nat.sub_self, List.getElem_cons_zero] at same
    exact Or.inr ⟨rfl, same⟩

/-- The answer to the next address goes behind the others. -/
theorem ServesAll.answer (serves : ServesAll rewards addresses answers missed)
    {found : Option RpcInflationReward} (answer : rewards.Answers address found) :
    ServesAll rewards (addresses ++ [address]) (answers ++ [found]) missed := by
  refine ⟨by simp [serves.length], fun index other known unmissed => ?_, fun index member => ?_⟩
  · rcases getElem?_concat_eq_some known with ⟨inside, old⟩ | ⟨rfl, rfl⟩
    · rw [List.getElem?_append_left (serves.length ▸ inside)]
      exact serves.served index other old unmissed
    · exact ⟨found, by rw [← serves.length, List.getElem?_concat_length], answer⟩
  · have old := serves.missed index member
    rwa [List.getElem?_append_left (List.getElem?_eq_some_iff.mp old).1]

/-- The next address is missed. -/
theorem ServesAll.miss (serves : ServesAll rewards addresses answers missed) :
    ServesAll rewards (addresses ++ [address]) (answers ++ [none]) (missed ++ [answers.length]) := by
  refine ⟨by simp [serves.length], fun index other known unmissed => ?_, fun index member => ?_⟩
  · simp only [List.mem_append, List.mem_singleton, not_or] at unmissed
    rcases getElem?_concat_eq_some known with ⟨inside, old⟩ | ⟨position, -⟩
    · rw [List.getElem?_append_left (serves.length ▸ inside)]
      exact serves.served index other old unmissed.1
    · exact absurd (position.trans serves.length.symm) unmissed.2
  · rcases List.mem_append.mp member with old | last
    · have known := serves.missed index old
      rwa [List.getElem?_append_left (List.getElem?_eq_some_iff.mp known).1]
    · rw [List.mem_singleton.mp last, List.getElem?_concat_length]

/-- The base record that a missing address meets was read while its reward was missing. -/
theorem fetchBase_spec (caches : ∀ moment, rewards.Caches (states moment))
    (grows : ∀ {first second : Nat}, first ≤ second → rewards.Grows (states first) (states second))
    (fetched : Fetched rewards states addresses read)
    (missing : (states read.reads).get (.reward rewards.epoch address) = none)
    (together : read.baseFetched = false → states (read.reads + 1) = states read.reads) :
    ∃ after, InflationRewardRead.fetchBase states rewards.epoch { read with reads := read.reads + 1 } =
        .ok after ∧ after.rewards = read.rewards ∧ after.missed = read.missed ∧
      after.baseFetched = true ∧ ∀ value ∈ after.base, ∃ moment < after.reads, ∃ slice,
        (states moment).get (.base rewards.epoch) = some slice ∧
          InflationRewardBaseValue.decode slice = .ok value ∧
          (states moment).get (.reward rewards.epoch address) = none := by
  cases isFetched : read.baseFetched with
  | true =>
      refine ⟨{ read with reads := read.reads + 1 }, ?_, rfl, rfl, isFetched, fun value isBase => ?_⟩
      · simp [InflationRewardRead.fetchBase, isFetched]
      · obtain ⟨moment, before, slice, stored, decoded⟩ := fetched.base value isBase
        refine ⟨moment, Nat.lt_succ_of_lt before, slice, stored, decoded, ?_⟩
        exact by_contra fun known => grows before.le address known missing
  | false =>
      obtain ⟨noBase, -, -⟩ := fetched.unfetched isFetched
      simp only [InflationRewardRead.fetchBase, noBase, Option.isNone_none, Bool.not_false,
        Bool.and_self, if_true]
      rw [together isFetched]
      cases stored : (states read.reads).get (.base rewards.epoch) with
      | none => exact ⟨_, rfl, rfl, rfl, rfl, fun value isBase => (by cases isBase)⟩
      | some slice =>
          obtain ⟨value, decoded, -⟩ := (caches read.reads).base slice stored
          simp only [decoded]
          refine ⟨_, rfl, rfl, rfl, rfl, fun found isBase => ?_⟩
          cases isBase
          exact ⟨read.reads, by dsimp only; omega, slice, stored, decoded, missing⟩

/-- One address is served or missed. -/
theorem readAddress_spec (caches : ∀ moment, rewards.Caches (states moment))
    (grows : ∀ {first second : Nat}, first ≤ second → rewards.Grows (states first) (states second))
    (serves : ServesAll rewards addresses read.rewards read.missed)
    (fetched : Fetched rewards states addresses read)
    (together : read.baseFetched = false →
      (states read.reads).get (.reward rewards.epoch address) = none →
        states (read.reads + 1) = states read.reads) :
    ∃ after, read.readAddress states hasher rewards.epoch address = .ok after ∧
      ServesAll rewards (addresses ++ [address]) after.rewards after.missed ∧
      Fetched rewards states (addresses ++ [address]) after := by
  unfold InflationRewardRead.readAddress
  cases known : (states read.reads).get (.reward rewards.epoch address) with
  | some slice =>
      obtain ⟨reward, decoded, has⟩ := (caches read.reads).stored address slice known
      simp only [decoded]
      refine ⟨_, rfl, serves.answer has, ?_, fun isFetched => ?_⟩
      · intro value isBase
        obtain ⟨moment, before, found⟩ := fetched.base value isBase
        exact ⟨moment, Nat.lt_succ_of_lt before, found⟩
      · obtain ⟨noBase, reads, stored⟩ := fetched.unfetched isFetched
        refine ⟨noBase, by simp [reads], fun index other here => ?_⟩
        rcases getElem?_concat_eq_some here with ⟨-, old⟩ | ⟨rfl, rfl⟩
        · exact stored index other old
        · rw [← reads, known]
          exact Option.some_ne_none slice
  | none =>
      obtain ⟨after, fetches, sameRewards, sameMissed, done, base⟩ :=
        fetchBase_spec caches grows fetched known fun isFetched => together isFetched known
      simp only [InflationRewardRead.readMissing, fetches]
      have later : ∀ {next : InflationRewardRead}, next.base = after.base → next.reads = after.reads →
          next.baseFetched = after.baseFetched →
          Fetched rewards states (addresses ++ [address]) next := by
        intro next sameBase sameReads sameFetched
        refine ⟨fun value isBase => ?_, fun isFetched => ?_⟩
        · rw [sameBase] at isBase
          obtain ⟨moment, before, slice, stored, decoded, -⟩ := base value isBase
          exact ⟨moment, sameReads ▸ before, slice, stored, decoded⟩
        · rw [sameFetched, done] at isFetched
          cases isFetched
      rw [← sameRewards, ← sameMissed] at serves
      cases isExcluded : after.base.any fun base => base.excludes hasher address with
      | false =>
          simp only [Except.map, isExcluded]
          exact ⟨_, rfl, serves.miss, later rfl rfl rfl⟩
      | true =>
          simp only [Except.map, isExcluded, if_true]
          refine ⟨_, rfl, serves.answer ?_, later rfl rfl rfl⟩
          cases isBase : after.base with
          | none =>
              rw [isBase] at isExcluded
              cases isExcluded
          | some value =>
              rw [isBase] at isExcluded
              obtain ⟨moment, -, slice, stored, decoded, missing⟩ := base value isBase
              exact (caches moment).excluded stored decoded missing isExcluded

/-- All addresses are served or missed. -/
theorem foldlM_readAddress (caches : ∀ moment, rewards.Caches (states moment))
    (grows : ∀ {first second : Nat}, first ≤ second → rewards.Grows (states first) (states second))
    (all : List Pubkey) (together : ReadsTogether states rewards.epoch all) (rest : List Pubkey)
    (split : all = addresses ++ rest)
    (serves : ServesAll rewards addresses read.rewards read.missed)
    (fetched : Fetched rewards states addresses read) :
    ∃ after, rest.foldlM (InflationRewardRead.readAddress states hasher rewards.epoch) read =
        .ok after ∧ ServesAll rewards all after.rewards after.missed := by
  induction rest generalizing addresses read with
  | nil =>
      rw [List.append_nil] at split
      subst split
      exact ⟨read, rfl, serves⟩
  | cons address rest ih =>
      have position : all[addresses.length]? = some address := by
        rw [split, List.getElem?_append_right le_rfl]
        simp
      obtain ⟨middle, reads, served, kept⟩ := readAddress_spec caches grows serves fetched
        fun isFetched missing => by
          obtain ⟨-, count, stored⟩ := fetched.unfetched isFetched
          rw [count] at missing ⊢
          refine together addresses.length address position missing ?_
          intro earlier before other known
          rw [split, List.getElem?_append_left before] at known
          exact stored earlier other known
      obtain ⟨after, ran, final⟩ := ih (by simp [split]) served kept
      refine ⟨after, ?_, final⟩
      rw [List.foldlM_cons, reads]
      exact ran

end reading

/-- Whatever the calls of an epoch have pushed, a reader whose read of the first missing address and
of the base record see one state serves each address that it does not miss: with a reward that the
address has in the boundary block or in its partition, and with none only if it has none. -/
theorem run_servesRewards (hasher : EpochRewardsHasher) (rewards : EpochRewards hasher)
    (start : InflationRewardIndex) (fresh : start.get (.base rewards.epoch) = none ∧
      ∀ address, start.get (.reward rewards.epoch address) = none)
    (pushes : List RewardPush) (permits : ∀ push ∈ pushes, rewards.Permits push)
    (moments : Nat → Nat) (ordered : Monotone moments) (states : Nat → InflationRewardIndex)
    (reached : ∀ read, rewards.run start (pushes.take (moments read)) = some (states read))
    (addresses : List Pubkey) (together : ReadsTogether states rewards.epoch addresses) :
    ∃ result, spawnInflationReward states hasher rewards.epoch addresses = .ok result ∧
      result.addresses = addresses ∧ ServesAll rewards addresses result.rewards result.missed := by
  have first : rewards.Caches start := by
    refine ⟨fun slice known => ?_, fun address slice known => ?_⟩
    · rw [fresh.1] at known
      cases known
    · rw [fresh.2] at known
      cases known
  have prefixes (read : Nat) : ∀ push ∈ pushes.take (moments read), rewards.Permits push :=
    fun push member => permits push (List.mem_of_mem_take member)
  have caches (read : Nat) : rewards.Caches (states read) := by
    obtain ⟨after, ran, kept, -⟩ := first.run (prefixes read)
    rw [reached] at ran
    exact Option.some.inj ran ▸ kept
  have grows {earlier later : Nat} (before : earlier ≤ later) :
      rewards.Grows (states earlier) (states later) := by
    have split : pushes.take (moments later) = pushes.take (moments earlier) ++
        (pushes.take (moments later)).drop (moments earlier) := by
      conv_lhs => rw [← List.take_append_drop (moments earlier) (pushes.take (moments later)),
        List.take_take, Nat.min_eq_left (ordered before)]
    obtain ⟨after, ran, -, kept⟩ := (caches earlier).run
      fun push member => prefixes later push (List.mem_of_mem_drop member)
    have whole := reached later
    rw [split, rewards.run_append, reached earlier, Option.bind_some, ran] at whole
    exact Option.some.inj whole ▸ kept
  have begun : ServesAll rewards [] [] [] :=
    ⟨rfl, fun index address known => (by simp at known), fun index member => (by cases member)⟩
  have unread : Fetched rewards states [] ⟨[], [], none, false, 0⟩ :=
    ⟨fun value isBase => (by cases isBase),
      fun _ => ⟨rfl, rfl, fun index address known => (by simp at known)⟩⟩
  obtain ⟨after, ran, serves⟩ :=
    foldlM_readAddress caches grows addresses together addresses rfl begun unread
  refine ⟨⟨addresses, after.rewards, after.missed, after.base⟩, ?_, rfl, serves⟩
  rw [spawnInflationReward, ran]
  rfl

/-- A reward of so many lamports. -/
def rewardOf (amount : Nat) : RpcInflationReward := ⟨3, 100, amount, 1000, none, none⟩

theorem rewardOf_valid {amount : Nat} (small : amount < 2 ^ 64) : (rewardOf amount).Valid :=
  ⟨by simp [rewardOf], by simp [rewardOf], small, by simp [rewardOf], by simp [rewardOf]⟩

/-- With one partition every address belongs to it. -/
def onePartition : EpochRewardsHasher := fun _ _ _ => 0

/-- This map has one entry. -/
def singleReward (address : Pubkey) (reward : RpcInflationReward) : RewardMap :=
  ⟨[(address, reward)], List.pairwise_singleton _ _⟩

theorem singleReward_valid {address : Pubkey} {reward : RpcInflationReward} (valid : reward.Valid) :
    ∀ entry ∈ (singleReward address reward).entries, entry.2.Valid := by
  intro entry member
  rw [List.mem_singleton.mp member]
  exact valid

def boundaryHash : Hash := ⟨List.replicate 32 7, List.length_replicate⟩

theorem boundaryRecord_valid :
    (InflationRewardBaseValue.new 100 (some 90) boundaryHash (some 1)).Valid := by
  refine ⟨?_, ?_, ?_, ?_⟩ <;> simp [InflationRewardBaseValue.new]

theorem onePartition_assigned {hash : Hash} {map : RewardMap} : ∀ count ∈ some 1, ∀ index < count,
    ∀ entry ∈ map.entries, onePartition count hash entry.1 = index := by
  intro count isCount index inside entry _
  cases isCount
  rw [onePartition]
  omega

/-- The boundary block rewards the first address, and the only partition rewards another one. -/
def boundaryRewards (second : Nat) : EpochRewards onePartition where
  epoch := 3
  slot := 100
  blockHeight := some 90
  previousBlockhash := boundaryHash
  numRewardPartitions := some 1
  base := singleReward ⟨1⟩ (rewardOf 10)
  partition := fun _ => singleReward ⟨second⟩ (rewardOf 20)
  valid := boundaryRecord_valid
  baseValid := singleReward_valid (rewardOf_valid (Nat.lt_of_sub_eq_succ rfl))
  partitionValid := fun _ => singleReward_valid (rewardOf_valid (Nat.lt_of_sub_eq_succ rfl))
  assigned := onePartition_assigned

/-- The database after the pushes. -/
def afterPushes (second : Nat) (pushes : List RewardPush) : InflationRewardIndex :=
  ((boundaryRewards second).run HashMap.empty pushes).getD HashMap.empty

/-- The third address has no reward. -/
theorem run_servesRewards_third :
    spawnInflationReward (fun _ => afterPushes 2 [.base, .partition 0]) onePartition 3
        [⟨1⟩, ⟨2⟩, ⟨3⟩] = .ok ⟨[⟨1⟩, ⟨2⟩, ⟨3⟩], [some (rewardOf 10), some (rewardOf 20), none], [],
          some { (boundaryRewards 2).record with
            partitions := [true, false, false, false, false, false, false, false] }⟩ ∧
      (boundaryRewards 2).Answers ⟨3⟩ none := by
  have served : spawnInflationReward (fun _ => afterPushes 2 [.base, .partition 0]) onePartition 3
      [⟨1⟩, ⟨2⟩, ⟨3⟩] = .ok ⟨[⟨1⟩, ⟨2⟩, ⟨3⟩], [some (rewardOf 10), some (rewardOf 20), none], [],
        some { (boundaryRewards 2).record with
          partitions := [true, false, false, false, false, false, false, false] }⟩ := by
    decide +kernel
  refine ⟨served, ?_⟩
  have ran : ∃ db, (boundaryRewards 2).run HashMap.empty [.base, .partition 0] = some db :=
    Option.isSome_iff_exists.mp (by decide +kernel)
  obtain ⟨result, answered, -, serves⟩ := run_servesRewards onePartition (boundaryRewards 2)
    HashMap.empty ⟨rfl, fun _ => rfl⟩ [.base, .partition 0]
    (by simp [EpochRewards.Permits, boundaryRewards]) (fun _ => 2) monotone_const
    (fun _ => afterPushes 2 [.base, .partition 0])
    (fun _ => by
      obtain ⟨db, known⟩ := ran
      rw [afterPushes, List.take_of_length_le (by simp), known, Option.getD_some])
    [⟨1⟩, ⟨2⟩, ⟨3⟩] (fun _ _ _ _ _ => rfl)
  obtain rfl := Except.ok.inj (served.symm.trans answered)
  obtain ⟨found, isFound, answers⟩ := serves.served 2 ⟨3⟩ rfl (by simp)
  cases isFound
  exact answers

/-- A partition overwrites the reward of the boundary block, and a partition that is pushed between
the two reads of a missing address hides its reward. -/
theorem servesRewards_false :
    ((boundaryRewards 1).base.get ⟨1⟩ = some (rewardOf 10) ∧
      (spawnInflationReward (fun _ => afterPushes 1 [.base, .partition 0]) onePartition 3
        [⟨1⟩]).map (fun result => (result.rewards, result.missed)) = .ok ([some (rewardOf 20)], [])) ∧
    ((boundaryRewards 2).Has ⟨2⟩ (rewardOf 20) ∧
      (spawnInflationReward (fun read => afterPushes 2 ([.base, .partition 0].take (read + 1)))
        onePartition 3 [⟨2⟩]).map (fun result => (result.rewards, result.missed)) =
          .ok ([none], [])) := by
  refine ⟨⟨by decide +kernel, by decide +kernel⟩, Or.inr ⟨1, rfl, 0, by decide, ?_⟩, by decide +kernel⟩
  decide +kernel

end Alpamayo
