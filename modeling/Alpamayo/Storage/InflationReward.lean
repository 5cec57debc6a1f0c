import Alpamayo.General.Bits
import Alpamayo.General.HashMap
import Alpamayo.General.Wire
import Alpamayo.Source.Block

/-!
This file models the cache of the inflation rewards.
-/

namespace Alpamayo

/-- A block hash has 32 bytes. -/
structure Hash where
  bytes : Bytes
  length : bytes.length = 32
  deriving DecidableEq

structure RpcInflationReward where
  epoch : Nat
  effectiveSlot : Nat
  amount : Nat
  postBalance : Nat
  commission : Option UInt8
  commissionBps : Option UInt16
  deriving DecidableEq

/-- An address has at most one reward; the rewards are listed in the iteration order of the map. -/
structure RewardMap where
  entries : List (Pubkey × RpcInflationReward)
  distinct : (entries.map Prod.fst).Nodup

def RewardMap.get (self : RewardMap) (address : Pubkey) : Option RpcInflationReward :=
  self.entries.lookup address

/-- The key of an epoch has 8 bytes, and the key of an address in it has 40. -/
inductive InflationRewardKey where
  | base (epoch : Nat)
  | reward (epoch : Nat) (pubkey : Pubkey)
  deriving DecidableEq

abbrev InflationRewardIndex := HashMap InflationRewardKey Bytes

/-- The base record marks the partitions whose rewards are stored. -/
structure InflationRewardBaseValue where
  slot : Nat
  blockHeight : Option Nat
  previousBlockhash : Hash
  numRewardPartitions : Option Nat
  partitions : List Bool
  deriving DecidableEq

/-- A number of a record is read with the error for its place. -/
def decodeNumber (context : String) (slice : Bytes) : Except String (Nat × Bytes) :=
  match Wire.decodeVarint slice with
  | some decoded => .ok decoded
  | none => .error context

/-- A flag tells if the number is there. -/
def decodeOptional (present : Bool) (context : String) (slice : Bytes) :
    Except String (Option Nat × Bytes) :=
  if present then (decodeNumber context slice).map fun decoded => (some decoded.1, decoded.2)
  else .ok (none, slice)

/-- The hash takes the next 32 bytes. -/
def decodeHash (context : String) (slice : Bytes) : Except String (Hash × Bytes) :=
  if enough : 32 ≤ slice.length then
    .ok (⟨slice.take 32, List.length_take_of_le enough⟩, slice.drop 32)
  else .error context

namespace InflationRewardBaseValue

/-- No partition is stored at first. -/
def new (slot : Nat) (blockHeight : Option Nat) (previousBlockhash : Hash)
    (numRewardPartitions : Option Nat) : InflationRewardBaseValue where
  slot
  blockHeight
  previousBlockhash
  numRewardPartitions
  partitions := List.replicate (numRewardPartitions.getD 0) false

/-- The two lowest bits tell which optional fields follow. -/
def flags (self : InflationRewardBaseValue) : UInt8 :=
  (if self.blockHeight.isSome then 1 else 0) ||| (if self.numRewardPartitions.isSome then 2 else 0)

def encode (self : InflationRewardBaseValue) : Bytes :=
  let vec := Bits.pack self.partitions
  self.flags :: (Wire.encodeVarint self.slot ++
    (self.blockHeight.elim [] Wire.encodeVarint ++
      (self.previousBlockhash.bytes ++
        (self.numRewardPartitions.elim [] Wire.encodeVarint ++
          (Wire.encodeVarint vec.length ++ vec)))))

/-- The bits come back in whole bytes. -/
def decode (slice : Bytes) : Except String InflationRewardBaseValue :=
  match slice with
  | [] => .error "not enough bytes for flags"
  | flags :: slice => do
      let (slot, slice) ← decodeNumber "failed to decode slot" slice
      let (blockHeight, slice) ←
        decodeOptional (0 < flags &&& 1) "failed to decode block height" slice
      let (previousBlockhash, slice) ← decodeHash "not enough bytes for previous blockhash" slice
      let (numRewardPartitions, slice) ←
        decodeOptional (0 < flags &&& 2) "failed to decode num reward partitions" slice
      let (len, slice) ← decodeNumber "failed to decode partitions len" slice
      if len ≤ slice.length then
        .ok ⟨slot, blockHeight, previousBlockhash, numRewardPartitions, Bits.unpack (slice.take len)⟩
      else .error "not enough bytes for partitions"

end InflationRewardBaseValue

namespace RpcInflationReward

/-- The basis points follow the commission and are left out without it. -/
def encode (self : RpcInflationReward) : Bytes :=
  Wire.encodeVarint self.epoch ++ (Wire.encodeVarint self.effectiveSlot ++
    (Wire.encodeVarint self.amount ++ (Wire.encodeVarint self.postBalance ++
      match self.commission, self.commissionBps with
      | none, _ => []
      | some commission, none => [commission]
      | some commission, some commissionBps =>
          [commission, UInt8.ofNat (commissionBps.toNat % 256), UInt8.ofNat (commissionBps.toNat / 256)])))

/-- The rewards were written without the basis points before. -/
def encodeOlder (self : RpcInflationReward) : Bytes :=
  Wire.encodeVarint self.epoch ++ (Wire.encodeVarint self.effectiveSlot ++
    (Wire.encodeVarint self.amount ++ (Wire.encodeVarint self.postBalance ++ self.commission.toList)))

/-- The length of the rest tells which optional fields are there; a rest of two bytes is a panic. -/
def decodeCommission : Bytes → Except String (Option UInt8 × Option UInt16)
  | [] => .ok (none, none)
  | [commission] => .ok (some commission, none)
  | [_, _] => .error "index out of bounds: the len is 2 but the index is 2"
  | commission :: low :: high :: _ =>
      .ok (some commission, some (UInt16.ofNat (low.toNat + 256 * high.toNat)))

def decode (slice : Bytes) : Except String RpcInflationReward := do
  let (epoch, slice) ← decodeNumber "failed to decode epoch" slice
  let (effectiveSlot, slice) ← decodeNumber "failed to decode effective_slot" slice
  let (amount, slice) ← decodeNumber "failed to decode amount" slice
  let (postBalance, slice) ← decodeNumber "failed to decode post_balance" slice
  let (commission, commissionBps) ← decodeCommission slice
  .ok ⟨epoch, effectiveSlot, amount, postBalance, commission, commissionBps⟩

end RpcInflationReward

/-- The write of a partition fails with one of these errors; a bit behind the last one is a panic. -/
inductive PushRewardError where
  | epochNotFound (epoch : Nat)
  | decode (error : String)
  | notEnoughPartitions
  | panicked (reason : String)
  deriving DecidableEq

/-- This text is the error of the source. -/
def PushRewardError.message : PushRewardError → String
  | epochNotFound epoch => s!"existed epoch {epoch} not found"
  | decode error => error
  | notEnoughPartitions => "not enough partitions"
  | panicked reason => reason

namespace InflationRewardIndex

/-- One batch replaces the base record and stores the rewards. -/
def spawnPushReward (db : InflationRewardIndex) (epoch : Nat) (base : InflationRewardBaseValue)
    (rewardMap : RewardMap) : InflationRewardIndex :=
  rewardMap.entries.foldl (fun db entry => db.insert (.reward epoch entry.1) entry.2.encode)
    (db.insert (.base epoch) base.encode)

/-- The check lets the length pass, and the bit there does not exist. -/
def setPartition (base : InflationRewardBaseValue) (partitionIndex : Nat) :
    Except PushRewardError InflationRewardBaseValue :=
  if base.partitions.length < partitionIndex then .error .notEnoughPartitions
  else if partitionIndex < base.partitions.length then
    .ok { base with partitions := base.partitions.set partitionIndex true }
  else .error (.panicked "index out of bounds")

/-- The base record is read, and one batch marks the partition and stores its rewards. -/
def spawnPushPartitionReward (db : InflationRewardIndex) (epoch partitionIndex : Nat)
    (rewardMap : RewardMap) : Except PushRewardError InflationRewardIndex :=
  match db.get (.base epoch) with
  | none => .error (.epochNotFound epoch)
  | some value =>
      match InflationRewardBaseValue.decode value with
      | .error error => .error (.decode error)
      | .ok base => (setPartition base partitionIndex).map fun base =>
          db.spawnPushReward epoch base rewardMap

end InflationRewardIndex

/-- The two requests of the cache to the thread that writes the database. -/
inductive InflationRewardRequest where
  | inflationRewardBase (epoch slot : Nat) (blockHeight : Option Nat) (previousBlockhash : Hash)
      (numRewardPartitions : Option Nat) (rewardMap : RewardMap)
  | inflationRewardPartition (epoch partitionIndex : Nat) (rewardMap : RewardMap)

/-- The thread takes one request after another; an error changes nothing, and a panic ends it. -/
def InflationRewardIndex.write (db : InflationRewardIndex) :
    InflationRewardRequest → Option InflationRewardIndex
  | .inflationRewardBase epoch slot blockHeight previousBlockhash numRewardPartitions rewardMap =>
      some (db.spawnPushReward epoch
        (.new slot blockHeight previousBlockhash numRewardPartitions) rewardMap)
  | .inflationRewardPartition epoch partitionIndex rewardMap =>
      match db.spawnPushPartitionReward epoch partitionIndex rewardMap with
      | .ok db => some db
      | .error (.panicked _) => none
      | .error _ => some db

/-- The hasher gives an address its partition among so many after the block with the hash. -/
abbrev EpochRewardsHasher := Nat → Hash → Pubkey → Nat

/-- The base record shows that the address has no reward outside of the stored ones. -/
def InflationRewardBaseValue.excludes (self : InflationRewardBaseValue) (hasher : EpochRewardsHasher)
    (address : Pubkey) : Bool :=
  match self.numRewardPartitions with
  | none => true
  | some numPartitions =>
      let partitionIndex := hasher numPartitions self.previousBlockhash address
      partitionIndex < numPartitions && self.partitions[partitionIndex]? = some true

/-- The addresses before the current one have their rewards or are missed; the reader has made so
many reads of the database. -/
structure InflationRewardRead where
  rewards : List (Option RpcInflationReward)
  missed : List Nat
  base : Option InflationRewardBaseValue
  baseFetched : Bool
  reads : Nat

structure ReadRequestResultInflationReward where
  addresses : List Pubkey
  rewards : List (Option RpcInflationReward)
  missed : List Nat
  base : Option InflationRewardBaseValue
  deriving DecidableEq

namespace InflationRewardRead

/-- The base record is read at the first address without a reward. -/
def fetchBase (states : Nat → InflationRewardIndex) (epoch : Nat) (self : InflationRewardRead) :
    Except String InflationRewardRead :=
  if self.base.isNone && !self.baseFetched then
    let fetched := { self with baseFetched := true, reads := self.reads + 1 }
    match (states self.reads).get (.base epoch) with
    | none => .ok fetched
    | some slice => (InflationRewardBaseValue.decode slice).map fun base =>
        { fetched with base := some base }
  else .ok self

/-- An address without a stored reward is missed unless the base record excludes it. -/
def readMissing (states : Nat → InflationRewardIndex) (hasher : EpochRewardsHasher) (epoch : Nat)
    (self : InflationRewardRead) (address : Pubkey) : Except String InflationRewardRead :=
  (self.fetchBase states epoch).map fun self =>
    let rewards := self.rewards ++ [none]
    if self.base.any fun base => base.excludes hasher address then { self with rewards }
    else { self with rewards, missed := self.missed ++ [self.rewards.length] }

/-- Each read sees the state of the database at its own moment. -/
def readAddress (states : Nat → InflationRewardIndex) (hasher : EpochRewardsHasher) (epoch : Nat)
    (self : InflationRewardRead) (address : Pubkey) : Except String InflationRewardRead :=
  let found := (states self.reads).get (.reward epoch address)
  let self := { self with reads := self.reads + 1 }
  match found with
  | some slice => (RpcInflationReward.decode slice).map fun reward =>
      { self with rewards := self.rewards ++ [some reward] }
  | none => self.readMissing states hasher epoch address

end InflationRewardRead

def spawnInflationReward (states : Nat → InflationRewardIndex) (hasher : EpochRewardsHasher)
    (epoch : Nat) (addresses : List Pubkey) : Except String ReadRequestResultInflationReward :=
  (addresses.foldlM (InflationRewardRead.readAddress states hasher epoch) ⟨[], [], none, false, 0⟩).map
    fun read => ⟨addresses, read.rewards, read.missed, read.base⟩

end Alpamayo
