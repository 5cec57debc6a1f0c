import Alpamayo.General.Routine
import Alpamayo.Rpc.Block
import Alpamayo.Source.Transaction
import Alpamayo.Storage.ReadRequests

/-!
This file models the call `getInflationReward`, which fills the cache of the rewards from the blocks of
an epoch.
-/

namespace Alpamayo

/-- The call reads these parts of a block without its transactions. -/
structure UiConfirmedBlock where
  previousBlockhash : String
  blockHeight : Option Nat
  numRewardPartitions : Option Nat
  rewards : Option (List Reward)
  deriving DecidableEq

/-- The call is answered with one of these errors; the upstream sends the bytes of its own. -/
inductive InflationRewardError where
  | invalidPubkey (error : String)
  | minContextSlotNotReached (contextSlot : Nat)
  | custom (error : RpcCustomError)
  | blockCleanedUp (slot firstAvailableBlock : Nat)
  | epochRewardsPeriodActive (slot currentBlockHeight rewardsCompleteBlockHeight : Nat)
  | encode (error : String)
  | upstream (bytes : Bytes)
  deriving DecidableEq

/-- The call ends early with an error, without an answer, or in a panic. -/
inductive InflationRewardStop where
  | error (error : InflationRewardError)
  | failed (error : String)
  | panicked (reason : String)
  deriving DecidableEq

/-- The node has the functions of other packages and knows whether there is an upstream. -/
structure InflationRewardNode where
  hasher : EpochRewardsHasher
  getEpoch : Nat → Nat
  getFirstSlotInEpoch : Nat → Nat
  verifyPubkey : String → Except String Pubkey
  hashFromStr : String → Option Hash
  parseAndEncode : Bytes → Except String (Except String UiConfirmedBlock)
  upstreamBlocks : Bool
  upstreamBlock : Bool

/-- The upstream fails, or it answers with the bytes of an error or with a value. -/
abbrev UpstreamReply (A : Type) := Except String (Except Bytes A)

/-- The call loads slots, asks the reader and the upstream, goes through a hash map in the order of the
map, and sends rewards to the writer. -/
inductive InflationRewardOp where
  | load (commitment : CommitmentLevel)
  | firstAvailableLoad
  | readRewards (epoch : Nat) (addresses : List Pubkey)
  | readBlocks (startSlot limit : Nat)
  | upstreamBlocks (startSlot limit : Nat) (reason : String)
  | readBlock (slot : Nat)
  | upstreamBlock (slot : Nat) (reason : String)
  | readBlockHeight (commitment : CommitmentLevel)
  | iterate (groups : List (Nat × List Nat))
  | push (request : InflationRewardRequest)

/-- The type of the reply to each operation. -/
def InflationRewardOp.Reply : InflationRewardOp → Type
  | load _ => Nat
  | firstAvailableLoad => Nat
  | readRewards _ _ => ReadResultInflationReward
  | readBlocks _ _ => ReadResultBlocks
  | upstreamBlocks _ _ _ => UpstreamReply (List Nat)
  | readBlock _ => ReadResultBlock
  | upstreamBlock _ _ => UpstreamReply (Option UiConfirmedBlock)
  | readBlockHeight _ => ReadResultBlockHeight
  | iterate _ => List (Nat × List Nat)
  | push _ => Unit

def inflationRewardInterface : Interface := ⟨InflationRewardOp, InflationRewardOp.Reply⟩

abbrev RewardRoutine (A : Type) := Routine inflationRewardInterface InflationRewardStop A

namespace RewardRoutine

/-- The routine makes one call. -/
def ask (op : InflationRewardOp) : RewardRoutine op.Reply :=
  @Routine.perform inflationRewardInterface InflationRewardStop op

def load (commitment : CommitmentLevel) : RewardRoutine Nat := ask (.load commitment)

def firstAvailableLoad : RewardRoutine Nat := ask .firstAvailableLoad

def readRewards (epoch : Nat) (addresses : List Pubkey) : RewardRoutine ReadResultInflationReward :=
  ask (.readRewards epoch addresses)

def readBlocks (startSlot limit : Nat) : RewardRoutine ReadResultBlocks :=
  ask (.readBlocks startSlot limit)

def upstreamBlocks (startSlot limit : Nat) (reason : String) :
    RewardRoutine (UpstreamReply (List Nat)) := ask (.upstreamBlocks startSlot limit reason)

def readBlock (slot : Nat) : RewardRoutine ReadResultBlock := ask (.readBlock slot)

def upstreamBlock (slot : Nat) (reason : String) :
    RewardRoutine (UpstreamReply (Option UiConfirmedBlock)) := ask (.upstreamBlock slot reason)

def readBlockHeight (commitment : CommitmentLevel) : RewardRoutine ReadResultBlockHeight :=
  ask (.readBlockHeight commitment)

def iterate (groups : List (Nat × List Nat)) : RewardRoutine (List (Nat × List Nat)) :=
  ask (.iterate groups)

def push (request : InflationRewardRequest) : RewardRoutine Unit := ask (.push request)

/-- An answer that ends the call. -/
def fail {A : Type} (error : InflationRewardError) : RewardRoutine A := .stop (.error error)

/-- An `expect` without a value is a panic. -/
def expect {A : Type} (reason : String) : Option A → RewardRoutine A
  | some value => pure value
  | none => .stop (.panicked reason)

/-- A failure ends the call without an answer. -/
def ofExcept {A : Type} : Except String A → RewardRoutine A
  | .ok value => pure value
  | .error error => .stop (.failed error)

/-- The upstream's own error is passed on. -/
def ofUpstream {A : Type} : UpstreamReply A → RewardRoutine A
  | .ok (.ok value) => pure value
  | .ok (.error bytes) => fail (.upstream bytes)
  | .error error => .stop (.failed error)

end RewardRoutine

/-- The sum stops at the greatest number of 64 bits. -/
def saturatingSum (first second : Nat) : Nat := min (first + second) 18446744073709551615

/-- The addresses stay distinct when one of them moves to the end. -/
theorem RewardMap.nodup_moved (self : RewardMap) (address : Pubkey) (reward : RpcInflationReward) :
    ((self.entries.filter (fun entry => entry.1 ≠ address) ++
      [(address, reward)]).map Prod.fst).Nodup := by
  rw [List.map_append, List.nodup_append]
  refine ⟨(List.filter_sublist.map Prod.fst).nodup self.distinct, List.nodup_singleton _, ?_⟩
  intro first member second last
  obtain ⟨entry, kept, rfl⟩ := List.mem_map.mp member
  rw [List.map_singleton, List.mem_singleton] at last
  rw [last]
  simpa using (List.mem_filter.mp kept).2

/-- An address that is inserted again has its later reward. -/
def RewardMap.insert (self : RewardMap) (address : Pubkey) (reward : RpcInflationReward) :
    RewardMap where
  entries := self.entries.filter (fun entry => entry.1 ≠ address) ++ [(address, reward)]
  distinct := self.nodup_moved address reward

/-- The map without addresses. -/
def RewardMap.empty : RewardMap := ⟨[], List.nodup_nil⟩

/-- The boundary block has the rewards of the votes, and those of the stakes without partitions. -/
def isBaseReward (partitioned : Bool) (rewardType : RewardType) : Bool :=
  rewardType = .voting || (!partitioned && rewardType = .staking)

/-- The block of a partition has the rewards of the stakes. -/
def isPartitionReward (rewardType : RewardType) : Bool :=
  rewardType = .staking || rewardType = .deactivatedStake

/-- The rewards of the missed addresses are filled in; the rest stays missed. An address that does not
exist is a panic. -/
def fillRewards (map : RewardMap) (addresses : List Pubkey) :
    List Nat → List (Option RpcInflationReward) →
      Option (List (Option RpcInflationReward) × List Nat)
  | [], rewards => some (rewards, [])
  | index :: missed, rewards =>
      match addresses[index]? with
      | none => none
      | some address =>
          match map.get address with
          | some reward => fillRewards map addresses missed (rewards.set index (some reward))
          | none => (fillRewards map addresses missed rewards).map fun filled =>
              (filled.1, index :: filled.2)

/-- The index joins the entry of its partition. -/
def addToGroup (partitionIndex index : Nat) : List (Nat × List Nat) → List (Nat × List Nat)
  | [] => [(partitionIndex, [index])]
  | group :: groups =>
      if group.1 = partitionIndex then (partitionIndex, group.2 ++ [index]) :: groups
      else group :: addToGroup partitionIndex index groups

/-- The missed addresses are collected by their partitions. -/
def groupMissed (partitionOf : Pubkey → Nat) (addresses : List Pubkey) :
    List Nat → List (Nat × List Nat) → Option (List (Nat × List Nat))
  | [], groups => some groups
  | index :: missed, groups =>
      match addresses[index]? with
      | none => none
      | some address =>
          groupMissed partitionOf addresses missed (addToGroup (partitionOf address) index groups)

/-- The parameters of the request. -/
structure InflationRewardParams where
  addressStrs : List String
  epoch : Option Nat
  commitment : Option CommitmentLevel
  minContextSlot : Option Nat

/-- The parsed request `getInflationReward`. -/
structure RpcRequestInflationReward where
  upstreamDisabled : Bool
  commitment : CommitmentLevel
  epoch : Nat
  addresses : List Pubkey

namespace InflationRewardNode

open RewardRoutine

variable (node : InflationRewardNode)

/-- The first address that cannot be read ends the list. -/
def verifyAddresses : List String → Except String (List Pubkey)
  | [] => .ok []
  | text :: rest =>
      match node.verifyPubkey text with
      | .error error => .error error
      | .ok pubkey => (verifyAddresses rest).map (pubkey :: ·)

/-- The slot of the commitment must have reached the least context slot. -/
def minContextCheck (minContextSlot : Option Nat) (commitment : CommitmentLevel) :
    RewardRoutine (Option Nat) :=
  match minContextSlot with
  | none => pure none
  | some minContextSlot => do
      let contextSlot ← load commitment
      if contextSlot < minContextSlot then fail (.minContextSlotNotReached contextSlot)
      else pure (some contextSlot)

/-- The epoch before that of the current slot is the default. -/
def parseEpoch (params : InflationRewardParams) (commitment : CommitmentLevel) : RewardRoutine Nat :=
  match params.epoch with
  | some epoch => pure epoch
  | none => do
      let contextSlot ← minContextCheck params.minContextSlot commitment
      let slot ← contextSlot.elim (load commitment) pure
      pure (node.getEpoch slot - 1)

def parse (upstreamDisabled : Bool) (params : InflationRewardParams) :
    RewardRoutine RpcRequestInflationReward :=
  match node.verifyAddresses params.addressStrs with
  | .error error => fail (.invalidPubkey error)
  | .ok addresses => do
      let epoch ← node.parseEpoch params (params.commitment.getD .finalized)
      pure ⟨upstreamDisabled, params.commitment.getD .finalized, epoch, addresses⟩

/-- The rewards of some types by their addresses. -/
def filterRewards (epoch slot : Nat) (rewards : Option (List Reward)) (ofType : RewardType → Bool) :
    Except String RewardMap :=
  ((rewards.getD []).filter fun reward => reward.rewardType.any ofType).foldlM
    (fun map reward =>
      match node.verifyPubkey reward.pubkey with
      | .error _ => .error s!"failed to parse {reward.pubkey}"
      | .ok pubkey => .ok (map.insert pubkey
          ⟨epoch, slot, reward.lamports.natAbs, reward.postBalance, reward.commission,
            reward.commissionBps.map UInt16.ofNat⟩)) RewardMap.empty

end InflationRewardNode

namespace RpcRequestInflationReward

open RewardRoutine

variable (node : InflationRewardNode) (self : RpcRequestInflationReward)

/-- Slots that may be removed soon are asked of the upstream. -/
def getBlocksWithLimit (startSlot limit : Nat) : RewardRoutine (List Nat) := do
  let firstAvailable ← firstAvailableLoad
  if startSlot < firstAvailable + 150 ∧ !self.upstreamDisabled ∧ node.upstreamBlocks then
    upstreamBlocks startSlot limit reasonBelowRetention >>= ofUpstream
  else
    match ← readBlocks startSlot limit with
    | .timeout => .stop (.failed "timeout")
    | .blocks blocks => pure blocks
    | .removed => do
        let firstAvailable ← firstAvailableLoad
        fail (.blockCleanedUp startSlot firstAvailable)
    | .readError error => .stop (.failed s!"read error: {error.message}")

def getBlockWithRewardsUpstream (slot : Nat) (reason : String) : RewardRoutine UiConfirmedBlock :=
  if !self.upstreamDisabled ∧ node.upstreamBlock then do
    match ← upstreamBlock slot reason >>= ofUpstream with
    | some block => pure block
    | none => fail (.custom (.blockNotAvailable slot))
  else fail (.custom (.longTermStorageSlotSkipped slot))

/-- The bytes are parsed and encoded without the transactions. -/
def encodeBlock (bytes : Bytes) : RewardRoutine UiConfirmedBlock :=
  match node.parseAndEncode bytes with
  | .error error => .stop (.failed error)
  | .ok (.error error) => fail (.encode error)
  | .ok (.ok block) => pure block

/-- The first available slot is loaded before the request and again after its result. -/
def getBlockWithRewards (slot : Nat) : RewardRoutine UiConfirmedBlock := do
  let firstBefore ← firstAvailableLoad
  if slot ≤ firstBefore then self.getBlockWithRewardsUpstream node slot reasonBelowRetention
  else
    match ← readBlock slot with
    | .timeout => .stop (.failed "timeout")
    | .removed => self.getBlockWithRewardsUpstream node slot reasonRemoved
    | .dead => fail (.custom (.slotSkipped slot))
    | .notAvailable => fail (.custom (.blockNotAvailable slot))
    | .readError error => .stop (.failed s!"read error: {error.message}")
    | .block bytes => do
        let firstAfter ← firstAvailableLoad
        if slot ≤ firstAfter then self.getBlockWithRewardsUpstream node slot reasonBelowRetention
        else encodeBlock node bytes

def errorEpochRewardsPeriodActive {A : Type} (rewardsCompleteBlockHeight : Nat) : RewardRoutine A := do
  match ← readBlockHeight self.commitment with
  | .timeout => .stop (.failed "timeout")
  | .blockHeight blockHeight slot =>
      fail (.epochRewardsPeriodActive slot blockHeight rewardsCompleteBlockHeight)
  | .readError error => .stop (.failed s!"read error: {error.message}")

/-- The boundary block is the first confirmed block of the next epoch. -/
def getBoundarySlot : RewardRoutine Nat := do
  let firstSlot := node.getFirstSlotInEpoch (saturatingSum self.epoch 1)
  let confirmed ← load .confirmed
  if confirmed < firstSlot then fail (.custom (.blockNotAvailable firstSlot))
  else do
    match (← self.getBlocksWithLimit node firstSlot 1).head? with
    | some slot => pure slot
    | none => fail (.custom (.blockNotAvailable firstSlot))

/-- The boundary block serves its addresses and gives the base record. -/
def getInflationRewardBase (addresses : List Pubkey) (rewards : List (Option RpcInflationReward))
    (missed : List Nat) : RewardRoutine
      ((List (Option RpcInflationReward) × List Nat) × InflationRewardBaseValue) := do
  let slot ← self.getBoundarySlot node
  let block ← self.getBlockWithRewards node slot
  let previousBlockhash ← expect
    "UiConfirmedBlock::previous_blockhash should be properly formed"
    (node.hashFromStr block.previousBlockhash)
  let rewardMap ← ofExcept (node.filterRewards self.epoch slot block.rewards
    (isBaseReward block.numRewardPartitions.isSome))
  let filled ← expect "index out of bounds" (fillRewards rewardMap addresses missed rewards)
  push (.inflationRewardBase self.epoch slot block.blockHeight previousBlockhash
    block.numRewardPartitions rewardMap)
  pure (filled, .new slot block.blockHeight previousBlockhash block.numRewardPartitions)

/-- The block of a partition serves its addresses. -/
def servePartition (base : InflationRewardBaseValue) (numPartitions : Nat) (blockList : List Nat)
    (addresses : List Pubkey) (rewards : List (Option RpcInflationReward))
    (group : Nat × List Nat) : RewardRoutine (List (Option RpcInflationReward)) :=
  match blockList[group.1]? with
  | none => do
      let blockHeight ← expect
        "every block after partitioned_epoch_reward_enabled should have a populated block_height"
        base.blockHeight
      self.errorEpochRewardsPeriodActive
        (saturatingSum (saturatingSum blockHeight numPartitions) 1)
  | some slot => do
      let block ← self.getBlockWithRewards node slot
      let rewardMap ← ofExcept (node.filterRewards self.epoch slot block.rewards isPartitionReward)
      let filled ← expect "index out of bounds"
        (fillRewards rewardMap addresses group.2 rewards)
      push (.inflationRewardPartition self.epoch group.1 rewardMap)
      pure filled.1

/-- The missed addresses have their rewards in the blocks of the partitions. -/
def servePartitions (addresses : List Pubkey) (rewards : List (Option RpcInflationReward))
    (missed : List Nat) (base : InflationRewardBaseValue) :
    RewardRoutine (List (Option RpcInflationReward)) :=
  match base.numRewardPartitions with
  | none => pure rewards
  | some numPartitions => do
      let blockList ← self.getBlocksWithLimit node (base.slot + 1) numPartitions
      let groups ← expect "index out of bounds"
        (groupMissed (node.hasher numPartitions base.previousBlockhash) addresses missed [])
      let groups ← iterate groups
      groups.foldlM (self.servePartition node base numPartitions blockList addresses) rewards

/-- The base record comes from the database or from the boundary block. -/
def getInflationReward (addresses : List Pubkey) (rewards : List (Option RpcInflationReward))
    (missed : List Nat) :
    Option InflationRewardBaseValue → RewardRoutine (List (Option RpcInflationReward))
  | some base => self.servePartitions node addresses rewards missed base
  | none => do
      let (filled, base) ← self.getInflationRewardBase node addresses rewards missed
      if filled.2.isEmpty then pure filled.1
      else self.servePartitions node addresses filled.1 filled.2 base

def process : RewardRoutine (List (Option RpcInflationReward)) := do
  match ← readRewards self.epoch self.addresses with
  | .timeout => .stop (.failed "timeout")
  | .readError error => .stop (.failed s!"read error: {error}")
  | .reward result =>
      if result.missed.isEmpty then pure result.rewards
      else self.getInflationReward node result.addresses result.rewards result.missed result.base

end RpcRequestInflationReward

/-- The whole call returns the parsed request with its rewards. -/
def InflationRewardNode.handle (node : InflationRewardNode) (upstreamDisabled : Bool)
    (params : InflationRewardParams) :
    RewardRoutine (RpcRequestInflationReward × List (Option RpcInflationReward)) := do
  let request ← node.parse upstreamDisabled params
  let rewards ← request.process node
  pure (request, rewards)

end Alpamayo
