import Alpamayo.General.SortedMap
import Alpamayo.Source.Stream
import Alpamayo.Source.Transaction

/-!
This file models the stream that assembles the blocks from the updates of the node.
-/

namespace Alpamayo

inductive SlotStatusProto where
  | processed
  | confirmed
  | finalized
  | firstShredReceived
  | completed
  | createdBank
  | dead
  deriving DecidableEq

/-- The rewards of a block come with the number of their partitions. -/
structure RewardsProto (RawReward : Type) where
  rewards : List RawReward
  numPartitions : Option Nat
  deriving DecidableEq

/-- The update closes the block of a slot. -/
structure SubscribeUpdateBlockMeta (RawReward : Type) where
  slot : Nat
  blockhash : String
  rewards : Option (RewardsProto RawReward)
  blockTime : Option UnixTimestamp
  blockHeight : Option Nat
  parentSlot : Nat
  parentBlockhash : String
  executedTransactionCount : Nat
  deriving DecidableEq

/-- A transaction comes with its place in the block. -/
structure SubscribeUpdateTransactionInfo (RawTransaction : Type) where
  isVote : Bool
  index : Nat
  raw : RawTransaction
  deriving DecidableEq

/-- The status of a slot is a known one or the number that is not; `unexpected` stands for the kinds
that were not asked for, and `failed` for a broken connection. -/
inductive SubscribeUpdate (RawTransaction RawReward : Type) where
  | slot (slot : Nat) (parent : Option Nat) (status : Except Int SlotStatusProto)
  | transaction (slot : Nat) (transaction : Option (SubscribeUpdateTransactionInfo RawTransaction))
  | blockMeta (blockMeta : SubscribeUpdateBlockMeta RawReward)
  | ping
  | unexpected (kind : String)
  | missing
  | failed (reason : String)

inductive RecvError where
  | recv (reason : String)
  | missedField (name : String)
  | unexpectedMessage (kind : String)
  | unknownCommitmentLevel (status : Int)
  | missedParent (slot : Nat)
  | unexpectedCommitment (current next : SlotStatusProto)
  | transactionWithMetaFailed (reason : String)
  | rewardsFailed (reason : String)
  deriving DecidableEq

/-- The libraries decode the parts of an update. -/
structure Decoders (RawTransaction RawReward : Type) where
  keys : HashedKeys
  parsePubkey : String → Option Pubkey
  createTxWithMeta : RawTransaction → Except String TransactionWithStatusMeta
  createReward : RawReward → Except String Reward

/-- The record collects the parts of one block. -/
structure SlotInfo (RawReward : Type) where
  status : SlotStatusProto
  parent : Option Nat
  transactions : List (Nat × BuiltTransaction)
  blockMeta : Option (SubscribeUpdateBlockMeta RawReward)
  sealed : Bool
  indexVote : Bool

variable {RawTransaction RawReward : Type}

namespace SlotInfo

def new (indexVote : Bool) : SlotInfo RawReward where
  status := .createdBank
  parent := none
  transactions := []
  blockMeta := none
  sealed := false
  indexVote

/-- A block without rewards has no partitions. -/
def decodeRewards (decoders : Decoders RawTransaction RawReward)
    (rewards : Option (RewardsProto RawReward)) : Except String (List Reward × Option Nat) :=
  match rewards with
  | none => .ok ([], none)
  | some rewards =>
      (rewards.rewards.mapM decoders.createReward).map fun list => (list, rewards.numPartitions)

/-- The sort is by index; equal indexes keep their order here, which the source leaves open. -/
def sortTransactions (transactions : List (Nat × BuiltTransaction)) : List BuiltTransaction :=
  (transactions.mergeSort fun first second => first.1 ≤ second.1).map Prod.snd

/-- The block joins the parts of a complete record. -/
def buildBlock (blockMeta : SubscribeUpdateBlockMeta RawReward)
    (transactions : List (Nat × BuiltTransaction)) (rewards : List Reward)
    (numPartitions : Option Nat) (indexVote : Bool) : BlockWithBinary :=
  BlockWithBinary.new blockMeta.parentBlockhash blockMeta.blockhash blockMeta.parentSlot
    (sortTransactions transactions) rewards numPartitions blockMeta.blockTime blockMeta.blockHeight
    indexVote

/-- A record is sealed by the first build, also when its rewards are invalid. -/
def tryBuildBlock (decoders : Decoders RawTransaction RawReward) (self : SlotInfo RawReward) :
    Option (Except RecvError BlockWithBinary) × SlotInfo RawReward :=
  match self.sealed, self.blockMeta with
  | false, some blockMeta =>
      if blockMeta.executedTransactionCount ≠ self.transactions.length then (none, self)
      else
        let self := { self with sealed := true, blockMeta := none }
        match decodeRewards decoders blockMeta.rewards with
        | .error reason => (some (.error (.rewardsFailed reason)), self)
        | .ok (rewards, numPartitions) =>
            (some (.ok (buildBlock blockMeta self.transactions rewards numPartitions
              self.indexVote)), { self with transactions := [] })
  | _, _ => (none, self)

end SlotInfo

/-- The records are kept until a later slot is finalized. -/
structure StreamSource (RawReward : Type) where
  slots : SortedMap Nat (SlotInfo RawReward)
  firstProcessed : Option Nat
  indexVote : Bool

namespace StreamSource

def new (indexVote : Bool) : StreamSource RawReward := ⟨SortedMap.empty, none, indexVote⟩

/-- The record of a slot is created by its first update. -/
def slotInfo (self : StreamSource RawReward) (slot : Nat) : SlotInfo RawReward :=
  (self.slots.get slot).getD (SlotInfo.new self.indexVote)

/-- The record of a slot is replaced. -/
def setInfo (self : StreamSource RawReward) (slot : Nat) (info : SlotInfo RawReward) :
    StreamSource RawReward := { self with slots := self.slots.insert slot info }

abbrev Item := Except RecvError StreamSourceMessage

/-- The status of a slot that is not dropped changes its record, except for a finalized one. -/
def acceptStatus (self : StreamSource RawReward) (firstProcessed slot : Nat) (parent : Option Nat)
    (status : SlotStatusProto) : Option Item × StreamSource RawReward :=
  if status = .finalized then
    (some (match parent with
      | some _ => .ok (.slotStatus slot .finalized)
      | none => .error (.missedParent slot)),
      { self with slots := self.slots.popWhile fun entry => entry.1 < slot })
  else
    let info := self.slotInfo slot
    if status = .createdBank then
      if info.parent.isNone && info.status = .createdBank && parent.isSome then
        (none, self.setInfo slot { info with parent })
      else if firstProcessed ≤ slot then
        (some (.error (.unexpectedCommitment info.status status)), self.setInfo slot info)
      else (none, self.setInfo slot info)
    else
      match info.parent, info.status, status with
      | some _, .createdBank, .dead =>
          (some (.ok (.slotStatus slot .dead)), self.setInfo slot { info with status := .dead })
      | some _, .createdBank, .confirmed =>
          (some (.ok (.slotStatus slot .confirmed)),
            self.setInfo slot { info with status := .confirmed })
      | some _, .confirmed, .confirmed => (none, self.setInfo slot info)
      | _, _, _ =>
          (some (.error (.unexpectedCommitment info.status status)), self.setInfo slot info)

/-- The first created bank is remembered, and the statuses up to it are dropped. -/
def slotUpdate (self : StreamSource RawReward) (slot : Nat) (parent : Option Nat)
    (status : SlotStatusProto) : Option Item × StreamSource RawReward :=
  let self := if status = .createdBank ∧ self.firstProcessed = none then
    { self with firstProcessed := some slot } else self
  match self.firstProcessed with
  | none => (none, self)
  | some firstProcessed =>
      if slot ≤ firstProcessed then (none, self)
      else self.acceptStatus firstProcessed slot parent status

/-- A record up to the first processed slot is not built. -/
def build (decoders : Decoders RawTransaction RawReward) (self : StreamSource RawReward) (slot : Nat)
    (info : SlotInfo RawReward) : Option Item × StreamSource RawReward :=
  if self.firstProcessed.any fun firstProcessed => slot ≤ firstProcessed then
    (none, self.setInfo slot info)
  else
    let (block, info) := info.tryBuildBlock decoders
    (block.map fun block => block.map fun block => .block slot block, self.setInfo slot info)

/-- The index of a transaction is cut to 32 bits. -/
def buildTransaction (decoders : Decoders RawTransaction RawReward) (slot : Nat)
    (info : SubscribeUpdateTransactionInfo RawTransaction) (tx : TransactionWithStatusMeta) :
    Nat × BuiltTransaction :=
  (info.index, BuiltTransaction.new decoders.keys decoders.parsePubkey slot tx (some info.isVote)
    (info.index % 4294967296))

/-- The transaction joins the record of its slot. -/
def transactionUpdate (decoders : Decoders RawTransaction RawReward) (self : StreamSource RawReward)
    (slot : Nat) (info : SubscribeUpdateTransactionInfo RawTransaction) :
    Option Item × StreamSource RawReward :=
  let slotInfo := self.slotInfo slot
  match decoders.createTxWithMeta info.raw with
  | .error reason =>
      (some (.error (.transactionWithMetaFailed reason)), self.setInfo slot slotInfo)
  | .ok tx => self.build decoders slot { slotInfo with
      transactions := slotInfo.transactions ++ [buildTransaction decoders slot info tx] }

/-- One round of the poll; no item means that the next update is polled. -/
def update (decoders : Decoders RawTransaction RawReward) (self : StreamSource RawReward) :
    SubscribeUpdate RawTransaction RawReward → Option Item × StreamSource RawReward
  | .slot slot parent status =>
      match status with
      | .error number => (some (.error (.unknownCommitmentLevel number)), self)
      | .ok .processed | .ok .firstShredReceived | .ok .completed => (none, self)
      | .ok status => self.slotUpdate slot parent status
  | .transaction slot (some info) => self.transactionUpdate decoders slot info
  | .transaction _ none => (some (.error (.missedField "transaction")), self)
  | .blockMeta blockMeta => self.build decoders blockMeta.slot
      { self.slotInfo blockMeta.slot with blockMeta := some blockMeta }
  | .ping => (none, self)
  | .unexpected kind => (some (.error (.unexpectedMessage kind)), self)
  | .missing => (some (.error (.missedField "update_oneof")), self)
  | .failed reason => (some (.error (.recv reason)), self)

/-- The items of a run are listed with one place for each update. -/
def run (decoders : Decoders RawTransaction RawReward) (self : StreamSource RawReward) :
    List (SubscribeUpdate RawTransaction RawReward) → List (Option Item) × StreamSource RawReward
  | [] => ([], self)
  | update :: rest =>
      let (item, self) := self.update decoders update
      let (items, self) := self.run decoders rest
      (item :: items, self)

end StreamSource

end Alpamayo
