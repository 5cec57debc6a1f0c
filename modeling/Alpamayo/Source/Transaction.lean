import Alpamayo.General.Wire
import Alpamayo.Source.Block

/-!
This file models how a transaction and a block are built for the storage.
-/

namespace Alpamayo

/-- The record joins one transaction with one of its addresses. -/
structure SignatureForAddress where
  key : SfaKey
  addressHash : HashedKey
  address : Pubkey
  signature : Signature
  err : Option TransactionError
  memo : Option String
  transactionIndex : Nat
  isTokenOwner : Bool
  tokenBalanceChanged : Bool
  deriving DecidableEq

namespace SignatureForAddress

/-- An account key of the transaction is not a token owner. -/
def new (keys : HashedKeys) (slot : Nat) (address : Pubkey) (signature : Signature)
    (err : Option TransactionError) (memo : Option String) (transactionIndex : Nat) :
    SignatureForAddress where
  key := SfaKey.concat (keys.addressHash address) slot
  addressHash := keys.addressHash address
  address
  signature
  err
  memo
  transactionIndex
  isTokenOwner := false
  tokenBalanceChanged := false

/-- A token owner need not be an account key. -/
def newTokenOwner (keys : HashedKeys) (slot : Nat) (address : Pubkey) (signature : Signature)
    (err : Option TransactionError) (memo : Option String) (transactionIndex : Nat)
    (tokenBalanceChanged : Bool) : SignatureForAddress where
  key := SfaKey.concat (keys.addressHash address) slot
  addressHash := keys.addressHash address
  address
  signature
  err
  memo
  transactionIndex
  isTokenOwner := true
  tokenBalanceChanged

/-- The status keeps what the row of the address does not. -/
def status (self : SignatureForAddress) : SignatureStatus where
  signature := self.signature
  err := self.err
  memo := self.memo
  transactionIndex := self.transactionIndex
  isTokenOwner := self.isTokenOwner
  tokenBalanceChanged := self.tokenBalanceChanged

end SignatureForAddress

namespace SignaturesForAddress

/-- The row starts with one status. -/
def new (sfa : SignatureForAddress) : SignaturesForAddress := ⟨sfa.key, sfa.addressHash, [sfa.status]⟩

/-- Every other status is appended. -/
def merge (self : SignaturesForAddress) (sfa : SignatureForAddress) : SignaturesForAddress :=
  { self with signatures := self.signatures ++ [sfa.status] }

end SignaturesForAddress

/-- The balance names its account by index and its owner by text. -/
structure TransactionTokenBalance where
  accountIndex : Nat
  owner : String
  amount : String
  deriving DecidableEq

/-- The parts of a transaction with metadata that the storage reads; `memo` is the text of its memo
instructions. -/
structure VersionedTransactionWithStatusMeta where
  accountKeys : List Pubkey
  err : Option TransactionError
  memo : Option String
  preTokenBalances : Option (List TransactionTokenBalance)
  postTokenBalances : Option (List TransactionTokenBalance)
  isVote : Bool
  deriving DecidableEq

/-- A decoded transaction has its first signature and its encoding. -/
structure TransactionWithStatusMeta where
  signature : Signature
  protobuf : Bytes
  complete : Option VersionedTransactionWithStatusMeta
  deriving DecidableEq

/-- The built transaction also has what the block needs. -/
structure BuiltTransaction extends TransactionWithBinary where
  key : HashedKey
  isVote : Bool
  sfa : List SignatureForAddress
  deriving DecidableEq

namespace BuiltTransaction

/-- The map keeps the last amount of an account. -/
def amountOf (balances : List TransactionTokenBalance) (accountIndex : Nat) : Option String :=
  (balances.reverse.find? fun balance => balance.accountIndex = accountIndex).map
    fun balance => balance.amount

/-- The owners of the accounts whose amount changed. -/
def ownerBalanceChanged (before later : List TransactionTokenBalance) : List String :=
  ((before ++ later).filter fun balance =>
    amountOf before balance.accountIndex ≠ amountOf later balance.accountIndex).map
      fun balance => balance.owner

/-- Each owner is seen once; an owner that is no address, or an account key, adds nothing. -/
def ownersSfa (parsePubkey : String → Option Pubkey) (make : Pubkey → Bool → SignatureForAddress)
    (directKeys : List Pubkey) (changed : List String) :
    List String → List String → List SignatureForAddress
  | _, [] => []
  | seenOwners, owner :: rest =>
      if owner ∈ seenOwners then ownersSfa parsePubkey make directKeys changed seenOwners rest
      else
        let later := ownersSfa parsePubkey make directKeys changed (owner :: seenOwners) rest
        match parsePubkey owner with
        | none => later
        | some ownerPubkey =>
            if ownerPubkey ∈ directKeys then later
            else make ownerPubkey (owner ∈ changed) :: later

/-- A transaction without metadata has no error and no addresses. -/
def new (keys : HashedKeys) (parsePubkey : String → Option Pubkey) (slot : Nat)
    (tx : TransactionWithStatusMeta) (isVote : Option Bool) (transactionIndex : Nat) :
    BuiltTransaction where
  key := keys.signatureKey tx.signature
  signature := tx.signature
  err := tx.complete.bind fun complete => complete.err
  isVote := isVote.getD (match tx.complete with
    | none => false
    | some complete => complete.isVote)
  sfa := match tx.complete with
    | none => []
    | some complete =>
        let pre := complete.preTokenBalances.getD []
        let post := complete.postTokenBalances.getD []
        complete.accountKeys.map (fun address => SignatureForAddress.new keys slot address
          tx.signature complete.err complete.memo transactionIndex) ++
        ownersSfa parsePubkey (fun address => SignatureForAddress.newTokenOwner keys slot address
          tx.signature complete.err complete.memo transactionIndex) complete.accountKeys
          (ownerBalanceChanged pre post) [] ((pre ++ post).map fun balance => balance.owner)
  protobuf := tx.protobuf
  index := transactionIndex

end BuiltTransaction

/-- The length is counted without writing the bytes. -/
def bytesEncodedLen (tag : Nat) (value : Bytes) : Nat :=
  Wire.keyLen tag + Wire.encodedLenVarint value.length + value.length

inductive RewardType where
  | fee
  | rent
  | staking
  | voting
  | deactivatedStake
  | vatDebit
  deriving DecidableEq

/-- The commission has one byte, and its basis points have two. -/
structure Reward where
  pubkey : String
  lamports : Int
  postBalance : Nat
  rewardType : Option RewardType
  commission : Option UInt8
  commissionBps : Option Nat
  deriving DecidableEq

namespace Reward

/-- These codes are the numbers of the source. -/
def rewardTypeAsI32 : Option RewardType → Int
  | none => 0
  | some .fee => 1
  | some .rent => 2
  | some .staking => 3
  | some .voting => 4
  | some .deactivatedStake => 5
  | some .vatDebit => 6

/-- Default fields are left out. -/
def encodeRaw (self : Reward) : Bytes :=
  (if self.pubkey.isEmpty then [] else Wire.encodeString 1 self.pubkey) ++
  (if self.lamports = 0 then [] else Wire.encodeInt64 2 self.lamports) ++
  (if self.postBalance = 0 then [] else Wire.encodeUint64 3 self.postBalance) ++
  (if self.rewardType.isSome then Wire.encodeInt64 4 (rewardTypeAsI32 self.rewardType) else []) ++
  (match self.commission with
    | none => []
    | some commission => Wire.encodeString 5 (toString commission.toNat)) ++
  (match self.commissionBps with
    | none => []
    | some commissionBps => Wire.encodeString 6 (toString commissionBps))

/-- The fields are counted apart from writing them. -/
def encodedLen (self : Reward) : Nat :=
  (if self.pubkey.isEmpty then 0 else Wire.encodedLenString 1 self.pubkey) +
  (if self.lamports = 0 then 0 else Wire.encodedLenInt64 2 self.lamports) +
  (if self.postBalance = 0 then 0 else Wire.encodedLenUint64 3 self.postBalance) +
  (if self.rewardType.isSome then Wire.encodedLenInt64 4 (rewardTypeAsI32 self.rewardType) else 0) +
  (match self.commission with
    | none => 0
    | some commission => bytesEncodedLen 5 (toString commission.toNat).toUTF8.toList) +
  (match self.commissionBps with
    | none => 0
    | some commissionBps => bytesEncodedLen 6 (toString commissionBps).toUTF8.toList)

end Reward

/-- The parts of a block in the order of their fields. -/
structure ConfirmedBlockProtoRef where
  previousBlockhash : String
  blockhash : String
  parentSlot : Nat
  transactions : List BuiltTransaction
  rewards : List Reward
  blockTime : Option UnixTimestamp
  blockHeight : Option Nat
  numPartitions : Option Nat

namespace ConfirmedBlockProtoRef

/-- The fields before the transactions. -/
def header (self : ConfirmedBlockProtoRef) : Bytes :=
  (if self.previousBlockhash.isEmpty then [] else Wire.encodeString 1 self.previousBlockhash) ++
  (if self.blockhash.isEmpty then [] else Wire.encodeString 2 self.blockhash) ++
  (if self.parentSlot = 0 then [] else Wire.encodeUint64 3 self.parentSlot)

/-- The loop records where each transaction starts in the buffer. -/
def encodeTransactions (buf : Bytes) : List BuiltTransaction → Bytes × List BlockTransactionOffset
  | [] => (buf, [])
  | tx :: rest =>
      let start := buf ++ Wire.encodeKey 4 .lengthDelimited ++ Wire.encodeVarint tx.protobuf.length
      let (all, offsets) := encodeTransactions (start ++ tx.protobuf) rest
      (all, ⟨tx.key, start.length, tx.protobuf.length, tx.err, tx.index⟩ :: offsets)

/-- The fields after the transactions. -/
def footer (self : ConfirmedBlockProtoRef) : Bytes :=
  self.rewards.flatMap (fun reward => Wire.encodeMessage 5 reward.encodedLen reward.encodeRaw) ++
  (match self.blockTime with
    | none => []
    | some timestamp => Wire.encodeBytes 6 (Wire.int64Message timestamp)) ++
  (match self.blockHeight with
    | none => []
    | some blockHeight => Wire.encodeBytes 7 (Wire.uint64Message blockHeight)) ++
  (match self.numPartitions with
    | none => []
    | some numPartitions => Wire.encodeBytes 8 (Wire.uint64Message numPartitions))

/-- The buffer comes with the offsets of the transactions. -/
def encodeWithTxOffsets (self : ConfirmedBlockProtoRef) : Bytes × List BlockTransactionOffset :=
  let (buf, offsets) := encodeTransactions self.header self.transactions
  (buf ++ self.footer, offsets)

/-- The capacity of the buffer is counted before the block is written. -/
def encodedLen (self : ConfirmedBlockProtoRef) : Nat :=
  (if self.previousBlockhash.isEmpty then 0
    else bytesEncodedLen 1 self.previousBlockhash.toUTF8.toList) +
  (if self.blockhash.isEmpty then 0 else bytesEncodedLen 2 self.blockhash.toUTF8.toList) +
  (if self.parentSlot = 0 then 0 else Wire.encodedLenUint64 3 self.parentSlot) +
  (Wire.keyLen 4 * self.transactions.length +
    (self.transactions.map fun tx =>
      tx.protobuf.length + Wire.encodedLenVarint tx.protobuf.length).sum) +
  (Wire.keyLen 5 * self.rewards.length +
    (self.rewards.map fun reward =>
      reward.encodedLen + Wire.encodedLenVarint reward.encodedLen).sum) +
  (match self.blockTime with
    | none => 0
    | some timestamp => Wire.encodedLenBytes 6 (Wire.int64Message timestamp).length) +
  (match self.blockHeight with
    | none => 0
    | some blockHeight => Wire.encodedLenBytes 7 (Wire.uint64Message blockHeight).length) +
  (match self.numPartitions with
    | none => 0
    | some numPartitions => Wire.encodedLenBytes 8 (Wire.uint64Message numPartitions).length)

end ConfirmedBlockProtoRef

namespace BlockWithBinary

/-- The row of a new address comes last in the listing of the map. -/
def mergeSfa (sfa : List (Pubkey × SignaturesForAddress)) (txSfa : SignatureForAddress) :
    List (Pubkey × SignaturesForAddress) :=
  if (sfa.lookup txSfa.address).isSome then
    sfa.map fun entry => if entry.1 = txSfa.address then (entry.1, entry.2.merge txSfa) else entry
  else sfa ++ [(txSfa.address, SignaturesForAddress.new txSfa)]

/-- A later transaction replaces one with the same signature. -/
def insertTransaction (transactions : List TransactionWithBinary) (tx : TransactionWithBinary) :
    List TransactionWithBinary :=
  if transactions.any fun other => other.signature = tx.signature then
    transactions.map fun other => if other.signature = tx.signature then tx else other
  else transactions ++ [tx]

/-- Votes are dropped unless they are indexed; the rows list the newest transaction first. -/
def new (previousBlockhash blockhash : String) (parentSlot : Nat)
    (transactions : List BuiltTransaction) (rewards : List Reward) (numPartitions : Option Nat)
    (blockTime : Option UnixTimestamp) (blockHeight : Option Nat) (indexVote : Bool) :
    BlockWithBinary :=
  let transactions := if indexVote then transactions else transactions.filter fun tx => !tx.isVote
  let (protobuf, txsOffset) := (⟨previousBlockhash, blockhash, parentSlot, transactions, rewards,
    blockTime, blockHeight, numPartitions⟩ : ConfirmedBlockProtoRef).encodeWithTxOffsets
  { blockhash
    parentSlot
    blockTime
    blockHeight
    protobuf
    txsOffset
    transactions := (transactions.map BuiltTransaction.toTransactionWithBinary).foldl
      insertTransaction []
    sfa := (transactions.reverse.flatMap fun tx => tx.sfa).foldl mergeSfa [] }

end BlockWithBinary

end Alpamayo
