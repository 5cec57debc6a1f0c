import Alpamayo.Storage.Read
import Alpamayo.Storage.Rocksdb

/-!
This file models the read request that collects the signatures of an address.
-/

namespace Alpamayo

/-- The record of a signature in the answer to a client. -/
structure RpcConfirmedTransactionStatusWithSignature where
  signature : Signature
  slot : Nat
  err : Option TransactionError
  memo : Option String
  blockTime : Option UnixTimestamp
  confirmationStatus : Option TransactionConfirmationStatus
  transactionIndex : Option Nat
  deriving DecidableEq

/-- The request ends with one of these. -/
inductive ReadResultSignaturesForAddress where
  | timeout
  | signatures (signatures : List RpcConfirmedTransactionStatusWithSignature) (finished : Bool)
      (before : Option Signature)
  | readError (error : String)
  deriving DecidableEq

/-- A scan keeps the signature to skip to, the collected records, and whether it is finished. -/
structure SfaScan where
  before : Option Signature
  signatures : List RpcConfirmedTransactionStatusWithSignature
  finished : Bool
  deriving DecidableEq

namespace SfaScan

/-- A status becomes the last signature, a further record, or the last record that fits. -/
def take (self : SfaScan) (stop : Signature) (capacity : Nat)
    (record : RpcConfirmedTransactionStatusWithSignature) : SfaScan :=
  if record.signature = stop then { self with finished := true }
  else { self with
    signatures := self.signatures ++ [record]
    finished := self.signatures.length + 1 = capacity }

/-- The loop over the statuses of one slot skips everything up to the first wanted signature. -/
def takeRow (stop : Signature) (capacity : Nat)
    (record : SignatureStatus → RpcConfirmedTransactionStatusWithSignature) :
    List SignatureStatus → SfaScan → SfaScan
  | [], self => self
  | item :: rest, self =>
      match self.before with
      | some signature =>
          takeRow stop capacity record rest
            (if item.signature = signature then { self with before := none } else self)
      | none =>
          let self := self.take stop capacity (record item)
          if self.finished then self else takeRow stop capacity record rest self

end SfaScan

/-- The block in process is already confirmed. -/
def inProcessRecord (slot : Nat) (block : BlockWithBinary) (item : SignatureStatus) :
    RpcConfirmedTransactionStatusWithSignature where
  signature := item.signature
  slot
  err := item.err
  memo := item.memo
  blockTime := block.blockTime
  confirmationStatus := some .confirmed
  transactionIndex := some item.transactionIndex

/-- The index does not have the time of the block. -/
def indexRecord (slot : Nat) (item : SignatureStatus) : RpcConfirmedTransactionStatusWithSignature where
  signature := item.signature
  slot
  err := item.err
  memo := item.memo
  blockTime := none
  confirmationStatus := none
  transactionIndex := some item.transactionIndex

namespace Rocksdb

/-- The loop reads the rows of the address until another address comes. -/
def signaturesLoop (addressHash : HashedKey) (stop : Signature) (capacity : Nat) :
    List (SfaKey × List SignatureStatus) → SfaScan → SfaScan
  | [], scan => scan
  | (key, value) :: rest, scan =>
      if (ofLex key).1 ≠ addressHash.toNat then scan
      else
        let scan := scan.takeRow stop capacity (indexRecord (ofLex key).2) value
        if scan.finished then scan else signaturesLoop addressHash stop capacity rest scan

/-- The iterator goes down from the row of the slot. -/
def spawnSignatiresForAddress (self : Rocksdb) (keys : HashedKeys) (address : Pubkey) (slot : Nat)
    (before : Option Signature) (stop : Signature) (capacity : Nat)
    (signatures : List RpcConfirmedTransactionStatusWithSignature) :
    List RpcConfirmedTransactionStatusWithSignature × Bool :=
  let addressHash := keys.addressHash address
  let rows := (self.sfaIndex.entries.filter fun entry =>
    entry.1 ≤ SfaKey.concat addressHash slot).reverse
  let scan := signaturesLoop addressHash stop capacity rows ⟨before, signatures, false⟩
  (scan.signatures, scan.finished)

end Rocksdb

namespace Reader

/-- The first stage either answers at once or hands its records to the index with the slot to start
from. -/
inductive FirstStage where
  | finished (signatures : List RpcConfirmedTransactionStatusWithSignature)
  | open (highestSlot : Nat) (before : Option Signature)
      (signatures : List RpcConfirmedTransactionStatusWithSignature)

/-- The statuses of the block in process after the given signature; without that signature in the
block nothing is left. -/
def skipStatuses (signatures : List SignatureStatus) : Option Signature →
    List SignatureStatus × Option Signature
  | none => (signatures, none)
  | some before =>
      match signatures.findIdx? fun item => item.signature = before with
      | some index => (signatures.drop (index + 1), none)
      | none => ([], some before)

/-- The block in process comes first when the commitment is confirmed. -/
def firstStage (self : Reader) (commitment : CommitmentLevel) (address : Pubkey)
    (before : Option Signature) (stop : Signature) (limit : Nat) : FirstStage :=
  if commitment = .confirmed then
    match self.confirmedInProcess with
    | some (slot, some block) =>
        match block.getSfa address with
        | some sfa =>
            let (statuses, before) := skipStatuses sfa.signatures before
            let scan := SfaScan.takeRow stop limit (inProcessRecord slot block) statuses
              ⟨none, [], false⟩
            if scan.finished then .finished scan.signatures
            else .open (self.storageProcessed.confirmedSlot - 1) before scan.signatures
        | none => .open self.storageProcessed.confirmedSlot before []
    | _ => .open self.storageProcessed.confirmedSlot before []
  else .open self.storageProcessed.finalizedSlot before []

/-- The last stage reads the time of a record from the ring; a record whose block is not there is
dropped, and the answer is then not finished. -/
def addBlockTime (self : Reader) (record : RpcConfirmedTransactionStatusWithSignature) :
    Except String (Option RpcConfirmedTransactionStatusWithSignature) :=
  if record.blockTime.isSome then .ok (some record)
  else
    match self.blocks.getBlockLocation record.slot with
    | .slotMismatch => .error "item/slot mismatch"
    | .found location => .ok (some { record with
        blockTime := location.blockTime
        confirmationStatus := some
          (if record.slot ≤ self.storageProcessed.finalizedSlot then .finalized else .confirmed) })
    | .removed | .dead | .notAvailable => .ok none

/-- The pass stops at the first error. -/
def addBlockTimes (self : Reader) : List RpcConfirmedTransactionStatusWithSignature →
    Bool → Except String (List RpcConfirmedTransactionStatusWithSignature × Bool)
  | [], finished => .ok ([], finished)
  | record :: rest, finished => do
      match ← self.addBlockTime record with
      | some record => do
          let (records, finished) ← self.addBlockTimes rest finished
          .ok (record :: records, finished)
      | none => self.addBlockTimes rest false

/-- The third stage answers without a signature to continue from. -/
def thirdStage (self : Reader) (expired : Bool)
    (signatures : List RpcConfirmedTransactionStatusWithSignature) (finished : Bool) :
    ReadResultSignaturesForAddress :=
  if expired then .timeout
  else
    match self.addBlockTimes signatures finished with
    | .ok (signatures, finished) => .signatures signatures finished none
    | .error error => .readError error

/-- The second stage reads the index of the address. -/
def secondStage (self : Reader) (db : Rocksdb) (keys : HashedKeys) (expired : Nat → Bool)
    (address : Pubkey) (slot : Nat) (before : Option Signature) (stop : Signature) (limit : Nat)
    (signatures : List RpcConfirmedTransactionStatusWithSignature) :
    ReadResultSignaturesForAddress :=
  if expired 2 then .timeout
  else
    let (signatures, finished) :=
      db.spawnSignatiresForAddress keys address slot before stop limit signatures
    self.thirdStage (expired 3) signatures finished

/-- The request `ReadRequest::SignaturesForAddress` with its three stages on a storage that does not
change; `last` is the source's `until`, and `expired` tells for each stage whether the deadline has
passed. -/
def processSignaturesForAddress (self : Reader) (db : Rocksdb) (keys : HashedKeys)
    (expired : Nat → Bool) (commitment : CommitmentLevel) (address : Pubkey)
    (before last : Option Signature) (limit : Nat) : ReadResultSignaturesForAddress :=
  if expired 1 then .timeout
  else
    let stop := last.getD Signature.default
    match self.firstStage commitment address before stop limit with
    | .finished signatures => .signatures signatures true none
    | .open highestSlot none signatures =>
        self.secondStage db keys expired address highestSlot none stop limit signatures
    | .open highestSlot (some before) signatures =>
        match db.transactionIndex.get (keys.signatureKey before) with
        | some index =>
            if index.slot ≤ highestSlot then
              self.secondStage db keys expired address index.slot (some before) stop limit signatures
            else .signatures [] true none
        | none => .signatures [] false (some before)

end Reader

end Alpamayo
