import Alpamayo.Storage.ReadBlock
import Alpamayo.Storage.Rocksdb

/-!
This file models the read request for a transaction.
-/

namespace Alpamayo

/-- The transaction request has these answers. -/
inductive ReadResultTransaction where
  | timeout
  | notFound
  | transaction (slot : Nat) (blockTime : Option UnixTimestamp) (bytes : Bytes) (index : Nat)
  | readError (error : ReadBlockError)
  deriving DecidableEq

/-- The second request is answered at once or reads a file first. -/
inductive TransactionReply where
  | answer (result : ReadResultTransaction)
  | read (location : StoredBlock)
  deriving DecidableEq

/-- The lookup of the record ends the request or leads to the second one; a lookup without a result
has timed out. -/
def finishTransactionIndex :
    Option (Option TransactionIndexValue) → Except ReadResultTransaction TransactionIndexValue
  | none => .error .timeout
  | some none => .error .notFound
  | some (some index) => .ok index

/-- The file read of a transaction ends with this answer; a read without a result has timed out. -/
def finishTransaction (index : TransactionIndexValue) (location : StoredBlock) :
    Option (Except ReadFileError Bytes) → ReadResultTransaction
  | none => .timeout
  | some (.ok bytes) => .transaction index.slot location.blockTime bytes index.index
  | some (.error error) => .readError (.file error)

namespace Reader

/-- The block that the writer is still storing may have the transaction. -/
def inProcessTransaction (self : Reader) (signature : Signature) : Option ReadResultTransaction :=
  match self.confirmedInProcess with
  | some (slot, some block) => (block.getTransaction signature).map fun transaction =>
      .transaction slot block.blockTime transaction.protobuf transaction.index
  | _ => none

/-- The request `ReadRequest::Transaction` needs the record of the signature when it has no answer. -/
def processTransaction (self : Reader) (expired : Bool) (signature : Signature) :
    Option ReadResultTransaction :=
  if expired then some .timeout else self.inProcessTransaction signature

/-- The request `ReadRequest::Transaction2` looks up the block of the record. -/
def processTransaction2 (self : Reader) (expired : Bool) (index : TransactionIndexValue) :
    TransactionReply :=
  if expired then .answer .timeout
  else
    match self.blocks.getBlockLocation index.slot with
    | .slotMismatch => .answer (.readError .itemSlotMismatch)
    | .found location => .read location
    | .removed | .dead | .notAvailable => .answer .notFound

end Reader

/-- The answer to the request when `first` takes it, its lookup has the given result, `second` takes
the second request, and the file read of a location has the given result. -/
def answerTransaction (first : Reader) (expired : Bool) (signature : Signature)
    (lookup : Option (Option TransactionIndexValue)) (second : Reader) (expiredLater : Bool)
    (file : TransactionIndexValue → StoredBlock → Option (Except ReadFileError Bytes)) :
    ReadResultTransaction :=
  match first.processTransaction expired signature with
  | some result => result
  | none =>
      match finishTransactionIndex lookup with
      | .error result => result
      | .ok index =>
          match second.processTransaction2 expiredLater index with
          | .answer result => result
          | .read location => finishTransaction index location (file index location)

end Alpamayo
