import Alpamayo.Storage.Read
import Alpamayo.Storage.Rocksdb

/-!
This file models the read request for the statuses of signatures.
-/

namespace Alpamayo

/-- The request ends with one of these. -/
inductive ReadResultSignatureStatuses where
  | timeout
  | signatures (statuses : List (Option TransactionStatus))
  | readError (error : String)

/-- A row of the transaction index is its record or the error that stops its reader. -/
abbrev TransactionRows := HashMap HashedKey (Except String TransactionIndexValue)

/-- The rows that the writer stores can be read. -/
def Rocksdb.transactionRows (self : Rocksdb) : TransactionRows := fun key =>
  (self.transactionIndex.get key).map .ok

/-- A signature without a row has no entry in the answer. -/
def spawnSignatureStatuses (rows : TransactionRows) (keys : HashedKeys) :
    List Signature → Except String (List (Signature × TransactionIndexValue))
  | [] => .ok []
  | signature :: rest => do
      match rows.get (keys.signatureKey signature) with
      | none => spawnSignatureStatuses rows keys rest
      | some value => do
          let value ← value
          let values ← spawnSignatureStatuses rows keys rest
          .ok ((signature, value) :: values)

/-- A record of the index counts as finalized. -/
def TransactionIndexValue.toStatus (self : TransactionIndexValue) : TransactionStatus where
  slot := self.slot
  confirmations := none
  status := match self.err with
    | some error => .error error
    | none => .ok ()
  err := self.err
  confirmationStatus := some .finalized

/-- Each status is taken out of the map in the order of the request. -/
def createResult : List Signature → HashMap Signature TransactionStatus →
    List (Option TransactionStatus)
  | [], _ => []
  | signature :: rest, found =>
      found.get signature :: createResult rest (found.remove signature)

namespace Reader

/-- A recent signature has its status in the memory of the reader. -/
def addRecent (self : Reader) (found : HashMap Signature TransactionStatus) (signature : Signature) :
    HashMap Signature TransactionStatus :=
  match self.storageProcessed.getSignatureStatus signature with
  | some status => found.insert signature status
  | none => found

def recentStatuses (self : Reader) (signatures : List Signature) :
    HashMap Signature TransactionStatus :=
  signatures.foldl self.addRecent HashMap.empty

/-- The signatures that are looked up in the history. -/
def historySignatures (self : Reader) (searchTransactionHistory : Bool)
    (signatures : List Signature) : List Signature :=
  if searchTransactionHistory then
    signatures.filter fun signature =>
      (self.storageProcessed.getSignatureStatus signature).isNone
  else []

/-- Only finalized records of the history are added. -/
def addFinalized (self : Reader) (found : HashMap Signature TransactionStatus)
    (entry : Signature × TransactionIndexValue) : HashMap Signature TransactionStatus :=
  if entry.2.slot ≤ self.storageProcessed.finalizedSlot then
    found.insert entry.1 entry.2.toStatus
  else found

/-- The request `ReadRequest::SignatureStatuses`; it times out before its start or in the read of the
history. -/
def processSignatureStatuses (self : Reader) (rows : TransactionRows) (keys : HashedKeys)
    (expired late : Bool) (searchTransactionHistory : Bool) (signatures : List Signature) :
    ReadResultSignatureStatuses :=
  if expired then .timeout
  else
    let found := self.recentStatuses signatures
    let history := self.historySignatures searchTransactionHistory signatures
    if history.isEmpty then .signatures (createResult signatures found)
    else if late then .timeout
    else
      match spawnSignatureStatuses rows keys history with
      | .error error => .readError error
      | .ok history => .signatures (createResult signatures (history.foldl self.addFinalized found))

end Reader

end Alpamayo
