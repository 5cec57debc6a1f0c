import Alpamayo.Rpc.Block
import Alpamayo.Storage.ReadTransaction

/-!
This file models the calls that serve a transaction: `getTransaction`, its path for plain requests, and
the full entries of `getTransactionsForAddress`.
-/

namespace Alpamayo

/-- The parsed request `getTransaction`; its commitment is confirmed or finalized. -/
structure RpcRequestTransaction where
  upstreamDisabled : Bool
  signature : Signature
  commitment : CommitmentLevel

/-- The call fails, answers at once, passes the request on, or encodes the bytes. -/
inductive RpcTransactionResult where
  | failed (error : String)
  | null
  | customError (error : RpcCustomError)
  | upstream (reason : String)
  | work (slot : Nat) (blockTime : Option UnixTimestamp) (bytes : Bytes) (index : Nat)
  deriving DecidableEq

namespace RpcRequestTransaction

/-- A disabled upstream answers with null, and a missing one with an error. -/
def fetchUpstream (self : RpcRequestTransaction) (upstream : Bool) (reason : String) :
    RpcTransactionResult :=
  if self.upstreamDisabled then .null
  else if upstream then .upstream reason
  else .customError .transactionHistoryNotAvailable

/-- The call with the result of its read and the values of the loads after it. -/
def process (self : RpcRequestTransaction) (upstream : Bool) (result : ReadResultTransaction)
    (finalized firstAvailable : Nat) : RpcTransactionResult :=
  match result with
  | .timeout => .failed "timeout"
  | .notFound => self.fetchUpstream upstream reasonNotFoundLocally
  | .readError error => .failed s!"read error: {error.message}"
  | .transaction slot blockTime bytes index =>
      if self.commitment = .finalized ∧ finalized < slot then .null
      else if slot ≤ firstAvailable then self.fetchUpstream upstream reasonBelowRetention
      else .work slot blockTime bytes index

/-- The request that is passed on has no bytes of the storage. -/
theorem fetchUpstream_ne_work (self : RpcRequestTransaction) (upstream : Bool) (reason : String)
    (slot : Nat) (blockTime : Option UnixTimestamp) (bytes : Bytes) (index : Nat) :
    self.fetchUpstream upstream reason ≠ .work slot blockTime bytes index := by
  unfold fetchUpstream
  split
  · rintro ⟨⟩
  · split <;> rintro ⟨⟩

/-- The encoded bytes come from a block above the first available slot. -/
theorem process_work {self : RpcRequestTransaction} {upstream : Bool} {result : ReadResultTransaction}
    {finalized firstAvailable slot : Nat} {blockTime : Option UnixTimestamp} {bytes : Bytes}
    {index : Nat} (served : self.process upstream result finalized firstAvailable =
      .work slot blockTime bytes index) :
    result = .transaction slot blockTime bytes index ∧ firstAvailable < slot := by
  unfold process at served
  split at served
  · cases served
  · exact absurd served (fetchUpstream_ne_work _ _ _ _ _ _ _)
  · cases served
  · split at served
    · cases served
    · split at served
      · exact absurd served (fetchUpstream_ne_work _ _ _ _ _ _ _)
      · cases served
        exact ⟨rfl, by omega⟩

end RpcRequestTransaction

/-- The plain call answers with an error in text or with the slot and the bytes. -/
inductive HttpTransactionResult where
  | failed (error : String)
  | badRequest (message error : String)
  | upstream
  | body (slot : Nat) (bytes : Bytes)
  deriving DecidableEq

/-- The plain request for a transaction. -/
structure HttpRequestTransaction where
  upstreamDisabled : Bool
  signature : Signature

namespace HttpRequestTransaction

/-- A disabled upstream is the same as a missing one. -/
def getTransactionUpstream (self : HttpRequestTransaction) (upstream : Bool) :
    HttpTransactionResult :=
  if !self.upstreamDisabled && upstream then .upstream
  else .badRequest "Transaction history is not available from this node\n"
    "TransactionHistoryNotAvailable"

/-- The call `process_transaction` with the result of its read and the load after it. -/
def processTransaction (self : HttpRequestTransaction) (upstream : Bool)
    (result : ReadResultTransaction) (firstAvailable : Nat) : HttpTransactionResult :=
  match result with
  | .timeout => .failed "timeout"
  | .notFound => self.getTransactionUpstream upstream
  | .readError error => .failed s!"read error: {error.message}"
  | .transaction slot _ bytes _ =>
      if slot ≤ firstAvailable then self.getTransactionUpstream upstream else .body slot bytes

/-- The request that is passed on has no bytes of the storage. -/
theorem getTransactionUpstream_ne_body (self : HttpRequestTransaction) (upstream : Bool) (slot : Nat)
    (bytes : Bytes) : self.getTransactionUpstream upstream ≠ .body slot bytes := by
  unfold getTransactionUpstream
  split <;> rintro ⟨⟩

/-- The served bytes come from a block above the first available slot. -/
theorem processTransaction_body {self : HttpRequestTransaction} {upstream : Bool}
    {result : ReadResultTransaction} {firstAvailable slot : Nat} {bytes : Bytes}
    (served : self.processTransaction upstream result firstAvailable = .body slot bytes) :
    (∃ blockTime index, result = .transaction slot blockTime bytes index) ∧
      firstAvailable < slot := by
  unfold processTransaction at served
  split at served
  · cases served
  · exact absurd served (getTransactionUpstream_ne_body _ _ _ _)
  · cases served
  · split at served
    · exact absurd served (getTransactionUpstream_ne_body _ _ _ _)
    · cases served
      exact ⟨⟨_, _, rfl⟩, by omega⟩

end HttpRequestTransaction

/-- One full entry of `getTransactionsForAddress`. -/
structure GtfaFullEntry (Encoded : Type) where
  slot : Nat
  transactionIndex : Option Nat
  blockTime : Option UnixTimestamp
  transaction : Encoded
  deriving DecidableEq

/-- The decoded transaction with its place. -/
structure ConfirmedTransactionWithStatusMeta (Decoded : Type) where
  slot : Nat
  txWithMeta : Decoded
  blockTime : Option UnixTimestamp
  index : Nat
  deriving DecidableEq

/-- The node's own types decode the stored bytes and encode the answer. -/
structure TransactionCodec (Decoded Encoded EncodeError : Type) where
  decode : Bytes → Except String Decoded
  encode : ConfirmedTransactionWithStatusMeta Decoded → Except EncodeError Encoded

/-- The entry cannot be built, or the answer of the call is an error of the encoder. -/
inductive GtfaEntryError (EncodeError : Type) where
  | failed (error : String)
  | response (error : EncodeError)
  deriving DecidableEq

namespace RpcRequestTransactionsForAddress

/-- The bytes of a found transaction are not compared with the first available slot. -/
def fetchTransaction :
    ReadResultTransaction → Except String (Option (Nat × Option UnixTimestamp × Bytes))
  | .timeout => .error "timeout"
  | .notFound => .ok none
  | .transaction slot blockTime bytes _ => .ok (some (slot, blockTime, bytes))
  | .readError error => .error s!"read error: {error.message}"

/-- The entry of one listed signature; `signatureText` is its text. -/
def buildFullEntry {Decoded Encoded EncodeError : Type}
    (codec : TransactionCodec Decoded Encoded EncodeError) (signatureText : String)
    (indexSlot : Nat) (indexBlockTime : Option UnixTimestamp) (transactionIndex : Option Nat)
    (result : ReadResultTransaction) :
    Except (GtfaEntryError EncodeError) (GtfaFullEntry Encoded) :=
  match fetchTransaction result with
  | .error error => .error (.failed error)
  | .ok none => .error (.failed
      s!"transaction {signatureText} referenced by address index but not found in storage")
  | .ok (some (slot, blockTime, bytes)) =>
      let blockTime := blockTime.or indexBlockTime
      match codec.decode bytes with
      | .error error => .error (.failed error)
      | .ok txWithMeta =>
          match codec.encode ⟨slot, txWithMeta, blockTime, transactionIndex.getD 0⟩ with
          | .ok transaction => .ok ⟨indexSlot, transactionIndex, blockTime, transaction⟩
          | .error error => .error (.response error)

end RpcRequestTransactionsForAddress

end Alpamayo
