import Alpamayo.Rpc.Block
import Alpamayo.Storage.ReadStatuses

/-!
This file models the call `getSignatureStatuses` over the reader and the upstream.
-/

namespace Alpamayo

/-- A call asks for at most this number of signatures. -/
def maxGetSignatureStatusesQueryItems : Nat := 256

/-- The call is refused for one of these reasons. -/
inductive SignatureStatusesError where
  | tooManyInputs
  | invalidSignature (error : String)
  | minContextSlotNotReached (contextSlot : Nat)
  | custom (error : RpcCustomError)
  deriving DecidableEq

/-- The slots that the call loads. -/
structure ContextSlots where
  processed : Nat
  confirmed : Nat
  finalized : Nat

/-- The slot of a commitment level. -/
def ContextSlots.load (self : ContextSlots) : CommitmentLevel → Nat
  | .processed => self.processed
  | .confirmed => self.confirmed
  | .finalized => self.finalized

/-- The options of the call. -/
structure RpcSignatureStatusConfig where
  searchTransactionHistory : Bool
  commitment : Option CommitmentLevel
  minContextSlot : Option Nat

/-- A call without options has this configuration. -/
def RpcSignatureStatusConfig.default : RpcSignatureStatusConfig := ⟨false, none, none⟩

/-- The upstream fails, or it answers a list of signatures with the bytes of an error or with their
statuses. -/
abbrev UpstreamStatuses := List Signature → Except String (Except Bytes (List (Option TransactionStatus)))

/-- The parsed request. -/
structure RpcRequestSignatureStatuses where
  upstreamDisabled : Bool
  signatures : List Signature
  searchTransactionHistory : Bool
  commitment : CommitmentLevel

/-- The call fails, panics, passes the error of the upstream on, or returns the statuses. -/
inductive RpcStatusesResult where
  | failed (error : String)
  | panicked (reason : String)
  | upstreamError (bytes : Bytes)
  | statuses (contextSlot : Nat) (statuses : List (Option TransactionStatus))

namespace RpcRequestSignatureStatuses

/-- The first signature that cannot be read ends the list. -/
def readSignatures (verifySignature : String → Except String Signature) :
    List String → Except SignatureStatusesError (List Signature)
  | [] => .ok []
  | text :: rest =>
      match verifySignature text with
      | .error error => .error (.invalidSignature error)
      | .ok signature => (readSignatures verifySignature rest).map (signature :: ·)

/-- The least context slot is compared with the slot of the commitment. -/
def checkContext (slots : ContextSlots) (commitment : CommitmentLevel) :
    Option Nat → Except SignatureStatusesError Unit
  | none => .ok ()
  | some minContextSlot =>
      if slots.load commitment < minContextSlot then
        .error (.minContextSlotNotReached (slots.load commitment))
      else .ok ()

/-- The search of the history must be allowed; the default commitment is processed. -/
def parse (verifySignature : String → Except String Signature) (gssTransactionHistory : Bool)
    (slots : ContextSlots) (upstreamDisabled : Bool) (signatureStrs : List String)
    (config : Option RpcSignatureStatusConfig) :
    Except SignatureStatusesError RpcRequestSignatureStatuses :=
  if maxGetSignatureStatusesQueryItems < signatureStrs.length then .error .tooManyInputs
  else
    match readSignatures verifySignature signatureStrs with
    | .error error => .error error
    | .ok signatures =>
        let config := config.getD .default
        if config.searchTransactionHistory && !gssTransactionHistory then
          .error (.custom .transactionHistoryNotAvailable)
        else
          let commitment := config.commitment.getD .processed
          (checkContext slots commitment config.minContextSlot).map fun _ =>
            ⟨upstreamDisabled, signatures, config.searchTransactionHistory, commitment⟩

/-- The upstream is asked for these signatures. -/
def signaturesHistory (signatures : List Signature) (statuses : List (Option TransactionStatus)) :
    List Signature :=
  ((signatures.zip statuses).filter fun entry => entry.2.isNone).map Prod.fst

/-- The missing statuses are taken from the upstream's list one after another; a place behind its end
is a panic. -/
def fillStatuses (signaturesUpstream : List (Option TransactionStatus)) :
    Nat → List (Option TransactionStatus) → Option (List (Option TransactionStatus))
  | _, [] => some []
  | index, some status :: statuses =>
      (fillStatuses signaturesUpstream index statuses).map (some status :: ·)
  | index, none :: statuses =>
      match signaturesUpstream[index]? with
      | none => none
      | some status => (fillStatuses signaturesUpstream (index + 1) statuses).map (status :: ·)

/-- The upstream's answer fills the missing statuses. -/
def fetchUpstream (self : RpcRequestSignatureStatuses) (slots : ContextSlots)
    (upstream : UpstreamStatuses) (statuses : List (Option TransactionStatus)) : RpcStatusesResult :=
  match upstream (signaturesHistory self.signatures statuses) with
  | .error error => .failed error
  | .ok (.error bytes) => .upstreamError bytes
  | .ok (.ok signaturesUpstream) =>
      match fillStatuses signaturesUpstream 0 statuses with
      | none => .panicked "index out of bounds"
      | some statuses => .statuses (slots.load self.commitment) statuses

/-- Statuses below the commitment are hidden, and the upstream is asked for what is missing. -/
def process (self : RpcRequestSignatureStatuses)
    (satisfiesCommitment : TransactionStatus → CommitmentLevel → Bool) (slots : ContextSlots)
    (upstream : Option UpstreamStatuses) : ReadResultSignatureStatuses → RpcStatusesResult
  | .timeout => .failed "timeout"
  | .readError error => .failed s!"read error: {error}"
  | .signatures statuses =>
      let statuses := statuses.map fun status =>
        status.filter fun status => satisfiesCommitment status self.commitment
      match upstream with
      | none => .statuses (slots.load self.commitment) statuses
      | some upstream =>
          if self.searchTransactionHistory && !self.upstreamDisabled &&
              statuses.any Option.isNone then
            self.fetchUpstream slots upstream statuses
          else .statuses (slots.load self.commitment) statuses

end RpcRequestSignatureStatuses

end Alpamayo
