import Alpamayo.Storage.ReadSignatures

/-!
This file models the call `getSignaturesForAddress` over the local storage and the upstream.
-/

namespace Alpamayo

/-- The upstream answers with records or with the bytes of an error. -/
abbrev UpstreamSignatures := Option Signature → Option Signature → Nat →
  Except Bytes (List RpcConfirmedTransactionStatusWithSignature)

/-- The call fails, passes the error of the upstream on, or returns the records. -/
inductive RpcSignaturesResult where
  | failed (error : String)
  | upstreamError (bytes : Bytes)
  | success (signatures : List RpcConfirmedTransactionStatusWithSignature)
  deriving DecidableEq

/-- The parsed request of a client; `last` is the source's `until`. -/
structure RpcRequestSignaturesForAddress where
  upstreamDisabled : Bool
  commitment : CommitmentLevel
  address : Pubkey
  before : Option Signature
  last : Option Signature
  limit : Nat

namespace RpcRequestSignaturesForAddress

/-- The accepted limits. -/
def verifyLimit (limit : Option Nat) (defaultLimit : Nat) : Except String Nat :=
  let limit := limit.getD defaultLimit
  if limit = 0 ∨ defaultLimit < limit then .error s!"Invalid limit; max {defaultLimit}" else .ok limit

/-- An accepted limit is positive. -/
theorem verifyLimit_pos {limit : Option Nat} {defaultLimit accepted : Nat}
    (isAccepted : verifyLimit limit defaultLimit = .ok accepted) : 1 ≤ accepted := by
  rw [verifyLimit] at isAccepted
  split at isAccepted
  · cases isAccepted
  · cases isAccepted
    omega

/-- An upstream that does not support the call has no records. -/
def fetchUpstream (self : RpcRequestSignaturesForAddress) (upstream : Option UpstreamSignatures)
    (before : Option Signature) (limit : Nat) :
    Except Bytes (List RpcConfirmedTransactionStatusWithSignature) :=
  match upstream with
  | some upstream => upstream before self.last limit
  | none => .ok []

/-- An unfinished local answer continues upstream after its last record. -/
def continueUpstream (self : RpcRequestSignaturesForAddress) (upstream : Option UpstreamSignatures)
    (signatures : List RpcConfirmedTransactionStatusWithSignature) (finished : Bool)
    (before : Option Signature) : RpcSignaturesResult :=
  let limit := self.limit - signatures.length
  if !finished && !self.upstreamDisabled && 0 < limit then
    let before := match signatures.getLast? with
      | some record => some record.signature
      | none => before
    match self.fetchUpstream upstream before limit with
    | .ok more => .success (signatures ++ more)
    | .error bytes => .upstreamError bytes
  else .success signatures

def process (self : RpcRequestSignaturesForAddress) (reader : Reader) (db : Rocksdb)
    (keys : HashedKeys) (expired : Nat → Bool) (upstream : Option UpstreamSignatures) :
    RpcSignaturesResult :=
  match reader.processSignaturesForAddress db keys expired self.commitment self.address self.before
      self.last self.limit with
  | .timeout => .failed "timeout"
  | .readError error => .failed s!"read error: {error}"
  | .signatures signatures finished before =>
      self.continueUpstream upstream signatures finished before

end RpcRequestSignaturesForAddress

end Alpamayo
