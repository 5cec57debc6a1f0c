import Alpamayo.Storage.RecentFees

/-!
This file models the call `getRecentPrioritizationFees`.
-/

namespace Alpamayo

/-- A transaction locks at most this number of accounts. -/
def maxTxAccountLocks : Nat := 128

/-- The call is refused for one of these reasons. -/
inductive FeesParseError where
  | tooManyInputs
  | invalidPubkey (error : String)
  | percentileTooBig
  deriving DecidableEq

/-- This text is the error of the source; the text for a key comes from its check. -/
def FeesParseError.message : FeesParseError → String
  | tooManyInputs => s!"Too many inputs provided; max {maxTxAccountLocks}"
  | invalidPubkey error => s!"Invalid param: {error}"
  | percentileTooBig => "Percentile is too big; max value is 10000"

/-- The parsed request. -/
structure RpcRequestRecentPrioritizationFees where
  pubkeys : List Pubkey
  percentile : Option Nat

/-- The call fails with a text or answers with the slots and their fees. -/
inductive RpcFeesResult where
  | invalid (error : FeesParseError)
  | failed (error : String)
  | fees (fees : List (Nat × Nat))
  deriving DecidableEq

namespace RpcRequestRecentPrioritizationFees

/-- The first key that cannot be read ends the list. -/
def readPubkeys (verifyPubkey : String → Except String Pubkey) :
    List String → Except FeesParseError (List Pubkey)
  | [] => .ok []
  | text :: rest =>
      match verifyPubkey text with
      | .error error => .error (.invalidPubkey error)
      | .ok pubkey => (readPubkeys verifyPubkey rest).map (pubkey :: ·)

/-- The percentile is read only if the configuration allows it. -/
def readPercentile (grpfPercentile : Bool) (percentile : Option Nat) :
    Except FeesParseError (Option Nat) :=
  if grpfPercentile then
    if percentile.any (10000 < ·) then .error .percentileTooBig else .ok percentile
  else .ok none

def parse (verifyPubkey : String → Except String Pubkey) (grpfPercentile : Bool)
    (pubkeyStrs : Option (List String)) (percentile : Option Nat) :
    Except FeesParseError RpcRequestRecentPrioritizationFees :=
  if maxTxAccountLocks < (pubkeyStrs.getD []).length then .error .tooManyInputs
  else
    match readPubkeys verifyPubkey (pubkeyStrs.getD []) with
    | .error error => .error error
    | .ok pubkeys =>
        match readPercentile grpfPercentile percentile with
        | .error error => .error error
        | .ok percentile => .ok ⟨pubkeys, percentile⟩

/-- The call with the state of the reader that takes the request. -/
def handle (verifyPubkey : String → Except String Pubkey) (grpfPercentile : Bool)
    (pubkeyStrs : Option (List String)) (percentile : Option Nat) (reader : StorageProcessedFees)
    (expired : Bool) : RpcFeesResult :=
  match parse verifyPubkey grpfPercentile pubkeyStrs percentile with
  | .error error => .invalid error
  | .ok request =>
      match reader.processRecentPrioritizationFees expired request.pubkeys request.percentile with
      | .timeout => .failed "timeout"
      | .fees fees => .fees fees

end RpcRequestRecentPrioritizationFees

end Alpamayo
