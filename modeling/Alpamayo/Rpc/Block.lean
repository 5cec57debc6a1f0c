import Alpamayo.Storage.ReadBlock

/-!
This file models the calls that serve a whole block, `getBlock` and its path for plain requests.
-/

namespace Alpamayo

/-- The slot fell outside of the local storage. -/
def reasonBelowRetention : String := "below_retention"

/-- The local storage evicted the slot while the request was under way. -/
def reasonRemoved : String := "removed"

/-- The local storage does not have the data at all. -/
def reasonNotFoundLocally : String := "not_found_locally"

/-- These errors of the node have codes of their own. -/
inductive RpcCustomError where
  | blockNotAvailable (slot : Nat)
  | slotSkipped (slot : Nat)
  | longTermStorageSlotSkipped (slot : Nat)
  | transactionHistoryNotAvailable
  deriving DecidableEq

/-- Both calls come to one of these ends before they write their answer. -/
inductive BlockOutcome where
  | failed (error : String)
  | notAvailable
  | upstream (reason : String)
  | skipped
  | block (bytes : Bytes)
  deriving DecidableEq

/-- The first available slot is loaded before the request and again after its result. -/
def blockOutcome (slot slotTip firstBefore : Nat) (result : ReadResultBlock) (firstAfter : Nat) :
    BlockOutcome :=
  if slotTip < slot then .notAvailable
  else if slot ≤ firstBefore then .upstream reasonBelowRetention
  else
    match result with
    | .timeout => .failed "timeout"
    | .removed => .upstream reasonRemoved
    | .dead => .skipped
    | .notAvailable => .notAvailable
    | .readError error => .failed s!"read error: {error.message}"
    | .block bytes => if slot ≤ firstAfter then .upstream reasonBelowRetention else .block bytes

/-- Only a block above the first available slot is served. -/
theorem blockOutcome_eq_block_iff {slot slotTip firstBefore firstAfter : Nat}
    {result : ReadResultBlock} {bytes : Bytes} :
    blockOutcome slot slotTip firstBefore result firstAfter = .block bytes ↔
      slot ≤ slotTip ∧ firstBefore < slot ∧ result = .block bytes ∧ firstAfter < slot := by
  unfold blockOutcome
  by_cases above : slotTip < slot
  · simp [above]
  · by_cases below : slot ≤ firstBefore
    · simp [above, below]
    · cases result with
      | block found =>
          by_cases later : slot ≤ firstAfter
          · simp [above, below, later]
          · simp [above, below, later, not_lt.mp above, not_le.mp below, not_le.mp later]
      | _ => simp [above, below]

/-- The parsed request `getBlock`; its commitment is confirmed or finalized. -/
structure RpcRequestBlock where
  upstreamDisabled : Bool
  slot : Nat
  commitment : CommitmentLevel

/-- The call fails, answers at once, passes the request on, or encodes the bytes of the block. -/
inductive RpcBlockResult where
  | failed (error : String)
  | null
  | customError (error : RpcCustomError)
  | upstream (reason : String)
  | work (bytes : Bytes)
  deriving DecidableEq

namespace RpcRequestBlock

/-- A disabled upstream answers with null, and a missing one with an error. -/
def fetchUpstream (self : RpcRequestBlock) (upstream : Bool) (reason : String) : RpcBlockResult :=
  if self.upstreamDisabled then .null
  else if upstream then .upstream reason
  else .customError (.longTermStorageSlotSkipped self.slot)

/-- The commitment selects the tip that bounds the request. -/
def slotTip (self : RpcRequestBlock) (confirmed finalized : Nat) : Nat :=
  if self.commitment = .finalized then finalized else confirmed

/-- The call with the values of its loads and the result of its read; `upstream` tells whether there
is one for the call. -/
def process (self : RpcRequestBlock) (upstream : Bool) (confirmed finalized firstBefore : Nat)
    (result : ReadResultBlock) (firstAfter : Nat) : RpcBlockResult :=
  match blockOutcome self.slot (self.slotTip confirmed finalized) firstBefore result firstAfter with
  | .failed error => .failed error
  | .notAvailable => .customError (.blockNotAvailable self.slot)
  | .upstream reason => self.fetchUpstream upstream reason
  | .skipped => .customError (.slotSkipped self.slot)
  | .block bytes => .work bytes

/-- The encoded bytes come from a block above the first available slot. -/
theorem process_work {self : RpcRequestBlock} {upstream : Bool}
    {confirmed finalized firstBefore firstAfter : Nat} {result : ReadResultBlock} {bytes : Bytes}
    (served : self.process upstream confirmed finalized firstBefore result firstAfter = .work bytes) :
    result = .block bytes ∧ firstAfter < self.slot := by
  unfold process fetchUpstream at served
  split at served
  · cases served
  · cases served
  · split at served
    · cases served
    · split at served <;> cases served
  · cases served
  · rename_i outcome
    cases served
    exact (blockOutcome_eq_block_iff.mp outcome).2.2

end RpcRequestBlock

/-- The plain call answers with an error in text or with the bytes of the block. -/
inductive HttpBlockResult where
  | failed (error : String)
  | badRequest (message error : String)
  | upstream
  | body (bytes : Bytes)
  deriving DecidableEq

/-- The plain request for a block. -/
structure HttpRequestBlock where
  upstreamDisabled : Bool
  slot : Nat

namespace HttpRequestBlock

/-- A disabled upstream is the same as a missing one. -/
def getBlockUpstream (self : HttpRequestBlock) (upstream : Bool) : HttpBlockResult :=
  if !self.upstreamDisabled && upstream then .upstream
  else .badRequest s!"Slot {self.slot} was skipped, or missing in long-term storage\n"
    "LongTermStorageSlotSkipped"

/-- The call `process_block` with the values of its loads and the result of its read. -/
def processBlock (self : HttpRequestBlock) (upstream : Bool) (confirmed firstBefore : Nat)
    (result : ReadResultBlock) (firstAfter : Nat) : HttpBlockResult :=
  match blockOutcome self.slot confirmed firstBefore result firstAfter with
  | .failed error => .failed error
  | .notAvailable => .badRequest s!"Block not available for slot {self.slot}\n" "BlockNotAvailable"
  | .upstream _ => self.getBlockUpstream upstream
  | .skipped => .badRequest
      s!"Slot {self.slot} was skipped, or missing due to ledger jump to recent snapshot\n"
      "SlotSkipped"
  | .block bytes => .body bytes

/-- The served bytes come from a block above the first available slot. -/
theorem processBlock_body {self : HttpRequestBlock} {upstream : Bool}
    {confirmed firstBefore firstAfter : Nat} {result : ReadResultBlock} {bytes : Bytes}
    (served : self.processBlock upstream confirmed firstBefore result firstAfter = .body bytes) :
    result = .block bytes ∧ firstAfter < self.slot := by
  unfold processBlock getBlockUpstream at served
  split at served
  · cases served
  · cases served
  · split at served <;> cases served
  · cases served
  · rename_i outcome
    cases served
    exact (blockOutcome_eq_block_iff.mp outcome).2.2

end HttpRequestBlock

end Alpamayo
