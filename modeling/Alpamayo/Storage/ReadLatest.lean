import Alpamayo.Storage.Read

/-!
This file models the read requests for the block height and for the latest blockhash.
-/

namespace Alpamayo

/-- A blockhash is valid for this number of heights after its block. -/
def maxProcessingAge : Nat := 150

/-- The block height cannot be read for one of these reasons. -/
inductive ReadBlockHeightError where
  | itemSlotMismatch
  | failedToFindCommitmentSlot
  deriving DecidableEq

/-- This text is the error of the source. -/
def ReadBlockHeightError.message : ReadBlockHeightError → String
  | itemSlotMismatch => "item/slot mismatch"
  | failedToFindCommitmentSlot => "failed to find commitment slot"

/-- The request for the block height has these answers. -/
inductive ReadResultBlockHeight where
  | timeout
  | blockHeight (blockHeight slot : Nat)
  | readError (error : ReadBlockHeightError)
  deriving DecidableEq

/-- The latest blockhash has one reason to be missing. -/
inductive ReadLatestBlockhashError where
  | failedToGetBlock
  deriving DecidableEq

/-- This text is the error of the source. -/
def ReadLatestBlockhashError.message : ReadLatestBlockhashError → String
  | failedToGetBlock => "failed to get block"

/-- The request for the latest blockhash has these answers. -/
inductive ReadResultLatestBlockhash where
  | timeout
  | latestBlockhash (slot : Nat) (blockhash : String) (lastValidBlockHeight : Nat)
  | readError (error : ReadLatestBlockhashError)
  deriving DecidableEq

namespace StoredBlocksRead

/-- The loop goes down over dead slots. It asks again for a live block without a height, so it has no
result there, and slot zero has no slot below it. -/
def findBlockHeight (self : StoredBlocksRead) :
    Nat → Nat → Option (Except ReadBlockHeightError Nat)
  | 0, _ => none
  | fuel + 1, slot =>
      match self.getBlockLocation slot with
      | .dead => if slot = 0 then none else findBlockHeight self fuel (slot - 1)
      | .slotMismatch => some (.error .itemSlotMismatch)
      | .found location =>
          match location.blockHeight with
          | some blockHeight => some (.ok blockHeight)
          | none => findBlockHeight self fuel slot
      | .removed | .notAvailable => some (.error .failedToFindCommitmentSlot)

end StoredBlocksRead

namespace Reader

/-- The slot that the commitment level has reached. -/
def reachedSlot (self : Reader) : CommitmentLevel → Nat
  | .processed => self.storageProcessed.processedSlot
  | .confirmed => self.storageProcessed.confirmedSlot
  | .finalized => self.storageProcessed.finalizedSlot

/-- The height that the commitment level gives without a look at the ring. -/
def commitmentHeight (self : Reader) : CommitmentLevel → Option Nat
  | .processed => some self.storageProcessed.processedHeight
  | .confirmed =>
      match self.confirmedInProcess with
      | some (_, some block) => block.blockHeight
      | _ => none
  | .finalized => none

/-- The request `ReadRequest::BlockHeight`; it has no answer when the loop does not end. -/
def processBlockHeight (self : Reader) (expired : Bool) (commitment : CommitmentLevel) :
    Option ReadResultBlockHeight :=
  if expired then some .timeout
  else
    -- Every level has a slot, so the answer for a missing height is never sent.
    let slot := self.reachedSlot commitment
    match self.commitmentHeight commitment with
    | some blockHeight => some (.blockHeight blockHeight slot)
    | none => (self.blocks.findBlockHeight (slot + 1) slot).map fun result =>
        match result with
        | .ok blockHeight => .blockHeight blockHeight slot
        | .error error => .readError error

/-- The request `ReadRequest::LatestBlockhash`. -/
def processLatestBlockhash (self : Reader) (expired : Bool) (commitment : CommitmentLevel) :
    ReadResultLatestBlockhash :=
  if expired then .timeout
  else
    let slot := self.reachedSlot commitment
    match self.storageProcessed.recentBlocks.get slot with
    | some block => .latestBlockhash slot block.blockhash (block.blockHeight + maxProcessingAge)
    | none => .readError .failedToGetBlock

end Reader

end Alpamayo
