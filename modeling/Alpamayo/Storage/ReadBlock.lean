import Alpamayo.Storage.Read

/-!
This file models the read requests for a block and for the time of a block.
-/

namespace Alpamayo

/-- A block cannot be read because its cell has another slot or because its file fails. -/
inductive ReadBlockError where
  | itemSlotMismatch
  | file (error : ReadFileError)
  deriving DecidableEq

/-- This text is the error of the source. -/
def ReadBlockError.message : ReadBlockError → String
  | itemSlotMismatch => "item/slot mismatch"
  | file error => error.message

/-- The block request has these answers. -/
inductive ReadResultBlock where
  | timeout
  | removed
  | dead
  | notAvailable
  | block (bytes : Bytes)
  | readError (error : ReadBlockError)
  deriving DecidableEq

/-- The request is answered at once or reads a file first. -/
inductive BlockReply where
  | answer (result : ReadResultBlock)
  | read (location : StoredBlock)
  deriving DecidableEq

/-- The file read of a block ends with this answer; a read without a result has timed out. -/
def finishBlock : Option (Except ReadFileError Bytes) → ReadResultBlock
  | none => .timeout
  | some (.ok bytes) => .block bytes
  | some (.error error) => .readError (.file error)

/-- The time of a block cannot be read for one of these reasons. -/
inductive ReadBlockTimeError where
  | itemSlotMismatch
  | failedToFindSlot
  deriving DecidableEq

/-- This text is the error of the source. -/
def ReadBlockTimeError.message : ReadBlockTimeError → String
  | itemSlotMismatch => "item/slot mismatch"
  | failedToFindSlot => "failed to find slot"

/-- The request for a block time has these answers. -/
inductive ReadResultBlockTime where
  | timeout
  | removed
  | dead
  | notAvailable
  | blockTime (time : Option UnixTimestamp)
  | readError (error : ReadBlockTimeError)
  deriving DecidableEq

namespace Reader

/-- The block that the writer is still storing has this content. -/
def inProcessBlock (self : Reader) (slot : Nat) : Option (Option BlockWithBinary) :=
  match self.confirmedInProcess with
  | some (confirmedSlot, block) => if confirmedSlot = slot then some block else none
  | none => none

/-- The lookup of a stored block. -/
def locateBlock (self : Reader) (slot : Nat) : BlockReply :=
  match self.blocks.getBlockLocation slot with
  | .removed => .answer .removed
  | .dead => .answer .dead
  | .notAvailable => .answer .notAvailable
  | .slotMismatch => .answer (.readError .itemSlotMismatch)
  | .found location => .read location

/-- The request `ReadRequest::Block` looks at the block in process first. -/
def processBlock (self : Reader) (expired : Bool) (slot : Nat) : BlockReply :=
  if expired then .answer .timeout
  else
    match self.inProcessBlock slot with
    | some (some block) => .answer (.block block.protobuf)
    | some none => .answer .dead
    | none => self.locateBlock slot

/-- The answer to the request when the file read of a location has the given result. -/
def answerBlock (self : Reader) (expired : Bool) (slot : Nat)
    (file : StoredBlock → Option (Except ReadFileError Bytes)) : ReadResultBlock :=
  match self.processBlock expired slot with
  | .answer result => result
  | .read location => finishBlock (file location)

/-- The time of a stored block. -/
def locateBlockTime (self : Reader) (slot : Nat) : ReadResultBlockTime :=
  match self.blocks.getBlockLocation slot with
  | .removed => .removed
  | .dead => .dead
  | .slotMismatch => .readError .itemSlotMismatch
  | .found location => .blockTime location.blockTime
  | .notAvailable => .readError .failedToFindSlot

/-- The request `ReadRequest::BlockTime` reads the ring only up to the confirmed slot. -/
def processBlockTime (self : Reader) (expired : Bool) (slot : Nat) : ReadResultBlockTime :=
  if expired then .timeout
  else
    match self.inProcessBlock slot with
    | some (some block) => .blockTime block.blockTime
    | some none => .dead
    | none =>
        if slot ≤ self.storageProcessed.confirmedSlot then self.locateBlockTime slot
        else
          match self.storageProcessed.getProcessedBlock slot with
          | some block => .blockTime block.blockTime
          | none => .notAvailable

end Reader

end Alpamayo
