import Alpamayo.Storage.Processed

/-!
This file models the state of a reader, its updates by the writer, and the listing of slots.
-/

namespace Alpamayo

inductive CommitmentLevel where
  | processed
  | confirmed
  | finalized
  deriving DecidableEq

/-- A reader keeps its copy of the ring, the confirmed block that the writer is storing, and the
recent blocks. -/
structure Reader where
  blocks : StoredBlocksRead
  confirmedInProcess : Option (Nat × Option BlockWithBinary)
  storageProcessed : StorageProcessed

/-- A reader stops with one of these errors. -/
inductive ReaderError where
  | invalidSyncMessage
  | unexpectedSecondInit
  | expectedConfirmedBeforePush
  | unexpectConfirmedBlock (slot blockSlot : Nat)
  deriving DecidableEq

/-- This text is the error of the source. -/
def ReaderError.message : ReaderError → String
  | invalidSyncMessage => "invalid sync message"
  | unexpectedSecondInit => "unexpected second init"
  | expectedConfirmedBeforePush => "expected confirmed before push"
  | unexpectConfirmedBlock slot blockSlot =>
      s!"unexpect confirmed block: {slot} vs {blockSlot}"

/-- The listing of slots has these answers. -/
inductive ReadResultBlocks where
  | timeout
  | removed
  | blocks (slots : List Nat)
  | readError (error : GetBlocksError)
  deriving DecidableEq

namespace Reader

/-- The recent blocks of the first message are confirmed one after another. -/
def init (blocks : StoredBlocksRead) (recentBlocks : List (Nat × BlockWithBinary)) : Reader where
  blocks
  confirmedInProcess := none
  storageProcessed := recentBlocks.foldl
    (fun processed item => processed.setConfirmed item.1 (some item.2)) StorageProcessed.default

/-- The first message must be the initial one. -/
def start : ReadWriteSyncMessage → Except ReaderError Reader
  | .init blocks _ recentBlocks => .ok (init blocks recentBlocks)
  | _ => .error .invalidSyncMessage

/-- The stored block must be the one that was confirmed before. -/
def pushFront (self : Reader) (block : StoredBlock) : Except ReaderError Reader :=
  match self.confirmedInProcess with
  | none => .error .expectedConfirmedBeforePush
  | some (slot, _) =>
      if slot = block.slot then
        .ok { self with confirmedInProcess := none, blocks := self.blocks.pushBlockFront block }
      else .error (.unexpectConfirmedBlock slot block.slot)

/-- Each message of the writer updates one part of the state. -/
def update (self : Reader) : ReadWriteSyncMessage → Except ReaderError Reader
  | .init _ _ _ => .error .unexpectedSecondInit
  | .blockNew slot block => .ok { self with
      storageProcessed := self.storageProcessed.addProcessedBlock slot block }
  | .blockDead slot => .ok { self with storageProcessed := self.storageProcessed.markDead slot }
  | .blockConfirmed slot block => .ok { self with
      storageProcessed := self.storageProcessed.setConfirmed slot block
      confirmedInProcess := some (slot, block) }
  | .slotFinalized slot => .ok { self with
      storageProcessed := self.storageProcessed.setFinalized slot }
  | .confirmedBlockPopBack => .ok { self with blocks := self.blocks.popBlockBack }
  | .confirmedBlockPopFront => .ok { self with blocks := self.blocks.popBlockFront }
  | .confirmedBlockPushBack block => .ok { self with blocks := self.blocks.pushBlockBack block }
  | .confirmedBlockPushFront block => self.pushFront block

/-- The scan of the ring ends before a block that the writer is still storing. -/
def endSlot (self : Reader) (commitment : CommitmentLevel) : Nat :=
  if commitment = .confirmed then
    if self.confirmedInProcess.isSome then self.storageProcessed.confirmedSlot - 1
    else self.storageProcessed.confirmedSlot
  else self.storageProcessed.finalizedSlot

/-- The request still wants a slot after the given number of slots. -/
def wantsSlot (slot length : Nat) : RpcRequestBlocksUntil → Bool
  | .endSlot endSlot => slot ≤ endSlot
  | .limit limit => length < limit

/-- The block that the writer is still storing comes last if it is alive and wanted. -/
def appendInProcess (self : Reader) (commitment : CommitmentLevel) (startSlot : Nat)
    (stop : RpcRequestBlocksUntil) (blocks : List Nat) : List Nat :=
  match commitment, self.confirmedInProcess with
  | .confirmed, some (slot, some _) =>
      if startSlot ≤ slot && wantsSlot slot blocks.length stop then blocks ++ [slot] else blocks
  | _, _ => blocks

/-- The request `ReadRequest::Blocks`; `expired` tells whether its deadline has passed. -/
def processBlocks (self : Reader) (expired : Bool) (startSlot : Nat) (stop : RpcRequestBlocksUntil)
    (commitment : CommitmentLevel) : ReadResultBlocks :=
  if expired then .timeout
  else
    match self.blocks.getBackSlot with
    | none => .removed
    | some tailSlot =>
        if startSlot < tailSlot then .removed
        else
          match self.blocks.getBlocks startSlot (self.endSlot commitment) stop with
          | .ok blocks => .blocks (self.appendInProcess commitment startSlot stop blocks)
          | .error error => .readError error

end Reader

end Alpamayo
