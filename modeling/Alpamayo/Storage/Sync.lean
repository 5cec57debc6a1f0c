import Alpamayo.Storage.FilesRead

/-!
This file contains the messages from the writer to the readers.
-/

namespace Alpamayo

/-- The messages keep the order in which the writer sends them. -/
inductive ReadWriteSyncMessage where
  | init (blocks : StoredBlocksRead) (storageFilesInit : StorageFilesSyncInit)
      (recentBlocks : List (Nat × BlockWithBinary))
  | blockNew (slot : Nat) (block : BlockWithBinary)
  | blockDead (slot : Nat)
  | blockConfirmed (slot : Nat) (block : Option BlockWithBinary)
  | slotFinalized (slot : Nat)
  | confirmedBlockPopBack
  | confirmedBlockPopFront
  | confirmedBlockPushBack (block : StoredBlock)
  | confirmedBlockPushFront (block : StoredBlock)

/-- The write path reports one of these errors; `panicked` is a panic of the source, and the
arithmetic that leaves the 64-bit range is one. -/
inductive StorageError where
  | panicked (reason : String)
  | shrinkingStoredBlocks
  | noFreeSlotBack
  | noFreeSlotFront
  | notEnoughSpace
  | headOverflow (head size : Nat)
  | tailOverflow (tail size : Nat)
  | unknownStorageId (storageId : StorageId)
  | invalidFileSize (path : Path) (fileSize expected : Nat)
  | invalidTail (storageId : StorageId)
  | invalidHead (storageId : StorageId)
  | fileStorageIsMissed
  | pushBackInvalidSlot (slot expected : Nat)
  | pushBackInvalidHeight (blockHeight slot backHeight backSlot : Nat)
  | pushFrontInvalidSlot (slot expected : Nat)
  | pushFrontInvalidHeight (blockHeight slot frontHeight frontSlot : Nat)
  | noBlocksToRemove
  | existedSlotNotFound (slot : Nat)
  | foundHole (slot expected : Nat)
  deriving DecidableEq

/-- This text is the error of the source. -/
def StorageError.message : StorageError → String
  | panicked reason => reason
  | shrinkingStoredBlocks => "shrinking of stored blocks is not supported yet"
  | noFreeSlotBack => "no free slot (back)"
  | noFreeSlotFront => "no free slot (front)"
  | notEnoughSpace => "not enough space"
  | headOverflow head size => s!"file storage head overflow, {head} vs {size}"
  | tailOverflow tail size => s!"file storage tail overflow, {tail} vs {size}"
  | unknownStorageId storageId => s!"unknown storage id: {storageId}"
  | invalidFileSize path fileSize expected =>
      s!"invalid file size {path}: {fileSize} (expected: {expected})"
  | invalidTail storageId => s!"invalid tail for file id#{storageId}"
  | invalidHead storageId => s!"invalid head for id#{storageId}"
  | fileStorageIsMissed => "file storage is missed"
  | pushBackInvalidSlot slot expected =>
      s!"trying to push back invalid slot: {slot}, expected {expected}"
  | pushBackInvalidHeight blockHeight slot backHeight backSlot =>
      s!"trying to push back block with invalid height: {blockHeight} (slot {slot}), current: {backHeight} (slot {backSlot})"
  | pushFrontInvalidSlot slot expected =>
      s!"trying to push front invalid slot: {slot}, expected {expected}"
  | pushFrontInvalidHeight blockHeight slot frontHeight frontSlot =>
      s!"trying to push front block with invalid height: {blockHeight} (slot {slot}), current: {frontHeight} (slot {frontSlot})"
  | noBlocksToRemove => "no blocks to remove from front"
  | existedSlotNotFound slot => s!"existed slot {slot} not found"
  | foundHole slot expected =>
      s!"failed to load slots from index, found a hole: {slot}, expected {expected}"

/-- The successor of a 64-bit number must stay in its range. -/
def addOne (value : Nat) : Except StorageError Nat :=
  if value < maxSlot then .ok (value + 1)
  else .error (.panicked "attempt to add with overflow")

/-- The predecessor of a 64-bit number must stay in its range. -/
def subOne (value : Nat) : Except StorageError Nat :=
  if 0 < value then .ok (value - 1)
  else .error (.panicked "attempt to subtract with overflow")

end Alpamayo
