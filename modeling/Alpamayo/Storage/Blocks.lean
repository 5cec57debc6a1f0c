import Alpamayo.Storage.Sync
import Mathlib.Data.List.FinRange

/-!
This file models the writer's ring of stored blocks.
-/

namespace Alpamayo

/-- The readers keep the blocks of the last `MAX_RECENT_BLOCKHASHES` heights. -/
def maxRecentBlockhashes : Nat := 300

/-- The writer keeps the ring, the published first slot, and the log of the sync channel. -/
structure StoredBlocksWrite where
  blocks : CellRing StoredBlock
  firstAvailable : Nat
  sent : List ReadWriteSyncMessage

namespace StoredBlocksWrite

/-- An empty store publishes the largest slot. -/
def firstAvailableOf (slot : Option Nat) : Nat := slot.getD maxSlot

/-- The first cell with the smallest slot wins. -/
def minByKey {size : Nat} (cells : Fin size → StoredBlock) : List (Fin size) → Option (Fin size)
  | [] => none
  | index :: rest =>
      match minByKey cells rest with
      | none => some index
      | some best => if (cells best).slot < (cells index).slot then some best else some index

/-- The last cell with the largest slot wins. -/
def maxByKey {size : Nat} (cells : Fin size → StoredBlock) : List (Fin size) → Option (Fin size)
  | [] => none
  | index :: rest =>
      match maxByKey cells rest with
      | none => some index
      | some best => if (cells best).slot < (cells index).slot then some index else some best

/-- The walk reads both cursors because the ring can have no blocks. -/
def getBack (self : StoredBlocksWrite) (filter : StoredBlock → Bool) : Option StoredBlock :=
  let ring := self.blocks
  if (ring.cells ring.tail).present && (ring.cells ring.head).present then
    ring.walkUp filter ring.size ring.tail
  else none

def getBackSlot (self : StoredBlocksWrite) : Option Nat :=
  (self.getBack fun block => block.present).map fun block => block.slot

/-- A live block without a height is a panic of the source. -/
def heightOf (block : Option StoredBlock) : Except StorageError (Option (Nat × Nat)) :=
  match block with
  | none => .ok none
  | some block =>
      match block.blockHeight with
      | some height => .ok (some (block.slot, height))
      | none => .error (.panicked "should have height")

def getBackHeight (self : StoredBlocksWrite) : Except StorageError (Option (Nat × Nat)) :=
  heightOf (self.getBack StoredBlock.isLive)

def getFrontSlot (self : StoredBlocksWrite) : Option Nat :=
  let block := self.blocks.cells self.blocks.head
  if block.present then some block.slot else none

def getFrontHeight (self : StoredBlocksWrite) : Except StorageError (Option (Nat × Nat)) :=
  heightOf (self.blocks.walkDown StoredBlock.isLive self.blocks.size self.blocks.head)

def isFull (self : StoredBlocksWrite) : Bool :=
  (self.blocks.cells (self.blocks.next self.blocks.head)).present

/-- The list fills the first cells; an empty list places the head on the last cell. -/
def new (blocks : List StoredBlock) (max : Nat) : Except StorageError StoredBlocksWrite :=
  if max < blocks.length then .error .shrinkingStoredBlocks
  else if positive : 0 < max then
    let cells : Fin max → StoredBlock := fun index => blocks.getD index StoredBlock.newNoexists
    let existing := (List.finRange max).filter fun index => (cells index).present
    let ring : CellRing StoredBlock := {
      size := max
      cells
      tail := (minByKey cells existing).getD ⟨0, positive⟩
      head := (maxByKey cells existing).getD ⟨max - 1, by omega⟩ }
    let this : StoredBlocksWrite := ⟨ring, maxSlot, []⟩
    .ok { this with firstAvailable := firstAvailableOf this.getBackSlot }
  else .error (.panicked "attempt to subtract with overflow")

/-- This loop collects the live blocks below the head and never reads the tail. -/
def getRecentBlocksLoop (ring : CellRing StoredBlock) :
    Nat → Fin ring.size → List StoredBlock → List StoredBlock
  | 0, _, blocks => blocks
  | fuel + 1, index, blocks =>
      let block := ring.cells index
      if blocks.length < maxRecentBlockhashes && index ≠ ring.tail && block.present then
        getRecentBlocksLoop ring fuel (ring.prev index)
          (if block.dead then blocks else blocks ++ [block])
      else blocks

def getRecentBlocks (self : StoredBlocksWrite) : List StoredBlock :=
  (getRecentBlocksLoop self.blocks self.blocks.size self.blocks.head []).reverse

/-- This loop records the block times from the tail to the head. -/
def toReadLoop (ring : CellRing StoredBlock) :
    Nat → Fin ring.size → SortedMap BlockTimeKey Unit → SortedMap BlockTimeKey Unit
  | 0, _, index => index
  | fuel + 1, idx, blockTimeIndex =>
      let block := ring.cells idx
      let blockTimeIndex :=
        if block.isLive then
          match block.blockTime with
          | some time => blockTimeIndex.insert (toLex (time, block.slot)) ()
          | none => blockTimeIndex
        else blockTimeIndex
      if idx = ring.head then blockTimeIndex
      else toReadLoop ring fuel (ring.next idx) blockTimeIndex

def toRead (self : StoredBlocksWrite) : StoredBlocksRead where
  blocks := self.blocks
  blockTimeIndex :=
    if (self.blocks.cells self.blocks.tail).present then
      toReadLoop self.blocks self.blocks.size self.blocks.tail SortedMap.empty
    else SortedMap.empty

/-- Only the back side, or a ring with both cursors at zero, publishes the first slot. -/
def updateTotal (self : StoredBlocksWrite) (side : VecSide) : StoredBlocksWrite :=
  if side = .back ∨ (self.blocks.tail.val = 0 ∧ self.blocks.head.val = 0) then
    { self with firstAvailable := firstAvailableOf self.getBackSlot }
  else self

/-- The tail moves before the check, and the message goes out before the cell changes. -/
def pushBlockBack2 (self : StoredBlocksWrite) (block : StoredBlock) :
    Except StorageError Unit × StoredBlocksWrite :=
  let tail := self.blocks.prev self.blocks.tail
  if (self.blocks.cells tail).present then
    (.error .noFreeSlotBack, { self with blocks := { self.blocks with tail } })
  else
    let pushed : StoredBlocksWrite := { self with
      blocks := self.blocks.pushBack block
      sent := self.sent ++ [.confirmedBlockPushBack block] }
    (.ok (), pushed.updateTotal .back)

def pushBlockBackDead (self : StoredBlocksWrite) (slot : Nat) :
    Except StorageError Unit × StoredBlocksWrite :=
  self.pushBlockBack2 (StoredBlock.newDead slot)

def pushBlockBackConfirmed (self : StoredBlocksWrite) (slot : Nat)
    (blockTime : Option UnixTimestamp) (blockHeight : Option Nat) (storageId : StorageId)
    (offset blockSize : Nat) : Except StorageError Unit × StoredBlocksWrite :=
  self.pushBlockBack2
    (StoredBlock.newConfirmed slot blockTime blockHeight storageId offset blockSize)

/-- The head moves before the check, and the message goes out before the cell changes. -/
def pushBlockFront2 (self : StoredBlocksWrite) (block : StoredBlock) :
    Except StorageError Unit × StoredBlocksWrite :=
  let head := self.blocks.next self.blocks.head
  if (self.blocks.cells head).present then
    (.error .noFreeSlotFront, { self with blocks := { self.blocks with head } })
  else
    let pushed : StoredBlocksWrite := { self with
      blocks := self.blocks.pushFront block
      sent := self.sent ++ [.confirmedBlockPushFront block] }
    (.ok (), pushed.updateTotal .front)

def pushBlockFrontDead (self : StoredBlocksWrite) (slot : Nat) :
    Except StorageError Unit × StoredBlocksWrite :=
  self.pushBlockFront2 (StoredBlock.newDead slot)

def pushBlockFrontConfirmed (self : StoredBlocksWrite) (slot : Nat)
    (blockTime : Option UnixTimestamp) (blockHeight : Option Nat) (storageId : StorageId)
    (offset blockSize : Nat) : Except StorageError Unit × StoredBlocksWrite :=
  self.pushBlockFront2
    (StoredBlock.newConfirmed slot blockTime blockHeight storageId offset blockSize)

/-- A removal at the back publishes the new first slot. -/
def popBlockBack (self : StoredBlocksWrite) : Option (StoredBlock × StoredBlocksWrite) :=
  let block := self.blocks.cells self.blocks.tail
  if block.present then
    let popped : StoredBlocksWrite :=
      { self with blocks := self.blocks.popBack StoredBlock.newNoexists }
    some (block, { popped with firstAvailable := firstAvailableOf popped.getBackSlot })
  else none

def popBlockFront (self : StoredBlocksWrite) : Option (StoredBlock × StoredBlocksWrite) :=
  let block := self.blocks.cells self.blocks.head
  if block.present then
    some (block, { self with blocks := self.blocks.popFront StoredBlock.newNoexists })
  else none

/-- The log gains one message of the sync channel. -/
def send (self : StoredBlocksWrite) (message : ReadWriteSyncMessage) : StoredBlocksWrite :=
  { self with sent := self.sent ++ [message] }

end StoredBlocksWrite

/-- The boundaries keep the blocks of a file with the lowest and the highest slot. -/
structure StorageBlocksBoundaries where
  min : Option StoredBlock
  max : Option StoredBlock

namespace StorageBlocksBoundaries

def update (self : StorageBlocksBoundaries) (block : StoredBlock) : StorageBlocksBoundaries where
  min := match self.min with
    | some min => if block.slot < min.slot then some block else some min
    | none => some block
  max := match self.max with
    | some max => if max.slot < block.slot then some block else some max
    | none => some block

def tail (self : StorageBlocksBoundaries) : Option Nat := self.min.map fun block => block.offset

def head (self : StorageBlocksBoundaries) : Option Nat :=
  self.max.map fun block => block.offset + block.size

end StorageBlocksBoundaries

/-- The live cells of the ring give the boundaries of each file. -/
def StoredBlocksWrite.getStoredBoundaries (self : StoredBlocksWrite) :
    HashMap StorageId StorageBlocksBoundaries :=
  ((List.finRange self.blocks.size).map self.blocks.cells).foldl (fun map block =>
    if block.isLive then
      map.insert block.storageId (((map.get block.storageId).getD ⟨none, none⟩).update block)
    else map) HashMap.empty

end Alpamayo
