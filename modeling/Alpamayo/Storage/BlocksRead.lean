import Alpamayo.General.CellRing
import Alpamayo.General.SortedMap
import Alpamayo.Source.Block
import Mathlib.Data.Prod.Lex
import Mathlib.Order.Lattice.Nat
import Mathlib.Algebra.Order.Group.Int

/-!
This file models the readers' copy of the stored blocks.
-/

namespace Alpamayo

abbrev StorageId := UInt8

/-- A cell of the ring records one slot; `present` is the source's `exists`. -/
structure StoredBlock where
  present : Bool
  dead : Bool
  slot : Nat
  blockTime : Option UnixTimestamp
  blockHeight : Option Nat
  storageId : StorageId
  offset : Nat
  size : Nat
  deriving DecidableEq, Repr

namespace StoredBlock

/-- An unused cell has only default fields. -/
def newNoexists : StoredBlock := ⟨false, false, 0, none, none, 0, 0, 0⟩

/-- A dead slot has no block data. -/
def newDead (slot : Nat) : StoredBlock := { newNoexists with present := true, dead := true, slot }

/-- A confirmed slot records the place of its block. -/
def newConfirmed (slot : Nat) (blockTime : Option UnixTimestamp) (blockHeight : Option Nat)
    (storageId : StorageId) (offset size : Nat) : StoredBlock :=
  { present := true, dead := false, slot, blockTime, blockHeight, storageId, offset, size }

/-- A live cell exists and is not dead. -/
def isLive (block : StoredBlock) : Bool := block.present && !block.dead

@[simp] theorem newNoexists_present : newNoexists.present = false := rfl

@[simp] theorem newNoexists_isLive : newNoexists.isLive = false := rfl

end StoredBlock

/-- The request ends at a slot or after a number of blocks. -/
inductive RpcRequestBlocksUntil where
  | endSlot (slot : Nat)
  | limit (limit : Nat)
  deriving DecidableEq

/-- The lookup of one slot has five outcomes. -/
inductive StorageBlockLocationResult where
  | removed
  | dead
  | notAvailable
  | slotMismatch
  | found (block : StoredBlock)
  deriving DecidableEq

/-- The slot listing rejects the ranges that the ring does not cover. -/
inductive GetBlocksError where
  | requestedStartSlotRemoved
  | endSlotOutOfLimit
  deriving DecidableEq

/-- This text is the error of the source. -/
def GetBlocksError.message : GetBlocksError → String
  | requestedStartSlotRemoved => "requested start slot removed"
  | endSlotOutOfLimit => "end slot out of limit"

/-- A key of the time index orders by block time and then by slot. -/
abbrev BlockTimeKey := UnixTimestamp ×ₗ Nat

/-- The readers keep a copy of the ring and an index of its block times. -/
structure StoredBlocksRead where
  blocks : CellRing StoredBlock
  blockTimeIndex : SortedMap BlockTimeKey Unit

namespace StoredBlocksRead

/-- The index loses the time of a removed live block. -/
def forgetTime (self : StoredBlocksRead) (block : StoredBlock) : SortedMap BlockTimeKey Unit :=
  if block.isLive then
    match block.blockTime with
    | some time => self.blockTimeIndex.erase (toLex (time, block.slot))
    | none => self.blockTimeIndex
  else self.blockTimeIndex

/-- The index gains the time of a new block that is not dead. -/
def recordTime (self : StoredBlocksRead) (block : StoredBlock) : SortedMap BlockTimeKey Unit :=
  if block.dead then self.blockTimeIndex
  else
    match block.blockTime with
    | some time => self.blockTimeIndex.insert (toLex (time, block.slot)) ()
    | none => self.blockTimeIndex

def popBlockBack (self : StoredBlocksRead) : StoredBlocksRead where
  blocks := self.blocks.popBack StoredBlock.newNoexists
  blockTimeIndex := self.forgetTime (self.blocks.cells self.blocks.tail)

def popBlockFront (self : StoredBlocksRead) : StoredBlocksRead where
  blocks := self.blocks.popFront StoredBlock.newNoexists
  blockTimeIndex := self.forgetTime (self.blocks.cells self.blocks.head)

def pushBlockBack (self : StoredBlocksRead) (block : StoredBlock) : StoredBlocksRead where
  blocks := self.blocks.pushBack block
  blockTimeIndex := self.recordTime block

def pushBlockFront (self : StoredBlocksRead) (block : StoredBlock) : StoredBlocksRead where
  blocks := self.blocks.pushFront block
  blockTimeIndex := self.recordTime block

/-- The back slot is the slot of the tail cell. -/
def getBackSlot (self : StoredBlocksRead) : Option Nat :=
  let tail := self.blocks.cells self.blocks.tail
  if tail.present then some tail.slot else none

/-- The slot distance from the tail gives the cell of a slot. -/
def getBlockLocation (self : StoredBlocksRead) (slot : Nat) : StorageBlockLocationResult :=
  let tail := self.blocks.cells self.blocks.tail
  if !tail.present || slot < tail.slot then .removed
  else
    let head := self.blocks.cells self.blocks.head
    if !head.present || head.slot < slot then .notAvailable
    else
      let block := self.blocks.cells (self.blocks.offset (slot - tail.slot))
      if block.present && block.slot = slot then
        if block.dead then .dead else .found block
      else .slotMismatch

/-- Only a limit stops the listing by its length. -/
def limitReached (length : Nat) : RpcRequestBlocksUntil → Bool
  | .endSlot _ => false
  | .limit limit => length = limit

/-- The listing stops at an unused cell, above the last slot, at the limit, or at the head. -/
def getBlocksLoop (ring : CellRing StoredBlock) (scanEndSlot : Nat) (stop : RpcRequestBlocksUntil) :
    Nat → Fin ring.size → List Nat → List Nat
  | 0, _, blocks => blocks
  | fuel + 1, index, blocks =>
      let block := ring.cells index
      if !block.present || scanEndSlot < block.slot then blocks
      else if limitReached blocks.length stop then blocks
      else
        let blocks := if block.dead then blocks else blocks ++ [block.slot]
        if index = ring.head then blocks
        else getBlocksLoop ring scanEndSlot stop fuel (ring.next index) blocks

/-- The last scanned slot also respects a requested end slot. -/
def scanEndSlot (endSlot : Nat) : RpcRequestBlocksUntil → Nat
  | .endSlot requestedEnd => min endSlot requestedEnd
  | .limit _ => endSlot

/-- The distance is added to the tail in 64 bits, and the sum wraps at their end. -/
def startIndex (ring : CellRing StoredBlock) (distance : Nat) : Fin ring.size :=
  ⟨(ring.tail.val + distance) % (maxSlot + 1) % ring.size, Nat.mod_lt _ ring.size_pos⟩

/-- The loop reads each cell at most once, so the ring size bounds its steps. -/
def getBlocks (self : StoredBlocksRead) (startSlot endSlot : Nat)
    (stop : RpcRequestBlocksUntil) : Except GetBlocksError (List Nat) :=
  let tail := self.blocks.cells self.blocks.tail
  let head := self.blocks.cells self.blocks.head
  if !(tail.present && tail.slot ≤ startSlot) then .error .requestedStartSlotRemoved
  else if !(head.present && endSlot ≤ head.slot) then .error .endSlotOutOfLimit
  else .ok (getBlocksLoop self.blocks (scanEndSlot endSlot stop) stop self.blocks.size
    (startIndex self.blocks (startSlot - tail.slot)) [])

end StoredBlocksRead

end Alpamayo
