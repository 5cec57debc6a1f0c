import Alpamayo.Storage.Blocks

/-!
This file models the reader's state of recent blocks and signatures.
-/

namespace Alpamayo

/-- The reader records the last block of each recent signature. -/
structure RecentSignatureStatus where
  slot : Nat
  blockHeight : Nat
  err : Option TransactionError
  deriving DecidableEq

/-- The reader keeps the signatures of a recent block to remove them later. -/
structure RecentBlock where
  blockhash : String
  blockHeight : Nat
  signatures : List Signature
  deriving DecidableEq

/-- The commitment of a transaction has three levels. -/
inductive TransactionConfirmationStatus where
  | processed
  | confirmed
  | finalized
  deriving DecidableEq

/-- This record answers a status request; `status` repeats `err` as a result. -/
structure TransactionStatus where
  slot : Nat
  confirmations : Option Nat
  status : Except TransactionError Unit
  err : Option TransactionError
  confirmationStatus : Option TransactionConfirmationStatus

/-- The maps hold the processed blocks and the index of the recent blocks. -/
structure StorageProcessed where
  processedSlot : Nat
  processedHeight : Nat
  confirmedSlot : Nat
  confirmedHeight : Nat
  finalizedSlot : Nat
  finalizedHeight : Nat
  blocks : SortedMap Nat (Option BlockWithBinary)
  signatureStatuses : HashMap Signature RecentSignatureStatus
  recentBlocks : SortedMap Nat RecentBlock
  blockHeights : HashMap String Nat

namespace StorageProcessed

/-- The default state has no blocks. -/
def default : StorageProcessed :=
  ⟨0, 0, 0, 0, 0, 0, SortedMap.empty, HashMap.empty, SortedMap.empty, HashMap.empty⟩

/-- Each transaction of the block replaces the status of its signature. -/
def insertStatuses (statuses : HashMap Signature RecentSignatureStatus) (slot blockHeight : Nat)
    (transactions : List TransactionWithBinary) : HashMap Signature RecentSignatureStatus :=
  transactions.foldl (fun map tx => map.insert tx.signature ⟨slot, blockHeight, tx.err⟩) statuses

/-- The recent record of a block lists its signatures. -/
def recentOf (block : BlockWithBinary) (blockHeight : Nat) : RecentBlock where
  blockhash := block.blockhash
  blockHeight
  signatures := block.transactions.map fun tx => tx.signature

/-- A slot with an entry in `blocks`, and a block without a height, add nothing. -/
def addSignatures (self : StorageProcessed) (slot : Nat) (block : BlockWithBinary) :
    StorageProcessed :=
  if self.blocks.containsKey slot then self
  else
    match block.blockHeight with
    | none => self
    | some blockHeight => { self with
        signatureStatuses :=
          insertStatuses self.signatureStatuses slot blockHeight block.transactions
        recentBlocks := self.recentBlocks.insert slot (recentOf block blockHeight)
        blockHeights := self.blockHeights.insert block.blockhash blockHeight }

/-- The statuses lose every listed signature. -/
def removeStatuses (statuses : HashMap Signature RecentSignatureStatus)
    (signatures : List Signature) : HashMap Signature RecentSignatureStatus :=
  signatures.foldl (fun map signature => map.remove signature) statuses

def removeSignatures (self : StorageProcessed) (block : RecentBlock) : StorageProcessed :=
  { self with
    signatureStatuses := removeStatuses self.signatureStatuses block.signatures
    blockHeights := self.blockHeights.remove block.blockhash }

/-- The highest processed block raises the processed values; without one the confirmed ones do. -/
def updateProcessed (self : StorageProcessed) : StorageProcessed :=
  match self.blocks.entries.reverse.findSome? fun entry =>
      entry.2.map fun block => (entry.1, block.blockHeight) with
  | some (slot, blockHeight) => { self with
      processedSlot := max self.processedSlot slot
      processedHeight := max self.processedHeight (blockHeight.getD 0) }
  | none => { self with
      processedSlot := max self.processedSlot self.confirmedSlot
      processedHeight := max self.processedHeight self.confirmedHeight }

/-- The first entry of a slot in `blocks` stays. -/
def addProcessedBlock (self : StorageProcessed) (slot : Nat) (block : BlockWithBinary) :
    StorageProcessed :=
  let self := self.addSignatures slot block
  let self := if self.blocks.containsKey slot then self
    else { self with blocks := self.blocks.insert slot (some block) }
  self.updateProcessed

/-- The recent block is removed only when the slot already had an entry in `blocks`. -/
def markDead (self : StorageProcessed) (slot : Nat) : StorageProcessed :=
  let known := self.blocks.containsKey slot
  let self := { self with blocks := self.blocks.insert slot none }
  let self :=
    if known then
      match self.recentBlocks.get slot with
      | some block =>
          { self with recentBlocks := self.recentBlocks.erase slot }.removeSignatures block
      | none => self
    else self
  self.updateProcessed

/-- A recent block leaves the window when its height is too far below the confirmed height. -/
def outdated (confirmedHeight : Nat) (entry : Nat × RecentBlock) : Bool :=
  maxRecentBlockhashes ≤ confirmedHeight - entry.2.blockHeight

/-- The loop removes the lowest recent block while it is outdated. -/
def evictRecent (self : StorageProcessed) : StorageProcessed :=
  ((self.recentBlocks.popped (outdated self.confirmedHeight)).foldl
    (fun self entry => self.removeSignatures entry.2)
    { self with recentBlocks := self.recentBlocks.popWhile (outdated self.confirmedHeight) })

/-- A confirmation keeps the recent entry that the slot already has. -/
def setConfirmed (self : StorageProcessed) (slot : Nat) (block : Option BlockWithBinary) :
    StorageProcessed :=
  let self : StorageProcessed := match block with
    | some block => self.addSignatures slot block
    | none => self
  let self := { self with
    confirmedSlot := slot
    confirmedHeight :=
      ((self.recentBlocks.get slot).map RecentBlock.blockHeight).getD self.confirmedHeight }
  let self := { self with blocks := self.blocks.popWhile fun entry => entry.1 ≤ slot }
  self.updateProcessed.evictRecent

/-- A slot without a recent block does not change the finalized values. -/
def setFinalized (self : StorageProcessed) (slot : Nat) : StorageProcessed :=
  match self.recentBlocks.get slot with
  | some block => { self with finalizedSlot := slot, finalizedHeight := block.blockHeight }
  | none => self

def getProcessedBlock (self : StorageProcessed) (slot : Nat) : Option BlockWithBinary :=
  (self.blocks.get slot).join

/-- The confirmations of a recent status; a height above the confirmed height gives none. -/
def confirmationsOf (self : StorageProcessed) (blockHeight : Nat) : Option Nat :=
  if self.finalizedHeight < blockHeight then
    if blockHeight ≤ self.confirmedHeight then some (self.confirmedHeight - blockHeight + 1)
    else none
  else none

/-- The number of confirmations decides the reported commitment. -/
def confirmationStatusOf : Option Nat → TransactionConfirmationStatus
  | some 0 => .processed
  | some _ => .confirmed
  | none => .finalized

def getSignatureStatus (self : StorageProcessed) (signature : Signature) :
    Option TransactionStatus :=
  (self.signatureStatuses.get signature).map fun status =>
    let confirmations := self.confirmationsOf status.blockHeight
    { slot := status.slot
      confirmations
      status := match status.err with
        | some error => .error error
        | none => .ok ()
      err := status.err
      confirmationStatus := some (confirmationStatusOf confirmations) }

end StorageProcessed

end Alpamayo
