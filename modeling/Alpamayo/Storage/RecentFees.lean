import Alpamayo.Source.Fees
import Alpamayo.Storage.Processed

/-!
This file models the fees that a reader keeps with its recent blocks, and the request for them.
-/

namespace Alpamayo

/-- The request lists at most this number of blocks. -/
def rpfMaxNumRecentBlocks : Nat := 150

/-- The block comes with the fee records of the transactions that it was built from. -/
structure BlockWithFees where
  block : BlockWithBinary
  transactions : List (Option TransactionFees)

/-- The fees are collected when the block is built. -/
def BlockWithFees.fees (self : BlockWithFees) : TransactionsFees :=
  TransactionsFees.new self.transactions

/-- The messages that change the recent blocks, with the fees of their blocks. -/
inductive ProcessedFeesUpdate where
  | addProcessedBlock (slot : Nat) (block : BlockWithFees)
  | markDead (slot : Nat)
  | setConfirmed (slot : Nat) (block : Option BlockWithFees)
  | setFinalized (slot : Nat)

/-- The fees lie beside the recent blocks; only those of a recent block are read. -/
structure StorageProcessedFees where
  processed : StorageProcessed
  fees : HashMap Nat TransactionsFees

namespace StorageProcessedFees

def default : StorageProcessedFees := ⟨StorageProcessed.default, HashMap.empty⟩

/-- The fees are recorded together with the recent block. -/
def addFees (self : StorageProcessedFees) (slot : Nat) (block : BlockWithFees) :
    HashMap Nat TransactionsFees :=
  if self.processed.blocks.containsKey slot then self.fees
  else
    match block.block.blockHeight with
    | none => self.fees
    | some _ => self.fees.insert slot block.fees

def update (self : StorageProcessedFees) : ProcessedFeesUpdate → StorageProcessedFees
  | .addProcessedBlock slot block =>
      ⟨self.processed.addProcessedBlock slot block.block, self.addFees slot block⟩
  | .markDead slot => ⟨self.processed.markDead slot, self.fees⟩
  | .setConfirmed slot block =>
      ⟨self.processed.setConfirmed slot (block.map BlockWithFees.block),
        block.elim self.fees (self.addFees slot)⟩
  | .setFinalized slot => ⟨self.processed.setFinalized slot, self.fees⟩

/-- The fee of one recent block. -/
def feeOf (self : StorageProcessedFees) (pubkeys : List Pubkey) (percentile : Option Nat)
    (slot : Nat) : Nat :=
  ((self.fees.get slot).map fun fees => fees.getFee pubkeys percentile).getD 0

/-- The newest blocks are collected from the last one down, and the list is reversed. -/
def getFees (self : StorageProcessedFees) (pubkeys : List Pubkey) (percentile : Option Nat) :
    List (Nat × Nat) :=
  ((self.processed.recentBlocks.entries.reverse.take rpfMaxNumRecentBlocks).map fun entry =>
    (entry.1, self.feeOf pubkeys percentile entry.1)).reverse

end StorageProcessedFees

/-- The request for the fees has these answers. -/
inductive ReadResultRecentPrioritizationFees where
  | timeout
  | fees (fees : List (Nat × Nat))
  deriving DecidableEq

/-- The request `ReadRequest::RecentPrioritizationFees`. -/
def StorageProcessedFees.processRecentPrioritizationFees (self : StorageProcessedFees)
    (expired : Bool) (pubkeys : List Pubkey) (percentile : Option Nat) :
    ReadResultRecentPrioritizationFees :=
  if expired then .timeout else .fees (self.getFees pubkeys percentile)

end Alpamayo
