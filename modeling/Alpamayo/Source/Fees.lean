import Alpamayo.General.HashMap
import Alpamayo.Source.Block
import Mathlib.Data.List.Dedup
import Mathlib.Data.List.Sort

/-!
This file models the prioritization fees of the transactions of a block.
-/

namespace Alpamayo

/-- An instruction names its program by an index into the account keys. -/
structure CompiledInstruction where
  programIdIndex : Nat
  data : Bytes

/-- The instructions of the compute budget program; the last one stands for every other. -/
inductive ComputeBudgetInstruction where
  | requestHeapFrame (bytes : Nat)
  | setComputeUnitLimit (computeUnitLimit : Nat)
  | setComputeUnitPrice (microLamports : Nat)
  | setLoadedAccountsDataSizeLimit (bytes : Nat)
  | other
  deriving DecidableEq

/-- The functions of other packages tell the programs apart and read their instructions. -/
structure FeePrograms where
  isComputeBudget : Pubkey → Bool
  readComputeBudget : Bytes → Option ComputeBudgetInstruction
  isVote : Pubkey → Bool
  parseVote : CompiledInstruction → List Pubkey → Bool

namespace ComputeBudget

def defaultInstructionComputeUnitLimit : Nat := 200000

def maxComputeUnitLimit : Nat := 1400000

def minHeapFrameBytes : Nat := 32 * 1024

def maxHeapFrameBytes : Nat := 256 * 1024

/-- The largest number of 32 bits, at which the counters saturate. -/
def maxCount : Nat := 4294967295

/-- An instruction is refused with its index as a byte. -/
inductive Error where
  | invalidInstructionData (index : UInt8)
  | duplicateInstruction (index : UInt8)
  deriving DecidableEq

structure ComputeBudgetLimits where
  computeUnitLimit : Nat
  computeUnitPrice : Nat
  deriving DecidableEq

/-- The loop counts the other instructions and keeps one value of each kind. -/
structure Progress where
  numNonComputeBudgetInstructions : Nat
  updatedComputeUnitLimit : Option Nat
  updatedComputeUnitPrice : Option Nat
  requestedHeapSize : Option Nat
  updatedLoadedAccountsDataSizeLimit : Option Nat

def Progress.start : Progress := ⟨0, none, none, none, none⟩

def sanitizeRequestedHeapSize (bytes : Nat) : Bool :=
  minHeapFrameBytes ≤ bytes && bytes ≤ maxHeapFrameBytes && bytes % 1024 = 0

/-- One instruction of the compute budget program. -/
def update (self : Progress) (index : Nat) :
    Option ComputeBudgetInstruction → Except Error Progress
  | some (.requestHeapFrame bytes) =>
      if self.requestedHeapSize.isSome then .error (.duplicateInstruction (UInt8.ofNat index))
      else if sanitizeRequestedHeapSize bytes then
        .ok { self with requestedHeapSize := some bytes }
      else .error (.invalidInstructionData (UInt8.ofNat index))
  | some (.setComputeUnitLimit computeUnitLimit) =>
      if self.updatedComputeUnitLimit.isSome then
        .error (.duplicateInstruction (UInt8.ofNat index))
      else .ok { self with updatedComputeUnitLimit := some computeUnitLimit }
  | some (.setComputeUnitPrice microLamports) =>
      if self.updatedComputeUnitPrice.isSome then
        .error (.duplicateInstruction (UInt8.ofNat index))
      else .ok { self with updatedComputeUnitPrice := some microLamports }
  | some (.setLoadedAccountsDataSizeLimit bytes) =>
      if self.updatedLoadedAccountsDataSizeLimit.isSome then
        .error (.duplicateInstruction (UInt8.ofNat index))
      else .ok { self with updatedLoadedAccountsDataSizeLimit := some bytes }
  | _ => .error (.invalidInstructionData (UInt8.ofNat index))

/-- Any other instruction is only counted. -/
def countOther (self : Progress) : Progress :=
  { self with
    numNonComputeBudgetInstructions := min (self.numNonComputeBudgetInstructions + 1) maxCount }

/-- The loop stops at the first instruction that it refuses. -/
def processLoop (programs : FeePrograms) :
    List (Pubkey × CompiledInstruction) → Nat → Progress → Except Error Progress
  | [], _, progress => .ok progress
  | (programId, instruction) :: rest, index, progress =>
      if programs.isComputeBudget programId then
        match update progress index (programs.readComputeBudget instruction.data) with
        | .ok progress => processLoop programs rest (index + 1) progress
        | .error error => .error error
      else processLoop programs rest (index + 1) (countOther progress)

/-- Without a limit of its own, a transaction has the default for each other instruction. -/
def limits (self : Progress) : ComputeBudgetLimits where
  computeUnitLimit := min (self.updatedComputeUnitLimit.getD
    (min (self.numNonComputeBudgetInstructions * defaultInstructionComputeUnitLimit) maxCount))
    maxComputeUnitLimit
  computeUnitPrice := self.updatedComputeUnitPrice.getD 0

def processComputeBudgetInstructions (programs : FeePrograms)
    (instructions : List (Pubkey × CompiledInstruction)) : Except Error ComputeBudgetLimits :=
  (processLoop programs instructions 0 .start).map limits

end ComputeBudget

/-- A complete transaction: all account keys start with those of the message, whose places tell
which are writable. -/
structure FeeTransaction where
  accountKeys : List Pubkey
  staticAccountKeys : List Pubkey
  isMaybeWritable : Nat → Bool
  instructions : List CompiledInstruction

/-- The fee of a transaction and the set of the accounts that it may write. -/
structure TransactionFees where
  unitPrice : Nat
  accountKeys : List Pubkey
  nodup : accountKeys.Nodup

namespace TransactionFees

/-- Some instruction of the vote program can be parsed. -/
def isVote (programs : FeePrograms) (tx : FeeTransaction) : Bool :=
  tx.instructions.any fun instruction =>
    (tx.accountKeys[instruction.programIdIndex]?).any programs.isVote &&
      programs.parseVote instruction tx.accountKeys

end TransactionFees

/-- The sorted fees of all transactions of a block, and of those that write an account. -/
structure TransactionsFees where
  fees : List Nat
  writableAccountFees : HashMap Pubkey (List Nat)

namespace TransactionsFees

/-- The price is added to the list of the account. -/
def addAccount (unitPrice : Nat) (fees : HashMap Pubkey (List Nat)) (account : Pubkey) :
    HashMap Pubkey (List Nat) :=
  fees.insert account ((fees.get account).getD [] ++ [unitPrice])

/-- The transaction adds its price to the list of the block and to those of its accounts. -/
def add (self : TransactionsFees) (fee : TransactionFees) : TransactionsFees where
  fees := self.fees ++ [fee.unitPrice]
  writableAccountFees := fee.accountKeys.foldl (addAccount fee.unitPrice) self.writableAccountFees

/-- A transaction without a fee record is skipped, and the lists are sorted after the last one. -/
def new (txs : List (Option TransactionFees)) : TransactionsFees :=
  let all := (txs.filterMap id).foldl add ⟨[], HashMap.empty⟩
  ⟨all.fees.insertionSort (· ≤ ·), all.writableAccountFees.mapValues fun fees =>
    fees.insertionSort (· ≤ ·)⟩

/-- The place of a percentile, which counts hundredths of a percent. -/
def percentilePlace (percentile length : Nat) : Nat := min percentile 9999 * length / 10000

def getPercentile (fees : List Nat) (percentile : Nat) : Option Nat :=
  fees[percentilePlace percentile fees.length]?

/-- Without a percentile the lowest fee is taken. -/
def getWithPercentile (fees : List Nat) (percentile : Option Nat) : Nat :=
  (match percentile with
  | some percentile => getPercentile fees percentile
  | none => fees.head?).getD 0

/-- The fee of the block is raised to the highest fee of the accounts. -/
def getFee (self : TransactionsFees) (accounts : List Pubkey) (percentile : Option Nat) : Nat :=
  let fee := getWithPercentile self.fees percentile
  match (accounts.filterMap fun account => (self.writableAccountFees.get account).map fun fees =>
      getWithPercentile fees percentile).max? with
  | some accountFee => max fee accountFee
  | none => fee

end TransactionsFees

end Alpamayo
