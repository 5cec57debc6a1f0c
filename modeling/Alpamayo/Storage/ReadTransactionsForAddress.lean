import Alpamayo.Storage.ReadSignatures

/-!
This file models the read requests behind `getTransactionsForAddress`.
-/

namespace Alpamayo

/-- The three parallel lists of the source hold the parts of such an entry. -/
structure TfaEntry where
  signature : RpcConfirmedTransactionStatusWithSignature
  transactionIndex : Nat
  tokenOwnerFlags : UInt8
  deriving DecidableEq

/-- Bit 0 tells a token owner and bit 1 a changed balance. -/
def TfaEntry.flags (item : SignatureStatus) : UInt8 :=
  item.isTokenOwner.toUInt8 ||| (item.tokenBalanceChanged.toUInt8 <<< 1)

/-- The entry has the record of its status. -/
def TfaEntry.new (record : SignatureStatus → RpcConfirmedTransactionStatusWithSignature)
    (item : SignatureStatus) : TfaEntry :=
  ⟨record item, item.transactionIndex, flags item⟩

/-- A scan keeps the index to skip to; it is finished unless the page becomes full. -/
structure TfaScan where
  cursorTransactionIndex : Option Nat
  entries : List TfaEntry
  finished : Bool
  deriving DecidableEq

/-- The index is not after the one of the cursor. -/
def skipsIndex (desc : Bool) (cursor index : Nat) : Bool :=
  if desc then cursor ≤ index else index ≤ cursor

namespace TfaScan

/-- Without an index to skip to, nothing is skipped. -/
def skips (self : TfaScan) (desc : Bool) (index : Nat) : Bool :=
  self.cursorTransactionIndex.any fun cursor => skipsIndex desc cursor index

/-- The cursor is cleared at the index that it names. -/
def skip (self : TfaScan) (index : Nat) : TfaScan :=
  if self.cursorTransactionIndex = some index then { self with cursorTransactionIndex := none }
  else self

/-- The page is full when it has as many entries as the capacity. -/
def push (self : TfaScan) (capacity : Nat) (entry : TfaEntry) : TfaScan := { self with
  entries := self.entries ++ [entry]
  finished := self.entries.length + 1 ≠ capacity }

/-- The loop over the statuses of one slot. -/
def takeRow (desc : Bool) (capacity : Nat)
    (record : SignatureStatus → RpcConfirmedTransactionStatusWithSignature) :
    List SignatureStatus → TfaScan → TfaScan
  | [], self => self
  | item :: rest, self =>
      if self.skips desc item.transactionIndex then
        takeRow desc capacity record rest (self.skip item.transactionIndex)
      else
        let self := self.push capacity (TfaEntry.new record item)
        if self.finished then takeRow desc capacity record rest self else self

end TfaScan

/-- The scan stops behind this slot. -/
def outOfRange (desc : Bool) (stopSlot : Option Nat) (slot : Nat) : Bool :=
  stopSlot.any fun stop => if desc then slot < stop else stop < slot

namespace Rocksdb

/-- The loop reads the rows of the address; a row lists the newest transaction first. -/
def transactionsLoop (addressHash : HashedKey) (desc : Bool) (stopSlot : Option Nat)
    (capacity : Nat) : List (SfaKey × List SignatureStatus) → TfaScan → TfaScan
  | [], scan => scan
  | (key, value) :: rest, scan =>
      if (ofLex key).1 ≠ addressHash.toNat then scan
      else if outOfRange desc stopSlot (ofLex key).2 then scan
      else
        let scan := scan.takeRow desc capacity (indexRecord (ofLex key).2)
          (if desc then value else value.reverse)
        if scan.finished then transactionsLoop addressHash desc stopSlot capacity rest scan else scan

/-- The iterator goes down or up from the row of the slot. -/
def rowsFrom (self : Rocksdb) (addressHash : HashedKey) (slot : Nat) (desc : Bool) :
    List (SfaKey × List SignatureStatus) :=
  if desc then (self.sfaIndex.entries.filter fun entry =>
    entry.1 ≤ SfaKey.concat addressHash slot).reverse
  else self.sfaIndex.entries.filter fun entry => SfaKey.concat addressHash slot ≤ entry.1

def spawnTransactionsForAddress (self : Rocksdb) (keys : HashedKeys) (address : Pubkey) (slot : Nat)
    (desc : Bool) (cursorTransactionIndex stopSlot : Option Nat) (capacity : Nat)
    (entries : List TfaEntry) : List TfaEntry × Bool :=
  let addressHash := keys.addressHash address
  let scan := transactionsLoop addressHash desc stopSlot capacity
    (self.rowsFrom addressHash slot desc) ⟨cursorTransactionIndex, entries, true⟩
  (scan.entries, scan.finished)

/-- The row of the slot has the place of the signature. -/
def spawnSfaPosition (self : Rocksdb) (keys : HashedKeys) (address : Pubkey) (slot : Nat)
    (signature : Signature) : Option Nat :=
  (self.sfaIndex.get (SfaKey.concat (keys.addressHash address) slot)).bind fun value =>
    (value.find? fun item => item.signature = signature).map fun item => item.transactionIndex

end Rocksdb

namespace StoredBlocksRead

/-- The lowest slot among the first times from the given one on. -/
def blockTimeToSlotLower (self : StoredBlocksRead) (gte : UnixTimestamp) : Option Nat :=
  (self.blockTimeIndex.entries.find? fun entry => toLex (gte, 0) ≤ entry.1).map
    fun entry => (ofLex entry.1).2

/-- The highest slot among the last times up to the given one. -/
def blockTimeToSlotUpper (self : StoredBlocksRead) (lte : UnixTimestamp) : Option Nat :=
  (self.blockTimeIndex.entries.reverse.find? fun entry => entry.1 ≤ toLex (lte, maxSlot)).map
    fun entry => (ofLex entry.1).2

end StoredBlocksRead

/-- The request ends with one of these. -/
inductive ReadResultTransactionsForAddress where
  | timeout
  | transactions (entries : List TfaEntry) (finished : Bool)
  | readError (error : String)
  deriving DecidableEq

/-- The place of a signature in the history of an address. -/
inductive ReadResultSignaturePosition where
  | timeout
  | position (position : Option (Nat × Nat))
  | readError (error : String)
  deriving DecidableEq

/-- One page of the transactions of an address; the cursor is a slot and a transaction index. -/
structure ReadRequestTransactionsForAddress where
  commitment : CommitmentLevel
  address : Pubkey
  desc : Bool
  cursor : Option (Nat × Nat)
  slotFilterLower : Option Nat
  slotFilterUpper : Option Nat
  blockTimeFilterLower : Option UnixTimestamp
  blockTimeFilterUpper : Option UnixTimestamp
  limit : Nat

namespace Reader

/-- Every commitment but the confirmed one counts as finalized. -/
def commitmentSlot (self : Reader) (commitment : CommitmentLevel) : Nat :=
  if commitment = .confirmed then self.storageProcessed.confirmedSlot
  else self.storageProcessed.finalizedSlot

/-- A bound on the block times only makes the range smaller. -/
def refineLower (self : Reader) (slot : Option Nat) (time : Option UnixTimestamp) : Option Nat :=
  match slot, time with
  | slot, none => slot
  | none, some time => self.blocks.blockTimeToSlotLower time
  | some slot, some time => some (max slot ((self.blocks.blockTimeToSlotLower time).getD 0))

def refineUpper (self : Reader) (slot : Option Nat) (time : Option UnixTimestamp) : Option Nat :=
  match slot, time with
  | slot, none => slot
  | none, some time => self.blocks.blockTimeToSlotUpper time
  | some slot, some time => some (min slot ((self.blocks.blockTimeToSlotUpper time).getD slot))

/-- The highest slot of the scan. -/
def upperSlot (self : Reader) (request : ReadRequestTransactionsForAddress) : Nat :=
  (self.refineUpper request.slotFilterUpper request.blockTimeFilterUpper).elim
    (self.commitmentSlot request.commitment) fun bound =>
      min bound (self.commitmentSlot request.commitment)

/-- A cursor replaces the bound at which the scan starts. -/
def scanRange (self : Reader) (request : ReadRequestTransactionsForAddress) : Nat × Option Nat :=
  let lower := self.refineLower request.slotFilterLower request.blockTimeFilterLower
  if request.desc then (request.cursor.elim (self.upperSlot request) Prod.fst, lower)
  else
    let firstAvailable := self.blocks.getBackSlot.getD 0
    (request.cursor.elim (max (lower.getD 0) firstAvailable) Prod.fst, some (self.upperSlot request))

/-- The statuses of the address in the block in process, which only a first descending page of the
confirmed commitment reads. -/
def tfaInProcess (self : Reader) (request : ReadRequestTransactionsForAddress) (slot : Nat) :
    Option (Nat × BlockWithBinary × List SignatureStatus) :=
  if request.desc && request.cursor.isNone && request.commitment = .confirmed then
    match self.confirmedInProcess with
    | some (inProcessSlot, some block) =>
        if inProcessSlot ≤ slot then
          (block.getSfa request.address).map fun sfa => (inProcessSlot, block, sfa.signatures)
        else none
    | _ => none
  else none

/-- The last stage adds the block times; an entry whose block is not there is dropped. -/
def addTfaBlockTimes (self : Reader) : List TfaEntry → Bool → Except String (List TfaEntry × Bool)
  | [], finished => .ok ([], finished)
  | entry :: rest, finished => do
      match ← self.addBlockTime entry.signature with
      | some signature => do
          let (entries, finished) ← self.addTfaBlockTimes rest finished
          .ok ({ entry with signature } :: entries, finished)
      | none => self.addTfaBlockTimes rest false

/-- The second stage reads the index, and the third one adds the block times. -/
def transactionsForAddress2 (self : Reader) (db : Rocksdb) (keys : HashedKeys)
    (expired : Nat → Bool) (request : ReadRequestTransactionsForAddress) (slot : Nat)
    (stopSlot : Option Nat) (entries : List TfaEntry) : ReadResultTransactionsForAddress :=
  if expired 2 then .timeout
  else
    let (entries, finished) := db.spawnTransactionsForAddress keys request.address slot request.desc
      (request.cursor.map Prod.snd) stopSlot request.limit entries
    if expired 3 then .timeout
    else
      match self.addTfaBlockTimes entries finished with
      | .ok (entries, finished) => .transactions entries finished
      | .error error => .readError error

/-- The request `ReadRequest::TransactionsForAddress` with its three stages on a storage that does
not change. -/
def processTransactionsForAddress (self : Reader) (db : Rocksdb) (keys : HashedKeys)
    (expired : Nat → Bool) (request : ReadRequestTransactionsForAddress) :
    ReadResultTransactionsForAddress :=
  if expired 1 then .timeout
  else
    let (slot, stopSlot) := self.scanRange request
    match self.tfaInProcess request slot with
    | some (inProcessSlot, block, statuses) =>
        let scan := TfaScan.takeRow request.desc request.limit (inProcessRecord inProcessSlot block)
          statuses ⟨none, [], true⟩
        if scan.finished then
          self.transactionsForAddress2 db keys expired request (inProcessSlot - 1) stopSlot scan.entries
        else .transactions scan.entries false
    | none => self.transactionsForAddress2 db keys expired request slot stopSlot []

/-- The request `ReadRequest::SignaturePosition` with its two stages. -/
def processSignaturePosition (db : Rocksdb) (keys : HashedKeys) (expired : Nat → Bool)
    (address : Pubkey) (signature : Signature) : ReadResultSignaturePosition :=
  if expired 1 then .timeout
  else
    match db.transactionIndex.get (keys.signatureKey signature) with
    | none => .position none
    | some index =>
        if expired 2 then .timeout
        else .position ((db.spawnSfaPosition keys address index.slot signature).map
          fun transactionIndex => (index.slot, transactionIndex))

end Reader

end Alpamayo
