import Alpamayo.Storage.Files

/-!
This file models the index database and the writer operations that keep it with the ring and the files.
-/

namespace Alpamayo

/-- The record of a slot tells where its block lies. -/
structure SlotBasicIndexValue where
  dead : Bool := false
  blockTime : Option UnixTimestamp := none
  blockHeight : Option Nat := none
  storageId : StorageId := 0
  offset : Nat := 0
  size : Nat := 0
  deriving DecidableEq

/-- The record of a slot lists the keys of its other index records. -/
structure SlotExtraIndexValue where
  transactions : List HashedKey
  sfa : List HashedKey
  deriving DecidableEq

/-- The record of a transaction tells where it lies in its block. -/
structure TransactionIndexValue where
  slot : Nat
  offset : Nat
  size : Nat
  err : Option TransactionError
  index : Nat
  deriving DecidableEq

/-- The database has one map for each column family of the stored blocks. -/
structure Rocksdb where
  slotBasicIndex : SortedMap Nat SlotBasicIndexValue
  slotExtraIndex : SortedMap Nat SlotExtraIndexValue
  transactionIndex : HashMap HashedKey TransactionIndexValue
  sfaIndex : SortedMap SfaKey (List SignatureStatus)

namespace Rocksdb

def empty : Rocksdb := ⟨SortedMap.empty, SortedMap.empty, HashMap.empty, SortedMap.empty⟩

/-- One batch stores the records that belong to the contents of a block. -/
def addIndexes (self : Rocksdb) (slot : Nat) (block : BlockWithBinary) : Rocksdb := { self with
  slotExtraIndex := self.slotExtraIndex.insert slot {
    transactions := block.txsOffset.map fun tx => tx.key
    sfa := block.sfa.map fun entry => entry.2.addressHash }
  transactionIndex := block.txsOffset.foldl (fun map tx =>
    map.insert tx.key ⟨slot, tx.offset, tx.size, tx.err, tx.index⟩) self.transactionIndex
  sfaIndex := block.sfa.foldl (fun map entry =>
    map.insert entry.2.key entry.2.signatures) self.sfaIndex }

/-- A slot without a block gets a dead record. -/
def slotAdd (self : Rocksdb) (slot : Nat) (data : Option (BlockWithBinary × StorageId × Nat)) :
    Rocksdb := { self with
  slotBasicIndex := self.slotBasicIndex.insert slot (match data with
    | some (block, storageId, offset) => {
        dead := false
        blockTime := block.blockTime
        blockHeight := block.blockHeight
        storageId
        offset
        size := block.protobuf.length }
    | none => { dead := true }) }

/-- The batch of a live slot removes the records that its extra record lists. -/
def spawnRemoveSlot (self : Rocksdb) (slot : Nat) (dead : Bool) : Except StorageError Rocksdb :=
  let basic := self.slotBasicIndex.erase slot
  if dead then .ok { self with slotBasicIndex := basic }
  else
    match self.slotExtraIndex.get slot with
    | none => .error (.existedSlotNotFound slot)
    | some block => .ok {
        slotBasicIndex := basic
        slotExtraIndex := self.slotExtraIndex.erase slot
        transactionIndex := block.transactions.foldl (fun map key => map.remove key)
          self.transactionIndex
        sfaIndex := block.sfa.foldl (fun map hash => map.erase (SfaKey.concat hash slot))
          self.sfaIndex }

/-- The record of a slot gives the cell of the ring at the start. -/
def storedBlockOf (slot : Nat) (value : SlotBasicIndexValue) : StoredBlock where
  present := true
  dead := value.dead
  slot := slot
  blockTime := value.blockTime
  blockHeight := value.blockHeight
  storageId := value.storageId
  offset := value.offset
  size := value.size

/-- A slot must follow the one before it. -/
def checkHole (currentSlot : Option Nat) (slot : Nat) : Except StorageError Unit :=
  match currentSlot with
  | none => .ok ()
  | some currentSlot => do
      let nextSlot ← addOne currentSlot
      if nextSlot = slot then .ok () else .error (.foundHole slot nextSlot)

/-- The loop reads the records in the order of their slots. -/
def spawnSlotsLoop (currentSlot : Option Nat) :
    List (Nat × SlotBasicIndexValue) → Except StorageError (List StoredBlock)
  | [] => .ok []
  | (slot, value) :: rest => do
      checkHole currentSlot slot
      let slots ← spawnSlotsLoop (some slot) rest
      .ok (storedBlockOf slot value :: slots)

def spawnSlots (self : Rocksdb) : Except StorageError (List StoredBlock) :=
  spawnSlotsLoop none self.slotBasicIndex.entries

end Rocksdb

/-- The store is everything that the write operations change. -/
structure Store where
  db : Rocksdb
  files : StorageFilesWrite
  disk : Disk
  blocks : StoredBlocksWrite

/-- The new slot must come right before the lowest stored slot. -/
def checkBackSlot (blocks : StoredBlocksWrite) (slot : Nat) : Except StorageError Unit :=
  match blocks.getBackSlot with
  | none => .ok ()
  | some backSlot => do
      let nextSlot ← subOne backSlot
      if nextSlot = slot then .ok () else .error (.pushBackInvalidSlot slot nextSlot)

/-- A live block must have the height right before the lowest stored height. -/
def checkBackHeight (blocks : StoredBlocksWrite) (slot : Nat) (block : Option BlockWithBinary) :
    Except StorageError Unit := do
  match ← blocks.getBackHeight, block with
  | some (backSlot, backHeight), some block =>
      match block.blockHeight with
      | none => .error (.panicked "should have height")
      | some blockHeight => do
          let nextHeight ← addOne blockHeight
          if nextHeight = backHeight then .ok ()
          else .error (.pushBackInvalidHeight blockHeight slot backHeight backSlot)
  | _, _ => .ok ()

/-- The new slot must come right after the highest stored slot. -/
def checkFrontSlot (blocks : StoredBlocksWrite) (slot : Nat) : Except StorageError Unit :=
  match blocks.getFrontSlot with
  | none => .ok ()
  | some frontSlot => do
      let nextSlot ← addOne frontSlot
      if nextSlot = slot then .ok () else .error (.pushFrontInvalidSlot slot nextSlot)

/-- A live block must have the height right after the highest stored height. -/
def checkFrontHeight (blocks : StoredBlocksWrite) (slot : Nat) (block : Option BlockWithBinary) :
    Except StorageError Unit := do
  match ← blocks.getFrontHeight, block with
  | some (frontSlot, frontHeight), some block =>
      match block.blockHeight with
      | none => .error (.panicked "should have height")
      | some blockHeight => do
          let nextHeight ← addOne frontHeight
          if nextHeight = blockHeight then .ok ()
          else .error (.pushFrontInvalidHeight blockHeight slot frontHeight frontSlot)
  | _, _ => .ok ()

namespace Store

/-- The side selects the removal from the ring. -/
def popRing (self : Store) : VecSide → Option (StoredBlock × StoredBlocksWrite)
  | .back => self.blocks.popBlockBack
  | .front => self.blocks.popBlockFront

/-- The ring loses its cell first, then the readers, the database, and the file follow. -/
def popBlock (self : Store) (side : VecSide) : Except StorageError Unit × Store :=
  match self.popRing side with
  | none => (.error .noBlocksToRemove, self)
  | some (block, blocks) =>
      let self := { self with blocks := blocks.send (match side with
        | .back => .confirmedBlockPopBack
        | .front => .confirmedBlockPopFront) }
      match self.db.spawnRemoveSlot block.slot block.dead with
      | .error error => (.error error, self)
      | .ok db =>
          let self := { self with db }
          if block.size = 0 then (.ok (), self)
          else
            let (result, files) := match side with
              | .back => self.files.popBlockBack block
              | .front => self.files.popBlockFront block
            (result, { self with files })

def popBlockBack (self : Store) : Except StorageError Unit × Store := self.popBlock .back

def popBlockFront (self : Store) : Except StorageError Unit × Store := self.popBlock .front

/-- A dead slot takes a record and a cell but no place in a file. -/
def pushBackDead (self : Store) (slot : Nat) : Except StorageError Bool × Store :=
  let (result, blocks) := self.blocks.pushBlockBackDead slot
  (result.map fun _ => true, { self with db := self.db.slotAdd slot none, blocks })

/-- A placed block takes its record and its cell. -/
def pushBackStored (self : Store) (slot : Nat) (block : BlockWithBinary) (storageId : StorageId)
    (offset : Nat) : Except StorageError Bool × Store :=
  let (result, blocks) := self.blocks.pushBlockBackConfirmed slot block.blockTime
    block.blockHeight storageId offset block.protobuf.length
  (result.map fun _ => true,
    { self with db := self.db.slotAdd slot (some (block, storageId, offset)), blocks })

/-- The two joined futures put the index records before the file (turn zero) or after it. -/
def pushBlockBack (self : Store) (turn slot : Nat) (block : Option BlockWithBinary) :
    Except StorageError Bool × Store :=
  match checkBackSlot self.blocks slot >>= fun _ => checkBackHeight self.blocks slot block with
  | .error error => (.error error, self)
  | .ok () =>
      if self.blocks.isFull then (.ok false, self)
      else
        match block with
        | none => self.pushBackDead slot
        | some block =>
            let indexed := self.db.addIndexes slot block
            match self.files.pushBlockBack self.disk block.protobuf with
            | (.error error, files, disk) =>
                (.error error, { self with
                  files, disk, db := if turn = 0 then indexed else self.db })
            | (.ok none, files, disk) => (.ok false, { self with files, disk, db := indexed })
            | (.ok (some (storageId, offset)), files, disk) =>
                Store.pushBackStored { self with files, disk, db := indexed } slot block
                  storageId offset

/-- A dead slot takes a record and a cell but no place in a file. -/
def pushFrontDead (self : Store) (slot : Nat) : Except StorageError Unit × Store :=
  let (result, blocks) := self.blocks.pushBlockFrontDead slot
  (result, { self with db := self.db.slotAdd slot none, blocks })

/-- A placed block takes its record and its cell. -/
def pushFrontStored (self : Store) (slot : Nat) (block : BlockWithBinary) (storageId : StorageId)
    (offset : Nat) : Except StorageError Unit × Store :=
  let (result, blocks) := self.blocks.pushBlockFrontConfirmed slot block.blockTime
    block.blockHeight storageId offset block.protobuf.length
  (result, { self with db := self.db.slotAdd slot (some (block, storageId, offset)), blocks })

/-- The index records of a joined future are written when their turn comes. -/
def takeTurn (self : Store) (slot : Nat) (block : BlockWithBinary) : Option Nat → Store × Option Nat
  | none => (self, none)
  | some 0 => ({ self with db := self.db.addIndexes slot block }, none)
  | some (turn + 1) => (self, some turn)

/-- The loop removes blocks from the back until a file has room; each round removes one cell of the
ring, so the fuel of one round more than the cells is never used up. -/
def placeFront (slot : Nat) (block : BlockWithBinary) :
    Nat → Option Nat → Store → Except StorageError (StorageId × Nat) × Store
  | 0, _, self => (.error .noBlocksToRemove, self)
  | fuel + 1, turn, self =>
      let (self, turn) := self.takeTurn slot block turn
      match self.files.pushBlockFront self.disk block.protobuf with
      | (.error error, files, disk) => (.error error, { self with files, disk })
      | (.ok (some place), files, disk) =>
          let self := { self with files, disk }
          (.ok place, match turn with
            | none => self
            | some _ => { self with db := self.db.addIndexes slot block })
      | (.ok none, files, disk) =>
          match Store.popBlockBack { self with files, disk } with
          | (.error error, self) => (.error error, self)
          | (.ok (), self) => placeFront slot block fuel turn self

/-- The block goes to a file and the ring once the oldest blocks have made room. -/
def pushFrontBlock (self : Store) (turn slot : Nat) (block : BlockWithBinary) :
    Except StorageError Unit × Store :=
  match self.placeFront slot block (self.blocks.blocks.size + 1) (some turn) with
  | (.error error, self) => (.error error, self)
  | (.ok (storageId, offset), self) => self.pushFrontStored slot block storageId offset

/-- A full ring loses its lowest block before the new slot is stored. -/
def pushBlockFront (self : Store) (turn slot : Nat) (block : Option BlockWithBinary) :
    Except StorageError Unit × Store :=
  match checkFrontSlot self.blocks slot >>= fun _ => checkFrontHeight self.blocks slot block with
  | .error error => (.error error, self)
  | .ok () =>
      match if self.blocks.isFull then self.popBlockBack else (.ok (), self) with
      | (.error error, self) => (.error error, self)
      | (.ok (), self) =>
          match block with
          | none => self.pushFrontDead slot
          | some block => self.pushFrontBlock turn slot block

end Store

end Alpamayo
