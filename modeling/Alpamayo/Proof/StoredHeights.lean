import Alpamayo.Proof.StoreRoom

/-!
This file shows what the calls of the writer keep of every cell and of every record.
-/

namespace Alpamayo

variable {holds : StoredBlock → Prop} {slot : Nat} {block : StoredBlock}

/-- The cell of a pushed block has the property at any place. -/
def Pushable (holds : StoredBlock → Prop) (slot : Nat) (pushed : Option BlockWithBinary) : Prop :=
  ∀ cell, CellOf slot pushed cell → holds cell

namespace StoredBlocksWrite

variable {self : StoredBlocksWrite}

theorem every_pushBlockFront2 (every : self.blocks.Every holds) (known : holds block) :
    (self.pushBlockFront2 block).2.blocks.Every holds := by
  simp only [pushBlockFront2]
  split
  · exact every
  · rw [updateTotal_blocks]
    exact every.pushFront known

theorem every_pushBlockBack2 (every : self.blocks.Every holds) (known : holds block) :
    (self.pushBlockBack2 block).2.blocks.Every holds := by
  simp only [pushBlockBack2]
  split
  · exact every
  · rw [updateTotal_blocks]
    exact every.pushBack known

end StoredBlocksWrite

/-- A removal from the ring empties a cell. -/
theorem Store.every_popRing {self : Store} {side : VecSide} {blocks : StoredBlocksWrite}
    (every : self.blocks.blocks.Every holds) (absent : holds StoredBlock.newNoexists)
    (popped : self.popRing side = some (block, blocks)) : blocks.blocks.Every holds := by
  cases side with
  | back =>
      simp only [popRing, StoredBlocksWrite.popBlockBack] at popped
      split at popped
      · cases popped
        exact every.popBack absent
      · cases popped
  | front =>
      simp only [popRing, StoredBlocksWrite.popBlockFront] at popped
      split at popped
      · cases popped
        exact every.popFront absent
      · cases popped

namespace Rocksdb

variable {db after : Rocksdb}

/-- Every record gives a cell with the property. -/
def Every (holds : StoredBlock → Prop) (db : Rocksdb) : Prop :=
  ∀ slot value, db.slotBasicIndex.get slot = some value → holds (storedBlockOf slot value)

/-- The record of a pushed block gives its cell. -/
theorem Every.slotAdd (every : db.Every holds) (data : Option (BlockWithBinary × StorageId × Nat))
    (known : Pushable holds slot (data.map Prod.fst)) : (db.slotAdd slot data).Every holds := by
  intro other value found
  simp only [Rocksdb.slotAdd, SortedMap.get_insert] at found
  split at found
  · rename_i same
    cases found
    subst same
    cases data with
    | none => exact known _ .dead
    | some placed => exact known _ (.live placed.1 placed.2.1 placed.2.2)
  · exact every other value found

/-- A removed slot loses its record. -/
theorem Every.spawnRemoveSlot {dead : Bool} (every : db.Every holds)
    (removed : db.spawnRemoveSlot slot dead = .ok after) : after.Every holds := by
  have basic : after.slotBasicIndex = db.slotBasicIndex.erase slot := by
    unfold Rocksdb.spawnRemoveSlot at removed
    split at removed
    · cases removed
      rfl
    · split at removed
      · cases removed
      · cases removed
        rfl
  intro other value found
  rw [basic, SortedMap.get_erase] at found
  split at found
  · cases found
  · exact every other value found

end Rocksdb

namespace Store

variable {self : Store} {added : BlockWithBinary} {turn : Nat}

/-- Every cell of the ring and every record of a slot has the property. -/
structure Every (holds : StoredBlock → Prop) (store : Store) : Prop where
  cells : store.blocks.blocks.Every holds
  records : store.db.Every holds

/-- A removal that fails may already have emptied its cell. -/
theorem Every.popBlock (every : self.Every holds) (absent : holds StoredBlock.newNoexists)
    (side : VecSide) : (self.popBlock side).2.Every holds := by
  unfold Store.popBlock
  split
  · exact every
  · rename_i block blocks popped
    have cells := every_popRing every.cells absent popped
    dsimp only
    split
    · exact ⟨cells, every.records⟩
    · rename_i db removed
      split
      · exact ⟨cells, every.records.spawnRemoveSlot removed⟩
      · exact ⟨cells, every.records.spawnRemoveSlot removed⟩

theorem Every.takeTurn (every : self.Every holds) (slot : Nat) (added : BlockWithBinary)
    (pending : Option Nat) : (self.takeTurn slot added pending).1.Every holds := by
  rcases pending with _ | _ | turn
  · exact every
  · exact ⟨every.cells, every.records⟩
  · exact every

/-- The search for a place only removes blocks. -/
theorem Every.placeFront (every : self.Every holds) (absent : holds StoredBlock.newNoexists)
    (slot : Nat) (added : BlockWithBinary) (fuel : Nat) (pending : Option Nat) :
    (self.placeFront slot added fuel pending).2.Every holds := by
  induction fuel generalizing self pending with
  | zero => exact every
  | succ fuel ih =>
      have turned := every.takeTurn slot added pending
      unfold Store.placeFront
      generalize self.takeTurn slot added pending = taken at turned ⊢
      obtain ⟨indexed, pending'⟩ := taken
      dsimp only at turned ⊢
      split
      · exact ⟨turned.cells, turned.records⟩
      · split
        · exact ⟨turned.cells, turned.records⟩
        · exact ⟨turned.cells, turned.records⟩
      · rename_i files disk refused
        have start : Store.Every holds { indexed with files, disk } := ⟨turned.cells, turned.records⟩
        have popped := start.popBlock absent .back
        split
        · rename_i failed
          rw [Store.popBlockBack] at failed
          rw [failed] at popped
          exact popped
        · rename_i removed
          rw [Store.popBlockBack] at removed
          rw [removed] at popped
          exact ih popped pending'

/-- A push at the front adds at most its own cell and record. -/
theorem Every.pushBlockFront (every : self.Every holds) (absent : holds StoredBlock.newNoexists)
    {pushed : Option BlockWithBinary} (known : Pushable holds slot pushed) :
    (self.pushBlockFront turn slot pushed).2.Every holds := by
  unfold Store.pushBlockFront
  split
  · exact every
  · have room : (if self.blocks.isFull then self.popBlockBack else (.ok (), self)).2.Every holds := by
      split
      · exact every.popBlock absent .back
      · exact every
    generalize (if self.blocks.isFull then self.popBlockBack else (.ok (), self)) = made at room ⊢
    obtain ⟨failed | _, after⟩ := made
    · exact room
    · cases pushed with
      | none =>
          exact ⟨StoredBlocksWrite.every_pushBlockFront2 room.cells (known _ .dead),
            room.records.slotAdd none known⟩
      | some added =>
          have placed := room.placeFront absent slot added (after.blocks.blocks.size + 1) (some turn)
          dsimp only
          unfold Store.pushFrontBlock
          generalize after.placeFront slot added (after.blocks.blocks.size + 1) (some turn) = outcome
            at placed ⊢
          obtain ⟨failed | ⟨storageId, offset⟩, final⟩ := outcome
          · exact placed
          · exact ⟨StoredBlocksWrite.every_pushBlockFront2 placed.cells
              (known _ (.live added storageId offset)),
              placed.records.slotAdd (some (added, storageId, offset)) known⟩

/-- A push at the back adds at most its own cell and record. -/
theorem Every.pushBlockBack (every : self.Every holds) {pushed : Option BlockWithBinary}
    (known : Pushable holds slot pushed) : (self.pushBlockBack turn slot pushed).2.Every holds := by
  unfold Store.pushBlockBack
  split
  · exact every
  · split
    · exact every
    · cases pushed with
      | none =>
          exact ⟨StoredBlocksWrite.every_pushBlockBack2 every.cells (known _ .dead),
            every.records.slotAdd none known⟩
      | some added =>
          have indexed : (self.db.addIndexes slot added).Every holds := every.records
          dsimp only
          split
          · refine ⟨every.cells, ?_⟩
            dsimp only
            split
            · exact indexed
            · exact every.records
          · exact ⟨every.cells, indexed⟩
          · rename_i storageId offset files disk placed
            exact ⟨StoredBlocksWrite.every_pushBlockBack2 every.cells
              (known _ (.live added storageId offset)),
              indexed.slotAdd (some (added, storageId, offset)) known⟩

/-- The cells of a call are those of its push. -/
def CallPushable (holds : StoredBlock → Prop) : StoreCall → Prop
  | .pushBlockFront _ slot block | .pushBlockBack _ slot block => Pushable holds slot block
  | .popBlockFront | .popBlockBack => True

/-- A call keeps a property of every cell and every record, whether or not it fails. -/
theorem Every.call (every : self.Every holds) (absent : holds StoredBlock.newNoexists)
    {call : StoreCall} (known : CallPushable holds call) : (self.call call).2.Every holds := by
  cases call with
  | pushBlockFront turn slot block => exact every.pushBlockFront absent known
  | pushBlockBack turn slot block => exact every.pushBlockBack known
  | popBlockFront => exact every.popBlock absent .front
  | popBlockBack => exact every.popBlock absent .back

end Store

end Alpamayo
