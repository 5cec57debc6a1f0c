import Alpamayo.Proof.FilesReadBack
import Alpamayo.Proof.StoreRing
import Alpamayo.Storage.Steps
import Mathlib.Logic.Relation

/-!
This file says what each step of the writer changes and defines the runs of the writer.
-/

namespace Alpamayo

namespace Push

variable {push next : Push} {store after : Store}

/-- The records of the contents change the database and the mark of the push. -/
theorem addIndexes_eq (indexed : push.addIndexes store = some (after, next)) :
    ∃ block, push.block = some block ∧ push.indexed = false ∧
      (push.stage = .write ∨ (∃ storageId offset, push.stage = .written storageId offset) ∨
        push.stage = .refused) ∧
      after = { store with db := store.db.addIndexes push.slot block } ∧
      next = { push with indexed := true } := by
  simp only [addIndexes] at indexed
  split at indexed
  · cases indexed
    exact ⟨_, ‹_›, ‹_›, Or.inl ‹_›, rfl, rfl⟩
  · cases indexed
    exact ⟨_, ‹_›, ‹_›, Or.inr (Or.inl ⟨_, _, ‹_›⟩), rfl, rfl⟩
  · cases indexed
    exact ⟨_, ‹_›, ‹_›, Or.inr (Or.inr ‹_›), rfl, rfl⟩
  · cases indexed

/-- The records of the contents leave the ring alone. -/
theorem addIndexes_blocks (indexed : push.addIndexes store = some (after, next)) :
    after.blocks = store.blocks := by
  obtain ⟨block, -, -, -, rfl, -⟩ := addIndexes_eq indexed
  rfl

end Push

namespace Writer

/-- A full ring or a block without a place makes a push evict the lowest block. -/
inductive Evicts (self : Writer) (push : Push) : Push → StorageFilesWrite → Prop where
  | full (stage : push.stage = .room) (full : self.store.blocks.isFull = true) :
      Evicts self push { push with stage := .write } self.store.files
  | unplaced (block : BlockWithBinary) (files : StorageFilesWrite) (stage : push.stage = .write)
      (known : push.block = some block)
      (refused : push.attempt self.store block = (.ok none, files, self.store.disk)) :
      Evicts self push push files

/-- Each event changes the writer in one of these ways. -/
inductive Change (self : Writer) : WriterEvent → Writer → Prop where
  | send (message : ReadWriteSyncMessage) (idle : self.task = .idle)
      (report : message.isReport = true) :
      Change self (.send message)
        { self with store := { self.store with blocks := self.store.blocks.send message } }
  | popEmpty (side : VecSide) (idle : self.task = .idle) (empty : self.store.popRing side = none) :
      Change self (.popBlock side) { self with task := .stopped }
  | popBlock (side : VecSide) (block : StoredBlock) (blocks : StoredBlocksWrite)
      (idle : self.task = .idle) (popped : self.store.popRing side = some (block, blocks)) :
      Change self (.popBlock side)
        { self with
          store := { self.store with blocks }
          task := .pop ⟨side, block, .announce, none⟩
          evicted := self.evicted || side = .back }
  | frontRefused (slot : Nat) (block : Option BlockWithBinary) (idle : self.task = .idle) :
      Change self (.pushBlockFront slot block)
        { self with
          store := { self.store with blocks := self.store.blocks.send (.blockConfirmed slot block) }
          task := .stopped }
  | pushBlockFront (slot : Nat) (block : Option BlockWithBinary) (idle : self.task = .idle)
      (checked : checkFrontSlot self.store.blocks slot = .ok ()) :
      Change self (.pushBlockFront slot block)
        { self with
          store := { self.store with blocks := self.store.blocks.send (.blockConfirmed slot block) }
          task := .push ⟨.front, slot, block, .room, false⟩ }
  | backRefused (slot : Nat) (block : Option BlockWithBinary) (task : Task)
      (idle : self.task = .idle) (ends : task = .idle ∨ task = .stopped) :
      Change self (.pushBlockBack slot block) { self with task }
  | pushBlockBack (slot : Nat) (block : Option BlockWithBinary) (idle : self.task = .idle)
      (checked : checkBackSlot self.store.blocks slot = .ok ())
      (room : self.store.blocks.isFull = false) :
      Change self (.pushBlockBack slot block)
        { self with task := .push ⟨.back, slot, block, .write, false⟩ }
  | announce (side : VecSide) (block : StoredBlock) (push : Option Push)
      (known : self.task = .pop ⟨side, block, .announce, push⟩) :
      Change self .announce
        { self with
          store := { self.store with blocks := self.store.blocks.send (.popMessage side) }
          task := .pop ⟨side, block, .remove, push⟩ }
  | removeFailed (side : VecSide) (block : StoredBlock) (push : Option Push) (error : StorageError)
      (known : self.task = .pop ⟨side, block, .remove, push⟩)
      (failed : self.store.db.spawnRemoveSlot block.slot block.dead = .error error) :
      Change self .remove { self with task := .stopped }
  | remove (side : VecSide) (block : StoredBlock) (push : Option Push) (db : Rocksdb)
      (known : self.task = .pop ⟨side, block, .remove, push⟩)
      (removed : self.store.db.spawnRemoveSlot block.slot block.dead = .ok db) :
      Change self .remove
        { self with store := { self.store with db }, task := .pop ⟨side, block, .free, push⟩ }
  | freeEmpty (side : VecSide) (block : StoredBlock) (push : Option Push)
      (known : self.task = .pop ⟨side, block, .free, push⟩) (empty : block.size = 0) :
      Change self .free { self with task := resume push }
  | freeFailed (side : VecSide) (block : StoredBlock) (push : Option Push) (error : StorageError)
      (files : StorageFilesWrite) (known : self.task = .pop ⟨side, block, .free, push⟩)
      (nonempty : block.size ≠ 0)
      (failed : self.store.files.popBlock block side = (.error error, files)) :
      Change self .free { self with store := { self.store with files }, task := .stopped }
  | free (side : VecSide) (block : StoredBlock) (push : Option Push) (files : StorageFilesWrite)
      (known : self.task = .pop ⟨side, block, .free, push⟩) (nonempty : block.size ≠ 0)
      (freed : self.store.files.popBlock block side = (.ok (), files)) :
      Change self .free { self with store := { self.store with files }, task := resume push }
  | evictEmpty (push next : Push) (files : StorageFilesWrite) (known : self.task = .push push)
      (front : push.side = .front) (evicts : self.Evicts push next files)
      (empty : self.store.popRing .back = none) :
      Change self .evict { self with store := { self.store with files }, task := .stopped }
  | evict (push next : Push) (files : StorageFilesWrite) (block : StoredBlock)
      (blocks : StoredBlocksWrite) (known : self.task = .push push) (front : push.side = .front)
      (evicts : self.Evicts push next files)
      (popped : self.store.popRing .back = some (block, blocks)) :
      Change self .evict
        { self with
          store := { self.store with files, blocks }
          task := .pop ⟨.back, block, .announce, some next⟩
          evicted := true }
  | roomy (side : VecSide) (slot : Nat) (block : Option BlockWithBinary) (indexed : Bool)
      (known : self.task = .push ⟨side, slot, block, .room, indexed⟩)
      (room : self.store.blocks.isFull = false) :
      Change self .roomy { self with task := .push ⟨side, slot, block, .write, indexed⟩ }
  | index (push next : Push) (store : Store) (known : self.task = .push push)
      (indexed : push.addIndexes self.store = some (store, next)) :
      Change self .index { self with store, task := .push next }
  | indexDuring (side : VecSide) (block : StoredBlock) (stage : PopStage) (push next : Push)
      (store : Store) (known : self.task = .pop ⟨side, block, stage, some push⟩)
      (indexed : push.addIndexes self.store = some (store, next)) :
      Change self .index { self with store, task := .pop ⟨side, block, stage, some next⟩ }
  | tear (chosen : Path → Nat → Bool) (push : Push) (block : BlockWithBinary)
      (place : StorageId × Nat) (files : StorageFilesWrite) (disk : Disk)
      (known : self.task = .push push) (stage : push.stage = .write)
      (isBlock : push.block = some block)
      (placed : push.attempt self.store block = (.ok (some place), files, disk)) :
      Change self (.tear chosen)
        { self with store := { self.store with disk := Disk.mix chosen self.store.disk disk } }
  | writeFailed (push : Push) (block : BlockWithBinary) (error : StorageError)
      (files : StorageFilesWrite) (disk : Disk) (known : self.task = .push push)
      (stage : push.stage = .write) (isBlock : push.block = some block)
      (failed : push.attempt self.store block = (.error error, files, disk)) :
      Change self .write { self with store := { self.store with files, disk }, task := .stopped }
  | writeRefused (push : Push) (block : BlockWithBinary) (files : StorageFilesWrite)
      (known : self.task = .push push) (stage : push.stage = .write)
      (isBlock : push.block = some block) (back : push.side = .back)
      (refused : push.attempt self.store block = (.ok none, files, self.store.disk)) :
      Change self .write
        { self with
          store := { self.store with files }
          task := .push { push with stage := .refused } }
  | write (push : Push) (block : BlockWithBinary) (storageId : StorageId) (offset : Nat)
      (files : StorageFilesWrite) (disk : Disk) (known : self.task = .push push)
      (stage : push.stage = .write) (isBlock : push.block = some block)
      (placed : push.attempt self.store block = (.ok (some (storageId, offset)), files, disk)) :
      Change self .write
        { self with
          store := { self.store with files, disk }
          task := .push { push with stage := .written storageId offset } }
  | refuse (side : VecSide) (slot : Nat) (block : Option BlockWithBinary)
      (known : self.task = .push ⟨side, slot, block, .refused, true⟩) :
      Change self .refuse { self with task := .idle }
  | recordDead (push : Push) (known : self.task = .push push) (stage : push.stage = .write)
      (noBlock : push.block = none) :
      Change self .record
        { self with
          store := { self.store with db := self.store.db.slotAdd push.slot none }
          task := .push { push with stage := .recorded (StoredBlock.newDead push.slot) } }
  | record (push : Push) (block : BlockWithBinary) (storageId : StorageId) (offset : Nat)
      (known : self.task = .push push) (stage : push.stage = .written storageId offset)
      (isBlock : push.block = some block) (indexed : push.indexed = true) :
      Change self .record
        { self with
          store := { self.store with
            db := self.store.db.slotAdd push.slot (some (block, storageId, offset)) }
          task := .push { push with stage := .recorded (StoredBlock.newConfirmed push.slot
            block.blockTime block.blockHeight storageId offset block.protobuf.length) } }
  | storeFailed (push : Push) (cell : StoredBlock) (known : self.task = .push push)
      (stage : push.stage = .recorded cell)
      (failed : self.store.blocks.pushCell push.side cell = none) :
      Change self .store { self with task := .stopped }
  | store (push : Push) (cell : StoredBlock) (blocks : StoredBlocksWrite)
      (known : self.task = .push push) (stage : push.stage = .recorded cell)
      (stored : self.store.blocks.pushCell push.side cell = some blocks) :
      Change self .store
        { self with
          store := { self.store with blocks }
          task := .publish push.side
          stored := self.stored ++ [(cell, push.bytes)] }
  | publish (side : VecSide) (known : self.task = .publish side) :
      Change self .publish
        { self with
          store := { self.store with blocks := self.store.blocks.updateTotal side }
          task := .idle }

variable {self after : Writer}

/-- The removal at the back of a push takes a block or stops the writer. -/
theorem Evicts.change {push next : Push} {files : StorageFilesWrite} (known : self.task = .push push)
    (front : push.side = .front) (evicts : self.Evicts push next files) :
    Change self .evict
      (startPop { self with store := { self.store with files } } .back (some next)) := by
  unfold startPop
  cases popped : self.store.popRing .back with
  | none =>
      have same : Store.popRing { self.store with files } .back = none := popped
      rw [same]
      exact .evictEmpty push next files known front evicts popped
  | some found =>
      obtain ⟨block, blocks⟩ := found
      have same : Store.popRing { self.store with files } .back = some (block, blocks) := popped
      simp only [same, decide_true, Bool.or_true]
      exact .evict push next files block blocks known front evicts popped

/-- An eviction follows its two reasons. -/
theorem change_evict {push : Push} (known : self.task = .push push)
    (evicted : self.evict push = some after) : Change self .evict after := by
  unfold evict at evicted
  split at evicted
  · rename_i front stage
    split at evicted
    · cases evicted
      exact Evicts.change known front (.full stage ‹_›)
    · cases evicted
  · rename_i block front stage isBlock
    split at evicted
    · rename_i files disk refused
      cases evicted
      obtain ⟨-, -, rfl⟩ := StorageFilesWrite.pushBlock_none refused
      exact Evicts.change known front (.unplaced block files stage isBlock refused)
    · cases evicted
  · cases evicted

/-- A write has three results. -/
theorem change_write {push : Push} (known : self.task = .push push)
    (written : self.write push = some after) : Change self .write after := by
  unfold write at written
  split at written
  · rename_i block stage isBlock
    split at written
    · rename_i error files disk failed
      cases written
      exact .writeFailed push block error files disk known stage isBlock failed
    · rename_i files disk refused
      split at written
      · rename_i back
        cases written
        obtain ⟨-, -, rfl⟩ := StorageFilesWrite.pushBlock_none refused
        exact .writeRefused push block files known stage isBlock back refused
      · cases written
    · rename_i storageId offset files disk placed
      cases written
      exact .write push block storageId offset files disk known stage isBlock placed
  · cases written

/-- A removal starts at one side. -/
theorem change_popBlock (idle : self.task = .idle) (side : VecSide) :
    Change self (.popBlock side) (self.startPop side none) := by
  unfold startPop
  cases popped : self.store.popRing side with
  | none => exact .popEmpty side idle popped
  | some found => exact .popBlock side found.1 found.2 idle popped

/-- The two checks of a push at the front come after its announcement. -/
theorem change_pushBlockFront (idle : self.task = .idle) (slot : Nat)
    (block : Option BlockWithBinary) :
    Change self (.pushBlockFront slot block) (self.startFront slot block) := by
  unfold startFront
  dsimp only
  split
  · exact .frontRefused slot block idle
  · rename_i checked
    apply Change.pushBlockFront slot block idle
    obtain ⟨_, first, -⟩ := bind_eq_ok checked
    exact first

/-- The two checks of a push at the back and a full ring can end it. -/
theorem change_pushBlockBack (idle : self.task = .idle) (slot : Nat)
    (block : Option BlockWithBinary) :
    Change self (.pushBlockBack slot block) (self.startBack slot block) := by
  unfold startBack
  dsimp only
  split
  · exact .backRefused slot block _ idle (Or.inr rfl)
  · rename_i checked
    obtain ⟨_, first, -⟩ := bind_eq_ok checked
    cases room : self.store.blocks.isFull with
    | true =>
        rw [if_pos rfl]
        exact .backRefused slot block _ idle (Or.inl rfl)
    | false => exact .pushBlockBack slot block idle first room

/-- The records of a removed block must exist. -/
theorem change_remove {side : VecSide} {block : StoredBlock} {push : Option Push}
    (known : self.task = .pop ⟨side, block, .remove, push⟩) :
    Change self .remove (self.remove ⟨side, block, .remove, push⟩) := by
  unfold remove
  dsimp only
  split
  · rename_i error failed
    exact .removeFailed side block push error known failed
  · rename_i db removed
    exact .remove side block push db known removed

/-- A block with bytes frees them. -/
theorem change_free {side : VecSide} {block : StoredBlock} {push : Option Push}
    (known : self.task = .pop ⟨side, block, .free, push⟩) :
    Change self .free (self.free ⟨side, block, .free, push⟩) := by
  unfold free
  dsimp only
  split
  · exact .freeEmpty side block push known ‹_›
  · rename_i nonempty
    split
    · rename_i error files failed
      exact .freeFailed side block push error files known nonempty failed
    · rename_i files freed
      exact .free side block push files known nonempty freed

/-- A record needs the place of its block. -/
theorem change_record {push : Push} (known : self.task = .push push) {result : Store × Push}
    (recorded : push.record self.store = some result) :
    Change self .record { self with store := result.1, task := .push result.2 } := by
  unfold Push.record at recorded
  split at recorded
  · rename_i noBlock stage
    cases recorded
    exact .recordDead push known stage noBlock
  · rename_i block storageId offset isBlock stage indexed
    cases recorded
    exact .record push block storageId offset known stage isBlock indexed
  · cases recorded

/-- Every step of the writer is one of the changes. -/
theorem change_of_step {event : WriterEvent} (stepped : self.step event = some after) :
    Change self event after := by
  cases event with
  | send message =>
      simp only [step] at stepped
      split at stepped
      · split at stepped
        · cases stepped
          exact .send message ‹_› ‹_›
        · cases stepped
      · cases stepped
  | popBlock side =>
      simp only [step] at stepped
      split at stepped
      · cases stepped
        exact change_popBlock ‹_› side
      · cases stepped
  | pushBlockFront slot block =>
      simp only [step] at stepped
      split at stepped
      · cases stepped
        exact change_pushBlockFront ‹_› slot block
      · cases stepped
  | pushBlockBack slot block =>
      simp only [step] at stepped
      split at stepped
      · cases stepped
        exact change_pushBlockBack ‹_› slot block
      · cases stepped
  | announce =>
      simp only [step] at stepped
      split at stepped
      · cases stepped
        exact .announce _ _ _ ‹_›
      · cases stepped
  | remove =>
      simp only [step] at stepped
      split at stepped
      · cases stepped
        exact change_remove ‹_›
      · cases stepped
  | free =>
      simp only [step] at stepped
      split at stepped
      · cases stepped
        exact change_free ‹_›
      · cases stepped
  | evict =>
      simp only [step] at stepped
      split at stepped
      · exact change_evict ‹_› stepped
      · cases stepped
  | roomy =>
      simp only [step] at stepped
      split at stepped
      · split at stepped
        · cases stepped
        · cases stepped
          exact .roomy _ _ _ _ ‹_› (by simpa using ‹¬ _ = true›)
      · cases stepped
  | index =>
      simp only [step] at stepped
      split at stepped
      · obtain ⟨result, indexed, rfl⟩ := Option.map_eq_some_iff.mp stepped
        exact .index _ _ _ ‹_› indexed
      · obtain ⟨result, indexed, rfl⟩ := Option.map_eq_some_iff.mp stepped
        exact .indexDuring _ _ _ _ _ _ ‹_› indexed
      · cases stepped
  | tear chosen =>
      simp only [step] at stepped
      split at stepped
      · rename_i push known
        unfold tear at stepped
        split at stepped
        · split at stepped
          · cases stepped
            exact .tear chosen push _ _ _ _ known ‹_› ‹_› ‹_›
          · cases stepped
        · cases stepped
      · cases stepped
  | write =>
      simp only [step] at stepped
      split at stepped
      · exact change_write ‹_› stepped
      · cases stepped
  | refuse =>
      simp only [step] at stepped
      split at stepped
      · cases stepped
        exact .refuse _ _ _ ‹_›
      · cases stepped
  | record =>
      simp only [step] at stepped
      split at stepped
      · obtain ⟨result, recorded, rfl⟩ := Option.map_eq_some_iff.mp stepped
        exact change_record ‹_› recorded
      · cases stepped
  | store =>
      simp only [step] at stepped
      split at stepped
      · rename_i side slot block cell indexed known
        cases stepped
        unfold enter
        dsimp only
        split
        · exact .storeFailed _ cell known rfl ‹_›
        · exact .store _ cell _ known rfl ‹_›
      · cases stepped
  | publish =>
      simp only [step] at stepped
      split at stepped
      · cases stepped
        exact .publish _ ‹_›
      · cases stepped

end Writer

/-- A removal that left the ring may wait for its message. -/
def Task.unannounced : Task → Option VecSide
  | .pop ⟨side, _, .announce, _⟩ => some side
  | _ => none

namespace Writer

variable {self after : Writer}

/-- A change that keeps the ring sends at most one message. -/
inductive Sends (self : Writer) (event : WriterEvent) (after : Writer) : Prop where
  | nothing (sent : after.store.blocks.sent = self.store.blocks.sent)
  | report (message : ReadWriteSyncMessage) (report : message.isReport = true)
      (sent : after.store.blocks.sent = self.store.blocks.sent ++ [message])
      (settled : after.task.unannounced = none)
  | removal (side : VecSide)
      (sent : after.store.blocks.sent = self.store.blocks.sent ++ [.popMessage side])
      (settled : after.task.unannounced = none)
  | confirmed (slot : Nat) (block : Option BlockWithBinary)
      (cause : event = .pushBlockFront slot block)
      (sent : after.store.blocks.sent = self.store.blocks.sent ++ [.blockConfirmed slot block])
      (settled : after.task.unannounced = none)

/-- A change of the ring is a removal, a new cell, or a publication of its first slot. -/
inductive RingChange (self : Writer) (event : WriterEvent) (after : Writer) : Prop where
  | other (ring : after.store.blocks.blocks = self.store.blocks.blocks)
      (firstAvailable : after.store.blocks.firstAvailable = self.store.blocks.firstAvailable)
      (stored : after.stored = self.stored) (evicted : after.evicted = self.evicted)
      (before : ∀ side, self.task ≠ .publish side) (done : ∀ side, after.task ≠ .publish side)
      (sends : Sends self event after)
  | popped (side : VecSide) (block : StoredBlock) (popped : self.store.popRing side =
        some (block, after.store.blocks))
      (stored : after.stored = self.stored) (evicted : after.evicted = (self.evicted || side = .back))
      (before : ∀ side, self.task ≠ .publish side) (done : ∀ side, after.task ≠ .publish side)
      (cause : event = .popBlock side ∨ event = .evict ∧ side = .back)
  | pushed (push : Push) (cell : StoredBlock) (known : self.task = .push push)
      (stage : push.stage = .recorded cell)
      (pushed : self.store.blocks.pushCell push.side cell = some after.store.blocks)
      (stored : after.stored = self.stored ++ [(cell, push.bytes)])
      (evicted : after.evicted = self.evicted) (task : after.task = .publish push.side)
      (cause : event = .store)
  | published (side : VecSide) (known : self.task = .publish side)
      (blocks : after.store.blocks = self.store.blocks.updateTotal side)
      (stored : after.stored = self.stored) (evicted : after.evicted = self.evicted)
      (done : ∀ side, after.task ≠ .publish side)

/-- A finished removal publishes nothing. -/
theorem resume_ne_publish (push : Option Push) (side : VecSide) : resume push ≠ .publish side := by
  cases push <;> rintro ⟨⟩

/-- A change of the ring keeps everything else that the ring publishes. -/
theorem Change.ring {event : WriterEvent} (change : Change self event after) :
    RingChange self event after := by
  cases change with
  | send message idle report =>
      exact .other rfl rfl rfl rfl (by simp [idle]) (by simp [idle])
        (.report message report rfl (by rw [idle]; rfl))
  | popEmpty side idle empty =>
      exact .other rfl rfl rfl rfl (by simp [idle]) (by simp) (.nothing rfl)
  | popBlock side block blocks idle popped =>
      exact .popped side block popped rfl rfl (by simp [idle]) (by simp) (Or.inl rfl)
  | frontRefused slot block idle =>
      exact .other rfl rfl rfl rfl (by simp [idle]) (by simp) (.confirmed slot block rfl rfl rfl)
  | pushBlockFront slot block idle checked =>
      exact .other rfl rfl rfl rfl (by simp [idle]) (by simp) (.confirmed slot block rfl rfl rfl)
  | backRefused slot block task idle ends =>
      exact .other rfl rfl rfl rfl (by simp [idle]) (by obtain rfl | rfl := ends <;> simp)
        (.nothing rfl)
  | pushBlockBack slot block idle checked room =>
      exact .other rfl rfl rfl rfl (by simp [idle]) (by simp) (.nothing rfl)
  | announce side block push known =>
      exact .other rfl rfl rfl rfl (by simp [known]) (by simp) (.removal side rfl rfl)
  | removeFailed side block push error known failed =>
      exact .other rfl rfl rfl rfl (by simp [known]) (by simp) (.nothing rfl)
  | remove side block push db known removed =>
      exact .other rfl rfl rfl rfl (by simp [known]) (by simp) (.nothing rfl)
  | freeEmpty side block push known empty =>
      exact .other rfl rfl rfl rfl (by simp [known]) (resume_ne_publish push) (.nothing rfl)
  | freeFailed side block push error files known nonempty failed =>
      exact .other rfl rfl rfl rfl (by simp [known]) (by simp) (.nothing rfl)
  | free side block push files known nonempty freed =>
      exact .other rfl rfl rfl rfl (by simp [known]) (resume_ne_publish push) (.nothing rfl)
  | evictEmpty push next files known front evicts empty =>
      exact .other rfl rfl rfl rfl (by simp [known]) (by simp) (.nothing rfl)
  | evict push next files block blocks known front evicts popped =>
      exact .popped .back block popped rfl (by simp) (by simp [known]) (by simp)
        (Or.inr ⟨rfl, rfl⟩)
  | roomy side slot block indexed known room =>
      exact .other rfl rfl rfl rfl (by simp [known]) (by simp) (.nothing rfl)
  | index push next store known indexed =>
      have same := Push.addIndexes_blocks indexed
      exact .other (by rw [same]) (by rw [same]) rfl rfl (by simp [known]) (by simp)
        (.nothing (by rw [same]))
  | indexDuring side block stage push next store known indexed =>
      have same := Push.addIndexes_blocks indexed
      exact .other (by rw [same]) (by rw [same]) rfl rfl (by simp [known]) (by simp)
        (.nothing (by rw [same]))
  | tear chosen push block place files disk known stage isBlock placed =>
      exact .other rfl rfl rfl rfl (by simp [known]) (by simp [known]) (.nothing rfl)
  | writeFailed push block error files disk known stage isBlock failed =>
      exact .other rfl rfl rfl rfl (by simp [known]) (by simp) (.nothing rfl)
  | writeRefused push block files known stage isBlock back refused =>
      exact .other rfl rfl rfl rfl (by simp [known]) (by simp) (.nothing rfl)
  | write push block storageId offset files disk known stage isBlock placed =>
      exact .other rfl rfl rfl rfl (by simp [known]) (by simp) (.nothing rfl)
  | refuse side slot block known =>
      exact .other rfl rfl rfl rfl (by simp [known]) (by simp) (.nothing rfl)
  | recordDead push known stage noBlock =>
      exact .other rfl rfl rfl rfl (by simp [known]) (by simp) (.nothing rfl)
  | record push block storageId offset known stage isBlock indexed =>
      exact .other rfl rfl rfl rfl (by simp [known]) (by simp) (.nothing rfl)
  | storeFailed push cell known stage failed =>
      exact .other rfl rfl rfl rfl (by simp [known]) (by simp) (.nothing rfl)
  | store push cell blocks known stage stored =>
      exact .pushed push cell known stage stored rfl rfl rfl rfl
  | publish side known => exact .published side known rfl rfl rfl (by simp)

/-- The writer takes one event that is allowed in its state. -/
def Next (allowed : Writer → WriterEvent → Prop) (self after : Writer) : Prop :=
  ∃ event, allowed self event ∧ self.step event = some after

/-- A run takes allowed events one after another. -/
def Run (allowed : Writer → WriterEvent → Prop) : Writer → Writer → Prop :=
  Relation.ReflTransGen (Next allowed)

/-- A property that every change keeps holds in every state of a run. -/
theorem Run.invariant {allowed : Writer → WriterEvent → Prop} (holds : Writer → Prop)
    (run : Run allowed self after) (first : holds self)
    (keeps : ∀ before event next, holds before → allowed before event →
      Change before event next → holds next) : holds after := by
  induction run with
  | refl => exact first
  | tail _ stepped ih =>
      obtain ⟨event, permitted, stepped⟩ := stepped
      exact keeps _ event _ ih permitted (change_of_step stepped)

/-- The writer takes all events one after another. -/
def takeAll (self : Writer) : List WriterEvent → Option Writer
  | [] => some self
  | event :: rest => (self.step event).bind fun next => next.takeAll rest

/-- Each event is allowed in the state that takes it. -/
def Permits (allowed : Writer → WriterEvent → Prop) (self : Writer) : List WriterEvent → Prop
  | [] => True
  | event :: rest => allowed self event ∧ ∀ next ∈ self.step event, next.Permits allowed rest

/-- A decidable condition can be evaluated along the events. -/
instance decidablePermits (allowed : Writer → WriterEvent → Prop)
    [decide : ∀ writer event, Decidable (allowed writer event)] :
    (self : Writer) → (events : List WriterEvent) → Decidable (self.Permits allowed events)
  | _, [] => isTrue trivial
  | self, event :: rest =>
      match stepped : self.step event with
      | none => decidable_of_iff (allowed self event) (by simp [Permits, stepped])
      | some next =>
          have := decidablePermits allowed next rest
          decidable_of_iff (allowed self event ∧ next.Permits allowed rest)
            (by simp [Permits, stepped])

/-- The writer that takes permitted events makes a run. -/
theorem run_of_takeAll {allowed : Writer → WriterEvent → Prop} {events : List WriterEvent}
    (permitted : self.Permits allowed events) (taken : self.takeAll events = some after) :
    Run allowed self after := by
  induction events generalizing self with
  | nil =>
      cases taken
      exact .refl
  | cons event rest ih =>
      obtain ⟨next, stepped, taken⟩ := Option.bind_eq_some_iff.mp taken
      exact .head ⟨event, permitted.1, stepped⟩ (ih (permitted.2 next stepped) taken)

/-- Events that are allowed in every state are permitted. -/
theorem permits_of_forall {allowed : Writer → WriterEvent → Prop} {events : List WriterEvent}
    (always : ∀ writer, ∀ event ∈ events, allowed writer event) (self : Writer) :
    self.Permits allowed events := by
  induction events generalizing self with
  | nil => trivial
  | cons event rest ih =>
      have later : ∀ writer, ∀ other ∈ rest, allowed writer other :=
        fun writer other member => always writer other (List.mem_cons_of_mem _ member)
      exact ⟨always self event List.mem_cons_self, fun next _ => ih later next⟩

/-- Every event is permitted without a condition. -/
theorem permits_any (self : Writer) (events : List WriterEvent) :
    self.Permits (fun _ _ => True) events :=
  permits_of_forall (fun _ _ _ => trivial) self

/-- A store has one file and an empty ring. -/
def emptyStore (size fileSize : Nat) (positive : 0 < size) : Store where
  db := Rocksdb.empty
  files := ⟨[⟨0, "a", 0, 0, fileSize, true⟩], HashMap.empty.insert 0 0, 0⟩
  disk := fun _ => ⟨fileSize, fun _ => 0⟩
  blocks := ⟨⟨size, fun _ => .newNoexists, ⟨0, positive⟩, ⟨size - 1, CellRing.last_lt positive⟩⟩, maxSlot, []⟩

/-- A block with a height and some bytes. -/
def plainBlock (height : Nat) (bytes : Bytes) : BlockWithBinary :=
  ⟨"", height, some 7, some height, bytes, [], [], []⟩

/-- These events store one block at the front while the store has room. -/
def storeFront (slot : Nat) (block : BlockWithBinary) : List WriterEvent :=
  [.pushBlockFront slot (some block), .roomy, .index, .write, .record, .store, .publish]

end Writer

end Alpamayo
