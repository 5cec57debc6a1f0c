import Alpamayo.Proof.DurableStore

/-!
This file shows that every step of the writer leaves a database and files that can be opened again.
-/

namespace Alpamayo

open FilesState

/-- The block that lies in its file before its cell enters the ring. -/
def Push.placed (push : Push) : List (StoredBlock × Bytes) :=
  match push.stage, push.block with
  | .written storageId offset, some block => [(StoredBlock.newConfirmed push.slot block.blockTime
      block.blockHeight storageId offset block.protobuf.length, block.protobuf)]
  | .recorded cell, some block => [(cell, block.protobuf)]
  | _, _ => []

namespace Task

/-- The side at which the task works. -/
def side : Task → VecSide
  | .push active => active.side
  | .pop removal => removal.side
  | _ => .back

/-- The recorded cell that is not in the ring: it has not entered yet, or it has left already. -/
def outside : Task → List StoredBlock
  | .push active =>
      match active.stage with
      | .recorded cell => [cell]
      | _ => []
  | .pop removal => if removal.stage = .free then [] else [removal.block]
  | _ => []

/-- The block that takes room in its file and is not in the ring. -/
def held (recorded : Nat → Bytes) : Task → List (StoredBlock × Bytes)
  | .push active => active.placed
  | .pop removal => liveEntries recorded [removal.block]
  | _ => []

/-- A push in one of the first stages has no cell. -/
theorem plain_push (recorded : Nat → Bytes) {push : Push}
    (early : push.stage = .room ∨ push.stage = .write ∨ push.stage = .refused) :
    (Task.push push).outside = [] ∧ (Task.push push).held recorded = [] := by
  obtain stage | stage | stage := early <;>
    simp only [Task.outside, Task.held, Push.placed, stage, and_self]

end Task

/-- A push under way has a slot of 64 bits, the records that it has written, and the bytes that it has
noted. -/
structure Push.Prepared (push : Push) (db : Rocksdb) (recorded : Nat → Bytes) : Prop where
  bounded : push.slot ≤ maxSlot
  indexed : push.indexed = true → db.Indexes push.slot
  noted : ∀ cell, push.stage = .recorded cell →
    CellOf push.slot push.block cell ∧ recorded push.slot = push.bytes

/-- A push that goes on without a cell stays prepared. -/
theorem Push.Prepared.later {push next : Push} {db : Rocksdb} {recorded : Nat → Bytes}
    (prepared : push.Prepared db recorded) (slot : next.slot = push.slot)
    (indexed : next.indexed = push.indexed) (early : ∀ cell, next.stage ≠ .recorded cell) :
    next.Prepared db recorded := by
  refine ⟨?_, ?_, fun cell stage => absurd stage (early cell)⟩
  · rw [slot]
    exact prepared.bounded
  · rw [slot, indexed]
    exact prepared.indexed

namespace Process

/-- The records are those of the ring and of the task, and so are the blocks of the files. -/
structure Operates (configs : List ConfigStorageFile) (max : Nat) (process : Process)
    (contents : List StoredBlock) : Prop where
  spans : process.writer.Spans contents
  size : process.writer.store.blocks.blocks.size = max
  cells : process.writer.store.db.cells =
    process.writer.task.side.extend process.writer.task.outside contents
  lists : process.writer.store.db.Lists max
  files : Sized configs ⟨process.writer.store.files, process.writer.store.disk,
    process.writer.task.side.extend (process.writer.task.held process.recorded)
      (liveEntries process.recorded contents)⟩
  pushes : ∀ push ∈ process.writer.task.underWay,
    push.Prepared process.writer.store.db process.recorded
  waits : ∀ pop, process.writer.task = .pop pop → ∀ push ∈ pop.resume,
    push.stage = .write ∧ push.slot ≠ pop.block.slot
  bytes : ∀ pop, process.writer.task = .pop pop → pop.block.size ≠ 0 → pop.block.isLive = true

variable {configs : List ConfigStorageFile} {max : Nat} {self : Process} {after : Writer}
  {event : WriterEvent} {contents rest : List StoredBlock}

/-- The recorded cell of the task takes room in its file. -/
theorem Operates.outside_sublist (operates : self.Operates configs max contents) :
    (liveEntries self.recorded self.writer.task.outside).Sublist
      (self.writer.task.held self.recorded) := by
  have pushes := operates.pushes
  cases known : self.writer.task with
  | push push =>
      rw [known] at pushes
      cases stage : push.stage with
      | recorded cell =>
          obtain ⟨isCell, noted⟩ := (pushes push rfl).noted cell stage
          simp only [Task.outside, Task.held, Push.placed, stage]
          generalize isBlock : push.block = block at isCell
          cases isCell with
          | dead => exact List.nil_sublist _
          | live block storageId offset =>
              simp [liveEntries, StoredBlock.newConfirmed, StoredBlock.isLive, noted, Push.bytes,
                isBlock]
      | _ => simp only [Task.outside, stage]; exact List.nil_sublist _
  | pop pop =>
      simp only [Task.outside, Task.held]
      split
      · exact List.nil_sublist _
      · exact List.Sublist.refl _
  | _ => exact List.nil_sublist _

/-- A process can be opened again at any moment of its operation. -/
theorem Operates.durable (operates : self.Operates configs max contents) :
    Durable configs max self.writer.store.db self.writer.store.disk self.recorded := by
  refine ⟨?_, operates.lists, self.writer.store.files, ?_⟩
  · rw [← operates.size]
    exact self.writer.store.blocks.blocks.size_pos
  · rw [operates.cells, liveEntries_extend]
    exact operates.files.sublist (VecSide.extend_sublist _ operates.outside_sublist)

/-- The ring stays as it is, and the records and the files follow the new task. -/
theorem Operates.same (operates : self.Operates configs max contents)
    (change : Writer.Change self.writer event after)
    (ring : after.store.blocks.blocks = self.writer.store.blocks.blocks)
    {recorded : Nat → Bytes} (lists : after.store.db.Lists max)
    (cells : after.store.db.cells = after.task.side.extend after.task.outside contents)
    (files : Sized configs ⟨after.store.files, after.store.disk,
      after.task.side.extend (after.task.held recorded) (liveEntries recorded contents)⟩)
    (pushes : ∀ push ∈ after.task.underWay, push.Prepared after.store.db recorded)
    (waits : ∀ pop, after.task = .pop pop → ∀ push ∈ pop.resume,
      push.stage = .write ∧ push.slot ≠ pop.block.slot)
    (bytes : ∀ pop, after.task = .pop pop → pop.block.size ≠ 0 → pop.block.isLive = true) :
    Operates configs max ⟨after, recorded⟩ contents := by
  obtain ⟨rest, spans⟩ := operates.spans.change change
  obtain rfl := operates.spans.eq_of_ring spans ring
  exact ⟨spans, by rw [ring]; exact operates.size, cells, lists, files, pushes, waits, bytes⟩

/-- Only the search position of the files and the log can change while no cell is outside of the
ring. -/
theorem Operates.quiet (operates : self.Operates configs max contents)
    (change : Writer.Change self.writer event after)
    (ring : after.store.blocks.blocks = self.writer.store.blocks.blocks)
    (db : after.store.db = self.writer.store.db) (disk : after.store.disk = self.writer.store.disk)
    (files : after.store.files.files = self.writer.store.files.files)
    (map : after.store.files.id2file = self.writer.store.files.id2file)
    (before : self.writer.task.outside = [] ∧ self.writer.task.held self.recorded = [])
    (done : after.task.outside = [] ∧ after.task.held self.recorded = [])
    (pushes : ∀ push ∈ after.task.underWay, push.Prepared self.writer.store.db self.recorded)
    (waits : ∀ pop, after.task ≠ .pop pop) :
    Operates configs max ⟨after, self.recorded⟩ contents := by
  have kept := operates.files
  have cells := operates.cells
  rw [before.1, VecSide.extend_nil] at cells
  rw [before.2, VecSide.extend_nil] at kept
  apply operates.same change ring
  · rw [db]
    exact operates.lists
  · rw [db, done.1, VecSide.extend_nil]
    exact cells
  · rw [done.2, VecSide.extend_nil, disk]
    exact kept.refused files map
  · rw [db]
    exact pushes
  · exact fun pop known => absurd known (waits pop)
  · exact fun pop known => absurd known (waits pop)

/-- The block that has left the ring keeps its record and its bytes. -/
theorem Operates.popped (operates : self.Operates configs max contents) {side : VecSide}
    {block : StoredBlock} {blocks : StoredBlocksWrite} {resume : Option Push}
    (change : Writer.Change self.writer event after)
    (popped : self.writer.store.popRing side = some (block, blocks))
    (ring : after.store.blocks = blocks) (task : after.task = .pop ⟨side, block, .announce, resume⟩)
    (db : after.store.db = self.writer.store.db) (disk : after.store.disk = self.writer.store.disk)
    (files : after.store.files.files = self.writer.store.files.files)
    (map : after.store.files.id2file = self.writer.store.files.id2file)
    (before : self.writer.task.outside = [] ∧ self.writer.task.held self.recorded = [])
    (pushes : ∀ push ∈ resume, push.Prepared self.writer.store.db self.recorded)
    (waits : ∀ push ∈ resume, push.stage = .write ∧ push.slot ≠ block.slot) :
    ∃ rest, Operates configs max ⟨after, self.recorded⟩ rest := by
  have kept := operates.files
  have cells := operates.cells
  rw [before.1, VecSide.extend_nil] at cells
  rw [before.2, VecSide.extend_nil] at kept
  obtain ⟨rest, inRing, size, back, front⟩ := operates.spans.popRing popped
  have split : contents = side.extend [block] rest := by
    cases side
    · exact back rfl
    · exact front rfl
  obtain ⟨rest', spans⟩ := operates.spans.change change
  obtain rfl : rest' = rest := by
    rw [← ring] at inRing
    exact spans.ring.unique inRing
  have member : block ∈ self.writer.store.db.cells := by
    rw [cells, split]
    exact (VecSide.mem_extend side).mpr (Or.inl (List.mem_singleton_self block))
  refine ⟨rest', spans, ?_, ?_, ?_, ?_, ?_, ?_, ?_⟩
  · rw [← operates.size, ← size]
    exact congrArg (fun blocks => blocks.blocks.size) ring
  · rw [db, task]
    exact cells.trans split
  · rw [db]
    exact operates.lists
  · rw [split, liveEntries_extend] at kept
    rw [task, disk]
    exact kept.refused files map
  · rw [db, task]
    exact pushes
  · intro pop known push member
    rw [task] at known
    cases known
    exact waits push member
  · intro pop known bytes
    rw [task] at known
    cases known
    exact operates.lists.isLive member bytes

/-- The removal of the record leaves the bytes of the block. -/
theorem Operates.removed (operates : self.Operates configs max contents) {side : VecSide}
    {block : StoredBlock} {resume : Option Push} {db : Rocksdb}
    (known : self.writer.task = .pop ⟨side, block, .remove, resume⟩)
    (removed : self.writer.store.db.spawnRemoveSlot block.slot block.dead = .ok db) :
    Operates configs max ⟨{ self.writer with
      store := { self.writer.store with db }
      task := .pop ⟨side, block, .free, resume⟩ }, self.recorded⟩ contents := by
  have cells := operates.cells
  have files := operates.files
  have pushes := operates.pushes
  rw [known] at cells files pushes
  obtain ⟨lists, left, extra⟩ := operates.lists.remove cells removed
  have waits := operates.waits _ known
  have bytes := operates.bytes _ known
  refine operates.same (.remove side block resume db known removed) rfl lists
    (left.trans (VecSide.extend_nil side).symm) files ?_ ?_ ?_
  · intro push member
    obtain ⟨bounded, indexed, noted⟩ := pushes push member
    exact ⟨bounded, fun done => extra _ (waits push member).2 (indexed done), noted⟩
  · rintro _ ⟨⟩ push member
    exact waits push member
  · rintro _ ⟨⟩
    exact bytes

/-- The bytes of the block are free once its record is removed. -/
theorem Operates.freed (operates : self.Operates configs max contents) {side : VecSide}
    {block : StoredBlock} {resume : Option Push} {files : StorageFilesWrite}
    (known : self.writer.task = .pop ⟨side, block, .free, resume⟩)
    (change : Writer.Change self.writer event { self.writer with
      store := { self.writer.store with files }
      task := Writer.resume resume })
    (sized : Sized configs ⟨files, self.writer.store.disk, liveEntries self.recorded contents⟩) :
    Operates configs max ⟨{ self.writer with
      store := { self.writer.store with files }
      task := Writer.resume resume }, self.recorded⟩ contents := by
  have cells := operates.cells
  have pushes := operates.pushes
  have waits := operates.waits _ known
  rw [known] at cells pushes
  have plain : (Writer.resume resume).outside = [] ∧ (Writer.resume resume).held self.recorded = [] := by
    cases resume with
    | none => exact ⟨rfl, rfl⟩
    | some push => exact Task.plain_push _ (Or.inr (Or.inl (waits push rfl).1))
  have idle : ∀ pop, Writer.resume resume ≠ .pop pop := by
    cases resume <;> simp [Writer.resume]
  refine operates.same change rfl operates.lists ?_ ?_ ?_ ?_ ?_
  · dsimp only
    rw [plain.1, VecSide.extend_nil]
    exact cells.trans (VecSide.extend_nil side)
  · dsimp only
    rw [plain.2, VecSide.extend_nil]
    exact sized
  · intro push member
    rw [Writer.resume_underWay] at member
    exact pushes push member
  · exact fun pop isPop => absurd isPop (idle pop)
  · exact fun pop isPop => absurd isPop (idle pop)

/-- The records of the contents change neither the cells nor the files. -/
theorem Operates.indexed (operates : self.Operates configs max contents) {push next : Push}
    {store : Store} (change : Writer.Change self.writer event after)
    (under : push ∈ self.writer.task.underWay)
    (indexed : push.addIndexes self.writer.store = some (store, next)) (isStore : after.store = store)
    (outside : after.task.side.extend after.task.outside contents =
      self.writer.task.side.extend self.writer.task.outside contents)
    (held : after.task.side.extend (after.task.held self.recorded) (liveEntries self.recorded contents) =
      self.writer.task.side.extend (self.writer.task.held self.recorded)
        (liveEntries self.recorded contents))
    (isNext : after.task.underWay = some next)
    (waits : ∀ pop, after.task = .pop pop → ∃ stage, self.writer.task =
      .pop ⟨pop.side, pop.block, stage, some push⟩) :
    Operates configs max ⟨after, self.recorded⟩ contents := by
  obtain ⟨block, -, -, early, rfl, rfl⟩ := Push.addIndexes_eq indexed
  have prepared := operates.pushes push under
  refine operates.same change (by rw [isStore]) ?_ ?_ ?_ ?_ ?_ ?_
  · rw [isStore]
    exact operates.lists.addIndexes _ _
  · rw [isStore, outside]
    exact operates.cells
  · rw [isStore, held]
    exact operates.files
  · rw [isNext, isStore]
    rintro _ ⟨⟩
    exact ⟨prepared.bounded, fun _ => (Rocksdb.indexes_addIndexes _ _ _ _).mpr (Or.inl rfl),
      prepared.noted⟩
  · intro pop isPop waiting member
    obtain ⟨stage, before⟩ := waits pop isPop
    have same : after.task.underWay = pop.resume := by rw [isPop]; rfl
    rw [← same, isNext] at member
    cases member
    exact operates.waits _ before push rfl
  · intro pop isPop
    obtain ⟨stage, before⟩ := waits pop isPop
    have bytes := operates.bytes _ before
    exact bytes

/-- The write of a push in this stage goes to the file that the search selects. -/
theorem writePlace_eq {writer : Writer} {push : Push} {block : BlockWithBinary} {index : Nat}
    {file : StorageFile} (known : writer.task = .push push) (stage : push.stage = .write)
    (isBlock : push.block = some block)
    (found : (writer.store.files.getFileIndexForNewBlock block.protobuf.length).1 = .ok (some index))
    (place : writer.store.files.files[index]? = some file) : writer.writePlace =
      some (file, ⟨file.placeOf push.side block.protobuf.length, block.protobuf.length⟩) := by
  simp only [Writer.writePlace, known, stage, isBlock, found, place, Option.map_some]

/-- The written block takes room in its file. -/
theorem Operates.placed (operates : self.Operates configs max contents) {push : Push}
    {block : BlockWithBinary} {storageId : StorageId} {offset : Nat} {files : StorageFilesWrite}
    {disk : Disk} (known : self.writer.task = .push push) (stage : push.stage = .write)
    (isBlock : push.block = some block) (permitted : self.writer.WritesInside .write)
    (placed : push.attempt self.writer.store block = (.ok (some (storageId, offset)), files, disk)) :
    Sized configs ⟨files, disk, push.side.extend
      [(StoredBlock.newConfirmed push.slot block.blockTime block.blockHeight storageId offset
        block.protobuf.length, block.protobuf)] (liveEntries self.recorded contents)⟩ := by
  obtain ⟨outside, held⟩ := Task.plain_push self.recorded (Or.inr (Or.inl stage))
  have sized := operates.files
  have cells := operates.cells
  rw [known, held, VecSide.extend_nil] at sized
  rw [known, outside, VecSide.extend_nil] at cells
  have beyond := (operates.spans.pushFits known).beyond operates.spans.ring.consecutive
  refine sized.push ?_ ?_ placed
  · apply beyond.of_forall
    intro cell member
    obtain ⟨entry, inLive, rfl⟩ := List.mem_map.mp member
    exact (mem_liveEntries.mp inLive).1
  · intro index file found place
    obtain ⟨starts, ends, guarded⟩ := permitted _ (writePlace_eq known stage isBlock found place)
    refine ⟨⟨starts, ends⟩, fun bytes equal entry member same => ?_⟩
    obtain ⟨inCells, live, -⟩ := mem_liveEntries.mp member
    rw [← cells] at inCells
    have none := guarded (by simpa using bytes) equal
    obtain ⟨value, recorded, isCell⟩ := Rocksdb.mem_cells.mp inCells
    have listed : (entry.1.slot, value) ∈ self.writer.recordsOf file.id := by
      refine List.mem_filter.mpr ⟨SortedMap.get_eq_some_iff.mp recorded, ?_⟩
      rw [isCell] at live same
      have alive : value.dead = false := by
        simpa [Rocksdb.storedBlockOf, StoredBlock.isLive] using live
      have owns : value.storageId = file.id := same
      simp [alive, owns]
    rw [none] at listed
    cases listed

/-- A write at a place inside its file that fails has changed no byte. -/
theorem disk_of_writeSide {file file' : StorageFile} {disk disk' : Disk} {buffer : Bytes}
    {side : VecSide} {error : StorageError}
    (failed : file.writeSide disk buffer side = (.error error, file', disk'))
    (ends : file.placeOf side buffer.length + buffer.length ≤ file.size) : disk' = disk := by
  cases side with
  | back =>
      simp only [StorageFile.writeSide, StorageFile.writeBack] at failed
      split at failed
      · cases failed
        rfl
      · cases failed
  | front =>
      simp only [StorageFile.placeOf] at ends
      simp only [StorageFile.writeSide, StorageFile.writeFront, ends, if_true] at failed
      split at failed
      · cases failed
        rfl
      · cases failed

/-- A push that fails to write inside its file has changed no byte. -/
theorem disk_of_failed {push : Push} {block : BlockWithBinary} {error : StorageError}
    {files : StorageFilesWrite} {disk : Disk} (known : self.writer.task = .push push)
    (stage : push.stage = .write) (isBlock : push.block = some block)
    (permitted : self.writer.WritesInside .write)
    (failed : push.attempt self.writer.store block = (.error error, files, disk)) :
    disk = self.writer.store.disk := by
  simp only [Push.attempt, StorageFilesWrite.pushBlock] at failed
  split at failed
  · cases failed
    rfl
  · cases failed
  · rename_i index searched found
    have search := StorageFilesWrite.getFileIndexForNewBlock_frame self.writer.store.files
      block.protobuf.length
    have selected := congrArg Prod.fst found
    rw [found] at search
    split at failed
    · cases failed
      rfl
    · rename_i file place
      rw [search.1] at place
      obtain ⟨-, ends, -⟩ := permitted _ (writePlace_eq known stage isBlock selected place)
      generalize written : file.writeSide self.writer.store.disk block.protobuf push.side = result
        at failed
      obtain ⟨error' | value, file', disk'⟩ := result
      · cases failed
        exact disk_of_writeSide written ends
      · cases failed

/-- The new record is that of the cell of the push. -/
theorem Operates.recorded (operates : self.Operates configs max contents) {push : Push}
    {data : Option (BlockWithBinary × StorageId × Nat)} {value : SlotBasicIndexValue}
    (known : self.writer.task = .push push)
    (change : Writer.Change self.writer event { self.writer with
      store := { self.writer.store with db := self.writer.store.db.slotAdd push.slot data }
      task := .push { push with stage := .recorded (Rocksdb.storedBlockOf push.slot value) } })
    (found : (self.writer.store.db.slotAdd push.slot data).slotBasicIndex.get push.slot = some value)
    (outside : (Task.push push).outside = [])
    (placed : Push.placed { push with stage := .recorded (Rocksdb.storedBlockOf push.slot value) } =
      push.placed)
    (later : push.stage ≠ .room) (indexed : data.isSome = true → push.indexed = true)
    (isCell : CellOf push.slot push.block (Rocksdb.storedBlockOf push.slot value)) :
    Operates configs max ⟨{ self.writer with
      store := { self.writer.store with db := self.writer.store.db.slotAdd push.slot data }
      task := .push { push with stage := .recorded (Rocksdb.storedBlockOf push.slot value) } },
      Function.update self.recorded push.slot push.bytes⟩ contents := by
  have cells := operates.cells
  have files := operates.files
  rw [known, outside, VecSide.extend_nil] at cells
  rw [known] at files
  have consecutive := operates.spans.ring.consecutive
  have fits := operates.spans.pushFits known
  have beyond := fits.beyond consecutive
  have prepared := operates.pushes push (by rw [known]; rfl)
  have beyond' : push.side.Beyond push.slot self.writer.store.db.cells := by
    rw [cells]
    exact beyond
  have extended := Rocksdb.cells_slotAdd found beyond'
  refine operates.same change rfl ?_ ?_ ?_ ?_ ?_ ?_
  · refine operates.lists.slotAdd found beyond' ?_ ?_ prepared.bounded
      fun some => prepared.indexed (indexed some)
    · rw [cells]
      exact fits.extend consecutive rfl rfl
    · rw [cells, ← operates.size]
      exact fits.room later
  · rw [cells] at extended
    exact extended
  · rw [liveEntries_update _ fun cell member => beyond.ne member]
    simp only [Task.held, Task.side] at files ⊢
    rw [placed]
    exact files
  · rintro _ ⟨⟩
    refine ⟨prepared.bounded, prepared.indexed, ?_⟩
    rintro _ ⟨⟩
    exact ⟨isCell, Function.update_self _ _ _⟩
  · rintro _ ⟨⟩
  · rintro _ ⟨⟩

/-- The recorded cell enters the ring with its bytes. -/
theorem Operates.stored (operates : self.Operates configs max contents) {push : Push}
    {cell : StoredBlock} {blocks : StoredBlocksWrite} (known : self.writer.task = .push push)
    (stage : push.stage = .recorded cell)
    (stored : self.writer.store.blocks.pushCell push.side cell = some blocks) :
    ∃ rest, Operates configs max ⟨{ self.writer with
      store := { self.writer.store with blocks }
      task := .publish push.side
      stored := self.writer.stored ++ [(cell, push.bytes)] }, self.recorded⟩ rest := by
  have change := Writer.Change.store push cell blocks known stage stored
  have fits := operates.spans.pushFits known
  obtain ⟨present, slot⟩ := fits.cell cell stage
  obtain ⟨files, kept⟩ := operates.durable.files
  have cells := operates.cells
  have outside : (Task.push push).outside = [cell] := by simp only [Task.outside, stage]
  rw [known, outside] at cells
  have entered : blocks.Spans (push.side.extend [cell] contents) ∧
      blocks.blocks.size = self.writer.store.blocks.blocks.size := by
    cases side : push.side with
    | back =>
        rw [side] at stored
        obtain ⟨-, spans, ring, -⟩ := operates.spans.ring.pushCell_back present
          (by rw [slot]; exact fits.back side) stored
        exact ⟨spans, by rw [ring]; rfl⟩
    | front =>
        rw [side] at stored
        obtain ⟨-, spans, ring, -⟩ := operates.spans.ring.pushCell_front present
          (by rw [slot]; exact fits.front side) stored
        exact ⟨spans, by rw [ring]; rfl⟩
  refine ⟨push.side.extend [cell] contents, ⟨entered.1, by rintro _ ⟨⟩⟩, ?_, cells,
    operates.lists, ?_, by rintro _ ⟨⟩, by rintro _ ⟨⟩, by rintro _ ⟨⟩⟩
  · exact entered.2.trans operates.size
  · have sublist := operates.outside_sublist
    rw [known, outside] at sublist
    have held := operates.files
    rw [known] at held
    rw [liveEntries_extend]
    exact held.sublist (VecSide.extend_sublist _ sublist)

/-- A stopped writer takes no step. -/
theorem no_change_of_stopped {writer : Writer} (stopped : writer.task = .stopped) :
    ¬ Writer.Change writer event after := by
  intro change
  cases change <;> simp_all

/-- A stopped writer leaves a database and files that can be opened again. -/
def Recoverable (configs : List ConfigStorageFile) (max : Nat) (self : Process) : Prop :=
  (∃ contents, self.Operates configs max contents) ∨
    (self.writer.task = .stopped ∧
      Durable configs max self.writer.store.db self.writer.store.disk self.recorded)

section events

variable {push : Push} {block : Option BlockWithBinary} {slot : Nat} {side : VecSide}

/-- A report only goes to the log. -/
theorem Operates.sent (operates : self.Operates configs max contents)
    {message : ReadWriteSyncMessage} (idle : self.writer.task = .idle)
    (report : message.isReport = true) :
    Operates configs max ⟨{ self.writer with
      store := { self.writer.store with blocks := self.writer.store.blocks.send message } },
      self.recorded⟩ contents := by
  refine operates.quiet (.send message idle report) rfl rfl rfl rfl rfl ?_ ?_ operates.pushes ?_
  · rw [idle]
    exact ⟨rfl, rfl⟩
  · dsimp only
    rw [idle]
    exact ⟨rfl, rfl⟩
  · dsimp only
    rw [idle]
    rintro _ ⟨⟩

/-- A push that begins has no records and no bytes. -/
theorem Operates.begun (operates : self.Operates configs max contents) {store : Store}
    (idle : self.writer.task = .idle)
    (change : Writer.Change self.writer event { self.writer with store, task := .push push })
    (ring : store.blocks.blocks = self.writer.store.blocks.blocks)
    (db : store.db = self.writer.store.db) (disk : store.disk = self.writer.store.disk)
    (files : store.files = self.writer.store.files) (stage : push.stage = .room ∨ push.stage = .write)
    (unindexed : push.indexed = false) (bounded : push.slot ≤ maxSlot) :
    Operates configs max ⟨{ self.writer with store, task := .push push }, self.recorded⟩ contents := by
  have early : push.stage = .room ∨ push.stage = .write ∨ push.stage = .refused := by
    rcases stage with room | write
    · exact Or.inl room
    · exact Or.inr (Or.inl write)
  refine operates.quiet change ring db disk (by rw [files]) (by rw [files]) ?_
    (Task.plain_push _ early) ?_ (by rintro _ ⟨⟩)
  · rw [idle]
    exact ⟨rfl, rfl⟩
  · rintro _ ⟨⟩
    refine ⟨bounded, fun indexed => ?_, fun cell recorded => ?_⟩
    · rw [unindexed] at indexed
      cases indexed
    · rcases stage with room | write
      · rw [room] at recorded
        cases recorded
      · rw [write] at recorded
        cases recorded

/-- A push that is refused before it begins changes nothing. -/
theorem Operates.turnedAway (operates : self.Operates configs max contents)
    (idle : self.writer.task = .idle)
    (change : Writer.Change self.writer event { self.writer with task := .idle }) :
    Operates configs max ⟨{ self.writer with task := .idle }, self.recorded⟩ contents := by
  refine operates.quiet change rfl rfl rfl rfl rfl ?_ ⟨rfl, rfl⟩ (by rintro _ ⟨⟩) (by rintro _ ⟨⟩)
  rw [idle]
  exact ⟨rfl, rfl⟩

/-- The readers learn of a removal before its record goes. -/
theorem Operates.announced (operates : self.Operates configs max contents) {cell : StoredBlock}
    {resume : Option Push} (known : self.writer.task = .pop ⟨side, cell, .announce, resume⟩) :
    Operates configs max ⟨{ self.writer with
      store := { self.writer.store with
        blocks := self.writer.store.blocks.send (.popMessage side) }
      task := .pop ⟨side, cell, .remove, resume⟩ }, self.recorded⟩ contents := by
  have cells := operates.cells
  have files := operates.files
  have pushes := operates.pushes
  have waits := operates.waits _ known
  have bytes := operates.bytes _ known
  rw [known] at cells files pushes
  refine operates.same (.announce side cell resume known) rfl operates.lists cells files pushes ?_ ?_
  · rintro _ ⟨⟩
    exact waits
  · rintro _ ⟨⟩
    exact bytes

/-- A removed block without bytes leaves the files as they are. -/
theorem Operates.emptied (operates : self.Operates configs max contents) {cell : StoredBlock}
    {resume : Option Push} (known : self.writer.task = .pop ⟨side, cell, .free, resume⟩)
    (empty : cell.size = 0) :
    Operates configs max ⟨{ self.writer with task := Writer.resume resume }, self.recorded⟩
      contents := by
  have files := operates.files
  rw [known] at files
  exact operates.freed known (.freeEmpty side cell resume known empty)
    (files.sublist (VecSide.sublist_extend _ (.refl _)))

/-- The bytes of a removed block can be taken again. -/
theorem Operates.released (operates : self.Operates configs max contents) {cell : StoredBlock}
    {resume : Option Push} {files : StorageFilesWrite}
    (known : self.writer.task = .pop ⟨side, cell, .free, resume⟩) (nonempty : cell.size ≠ 0)
    (freed : self.writer.store.files.popBlock cell side = (.ok (), files)) :
    Operates configs max ⟨{ self.writer with
      store := { self.writer.store with files }
      task := Writer.resume resume }, self.recorded⟩ contents := by
  have live := operates.bytes _ known nonempty
  have sized := operates.files
  have held : (Task.pop ⟨side, cell, .free, resume⟩).held self.recorded =
      [(cell, self.recorded cell.slot)] := by
    simp [Task.held, liveEntries, show cell.isLive = true from live]
  rw [known, held] at sized
  exact operates.freed known (.free side cell resume files known nonempty freed) (sized.pop freed)

/-- A push removes the lowest block and goes on afterwards. -/
theorem Operates.evicted (operates : self.Operates configs max contents) {next : Push}
    {files : StorageFilesWrite} {cell : StoredBlock} {blocks : StoredBlocksWrite}
    (known : self.writer.task = .push push) (front : push.side = .front)
    (evicts : self.writer.Evicts push next files)
    (popped : self.writer.store.popRing .back = some (cell, blocks)) :
    ∃ rest, Operates configs max ⟨{ self.writer with
      store := { self.writer.store with files, blocks }
      task := .pop ⟨.back, cell, .announce, some next⟩
      evicted := true }, self.recorded⟩ rest := by
  obtain ⟨slot, -, write, -, indexed⟩ := evicts.next
  have early : push.stage = .room ∨ push.stage = .write ∨ push.stage = .refused := by
    cases evicts with
    | full stage full => exact Or.inl stage
    | unplaced block files stage known refused => exact Or.inr (Or.inl stage)
  have kept : files.files = self.writer.store.files.files ∧
      files.id2file = self.writer.store.files.id2file := by
    cases evicts with
    | full stage full => exact ⟨rfl, rfl⟩
    | unplaced block files stage known refused =>
        obtain ⟨sameFiles, sameMap, -⟩ := StorageFilesWrite.pushBlock_none refused
        exact ⟨sameFiles, sameMap⟩
  refine operates.popped (.evict push next files cell blocks known front evicts popped) popped rfl rfl
    rfl rfl kept.1 kept.2 ?_ ?_ ?_
  · rw [known]
    exact Task.plain_push _ early
  · rintro _ ⟨⟩
    exact (operates.pushes push (by rw [known]; rfl)).later slot indexed (by simp [write])
  · rintro _ ⟨⟩
    refine ⟨write, ?_⟩
    obtain ⟨rest, -, -, split, -⟩ := operates.spans.popRing popped
    have beyond := (operates.spans.pushFits known).beyond operates.spans.ring.consecutive
    rw [slot]
    exact (beyond.ne (by rw [split rfl]; exact List.mem_cons_self)).symm

/-- A push whose ring has room goes on to its write. -/
theorem Operates.madeRoom (operates : self.Operates configs max contents) {indexed : Bool}
    (known : self.writer.task = .push ⟨side, slot, block, .room, indexed⟩)
    (room : self.writer.store.blocks.isFull = false) :
    Operates configs max ⟨{ self.writer with task := .push ⟨side, slot, block, .write, indexed⟩ },
      self.recorded⟩ contents := by
  have pushes := operates.pushes
  rw [known] at pushes
  refine operates.quiet (.roomy side slot block indexed known room) rfl rfl rfl rfl rfl ?_ ⟨rfl, rfl⟩ ?_
    (by rintro _ ⟨⟩)
  · rw [known]
    exact ⟨rfl, rfl⟩
  · rintro _ ⟨⟩
    exact (pushes _ rfl).later rfl rfl (by rintro _ ⟨⟩)

/-- A write that is cut leaves the other blocks as they are. -/
theorem Operates.torn (operates : self.Operates configs max contents) {chosen : Path → Nat → Bool}
    {written : BlockWithBinary} {place : StorageId × Nat} {files : StorageFilesWrite} {disk : Disk}
    (permitted : self.writer.WritesInside .write) (known : self.writer.task = .push push)
    (stage : push.stage = .write) (isBlock : push.block = some written)
    (placed : push.attempt self.writer.store written = (.ok (some place), files, disk)) :
    Operates configs max ⟨{ self.writer with
      store := { self.writer.store with disk := Disk.mix chosen self.writer.store.disk disk } },
      self.recorded⟩ contents := by
  have sized := operates.files
  obtain ⟨-, held⟩ := Task.plain_push self.recorded (Or.inr (Or.inl stage))
  have whole := operates.placed known stage isBlock permitted placed
  rw [known, held, VecSide.extend_nil] at sized
  refine operates.same (.tear chosen push written place files disk known stage isBlock placed) rfl
    operates.lists operates.cells ?_ operates.pushes operates.waits operates.bytes
  dsimp only
  rw [known, held, VecSide.extend_nil]
  exact sized.tear whole chosen

/-- A block at the back that has no room leaves the files as they are. -/
theorem Operates.unwritten (operates : self.Operates configs max contents) {written : BlockWithBinary}
    {files : StorageFilesWrite} (known : self.writer.task = .push push) (stage : push.stage = .write)
    (isBlock : push.block = some written) (back : push.side = .back)
    (refused : push.attempt self.writer.store written = (.ok none, files, self.writer.store.disk)) :
    Operates configs max ⟨{ self.writer with
      store := { self.writer.store with files }
      task := .push { push with stage := .refused } }, self.recorded⟩ contents := by
  obtain ⟨sameFiles, sameMap, -⟩ := StorageFilesWrite.pushBlock_none refused
  refine operates.quiet (.writeRefused push written files known stage isBlock back refused) rfl rfl rfl
    sameFiles sameMap ?_ ⟨rfl, ?_⟩ ?_ (by rintro _ ⟨⟩)
  · rw [known]
    exact Task.plain_push _ (Or.inr (Or.inl stage))
  · exact (Task.plain_push _ (Or.inr (Or.inr rfl))).2
  · rintro _ ⟨⟩
    exact (operates.pushes push (by rw [known]; rfl)).later rfl rfl (by rintro _ ⟨⟩)

/-- A written block takes room but has no record yet. -/
theorem Operates.written (operates : self.Operates configs max contents) {written : BlockWithBinary}
    {storageId : StorageId} {offset : Nat} {files : StorageFilesWrite} {disk : Disk}
    (permitted : self.writer.WritesInside .write) (known : self.writer.task = .push push)
    (stage : push.stage = .write) (isBlock : push.block = some written)
    (placed : push.attempt self.writer.store written =
      (.ok (some (storageId, offset)), files, disk)) :
    Operates configs max ⟨{ self.writer with
      store := { self.writer.store with files, disk }
      task := .push { push with stage := .written storageId offset } }, self.recorded⟩ contents := by
  have cells := operates.cells
  rw [known, (Task.plain_push self.recorded (Or.inr (Or.inl stage))).1] at cells
  refine operates.same (.write push written storageId offset files disk known stage isBlock placed) rfl
    operates.lists cells ?_ ?_ (by rintro _ ⟨⟩) (by rintro _ ⟨⟩)
  · have sized := operates.placed known stage isBlock permitted placed
    simp only [Task.held, Push.placed, Task.side, isBlock]
    exact sized
  · rintro _ ⟨⟩
    exact (operates.pushes push (by rw [known]; rfl)).later rfl rfl (by rintro _ ⟨⟩)

/-- A refused push ends. -/
theorem Operates.refused (operates : self.Operates configs max contents)
    (known : self.writer.task = .push ⟨side, slot, block, .refused, true⟩) :
    Operates configs max ⟨{ self.writer with task := .idle }, self.recorded⟩ contents := by
  refine operates.quiet (.refuse side slot block known) rfl rfl rfl rfl rfl ?_ ⟨rfl, rfl⟩
    (by rintro _ ⟨⟩) (by rintro _ ⟨⟩)
  rw [known]
  exact Task.plain_push _ (Or.inr (Or.inr rfl))

/-- The bytes of a push are noted with its record. -/
theorem note_record (known : self.writer.task = .push push) :
    self.note .record = Function.update self.recorded push.slot push.bytes := by
  simp only [note, known]

/-- A dead slot has a record without a place. -/
theorem Operates.recordedDead (operates : self.Operates configs max contents)
    (known : self.writer.task = .push push) (stage : push.stage = .write)
    (noBlock : push.block = none) :
    Operates configs max ⟨{ self.writer with
      store := { self.writer.store with db := self.writer.store.db.slotAdd push.slot none }
      task := .push { push with stage := .recorded (StoredBlock.newDead push.slot) } },
      self.note .record⟩ contents := by
  rw [note_record known]
  apply operates.recorded known (.recordDead push known stage noBlock) SortedMap.get_insert_self
    (Task.plain_push self.recorded (Or.inr (Or.inl stage))).1 ?_ (by simp [stage]) (by rintro ⟨⟩)
  · rw [noBlock]
    exact .dead
  · simp only [Push.placed, noBlock, stage]

/-- A live slot has a record of the place of its block. -/
theorem Operates.recordedLive (operates : self.Operates configs max contents)
    {written : BlockWithBinary} {storageId : StorageId} {offset : Nat}
    (known : self.writer.task = .push push) (stage : push.stage = .written storageId offset)
    (isBlock : push.block = some written) (indexed : push.indexed = true) :
    Operates configs max ⟨{ self.writer with
      store := { self.writer.store with
        db := self.writer.store.db.slotAdd push.slot (some (written, storageId, offset)) }
      task := .push { push with stage := .recorded (StoredBlock.newConfirmed push.slot
        written.blockTime written.blockHeight storageId offset written.protobuf.length) } },
      self.note .record⟩ contents := by
  rw [note_record known]
  apply operates.recorded known (.record push written storageId offset known stage isBlock indexed)
    SortedMap.get_insert_self ?_ ?_ (by simp [stage]) (fun _ => indexed)
  · rw [isBlock]
    exact .live written storageId offset
  · simp only [Task.outside, stage]
  · simp only [Push.placed, isBlock, stage]
    rfl

/-- The lowest slot is published after a push. -/
theorem Operates.published (operates : self.Operates configs max contents)
    (known : self.writer.task = .publish side) :
    Operates configs max ⟨{ self.writer with
      store := { self.writer.store with blocks := self.writer.store.blocks.updateTotal side }
      task := .idle }, self.recorded⟩ contents := by
  refine operates.quiet (.publish side known) (by simp) rfl rfl rfl rfl ?_ ⟨rfl, rfl⟩
    (by rintro _ ⟨⟩) (by rintro _ ⟨⟩)
  rw [known]
  exact ⟨rfl, rfl⟩

end events

/-- Every permitted change leaves a process that operates or has stopped. -/
theorem Operates.change (operates : self.Operates configs max contents)
    (range : event.InRange) (permitted : self.writer.WritesInside event)
    (change : Writer.Change self.writer event after) :
    Recoverable configs max ⟨after, self.note event⟩ := by
  have same := change
  cases change with
  | send message idle report => exact Or.inl ⟨contents, operates.sent idle report⟩
  | popEmpty | frontRefused | removeFailed | freeFailed | evictEmpty | storeFailed =>
      exact Or.inr ⟨rfl, operates.durable⟩
  | popBlock side block blocks idle popped =>
      left
      refine operates.popped same popped rfl rfl rfl rfl rfl rfl ?_ ?_ ?_
      · rw [idle]
        exact ⟨rfl, rfl⟩
      · rintro _ ⟨⟩
      · rintro _ ⟨⟩
  | pushBlockFront slot block idle checked =>
      exact Or.inl ⟨contents, operates.begun idle same rfl rfl rfl rfl (Or.inl rfl) rfl range⟩
  | pushBlockBack slot block idle checked room =>
      exact Or.inl ⟨contents, operates.begun idle same rfl rfl rfl rfl (Or.inr rfl) rfl range⟩
  | backRefused slot block task idle ends =>
      obtain rfl | rfl := ends
      · exact Or.inl ⟨contents, operates.turnedAway idle same⟩
      · exact Or.inr ⟨rfl, operates.durable⟩
  | announce side block push known => exact Or.inl ⟨contents, operates.announced known⟩
  | remove side block push db known removed =>
      exact Or.inl ⟨contents, operates.removed known removed⟩
  | freeEmpty side block push known empty =>
      exact Or.inl ⟨contents, operates.emptied known empty⟩
  | free side block push files known nonempty freed =>
      exact Or.inl ⟨contents, operates.released known nonempty freed⟩
  | evict push next files block blocks known front evicts popped =>
      exact Or.inl (operates.evicted known front evicts popped)
  | roomy side slot block indexed known room =>
      exact Or.inl ⟨contents, operates.madeRoom known room⟩
  | index push next store known indexed =>
      obtain ⟨block, isBlock, -, -, -, rfl⟩ := Push.addIndexes_eq indexed
      refine Or.inl ⟨contents, operates.indexed same (by rw [known]; rfl) indexed rfl ?_ ?_ rfl
        (by rintro _ ⟨⟩)⟩
      · rw [known]
        rfl
      · rw [known]
        rfl
  | indexDuring side block stage push next store known indexed =>
      refine Or.inl ⟨contents, operates.indexed same (by rw [known]; rfl) indexed rfl ?_ ?_ rfl ?_⟩
      · rw [known]
        rfl
      · rw [known]
        rfl
      · rintro _ ⟨⟩
        exact ⟨stage, known⟩
  | tear chosen push block place files disk known stage isBlock placed =>
      exact Or.inl ⟨contents, operates.torn permitted known stage isBlock placed⟩
  | writeFailed push block error files disk known stage isBlock failed =>
      right
      obtain rfl := disk_of_failed known stage isBlock permitted failed
      exact ⟨rfl, operates.durable⟩
  | writeRefused push block files known stage isBlock back refused =>
      exact Or.inl ⟨contents, operates.unwritten known stage isBlock back refused⟩
  | write push block storageId offset files disk known stage isBlock placed =>
      exact Or.inl ⟨contents, operates.written permitted known stage isBlock placed⟩
  | refuse side slot block known => exact Or.inl ⟨contents, operates.refused known⟩
  | recordDead push known stage noBlock =>
      exact Or.inl ⟨contents, operates.recordedDead known stage noBlock⟩
  | record push block storageId offset known stage isBlock indexed =>
      exact Or.inl ⟨contents, operates.recordedLive known stage isBlock indexed⟩
  | store push cell blocks known stage stored => exact Or.inl (operates.stored known stage stored)
  | publish side known => exact Or.inl ⟨contents, operates.published known⟩

end Process

end Alpamayo
