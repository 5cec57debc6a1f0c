import Alpamayo.Proof.CrashSteps

/-!
This file shows that a process recovers from a crash at any step when its writes stay inside their files.
-/

namespace Alpamayo

open FilesState

/-- The startup finds the recorded slots without a hole, a removable record and the bytes of each live
block, and in each file the blocks between its cursors. -/
structure Startup.Recovers (startup : Startup) (recorded : Nat → Bytes) : Prop where
  slots : startup.list.map StoredBlock.slot = startup.db.slotBasicIndex.entries.map Prod.fst
  contiguous : startup.blocks.Spans startup.list
  records : ∀ slot value, startup.db.slotBasicIndex.get slot = some value → value.dead = false →
    startup.db.Indexes slot ∧ ∃ file ∈ startup.files.files, file.id = value.storageId ∧
      (startup.opened file.file).readExactAt value.offset value.size = some (recorded slot)
  files : ∀ file ∈ startup.files.files,
    file.Frames ((liveCells startup.list file.id).map StoredBlock.extent)

namespace Process

variable {first startup : Startup} {self process : Process} {configs : List ConfigStorageFile}
  {max : Nat} {contents : List StoredBlock}

/-- The process can be started again over what its writer has left, and it recovers. -/
def Recovers (first : Startup) (self : Process) : Prop :=
  ∃ startup, Reopens startup first self.writer ∧ startup.Recovers self.recorded

/-- A recoverable process leaves a database and files that can be opened again. -/
theorem Recoverable.durable (recoverable : self.Recoverable configs max) :
    Durable configs max self.writer.store.db self.writer.store.disk self.recorded := by
  obtain ⟨contents, operates⟩ | ⟨-, durable⟩ := recoverable
  · exact operates.durable
  · exact durable

/-- A ring that is loaded from the cells of sized files makes a process operate. -/
theorem operates_start {recorded : Nat → Bytes} (lists : startup.db.Lists startup.max)
    (isList : startup.list = startup.db.cells)
    (files : Sized configs ⟨startup.files, startup.opened, liveEntries recorded startup.db.cells⟩) :
    Operates configs startup.max ⟨startup.writer, recorded⟩ startup.db.cells where
  spans := isList ▸ Writer.spans_start startup.loaded startup.placed
  size := by
    obtain ⟨present, chain, -⟩ := spawnSlotsLoop_chain startup.loaded
    exact (StoredBlocksWrite.new_represents ⟨present, chain⟩ startup.placed).2
  cells := rfl
  lists := lists
  files := files
  pushes := by rintro _ ⟨⟩
  waits := by rintro _ ⟨⟩
  bytes := by rintro _ ⟨⟩

/-- Every startup over a durable database loads its cells and restores the cursors of its files. -/
theorem startup_eq {disk : Disk} {recorded : Nat → Bytes}
    (durable : Durable startup.configs startup.max startup.db disk recorded)
    (isDisk : startup.disk = disk) (ids : (startup.configs.map ConfigStorageFile.id).Nodup)
    (paths : (startup.configs.map ConfigStorageFile.path).Nodup) :
    startup.list = startup.db.cells ∧
      startup.files = StorageFilesWrite.reopened startup.configs startup.db.cells ∧
      Sized startup.configs ⟨startup.files, startup.opened,
        liveEntries recorded startup.db.cells⟩ := by
  have loaded := Rocksdb.spawnSlots_eq durable.lists.consecutive durable.lists.bounded
  have isList : startup.list = startup.db.cells := Except.ok.inj (startup.loaded.symm.trans loaded)
  have placed := startup.placed
  rw [isList] at placed
  obtain ⟨disk', success, sized⟩ := durable.openAll ids paths placed
  have opened := startup.success
  rw [isDisk, success] at opened
  obtain ⟨result, sameDisk⟩ := Prod.mk.inj opened
  obtain ⟨isFiles, -⟩ := Prod.mk.inj (Except.ok.inj result)
  rw [isFiles, sameDisk] at sized
  exact ⟨isList, isFiles.symm, sized⟩

/-- A startup over a durable database recovers. -/
theorem recovers_startup {disk : Disk} {recorded : Nat → Bytes}
    (durable : Durable startup.configs startup.max startup.db disk recorded)
    (isDisk : startup.disk = disk) (ids : (startup.configs.map ConfigStorageFile.id).Nodup)
    (paths : (startup.configs.map ConfigStorageFile.path).Nodup) : startup.Recovers recorded := by
  obtain ⟨isList, isFiles, sized⟩ := startup_eq durable isDisk ids paths
  have sorted := List.mergeSort_perm startup.configs fun first second => first.id ≤ second.id
  have operates := operates_start durable.lists isList sized
  refine ⟨?_, ?_, ?_, ?_⟩
  · rw [isList, Rocksdb.cells, List.map_map]
    rfl
  · rw [isList]
    exact operates.spans.ring
  · intro slot value found live
    refine ⟨(durable.lists.recorded slot value found).2 live, ?_⟩
    have entry : (Rocksdb.storedBlockOf slot value, recorded slot) ∈
        liveEntries recorded startup.db.cells :=
      mem_liveEntries.mpr ⟨Rocksdb.mem_cells.mpr ⟨value, found, rfl⟩,
        by simp [Rocksdb.storedBlockOf, StoredBlock.isLive, live], rfl⟩
    obtain ⟨file, inFiles, owns⟩ := sized.owner entry
    exact ⟨file, inFiles, owns, sized.read entry inFiles owns⟩
  · intro file member
    rw [isFiles] at member
    obtain ⟨config, inSorted, rfl⟩ := List.mem_map.mp member
    have inConfigs := sorted.mem_iff.mp inSorted
    have placed := sized.placed_restored inConfigs
    have bounds := fun cell (inCells : cell ∈ liveCells startup.db.cells config.id) =>
      sized.bounds inConfigs inCells
    rw [isList]
    refine ⟨?_, ?_, placed.wraps ?_⟩
    · intro extent isFirst
      rw [List.head?_map] at isFirst
      obtain ⟨cell, found, rfl⟩ := Option.map_eq_some_iff.mp isFirst
      exact (congrArg (fun first => (first.map StoredBlock.offset).getD 0) found).symm
    · intro extent isLast
      rw [List.getLast?_map] at isLast
      obtain ⟨cell, found, rfl⟩ := Option.map_eq_some_iff.mp isLast
      exact (congrArg (fun last => (last.map fun cell => cell.offset + cell.size).getD 0) found).symm
    · intro extent inside
      obtain ⟨cell, found, rfl⟩ := List.mem_map.mp inside
      exact (bounds cell found).1

/-- A durable database can be opened again. -/
theorem exists_startup {db : Rocksdb} {disk : Disk} {recorded : Nat → Bytes}
    (durable : Durable configs max db disk recorded)
    (ids : (configs.map ConfigStorageFile.id).Nodup)
    (paths : (configs.map ConfigStorageFile.path).Nodup) :
    ∃ startup : Startup, startup.configs = configs ∧ startup.max = max ∧ startup.db = db ∧
      startup.disk = disk := by
  have loaded := Rocksdb.spawnSlots_eq durable.lists.consecutive durable.lists.bounded
  obtain ⟨blocks, placed⟩ := StoredBlocksWrite.exists_new durable.positive durable.lists.few
  obtain ⟨disk', success, -⟩ := durable.openAll ids paths placed
  exact ⟨⟨db, max, configs, disk, _, blocks, _, _, disk', loaded, placed, success⟩, rfl, rfl, rfl, rfl⟩

/-- A recoverable process recovers. -/
theorem Recoverable.recovers (recoverable : self.Recoverable first.configs first.max)
    (ids : (first.configs.map ConfigStorageFile.id).Nodup)
    (paths : (first.configs.map ConfigStorageFile.path).Nodup) : self.Recovers first := by
  have durable := recoverable.durable
  obtain ⟨startup, configs, max, db, disk⟩ := exists_startup durable ids paths
  refine ⟨startup, ⟨configs, max, db, disk⟩, ?_⟩
  rw [← configs, ← max, ← db] at durable
  rw [← configs] at ids paths
  exact recovers_startup durable disk ids paths

/-- The first startup over an empty database makes a process operate. -/
theorem operates_first (empty : first.db = Rocksdb.empty)
    (ids : (first.configs.map ConfigStorageFile.id).Nodup)
    (paths : (first.configs.map ConfigStorageFile.path).Nodup) :
    Operates first.configs first.max (start first) [] := by
  have cells : first.db.cells = [] := by
    rw [empty]
    rfl
  have isList : first.list = first.db.cells := by
    have loaded := first.loaded
    rw [empty] at loaded
    rw [cells]
    exact (Except.ok.inj loaded).symm
  have placed := first.placed
  rw [isList, cells] at placed
  have fresh : first.blocks.getStoredBoundaries = HashMap.empty := by
    funext id
    exact StoredBlocksWrite.getStoredBoundaries_get ⟨by simp, .nil⟩ placed id
  obtain ⟨files, restored, isFiles, -⟩ := openAll_ok first.success
  rw [fresh, StorageFilesWrite.restoreAll_empty, List.zipIdx_map_fst] at restored
  have isReopened : first.files = StorageFilesWrite.reopened first.configs first.db.cells := by
    rw [isFiles, cells]
    cases restored
    rfl
  have sized : Sized first.configs ⟨first.files, first.opened,
      liveEntries (fun _ => []) first.db.cells⟩ := by
    rw [isReopened]
    apply sized_reopened ids paths (sized_openAll paths first.success)
    · intro config _
      rw [cells]
      exact StorageFile.placed_empty _ _ _ _
    · rw [cells]
      simp
  have lists : first.db.Lists first.max := by
    refine ⟨?_, ?_, ?_, ?_⟩
    · rw [cells]
      exact ⟨by simp, .nil⟩
    · rw [cells]
      exact Nat.zero_le _
    · simp [cells]
    · rw [empty]
      intro slot value found
      cases found
  have operates := operates_start lists isList sized
  rw [cells] at operates
  exact operates

/-- A run of the writer of the first startup is a run of the process. -/
theorem reaches_of_run {allowed : Writer → WriterEvent → Prop} {after : Writer}
    (run : Writer.Run allowed first.writer after) :
    ∃ recorded, Reaches first allowed ⟨after, recorded⟩ := by
  induction run with
  | refl => exact ⟨_, .refl⟩
  | tail _ stepped ih =>
      obtain ⟨recorded, reached⟩ := ih
      obtain ⟨event, permitted, stepped⟩ := stepped
      exact ⟨_, reached.tail (.takes event _ permitted stepped)⟩

/-- A process whose writes stay inside their files and take bytes at equal cursors only from files without
live records recovers from a crash in every state that it reaches. -/
theorem recovers_of_writesInside (first : Startup) (empty : first.db = Rocksdb.empty)
    (ids : (first.configs.map ConfigStorageFile.id).Nodup)
    (paths : (first.configs.map ConfigStorageFile.path).Nodup) (process : Process)
    (reached : Reaches first (fun writer event => event.InRange ∧ writer.WritesInside event) process) :
    process.Recovers first := by
  have recoverable : process.Recoverable first.configs first.max := by
    induction reached with
    | refl => exact Or.inl ⟨[], operates_first empty ids paths⟩
    | tail _ stepped ih =>
        cases stepped with
        | takes event after permitted stepped =>
            have change := Writer.change_of_step stepped
            obtain ⟨contents, operates⟩ | ⟨stopped, -⟩ := ih
            · exact operates.change permitted.1 permitted.2 change
            · exact absurd change (no_change_of_stopped stopped)
        | restarts startup reopens =>
            have durable := ih.durable
            rw [← reopens.configs, ← reopens.max, ← reopens.db] at durable
            obtain ⟨isList, -, sized⟩ := startup_eq durable reopens.disk
              (by rw [reopens.configs]; exact ids) (by rw [reopens.configs]; exact paths)
            have operates := operates_start durable.lists isList sized
            rw [reopens.configs, reopens.max] at operates
            exact Or.inl ⟨_, operates⟩
  exact recoverable.recovers ids paths

/-- The process is cut between the write of the second block and its record, starts again, and
recovers. -/
theorem recovers_of_writesInside_second : ∃ cut restarted : Process,
    cut.writer.task.underWay.isSome = true ∧
      Step (Startup.oneFile 20 (by decide))
        (fun writer event => event.InRange ∧ writer.WritesInside event) cut restarted ∧
      restarted.Recovers (Startup.oneFile 20 (by decide)) := by
  let first := Startup.oneFile 20 (by decide)
  let events := Writer.storeFront 1 (Writer.plainBlock 1 [1, 1]) ++
    [.pushBlockFront 2 (some (Writer.plainBlock 2 [2, 2, 2])), .roomy, .index, .write]
  have taken : (first.writer.takeAll events).map (fun writer => writer.task.underWay.isSome) =
      some true := by
    decide +kernel
  obtain ⟨after, taken, underWay⟩ := Option.map_eq_some_iff.mp taken
  have ids : (first.configs.map ConfigStorageFile.id).Nodup := List.nodup_singleton _
  have paths : (first.configs.map ConfigStorageFile.path).Nodup := List.nodup_singleton _
  have run : Writer.Run (fun writer event => event.InRange ∧ writer.WritesInside event) first.writer
      after := Writer.run_of_takeAll (by decide +kernel) taken
  obtain ⟨recorded, reached⟩ := reaches_of_run run
  obtain ⟨startup, reopens, -⟩ := recovers_of_writesInside first rfl ids paths _ reached
  have restarts : Step first (fun writer event => event.InRange ∧ writer.WritesInside event)
      ⟨after, recorded⟩ ⟨startup.writer, recorded⟩ := .restarts startup reopens
  exact ⟨_, _, underWay, restarts,
    recovers_of_writesInside first rfl ids paths _ (reached.tail restarts)⟩

/-- A block at the end of an empty file goes beyond the end, and the longer file does not open. -/
theorem recovers_false : ¬ ∀ first : Startup, first.db = Rocksdb.empty →
    (first.configs.map ConfigStorageFile.id).Nodup →
    (first.configs.map ConfigStorageFile.path).Nodup → ∀ process : Process,
    Reaches first (fun writer event => event.InRange ∧ writer.WritesApart event) process →
    process.Recovers first := by
  intro always
  let first := Startup.oneFile 10 (by decide)
  let events := Writer.storeFront 1 (Writer.plainBlock 1 (List.replicate 8 1)) ++
    [.popBlock .back, .announce, .remove, .free,
      .pushBlockFront 2 (some (Writer.plainBlock 2 (List.replicate 5 2))), .roomy, .write]
  have taken : (first.writer.takeAll events).map (fun writer => (writer.store.disk "a").len) =
      some 13 := by
    decide +kernel
  obtain ⟨after, taken, longer⟩ := Option.map_eq_some_iff.mp taken
  have run : Writer.Run (fun writer event => event.InRange ∧ writer.WritesApart event) first.writer
      after := Writer.run_of_takeAll (by decide +kernel) taken
  obtain ⟨recorded, reached⟩ := reaches_of_run run
  obtain ⟨startup, reopens, -⟩ := always first rfl (List.nodup_singleton _) (List.nodup_singleton _) _
    reached
  have success := startup.success
  have configs : startup.configs = [⟨0, "a", 10, true⟩] := reopens.configs
  have len : (startup.disk "a").len = 13 := by rw [reopens.disk, longer]
  rw [configs] at success
  simp [StorageFilesWrite.openAll, StorageFilesWrite.openFiles, StorageFilesWrite.openFile, len]
    at success

end Process

end Alpamayo
