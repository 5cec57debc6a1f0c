import Alpamayo.Proof.DurableStore

/-!
This file follows the live blocks of a store through its operations and restarts and compares the files
of the writer with those of the readers.
-/

namespace Alpamayo

namespace StorageFilesWrite

variable {configs : List ConfigStorageFile} {disk disk' : Disk} {files : List StorageFile}

/-- The boundaries move only the cursors of a file, to the ends of its first and last block. -/
theorem restoreCursors_ok {file file' : StorageFile} {boundaries : Option StorageBlocksBoundaries}
    (success : restoreCursors file boundaries = .ok file') :
    (boundaries = none ∧ file' = file) ∨ ∃ stored, boundaries = some stored ∧
      stored.tail.getD 0 < file.size ∧ stored.head.getD 0 ≤ file.size ∧
      file' = { file with tail := stored.tail.getD 0, head := stored.head.getD 0 } := by
  unfold restoreCursors at success
  split at success
  · cases success
    exact Or.inl ⟨rfl, rfl⟩
  · rename_i stored
    dsimp only at success
    split at success
    · cases success
    · rename_i tail
      split at success
      · cases success
      · rename_i head
        cases success
        exact Or.inr ⟨stored, rfl, not_not.mp tail, not_not.mp head, rfl⟩

/-- Each file is restored from the boundaries of its id. -/
theorem restoreAll_getElem {id2file : HashMap StorageId Nat}
    {boundaries : HashMap StorageId StorageBlocksBoundaries} {entries : List (StorageFile × Nat)}
    (success : restoreAll id2file boundaries entries = .ok files) (index : Nat) {file' : StorageFile}
    (place : files[index]? = some file') :
    ∃ entry, entries[index]? = some entry ∧ restoreCursors entry.1
      (if id2file.get entry.1.id = some entry.2 then boundaries.get entry.1.id else none) =
        .ok file' := by
  induction entries generalizing files index with
  | nil =>
      cases success
      cases place
  | cons entry rest ih =>
      obtain ⟨file, position⟩ := entry
      simp only [restoreAll] at success
      split at success
      · cases success
      · rename_i restored first
        split at success
        · cases success
        · rename_i later
          cases success
          cases index with
          | zero =>
              cases place
              exact ⟨_, rfl, first⟩
          | succ index => exact ih later index place

/-- An opening keeps what can be read. -/
theorem readExactAt_openFile {config : ConfigStorageFile} {file : StorageFile}
    (success : openFile config disk = (.ok file, disk')) {path : Path} {offset size : Nat}
    {content : Bytes} (bytes : (disk path).readExactAt offset size = some content) :
    (disk' path).readExactAt offset size = some content := by
  unfold openFile at success
  dsimp only at success
  split at success
  · rename_i empty
    cases success
    by_cases here : path = config.path
    · -- Only empty ranges can be read from an empty file.
      subst here
      unfold DiskFile.readExactAt at bytes ⊢
      split at bytes
      · obtain ⟨rfl, rfl⟩ : offset = 0 ∧ size = 0 := by omega
        rw [if_pos (Nat.zero_le _)]
        exact bytes
      · cases bytes
    · have kept := Function.update_of_ne here ⟨config.size, fun _ => 0⟩ disk
      exact (congrArg (fun file => DiskFile.readExactAt file offset size) kept).trans bytes
  · split at success
    · cases success
    · cases success
      exact bytes

theorem readExactAt_openFiles (success : openFiles configs disk = (.ok files, disk')) {path : Path}
    {offset size : Nat} {content : Bytes}
    (bytes : (disk path).readExactAt offset size = some content) :
    (disk' path).readExactAt offset size = some content := by
  induction configs generalizing disk files with
  | nil =>
      cases success
      exact bytes
  | cons config rest ih =>
      simp only [openFiles] at success
      split at success
      · cases success
      · rename_i first
        split at success
        · cases success
        · rename_i later
          cases success
          exact ih later (readExactAt_openFile first bytes)

theorem readExactAt_openAll {blocks : StoredBlocksWrite}
    {opened : StorageFilesWrite × StorageFilesSyncInit}
    (success : openAll configs blocks disk = (.ok opened, disk')) {path : Path} {offset size : Nat}
    {content : Bytes} (bytes : (disk path).readExactAt offset size = some content) :
    (disk' path).readExactAt offset size = some content := by
  simp only [openAll] at success
  split at success
  · cases success
  · rename_i openedFiles
    split at success
    · cases success
    · split at success <;> cases success
      exact readExactAt_openFiles openedFiles bytes

end StorageFilesWrite

namespace FilesState

/-- The stores that a first opening without blocks, allowed operations and restarts lead to, each with
the message to the readers of its last opening. A restart loads cells of which those of the stored
blocks are live. -/
inductive Lifetime (configs : List ConfigStorageFile) (allowed : FilesState → FileOp → Prop) :
    FilesState → StorageFilesSyncInit → Prop
  | first (blocks : StoredBlocksWrite) (disk disk' : Disk) (write : StorageFilesWrite)
      (init : StorageFilesSyncInit) (fresh : blocks.getStoredBoundaries = HashMap.empty)
      (success : StorageFilesWrite.openAll configs blocks disk = (.ok (write, init), disk')) :
      Lifetime configs allowed ⟨write, disk', []⟩ init
  | step (state next : FilesState) (init : StorageFilesSyncInit) (op : FileOp)
      (before : Lifetime configs allowed state init) (permitted : allowed state op)
      (stepped : state.step op = some next) : Lifetime configs allowed next init
  | restart (state : FilesState) (init init' : StorageFilesSyncInit) (cells : List StoredBlock)
      (max : Nat) (blocks : StoredBlocksWrite) (disk' : Disk) (write : StorageFilesWrite)
      (before : Lifetime configs allowed state init) (consecutive : Consecutive cells)
      (same : cells.filter StoredBlock.isLive = state.live.map Prod.fst)
      (loaded : StoredBlocksWrite.new cells max = .ok blocks)
      (success : StorageFilesWrite.openAll configs blocks state.disk = (.ok (write, init'), disk')) :
      Lifetime configs allowed ⟨write, disk', state.live⟩ init'

variable {configs : List ConfigStorageFile} {allowed : FilesState → FileOp → Prop}
  {state next : FilesState} {init : StorageFilesSyncInit} {op : FileOp} {disk disk' : Disk}
  {write : StorageFilesWrite} {blocks : StoredBlocksWrite} {cells : List StoredBlock} {max : Nat}

/-- A push ends with the files of its outcome. -/
theorem pushed_files {add : StoredBlock × Bytes → List (StoredBlock × Bytes)}
    {cell : StorageId → Nat → StoredBlock} {buffer : Bytes}
    {result : Except StorageError (Option (StorageId × Nat)) × StorageFilesWrite × Disk}
    (stepped : state.pushed add cell buffer result = some next) : next.files = result.2.1 := by
  obtain ⟨failed | _ | ⟨storageId, offset⟩, files, disk⟩ := result <;> cases stepped <;> rfl

/-- Every operation keeps the shapes of the files and the map of the ids. -/
theorem step_shapes (stepped : state.step op = some next) :
    next.files.files.map shape = state.files.files.map shape ∧
      next.files.id2file = state.files.id2file := by
  have written (buffer : Bytes) (side : VecSide) (file : StorageFile) :
      shape (file.writeSide state.disk buffer side).2.1 = shape file := by
    obtain ⟨tail, head, same⟩ := file.writeSide_cursors state.disk buffer side
    rw [same]
    rfl
  have removed (block : StoredBlock) (side : VecSide) (file : StorageFile) :
      shape (file.popBlock block side).2 = shape file := by
    obtain ⟨tail, head, same⟩ := file.popBlock_cursors block side
    rw [same]
    rfl
  cases op with
  | writeFront slot blockTime blockHeight buffer =>
      simp only [step] at stepped
      split at stepped <;> [skip; cases stepped]
      rw [pushed_files stepped]
      exact StorageFilesWrite.pushBlock_map shape (written buffer .front)
  | writeBack slot blockTime blockHeight buffer =>
      simp only [step] at stepped
      split at stepped <;> [skip; cases stepped]
      rw [pushed_files stepped]
      exact StorageFilesWrite.pushBlock_map shape (written buffer .back)
  | popBack =>
      simp only [step] at stepped
      split at stepped
      · cases stepped
      · rename_i entry _
        have kept : (state.files.popBlock entry.1 .back).2.files.map shape = _ ∧ _ :=
          StorageFilesWrite.popBlock_map shape (removed entry.1 .back)
        split at stepped <;> cases stepped
        rename_i popped
        rwa [show state.files.popBlock entry.1 .back = _ from popped] at kept
  | popFront =>
      simp only [step] at stepped
      split at stepped
      · cases stepped
      · rename_i entry _
        have kept : (state.files.popBlock entry.1 .front).2.files.map shape = _ ∧ _ :=
          StorageFilesWrite.popBlock_map shape (removed entry.1 .front)
        split at stepped <;> cases stepped
        rename_i popped
        rwa [show state.files.popBlock entry.1 .front = _ from popped] at kept

/-- An opening gives the configured shapes, the map of the sorted ids, and the paths as they are listed. -/
theorem shapes_openAll (success : StorageFilesWrite.openAll configs blocks disk =
      (.ok (write, init), disk')) :
    write.files.map shape = (ConfigStorageFile.sortById configs).map (fun config =>
        (config.id, config.path, config.size)) ∧
      write.id2file = StorageFilesWrite.idMap
        ((ConfigStorageFile.sortById configs).map StorageFilesWrite.opened) ∧
      init = ⟨configs.map ConfigStorageFile.path, write.id2file⟩ := by
  obtain ⟨files, restored, rfl, rfl⟩ := openAll_ok success
  refine ⟨?_, rfl, rfl⟩
  have lengths : files.length = (ConfigStorageFile.sortById configs).length := by
    have kept := congrArg List.length (StorageFilesWrite.restoreAll_ok restored)
    simpa using kept
  apply List.ext_getElem?
  intro index
  cases place : files[index]? with
  | none =>
      have outside := List.getElem?_eq_none_iff.mp place
      rw [List.getElem?_eq_none (by simpa using outside),
        List.getElem?_eq_none (by rw [List.length_map, ← lengths]; exact outside)]
  | some file' =>
      obtain ⟨entry, inside, cursors⟩ :=
        StorageFilesWrite.restoreAll_getElem restored index place
      rw [List.getElem?_zipIdx, List.getElem?_map] at inside
      cases found : (ConfigStorageFile.sortById configs)[index]? with
      | none =>
          rw [found] at inside
          cases inside
      | some config =>
          rw [found] at inside
          cases inside
          rw [List.getElem?_map, List.getElem?_map, place, found]
          obtain ⟨-, same⟩ | ⟨stored, -, -, -, same⟩ :=
            StorageFilesWrite.restoreCursors_ok cursors <;>
          · rw [same]
            rfl

/-- The files of a store have the configured shapes, and the readers have its map and the listed paths. -/
theorem Lifetime.shapes (lifetime : Lifetime configs allowed state init) :
    state.files.files.map shape = (ConfigStorageFile.sortById configs).map (fun config =>
        (config.id, config.path, config.size)) ∧
      state.files.id2file = StorageFilesWrite.idMap
        ((ConfigStorageFile.sortById configs).map StorageFilesWrite.opened) ∧
      init = ⟨configs.map ConfigStorageFile.path, state.files.id2file⟩ := by
  induction lifetime with
  | first blocks disk disk' write init fresh success => exact shapes_openAll success
  | step state next init op before permitted stepped ih =>
      obtain ⟨shaped, map⟩ := step_shapes stepped
      rw [shaped, map]
      exact ih
  | restart state init init' cells max blocks disk' write before consecutive same loaded success ih =>
      exact shapes_openAll success

/-- A store stays connected with its configuration. -/
theorem Lifetime.openedFrom (distinct : (configs.map ConfigStorageFile.id).Nodup)
    (lifetime : Lifetime configs allowed state init) : OpenedFrom configs state.files init := by
  obtain ⟨shapes, map, rfl⟩ := lifetime.shapes
  have names := congrArg (List.map fun shape => (shape.1, shape.2.1)) shapes
  rw [List.map_map, List.map_map] at names
  refine ⟨names, ?_, rfl, rfl⟩
  intro id index place
  rw [map]
  apply StorageFilesWrite.idMap_get
  · rw [List.map_map]
    exact ((List.mergeSort_perm configs _).map ConfigStorageFile.id).nodup_iff.mpr distinct
  · rw [← place, List.map_map]
    have ids := congrArg (List.map Prod.fst) names
    rw [List.map_map, List.map_map] at ids
    exact congrArg (fun list => list[index]?) ids.symm

/-- The extents of the stored blocks are those of the loaded live cells. -/
theorem extentsOf_eq (same : cells.filter StoredBlock.isLive = state.live.map Prod.fst)
    (id : StorageId) : extentsOf state.live id = (liveCells cells id).map StoredBlock.extent := by
  have own : liveCells cells id =
      (cells.filter StoredBlock.isLive).filter fun cell => cell.storageId = id := by
    rw [liveCells, List.filter_filter]
    apply List.filter_congr
    intro cell _
    exact Bool.and_comm _ _
  rw [own, same, List.filter_map, List.map_map, extentsOf]
  rfl

/-- Cursors at the ends of the first and the last extent place what the old cursors placed. -/
theorem placed_restoreCursors {file file' : StorageFile} {config : ConfigStorageFile}
    {own : List StoredBlock} (placed : file.Placed (own.map StoredBlock.extent))
    (size : file.size = config.size)
    (cursors : StorageFilesWrite.restoreCursors (StorageFilesWrite.opened config)
      (own.head?.map fun first => ⟨some first, own.getLast?⟩) = .ok file') :
    file'.Placed (own.map StoredBlock.extent) := by
  obtain ⟨none, rfl⟩ | ⟨stored, known, tail, head, rfl⟩ :=
    StorageFilesWrite.restoreCursors_ok cursors
  · have empty : own = [] := by simpa using none
    subst empty
    exact StorageFile.placed_empty _ _ _ _
  · obtain ⟨first, isFirst, rfl⟩ := Option.map_eq_some_iff.mp known
    obtain ⟨rest, rfl⟩ := List.head?_eq_some_iff.mp isFirst
    obtain ⟨last, isLast⟩ : ∃ last, (first :: rest).getLast? = some last :=
      ⟨_, List.getLast?_eq_some_getLast (List.cons_ne_nil _ _)⟩
    rw [isLast] at head ⊢
    have isHead : ((first :: rest).map StoredBlock.extent).head? = some first.extent := rfl
    have isTail : ((first :: rest).map StoredBlock.extent).getLast? = some last.extent := by
      rw [List.getLast?_map, isLast]
      rfl
    have tight := placed.tighten isHead isTail (size ▸ tail) (size ▸ head)
    obtain ⟨headBound, tailBound, turns⟩ := tight
    rw [size] at headBound tailBound turns
    exact ⟨headBound, tailBound, turns⟩

/-- A restart over a valid store gives a valid store again. -/
theorem Valid.restart (distinct : (configs.map ConfigStorageFile.id).Nodup)
    {names : List (StorageId × Path)} (valid : state.Valid names)
    (from' : OpenedFrom configs write init)
    (before : state.files.files.map shape = (ConfigStorageFile.sortById configs).map fun config =>
      (config.id, config.path, config.size)) (consecutive : Consecutive cells)
    (same : cells.filter StoredBlock.isLive = state.live.map Prod.fst)
    (loaded : StoredBlocksWrite.new cells max = .ok blocks)
    (success : StorageFilesWrite.openAll configs blocks state.disk = (.ok (write, init), disk')) :
    Valid ⟨write, disk', state.live⟩ names := by
  obtain ⟨shapes, -, -⟩ := shapes_openAll success
  rw [← before] at shapes
  -- The files stand at the same places with the same ids, paths and sizes.
  have place {index : Nat} {file' : StorageFile} (here : write.files[index]? = some file') :
      ∃ file, state.files.files[index]? = some file ∧ shape file = shape file' := by
    have both := congrArg (fun list => list[index]?) shapes
    simp only [List.getElem?_map, here, Option.map_some] at both
    exact Option.map_eq_some_iff.mp both.symm
  have keeps {A : Type} (f : StorageId × Path × Nat → A) :
      write.files.map (fun file => f (shape file)) =
        state.files.files.map fun file => f (shape file) := by
    have mapped := congrArg (List.map f) shapes
    rwa [List.map_map, List.map_map] at mapped
  refine ⟨?_, ?_, ?_, from'.index, ?_, ?_⟩
  · exact (keeps fun shape => (shape.1, shape.2.1)).trans valid.names
  · rw [show write.files.map StorageFile.id = _ from keeps Prod.fst]
    exact valid.ids
  · rw [show write.files.map StorageFile.file = _ from keeps fun shape => shape.2.1]
    exact valid.paths
  · intro index file' here
    obtain ⟨file, there, equal⟩ := place here
    have placed := valid.placed index file there
    obtain ⟨files, restored, rfl, -⟩ := openAll_ok success
    obtain ⟨entry, inside, cursors⟩ := StorageFilesWrite.restoreAll_getElem restored index here
    rw [List.getElem?_zipIdx, List.getElem?_map, Option.map_map, Option.map_eq_some_iff] at inside
    obtain ⟨config, found, rfl⟩ := inside
    have configured := congrArg (fun list => list[index]?) before
    simp only [List.getElem?_map, there, found, Option.map_some, Option.some.injEq] at configured
    obtain ⟨id, -, size⟩ : file.id = config.id ∧ file.file = config.path ∧ file.size = config.size := by
      simpa [shape] using configured
    have ids : (((ConfigStorageFile.sortById configs).map StorageFilesWrite.opened).map
        StorageFile.id).Nodup := by
      rw [List.map_map]
      exact ((List.mergeSort_perm configs _).map ConfigStorageFile.id).nodup_iff.mpr distinct
    have place : (((ConfigStorageFile.sortById configs).map StorageFilesWrite.opened).map
        StorageFile.id)[index]? = some config.id := by
      rw [List.getElem?_map, List.getElem?_map, found]
      rfl
    have selected := StorageFilesWrite.idMap_get ids place
    simp only [Function.comp, Nat.zero_add] at cursors
    rw [show (StorageFilesWrite.opened config).id = config.id from rfl, selected, if_pos rfl,
      StoredBlocksWrite.getStoredBoundaries_get consecutive loaded] at cursors
    rw [extentsOf_eq same] at placed ⊢
    have named : file'.id = config.id := (congrArg Prod.fst equal).symm.trans id
    rw [named]
    rw [id] at placed
    exact placed_restoreCursors placed size cursors
  · intro entry member
    obtain ⟨index, file, there, owns, bytes⟩ := valid.stored entry member
    have both := congrArg (fun list => list[index]?) shapes
    simp only [List.getElem?_map, there, Option.map_some] at both
    obtain ⟨file', here, equal⟩ := Option.map_eq_some_iff.mp both
    have named : file'.id = file.id ∧ file'.file = file.file := by
      simp only [shape, Prod.mk.injEq] at equal
      exact ⟨equal.1, equal.2.1⟩
    refine ⟨index, file', here, named.1.trans owns, ?_⟩
    rw [named.2]
    exact StorageFilesWrite.readExactAt_openAll success bytes

/-- A store whose operations are guarded stays valid through all its restarts. -/
theorem Lifetime.valid (distinct : (configs.map ConfigStorageFile.id).Nodup)
    (distinctPaths : (configs.map ConfigStorageFile.path).Nodup)
    (guarded : ∀ state op, allowed state op → state.Guard op)
    (lifetime : Lifetime configs allowed state init) :
    state.Valid ((ConfigStorageFile.sortById configs).map fun config => (config.id, config.path)) := by
  induction lifetime with
  | first blocks disk disk' write init fresh success =>
      rw [← (openedFrom_openAll distinct success).files]
      exact valid_openAll distinct distinctPaths fresh success
  | step state next init op before permitted stepped ih =>
      exact ih.step (guarded state op permitted) stepped
  | restart state init init' cells max blocks disk' write before consecutive same loaded success ih =>
      exact ih.restart distinct (openedFrom_openAll distinct success) before.shapes.1 consecutive same
        loaded success

/-- The readers of paths that are listed by id read every stored block of a valid store. -/
theorem Valid.read (valid : state.Valid ((ConfigStorageFile.sortById configs).map fun config =>
      (config.id, config.path))) (from' : OpenedFrom configs state.files init)
    (listed : ListedById configs) {entry : StoredBlock × Bytes} (member : entry ∈ state.live) :
    (StorageFilesRead.openAll init).read state.disk entry.1.storageId entry.1.offset entry.1.size =
      .ok entry.2 := by
  obtain ⟨index, file, place, owns, bytes⟩ := valid.stored entry member
  obtain ⟨config, found, -, samePath⟩ := from'.config place
  have path : (StorageFilesRead.openAll init).fileOf entry.1.storageId = some file.file := by
    rw [← owns, from'.fileOf place, listed, List.getElem?_map, found, Option.map_some, samePath]
  rw [StorageFilesRead.read, path]
  simp only [bytes]

end FilesState

open FilesState

/-- At every moment of a store, writer and readers use the same file for each id exactly when the paths
are listed by id; if also the paths are distinct and the operations are guarded, the readers read every
stored block. -/
theorem openAll_agree_iff (configs : List ConfigStorageFile)
    (allowed : FilesState → FileOp → Prop) (state : FilesState) (init : StorageFilesSyncInit)
    (distinct : (configs.map ConfigStorageFile.id).Nodup)
    (lifetime : Lifetime configs allowed state init) :
    (PathsAgree configs state.files (StorageFilesRead.openAll init) ↔ ListedById configs) ∧
      (ListedById configs → (configs.map ConfigStorageFile.path).Nodup →
        (∀ state op, allowed state op → state.Guard op) →
        ∀ entry ∈ state.live, (StorageFilesRead.openAll init).read state.disk entry.1.storageId
          entry.1.offset entry.1.size = .ok entry.2) := by
  have from' := lifetime.openedFrom distinct
  refine ⟨from'.pathsAgree_iff distinct, ?_⟩
  intro listed distinctPaths guarded entry member
  exact (lifetime.valid distinct distinctPaths guarded).read from' listed member

/-- Two files of ten bytes with the lower id first. -/
def ascendingFiles : List ConfigStorageFile := [⟨0, "a", 10, true⟩, ⟨1, "b", 10, true⟩]

theorem sortById_ascendingFiles : ConfigStorageFile.sortById ascendingFiles = ascendingFiles :=
  List.mergeSort_of_pairwise (by decide)

/-- These files open over files of ten bytes when the cells lie inside them. -/
theorem openAll_ascendingFiles (cells : List StoredBlock) {max : Nat} {blocks : StoredBlocksWrite}
    {disk : Disk} (sized : ∀ path, (disk path).len = 10) (consecutive : Consecutive cells)
    (loaded : StoredBlocksWrite.new cells max = .ok blocks)
    (inside : ∀ cell ∈ cells, cell.isLive = true → (cell.storageId = 0 ∨ cell.storageId = 1) ∧
      cell.offset < 10 ∧ cell.offset + cell.size ≤ 10) :
    ∃ disk', StorageFilesWrite.openAll ascendingFiles blocks disk =
      (.ok (⟨ascendingFiles.map (StorageFilesWrite.restored cells),
          StorageFilesWrite.idMap (ascendingFiles.map StorageFilesWrite.opened), 0⟩,
        ⟨["a", "b"], StorageFilesWrite.idMap (ascendingFiles.map StorageFilesWrite.opened)⟩), disk') ∧
      ∀ path, (disk' path).len = 10 := by
  have ten : ∀ config ∈ ascendingFiles, config.size = 10 := by decide
  have distinct : (ascendingFiles.map ConfigStorageFile.id).Nodup := by decide
  obtain ⟨disk', success, same⟩ := openAll_eq distinct
    (fun config member => (sized config.path).trans (ten config member).symm) consecutive loaded
    (fun cell member live => by
      obtain ⟨owned | owned, -⟩ := inside cell member live
      · exact ⟨_, List.mem_cons_self, owned.symm⟩
      · exact ⟨_, List.mem_cons_of_mem _ List.mem_cons_self, owned.symm⟩)
    (fun config member cell inCells => by
      obtain ⟨inList, live, -⟩ := mem_liveCells.mp inCells
      rw [ten config member]
      exact (inside cell inList live).2)
  rw [StorageFilesWrite.reopened, sortById_ascendingFiles] at success
  exact ⟨disk', success, fun path => (same path).1.trans (sized path)⟩

/-- The blocks of two slots lie in the two files, and the slot between them is dead. -/
def storedCells : List StoredBlock :=
  [.newConfirmed 5 none (some 5) 0 0 3, .newDead 6, .newConfirmed 7 none (some 6) 1 0 2]

/-- The readers read the blocks that were written before and after a restart. -/
theorem openAll_agree_iff_restarted : ∃ state init,
    Lifetime ascendingFiles Guard state init ∧ state.live =
      [(.newConfirmed 5 none (some 5) 0 0 3, [1, 2, 3]), (.newConfirmed 7 none (some 6) 1 0 2, [4, 5]),
        (.newConfirmed 8 none (some 7) 0 3 1, [6])] ∧
    PathsAgree ascendingFiles state.files (StorageFilesRead.openAll init) ∧
    ∀ entry ∈ state.live, (StorageFilesRead.openAll init).read state.disk entry.1.storageId
      entry.1.offset entry.1.size = .ok entry.2 := by
  have fresh : ∀ path, ((fun _ => ⟨10, fun _ => 0⟩ : Disk) path).len = 10 := fun _ => rfl
  obtain ⟨disk, success, sized⟩ := openAll_ascendingFiles [] fresh ⟨by simp, .nil⟩
    (show StoredBlocksWrite.new [] 1 = .ok _ from rfl) (by simp)
  have opened : Lifetime ascendingFiles Guard _ _ := .first _ _ _ _ _ rfl success
  have written := Lifetime.step _ _ _ (.writeFront 5 none (some 5) [1, 2, 3]) opened
    (by rintro index file - - - - entry ⟨⟩) rfl
  have stored := Lifetime.step _ _ _ (.writeFront 7 none (some 6) [4, 5]) written (by
    rintro index file ⟨⟩ ⟨⟩ - - entry member
    rw [List.mem_singleton.mp member]
    decide) rfl
  have sized' : ∀ path, (((disk.writeAllAt "a" [1, 2, 3] 0).writeAllAt "b" [4, 5] 0) path).len = 10 := by
    intro path
    rw [len_writeAllAt, len_writeAllAt, sized]
    · rw [sized]
      decide
    · rw [len_writeAllAt, sized]
      · decide
      · rw [sized]
        decide
  obtain ⟨disk', success', -⟩ := openAll_ascendingFiles storedCells sized' ⟨by decide, by decide⟩
    (show StoredBlocksWrite.new storedCells 4 = .ok _ from rfl) (by decide)
  have restarted := Lifetime.restart _ _ _ storedCells 4 _ _ _ stored ⟨by decide, by decide⟩ rfl rfl
    success'
  have lifetime := Lifetime.step _ _ _ (.writeFront 8 none (some 7) [6]) restarted
    (by rintro index file ⟨⟩ ⟨⟩ - ⟨⟩) rfl
  have agree := openAll_agree_iff ascendingFiles Guard _ _ (by decide) lifetime
  have listed : ListedById ascendingFiles := by rw [ListedById, sortById_ascendingFiles]
  exact ⟨_, _, lifetime, rfl, agree.1.mpr listed,
    agree.2 listed (by decide) fun state op guarded => guarded⟩

/-- Files with the higher id first give the readers the file of the other id. -/
theorem openAll_agree_false : ¬ ∀ (configs : List ConfigStorageFile) (state : FilesState)
    (init : StorageFilesSyncInit), (configs.map ConfigStorageFile.id).Nodup →
    Lifetime configs Guard state init →
    PathsAgree configs state.files (StorageFilesRead.openAll init) ∧
      ∀ entry ∈ state.live, (StorageFilesRead.openAll init).read state.disk entry.1.storageId
        entry.1.offset entry.1.size = .ok entry.2 := by
  intro always
  obtain ⟨write, init, success⟩ := exists_openAll ascendingFiles.reverse oneCellBlocks
    (fun _ => ⟨0, fun _ => 0⟩) rfl rfl
  have distinct : (ascendingFiles.reverse.map ConfigStorageFile.id).Nodup := by decide
  have agree := (always _ _ init distinct (.first _ _ _ write init rfl success)).1
  rw [(openedFrom_openAll distinct success).pathsAgree_iff distinct] at agree
  simp [ListedById, ConfigStorageFile.sortById, ascendingFiles, List.mergeSort,
    List.MergeSort.Internal.splitInTwo] at agree

end Alpamayo
