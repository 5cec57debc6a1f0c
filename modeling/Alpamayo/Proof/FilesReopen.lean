import Alpamayo.Proof.FilesEviction
import Alpamayo.Proof.StoreRoom
import Alpamayo.Storage.Crash

/-!
This file shows that consecutive records whose blocks lie inside sized files can be opened.
-/

namespace Alpamayo

open CyclicWindow

namespace Rocksdb

variable {db : Rocksdb} {cell : StoredBlock}

/-- The recorded cells by ascending slot. -/
def cells (db : Rocksdb) : List StoredBlock :=
  db.slotBasicIndex.entries.map fun entry => storedBlockOf entry.1 entry.2

/-- A recorded cell has the record of its slot. -/
theorem mem_cells : cell ∈ db.cells ↔
    ∃ value, db.slotBasicIndex.get cell.slot = some value ∧ cell = storedBlockOf cell.slot value := by
  simp only [cells, List.mem_map, SortedMap.get_eq_some_iff]
  constructor
  · rintro ⟨entry, member, rfl⟩
    exact ⟨entry.2, member, rfl⟩
  · rintro ⟨value, member, same⟩
    exact ⟨_, member, same.symm⟩

/-- The loop accepts slots that follow each other. -/
theorem spawnSlotsLoop_eq {entries : List (Nat × SlotBasicIndexValue)} {currentSlot : Option Nat}
    (bounded : ∀ entry ∈ entries, entry.1 ≤ maxSlot)
    (slots : entries.IsChain fun low high => high.1 = low.1 + 1)
    (next : ∀ current ∈ currentSlot, ∀ first ∈ entries.head?, first.1 = current + 1) :
    spawnSlotsLoop currentSlot entries =
      .ok (entries.map fun entry => storedBlockOf entry.1 entry.2) := by
  induction entries generalizing currentSlot with
  | nil => rfl
  | cons entry rest ih =>
      obtain ⟨slot, value⟩ := entry
      obtain ⟨follows, slots⟩ := List.isChain_cons.mp slots
      have bounded' : ∀ entry ∈ rest, entry.1 ≤ maxSlot :=
        fun entry member => bounded entry (List.mem_cons_of_mem _ member)
      have later : spawnSlotsLoop (some slot) rest =
          .ok (rest.map fun entry => storedBlockOf entry.1 entry.2) := by
        apply ih bounded' slots
        rintro _ ⟨⟩ first isFirst
        exact follows first isFirst
      have checked : checkHole currentSlot slot = .ok () := by
        cases currentSlot with
        | none => rfl
        | some current =>
            have same : slot = current + 1 := next current rfl _ rfl
            have inside : slot ≤ maxSlot := bounded _ List.mem_cons_self
            have successor : addOne current = .ok slot := by
              rw [addOne, if_pos (by omega), same]
            simp only [checkHole, successor]
            exact if_pos rfl
      simp only [spawnSlotsLoop, checked, later]
      rfl

/-- Consecutive records have no hole. -/
theorem spawnSlots_eq (consecutive : Consecutive db.cells)
    (bounded : ∀ cell ∈ db.cells, cell.slot ≤ maxSlot) : db.spawnSlots = .ok db.cells := by
  apply spawnSlotsLoop_eq
  · intro entry member
    exact bounded _ (List.mem_map_of_mem member)
  · exact (List.isChain_map _).mp consecutive.slots
  · rintro _ ⟨⟩

end Rocksdb

/-- The live cells of a file by ascending slot. -/
def liveCells (cells : List StoredBlock) (id : StorageId) : List StoredBlock :=
  cells.filter fun cell => cell.isLive && cell.storageId = id

/-- A live cell belongs to the file of its id. -/
theorem mem_liveCells {cells : List StoredBlock} {id : StorageId} {cell : StoredBlock} :
    cell ∈ liveCells cells id ↔ cell ∈ cells ∧ cell.isLive = true ∧ cell.storageId = id := by
  simp [liveCells]

namespace StoredBlocksWrite

variable {list : List StoredBlock} {max : Nat} {blocks : StoredBlocksWrite}

/-- A list that is not too long is loaded. -/
theorem exists_new (positive : 0 < max) (few : list.length ≤ max) :
    ∃ blocks, new list max = .ok blocks := by
  unfold new
  rw [if_neg (by omega), dif_pos positive]
  exact ⟨_, rfl⟩

/-- The loaded cells are those of the list and unused ones. -/
theorem cells_new (opened : new list max = .ok blocks) :
    ((List.finRange blocks.blocks.size).map blocks.blocks.cells) =
      list ++ List.replicate (max - list.length) StoredBlock.newNoexists := by
  unfold new at opened
  split at opened
  · cases opened
  · split at opened
    · cases opened
      apply List.ext_getElem
      · simp
        omega
      · intro index lower upper
        simp only [List.getElem_map, List.getElem_finRange, List.getD_eq_getElem?_getD]
        by_cases inside : index < list.length
        · rw [List.getElem_append_left inside]
          simp [inside]
        · rw [List.getElem_append_right (by omega)]
          simp [inside]
    · cases opened

end StoredBlocksWrite

namespace StorageBlocksBoundaries

/-- A block above the others becomes the highest one. -/
theorem update_eq {first last block : StoredBlock} (above : first.slot ≤ block.slot)
    (above' : last.slot < block.slot) :
    update ⟨some first, some last⟩ block = ⟨some first, some block⟩ := by
  simp only [update, if_neg (show ¬ block.slot < first.slot by omega), if_pos above']

/-- The boundaries of cells by ascending slot are the first and the last cell of each file. -/
theorem foldl_get {cells : List StoredBlock} (live : ∀ cell ∈ cells, cell.isLive = true)
    (sorted : cells.Pairwise fun low high => low.slot < high.slot) (id : StorageId) :
    (cells.foldl (fun map block => map.insert block.storageId
        (((map.get block.storageId).getD ⟨none, none⟩).update block))
      (HashMap.empty : HashMap StorageId StorageBlocksBoundaries)).get id =
      (liveCells cells id).head?.map fun first => ⟨some first, (liveCells cells id).getLast?⟩ := by
  induction cells using List.reverseRecOn generalizing id with
  | nil => rfl
  | append_singleton rest block ih =>
      obtain ⟨sorted, -, above⟩ := List.pairwise_append.mp sorted
      have ih := fun id => ih (fun cell member => live cell (List.mem_append_left _ member)) sorted id
      have alive := live block (by simp)
      rw [List.foldl_append, List.foldl_cons, List.foldl_nil, HashMap.get_insert, ih, ih]
      by_cases own : id = block.storageId
      · subst own
        have split : liveCells (rest ++ [block]) block.storageId =
            liveCells rest block.storageId ++ [block] := by
          simp [liveCells, alive]
        rw [if_pos rfl, split]
        rcases isEmpty : liveCells rest block.storageId with _ | ⟨first, later⟩
        · rfl
        · have below : ∀ cell ∈ first :: later, cell.slot < block.slot := by
            intro cell member
            rw [← isEmpty, mem_liveCells] at member
            exact above cell member.1 block (by simp)
          obtain ⟨last, isLast⟩ : ∃ last, (first :: later).getLast? = some last :=
            ⟨_, List.getLast?_eq_some_getLast (List.cons_ne_nil _ _)⟩
          have lastBelow := below last (List.mem_of_getLast? isLast)
          have firstBelow := below first List.mem_cons_self
          rw [isLast]
          simp only [List.head?_cons, Option.map_some, Option.getD_some, List.cons_append]
          rw [update_eq firstBelow.le lastBelow, ← List.cons_append, List.getLast?_concat]
      · have other : liveCells (rest ++ [block]) id = liveCells rest id := by
          simp [liveCells, Ne.symm own]
        rw [if_neg own, other]

end StorageBlocksBoundaries

/-- The boundaries of loaded cells are the first and the last live cell of each file. -/
theorem StoredBlocksWrite.getStoredBoundaries_get {list : List StoredBlock} {max : Nat}
    {blocks : StoredBlocksWrite} (consecutive : Consecutive list) (opened : new list max = .ok blocks)
    (id : StorageId) : blocks.getStoredBoundaries.get id =
      (liveCells list id).head?.map fun first => ⟨some first, (liveCells list id).getLast?⟩ := by
  have own : liveCells (list.filter StoredBlock.isLive) id = liveCells list id := by
    simp only [liveCells, List.filter_filter]
    congr 1
    funext cell
    cases cell.isLive <;> simp
  have unused : (List.replicate (max - list.length) StoredBlock.newNoexists).filter
      StoredBlock.isLive = [] := by simp
  rw [getStoredBoundaries, cells_new opened, ← List.foldl_filter, List.filter_append, unused,
    List.append_nil, StorageBlocksBoundaries.foldl_get _ _ id, own]
  · simp
  · exact (Successive.pairwise_lt consecutive.slots).filter _

/-- The second disk differs from the first only in the contents of files without bytes. -/
def Disk.SameBytes (before after : Disk) : Prop :=
  ∀ path, (after path).len = (before path).len ∧
    ((before path).len ≠ 0 → after path = before path)

namespace Disk

variable {before middle after : Disk}

theorem SameBytes.trans (first : before.SameBytes middle) (second : middle.SameBytes after) :
    before.SameBytes after := by
  intro path
  obtain ⟨len, same⟩ := first path
  obtain ⟨len', same'⟩ := second path
  exact ⟨len'.trans len, fun bytes => (same' (len ▸ bytes)).trans (same bytes)⟩

/-- A range with a first byte inside its file reads the same. -/
theorem SameBytes.readExactAt (same : before.SameBytes after) {path : Path} {offset size : Nat}
    (inside : offset < (before path).len) :
    (after path).readExactAt offset size = (before path).readExactAt offset size := by
  rw [(same path).2 (by omega)]

end Disk

namespace StorageFilesWrite

variable {configs : List ConfigStorageFile} {config : ConfigStorageFile} {disk disk' : Disk}

/-- A file of the configured size opens. -/
theorem openFile_sized (sized : (disk config.path).len = config.size) :
    ∃ disk', openFile config disk = (.ok (opened config), disk') ∧ disk.SameBytes disk' := by
  unfold openFile
  dsimp only
  split
  · rename_i empty
    refine ⟨_, rfl, fun path => ?_⟩
    by_cases here : path = config.path
    · subst here
      have filled := Function.update_self config.path ⟨config.size, fun _ => 0⟩ disk
      exact ⟨(congrArg DiskFile.len filled).trans sized.symm, fun bytes => absurd empty bytes⟩
    · have kept := Function.update_of_ne here ⟨config.size, fun _ => 0⟩ disk
      exact ⟨congrArg DiskFile.len kept, fun _ => kept⟩
  · rw [if_neg (by simp [sized])]
    exact ⟨disk, rfl, fun path => ⟨rfl, fun _ => rfl⟩⟩

/-- Files of the configured sizes open. -/
theorem openFiles_sized (sized : ∀ config ∈ configs, (disk config.path).len = config.size) :
    ∃ disk', openFiles configs disk = (.ok (configs.map opened), disk') ∧ disk.SameBytes disk' := by
  induction configs generalizing disk with
  | nil => exact ⟨disk, rfl, fun path => ⟨rfl, fun _ => rfl⟩⟩
  | cons config rest ih =>
      obtain ⟨middle, first, same⟩ := openFile_sized (sized config List.mem_cons_self)
      have sized' : ∀ other ∈ rest, (middle other.path).len = other.size := by
        intro other member
        rw [(same other.path).1, sized other (List.mem_cons_of_mem _ member)]
      obtain ⟨disk', later, same'⟩ := ih sized'
      simp only [openFiles, first, later]
      exact ⟨disk', rfl, same.trans same'⟩

/-- An opened file has the configured size, and the other files stay as they are. -/
theorem openFile_ok {file : StorageFile} (success : openFile config disk = (.ok file, disk')) :
    (disk' config.path).len = config.size ∧ ∀ path, path ≠ config.path → disk' path = disk path := by
  unfold openFile at success
  dsimp only at success
  split at success
  · cases success
    exact ⟨congrArg DiskFile.len (Function.update_self config.path _ disk),
      fun path other => Function.update_of_ne other _ _⟩
  · split at success
    · cases success
    · rename_i same
      cases success
      exact ⟨(not_not.mp same).symm, fun _ _ => rfl⟩

/-- The opened files have the configured sizes. -/
theorem sized_openFiles {files : List StorageFile}
    (paths : (configs.map ConfigStorageFile.path).Nodup)
    (success : openFiles configs disk = (.ok files, disk')) :
    (∀ config ∈ configs, (disk' config.path).len = config.size) ∧
      ∀ path ∉ configs.map ConfigStorageFile.path, disk' path = disk path := by
  induction configs generalizing disk files with
  | nil =>
      cases success
      exact ⟨by simp, fun _ _ => rfl⟩
  | cons config rest ih =>
      obtain ⟨fresh, paths⟩ := List.nodup_cons.mp paths
      simp only [openFiles] at success
      split at success
      · cases success
      · rename_i first
        split at success
        · cases success
        · rename_i later
          cases success
          obtain ⟨sized, kept⟩ := openFile_ok first
          obtain ⟨sized', kept'⟩ := ih paths later
          refine ⟨List.forall_mem_cons.mpr ⟨?_, sized'⟩, fun path other => ?_⟩
          · rw [kept' _ fresh, sized]
          · simp only [List.map_cons, List.mem_cons, not_or] at other
            rw [kept' path other.2, kept path other.1]

/-- The cells give the cursors of their file. -/
def restored (cells : List StoredBlock) (config : ConfigStorageFile) : StorageFile :=
  { opened config with
    tail := ((liveCells cells config.id).head?.map fun first => first.offset).getD 0
    head := ((liveCells cells config.id).getLast?.map fun last => last.offset + last.size).getD 0 }

/-- Cursors inside the file are restored. -/
theorem restoreCursors_eq {cells : List StoredBlock}
    (inside : ∀ cell ∈ liveCells cells config.id,
      cell.offset < config.size ∧ cell.offset + cell.size ≤ config.size) :
    restoreCursors (opened config)
      ((liveCells cells config.id).head?.map fun first =>
        ⟨some first, (liveCells cells config.id).getLast?⟩) = .ok (restored cells config) := by
  unfold restored
  generalize liveCells cells config.id = own at inside ⊢
  cases own with
  | nil => rfl
  | cons first rest =>
      obtain ⟨last, isLast⟩ : ∃ last, (first :: rest).getLast? = some last :=
        ⟨_, List.getLast?_eq_some_getLast (List.cons_ne_nil _ _)⟩
      have tail := (inside first List.mem_cons_self).1
      have head := (inside last (List.mem_of_getLast? isLast)).2
      rw [isLast]
      simp only [List.head?_cons, Option.map_some, restoreCursors, StorageBlocksBoundaries.tail,
        StorageBlocksBoundaries.head, Option.getD_some, opened, tail, head, not_true_eq_false,
        if_false]

/-- All files are restored when each of them is. -/
theorem restoreAll_eq (id2file : HashMap StorageId Nat)
    (boundaries : HashMap StorageId StorageBlocksBoundaries) (cells : List StoredBlock)
    (configs : List ConfigStorageFile) (start : Nat)
    (each : ∀ config index, (config, index) ∈ configs.zipIdx start →
      id2file.get config.id = some index ∧
        restoreCursors (opened config) (boundaries.get config.id) = .ok (restored cells config)) :
    restoreAll id2file boundaries ((configs.map opened).zipIdx start) =
      .ok (configs.map (restored cells)) := by
  induction configs generalizing start with
  | nil => rfl
  | cons config rest ih =>
      obtain ⟨selected, cursors⟩ := each config start (by simp)
      have later := ih (start + 1) fun config index member => each config index (by simp [member])
      have same : id2file.get (opened config).id = some start := selected
      rw [List.map_cons, List.zipIdx_cons]
      simp only [restoreAll, same, if_true]
      rw [show (opened config).id = config.id from rfl, cursors, later]
      rfl

end StorageFilesWrite

section openAll

variable {configs : List ConfigStorageFile} {blocks : StoredBlocksWrite} {disk : Disk}
  {cells : List StoredBlock} {max : Nat}

/-- After the opening the files have the configured sizes. -/
theorem sized_openAll {write : StorageFilesWrite} {init : StorageFilesSyncInit} {disk' : Disk}
    (paths : (configs.map ConfigStorageFile.path).Nodup)
    (success : StorageFilesWrite.openAll configs blocks disk = (.ok (write, init), disk')) :
    ∀ config ∈ configs, (disk' config.path).len = config.size := by
  simp only [StorageFilesWrite.openAll] at success
  split at success
  · cases success
  · rename_i opened
    split at success
    · cases success
    · split at success <;> cases success
      exact (StorageFilesWrite.sized_openFiles paths opened).1

/-- The writer after the opening of the files of the cells. -/
def StorageFilesWrite.reopened (configs : List ConfigStorageFile) (cells : List StoredBlock) :
    StorageFilesWrite where
  files := (ConfigStorageFile.sortById configs).map (restored cells)
  id2file := idMap ((ConfigStorageFile.sortById configs).map opened)
  nextFile := 0

/-- Cells inside files of the configured sizes are opened. -/
theorem openAll_eq (ids : (configs.map ConfigStorageFile.id).Nodup)
    (sized : ∀ config ∈ configs, (disk config.path).len = config.size)
    (consecutive : Consecutive cells) (opened : StoredBlocksWrite.new cells max = .ok blocks)
    (owned : ∀ cell ∈ cells, cell.isLive = true →
      ∃ config ∈ configs, config.id = cell.storageId)
    (inside : ∀ config ∈ configs, ∀ cell ∈ liveCells cells config.id,
      cell.offset < config.size ∧ cell.offset + cell.size ≤ config.size) :
    ∃ disk', StorageFilesWrite.openAll configs blocks disk =
        (.ok (StorageFilesWrite.reopened configs cells, ⟨configs.map ConfigStorageFile.path,
          (StorageFilesWrite.reopened configs cells).id2file⟩), disk') ∧ disk.SameBytes disk' := by
  have sorted := List.mergeSort_perm configs fun first second => first.id ≤ second.id
  have boundaries := StoredBlocksWrite.getStoredBoundaries_get consecutive opened
  obtain ⟨disk', files, same⟩ := StorageFilesWrite.openFiles_sized sized
  have ids' : (((ConfigStorageFile.sortById configs).map StorageFilesWrite.opened).map
      StorageFile.id).Nodup := by
    rw [List.map_map]
    exact (sorted.map ConfigStorageFile.id).nodup_iff.mpr ids
  have restores := StorageFilesWrite.restoreAll_eq
    (StorageFilesWrite.idMap ((ConfigStorageFile.sortById configs).map StorageFilesWrite.opened))
    blocks.getStoredBoundaries cells (ConfigStorageFile.sortById configs) 0
    fun config index member => by
      have place := List.mem_zipIdx_iff_getElem?.mp member
      refine ⟨StorageFilesWrite.idMap_get ids' (by simp [place]; rfl), ?_⟩
      rw [boundaries]
      exact StorageFilesWrite.restoreCursors_eq
        (inside config (sorted.mem_iff.mp (List.mem_of_getElem? place)))
  have complete : StorageFilesWrite.storageMissed
      ((ConfigStorageFile.sortById configs).map (StorageFilesWrite.restored cells))
      blocks.getStoredBoundaries = false := by
    rw [StorageFilesWrite.storageMissed, List.any_eq_false]
    intro id _
    rw [Bool.and_eq_true, not_and, HashMap.containsKey, boundaries]
    intro known
    obtain ⟨first, isFirst⟩ := Option.isSome_iff_exists.mp (Option.isSome_map ▸ known)
    obtain ⟨member, live, same⟩ := mem_liveCells.mp (List.mem_of_head? isFirst)
    obtain ⟨config, inConfigs, owns⟩ := owned first member live
    simp only [Bool.not_eq_true', Bool.not_eq_false, List.any_eq_true, decide_eq_true_eq]
    exact ⟨_, List.mem_map_of_mem (sorted.mem_iff.mpr inConfigs), owns.trans same⟩
  refine ⟨disk', ?_, same⟩
  simp only [StorageFilesWrite.openAll, files, mergeSort_opened, restores, complete]
  rfl

end openAll

end Alpamayo
