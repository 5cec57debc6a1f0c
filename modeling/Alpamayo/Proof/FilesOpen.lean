import Alpamayo.Proof.FileExtents
import Mathlib.Data.List.Nodup
import Mathlib.Data.List.Perm.Lattice

/-!
This file compares the file that the writer uses for a storage id with the file of the readers.
-/

namespace Alpamayo

namespace StorageFilesWrite

variable {configs : List ConfigStorageFile} {disk disk' : Disk} {files : List StorageFile}

/-- A file is open with both cursors at zero. -/
def opened (config : ConfigStorageFile) : StorageFile where
  id := config.id
  file := config.path
  tail := 0
  head := 0
  size := config.size
  newBlocks := config.newBlocks

/-- The opened files are the configured ones in their order. -/
theorem openFiles_ok (success : openFiles configs disk = (.ok files, disk')) :
    files = configs.map opened := by
  induction configs generalizing disk disk' files with
  | nil =>
      cases success
      rfl
  | cons config rest ih =>
      simp only [openFiles] at success
      split at success
      · cases success
      · rename_i file _ first
        split at success
        · cases success
        · rename_i later
          cases success
          rw [List.map_cons, ih later]
          congr 1
          simp only [openFile] at first
          split at first
          · cases first
            rfl
          · split at first <;> cases first
            rfl

/-- The restored cursors keep the id and the path of each file. -/
theorem restoreAll_ok {id2file : HashMap StorageId Nat}
    {boundaries : HashMap StorageId StorageBlocksBoundaries} {entries : List (StorageFile × Nat)}
    (success : restoreAll id2file boundaries entries = .ok files) :
    files.map (fun file => (file.id, file.file)) =
      (entries.map Prod.fst).map fun file => (file.id, file.file) := by
  induction entries generalizing files with
  | nil =>
      cases success
      rfl
  | cons entry rest ih =>
      obtain ⟨file, index⟩ := entry
      simp only [restoreAll] at success
      split at success
      · cases success
      · rename_i restored first
        split at success
        · cases success
        · rename_i later
          cases success
          rw [List.map_cons, List.map_cons, List.map_cons, ih later]
          congr 1
          unfold restoreCursors at first
          split at first
          · cases first
            rfl
          · dsimp only at first
            split at first
            · cases first
            · split at first <;> cases first
              rfl

/-- Without stored blocks the cursors stay at zero. -/
theorem restoreAll_empty (id2file : HashMap StorageId Nat) (entries : List (StorageFile × Nat)) :
    restoreAll id2file HashMap.empty entries = .ok (entries.map Prod.fst) := by
  induction entries with
  | nil => rfl
  | cons entry rest ih =>
      obtain ⟨file, index⟩ := entry
      simp [restoreAll, restoreCursors, ih]

/-- Without stored blocks no file can be missing. -/
theorem storageMissed_empty (files : List StorageFile) :
    storageMissed files HashMap.empty = false := by
  simp [storageMissed, HashMap.containsKey]

/-- The map keeps its value for an id that no file has. -/
theorem foldl_idMap_of_notMem {id : StorageId} (map : HashMap StorageId Nat) (start : Nat)
    (absent : id ∉ files.map StorageFile.id) :
    ((files.zipIdx start).foldl (fun map entry => map.insert entry.1.id entry.2) map).get id =
      map.get id := by
  induction files generalizing map start with
  | nil => rfl
  | cons file rest ih =>
      simp only [List.map_cons, List.mem_cons, not_or] at absent
      rw [List.zipIdx_cons, List.foldl_cons, ih _ _ absent.2, HashMap.get_insert,
        if_neg absent.1]

/-- The map gives the place of each file. -/
theorem foldl_idMap_get {id : StorageId} {index : Nat} (map : HashMap StorageId Nat) (start : Nat)
    (distinct : (files.map StorageFile.id).Nodup)
    (place : (files.map StorageFile.id)[index]? = some id) :
    ((files.zipIdx start).foldl (fun map entry => map.insert entry.1.id entry.2) map).get id =
      some (start + index) := by
  induction files generalizing map start index with
  | nil => cases place
  | cons file rest ih =>
      obtain ⟨fresh, restDistinct⟩ := List.nodup_cons.mp distinct
      rw [List.zipIdx_cons, List.foldl_cons]
      cases index with
      | zero =>
          cases place
          rw [foldl_idMap_of_notMem _ _ fresh, HashMap.get_insert, if_pos rfl]
          rfl
      | succ index =>
          rw [ih _ _ restDistinct (by simpa using place)]
          congr 1
          omega

theorem idMap_get {id : StorageId} {index : Nat} (distinct : (files.map StorageFile.id).Nodup)
    (place : (files.map StorageFile.id)[index]? = some id) :
    (idMap files).get id = some index := by
  rw [idMap, foldl_idMap_get HashMap.empty 0 distinct place, Nat.zero_add]

end StorageFilesWrite

/-- The configured files by ascending id. -/
def ConfigStorageFile.sortById (configs : List ConfigStorageFile) : List ConfigStorageFile :=
  configs.mergeSort fun first second => first.id ≤ second.id

/-- Opening connects the files, the map, and the paths with the configuration. -/
structure OpenedFrom (configs : List ConfigStorageFile) (write : StorageFilesWrite)
    (init : StorageFilesSyncInit) : Prop where
  files : write.files.map (fun file => (file.id, file.file)) =
    (ConfigStorageFile.sortById configs).map fun config => (config.id, config.path)
  index : ∀ (id : StorageId) (index : Nat),
    (write.files.map StorageFile.id)[index]? = some id → write.id2file.get id = some index
  shared : init.id2file = write.id2file
  paths : init.filesPaths = configs.map ConfigStorageFile.path

section openAll

variable {configs : List ConfigStorageFile} {blocks : StoredBlocksWrite} {disk disk' : Disk}
  {write : StorageFilesWrite} {init : StorageFilesSyncInit}

/-- The writer sorts the files as the configuration sorts them. -/
theorem mergeSort_opened (configs : List ConfigStorageFile) :
    (configs.map StorageFilesWrite.opened).mergeSort (fun first second => first.id ≤ second.id) =
      (ConfigStorageFile.sortById configs).map StorageFilesWrite.opened :=
  (List.map_mergeSort (f := StorageFilesWrite.opened) fun _ _ _ _ => rfl).symm

/-- A successful opening has these steps. -/
theorem openAll_ok (success : StorageFilesWrite.openAll configs blocks disk =
      (.ok (write, init), disk')) :
    ∃ files, StorageFilesWrite.restoreAll
        (StorageFilesWrite.idMap ((ConfigStorageFile.sortById configs).map StorageFilesWrite.opened))
        blocks.getStoredBoundaries
        ((ConfigStorageFile.sortById configs).map StorageFilesWrite.opened).zipIdx = .ok files ∧
      write = ⟨files, StorageFilesWrite.idMap
        ((ConfigStorageFile.sortById configs).map StorageFilesWrite.opened), 0⟩ ∧
      init = ⟨configs.map ConfigStorageFile.path, write.id2file⟩ := by
  simp only [StorageFilesWrite.openAll] at success
  split at success
  · cases success
  · rename_i openedFiles
    rw [StorageFilesWrite.openFiles_ok openedFiles, mergeSort_opened] at success
    split at success
    · cases success
    · rename_i restored
      split at success <;> cases success
      exact ⟨_, restored, rfl, rfl⟩

/-- Files without stored blocks open when the disk opens them. -/
theorem exists_openAll (configs : List ConfigStorageFile) (blocks : StoredBlocksWrite) (disk : Disk)
    {files : List StorageFile} (fresh : blocks.getStoredBoundaries = HashMap.empty)
    (opened : StorageFilesWrite.openFiles configs disk = (.ok files, disk')) :
    ∃ write init, StorageFilesWrite.openAll configs blocks disk = (.ok (write, init), disk') := by
  simp only [StorageFilesWrite.openAll, opened, fresh, StorageFilesWrite.restoreAll_empty,
    StorageFilesWrite.storageMissed_empty, Bool.false_eq_true, if_false]
  exact ⟨_, _, rfl⟩

/-- A successful opening with distinct ids connects its parts with the configuration. -/
theorem openedFrom_openAll (distinct : (configs.map ConfigStorageFile.id).Nodup)
    (success : StorageFilesWrite.openAll configs blocks disk = (.ok (write, init), disk')) :
    OpenedFrom configs write init := by
  obtain ⟨files, restored, rfl, rfl⟩ := openAll_ok success
  have kept := StorageFilesWrite.restoreAll_ok restored
  have same : files.map (fun file => (file.id, file.file)) =
      (ConfigStorageFile.sortById configs).map fun config => (config.id, config.path) := by
    rw [kept, List.zipIdx_map_fst, List.map_map]
    rfl
  refine ⟨same, ?_, rfl, rfl⟩
  intro id index place
  apply StorageFilesWrite.idMap_get
  · rw [List.map_map]
    exact ((List.mergeSort_perm configs _).map ConfigStorageFile.id).nodup_iff.mpr distinct
  · rw [← place, List.map_map]
    have ids := congrArg (List.map Prod.fst) same
    rw [List.map_map, List.map_map] at ids
    exact congrArg (fun list => list[index]?) ids.symm

/-- Both sides use the same path for each configured id. -/
def PathsAgree (configs : List ConfigStorageFile) (write : StorageFilesWrite)
    (read : StorageFilesRead) : Prop :=
  ∀ config ∈ configs, ∀ file ∈ write.files, file.id = config.id →
    file.file = config.path ∧ read.fileOf config.id = some config.path

/-- The listed paths are in the order of their ids. -/
def ListedById (configs : List ConfigStorageFile) : Prop :=
  configs.map ConfigStorageFile.path =
    (ConfigStorageFile.sortById configs).map ConfigStorageFile.path

/-- The place of a file in the writer gives its configuration. -/
theorem OpenedFrom.config (from' : OpenedFrom configs write init) {index : Nat} {file : StorageFile}
    (place : write.files[index]? = some file) : ∃ config,
      (ConfigStorageFile.sortById configs)[index]? = some config ∧ config.id = file.id ∧
        config.path = file.file := by
  have both := congrArg (fun list => list[index]?) from'.files
  simp only [List.getElem?_map, place, Option.map_some] at both
  obtain ⟨config, found, same⟩ := Option.map_eq_some_iff.mp both.symm
  obtain ⟨sameId, samePath⟩ := Prod.mk.inj same
  exact ⟨config, found, sameId, samePath⟩

/-- The reader's file for an id is the listed path at the place of the writer's file. -/
theorem OpenedFrom.fileOf (from' : OpenedFrom configs write init) {index : Nat} {file : StorageFile}
    (place : write.files[index]? = some file) :
    (StorageFilesRead.openAll init).fileOf file.id = (configs.map ConfigStorageFile.path)[index]? := by
  have found := from'.index file.id index (by rw [List.getElem?_map, place]; rfl)
  rw [StorageFilesRead.fileOf, StorageFilesRead.openAll, from'.shared, from'.paths, found,
    Option.bind_some]

theorem OpenedFrom.length_eq (from' : OpenedFrom configs write init) :
    write.files.length = configs.length := by
  have lengths := congrArg List.length from'.files
  rw [List.length_map, List.length_map] at lengths
  rw [lengths]
  exact (List.mergeSort_perm configs _).length_eq

/-- The sides agree exactly when the paths are listed by id. -/
theorem OpenedFrom.pathsAgree_iff (from' : OpenedFrom configs write init)
    (distinct : (configs.map ConfigStorageFile.id).Nodup) :
    PathsAgree configs write (StorageFilesRead.openAll init) ↔ ListedById configs := by
  have sorted := List.mergeSort_perm configs fun first second => first.id ≤ second.id
  constructor
  · intro agree
    apply List.ext_getElem?
    intro index
    cases place : write.files[index]? with
    | none =>
        have outside := List.getElem?_eq_none_iff.mp place
        rw [from'.length_eq] at outside
        rw [List.getElem?_eq_none (by simpa using outside), List.getElem?_eq_none]
        rw [List.length_map, ConfigStorageFile.sortById, sorted.length_eq]
        exact outside
    | some file =>
        obtain ⟨config, found, sameId, samePath⟩ := from'.config place
        have member : config ∈ configs := sorted.mem_iff.mp (List.mem_of_getElem? found)
        have same := (agree config member file (List.mem_of_getElem? place) sameId.symm).2
        rw [sameId, from'.fileOf place] at same
        rw [same, List.getElem?_map, found]
        rfl
  · intro listed config member file fileMember sameId
    obtain ⟨index, place⟩ := List.mem_iff_getElem?.mp fileMember
    obtain ⟨config', found, sameId', samePath⟩ := from'.config place
    have member' : config' ∈ configs := sorted.mem_iff.mp (List.mem_of_getElem? found)
    have same : config' = config :=
      List.inj_on_of_nodup_map distinct member' member (sameId'.trans sameId)
    subst same
    refine ⟨samePath.symm, ?_⟩
    rw [← sameId, from'.fileOf place, listed, List.getElem?_map, found]
    rfl

end openAll

end Alpamayo
