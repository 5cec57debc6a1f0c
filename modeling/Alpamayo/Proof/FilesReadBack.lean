import Alpamayo.General.Successive
import Alpamayo.Proof.FilesOpen

/-!
This file follows the contents of the live blocks through the writes and removals of all files.
-/

namespace Alpamayo

open CyclicWindow

/-- The state lists the live blocks of all files with their bytes by ascending slot. -/
structure FilesState where
  files : StorageFilesWrite
  disk : Disk
  live : List (StoredBlock × Bytes)

namespace FilesState

/-- A placed block joins the live ones; a push without a place changes only the search position. -/
def pushed (state : FilesState) (add : StoredBlock × Bytes → List (StoredBlock × Bytes))
    (cell : StorageId → Nat → StoredBlock) (buffer : Bytes) :
    Except StorageError (Option (StorageId × Nat)) × StorageFilesWrite × Disk → Option FilesState
  | (.ok (some (storageId, offset)), files, disk) =>
      some ⟨files, disk, add (cell storageId offset, buffer)⟩
  | (.ok none, files, disk) => some ⟨files, disk, state.live⟩
  | (.error _, _) => none

/-- A successful operation gives the next state; a failed operation gives none. -/
def step (state : FilesState) : FileOp → Option FilesState
  | .writeFront slot blockTime blockHeight buffer =>
      if state.live.all fun entry => entry.1.slot < slot then
        state.pushed (fun entry => state.live ++ [entry])
          (fun storageId offset =>
            .newConfirmed slot blockTime blockHeight storageId offset buffer.length) buffer
          (state.files.pushBlockFront state.disk buffer)
      else none
  | .writeBack slot blockTime blockHeight buffer =>
      if state.live.all fun entry => slot < entry.1.slot then
        state.pushed (fun entry => entry :: state.live)
          (fun storageId offset =>
            .newConfirmed slot blockTime blockHeight storageId offset buffer.length) buffer
          (state.files.pushBlockBack state.disk buffer)
      else none
  | .popBack =>
      match state.live.head? with
      | none => none
      | some entry =>
          match state.files.popBlockBack entry.1 with
          | (.ok _, files) => some { state with files, live := state.live.tail }
          | (.error _, _) => none
  | .popFront =>
      match state.live.getLast? with
      | none => none
      | some entry =>
          match state.files.popBlockFront entry.1 with
          | (.ok _, files) => some { state with files, live := state.live.dropLast }
          | (.error _, _) => none

/-- The file that takes the bytes of a push has equal cursors only while it has no live block. -/
def Guard (state : FilesState) : FileOp → Prop
  | .writeFront _ _ _ buffer | .writeBack _ _ _ buffer =>
      ∀ index file, (state.files.getFileIndexForNewBlock buffer.length).1 = .ok (some index) →
        state.files.files[index]? = some file → buffer ≠ [] → file.head = file.tail →
        ∀ entry ∈ state.live, entry.1.storageId ≠ file.id
  | .popBack | .popFront => True

/-- The live extents of one file. -/
def extentsOf (live : List (StoredBlock × Bytes)) (id : StorageId) : List Extent :=
  (live.filter fun entry => entry.1.storageId = id).map fun entry => entry.1.extent

/-- Each file places its live blocks, and the disk has their bytes. -/
structure Valid (state : FilesState) (names : List (StorageId × Path)) : Prop where
  names : state.files.files.map (fun file => (file.id, file.file)) = names
  ids : (state.files.files.map StorageFile.id).Nodup
  paths : (state.files.files.map StorageFile.file).Nodup
  index : ∀ (id : StorageId) (index : Nat),
    (state.files.files.map StorageFile.id)[index]? = some id →
      state.files.id2file.get id = some index
  placed : ∀ (index : Nat) (file : StorageFile), state.files.files[index]? = some file →
    file.Placed (extentsOf state.live file.id)
  stored : ∀ entry ∈ state.live, ∃ (index : Nat) (file : StorageFile),
    state.files.files[index]? = some file ∧ file.id = entry.1.storageId ∧
      (state.disk file.file).readExactAt entry.1.offset entry.1.size = some entry.2

end FilesState

namespace StorageFile

/-- The name of a file is its id with its path. -/
def name (file : StorageFile) : StorageId × Path := (file.id, file.file)

/-- A write changes only the cursors. -/
theorem writeSide_cursors (file : StorageFile) (disk : Disk) (buffer : Bytes) (side : VecSide) :
    ∃ tail head, (file.writeSide disk buffer side).2.1 = { file with tail, head } := by
  cases side with
  | back =>
      simp only [StorageFile.writeSide, StorageFile.writeBack]
      split <;> exact ⟨_, _, rfl⟩
  | front =>
      simp only [StorageFile.writeSide, StorageFile.writeFront]
      split
      · exact ⟨_, _, rfl⟩
      · split <;> exact ⟨_, _, rfl⟩

/-- A removal changes only the cursors. -/
theorem popBlock_cursors (file : StorageFile) (block : StoredBlock) (side : VecSide) :
    ∃ tail head, (file.popBlock block side).2 = { file with tail, head } := by
  cases side <;>
    · simp only [StorageFile.popBlock]
      split
      · exact ⟨_, _, rfl⟩
      · split <;> exact ⟨_, _, rfl⟩

theorem writeSide_name (file : StorageFile) (disk : Disk) (buffer : Bytes) (side : VecSide) :
    (file.writeSide disk buffer side).2.1.name = file.name := by
  obtain ⟨tail, head, same⟩ := file.writeSide_cursors disk buffer side
  rw [same]
  rfl

theorem popBlock_name (file : StorageFile) (block : StoredBlock) (side : VecSide) :
    (file.popBlock block side).2.name = file.name := by
  obtain ⟨tail, head, same⟩ := file.popBlock_cursors block side
  rw [same]
  rfl

end StorageFile

namespace StorageFilesWrite

variable {self after : StorageFilesWrite} {disk disk' : Disk} {buffer : Bytes} {side : VecSide}

/-- The search changes only the position of the next search. -/
theorem getFileIndexForNewBlock_frame (self : StorageFilesWrite) (size : Nat) :
    (self.getFileIndexForNewBlock size).2.files = self.files ∧
      (self.getFileIndexForNewBlock size).2.id2file = self.id2file := by
  unfold getFileIndexForNewBlock
  split <;> exact ⟨rfl, rfl⟩

/-- A placed block was written to the file that the search selected. -/
theorem pushBlock_ok {storageId : StorageId} {offset : Nat}
    (success : self.pushBlock disk buffer side = (.ok (some (storageId, offset)), after, disk')) :
    ∃ index file file', (self.getFileIndexForNewBlock buffer.length).1 = .ok (some index) ∧
      self.files[index]? = some file ∧
      file.writeSide disk buffer side = (.ok offset, file', disk') ∧ storageId = file.id ∧
      after.files = self.files.set index file' ∧ after.id2file = self.id2file := by
  have search := getFileIndexForNewBlock_frame self buffer.length
  unfold pushBlock at success
  split at success
  · cases success
  · cases success
  · rename_i index chosen found
    rw [found] at search ⊢
    split at success
    · cases success
    · rename_i file place
      rw [search.1] at place
      dsimp only at success
      generalize written : file.writeSide disk buffer side = result at success
      obtain ⟨failed | value, file', disk''⟩ := result
      · cases success
      · cases success
        refine ⟨index, file, file', rfl, place, written, rfl, ?_, search.2⟩
        dsimp only
        rw [search.1]

/-- A stored buffer is written at its place in the file of its id. -/
theorem pushBlock_placed {storageId : StorageId} {offset : Nat}
    (success : self.pushBlock disk buffer side = (.ok (some (storageId, offset)), after, disk')) :
    ∃ file ∈ self.files, storageId = file.id ∧ disk' = disk.writeAllAt file.file buffer offset := by
  obtain ⟨index, file, file', -, place, written, same, -, -⟩ := pushBlock_ok success
  refine ⟨file, List.mem_of_getElem? place, same, ?_⟩
  cases side with
  | back => exact (StorageFile.writeBack_ok written).2.2.2
  | front => exact (StorageFile.writeFront_ok written).2.2.2.2

/-- A push without a place keeps the files and the disk. -/
theorem pushBlock_none (success : self.pushBlock disk buffer side = (.ok none, after, disk')) :
    after.files = self.files ∧ after.id2file = self.id2file ∧ disk' = disk := by
  have search := getFileIndexForNewBlock_frame self buffer.length
  unfold pushBlock at success
  split at success
  · cases success
  · rename_i found
    cases success
    rw [found] at search
    exact ⟨search.1, search.2, rfl⟩
  · split at success
    · cases success
    · dsimp only at success
      split at success <;> cases success

/-- A removal moves a cursor of the file that the id of the block selects. -/
theorem popBlock_ok {block : StoredBlock} {result : Unit}
    (success : self.popBlock block side = (.ok result, after)) :
    ∃ index file file', self.id2file.get block.storageId = some index ∧
      self.files[index]? = some file ∧ file.popBlock block side = (.ok result, file') ∧
      after.files = self.files.set index file' ∧ after.id2file = self.id2file := by
  unfold popBlock at success
  split at success
  · cases success
  · rename_i index selected
    split at success
    · cases success
    · rename_i file place
      dsimp only at success
      generalize popped : file.popBlock block side = outcome at success
      obtain ⟨value, file'⟩ := outcome
      cases success
      exact ⟨index, file, file', selected, place, popped, rfl, rfl⟩

/-- A push keeps what a write keeps of each file and the map of the ids. -/
theorem pushBlock_map {A : Type} (name : StorageFile → A)
    (kept : ∀ file, name (StorageFile.writeSide file disk buffer side).2.1 = name file) :
    (self.pushBlock disk buffer side).2.1.files.map name = self.files.map name ∧
      (self.pushBlock disk buffer side).2.1.id2file = self.id2file := by
  have search := getFileIndexForNewBlock_frame self buffer.length
  unfold pushBlock
  split
  · rename_i error found
    rw [found] at search
    exact ⟨congrArg _ search.1, search.2⟩
  · rename_i found
    rw [found] at search
    exact ⟨congrArg _ search.1, search.2⟩
  · rename_i index found' found
    rw [found] at search
    dsimp only at search
    split
    · exact ⟨congrArg _ search.1, search.2⟩
    · rename_i file place
      have named := kept file
      generalize file.writeSide disk buffer side = result at named ⊢
      obtain ⟨failed | value, file', disk''⟩ := result
      · refine ⟨?_, search.2⟩
        rw [← search.1]
        exact map_set_eq_map name place named
      · refine ⟨?_, search.2⟩
        rw [← search.1]
        exact map_set_eq_map name place named

/-- A removal keeps what the one of its file keeps and the map of the ids. -/
theorem popBlock_map {A : Type} {block : StoredBlock} (name : StorageFile → A)
    (kept : ∀ file, name (StorageFile.popBlock file block side).2 = name file) :
    (self.popBlock block side).2.files.map name = self.files.map name ∧
      (self.popBlock block side).2.id2file = self.id2file := by
  unfold popBlock
  split
  · exact ⟨rfl, rfl⟩
  · split
    · exact ⟨rfl, rfl⟩
    · rename_i file place
      exact ⟨map_set_eq_map name place (kept file), rfl⟩

/-- A push keeps the names of the files and the map of the ids. -/
theorem pushBlock_names (self : StorageFilesWrite) (disk : Disk) (buffer : Bytes) (side : VecSide) :
    (self.pushBlock disk buffer side).2.1.files.map StorageFile.name =
        self.files.map StorageFile.name ∧
      (self.pushBlock disk buffer side).2.1.id2file = self.id2file :=
  pushBlock_map StorageFile.name fun file => file.writeSide_name disk buffer side

/-- A removal keeps the names of the files and the map of the ids. -/
theorem popBlock_names (self : StorageFilesWrite) (block : StoredBlock) (side : VecSide) :
    (self.popBlock block side).2.files.map StorageFile.name = self.files.map StorageFile.name ∧
      (self.popBlock block side).2.id2file = self.id2file :=
  popBlock_map StorageFile.name fun file => file.popBlock_name block side

end StorageFilesWrite

namespace FilesState

variable {state next : FilesState} {index : Nat} {file file' : StorageFile}
  {names : List (StorageId × Path)}

/-- Only the changed place holds a new file. -/
theorem getElem?_set_cases {files : List StorageFile} {other : Nat} {found : StorageFile}
    (place : (files.set index file')[other]? = some found) :
    (other = index ∧ found = file') ∨ (other ≠ index ∧ files[other]? = some found) := by
  rw [List.getElem?_set] at place
  split at place
  · rename_i here
    split at place <;> cases place
    exact Or.inl ⟨here.symm, rfl⟩
  · exact Or.inr ⟨fun same => ‹¬ index = other› same.symm, place⟩

/-- Two places with distinct names hold different names. -/
theorem name_ne {A : Type} (name : StorageFile → A) {files : List StorageFile} {other : Nat}
    {found : StorageFile} (distinct : (files.map name).Nodup) (place : files[index]? = some file)
    (place' : files[other]? = some found) (different : other ≠ index) : name found ≠ name file := by
  intro same
  apply different
  obtain ⟨bound, -⟩ := List.getElem?_eq_some_iff.mp place'
  apply List.getElem?_inj (by simpa using bound) distinct |>.mp
  rw [List.getElem?_map, List.getElem?_map, place, place', Option.map_some, Option.map_some, same]

/-- A change of one file keeps the state valid when its extents and the stored bytes stay. -/
theorem Valid.replace (valid : state.Valid names) (place : state.files.files[index]? = some file)
    (sameId : file'.id = file.id) (samePath : file'.file = file.file)
    (files : next.files.files = state.files.files.set index file')
    (map : next.files.id2file = state.files.id2file)
    (here : file'.Placed (extentsOf next.live file.id))
    (others : ∀ id, id ≠ file.id → extentsOf next.live id = extentsOf state.live id)
    (stored : ∀ entry ∈ next.live, ∃ (other : Nat) (found : StorageFile),
      state.files.files[other]? = some found ∧ found.id = entry.1.storageId ∧
        (next.disk found.file).readExactAt entry.1.offset entry.1.size = some entry.2) :
    next.Valid names := by
  have ids := map_set_eq_map StorageFile.id place sameId
  have paths := map_set_eq_map StorageFile.file place samePath
  have named := map_set_eq_map (fun file => (file.id, file.file)) place
    (show (file'.id, file'.file) = (file.id, file.file) by rw [sameId, samePath])
  rw [← files] at ids paths named
  constructor
  · rw [named]
    exact valid.names
  · rw [ids]
    exact valid.ids
  · rw [paths]
    exact valid.paths
  · rw [ids, map]
    exact valid.index
  · intro other found foundPlace
    rw [files] at foundPlace
    rcases getElem?_set_cases foundPlace with ⟨rfl, rfl⟩ | ⟨different, foundPlace⟩
    · rw [sameId]
      exact here
    · rw [others _ (name_ne StorageFile.id valid.ids place foundPlace different)]
      exact valid.placed other found foundPlace
  · intro entry member
    obtain ⟨other, found, foundPlace, owns, bytes⟩ := stored entry member
    by_cases same : other = index
    · subst same
      obtain rfl : found = file := Option.some_inj.mp (foundPlace.symm.trans place)
      refine ⟨other, file', ?_, by rw [sameId, owns], by rw [samePath, bytes]⟩
      rw [files, List.getElem?_set_self (List.getElem?_eq_some_iff.mp place).1]
    · refine ⟨other, found, ?_, owns, bytes⟩
      rw [files, List.getElem?_set_ne (fun equal => same equal.symm), foundPlace]

/-- A write keeps the bytes of every live block that it does not overlap. -/
theorem Valid.stored_write {buffer : Bytes} {offset : Nat} (valid : state.Valid names)
    (place : state.files.files[index]? = some file)
    (apart : ∀ extent ∈ extentsOf state.live file.id, extent.Disjoint ⟨offset, buffer.length⟩)
    (entry : StoredBlock × Bytes) (member : entry ∈ state.live) :
    ∃ (other : Nat) (found : StorageFile),
      state.files.files[other]? = some found ∧ found.id = entry.1.storageId ∧
        (state.disk.writeAllAt file.file buffer offset found.file).readExactAt entry.1.offset
          entry.1.size = some entry.2 := by
  obtain ⟨other, found, foundPlace, owns, bytes⟩ := valid.stored entry member
  refine ⟨other, found, foundPlace, owns, ?_⟩
  by_cases same : other = index
  · subst same
    obtain rfl : found = file := Option.some_inj.mp (foundPlace.symm.trans place)
    rw [Disk.writeAllAt_self]
    have separate := apart entry.1.extent (List.mem_map.mpr
      ⟨entry, List.mem_filter.mpr ⟨member, by simpa using owns.symm⟩, rfl⟩)
    exact DiskFile.readExactAt_writeAllAt_of_disjoint _ _ separate bytes
  · rw [Disk.writeAllAt_of_ne _ _ _ (name_ne StorageFile.file valid.paths place foundPlace same)]
    exact bytes

/-- A push without a place keeps the state valid. -/
theorem Valid.refused {files : StorageFilesWrite} (valid : state.Valid names)
    (sameFiles : files.files = state.files.files) (sameMap : files.id2file = state.files.id2file) :
    Valid ⟨files, state.disk, state.live⟩ names := by
  obtain ⟨named, ids, paths, index, placed, stored⟩ := valid
  rw [← sameFiles] at named ids paths index placed stored
  rw [← sameMap] at index
  exact ⟨named, ids, paths, index, placed, stored⟩

section steps

variable {slot : Nat} {blockTime : Option UnixTimestamp} {blockHeight : Option Nat} {buffer : Bytes}

/-- A guarded push at the front keeps the state valid. -/
theorem Valid.writeFront (valid : state.Valid names)
    (guarded : state.Guard (.writeFront slot blockTime blockHeight buffer))
    (stepped : state.step (.writeFront slot blockTime blockHeight buffer) = some next) :
    next.Valid names := by
  simp only [step] at stepped
  split at stepped <;> [skip; cases stepped]
  generalize result : state.files.pushBlockFront state.disk buffer = outcome at stepped
  obtain ⟨failed | _ | ⟨storageId, offset⟩, files, disk⟩ := outcome
  · cases stepped
  · cases stepped
    obtain ⟨sameFiles, sameMap, rfl⟩ := StorageFilesWrite.pushBlock_none result
    exact valid.refused sameFiles sameMap
  · cases stepped
    obtain ⟨index, file, file', chosen, place, written, rfl, sameFiles, sameMap⟩ :=
      StorageFilesWrite.pushBlock_ok result
    have placed := (valid.placed index file place).writeFront (fun nonempty equal => ?_) written
    · obtain ⟨-, -, -, rfl, rfl⟩ := StorageFile.writeFront_ok written
      have extents : extentsOf (state.live ++
          [(.newConfirmed slot blockTime blockHeight file.id offset buffer.length, buffer)])
          file.id = extentsOf state.live file.id ++ [⟨offset, buffer.length⟩] := by
        simp [extentsOf, StoredBlock.newConfirmed, StoredBlock.extent]
      refine valid.replace place (by rfl) (by rfl) sameFiles sameMap ?_ ?_ ?_
      · rw [extents]
        exact placed
      · intro id different
        simp [extentsOf, StoredBlock.newConfirmed, different.symm]
      · intro entry member
        rcases List.mem_append.mp member with member | member
        · exact valid.stored_write place
            (fun extent inside => (List.pairwise_append.mp placed.pairwise_disjoint).2.2 extent
              inside _ (by simp)) entry member
        · rw [List.mem_singleton.mp member]
          refine ⟨index, file, place, rfl, ?_⟩
          dsimp only [StoredBlock.newConfirmed]
          rw [Disk.writeAllAt_self, DiskFile.readExactAt_writeAllAt]
    · have free := guarded index file chosen place nonempty equal
      rw [extentsOf, List.filter_eq_nil_iff.mpr (by simpa using free), List.map_nil]

/-- A guarded push at the back keeps the state valid. -/
theorem Valid.writeBack (valid : state.Valid names)
    (guarded : state.Guard (.writeBack slot blockTime blockHeight buffer))
    (stepped : state.step (.writeBack slot blockTime blockHeight buffer) = some next) :
    next.Valid names := by
  simp only [step] at stepped
  split at stepped <;> [skip; cases stepped]
  generalize result : state.files.pushBlockBack state.disk buffer = outcome at stepped
  obtain ⟨failed | _ | ⟨storageId, offset⟩, files, disk⟩ := outcome
  · cases stepped
  · cases stepped
    obtain ⟨sameFiles, sameMap, rfl⟩ := StorageFilesWrite.pushBlock_none result
    exact valid.refused sameFiles sameMap
  · cases stepped
    obtain ⟨index, file, file', chosen, place, written, rfl, sameFiles, sameMap⟩ :=
      StorageFilesWrite.pushBlock_ok result
    have placed := (valid.placed index file place).writeBack (fun nonempty equal => ?_) written
    · obtain ⟨-, -, rfl, rfl⟩ := StorageFile.writeBack_ok written
      have extents : extentsOf
          ((.newConfirmed slot blockTime blockHeight file.id offset buffer.length, buffer) ::
            state.live) file.id = ⟨offset, buffer.length⟩ :: extentsOf state.live file.id := by
        simp [extentsOf, StoredBlock.newConfirmed, StoredBlock.extent]
      refine valid.replace place (by rfl) (by rfl) sameFiles sameMap ?_ ?_ ?_
      · rw [extents]
        exact placed
      · intro id different
        simp [extentsOf, StoredBlock.newConfirmed, different.symm]
      · intro entry member
        rcases List.mem_cons.mp member with rfl | member
        · refine ⟨index, file, place, rfl, ?_⟩
          dsimp only [StoredBlock.newConfirmed]
          rw [Disk.writeAllAt_self, DiskFile.readExactAt_writeAllAt]
        · exact valid.stored_write place
            (fun extent inside => ((List.pairwise_cons.mp placed.pairwise_disjoint).1 extent
              inside).symm) entry member
    · have free := guarded index file chosen place nonempty equal
      rw [extentsOf, List.filter_eq_nil_iff.mpr (by simpa using free), List.map_nil]

/-- The id of a live block selects its file. -/
theorem Valid.owner (valid : state.Valid names) {entry : StoredBlock × Bytes}
    (member : entry ∈ state.live) (selected : state.files.id2file.get entry.1.storageId = some index)
    (place : state.files.files[index]? = some file) : file.id = entry.1.storageId := by
  obtain ⟨other, found, foundPlace, owns, -⟩ := valid.stored entry member
  have known := valid.index found.id other (by rw [List.getElem?_map, foundPlace]; rfl)
  rw [owns, selected] at known
  cases known
  rw [← owns, Option.some_inj.mp (foundPlace.symm.trans place)]

/-- A removal at the back keeps the state valid. -/
theorem Valid.popBack (valid : state.Valid names) (stepped : state.step .popBack = some next) :
    next.Valid names := by
  obtain ⟨files, disk, live⟩ := state
  simp only [step] at stepped
  rcases live with _ | ⟨entry, rest⟩ <;> [cases stepped; skip]
  simp only [List.head?_cons, List.tail_cons] at stepped
  split at stepped <;> [cases stepped; cases stepped]
  rename_i popped
  obtain ⟨index, file, file', selected, place, moved, sameFiles, sameMap⟩ :=
    StorageFilesWrite.popBlock_ok popped
  have owns : file.id = entry.1.storageId := valid.owner List.mem_cons_self selected place
  have placed := valid.placed index file place
  have extents : extentsOf (entry :: rest) file.id =
      entry.1.extent :: extentsOf rest file.id := by simp [extentsOf, owns]
  rw [extents] at placed
  have after := placed.popBack moved
  obtain ⟨rfl, -⟩ := StorageFile.popBlock_back_ok moved
  refine valid.replace place (by rfl) (by rfl) sameFiles sameMap after ?_ ?_
  · intro id different
    have other : entry.1.storageId ≠ id := fun same => different (same.symm.trans owns.symm)
    simp [extentsOf, other]
  · intro later member
    exact valid.stored later (List.mem_cons_of_mem _ member)

/-- A removal at the front keeps the state valid. -/
theorem Valid.popFront (valid : state.Valid names) (stepped : state.step .popFront = some next) :
    next.Valid names := by
  obtain ⟨files, disk, live⟩ := state
  simp only [step] at stepped
  rcases live.eq_nil_or_concat with rfl | ⟨rest, entry, rfl⟩ <;> [cases stepped; skip]
  rw [List.concat_eq_append] at valid
  simp only [List.concat_eq_append, List.getLast?_concat, List.dropLast_concat] at stepped
  split at stepped <;> [cases stepped; cases stepped]
  rename_i popped
  obtain ⟨index, file, file', selected, place, moved, sameFiles, sameMap⟩ :=
    StorageFilesWrite.popBlock_ok popped
  have owns : file.id = entry.1.storageId := valid.owner (by simp) selected place
  have placed := valid.placed index file place
  have extents : extentsOf (rest ++ [entry]) file.id =
      extentsOf rest file.id ++ [entry.1.extent] := by simp [extentsOf, owns]
  rw [extents] at placed
  have after := placed.popFront moved
  obtain ⟨rfl, -⟩ := StorageFile.popBlock_front_ok moved
  refine valid.replace place (by rfl) (by rfl) sameFiles sameMap after ?_ ?_
  · intro id different
    have other : entry.1.storageId ≠ id := fun same => different (same.symm.trans owns.symm)
    simp [extentsOf, other]
  · intro earlier member
    exact valid.stored earlier (List.mem_append_left _ member)

end steps

/-- Every guarded operation keeps the state valid. -/
theorem Valid.step {op : FileOp} (valid : state.Valid names) (guarded : state.Guard op)
    (stepped : state.step op = some next) : next.Valid names := by
  cases op with
  | writeFront slot blockTime blockHeight buffer => exact valid.writeFront guarded stepped
  | writeBack slot blockTime blockHeight buffer => exact valid.writeBack guarded stepped
  | popBack => exact valid.popBack stepped
  | popFront => exact valid.popFront stepped

end FilesState

section readBack

variable {configs : List ConfigStorageFile} {blocks : StoredBlocksWrite} {disk disk' : Disk}
  {write : StorageFilesWrite} {init : StorageFilesSyncInit}

/-- Files that are opened without stored blocks place no extents. -/
theorem valid_openAll (distinct : (configs.map ConfigStorageFile.id).Nodup)
    (distinctPaths : (configs.map ConfigStorageFile.path).Nodup)
    (fresh : blocks.getStoredBoundaries = HashMap.empty)
    (success : StorageFilesWrite.openAll configs blocks disk = (.ok (write, init), disk')) :
    FilesState.Valid ⟨write, disk', []⟩
      (write.files.map fun file => (file.id, file.file)) := by
  have from' := openedFrom_openAll distinct success
  have sorted := List.mergeSort_perm configs fun first second => first.id ≤ second.id
  have ids := congrArg (List.map Prod.fst) from'.files
  have paths := congrArg (List.map Prod.snd) from'.files
  rw [List.map_map, List.map_map] at ids paths
  refine ⟨rfl, ?_, ?_, from'.index, ?_, by simp⟩
  · exact ids ▸ (sorted.map ConfigStorageFile.id).nodup_iff.mpr distinct
  · exact paths ▸ (sorted.map ConfigStorageFile.path).nodup_iff.mpr distinctPaths
  · obtain ⟨files, restored, rfl, -⟩ := openAll_ok success
    rw [fresh, StorageFilesWrite.restoreAll_empty, List.zipIdx_map_fst] at restored
    cases restored
    intro index file place
    obtain ⟨config, -, rfl⟩ := Option.map_eq_some_iff.mp (List.getElem?_map ▸ place)
    exact StorageFile.placed_empty _ _ _ _

end readBack

/-- This ring has one cell and no block. -/
def oneCellBlocks : StoredBlocksWrite := ⟨⟨1, fun _ => .newNoexists, 0, 0⟩, maxSlot, []⟩

end Alpamayo
