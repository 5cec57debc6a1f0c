import Alpamayo.Proof.FilesReadBack
import Alpamayo.Proof.FreeSpace

/-!
This file shows when the allocator accepts the removal of the outermost blocks of a file.
-/

namespace Alpamayo

namespace StorageFile

variable {file : StorageFile} {block : StoredBlock}

/-- A removal at the back succeeds exactly if the head is inside the file. -/
theorem isOk_popBlock_back_iff : (file.popBlock block .back).1.isOk ↔ file.head < file.size := by
  simp only [popBlock]
  split
  · rename_i outside
    exact iff_of_false (by simp [Except.isOk, Except.toBool]) outside
  · rename_i inside
    have inside := not_not.mp inside
    have tail : (block.offset + block.size) % file.size ≤ file.size :=
      (Nat.mod_lt _ (by omega)).le
    rw [if_neg (not_not.mpr tail)]
    exact iff_of_true rfl inside

/-- A removal at the front succeeds exactly if the block starts inside the file. -/
theorem isOk_popBlock_front_iff (bounded : file.Bounded) :
    (file.popBlock block .front).1.isOk ↔ block.offset < file.size := by
  simp only [popBlock]
  split
  · rename_i outside
    exact iff_of_false (by simp [Except.isOk, Except.toBool]) outside
  · rename_i inside
    rw [if_neg (not_not.mpr bounded.tail)]
    exact iff_of_true rfl (not_not.mp inside)

end StorageFile

/-- The cursors lie in their files, the map places every id, and the search starts at a file. -/
structure StorageFilesWrite.Sound (write : StorageFilesWrite) : Prop where
  bounded : ∀ file ∈ write.files, file.Bounded
  placed : ∀ id ∈ write.files.map StorageFile.id, ∃ index file,
    write.id2file.get id = some index ∧ write.files[index]? = some file
  start : write.files ≠ [] → write.nextFile < write.files.length

namespace StorageFilesWrite

variable {self after : StorageFilesWrite} {disk disk' : Disk} {buffer : Bytes} {side : VecSide}
  {index : Nat} {file file' : StorageFile}

/-- A change of one file inside its size keeps the files sound. -/
theorem Sound.replace (sound : self.Sound) (place : self.files[index]? = some file)
    (same : file'.name = file.name) (bounded : file'.Bounded)
    (files : after.files = self.files.set index file') (map : after.id2file = self.id2file)
    (start : after.nextFile < self.files.length) : after.Sound := by
  have ids := map_set_eq_map StorageFile.id place (Prod.mk.inj same).1
  rw [← files] at ids
  constructor
  · intro found member
    rw [files] at member
    cases List.mem_or_eq_of_mem_set member with
    | inl member => exact sound.bounded found member
    | inr same => exact same ▸ bounded
  · intro id member
    rw [ids] at member
    obtain ⟨other, found, selected, foundPlace⟩ := sound.placed id member
    rw [map, files]
    by_cases here : index = other
    · subst here
      have inside := (List.getElem?_eq_some_iff.mp foundPlace).1
      exact ⟨index, file', selected, List.getElem?_set_self inside⟩
    · exact ⟨other, found, selected, by rw [List.getElem?_set_ne here, foundPlace]⟩
  · intro _
    rw [files, List.length_set]
    exact start

/-- The next search starts at a file. -/
theorem fileIndexLoop_start {files : List StorageFile} (nonempty : 0 < files.length)
    (size currentIndex fuel index : Nat) (inside : index < files.length) :
    (fileIndexLoop files size currentIndex fuel index).2 < files.length := by
  induction fuel generalizing index with
  | zero => exact inside
  | succ fuel ih =>
      have next := Nat.mod_lt (index + 1) nonempty
      simp only [fileIndexLoop]
      split
      · exact next
      · split
        · exact next
        · split
          · exact next
          · exact ih _ next

/-- The search keeps the files sound. -/
theorem Sound.getFileIndexForNewBlock (sound : self.Sound) (size : Nat) :
    (self.getFileIndexForNewBlock size).2.Sound := by
  obtain ⟨files, map⟩ := getFileIndexForNewBlock_frame self size
  obtain ⟨bounded, placed, start⟩ := sound
  rw [← files] at bounded placed
  rw [← map] at placed
  refine ⟨bounded, placed, ?_⟩
  rw [files]
  intro nonempty
  have positive := List.length_pos_iff.mpr nonempty
  rw [StorageFilesWrite.getFileIndexForNewBlock, if_neg (by omega)]
  exact fileIndexLoop_start positive _ _ _ _ (start nonempty)

/-- A placed block leaves the files as the search left them, except for the written one. -/
theorem pushBlock_nextFile (self : StorageFilesWrite) (disk : Disk) (buffer : Bytes) (side : VecSide) :
    (self.pushBlock disk buffer side).2.1.nextFile =
      (self.getFileIndexForNewBlock buffer.length).2.nextFile := by
  unfold pushBlock
  split
  · rename_i found
    rw [found]
  · rename_i found
    rw [found]
  · rename_i found
    rw [found]
    split
    · rfl
    · dsimp only
      split <;> rfl

/-- A successful push keeps the files sound. -/
theorem Sound.pushBlock {place : Option (StorageId × Nat)} (sound : self.Sound)
    (success : self.pushBlock disk buffer side = (.ok place, after, disk')) : after.Sound := by
  have searched := sound.getFileIndexForNewBlock buffer.length
  have next := self.pushBlock_nextFile disk buffer side
  obtain ⟨sameFiles, sameMap⟩ := getFileIndexForNewBlock_frame self buffer.length
  rw [success] at next
  dsimp only at next
  cases place with
  | none =>
      obtain ⟨files, map, -⟩ := pushBlock_none success
      obtain ⟨bounded, placed, start⟩ := searched
      rw [sameFiles, ← files] at bounded placed start
      rw [sameMap, ← map] at placed
      rw [← next] at start
      exact ⟨bounded, placed, start⟩
  | some placed =>
      obtain ⟨index, file, file', -, place, written, -, files, map⟩ := pushBlock_ok success
      have inFiles := List.mem_of_getElem? place
      have bounded := ((sound.bounded file inFiles).writeSide side written).1
      have sameName := file.writeSide_name disk buffer side
      rw [written] at sameName
      apply sound.replace place sameName bounded files map
      have start := searched.start (by
        rw [sameFiles]
        exact List.ne_nil_of_mem inFiles)
      rwa [sameFiles, ← next] at start

/-- A removal does not move the start of the search. -/
theorem popBlock_nextFile (self : StorageFilesWrite) (block : StoredBlock) (side : VecSide) :
    (self.popBlock block side).2.nextFile = self.nextFile := by
  unfold popBlock
  split
  · rfl
  · split <;> rfl

/-- A successful removal keeps the files sound. -/
theorem Sound.popBlock {block : StoredBlock} {result : Unit} (sound : self.Sound)
    (success : self.popBlock block side = (.ok result, after)) : after.Sound := by
  obtain ⟨index, file, file', -, place, moved, files, map⟩ := popBlock_ok success
  have inFiles := List.mem_of_getElem? place
  have bounded := ((sound.bounded file inFiles).popBlock moved).1
  have sameName := file.popBlock_name block side
  rw [moved] at sameName
  apply sound.replace place sameName bounded files map
  have next := self.popBlock_nextFile block side
  rw [success] at next
  dsimp only at next
  rw [next]
  exact sound.start (List.ne_nil_of_mem inFiles)

end StorageFilesWrite

namespace FilesState

/-- A call of the allocator pushes a block or removes an outermost block of one file. -/
inductive Call where
  | pushFront (slot : Nat) (blockTime : Option UnixTimestamp) (blockHeight : Option Nat)
      (buffer : Bytes)
  | pushBack (slot : Nat) (blockTime : Option UnixTimestamp) (blockHeight : Option Nat)
      (buffer : Bytes)
  | popBack (id : StorageId)
  | popFront (id : StorageId)

/-- The live blocks with the storage id by ascending slot. -/
def liveOf (state : FilesState) (id : StorageId) : List (StoredBlock × Bytes) :=
  state.live.filter fun entry => entry.1.storageId = id

/-- The removed entry leaves the live ones when the allocator accepts it. -/
def remove (state : FilesState) (side : VecSide) :
    Option (StoredBlock × Bytes) → Option FilesState
  | none => none
  | some entry =>
      match state.files.popBlock entry.1 side with
      | (.ok _, files) => some { state with files, live := state.live.erase entry }
      | (.error _, _) => none

/-- A successful call gives the next state; a failed call gives none. -/
def call (state : FilesState) : Call → Option FilesState
  | .pushFront slot blockTime blockHeight buffer =>
      state.step (.writeFront slot blockTime blockHeight buffer)
  | .pushBack slot blockTime blockHeight buffer =>
      state.step (.writeBack slot blockTime blockHeight buffer)
  | .popBack id => state.remove .back (state.liveOf id).head?
  | .popFront id => state.remove .front (state.liveOf id).getLast?

/-- A run performs each call in the state that the earlier calls reach. -/
def runCalls : FilesState → List Call → Option FilesState
  | state, [] => some state
  | state, call :: calls => (state.call call).bind fun next => runCalls next calls

/-- The entry has the lowest slot of the live blocks with the storage id. -/
structure Lowest (state : FilesState) (id : StorageId) (entry : StoredBlock × Bytes) : Prop where
  member : entry ∈ state.liveOf id
  least : ∀ other ∈ state.liveOf id, entry.1.slot ≤ other.1.slot

/-- The entry has the highest slot of the live blocks with the storage id. -/
structure Highest (state : FilesState) (id : StorageId) (entry : StoredBlock × Bytes) : Prop where
  member : entry ∈ state.liveOf id
  greatest : ∀ other ∈ state.liveOf id, other.1.slot ≤ entry.1.slot

/-- The files are sound, and every live block lies in one of them. -/
structure Allocated (state : FilesState) : Prop where
  sound : state.files.Sound
  owned : ∀ entry ∈ state.live, entry.1.storageId ∈ state.files.files.map StorageFile.id

variable {state next : FilesState}

/-- The names of the files give their ids. -/
theorem map_id_of_names {files files' : List StorageFile}
    (names : files.map StorageFile.name = files'.map StorageFile.name) :
    files.map StorageFile.id = files'.map StorageFile.id := by
  have ids := congrArg (List.map Prod.fst) names
  rwa [List.map_map, List.map_map] at ids

/-- A push keeps the allocation. -/
theorem Allocated.pushed (side : VecSide) {buffer : Bytes}
    {add : StoredBlock × Bytes → List (StoredBlock × Bytes)}
    {cell : StorageId → Nat → StoredBlock} (allocated : state.Allocated)
    (added : ∀ entry, ∀ other ∈ add entry, other = entry ∨ other ∈ state.live)
    (named : ∀ id offset, (cell id offset).storageId = id)
    (stepped : state.pushed add cell buffer (state.files.pushBlock state.disk buffer side) =
      some next) : next.Allocated := by
  have ids := map_id_of_names (state.files.pushBlock_names state.disk buffer side).1
  generalize result : state.files.pushBlock state.disk buffer side = outcome at stepped ids
  obtain ⟨failed | _ | ⟨storageId, offset⟩, files, disk⟩ := outcome
  · cases stepped
  · cases stepped
    exact ⟨allocated.sound.pushBlock result, fun entry member => ids ▸ allocated.owned entry member⟩
  · cases stepped
    obtain ⟨index, file, file', -, place, -, rfl, -, -⟩ := StorageFilesWrite.pushBlock_ok result
    refine ⟨allocated.sound.pushBlock result, ?_⟩
    intro entry member
    rw [ids]
    cases added _ entry member with
    | inl new =>
        rw [new, named]
        exact List.mem_map_of_mem (List.mem_of_getElem? place)
    | inr old => exact allocated.owned entry old

/-- A removal keeps the allocation. -/
theorem Allocated.remove {side : VecSide} {entry : Option (StoredBlock × Bytes)}
    (allocated : state.Allocated) (stepped : state.remove side entry = some next) :
    next.Allocated := by
  cases entry with
  | none => cases stepped
  | some entry =>
      have ids := map_id_of_names (state.files.popBlock_names entry.1 side).1
      simp only [FilesState.remove] at stepped
      split at stepped <;> [cases stepped; cases stepped]
      rename_i popped
      rw [popped] at ids
      refine ⟨allocated.sound.popBlock popped, ?_⟩
      intro other member
      exact ids ▸ allocated.owned other (List.mem_of_mem_erase member)

/-- Every successful call keeps the allocation. -/
theorem Allocated.call {call : Call} (allocated : state.Allocated)
    (stepped : state.call call = some next) : next.Allocated := by
  cases call with
  | pushFront slot blockTime blockHeight buffer =>
      simp only [FilesState.call, FilesState.step] at stepped
      split at stepped
      · apply allocated.pushed .front _ (fun _ _ => rfl) stepped
        intro entry other member
        simpa [or_comm] using member
      · cases stepped
  | pushBack slot blockTime blockHeight buffer =>
      simp only [FilesState.call, FilesState.step] at stepped
      split at stepped
      · apply allocated.pushed .back _ (fun _ _ => rfl) stepped
        intro entry other member
        simpa using member
      · cases stepped
  | popBack id => exact allocated.remove stepped
  | popFront id => exact allocated.remove stepped

/-- Every run keeps the allocation. -/
theorem Allocated.runCalls {calls : List Call} (allocated : state.Allocated)
    (ran : state.runCalls calls = some next) : next.Allocated := by
  induction calls generalizing state with
  | nil =>
      cases ran
      exact allocated
  | cons call calls ih =>
      obtain ⟨middle, stepped, rest⟩ := Option.bind_eq_some_iff.mp ran
      exact ih (allocated.call stepped) rest

end FilesState

namespace StorageFilesWrite

variable {files : List StorageFile}

/-- The restored cursors lie in their files. -/
theorem bounded_restoreAll {id2file : HashMap StorageId Nat}
    {boundaries : HashMap StorageId StorageBlocksBoundaries} {entries : List (StorageFile × Nat)}
    (bounded : ∀ entry ∈ entries, entry.1.Bounded)
    (success : restoreAll id2file boundaries entries = .ok files) :
    ∀ file ∈ files, file.Bounded := by
  induction entries generalizing files with
  | nil =>
      cases success
      simp
  | cons entry rest ih =>
      obtain ⟨file, index⟩ := entry
      simp only [restoreAll] at success
      split at success
      · cases success
      · rename_i restored first
        split at success
        · cases success
        · rename_i later
          cases success
          refine List.forall_mem_cons.mpr
            ⟨?_, ih (fun entry member => bounded entry (List.mem_cons_of_mem _ member)) later⟩
          unfold restoreCursors at first
          split at first
          · cases first
            exact bounded _ List.mem_cons_self
          · dsimp only at first
            split at first
            · cases first
            · rename_i tail
              split at first
              · cases first
              · rename_i head
                cases first
                exact ⟨(not_not.mp tail).le, not_not.mp head⟩

/-- The map places every id of a file. -/
theorem idMap_placed {id : StorageId} (member : id ∈ files.map StorageFile.id) :
    ∃ index, (idMap files).get id = some index ∧ index < files.length := by
  have last := HashMap.get_foldl_insert files.zipIdx (fun entry => entry.1.id) Prod.snd
    HashMap.empty id
  obtain ⟨file, inFiles, rfl⟩ := List.mem_map.mp member
  obtain ⟨place, inside, rfl⟩ := List.getElem_of_mem inFiles
  have listed : (files[place], place) ∈ files.zipIdx.reverse := by
    simp [List.mem_zipIdx_iff_getElem?]
  obtain ⟨entry, found⟩ := Option.isSome_iff_exists.mp
    (List.find?_isSome (p := fun entry => decide (entry.1.id = files[place].id)).mpr
      ⟨_, listed, by simp⟩)
  rw [found] at last
  refine ⟨entry.2, last, ?_⟩
  have inside' := List.mem_reverse.mp (List.mem_of_find?_eq_some found)
  exact (List.mem_zipIdx' inside').1

/-- The boundaries have an entry for the file of every live block. -/
theorem containsKey_boundaries (cells : List StoredBlock)
    (map : HashMap StorageId StorageBlocksBoundaries) (id : StorageId)
    (named : map.containsKey id = true ∨ ∃ block ∈ cells, block.isLive = true ∧ block.storageId = id) :
    (cells.foldl (fun map block =>
      if block.isLive then
        map.insert block.storageId (((map.get block.storageId).getD ⟨none, none⟩).update block)
      else map) map).containsKey id = true := by
  induction cells generalizing map with
  | nil => simpa using named
  | cons block rest ih =>
      apply ih
      dsimp only
      cases named with
      | inl known =>
          left
          split
          · exact (HashMap.containsKey_insert _ _ _ _).mpr (Or.inr known)
          · exact known
      | inr found =>
          obtain ⟨other, member, live, same⟩ := found
          cases List.mem_cons.mp member with
          | inl here =>
              left
              rw [← here, if_pos live]
              exact (HashMap.containsKey_insert _ _ _ _).mpr (Or.inl same.symm)
          | inr later => exact Or.inr ⟨other, later, live, same⟩

/-- Every stored id has a file when no file is missed. -/
theorem mem_of_not_storageMissed {boundaries : HashMap StorageId StorageBlocksBoundaries}
    {id : StorageId} (complete : storageMissed files boundaries = false)
    (stored : boundaries.containsKey id = true) : id ∈ files.map StorageFile.id := by
  have checked := List.any_eq_false.mp complete id.toNat (List.mem_range.mpr id.toNat_lt)
  simp only [UInt8.ofNat_toNat, stored, Bool.true_and, Bool.not_eq_true', Bool.not_eq_false,
    List.any_eq_true, decide_eq_true_eq] at checked
  obtain ⟨file, member, same⟩ := checked
  exact List.mem_map.mpr ⟨file, member, same⟩

end StorageFilesWrite

section opening

variable {configs : List ConfigStorageFile} {blocks : StoredBlocksWrite} {disk disk' : Disk}
  {write : StorageFilesWrite} {init : StorageFilesSyncInit}

/-- The opened files are sound. -/
theorem sound_openAll
    (success : StorageFilesWrite.openAll configs blocks disk = (.ok (write, init), disk')) :
    write.Sound := by
  obtain ⟨files, restored, rfl, -⟩ := openAll_ok success
  have named := FilesState.map_id_of_names (StorageFilesWrite.restoreAll_ok restored)
  rw [List.zipIdx_map_fst] at named
  constructor
  · apply StorageFilesWrite.bounded_restoreAll _ restored
    intro entry member
    have inFiles := List.mem_map_of_mem (f := Prod.fst) member
    rw [List.zipIdx_map_fst] at inFiles
    obtain ⟨config, -, same⟩ := List.mem_map.mp inFiles
    rw [← same]
    exact ⟨Nat.zero_le _, Nat.zero_le _⟩
  · intro id member
    rw [named] at member
    obtain ⟨index, selected, inside⟩ := StorageFilesWrite.idMap_placed member
    have length := congrArg List.length named
    rw [List.length_map, List.length_map] at length
    have inside' : index < files.length := by omega
    exact ⟨index, files[index], selected, List.getElem?_eq_getElem inside'⟩
  · exact List.length_pos_iff.mpr

/-- Every live block of the ring has its file after the opening. -/
theorem owned_openAll {block : StoredBlock} (isLive : block.isLive = true)
    (loaded : ∃ cell, blocks.blocks.cells cell = block)
    (success : StorageFilesWrite.openAll configs blocks disk = (.ok (write, init), disk')) :
    block.storageId ∈ write.files.map StorageFile.id := by
  have complete : StorageFilesWrite.storageMissed write.files blocks.getStoredBoundaries = false := by
    simp only [StorageFilesWrite.openAll] at success
    split at success
    · cases success
    · split at success
      · cases success
      · split at success
        · cases success
        · rename_i complete
          cases success
          exact Bool.eq_false_iff.mpr complete
  obtain ⟨cell, here⟩ := loaded
  apply StorageFilesWrite.mem_of_not_storageMissed complete
  apply StorageFilesWrite.containsKey_boundaries
  exact Or.inr ⟨block, List.mem_map.mpr ⟨cell, List.mem_finRange cell, here⟩, isLive, rfl⟩

/-- In every reachable state the removals of the lowest and of the highest live block of a file
both succeed exactly if the head is not at the end of the file and the highest block starts inside
the file. -/
theorem runCalls_removable_iff (configs : List ConfigStorageFile) (blocks : StoredBlocksWrite)
    (disk disk' : Disk) (write : StorageFilesWrite) (init : StorageFilesSyncInit)
    (success : StorageFilesWrite.openAll configs blocks disk = (.ok (write, init), disk'))
    (live : List (StoredBlock × Bytes))
    (loaded : ∀ entry ∈ live, entry.1.isLive = true ∧ ∃ cell, blocks.blocks.cells cell = entry.1)
    (calls : List FilesState.Call) (reached : FilesState)
    (ran : FilesState.runCalls ⟨write, disk', live⟩ calls = some reached)
    (id : StorageId) (low high : StoredBlock × Bytes) (lowest : reached.Lowest id low)
    (highest : reached.Highest id high) :
    ∃ index file, reached.files.id2file.get id = some index ∧
      reached.files.files[index]? = some file ∧
      (((reached.files.popBlockBack low.1).1.isOk ∧ (reached.files.popBlockFront high.1).1.isOk) ↔
        file.head ≠ file.size ∧ high.1.offset < file.size) := by
  have opened : FilesState.Allocated ⟨write, disk', live⟩ := ⟨sound_openAll success,
    fun entry member => owned_openAll (loaded entry member).1 (loaded entry member).2 success⟩
  have allocated := opened.runCalls ran
  have lowId : low.1.storageId = id := by simpa using (List.mem_filter.mp lowest.member).2
  have highId : high.1.storageId = id := by simpa using (List.mem_filter.mp highest.member).2
  have owned := allocated.owned low (List.mem_filter.mp lowest.member).1
  obtain ⟨index, file, selected, place⟩ := allocated.sound.placed id (lowId ▸ owned)
  have bounded := allocated.sound.bounded file (List.mem_of_getElem? place)
  refine ⟨index, file, selected, place, ?_⟩
  have back : (reached.files.popBlockBack low.1).1 = (file.popBlock low.1 .back).1 := by
    simp only [StorageFilesWrite.popBlockBack, StorageFilesWrite.popBlock, lowId, selected, place]
  have front : (reached.files.popBlockFront high.1).1 = (file.popBlock high.1 .front).1 := by
    simp only [StorageFilesWrite.popBlockFront, StorageFilesWrite.popBlock, highId, selected, place]
  rw [back, front, StorageFile.isOk_popBlock_back_iff, StorageFile.isOk_popBlock_front_iff bounded]
  exact and_congr_left fun _ => bounded.head.lt_iff_ne

end opening

/-- One file of ten bytes takes new blocks. -/
def tenByteFiles : List ConfigStorageFile := [⟨0, "blocks", 10, true⟩]

/-- The file of ten bytes opens empty. -/
theorem openAll_tenByteFiles : ∃ init,
    StorageFilesWrite.openAll tenByteFiles oneCellBlocks (fun _ => ⟨10, fun _ => 0⟩) =
      (.ok (⟨[⟨0, "blocks", 0, 0, 10, true⟩], StorageFilesWrite.idMap
        [⟨0, "blocks", 0, 0, 10, true⟩], 0⟩, init), fun _ => ⟨10, fun _ => 0⟩) := by
  have fresh : oneCellBlocks.getStoredBoundaries = HashMap.empty := rfl
  simp [StorageFilesWrite.openAll, StorageFilesWrite.openFiles, StorageFilesWrite.openFile, fresh,
    StorageFilesWrite.restoreAll_empty, StorageFilesWrite.storageMissed_empty, tenByteFiles]
  exact ⟨_, rfl⟩

/-- The opened file of ten bytes before any block. -/
def tenByteState : FilesState where
  files := ⟨[⟨0, "blocks", 0, 0, 10, true⟩],
    StorageFilesWrite.idMap [⟨0, "blocks", 0, 0, 10, true⟩], 0⟩
  disk := fun _ => ⟨10, fun _ => 0⟩
  live := []

/-- This entry is the block of slot one with the bytes at the start of the file. -/
def firstEntry (buffer : Bytes) : StoredBlock × Bytes :=
  (.newConfirmed 1 none (some 1) 0 0 buffer.length, buffer)

/-- The only live block of a file is its lowest and its highest. -/
theorem FilesState.outermost_of_singleton {state : FilesState} {id : StorageId}
    {entry : StoredBlock × Bytes} (single : state.liveOf id = [entry]) :
    state.Lowest id entry ∧ state.Highest id entry := by
  constructor
  · exact ⟨by simp [single], by simp [single]⟩
  · exact ⟨by simp [single], by simp [single]⟩

/-- A block of four bytes in the file of ten bytes can be removed at both ends. -/
theorem runCalls_removable_iff_four : ∃ reached,
    tenByteState.runCalls [.pushFront 1 none (some 1) [1, 1, 1, 1]] = some reached ∧
      (reached.files.popBlockBack (firstEntry [1, 1, 1, 1]).1).1.isOk ∧
      (reached.files.popBlockFront (firstEntry [1, 1, 1, 1]).1).1.isOk := by
  obtain ⟨init, success⟩ := openAll_tenByteFiles
  obtain ⟨reached, ran⟩ : ∃ reached, tenByteState.runCalls
      [.pushFront 1 none (some 1) [1, 1, 1, 1]] = some reached := ⟨_, rfl⟩
  have single : reached.liveOf 0 = [firstEntry [1, 1, 1, 1]] := by
    cases ran
    rfl
  obtain ⟨lowest, highest⟩ := FilesState.outermost_of_singleton single
  obtain ⟨index, file, selected, place, removable⟩ := runCalls_removable_iff tenByteFiles
    oneCellBlocks _ _ _ init success [] (by simp) _ reached ran 0 _ _ lowest highest
  refine ⟨reached, ran, removable.mpr ?_⟩
  cases ran
  cases selected
  cases place
  decide

/-- A block that fills the file of ten bytes cannot be removed at the back. -/
theorem runCalls_removable_false : ¬ ∀ (configs : List ConfigStorageFile)
    (blocks : StoredBlocksWrite) (disk disk' : Disk) (write : StorageFilesWrite)
    (init : StorageFilesSyncInit),
    StorageFilesWrite.openAll configs blocks disk = (.ok (write, init), disk') →
    blocks.getStoredBoundaries = HashMap.empty →
    ∀ (calls : List FilesState.Call) (reached : FilesState),
      FilesState.runCalls ⟨write, disk', []⟩ calls = some reached →
      ∀ (id : StorageId) (low high : StoredBlock × Bytes), reached.Lowest id low →
        reached.Highest id high →
        (reached.files.popBlockBack low.1).1.isOk ∧
          (reached.files.popBlockFront high.1).1.isOk := by
  intro always
  obtain ⟨init, success⟩ := openAll_tenByteFiles
  obtain ⟨reached, ran⟩ : ∃ reached, tenByteState.runCalls
      [.pushFront 1 none (some 1) (List.replicate 10 1)] = some reached := ⟨_, rfl⟩
  have single : reached.liveOf 0 = [firstEntry (List.replicate 10 1)] := by
    cases ran
    rfl
  obtain ⟨lowest, highest⟩ := FilesState.outermost_of_singleton single
  have removed := (always _ _ _ _ _ init success rfl _ reached ran 0 _ _ lowest highest).1
  cases ran
  exact absurd removed (by decide)

end Alpamayo
