import Alpamayo.Proof.FilesEviction

/-!
This file says which room for a new block the removals of the oldest blocks make in the files.
-/

namespace Alpamayo

namespace StorageFile

/-- The file takes new blocks, and its free space covers the size. -/
def Takes (file : StorageFile) (size : Nat) : Prop :=
  file.newBlocks = true ∧ size ≤ file.freeSpace

instance (file : StorageFile) (size : Nat) : Decidable (file.Takes size) :=
  inferInstanceAs (Decidable (_ ∧ _))

/-- The write of the size at the front stays inside the file. -/
def FrontFits (file : StorageFile) (size : Nat) : Prop :=
  file.head = file.tail → file.head + size ≤ file.size

instance (file : StorageFile) (size : Nat) : Decidable (file.FrontFits size) :=
  inferInstanceAs (Decidable (_ → _))

end StorageFile

namespace StorageFilesWrite

/-- The block has bytes in the file at the index. -/
def HasBytes (self : StorageFilesWrite) (index : Nat) (block : StoredBlock) : Bool :=
  block.size ≠ 0 && self.id2file.get block.storageId = some index

/-- The removed blocks of a file move its tail behind the last one of them. -/
def tailAfter (self : StorageFilesWrite) (removed : List StoredBlock) (index : Nat)
    (file : StorageFile) : Nat :=
  ((removed.filter (self.HasBytes index)).getLast?.map fun block =>
    (block.offset + block.size) % file.size).getD file.tail

/-- The files after the removal of the blocks. -/
def freed (self : StorageFilesWrite) (removed : List StoredBlock) : StorageFilesWrite :=
  { self with files := self.files.mapIdx fun index file =>
      { file with tail := self.tailAfter removed index file } }

/-- The block has no bytes, or it lies in a file whose head is not at the end of the file. -/
def Removable (self : StorageFilesWrite) (block : StoredBlock) : Prop :=
  block.size ≠ 0 → ∀ index file, self.id2file.get block.storageId = some index →
    self.files[index]? = some file → file.head < file.size

/-- The first file that takes the size has room for it at its front. -/
def HasRoom (self : StorageFilesWrite) (size : Nat) : Prop :=
  ∃ index file, (self.getFileIndexForNewBlock size).1 = .ok (some index) ∧
    self.files[index]? = some file ∧ file.FrontFits size

/-- The removal of so many of the oldest blocks, but not of fewer, lets a file take the size, and the
first such file has room for it at its front. -/
structure FindsRoom (write : StorageFilesWrite) (contents : List StoredBlock)
    (size least count : Nat) : Prop where
  above : least ≤ count
  enough : count ≤ contents.length
  removable : ∀ block ∈ contents.take count, write.Removable block
  before : ∀ earlier, least ≤ earlier → earlier < count →
    ∀ file ∈ (write.freed (contents.take earlier)).files, ¬ file.Takes size
  room : (write.freed (contents.take count)).HasRoom size

variable {self : StorageFilesWrite} {contents rest : List StoredBlock} {block : StoredBlock}
  {size index : Nat} {file : StorageFile}

/-- Only the tails of the files change. -/
theorem freed_getElem? (self : StorageFilesWrite) (removed : List StoredBlock) (index : Nat) :
    (self.freed removed).files[index]? = self.files[index]?.map fun file =>
      { file with tail := self.tailAfter removed index file } := by
  rw [freed, List.getElem?_mapIdx]

@[simp] theorem freed_id2file (self : StorageFilesWrite) (removed : List StoredBlock) :
    (self.freed removed).id2file = self.id2file := rfl

@[simp] theorem freed_hasBytes (self : StorageFilesWrite) (removed : List StoredBlock) :
    (self.freed removed).HasBytes = self.HasBytes := rfl

/-- Files with the same list are the same up to it. -/
theorem freed_eq_of_files {removed : List StoredBlock} {files : List StorageFile}
    (same : ∀ index : Nat, self.files[index]?.map (fun file =>
      { file with tail := self.tailAfter removed index file }) = files[index]?) :
    self.freed removed = ⟨files, self.id2file, self.nextFile⟩ := by
  rw [freed]
  congr 1
  apply List.ext_getElem?
  intro index
  rw [List.getElem?_mapIdx]
  exact same index

/-- Without a removal nothing changes. -/
@[simp] theorem freed_nil (self : StorageFilesWrite) : self.freed [] = self := by
  apply freed_eq_of_files
  intro index
  exact Option.map_id'

/-- The removals can be made one after the other. -/
theorem freed_cons (self : StorageFilesWrite) (block : StoredBlock) (rest : List StoredBlock) :
    self.freed (block :: rest) = (self.freed [block]).freed rest := by
  apply freed_eq_of_files
  intro index
  change _ = ((self.freed [block]).freed rest).files[index]?
  rw [freed_getElem?, freed_getElem?, Option.map_map]
  congr 1
  funext file
  have last : ((block :: rest).filter (self.HasBytes index)).getLast? =
      (rest.filter (self.HasBytes index)).getLast?.or
        ([block].filter (self.HasBytes index)).getLast? := by
    rw [← List.getLast?_append, ← List.filter_append, List.singleton_append]
  simp only [Function.comp_apply, tailAfter, freed_hasBytes]
  rw [last]
  cases (rest.filter (self.HasBytes index)).getLast? with
  | none => rfl
  | some last => rfl

/-- A block without bytes frees nothing. -/
theorem freed_singleton_of_size_eq_zero (none : block.size = 0) : self.freed [block] = self := by
  apply freed_eq_of_files
  intro index
  simp [tailAfter, HasBytes, none]

/-- A block with bytes frees those of its file. -/
theorem freed_singleton (bytes : block.size ≠ 0)
    (selected : self.id2file.get block.storageId = some index)
    (place : self.files[index]? = some file) : self.freed [block] =
      ⟨self.files.set index { file with tail := (block.offset + block.size) % file.size },
        self.id2file, self.nextFile⟩ := by
  apply freed_eq_of_files
  intro other
  rw [List.getElem?_set]
  by_cases here : index = other
  · subst here
    rw [place, if_pos rfl, if_pos (List.getElem?_eq_some_iff.mp place).1]
    simp [tailAfter, HasBytes, bytes, selected]
  · simp [tailAfter, HasBytes, selected, here]

/-- The removal of a block with bytes is accepted exactly if the head of its file is inside it. -/
theorem popBlockBack_eq (bytes : block.size ≠ 0)
    (selected : self.id2file.get block.storageId = some index)
    (place : self.files[index]? = some file) (inside : file.head < file.size) :
    self.popBlockBack block = (.ok (), self.freed [block]) := by
  have tail : (block.offset + block.size) % file.size ≤ file.size := (Nat.mod_lt _ (by omega)).le
  rw [freed_singleton bytes selected place]
  simp only [popBlockBack, popBlock, selected, place, StorageFile.popBlock, inside,
    not_true_eq_false, if_false, tail]

/-- Only a block whose file has its head inside can be removed. -/
theorem inside_of_popBlockBack {after : StorageFilesWrite} {result : Unit}
    (selected : self.id2file.get block.storageId = some index)
    (place : self.files[index]? = some file)
    (popped : self.popBlockBack block = (.ok result, after)) : file.head < file.size := by
  apply StorageFile.isOk_popBlock_back_iff.mp
  have same : (self.popBlockBack block).1 = (file.popBlock block .back).1 := by
    simp only [popBlockBack, popBlock, selected, place]
  rw [← same, popped]
  rfl

/-- The search finds a file that takes the size. -/
theorem fileIndexLoop_some {files : List StorageFile} {currentIndex fuel start next : Nat}
    (found : fileIndexLoop files size currentIndex fuel start = (.ok (some index), next)) :
    ∃ file, files[index]? = some file ∧ file.Takes size := by
  induction fuel generalizing start with
  | zero => cases found
  | succ fuel ih =>
      simp only [fileIndexLoop] at found
      split at found
      · cases found
      · rename_i file place
        split at found
        · rename_i takes
          cases found
          rw [Bool.and_eq_true, decide_eq_true_eq] at takes
          exact ⟨file, place, takes⟩
        · split at found
          · cases found
          · exact ih found

/-- A search without a result ends where it has begun, and none of its files takes the size. -/
theorem fileIndexLoop_none {files : List StorageFile} (fuel : Nat) {currentIndex next : Nat}
    (inside : currentIndex < files.length) (few : fuel ≤ files.length)
    (nothing : fileIndexLoop files size currentIndex fuel
      ((currentIndex + (files.length - fuel)) % files.length) = (.ok none, next)) :
    next = currentIndex ∧ ∀ later, files.length - fuel ≤ later → later < files.length →
      ∀ file, files[(currentIndex + later) % files.length]? = some file → ¬ file.Takes size := by
  induction fuel with
  | zero =>
      simp only [Nat.sub_zero, Nat.add_mod_right, Nat.mod_eq_of_lt inside, fileIndexLoop] at nothing
      cases nothing
      exact ⟨rfl, fun later above below => by omega⟩
  | succ fuel ih =>
      have next' : ((currentIndex + (files.length - (fuel + 1))) % files.length + 1) % files.length =
          (currentIndex + (files.length - fuel)) % files.length := by
        rw [Nat.mod_add_mod]
        congr 1
        omega
      simp only [fileIndexLoop, next'] at nothing
      split at nothing
      · cases nothing
      · rename_i file place
        split at nothing
        · cases nothing
        · rename_i refused
          have refused : ¬ file.Takes size := by
            rwa [Bool.and_eq_true, decide_eq_true_eq] at refused
          have later : next = currentIndex ∧ ∀ later, files.length - fuel ≤ later →
              later < files.length → ∀ file,
                files[(currentIndex + later) % files.length]? = some file → ¬ file.Takes size := by
            split at nothing
            · rename_i last
              cases nothing
              rw [CellRing.mod_eq_ite (by omega)] at last
              refine ⟨?_, fun later above below => ?_⟩
              · rw [CellRing.mod_eq_ite (by omega)]
                exact last
              · split at last <;> omega
            · exact ih (by omega) nothing
          refine ⟨later.1, ?_⟩
          intro distance above below found foundPlace
          by_cases here : distance = files.length - (fuel + 1)
          · rw [here, place] at foundPlace
            cases foundPlace
            exact refused
          · exact later.2 distance (by omega) below found foundPlace

/-- A search that begins at a file has no error. -/
theorem fileIndexLoop_ok {files : List StorageFile} (size currentIndex fuel : Nat) {start : Nat}
    (inside : start < files.length) :
    ∃ found, (fileIndexLoop files size currentIndex fuel start).1 = .ok found := by
  induction fuel generalizing start with
  | zero => exact ⟨none, rfl⟩
  | succ fuel ih =>
      have next : (start + 1) % files.length < files.length := Nat.mod_lt _ (by omega)
      simp only [fileIndexLoop, List.getElem?_eq_getElem inside]
      split
      · exact ⟨_, rfl⟩
      · split
        · exact ⟨_, rfl⟩
        · exact ih next

/-- The search finds a file that takes the size, or none of them takes it. -/
theorem getFileIndexForNewBlock_cases (inside : self.nextFile < self.files.length) (size : Nat) :
    (∃ index file, (self.getFileIndexForNewBlock size).1 = .ok (some index) ∧
      self.files[index]? = some file ∧ file.Takes size) ∨
    (self.getFileIndexForNewBlock size = (.ok none, self) ∧
      ∀ file ∈ self.files, ¬ file.Takes size) := by
  have positive : 0 < self.files.length := by omega
  obtain ⟨found, success⟩ := fileIndexLoop_ok size self.nextFile self.files.length inside
  unfold StorageFilesWrite.getFileIndexForNewBlock
  rw [if_neg (by omega)]
  generalize searched : fileIndexLoop self.files size self.nextFile self.files.length
    self.nextFile = outcome at success ⊢
  obtain ⟨result, next⟩ := outcome
  cases success
  cases found with
  | some index =>
      left
      obtain ⟨file, place, takes⟩ := fileIndexLoop_some searched
      exact ⟨index, file, rfl, place, takes⟩
  | none =>
      right
      have begun : fileIndexLoop self.files size self.nextFile self.files.length
          ((self.nextFile + (self.files.length - self.files.length)) % self.files.length) =
            (.ok none, next) := by
        rw [Nat.sub_self, Nat.add_zero, Nat.mod_eq_of_lt inside]
        exact searched
      obtain ⟨rfl, refused⟩ := fileIndexLoop_none self.files.length inside le_rfl begun
      refine ⟨rfl, ?_⟩
      intro file member
      obtain ⟨place, bound, rfl⟩ := List.getElem_of_mem member
      have start := inside
      apply refused ((place + self.files.length - self.nextFile) % self.files.length) (by omega)
        (Nat.mod_lt _ positive)
      rw [Nat.add_mod_mod, show self.nextFile + (place + self.files.length - self.nextFile) =
        place + self.files.length by omega, Nat.add_mod_right, Nat.mod_eq_of_lt bound]
      exact List.getElem?_eq_getElem bound

/-- The removals do not decide which blocks can be removed. -/
theorem freed_removable (self : StorageFilesWrite) (removed : List StoredBlock) (block : StoredBlock) :
    (self.freed removed).Removable block ↔ self.Removable block := by
  apply imp_congr_right
  intro _
  constructor
  · intro removable index file selected place
    have freedPlace := self.freed_getElem? removed index
    rw [place, Option.map_some] at freedPlace
    have inside := removable index _ selected freedPlace
    exact inside
  · intro removable index file selected place
    rw [freed_getElem?] at place
    obtain ⟨old, oldPlace, rfl⟩ := Option.map_eq_some_iff.mp place
    exact removable index old selected oldPlace

/-- No removal is needed exactly if the files have room. -/
theorem findsRoom_zero_iff {least : Nat} :
    self.FindsRoom contents size least 0 ↔ least = 0 ∧ self.HasRoom size := by
  constructor
  · rintro ⟨above, -, -, -, room⟩
    rw [List.take_zero, freed_nil] at room
    exact ⟨Nat.le_zero.mp above, room⟩
  · rintro ⟨above, room⟩
    refine ⟨above.le, Nat.zero_le _, by simp, fun earlier _ below => absurd below (by omega), ?_⟩
    rwa [List.take_zero, freed_nil]

/-- The oldest block is removed first, unless the files take the size without it. -/
theorem findsRoom_succ_iff {least count : Nat} :
    self.FindsRoom (block :: rest) size least (count + 1) ↔
      (least = 0 → ∀ file ∈ self.files, ¬ file.Takes size) ∧ self.Removable block ∧
        (self.freed [block]).FindsRoom rest size (least - 1) count := by
  constructor
  · rintro ⟨above, enough, removable, before, room⟩
    rw [List.take_succ_cons, freed_cons] at room
    refine ⟨fun none => ?_, removable block List.mem_cons_self, ?_⟩
    · have first := before 0 none.le (Nat.zero_lt_succ _)
      rwa [List.take_zero, freed_nil] at first
    · refine ⟨by omega, Nat.le_of_succ_le_succ enough, fun other member => ?_,
        fun earlier atLeast below => ?_, room⟩
      · exact (self.freed_removable _ other).mpr (removable other (List.mem_cons_of_mem _ member))
      · have later := before (earlier + 1) (by omega) (by omega)
        rwa [List.take_succ_cons, freed_cons] at later
  · rintro ⟨first, removable, above, enough, others, before, room⟩
    refine ⟨by omega, Nat.succ_le_succ enough, ?_, fun earlier atLeast below => ?_, ?_⟩
    · intro other member
      cases List.mem_cons.mp member with
      | inl here => exact here ▸ removable
      | inr later => exact (self.freed_removable _ other).mp (others other later)
    · cases earlier with
      | zero =>
          rw [List.take_zero, freed_nil]
          exact first (Nat.le_zero.mp atLeast)
      | succ earlier =>
          rw [List.take_succ_cons, freed_cons]
          exact before earlier (by omega) (by omega)
    · rwa [List.take_succ_cons, freed_cons]

end StorageFilesWrite

namespace StorageFile

variable {file : StorageFile} {tail length : Nat}

end StorageFile

namespace StorageFilesWrite

variable {self : StorageFilesWrite} {contents : List StoredBlock} {size least count : Nat}

end StorageFilesWrite

end Alpamayo
