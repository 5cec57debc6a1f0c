import Alpamayo.Proof.WriterRing

/-!
This file follows the names of the files and the bytes of the push under way through the steps of the
writer.
-/

namespace Alpamayo

/-- The readers open for each storage id the file that the writer uses for it. -/
def StorageFilesRead.Opens (reading : StorageFilesRead) (files : StorageFilesWrite) : Prop :=
  ∀ id path, reading.fileOf id = some path ↔ (id, path) ∈ files.files.map StorageFile.name

/-- Files that are listed by distinct ids are opened by the readers as by the writer. -/
theorem opens_openAll {configs : List ConfigStorageFile} {blocks : StoredBlocksWrite}
    {disk disk' : Disk} {write : StorageFilesWrite} {init : StorageFilesSyncInit}
    (distinct : (configs.map ConfigStorageFile.id).Nodup) (listed : ListedById configs)
    (success : StorageFilesWrite.openAll configs blocks disk = (.ok (write, init), disk')) :
    (StorageFilesRead.openAll init).Opens write := by
  have from' := openedFrom_openAll distinct success
  have agrees : ∀ file ∈ write.files,
      (StorageFilesRead.openAll init).fileOf file.id = some file.file := by
    intro file member
    obtain ⟨index, place⟩ := List.mem_iff_getElem?.mp member
    obtain ⟨config, found, -, samePath⟩ := from'.config place
    rw [from'.fileOf place, listed, List.getElem?_map, found, ← samePath]
    rfl
  intro id path
  constructor
  · intro found
    by_cases known : id ∈ write.files.map StorageFile.id
    · obtain ⟨file, member, rfl⟩ := List.mem_map.mp known
      rw [agrees file member] at found
      cases found
      exact List.mem_map.mpr ⟨file, member, rfl⟩
    · -- An id without a file is not in the map of the ids.
      obtain ⟨files, restored, rfl, -⟩ := openAll_ok success
      have fresh : id ∉ ((ConfigStorageFile.sortById configs).map StorageFilesWrite.opened).map
          StorageFile.id := by
        have ids := congrArg (List.map Prod.fst) from'.files
        rw [List.map_map, List.map_map] at ids
        rw [List.map_map]
        exact ids ▸ known
      have missing := StorageFilesWrite.foldl_idMap_of_notMem HashMap.empty 0 fresh
      rw [StorageFilesRead.fileOf, StorageFilesRead.openAll, from'.shared] at found
      rw [StorageFilesWrite.idMap, missing] at found
      cases found
  · intro member
    obtain ⟨file, inside, same⟩ := List.mem_map.mp member
    cases same
    exact agrees file inside

/-- A range has the bytes that were written to it. -/
theorem DiskFile.bytesAt_writeAllAt (file : DiskFile) (buffer : Bytes) (offset : Nat) :
    (file.writeAllAt buffer offset).bytesAt offset buffer.length = buffer := by
  have read := file.readExactAt_writeAllAt buffer offset
  unfold readExactAt at read
  split at read
  · exact Option.some.inj read
  · cases read

namespace Push

variable {push next : Push} {store after : Store} {block : BlockWithBinary}

/-- The attempt keeps the names of the files. -/
theorem attempt_names {result : Except StorageError (Option (StorageId × Nat))}
    {files : StorageFilesWrite} {disk : Disk}
    (attempted : push.attempt store block = (result, files, disk)) :
    files.files.map StorageFile.name = store.files.files.map StorageFile.name ∧
      files.id2file = store.files.id2file := by
  have names := store.files.pushBlock_names store.disk block.protobuf push.side
  rw [show store.files.pushBlock store.disk block.protobuf push.side = _ from attempted] at names
  exact names

/-- The bytes of the push lie at the place that it has found. -/
structure OnDisk (push : Push) (reading : StorageFilesRead) (disk : Disk) : Prop where
  written : ∀ storageId offset, push.stage = .written storageId offset →
    ∀ path, reading.fileOf storageId = some path →
      (disk path).bytesAt offset push.bytes.length = push.bytes
  recorded : ∀ cell, push.stage = .recorded cell → cell.dead = false →
    ∀ path, reading.fileOf cell.storageId = some path →
      (disk path).bytesAt cell.offset cell.size = push.bytes

/-- A push in one of the first stages has no bytes on the disk. -/
theorem OnDisk.of_stage {reading : StorageFilesRead} {disk : Disk}
    (early : push.stage = .room ∨ push.stage = .write ∨ push.stage = .refused) :
    push.OnDisk reading disk := by
  constructor <;> intros <;> simp_all

end Push

namespace Writer

variable {self after : Writer} {event : WriterEvent}

/-- An eviction keeps the names of the files. -/
theorem Evicts.names {push next : Push} {files : StorageFilesWrite}
    (evicts : self.Evicts push next files) :
    files.files.map StorageFile.name = self.store.files.files.map StorageFile.name ∧
      files.id2file = self.store.files.id2file := by
  cases evicts with
  | full stage full => exact ⟨rfl, rfl⟩
  | unplaced block files stage known refused => exact Push.attempt_names refused

/-- No change renames a file. -/
theorem Change.names (change : Change self event after) :
    after.store.files.files.map StorageFile.name = self.store.files.files.map StorageFile.name ∧
      after.store.files.id2file = self.store.files.id2file := by
  cases change with
  | freeFailed side block push error files known nonempty failed =>
      have names := self.store.files.popBlock_names block side
      rwa [failed] at names
  | free side block push files known nonempty freed =>
      have names := self.store.files.popBlock_names block side
      rwa [freed] at names
  | evictEmpty push next files known front evicts empty => exact evicts.names
  | evict push next files block blocks known front evicts popped => exact evicts.names
  | index push next store known indexed =>
      obtain ⟨added, -, -, -, rfl, -⟩ := Push.addIndexes_eq indexed
      exact ⟨rfl, rfl⟩
  | indexDuring side block stage push next store known indexed =>
      obtain ⟨added, -, -, -, rfl, -⟩ := Push.addIndexes_eq indexed
      exact ⟨rfl, rfl⟩
  | writeFailed push block error files disk known stage isBlock failed =>
      exact Push.attempt_names failed
  | writeRefused push block files known stage isBlock back refused => exact Push.attempt_names refused
  | write push block storageId offset files disk known stage isBlock placed =>
      exact Push.attempt_names placed
  | _ => exact ⟨rfl, rfl⟩

/-- The readers keep opening the files of the writer. -/
theorem Change.opens {reading : StorageFilesRead} (change : Change self event after)
    (opens : reading.Opens self.store.files) : reading.Opens after.store.files := by
  intro id path
  rw [opens id path, change.names.1]

/-- The push of the next task is new, or it goes on from the push of this task. -/
inductive Continues (self : Writer) (event : WriterEvent) (after : Writer) (next : Push) : Prop where
  | front (slot : Nat) (block : Option BlockWithBinary) (cause : event = .pushBlockFront slot block)
      (isNext : next = ⟨.front, slot, block, .room, false⟩)
      (checked : checkFrontSlot self.store.blocks slot = .ok ())
  | back (slot : Nat) (block : Option BlockWithBinary) (cause : event = .pushBlockBack slot block)
      (isNext : next = ⟨.back, slot, block, .write, false⟩) (same : after.evicted = self.evicted)
  | on (push : Push) (known : push ∈ self.task.underWay) (side : next.side = push.side)
      (slot : next.slot = push.slot) (block : next.block = push.block)
      (same : next.side = .back → after.evicted = self.evicted)

/-- Every push under way has begun as a new push. -/
theorem Change.continues (change : Change self event after) {next : Push}
    (member : next ∈ after.task.underWay) : Continues self event after next := by
  cases change.underWay member with
  | front slot block cause isNext checked => exact .front slot block cause isNext checked
  | back slot block cause isNext checked ring evicted => exact .back slot block cause isNext evicted
  | goesOn push known side slot block cell same =>
      exact .on push known side slot block fun back => (same back).2

/-- The bytes of the push under way lie on the disk from its write on. -/
def OnDisk (writer : Writer) (reading : StorageFilesRead) : Prop :=
  ∀ push ∈ writer.task.underWay, push.OnDisk reading writer.store.disk

/-- Every change keeps the bytes of the push under way. -/
theorem Change.onDisk {reading : StorageFilesRead} (change : Change self event after)
    (opens : reading.Opens self.store.files) (onDisk : self.OnDisk reading) :
    after.OnDisk reading := by
  intro next member
  cases change with
  | send message idle report => exact onDisk next member
  | popEmpty | popBlock | frontRefused | removeFailed | freeFailed | evictEmpty | writeFailed | refuse
  | storeFailed | store | publish => cases member
  | pushBlockFront slot block idle checked =>
      cases member
      exact .of_stage (Or.inl rfl)
  | backRefused slot block task idle ends => obtain rfl | rfl := ends <;> cases member
  | pushBlockBack slot block idle checked room =>
      cases member
      exact .of_stage (Or.inr (Or.inl rfl))
  | announce side block push known | remove side block push db known removed =>
      exact onDisk next (by rw [known]; exact member)
  | freeEmpty side block push known empty | free side block push files known nonempty freed =>
      rw [resume_underWay] at member
      exact onDisk next (by rw [known]; exact member)
  | evict push next files block blocks known front evicts popped =>
      cases member
      exact .of_stage (Or.inr (Or.inl evicts.next.2.2.1))
  | index push next store known indexed =>
      obtain ⟨added, -, -, -, rfl, rfl⟩ := Push.addIndexes_eq indexed
      cases member
      have before := onDisk push (by rw [known]; rfl)
      exact ⟨before.written, before.recorded⟩
  | indexDuring side block stage push next store known indexed =>
      obtain ⟨added, -, -, -, rfl, rfl⟩ := Push.addIndexes_eq indexed
      cases member
      have before := onDisk push (by rw [known]; rfl)
      exact ⟨before.written, before.recorded⟩
  | tear chosen push block place files disk known stage isBlock placed =>
      rw [known] at member
      cases member
      exact .of_stage (Or.inr (Or.inl stage))
  | roomy side slot block indexed known room =>
      cases member
      exact .of_stage (Or.inr (Or.inl rfl))
  | writeRefused push block files known stage isBlock side refused =>
      cases member
      exact .of_stage (Or.inr (Or.inr rfl))
  | write push block storageId offset files disk known stage isBlock placed =>
      cases member
      obtain ⟨file, inside, rfl, rfl⟩ := StorageFilesWrite.pushBlock_placed placed
      constructor
      · rintro _ _ ⟨⟩ path found
        have own : reading.fileOf file.id = some file.file :=
          (opens _ _).mpr (List.mem_map.mpr ⟨file, inside, rfl⟩)
        rw [own] at found
        cases found
        simp only [Push.bytes, isBlock, Disk.writeAllAt_self]
        exact DiskFile.bytesAt_writeAllAt _ _ _
      · rintro _ ⟨⟩
  | recordDead push known stage noBlock =>
      cases member
      constructor
      · rintro _ _ ⟨⟩
      · rintro _ ⟨⟩ ⟨⟩
  | record push block storageId offset known stage isBlock indexed =>
      cases member
      have before := (onDisk push (by rw [known]; rfl)).written storageId offset stage
      simp only [Push.bytes, isBlock] at before
      constructor
      · rintro _ _ ⟨⟩
      · rintro _ ⟨⟩ -
        simp only [Push.bytes, isBlock, StoredBlock.newConfirmed]
        exact before

end Writer

end Alpamayo
