import Alpamayo.Proof.FilesReopen
import Alpamayo.Proof.WriterRing

/-!
This file says which databases and files can be opened again and which steps keep them so.
-/

namespace Alpamayo

open CyclicWindow

/-- The new cells come before the others or after them. -/
def VecSide.extend {A : Type} (side : VecSide) (added list : List A) : List A :=
  match side with
  | .back => added ++ list
  | .front => list ++ added

namespace VecSide

variable {A B : Type} (side : VecSide) {added list : List A} {value : A}

@[simp] theorem extend_nil : side.extend [] list = list := by
  cases side
  · rfl
  · exact List.append_nil list

theorem mem_extend : value ∈ side.extend added list ↔ value ∈ added ∨ value ∈ list := by
  cases side
  · exact List.mem_append
  · exact List.mem_append.trans or_comm

theorem map_extend (f : A → B) :
    (side.extend added list).map f = side.extend (added.map f) (list.map f) := by
  cases side <;> exact List.map_append

theorem filter_extend (test : A → Bool) :
    (side.extend added list).filter test = side.extend (added.filter test) (list.filter test) := by
  cases side <;> exact List.filter_append _ _

theorem length_extend : (side.extend added list).length = added.length + list.length := by
  cases side
  · exact List.length_append
  · exact List.length_append.trans (Nat.add_comm _ _)

theorem sublist_extend {part : List A} (sublist : part.Sublist list) :
    part.Sublist (side.extend added list) := by
  cases side
  · exact sublist.trans (List.sublist_append_right _ _)
  · exact sublist.trans (List.sublist_append_left _ _)

theorem extend_sublist {part : List A} (sublist : part.Sublist added) :
    (side.extend part list).Sublist (side.extend added list) := by
  cases side
  · exact sublist.append_right list
  · exact sublist.append_left list

end VecSide

/-- The slot lies on this side of all cells. -/
def VecSide.Beyond (side : VecSide) (slot : Nat) (cells : List StoredBlock) : Prop :=
  match side with
  | .back => ∀ cell ∈ cells, slot < cell.slot
  | .front => ∀ cell ∈ cells, cell.slot < slot

/-- A slot beyond the cells is not one of theirs. -/
theorem VecSide.Beyond.ne {side : VecSide} {slot : Nat} {cells : List StoredBlock}
    (beyond : side.Beyond slot cells) {cell : StoredBlock} (member : cell ∈ cells) :
    cell.slot ≠ slot := by
  cases side
  · exact (beyond cell member).ne'
  · exact (beyond cell member).ne

/-- A slot beyond the cells is beyond every part of them. -/
theorem VecSide.Beyond.of_forall {side : VecSide} {slot : Nat} {cells part : List StoredBlock}
    (beyond : side.Beyond slot cells) (inside : ∀ cell ∈ part, cell ∈ cells) :
    side.Beyond slot part := by
  cases side
  · exact fun cell member => beyond cell (inside cell member)
  · exact fun cell member => beyond cell (inside cell member)

/-- A push that fits is beyond the contents. -/
theorem Push.Fits.beyond {push : Push} {contents : List StoredBlock} {size : Nat}
    (fits : push.Fits contents size) (consecutive : Consecutive contents) :
    push.side.Beyond push.slot contents := by
  cases side : push.side with
  | back => exact fun cell member => consecutive.next_lt (fits.back side) member
  | front => exact fun cell member => consecutive.lt_next (fits.front side) member

/-- The cell of a push that fits extends the contents. -/
theorem Push.Fits.extend {push : Push} {contents : List StoredBlock} {size : Nat} {cell : StoredBlock}
    (fits : push.Fits contents size) (consecutive : Consecutive contents)
    (present : cell.present = true) (slot : cell.slot = push.slot) :
    Consecutive (push.side.extend [cell] contents) := by
  cases side : push.side with
  | back => exact consecutive.cons present (by rw [slot]; exact fits.back side)
  | front => exact consecutive.append present (by rw [slot]; exact fits.front side)

/-- The outermost of consecutive cells is beyond the others. -/
theorem Consecutive.beyond {side : VecSide} {cell : StoredBlock} {rest : List StoredBlock}
    (consecutive : Consecutive (side.extend [cell] rest)) : side.Beyond cell.slot rest := by
  cases side
  · exact fun _ member => consecutive.head_lt member
  · exact fun _ member => consecutive.lt_last member

theorem Consecutive.of_extend {side : VecSide} {cells rest : List StoredBlock}
    (consecutive : Consecutive (side.extend cells rest)) : Consecutive rest := by
  cases side
  · exact consecutive.part (List.suffix_append _ _).isInfix
  · exact consecutive.part (List.prefix_append _ _).isInfix

namespace Rocksdb

variable {db after : Rocksdb} {side : VecSide} {cell : StoredBlock} {rest : List StoredBlock} {max : Nat}

/-- A new record extends the cells at its side. -/
theorem cells_slotAdd {slot : Nat} {data : Option (BlockWithBinary × StorageId × Nat)}
    {value : SlotBasicIndexValue}
    (found : (db.slotAdd slot data).slotBasicIndex.get slot = some value)
    (beyond : side.Beyond slot db.cells) :
    (db.slotAdd slot data).cells = side.extend [storedBlockOf slot value] db.cells := by
  simp only [slotAdd, SortedMap.get_insert_self] at found
  cases found
  have slots : ∀ entry ∈ db.slotBasicIndex.entries, storedBlockOf entry.1 entry.2 ∈ db.cells :=
    fun entry member => List.mem_map_of_mem member
  simp only [cells, slotAdd, SortedMap.insert]
  cases side with
  | back =>
      have above : ∀ entry ∈ db.slotBasicIndex.entries, slot < entry.1 :=
        fun entry member => beyond _ (slots entry member)
      rw [List.filter_eq_nil_iff.mpr fun entry member => by simpa using (above entry member).le,
        List.filter_eq_self.mpr fun entry member => by simpa using above entry member]
      rfl
  | front =>
      have below : ∀ entry ∈ db.slotBasicIndex.entries, entry.1 < slot :=
        fun entry member => beyond _ (slots entry member)
      rw [List.filter_eq_self.mpr fun entry member => by simpa using below entry member,
        List.filter_eq_nil_iff.mpr fun entry member => by simpa using (below entry member).le]
      rw [List.map_append]
      rfl

/-- The removal of the outermost record leaves the other cells. -/
theorem cells_erase (same : db.cells = side.extend [cell] rest)
    (beyond : side.Beyond cell.slot rest)
    (basic : after.slotBasicIndex = db.slotBasicIndex.erase cell.slot) : after.cells = rest := by
  have kept : after.cells = db.cells.filter fun other => other.slot ≠ cell.slot := by
    simp only [cells, basic, SortedMap.erase, List.filter_map]
    rfl
  rw [kept, same, VecSide.filter_extend, List.filter_cons_of_neg (by simp), List.filter_nil,
    VecSide.extend_nil,
    List.filter_eq_self.mpr fun other member => by simpa using beyond.ne member]

/-- The records can be loaded into a ring of this size. -/
structure Lists (db : Rocksdb) (max : Nat) : Prop where
  consecutive : Consecutive db.cells
  few : db.cells.length ≤ max
  bounded : ∀ cell ∈ db.cells, cell.slot ≤ maxSlot
  recorded : db.Recorded

/-- A recorded cell with bytes is live. -/
theorem Lists.isLive (lists : db.Lists max) (member : cell ∈ db.cells) (bytes : cell.size ≠ 0) :
    cell.isLive = true := by
  obtain ⟨value, found, same⟩ := mem_cells.mp member
  rw [same] at bytes ⊢
  cases dead : value.dead with
  | false => simp [storedBlockOf, StoredBlock.isLive, dead]
  | true => exact absurd ((lists.recorded _ value found).1 dead) bytes

/-- The records of the contents of a block keep the list. -/
theorem Lists.addIndexes (lists : db.Lists max) (slot : Nat) (block : BlockWithBinary) :
    (db.addIndexes slot block).Lists max :=
  ⟨lists.consecutive, lists.few, lists.bounded, lists.recorded.addIndexes slot block⟩

/-- A new record that extends the cells keeps the list. -/
theorem Lists.slotAdd (lists : db.Lists max) {slot : Nat}
    {data : Option (BlockWithBinary × StorageId × Nat)} {value : SlotBasicIndexValue}
    (found : (db.slotAdd slot data).slotBasicIndex.get slot = some value)
    (beyond : side.Beyond slot db.cells)
    (consecutive : Consecutive (side.extend [storedBlockOf slot value] db.cells))
    (room : db.cells.length < max) (bounded : slot ≤ maxSlot)
    (indexed : data.isSome = true → db.Indexes slot) : (db.slotAdd slot data).Lists max := by
  have same := cells_slotAdd found beyond
  refine ⟨same ▸ consecutive, ?_, ?_, lists.recorded.slotAdd indexed⟩
  · rw [same, VecSide.length_extend]
    simp only [List.length_singleton]
    omega
  · intro cell member
    rw [same, VecSide.mem_extend, List.mem_singleton] at member
    obtain rfl | member := member
    · exact bounded
    · exact lists.bounded cell member

/-- The removal of the outermost slot keeps the list. -/
theorem Lists.remove (lists : db.Lists max) (same : db.cells = side.extend [cell] rest)
    (removed : db.spawnRemoveSlot cell.slot cell.dead = .ok after) :
    after.Lists max ∧ after.cells = rest ∧
      ∀ other, other ≠ cell.slot → db.Indexes other → after.Indexes other := by
  have member : cell ∈ db.cells := by
    rw [same]
    exact (VecSide.mem_extend side).mpr (Or.inl (List.mem_singleton_self cell))
  obtain ⟨value, found, isCell⟩ := mem_cells.mp member
  have indexed : cell.dead = false → db.Indexes cell.slot := by
    intro live
    apply (lists.recorded _ value found).2
    rw [isCell] at live
    exact live
  obtain ⟨after', removed', basic, extra⟩ := spawnRemoveSlot_ok cell.dead indexed
  obtain rfl : after = after' := Except.ok.inj (removed.symm.trans removed')
  have consecutive := same ▸ lists.consecutive
  have left := cells_erase same consecutive.beyond basic
  refine ⟨⟨?_, ?_, ?_, lists.recorded.remove basic extra⟩, left, extra⟩
  · rw [left]
    exact consecutive.of_extend
  · have few := lists.few
    rw [same, VecSide.length_extend] at few
    rw [left]
    omega
  · intro other inside
    rw [left] at inside
    exact lists.bounded other (same ▸ (VecSide.mem_extend side).mpr (Or.inr inside))

end Rocksdb

/-- The live ones among the cells, with the bytes that were recorded for their slots. -/
def liveEntries (recorded : Nat → Bytes) (cells : List StoredBlock) : List (StoredBlock × Bytes) :=
  (cells.filter StoredBlock.isLive).map fun cell => (cell, recorded cell.slot)

section liveEntries

variable {recorded : Nat → Bytes} {cells : List StoredBlock}

theorem mem_liveEntries {entry : StoredBlock × Bytes} : entry ∈ liveEntries recorded cells ↔
    entry.1 ∈ cells ∧ entry.1.isLive = true ∧ entry.2 = recorded entry.1.slot := by
  obtain ⟨cell, bytes⟩ := entry
  simp only [liveEntries, List.mem_map, List.mem_filter, Prod.mk.injEq]
  constructor
  · rintro ⟨other, ⟨member, live⟩, rfl, rfl⟩
    exact ⟨member, live, rfl⟩
  · rintro ⟨member, live, rfl⟩
    exact ⟨cell, ⟨member, live⟩, rfl, rfl⟩

theorem liveEntries_extend (side : VecSide) (added : List StoredBlock) :
    liveEntries recorded (side.extend added cells) =
      side.extend (liveEntries recorded added) (liveEntries recorded cells) := by
  rw [liveEntries, VecSide.filter_extend, VecSide.map_extend]
  rfl

/-- Bytes that are noted for another slot change no entry. -/
theorem liveEntries_update {slot : Nat} (bytes : Bytes) (other : ∀ cell ∈ cells, cell.slot ≠ slot) :
    liveEntries (Function.update recorded slot bytes) cells = liveEntries recorded cells := by
  apply List.map_congr_left
  intro cell member
  rw [Function.update_of_ne (other cell (List.mem_filter.mp member).1)]

/-- The extents of a file are those of its live cells. -/
theorem extentsOf_liveEntries (id : StorageId) :
    FilesState.extentsOf (liveEntries recorded cells) id =
      (liveCells cells id).map StoredBlock.extent := by
  simp only [FilesState.extentsOf, liveEntries, liveCells, List.filter_map, List.map_map,
    List.filter_filter]
  congr 1
  apply List.filter_congr
  intro cell _
  exact Bool.and_comm _ _

end liveEntries

namespace FilesState

/-- The name of a file with its size. -/
def shape (file : StorageFile) : StorageId × Path × Nat := (file.id, file.file, file.size)

/-- The files are the configured ones, have their sizes, and place the live blocks. -/
structure Sized (configs : List ConfigStorageFile) (state : FilesState) : Prop where
  valid : state.Valid (state.files.files.map StorageFile.name)
  shapes : state.files.files.map shape =
    (ConfigStorageFile.sortById configs).map fun config => (config.id, config.path, config.size)
  sized : ∀ file ∈ state.files.files, (state.disk file.file).len = file.size
  inside : ∀ entry ∈ state.live, ∀ file ∈ state.files.files, file.id = entry.1.storageId →
    entry.1.offset < file.size

variable {configs : List ConfigStorageFile} {state next : FilesState} {files after : StorageFilesWrite}
  {disk disk' : Disk} {live part : List (StoredBlock × Bytes)} {entry : StoredBlock × Bytes}
  {side : VecSide} {file : StorageFile}

/-- Every file is a configured one. -/
theorem Sized.config (sized : state.Sized configs) (member : file ∈ state.files.files) :
    ∃ config ∈ configs,
      config.id = file.id ∧ config.path = file.file ∧ config.size = file.size := by
  have shaped := List.mem_map_of_mem (f := shape) member
  rw [sized.shapes] at shaped
  obtain ⟨config, inside, same⟩ := List.mem_map.mp shaped
  obtain ⟨id, path, size⟩ := by simpa [shape] using same
  exact ⟨config, (List.mergeSort_perm configs _).mem_iff.mp inside, id, path, size⟩

/-- Every configured file is there. -/
theorem Sized.exists_file (sized : state.Sized configs) {config : ConfigStorageFile}
    (member : config ∈ configs) :
    ∃ file ∈ state.files.files, file.id = config.id ∧ file.file = config.path ∧
      file.size = config.size := by
  have shaped : (config.id, config.path, config.size) ∈ state.files.files.map shape := by
    rw [sized.shapes]
    exact List.mem_map_of_mem ((List.mergeSort_perm configs _).mem_iff.mpr member)
  obtain ⟨file, inside, same⟩ := List.mem_map.mp shaped
  obtain ⟨id, path, size⟩ := by simpa [shape] using same
  exact ⟨file, inside, id, path, size⟩

/-- Two files of one id are the same file. -/
theorem Valid.unique {names : List (StorageId × Path)} (valid : state.Valid names)
    {other : StorageFile} (member : file ∈ state.files.files) (member' : other ∈ state.files.files)
    (same : file.id = other.id) : file = other :=
  List.inj_on_of_nodup_map valid.ids member member' same

/-- The file of a live block has its bytes. -/
theorem Sized.read (sized : state.Sized configs) (member : entry ∈ state.live)
    (inFiles : file ∈ state.files.files) (owns : file.id = entry.1.storageId) :
    (state.disk file.file).readExactAt entry.1.offset entry.1.size = some entry.2 := by
  obtain ⟨index, found, place, owns', bytes⟩ := sized.valid.stored entry member
  rw [sized.valid.unique inFiles (List.mem_of_getElem? place) (owns.trans owns'.symm)]
  exact bytes

/-- A live block has a file. -/
theorem Sized.owner (sized : state.Sized configs) (member : entry ∈ state.live) :
    ∃ file ∈ state.files.files, file.id = entry.1.storageId := by
  obtain ⟨index, found, place, owns, -⟩ := sized.valid.stored entry member
  exact ⟨found, List.mem_of_getElem? place, owns⟩

/-- A part of the live blocks stays placed. -/
theorem Sized.sublist (sized : Sized configs ⟨files, disk, live⟩) (sublist : part.Sublist live) :
    Sized configs ⟨files, disk, part⟩ where
  valid := by
    refine ⟨rfl, sized.valid.ids, sized.valid.paths, sized.valid.index, ?_,
      fun entry member => sized.valid.stored entry (sublist.subset member)⟩
    intro index file place
    obtain ⟨headBound, tailBound, tailTurns, headTurns, chain, window⟩ :=
      sized.valid.placed index file place
    exact ⟨headBound, tailBound, tailTurns, headTurns,
      chain.sublist ((sublist.filter _).map _), window⟩
  shapes := sized.shapes
  sized := sized.sized
  inside := fun entry member => sized.inside entry (sublist.subset member)

/-- Another search position changes nothing. -/
theorem Sized.refused (sized : Sized configs ⟨files, disk, live⟩) (same : after.files = files.files)
    (map : after.id2file = files.id2file) : Sized configs ⟨after, disk, live⟩ := by
  obtain ⟨valid, shapes, lens, inside⟩ := sized
  refine ⟨?_, ?_, ?_, ?_⟩
  · have kept := valid.refused same map
    exact { kept with names := rfl }
  · exact (congrArg _ same).trans shapes
  · exact same ▸ lens
  · exact same ▸ inside

/-- A written block lies at the place of its side, and only a cursor of its file moves. -/
theorem writeSide_ok {file' : StorageFile} {buffer : Bytes} {offset : Nat}
    (written : file.writeSide disk buffer side = (.ok offset, file', disk')) :
    offset = file.placeOf side buffer.length ∧ shape file' = shape file ∧
      disk' = disk.writeAllAt file.file buffer offset := by
  cases side with
  | back =>
      obtain ⟨-, place, rfl, wrote⟩ := StorageFile.writeBack_ok written
      exact ⟨place, rfl, wrote⟩
  | front =>
      obtain ⟨-, place, -, rfl, wrote⟩ := StorageFile.writeFront_ok written
      exact ⟨place, rfl, wrote⟩

/-- A write inside its file keeps the length of the file. -/
theorem len_writeAllAt {buffer : Bytes} {offset : Nat} {path other : Path}
    (fits : offset + buffer.length ≤ (disk path).len) :
    (disk.writeAllAt path buffer offset other).len = (disk other).len := by
  by_cases here : other = path
  · subst here
    rw [Disk.writeAllAt_self]
    exact max_eq_left fits
  · rw [Disk.writeAllAt_of_ne _ _ _ here]

/-- Every file has the shape of a file of a list with the same shapes. -/
theorem exists_shape {found : List StorageFile} {old : List StorageFile}
    (shapes : found.map shape = old.map shape) (member : file ∈ found) :
    ∃ other ∈ old, other.id = file.id ∧ other.file = file.file ∧ other.size = file.size := by
  have shaped := List.mem_map_of_mem (f := shape) member
  rw [shapes] at shaped
  obtain ⟨other, inside, same⟩ := List.mem_map.mp shaped
  obtain ⟨id, path, size⟩ := by simpa [shape] using same
  exact ⟨other, inside, id, path, size⟩

/-- The sizes stay when only the cursors and the bytes of the files change. -/
theorem Sized.moved (sized : state.Sized configs) {names : List (StorageId × Path)}
    (valid : next.Valid names)
    (shapes : next.files.files.map shape = state.files.files.map shape)
    (lens : ∀ file ∈ state.files.files, (next.disk file.file).len = file.size)
    (inside : ∀ entry ∈ next.live, ∀ file ∈ state.files.files, file.id = entry.1.storageId →
      entry.1.offset < file.size) : next.Sized configs := by
  refine ⟨{ valid with names := rfl }, shapes.trans sized.shapes, ?_, ?_⟩
  · intro file member
    obtain ⟨other, member', -, path, size⟩ := exists_shape shapes member
    rw [← path, ← size]
    exact lens other member'
  · intro entry inLive file member owns
    obtain ⟨other, member', id, -, size⟩ := exists_shape shapes member
    rw [← size]
    exact inside entry inLive other member' (id.trans owns)

/-- A guarded write inside its file keeps all live blocks placed, with the new one at its side. -/
theorem Sized.push (sized : Sized configs ⟨files, disk, live⟩) {slot : Nat}
    {blockTime : Option UnixTimestamp} {blockHeight : Option Nat} {buffer : Bytes}
    {storageId : StorageId} {offset : Nat} (beyond : side.Beyond slot (live.map Prod.fst))
    (guarded : ∀ index file, (files.getFileIndexForNewBlock buffer.length).1 = .ok (some index) →
      files.files[index]? = some file →
      (file.placeOf side buffer.length < file.size ∧
        file.placeOf side buffer.length + buffer.length ≤ file.size) ∧
      (buffer ≠ [] → file.head = file.tail → ∀ entry ∈ live, entry.1.storageId ≠ file.id))
    (placed : files.pushBlock disk buffer side = (.ok (some (storageId, offset)), after, disk')) :
    Sized configs ⟨after, disk', side.extend
      [(.newConfirmed slot blockTime blockHeight storageId offset buffer.length, buffer)] live⟩ := by
  have valid : Valid ⟨after, disk', side.extend
      [(.newConfirmed slot blockTime blockHeight storageId offset buffer.length, buffer)] live⟩
      (files.files.map StorageFile.name) := by
    cases side with
    | back =>
        have above : (live.all fun entry => slot < entry.1.slot) = true := by
          simpa [VecSide.Beyond] using beyond
        have pushed : files.pushBlockBack disk buffer =
            (.ok (some (storageId, offset)), after, disk') := placed
        have stepped : step ⟨files, disk, live⟩ (.writeBack slot blockTime blockHeight buffer) =
            some ⟨after, disk', (.newConfirmed slot blockTime blockHeight storageId offset
              buffer.length, buffer) :: live⟩ := by
          simp only [step, above, pushed]
          rfl
        exact sized.valid.writeBack (fun index file found place => (guarded index file found place).2)
          stepped
    | front =>
        have below : (live.all fun entry => entry.1.slot < slot) = true := by
          simpa [VecSide.Beyond] using beyond
        have pushed : files.pushBlockFront disk buffer =
            (.ok (some (storageId, offset)), after, disk') := placed
        have stepped : step ⟨files, disk, live⟩ (.writeFront slot blockTime blockHeight buffer) =
            some ⟨after, disk', live ++ [(.newConfirmed slot blockTime blockHeight storageId offset
              buffer.length, buffer)]⟩ := by
          simp only [step, below, pushed]
          rfl
        exact sized.valid.writeFront (fun index file found place => (guarded index file found place).2)
          stepped
  obtain ⟨index, file, file', found, place, written, rfl, sameFiles, -⟩ :=
    StorageFilesWrite.pushBlock_ok placed
  obtain ⟨⟨starts, ends⟩, -⟩ := guarded index file found place
  obtain ⟨same, shaped, rfl⟩ := writeSide_ok written
  rw [← same] at starts ends
  have member : file ∈ files.files := List.mem_of_getElem? place
  refine sized.moved valid ?_ ?_ ?_
  · rw [sameFiles]
    exact map_set_eq_map shape place shaped
  · intro other inside
    rw [← sized.sized other inside]
    exact len_writeAllAt (by rw [sized.sized file member]; exact ends)
  · intro entry inLive other inside owns
    rcases (VecSide.mem_extend side).mp inLive with new | earlier
    · rw [List.mem_singleton.mp new] at owns ⊢
      rw [sized.valid.unique inside member owns]
      exact starts
    · exact sized.inside entry earlier other inside owns

/-- A removal keeps the other live blocks placed. -/
theorem Sized.pop (sized : Sized configs ⟨files, disk, side.extend [entry] live⟩)
    (popped : files.popBlock entry.1 side = (.ok (), after)) : Sized configs ⟨after, disk, live⟩ := by
  have valid : Valid ⟨after, disk, live⟩ (files.files.map StorageFile.name) := by
    cases side with
    | back =>
        apply sized.valid.popBack
        have moved : files.popBlockBack entry.1 = (.ok (), after) := popped
        simp only [step, VecSide.extend, List.singleton_append, List.head?_cons, moved,
          List.tail_cons]
    | front =>
        apply sized.valid.popFront
        have moved : files.popBlockFront entry.1 = (.ok (), after) := popped
        simp only [step, VecSide.extend, List.getLast?_concat, moved, List.dropLast_concat]
  obtain ⟨index, file, file', selected, place, moved, sameFiles, -⟩ :=
    StorageFilesWrite.popBlock_ok popped
  have shaped : shape file' = shape file := by
    cases side with
    | back =>
        obtain ⟨rfl, -⟩ := StorageFile.popBlock_back_ok moved
        rfl
    | front =>
        obtain ⟨rfl, -⟩ := StorageFile.popBlock_front_ok moved
        rfl
  refine sized.moved valid ?_ sized.sized ?_
  · rw [sameFiles]
    exact map_set_eq_map shape place shaped
  · exact fun later inLive => sized.inside later ((VecSide.mem_extend side).mpr (Or.inr inLive))

/-- A range that both disks read alike is not changed by a write that is not finished. -/
theorem readExactAt_mix {chosen : Path → Nat → Bool} {path : Path} {offset size : Nat}
    {content : Bytes} (old : (disk path).readExactAt offset size = some content)
    (new : (disk' path).readExactAt offset size = some content) :
    (Disk.mix chosen disk disk' path).readExactAt offset size = some content := by
  unfold DiskFile.readExactAt at old new ⊢
  split at old
  · split at new
    · rename_i fits fits'
      rw [if_pos (by simp only [Disk.mix]; split <;> assumption), ← Option.some.inj old]
      congr 1
      apply List.map_congr_left
      intro index member
      have same := List.map_inj_left.mp (Option.some.inj (old.trans new.symm)) index member
      simp only [Disk.mix]
      split
      · exact same.symm
      · rfl
    · cases new
  · cases old

/-- A write that is not finished keeps what the finished write keeps. -/
theorem Sized.tear {added : List (StoredBlock × Bytes)} (sized : Sized configs ⟨files, disk, live⟩)
    (written : Sized configs ⟨after, disk', side.extend added live⟩) (chosen : Path → Nat → Bool) :
    Sized configs ⟨files, Disk.mix chosen disk disk', live⟩ := by
  have names : files.files.map shape = after.files.map shape :=
    sized.shapes.trans written.shapes.symm
  have valid : Valid ⟨files, Disk.mix chosen disk disk', live⟩ (files.files.map StorageFile.name) := by
    refine ⟨rfl, sized.valid.ids, sized.valid.paths, sized.valid.index, sized.valid.placed, ?_⟩
    intro entry member
    obtain ⟨index, file, place, owns, bytes⟩ := sized.valid.stored entry member
    obtain ⟨other, inAfter, id, path, -⟩ := exists_shape names (List.mem_of_getElem? place)
    have bytes' := written.read ((VecSide.mem_extend side).mpr (Or.inr member)) inAfter (id.trans owns)
    rw [path] at bytes'
    exact ⟨index, file, place, owns, readExactAt_mix bytes bytes'⟩
  refine sized.moved valid rfl (fun file member => ?_) sized.inside
  obtain ⟨other, inAfter, -, path, size⟩ := exists_shape names member
  have len := written.sized other inAfter
  rw [path, size] at len
  simp only [Disk.mix]
  split
  · exact len
  · exact sized.sized file member

end FilesState

namespace StorageFile

variable {file : StorageFile} {extents : List Extent}

/-- The cursors can move to the first and to the last extent. -/
theorem Placed.tighten {first last : Extent} (placed : file.Placed extents)
    (isFirst : extents.head? = some first) (isLast : extents.getLast? = some last)
    (starts : first.offset < file.size) (ends : last.offset + last.size ≤ file.size) :
    Placed { file with tail := first.offset, head := last.offset + last.size } extents := by
  obtain ⟨-, -, tailTurns, headTurns, chain, window⟩ := placed
  obtain ⟨rest, rfl⟩ := List.getLast?_eq_some_iff.mp isLast
  obtain ⟨headTurns', upper, bound⟩ := chain.lowerHead
  obtain ⟨second, later⟩ := List.head?_eq_some_iff.mp isFirst
  rw [later] at upper ⊢
  obtain ⟨tailTurns', both, bound'⟩ := upper.raiseTail
  refine ⟨ends, Or.inr starts, tailTurns', headTurns', ?_, ?_⟩
  · simpa only [Nat.cast_add, add_right_comm] using both
  · push_cast
    omega

/-- The extents begin at the tail, ascend with at most one wrap, and end at the head. -/
structure Frames (file : StorageFile) (extents : List Extent) : Prop where
  tail : ∀ first ∈ extents.head?, first.offset = file.tail
  head : ∀ last ∈ extents.getLast?, last.offset + last.size = file.head
  wraps : ∃ low high, extents = low ++ high ∧ Ascends low ∧ Ascends high

/-- Placed extents that begin inside the file wrap at most once. -/
theorem Placed.wraps (placed : file.Placed extents) (starts : ∀ extent ∈ extents,
    extent.offset < file.size) : ∃ low high, extents = low ++ high ∧ Ascends low ∧ Ascends high := by
  obtain ⟨-, tailBound, tailTurns, headTurns, chain, window⟩ := placed
  cases extents with
  | nil => exact ⟨[], [], rfl, .nil, .nil⟩
  | cons first rest =>
      have inside := starts first List.mem_cons_self
      have below : (file.head : Int) + headTurns * file.size < (tailTurns + 2) * file.size := by
        rw [Int.add_mul]
        omega
      obtain ⟨low, high, split, ascends, ascends', -⟩ :=
        chain.ascends_twice tailTurns starts (by omega) below
      exact ⟨low, high, split, ascends, ascends'⟩

end StorageFile

namespace FilesState

variable {configs : List ConfigStorageFile} {disk : Disk} {files : StorageFilesWrite}
  {cells : List StoredBlock} {recorded : Nat → Bytes} {config : ConfigStorageFile}

/-- The live cells of a configured file lie inside it. -/
theorem Sized.bounds (sized : Sized configs ⟨files, disk, liveEntries recorded cells⟩)
    (member : config ∈ configs) {cell : StoredBlock} (inCells : cell ∈ liveCells cells config.id) :
    cell.offset < config.size ∧ cell.offset + cell.size ≤ config.size := by
  obtain ⟨inList, live, owns⟩ := mem_liveCells.mp inCells
  have entry : (cell, recorded cell.slot) ∈ liveEntries recorded cells :=
    mem_liveEntries.mpr ⟨inList, live, rfl⟩
  obtain ⟨file, inFiles, id, path, size⟩ := sized.exists_file member
  have starts := sized.inside _ entry file inFiles (id.trans owns.symm)
  have bytes := sized.read entry inFiles (id.trans owns.symm)
  unfold DiskFile.readExactAt at bytes
  split at bytes
  · rename_i ends
    rw [sized.sized file inFiles] at ends
    exact ⟨size ▸ starts, size ▸ ends⟩
  · cases bytes

/-- The restored cursors place the live cells of a file. -/
theorem Sized.placed_restored (sized : Sized configs ⟨files, disk, liveEntries recorded cells⟩)
    (member : config ∈ configs) :
    (StorageFilesWrite.restored cells config).Placed
      ((liveCells cells config.id).map StoredBlock.extent) := by
  obtain ⟨file, inFiles, id, path, size⟩ := sized.exists_file member
  obtain ⟨index, place⟩ := List.mem_iff_getElem?.mp inFiles
  have placed := sized.valid.placed index file place
  have bounds := fun cell (inCells : cell ∈ liveCells cells config.id) => sized.bounds member inCells
  rw [extentsOf_liveEntries, id] at placed
  unfold StorageFilesWrite.restored
  generalize liveCells cells config.id = own at placed bounds ⊢
  rcases own.eq_nil_or_concat with rfl | ⟨rest, last, rfl⟩
  · exact StorageFile.placed_empty _ _ _ _
  · rw [List.concat_eq_append] at placed bounds ⊢
    obtain ⟨first, later, split⟩ := List.exists_cons_of_ne_nil
      (show rest ++ [last] ≠ [] by simp)
    have isFirst : (rest ++ [last]).head? = some first := by rw [split]; rfl
    have starts := (bounds first (by rw [split]; exact List.mem_cons_self)).1
    have ends := (bounds last (by simp)).2
    rw [← size] at starts ends
    have firstExtent : ((rest ++ [last]).map StoredBlock.extent).head? = some first.extent := by
      rw [List.head?_map, isFirst]
      rfl
    have lastExtent : ((rest ++ [last]).map StoredBlock.extent).getLast? = some last.extent := by
      simp
    have tight := placed.tighten firstExtent lastExtent starts ends
    obtain ⟨headBound, tailBound, tailTurns, headTurns, chain, window⟩ := tight
    rw [size] at headBound tailBound chain window
    rw [isFirst, List.getLast?_concat]
    exact ⟨headBound, tailBound, tailTurns, headTurns, chain, window⟩

/-- The restored files are sized when they place their cells and have the bytes of them. -/
theorem sized_reopened (ids : (configs.map ConfigStorageFile.id).Nodup)
    (paths : (configs.map ConfigStorageFile.path).Nodup)
    (lens : ∀ config ∈ configs, (disk config.path).len = config.size)
    (placed : ∀ config ∈ configs, (StorageFilesWrite.restored cells config).Placed
      ((liveCells cells config.id).map StoredBlock.extent))
    (reads : ∀ cell ∈ cells, cell.isLive = true → ∃ config ∈ configs, config.id = cell.storageId ∧
      cell.offset < config.size ∧
      (disk config.path).readExactAt cell.offset cell.size = some (recorded cell.slot)) :
    Sized configs ⟨StorageFilesWrite.reopened configs cells, disk, liveEntries recorded cells⟩ := by
  have sorted := List.mergeSort_perm configs fun first second => first.id ≤ second.id
  refine ⟨⟨rfl, ?_, ?_, ?_, ?_, ?_⟩, ?_, ?_, ?_⟩
  · rw [StorageFilesWrite.reopened, List.map_map]
    exact (sorted.map ConfigStorageFile.id).nodup_iff.mpr ids
  · rw [StorageFilesWrite.reopened, List.map_map]
    exact (sorted.map ConfigStorageFile.path).nodup_iff.mpr paths
  · intro id index place
    apply StorageFilesWrite.idMap_get
    · rw [List.map_map]
      exact (sorted.map ConfigStorageFile.id).nodup_iff.mpr ids
    · rw [← place, StorageFilesWrite.reopened, List.map_map, List.map_map]
      rfl
  · intro index file place
    obtain ⟨config, isConfig, rfl⟩ := Option.map_eq_some_iff.mp (List.getElem?_map ▸ place)
    rw [extentsOf_liveEntries]
    exact placed config (sorted.mem_iff.mp (List.mem_of_getElem? isConfig))
  · intro entry member
    obtain ⟨inCells, live, isBytes⟩ := mem_liveEntries.mp member
    obtain ⟨config, inConfigs, id, -, bytes⟩ := reads _ inCells live
    obtain ⟨index, place⟩ := List.mem_iff_getElem?.mp (sorted.mem_iff.mpr inConfigs)
    refine ⟨index, StorageFilesWrite.restored cells config, ?_, id, ?_⟩
    · rw [StorageFilesWrite.reopened, List.getElem?_map]
      exact congrArg (Option.map _) place
    · rw [isBytes]
      exact bytes
  · rw [StorageFilesWrite.reopened, List.map_map]
    rfl
  · intro file member
    obtain ⟨config, inSorted, rfl⟩ := List.mem_map.mp member
    exact lens config (sorted.mem_iff.mp inSorted)
  · intro entry member file inFiles owns
    obtain ⟨inCells, live, -⟩ := mem_liveEntries.mp member
    obtain ⟨config, inSorted, rfl⟩ := List.mem_map.mp inFiles
    obtain ⟨config', inConfigs, id, starts, -⟩ := reads _ inCells live
    have same : config' = config := List.inj_on_of_nodup_map ids inConfigs
      (sorted.mem_iff.mp inSorted) (id.trans owns.symm)
    exact same ▸ starts

end FilesState

/-- The records can be loaded, and the files hold the bytes that were recorded. -/
structure Durable (configs : List ConfigStorageFile) (max : Nat) (db : Rocksdb) (disk : Disk)
    (recorded : Nat → Bytes) : Prop where
  positive : 0 < max
  lists : db.Lists max
  files : ∃ files, FilesState.Sized configs ⟨files, disk, liveEntries recorded db.cells⟩

open FilesState in
/-- The files open, and their cursors place the blocks of the records. -/
theorem Durable.openAll {configs : List ConfigStorageFile} {max : Nat} {db : Rocksdb} {disk : Disk}
    {recorded : Nat → Bytes} (durable : Durable configs max db disk recorded)
    (ids : (configs.map ConfigStorageFile.id).Nodup)
    (paths : (configs.map ConfigStorageFile.path).Nodup) {blocks : StoredBlocksWrite}
    (opened : StoredBlocksWrite.new db.cells max = .ok blocks) :
    ∃ disk', StorageFilesWrite.openAll configs blocks disk =
        (.ok (StorageFilesWrite.reopened configs db.cells, ⟨configs.map ConfigStorageFile.path,
          (StorageFilesWrite.reopened configs db.cells).id2file⟩), disk') ∧
      Sized configs ⟨StorageFilesWrite.reopened configs db.cells, disk',
        liveEntries recorded db.cells⟩ := by
  obtain ⟨files, sized⟩ := durable.files
  have lens : ∀ config ∈ configs, (disk config.path).len = config.size := by
    intro config member
    obtain ⟨file, inFiles, -, path, size⟩ := sized.exists_file member
    rw [← path, ← size]
    exact sized.sized file inFiles
  have reads : ∀ cell ∈ db.cells, cell.isLive = true → ∃ config ∈ configs,
      config.id = cell.storageId ∧ cell.offset < config.size ∧
        (disk config.path).readExactAt cell.offset cell.size = some (recorded cell.slot) := by
    intro cell member live
    have entry : (cell, recorded cell.slot) ∈ liveEntries recorded db.cells :=
      mem_liveEntries.mpr ⟨member, live, rfl⟩
    obtain ⟨file, inFiles, owns⟩ := sized.owner entry
    obtain ⟨config, inConfigs, id, path, size⟩ := sized.config inFiles
    refine ⟨config, inConfigs, id.trans owns, ?_, ?_⟩
    · rw [size]
      exact sized.inside _ entry file inFiles owns
    · rw [path]
      exact sized.read entry inFiles owns
  have owned : ∀ cell ∈ db.cells, cell.isLive = true →
      ∃ config ∈ configs, config.id = cell.storageId := by
    intro cell member live
    obtain ⟨config, inConfigs, id, -, -⟩ := reads cell member live
    exact ⟨config, inConfigs, id⟩
  obtain ⟨disk', success, same⟩ := openAll_eq ids lens durable.lists.consecutive opened owned
    fun config member cell inCells => sized.bounds member inCells
  refine ⟨disk', success, sized_reopened ids paths (fun config member => ?_)
    (fun config member => sized.placed_restored member) fun cell member live => ?_⟩
  · rw [(same config.path).1]
    exact lens config member
  · obtain ⟨config, inConfigs, id, starts, bytes⟩ := reads cell member live
    refine ⟨config, inConfigs, id, starts, ?_⟩
    rw [same.readExactAt (by rw [lens config inConfigs]; exact starts)]
    exact bytes

end Alpamayo
