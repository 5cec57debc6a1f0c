import Alpamayo.Proof.FilesRoom
import Alpamayo.Proof.ValidatedReads

/-!
This file shows when a push at the front makes room for its block by removing the oldest ones.
-/

namespace Alpamayo

variable {contents rest : List StoredBlock} {block : StoredBlock}

namespace StoredBlocksWrite

variable {self after : StoredBlocksWrite} {cell : StoredBlock}

/-- A successful push at the front has room for its cell. -/
theorem Spans.pushBlockFront2 (spans : self.Spans contents) (present : cell.present = true)
    (slot : ∀ last ∈ contents.getLast?, cell.slot = last.slot + 1)
    (room : contents.length < self.blocks.size) :
    (self.pushBlockFront2 cell).1 = .ok () ∧
      (self.pushBlockFront2 cell).2.Spans (contents ++ [cell]) := by
  have free := spans.frontFree_iff.mpr room
  simp only [StoredBlocksWrite.pushBlockFront2, free, Bool.false_eq_true, if_false]
  refine ⟨trivial, ?_, spans.consecutive.append present slot⟩
  rw [updateTotal_blocks]
  exact spans.represents.pushFront room

/-- A successful push at the back has room for its cell. -/
theorem Spans.pushBlockBack2 (spans : self.Spans contents) (present : cell.present = true)
    (slot : ∀ first ∈ contents.head?, first.slot = cell.slot + 1)
    (room : contents.length < self.blocks.size) :
    (self.pushBlockBack2 cell).1 = .ok () ∧
      (self.pushBlockBack2 cell).2.Spans (cell :: contents) := by
  have free := spans.backFree_iff.mpr room
  simp only [StoredBlocksWrite.pushBlockBack2, free, Bool.false_eq_true, if_false]
  refine ⟨trivial, ?_, spans.consecutive.cons present slot⟩
  rw [updateTotal_blocks]
  exact spans.represents.pushBack room

/-- A ring that is not full has room. -/
theorem Spans.room_of_not_full (spans : self.Spans contents) (full : self.isFull = false) :
    contents.length < self.blocks.size := by
  have fits := spans.represents.fits
  have different : contents.length ≠ self.blocks.size := by
    intro same
    rw [spans.isFull_iff.mpr same] at full
    cases full
  omega

end StoredBlocksWrite

namespace Rocksdb

variable {db after : Rocksdb} {slot : Nat}

/-- The database has the extra record of the slot. -/
def Indexes (db : Rocksdb) (slot : Nat) : Prop := db.slotExtraIndex.containsKey slot = true

/-- A dead slot has no bytes, and a live slot has its extra record. -/
def Recorded (db : Rocksdb) : Prop :=
  ∀ slot value, db.slotBasicIndex.get slot = some value →
    (value.dead = true → value.size = 0) ∧ (value.dead = false → db.Indexes slot)

/-- The removal of a live slot succeeds with its extra record and keeps the other ones. -/
theorem spawnRemoveSlot_ok (dead : Bool) (indexed : dead = false → db.Indexes slot) :
    ∃ after, db.spawnRemoveSlot slot dead = .ok after ∧
      after.slotBasicIndex = db.slotBasicIndex.erase slot ∧
      ∀ other, other ≠ slot → db.Indexes other → after.Indexes other := by
  cases dead with
  | true => exact ⟨_, rfl, rfl, fun other _ known => known⟩
  | false =>
      obtain ⟨extra, found⟩ := SortedMap.containsKey_iff.mp (indexed rfl)
      simp only [spawnRemoveSlot, found, Bool.false_eq_true, if_false]
      refine ⟨_, rfl, rfl, ?_⟩
      intro other different known
      exact (SortedMap.containsKey_erase _ _ _).mpr ⟨different, known⟩

/-- The removal of a slot keeps the records of the others. -/
theorem Recorded.remove (recorded : db.Recorded)
    (basic : after.slotBasicIndex = db.slotBasicIndex.erase slot)
    (extra : ∀ other, other ≠ slot → db.Indexes other → after.Indexes other) : after.Recorded := by
  intro other value found
  rw [basic, SortedMap.get_erase] at found
  split at found
  · cases found
  · rename_i different
    obtain ⟨empty, indexed⟩ := recorded other value found
    exact ⟨empty, fun live => extra other different (indexed live)⟩

/-- The records of a block keep the extra records and add its own. -/
theorem indexes_addIndexes (db : Rocksdb) (slot other : Nat) (added : BlockWithBinary) :
    (db.addIndexes slot added).Indexes other ↔ other = slot ∨ db.Indexes other :=
  SortedMap.containsKey_insert _ _ _ _

theorem Recorded.addIndexes (recorded : db.Recorded) (slot : Nat) (added : BlockWithBinary) :
    (db.addIndexes slot added).Recorded := by
  intro other value found
  obtain ⟨empty, indexed⟩ := recorded other value found
  exact ⟨empty, fun live => (db.indexes_addIndexes slot other added).mpr (Or.inr (indexed live))⟩

/-- A new record needs the extra record of a live slot. -/
theorem Recorded.slotAdd (recorded : db.Recorded) {data : Option (BlockWithBinary × StorageId × Nat)}
    (indexed : data.isSome = true → db.Indexes slot) : (db.slotAdd slot data).Recorded := by
  intro other value found
  simp only [Rocksdb.slotAdd, SortedMap.get_insert] at found
  split at found
  · rename_i same
    cases found
    rw [same]
    cases data with
    | none => exact ⟨fun _ => rfl, fun live => (by cases live)⟩
    | some placed => exact ⟨fun dead => (by cases dead), fun _ => indexed rfl⟩
  · exact recorded other value found

end Rocksdb

namespace Store

/-- The store has a file and the records for each block of its ring. -/
structure Ready (store : Store) (contents : List StoredBlock) : Prop where
  spans : store.blocks.Spans contents
  sound : store.files.Sound
  owned : ∀ block ∈ contents, block.size ≠ 0 →
    block.storageId ∈ store.files.files.map StorageFile.id
  indexed : ∀ block ∈ contents, block.dead = false → store.db.Indexes block.slot
  recorded : store.db.Recorded

variable {self after : Store} {blocks : StoredBlocksWrite} {side : VecSide}

/-- A block of the ring can be removed from the database. -/
theorem Ready.removeSlot (ready : self.Ready contents) (member : block ∈ contents) :
    ∃ db, self.db.spawnRemoveSlot block.slot block.dead = .ok db ∧ db.Recorded ∧
      ∀ other, other ≠ block.slot → self.db.Indexes other → db.Indexes other := by
  obtain ⟨db, success, basic, extra⟩ := Rocksdb.spawnRemoveSlot_ok block.dead
    (ready.indexed block member)
  exact ⟨db, success, ready.recorded.remove basic extra, extra⟩

/-- The rest of a ready store is ready. -/
theorem Ready.keep (ready : self.Ready contents) (spans : after.blocks.Spans rest)
    (part : ∀ other ∈ rest, other ∈ contents ∧ other.slot ≠ block.slot) (sound : after.files.Sound)
    (ids : after.files.files.map StorageFile.id = self.files.files.map StorageFile.id)
    (recorded : after.db.Recorded)
    (extra : ∀ other, other ≠ block.slot → self.db.Indexes other → after.db.Indexes other) :
    after.Ready rest where
  spans := spans
  sound := sound
  owned := by
    intro other member bytes
    rw [ids]
    exact ready.owned other (part other member).1 bytes
  indexed := fun other member live =>
    extra _ (part other member).2 (ready.indexed other (part other member).1 live)
  recorded := recorded

/-- A successful removal leaves the rest ready and the records of the other slots. -/
theorem Ready.popBlock (ready : self.Ready contents) (ring : self.popRing side = some (block, blocks))
    (member : block ∈ contents) (spans : blocks.Spans rest)
    (part : ∀ other ∈ rest, other ∈ contents ∧ other.slot ≠ block.slot)
    (success : self.popBlock side = (.ok (), after)) :
    after.Ready rest ∧
      ∀ other, other ≠ block.slot → self.db.Indexes other → after.db.Indexes other := by
  obtain ⟨db, removed, recorded, extra⟩ := ready.removeSlot member
  unfold Store.popBlock at success
  simp only [ring, removed] at success
  split at success
  · cases success
    exact ⟨ready.keep ⟨spans.represents, spans.consecutive⟩ part ready.sound rfl recorded extra, extra⟩
  · have ids := FilesState.map_id_of_names (self.files.popBlock_names block side).1
    cases side <;>
      · simp only at success
        obtain ⟨popped, rfl⟩ := Prod.mk.inj success
        refine ⟨ready.keep ⟨spans.represents, spans.consecutive⟩ part ?_ ids recorded extra, extra⟩
        exact ready.sound.popBlock (Prod.ext popped rfl)

/-- The oldest block of a ready store leaves the ring first. -/
theorem Ready.popRing_back (ready : self.Ready (block :: rest)) :
    ∃ blocks, self.popRing .back = some (block, blocks) ∧ blocks.Spans rest ∧
      blocks.blocks.size = self.blocks.blocks.size := by
  cases popped : self.blocks.popBlockBack with
  | none => cases ready.spans.popBlockBack_eq_none popped
  | some found =>
      obtain ⟨first, blocks⟩ := found
      obtain ⟨others, same, kept, ring, -, -⟩ := ready.spans.popBlockBack popped
      cases same
      exact ⟨blocks, popped, kept, by rw [ring]; rfl⟩

/-- The files accept the oldest block exactly if it can be removed. -/
theorem Ready.removable (ready : self.Ready contents) (member : block ∈ contents)
    (bytes : block.size ≠ 0) :
    (self.files.Removable block → self.files.popBlockBack block = (.ok (), self.files.freed [block])) ∧
      ∀ files, self.files.popBlockBack block = (.ok (), files) → self.files.Removable block := by
  obtain ⟨index, file, selected, place⟩ := ready.sound.placed _ (ready.owned block member bytes)
  constructor
  · intro removable
    exact StorageFilesWrite.popBlockBack_eq bytes selected place
      (removable bytes index file selected place)
  · intro files popped _ other found otherSelected foundPlace
    rw [selected] at otherSelected
    cases otherSelected
    rw [place] at foundPlace
    cases foundPlace
    exact StorageFilesWrite.inside_of_popBlockBack selected place popped

/-- The oldest block of a ready store is removed exactly if the files accept it. -/
theorem Ready.popBlockBack (ready : self.Ready (block :: rest))
    (removable : self.files.Removable block) :
    ∃ after, self.popBlockBack = (.ok (), after) ∧ after.Ready rest ∧
      after.files = self.files.freed [block] ∧ after.disk = self.disk ∧
      after.blocks.blocks.size = self.blocks.blocks.size ∧
      ∀ other, other ≠ block.slot → self.db.Indexes other → after.db.Indexes other := by
  obtain ⟨blocks, ring, spans, size⟩ := ready.popRing_back
  obtain ⟨db, removed, -, -⟩ := ready.removeSlot List.mem_cons_self
  have part : ∀ other ∈ rest, other ∈ block :: rest ∧ other.slot ≠ block.slot := fun other member =>
    ⟨List.mem_cons_of_mem _ member, (ready.spans.consecutive.head_lt member).ne'⟩
  have popped : self.popBlockBack = (.ok (), { self with
      db, files := self.files.freed [block], blocks := blocks.send .confirmedBlockPopBack }) := by
    simp only [Store.popBlockBack, Store.popBlock, ring, removed]
    split
    · rename_i empty
      rw [StorageFilesWrite.freed_singleton_of_size_eq_zero empty]
    · rename_i bytes
      rw [(ready.removable List.mem_cons_self bytes).1 removable]
  obtain ⟨kept, extra⟩ := ready.popBlock ring List.mem_cons_self spans part popped
  exact ⟨_, popped, kept, rfl, rfl, size, extra⟩

/-- A removal of the oldest block shows that the files accept it. -/
theorem Ready.removable_of_popBlockBack (ready : self.Ready (block :: rest))
    (success : self.popBlockBack = (.ok (), after)) : self.files.Removable block := by
  obtain ⟨blocks, ring, -, -⟩ := ready.popRing_back
  obtain ⟨db, removed, -, -⟩ := ready.removeSlot List.mem_cons_self
  simp only [Store.popBlockBack, Store.popBlock, ring, removed] at success
  split at success
  · rename_i empty
    exact fun bytes => absurd empty bytes
  · rename_i bytes
    obtain ⟨popped, -⟩ := Prod.mk.inj success
    exact (ready.removable List.mem_cons_self bytes).2 _ (Prod.ext popped rfl)

/-- An empty store has no block to remove. -/
theorem Ready.popBlockBack_nil (ready : self.Ready []) :
    self.popBlockBack = (.error .noBlocksToRemove, self) := by
  have missing : self.popRing .back = none := by
    change self.blocks.popBlockBack = none
    cases popped : self.blocks.popBlockBack with
    | none => rfl
    | some found =>
        obtain ⟨rest, same, -⟩ := ready.spans.popBlockBack popped
        cases same
  simp only [Store.popBlockBack, Store.popBlock, missing]

/-- The index records of a block keep the store ready. -/
theorem Ready.addIndexes (ready : self.Ready contents) (slot : Nat) (added : BlockWithBinary) :
    Store.Ready { self with db := self.db.addIndexes slot added } contents ∧
      (self.db.addIndexes slot added).Indexes slot := by
  refine ⟨⟨ready.spans, ready.sound, ready.owned, ?_, ready.recorded.addIndexes slot added⟩,
    (self.db.indexes_addIndexes slot slot added).mpr (Or.inl rfl)⟩
  intro block member live
  exact (self.db.indexes_addIndexes slot _ added).mpr (Or.inr (ready.indexed block member live))

/-- The turn of the index records keeps the store ready. -/
theorem Ready.takeTurn (ready : self.Ready contents) (slot : Nat) (added : BlockWithBinary)
    (turn : Option Nat) : (self.takeTurn slot added turn).1.Ready contents ∧
      (self.takeTurn slot added turn).1.files = self.files ∧
      (self.takeTurn slot added turn).1.disk = self.disk ∧
      ((turn = none → self.db.Indexes slot) → (self.takeTurn slot added turn).2 = none →
        (self.takeTurn slot added turn).1.db.Indexes slot) := by
  rcases turn with _ | _ | turn
  · exact ⟨ready, rfl, rfl, fun known _ => known rfl⟩
  · obtain ⟨kept, indexed⟩ := ready.addIndexes slot added
    exact ⟨kept, rfl, rfl, fun _ _ => indexed⟩
  · exact ⟨ready, rfl, rfl, fun _ waiting => (by cases waiting)⟩

end Store

namespace StorageFile

variable {file : StorageFile} {buffer : Bytes}

/-- A file that takes the block stores it exactly if the block fits at its front. -/
theorem writeFront_ok_iff (disk : Disk) (bounded : file.Bounded) (takes : file.Takes buffer.length) :
    (∃ offset, (file.writeFront disk buffer).1 = .ok offset) ↔ file.FrontFits buffer.length := by
  rw [FrontFits, ← writesInside_front_iff disk bounded takes.2]
  constructor
  · rintro ⟨offset, success⟩
    have written : file.writeFront disk buffer = (.ok offset, (file.writeFront disk buffer).2.1,
        (file.writeFront disk buffer).2.2) := Prod.ext success rfl
    obtain ⟨-, -, inside, -, same⟩ := writeFront_ok written
    refine ⟨offset, _, _, written, inside, fun position past => ?_⟩
    rw [same]
    exact bytes_writeAllAt inside past
  · rintro ⟨offset, after, disk', written, -⟩
    exact ⟨offset, congrArg Prod.fst written⟩

end StorageFile

namespace StorageFilesWrite

variable {self : StorageFilesWrite}

/-- Without a file there is no room. -/
theorem not_findsRoom_of_nil {size least count : Nat} (empty : self.files = []) :
    ¬ self.FindsRoom contents size least count := by
  rintro ⟨-, -, -, -, index, file, -, place, -⟩
  rw [freed_getElem?, empty] at place
  cases place

/-- A push finds no file, or the block fits into the file that it finds, or it fails. -/
theorem Sound.pushBlockFront_cases (sound : self.Sound) (disk : Disk) (buffer : Bytes) :
    (¬ self.HasRoom buffer.length ∧ (∀ file ∈ self.files, ¬ file.Takes buffer.length) ∧
      self.pushBlockFront disk buffer = (.ok none, self, disk)) ∨
    (self.HasRoom buffer.length ∧ ∃ place files disk',
      self.pushBlockFront disk buffer = (.ok (some place), files, disk')) ∨
    (¬ self.HasRoom buffer.length ∧ (∃ error, (self.pushBlockFront disk buffer).1 = .error error) ∧
      (self.files = [] ∨ ∃ file ∈ self.files, file.Takes buffer.length)) := by
  by_cases empty : self.files = []
  · refine Or.inr (Or.inr ⟨?_, ?_, Or.inl empty⟩)
    · rintro ⟨index, file, -, place, -⟩
      rw [empty] at place
      cases place
    · simp only [StorageFilesWrite.pushBlockFront, StorageFilesWrite.pushBlock,
        StorageFilesWrite.getFileIndexForNewBlock, empty, List.length_nil, if_true]
      exact ⟨_, rfl⟩
  · obtain ⟨index, file, chosen, place, takes⟩ | ⟨searched, refused⟩ :=
      getFileIndexForNewBlock_cases (sound.start empty) buffer.length
    · have room : self.HasRoom buffer.length ↔ file.FrontFits buffer.length := by
        constructor
        · rintro ⟨other, found, chosen', place', fits⟩
          rw [chosen] at chosen'
          cases chosen'
          rw [place] at place'
          cases place'
          exact fits
        · intro fits
          exact ⟨index, file, chosen, place, fits⟩
      have inFiles := List.mem_of_getElem? place
      have written := StorageFile.writeFront_ok_iff disk (sound.bounded file inFiles) takes
      obtain ⟨frame, -⟩ := getFileIndexForNewBlock_frame self buffer.length
      rw [room, ← written]
      unfold StorageFilesWrite.pushBlockFront StorageFilesWrite.pushBlock
      generalize self.getFileIndexForNewBlock buffer.length = searched at chosen frame
      obtain ⟨result, after⟩ := searched
      cases chosen
      dsimp only at frame ⊢
      rw [frame, place]
      dsimp only [StorageFile.writeSide]
      generalize file.writeFront disk buffer = outcome
      obtain ⟨failed | offset, file', disk'⟩ := outcome
      · refine Or.inr (Or.inr ⟨?_, ⟨_, rfl⟩, Or.inr ⟨file, inFiles, takes⟩⟩)
        rintro ⟨_, success⟩
        cases success
      · exact Or.inr (Or.inl ⟨⟨_, rfl⟩, _, _, _, rfl⟩)
    · left
      refine ⟨?_, refused, ?_⟩
      · rintro ⟨index, file, chosen, -⟩
        rw [searched] at chosen
        cases chosen
      · simp only [StorageFilesWrite.pushBlockFront, StorageFilesWrite.pushBlock, searched]

end StorageFilesWrite

namespace Store

variable {self after : Store} {slot fuel : Nat} {added : BlockWithBinary} {turn : Option Nat}

/-- What a successful search for a place leaves of a ready store. -/
structure Placed (before after : Store) (contents rest : List StoredBlock) (slot : Nat)
    (storageId : StorageId) : Prop where
  suffix : rest <:+ contents
  ready : after.Ready rest
  indexed : after.db.Indexes slot
  owned : storageId ∈ after.files.files.map StorageFile.id
  size : after.blocks.blocks.size = before.blocks.blocks.size

/-- A push into the files keeps the store ready, and the place of its block is in one of them. -/
theorem Ready.wrote {place : Option (StorageId × Nat)} {files : StorageFilesWrite} {disk : Disk}
    {buffer : Bytes} {side : VecSide} (ready : self.Ready contents)
    (pushed : self.files.pushBlock self.disk buffer side = (.ok place, files, disk)) :
    Store.Ready { self with files, disk } contents ∧
      ∀ found ∈ place, found.1 ∈ files.files.map StorageFile.id := by
  have ids := FilesState.map_id_of_names (self.files.pushBlock_names self.disk buffer side).1
  rw [pushed] at ids
  dsimp only at ids
  refine ⟨⟨ready.spans, ready.sound.pushBlock pushed, ?_, ready.indexed, ready.recorded⟩, ?_⟩
  · intro block member bytes
    rw [ids]
    exact ready.owned block member bytes
  · rintro found ⟨⟩
    obtain ⟨index, file, file', -, place, -, same, -⟩ := StorageFilesWrite.pushBlock_ok pushed
    rw [ids, same]
    exact List.mem_map_of_mem (List.mem_of_getElem? place)

/-- Files that take nothing make room with the removal of the oldest block. -/
theorem exists_findsRoom_cons {files : StorageFilesWrite} {size : Nat} (room : ¬ files.HasRoom size)
    (refused : ∀ file ∈ files.files, ¬ file.Takes size) (removable : files.Removable block) :
    (∃ count, files.FindsRoom (block :: rest) size 0 count) ↔
      ∃ count, (files.freed [block]).FindsRoom rest size 0 count := by
  constructor
  · rintro ⟨count, finds⟩
    cases count with
    | zero => exact absurd (StorageFilesWrite.findsRoom_zero_iff.mp finds).2 room
    | succ count => exact ⟨count, (StorageFilesWrite.findsRoom_succ_iff.mp finds).2.2⟩
  · rintro ⟨count, finds⟩
    exact ⟨count + 1, StorageFilesWrite.findsRoom_succ_iff.mpr ⟨fun _ => refused, removable, finds⟩⟩

/-- The loop finds a place exactly if the removal of some of the oldest blocks makes room; the rest
of the store is then ready. -/
theorem Ready.placeFront (added : BlockWithBinary) (turn : Option Nat) (ready : self.Ready contents)
    (apart : ∀ other ∈ contents, other.slot ≠ slot) (enough : contents.length < fuel)
    (waiting : turn = none → self.db.Indexes slot) :
    ((∃ place after, self.placeFront slot added fuel turn = (.ok place, after)) ↔
      ∃ count, self.files.FindsRoom contents added.protobuf.length 0 count) ∧
    ∀ place after, self.placeFront slot added fuel turn = (.ok place, after) →
      ∃ rest, Placed self after contents rest slot place.1 := by
  induction fuel generalizing self contents turn with
  | zero => omega
  | succ fuel ih =>
      obtain ⟨ready', files, disk, indexed⟩ := ready.takeTurn slot added turn
      have ring := takeTurn_blocks self slot added turn
      have pending := indexed waiting
      simp only [Store.placeFront]
      generalize self.takeTurn slot added turn = turned at ready' files disk pending ring ⊢
      obtain ⟨self', turn'⟩ := turned
      dsimp only at ready' files disk pending ring ⊢
      rw [← files]
      obtain ⟨room, refused, pushed⟩ | ⟨room, place, files', disk', pushed⟩ |
          ⟨full, ⟨error, pushed⟩, reason⟩ :=
        ready'.sound.pushBlockFront_cases self'.disk added.protobuf
      · rw [pushed]
        dsimp only
        cases contents with
        | nil =>
            rw [ready'.popBlockBack_nil]
            refine ⟨iff_of_false (fun ⟨_, _, success⟩ => by cases success) ?_, fun _ _ success => by
              cases success⟩
            rintro ⟨count, finds⟩
            cases count with
            | zero => exact room (StorageFilesWrite.findsRoom_zero_iff.mp finds).2
            | succ count => exact absurd finds.enough (by simp)
        | cons block rest =>
            by_cases removable : self'.files.Removable block
            · obtain ⟨after, popped, kept, freed, -, size, extra⟩ := ready'.popBlockBack removable
              have later := ih turn' kept
                (fun other member => apart other (List.mem_cons_of_mem _ member))
                (by simpa using enough)
                (fun none => extra slot (apart block List.mem_cons_self).symm (pending none))
              rw [popped]
              dsimp only
              rw [exists_findsRoom_cons room refused removable, ← freed]
              refine ⟨later.1, ?_⟩
              intro place final success
              obtain ⟨last, placed⟩ := later.2 place final success
              refine ⟨last, placed.suffix.trans (List.suffix_cons block rest), placed.ready,
                placed.indexed, placed.owned, ?_⟩
              rw [placed.size, size, ring]
            · have failed : ∀ final, self'.popBlockBack ≠ (.ok (), final) := fun final popped =>
                removable (ready'.removable_of_popBlockBack popped)
              generalize self'.popBlockBack = popped at failed ⊢
              obtain ⟨error | _, final⟩ := popped
              · refine ⟨iff_of_false (fun ⟨_, _, success⟩ => by cases success) ?_,
                  fun _ _ success => by cases success⟩
                rintro ⟨count, finds⟩
                cases count with
                | zero => exact room (StorageFilesWrite.findsRoom_zero_iff.mp finds).2
                | succ count =>
                    exact removable (StorageFilesWrite.findsRoom_succ_iff.mp finds).2.1
              · exact absurd rfl (failed final)
      · obtain ⟨placed, owned⟩ := ready'.wrote pushed
        rw [pushed]
        dsimp only
        refine ⟨iff_of_true ⟨_, _, rfl⟩
          ⟨0, StorageFilesWrite.findsRoom_zero_iff.mpr ⟨rfl, room⟩⟩, ?_⟩
        intro found final success
        cases turn' with
        | none =>
            cases success
            exact ⟨contents, List.suffix_rfl, placed, pending rfl, owned _ rfl, by rw [ring]⟩
        | some turn =>
            cases success
            obtain ⟨kept, indexed⟩ := placed.addIndexes slot added
            exact ⟨contents, List.suffix_rfl, kept, indexed, owned _ rfl, by rw [ring]⟩
      · generalize self'.files.pushBlockFront self'.disk added.protobuf = outcome at pushed ⊢
        obtain ⟨result, files', disk'⟩ := outcome
        cases pushed
        refine ⟨iff_of_false (fun ⟨_, _, success⟩ => by cases success) ?_, fun _ _ success => by
          cases success⟩
        rintro ⟨count, finds⟩
        cases reason with
        | inl empty => exact StorageFilesWrite.not_findsRoom_of_nil empty finds
        | inr found =>
            obtain ⟨file, member, takes⟩ := found
            cases count with
            | zero => exact full (StorageFilesWrite.findsRoom_zero_iff.mp finds).2
            | succ count =>
                have first := finds.before 0 le_rfl (Nat.zero_lt_succ _)
                rw [List.take_zero, StorageFilesWrite.freed_nil] at first
                exact first file member takes

/-- The recorded cell of a slot keeps the store ready. -/
theorem Ready.enter (data : Option (BlockWithBinary × StorageId × Nat)) (cell : StoredBlock)
    {blocks : StoredBlocksWrite} {entered : List StoredBlock} (ready : self.Ready contents)
    (spans : blocks.Spans entered) (members : ∀ other ∈ entered, other = cell ∨ other ∈ contents)
    (owned : cell.size ≠ 0 → cell.storageId ∈ self.files.files.map StorageFile.id)
    (indexed : cell.dead = false → self.db.Indexes cell.slot)
    (recorded : data.isSome = true → self.db.Indexes slot) :
    Store.Ready { self with db := self.db.slotAdd slot data, blocks } entered where
  spans := spans
  sound := ready.sound
  owned := by
    intro other member bytes
    cases members other member with
    | inl new => exact new ▸ owned (new ▸ bytes)
    | inr old => exact ready.owned other old bytes
  indexed := by
    intro other member live
    cases members other member with
    | inl new => exact new ▸ indexed (new ▸ live)
    | inr old => exact ready.indexed other old live
  recorded := ready.recorded.slotAdd recorded

/-- The first step of a push gives a full ring room for one cell, or it fails; what makes room for a
block before it makes room after it. -/
theorem Ready.makeRoom (ready : self.Ready contents) :
    (∃ after rest, (if self.blocks.isFull then self.popBlockBack else (.ok (), self)) = (.ok (), after) ∧
      rest <:+ contents ∧ after.Ready rest ∧ rest.length < after.blocks.blocks.size ∧
      ∀ size, (∃ count, self.files.FindsRoom contents size (if self.blocks.isFull then 1 else 0) count) ↔
        ∃ count, after.files.FindsRoom rest size 0 count) ∨
    ((∃ error after, (if self.blocks.isFull then self.popBlockBack else (.ok (), self)) =
      (.error error, after)) ∧
      ∀ size count, ¬ self.files.FindsRoom contents size (if self.blocks.isFull then 1 else 0) count) := by
  cases full : self.blocks.isFull with
  | false => exact Or.inl ⟨self, contents, rfl, List.suffix_rfl, ready,
      ready.spans.room_of_not_full full, fun size => Iff.rfl⟩
  | true =>
      have length := ready.spans.isFull_iff.mp full
      have positive := self.blocks.blocks.size_pos
      simp only [if_true]
      cases contents with
      | nil => exact absurd length positive.ne
      | cons block rest =>
          by_cases removable : self.files.Removable block
          · left
            obtain ⟨after, popped, kept, freed, -, size, -⟩ := ready.popBlockBack removable
            refine ⟨after, rest, popped, List.suffix_cons block rest, kept, ?_, fun size => ?_⟩
            · rw [size, ← length]
              exact Nat.lt_succ_self _
            · rw [freed]
              constructor
              · rintro ⟨count, finds⟩
                cases count with
                | zero => cases (StorageFilesWrite.findsRoom_zero_iff.mp finds).1
                | succ count => exact ⟨count, (StorageFilesWrite.findsRoom_succ_iff.mp finds).2.2⟩
              · rintro ⟨count, finds⟩
                exact ⟨count + 1, StorageFilesWrite.findsRoom_succ_iff.mpr
                  ⟨fun none => (by cases none), removable, finds⟩⟩
          · right
            constructor
            · cases popped : self.popBlockBack with
              | mk result after =>
                  cases result with
                  | error error => exact ⟨error, after, rfl⟩
                  | ok value => exact absurd (ready.removable_of_popBlockBack popped) removable
            · intro size count finds
              cases count with
              | zero => cases (StorageFilesWrite.findsRoom_zero_iff.mp finds).1
              | succ count => exact removable (StorageFilesWrite.findsRoom_succ_iff.mp finds).2.1

/-- A block that passes the checks is stored exactly if the removal of some of the oldest blocks makes
room, and the store stays ready. -/
theorem Ready.pushFrontBlock (ready : self.Ready contents) {turn : Nat}
    (next : ∀ last ∈ contents.getLast?, slot = last.slot + 1)
    (room : contents.length < self.blocks.blocks.size) :
    ((∃ after, self.pushFrontBlock turn slot added = (.ok (), after)) ↔
      ∃ count, self.files.FindsRoom contents added.protobuf.length 0 count) ∧
    ∀ after, self.pushFrontBlock turn slot added = (.ok (), after) → ∃ rest, after.Ready rest := by
  have apart : ∀ other ∈ contents, other.slot ≠ slot := fun other member =>
    (ready.spans.consecutive.lt_next next member).ne
  have enough : contents.length < self.blocks.blocks.size + 1 := by omega
  obtain ⟨finds, leaves⟩ := ready.placeFront added (some turn) apart enough fun none => (by cases none)
  rw [← finds]
  unfold Store.pushFrontBlock
  generalize self.placeFront slot added (self.blocks.blocks.size + 1) (some turn) = outcome at leaves ⊢
  obtain ⟨error | ⟨storageId, offset⟩, after⟩ := outcome
  · exact ⟨iff_of_false (fun ⟨_, success⟩ => (by cases success)) fun ⟨_, _, success⟩ =>
      (by cases success), fun _ success => (by cases success)⟩
  · obtain ⟨rest, placed⟩ := leaves _ _ rfl
    have room' : rest.length < after.blocks.blocks.size := by
      rw [placed.size]
      exact placed.suffix.length_le.trans_lt room
    let cell := StoredBlock.newConfirmed slot added.blockTime added.blockHeight storageId offset
      added.protobuf.length
    obtain ⟨stored, spans⟩ := placed.ready.spans.pushBlockFront2 (show cell.present = true from rfl)
      (fun last isLast => next last (mem_getLast?_of_suffix placed.suffix isLast)) room'
    have entered := placed.ready.enter (some (added, storageId, offset)) cell spans
      (fun other member => (List.mem_append.mp member).symm.imp_left List.mem_singleton.mp)
      (fun _ => placed.owned) (fun _ => placed.indexed) (fun _ => placed.indexed)
    have success : after.pushFrontStored slot added storageId offset = (.ok (), { after with
        db := after.db.slotAdd slot (some (added, storageId, offset))
        blocks := (after.blocks.pushBlockFront2 cell).2 }) := Prod.ext stored rfl
    dsimp only
    rw [success]
    refine ⟨iff_of_true ⟨_, rfl⟩ ⟨_, _, rfl⟩, ?_⟩
    intro final same
    cases same
    exact ⟨_, entered⟩

/-- A push at the front that passes its checks is stored exactly if the removal of some of the oldest
blocks makes room; a full ring needs one removal at least. -/
theorem Ready.pushBlockFront_some (ready : self.Ready contents) {turn : Nat}
    (checked : (checkFrontSlot self.blocks slot >>= fun _ =>
      checkFrontHeight self.blocks slot (some added)) = .ok ()) :
    ((∃ after, self.pushBlockFront turn slot (some added) = (.ok (), after)) ↔
      ∃ count, self.files.FindsRoom contents added.protobuf.length
        (if self.blocks.isFull then 1 else 0) count) ∧
    ∀ after, self.pushBlockFront turn slot (some added) = (.ok (), after) →
      ∃ rest, after.Ready rest := by
  obtain ⟨_, slotAccepted, -⟩ := bind_eq_ok checked
  have next := ready.spans.checkFrontSlot slotAccepted
  unfold Store.pushBlockFront
  rw [checked]
  dsimp only
  obtain ⟨middle, rest, made, suffix, ready', room, same⟩ | ⟨⟨error, middle, made⟩, none⟩ :=
    ready.makeRoom
  · rw [made, same]
    exact ready'.pushFrontBlock (fun last isLast => next last (mem_getLast?_of_suffix suffix isLast)) room
  · rw [made]
    exact ⟨iff_of_false (fun ⟨_, success⟩ => (by cases success)) fun ⟨count, finds⟩ =>
      none _ _ finds, fun _ success => (by cases success)⟩

/-- A dead slot at the front keeps the store ready. -/
theorem Ready.pushBlockFront_none (ready : self.Ready contents) {turn : Nat}
    (success : self.pushBlockFront turn slot none = (.ok (), after)) : ∃ rest, after.Ready rest := by
  unfold Store.pushBlockFront at success
  split at success
  · cases success
  · rename_i accepted
    obtain ⟨_, slotAccepted, -⟩ := bind_eq_ok accepted
    have next := ready.spans.checkFrontSlot slotAccepted
    obtain ⟨middle, rest, made, suffix, ready', room, -⟩ | ⟨⟨error, middle, made⟩, -⟩ :=
      ready.makeRoom
    · rw [made] at success
      obtain ⟨-, rfl⟩ := Prod.mk.inj success
      obtain ⟨-, spans⟩ := ready'.spans.pushBlockFront2
        (show (StoredBlock.newDead slot).present = true from rfl)
        (fun last isLast => next last (mem_getLast?_of_suffix suffix isLast)) room
      exact ⟨_, ready'.enter none (StoredBlock.newDead slot) spans
        (fun other member => (List.mem_append.mp member).symm.imp_left List.mem_singleton.mp)
        (fun bytes => absurd rfl bytes) (fun live => (by cases live)) (fun block => (by cases block))⟩
    · rw [made] at success
      cases success

/-- A push of the block at the back keeps the store ready. -/
theorem Ready.pushBlockBack (ready : self.Ready contents) {turn : Nat}
    {pushed : Option BlockWithBinary} {stored : Bool}
    (success : self.pushBlockBack turn slot pushed = (.ok stored, after)) :
    ∃ rest, after.Ready rest := by
  unfold Store.pushBlockBack at success
  split at success
  · cases success
  · rename_i accepted
    obtain ⟨_, slotAccepted, -⟩ := bind_eq_ok accepted
    have next := ready.spans.checkBackSlot slotAccepted
    split at success
    · cases success
      exact ⟨contents, ready⟩
    · rename_i full
      have room := ready.spans.room_of_not_full (by simpa using full)
      cases pushed with
      | none =>
          obtain ⟨-, rfl⟩ := Prod.mk.inj success
          obtain ⟨-, spans⟩ := ready.spans.pushBlockBack2
            (show (StoredBlock.newDead slot).present = true from rfl) next room
          exact ⟨_, ready.enter none (StoredBlock.newDead slot) spans
            (fun other member => List.mem_cons.mp member) (fun bytes => absurd rfl bytes)
            (fun live => (by cases live)) (fun block => (by cases block))⟩
      | some block =>
          obtain ⟨indexed, known⟩ := ready.addIndexes slot block
          dsimp only at success
          generalize written : self.files.pushBlockBack self.disk block.protobuf = outcome at success
          obtain ⟨error | _ | ⟨storageId, offset⟩, files, disk⟩ := outcome
          · cases success
          · cases success
            exact ⟨contents, (indexed.wrote written).1⟩
          · obtain ⟨-, rfl⟩ := Prod.mk.inj success
            obtain ⟨ready', owned⟩ := indexed.wrote written
            let cell := StoredBlock.newConfirmed slot block.blockTime block.blockHeight storageId
              offset block.protobuf.length
            obtain ⟨-, spans⟩ := ready'.spans.pushBlockBack2 (show cell.present = true from rfl) next
              room
            exact ⟨_, ready'.enter (some (block, storageId, offset)) cell spans
              (fun other member => List.mem_cons.mp member) (fun _ => owned _ rfl)
              (fun _ => known) (fun _ => known)⟩

/-- A removal at either side keeps the store ready. -/
theorem Ready.pop (ready : self.Ready contents) (success : self.popBlock side = (.ok (), after)) :
    ∃ rest, after.Ready rest := by
  cases ring : self.popRing side with
  | none =>
      unfold Store.popBlock at success
      simp only [ring] at success
      cases success
  | some found =>
      obtain ⟨block, blocks⟩ := found
      cases side with
      | back =>
          obtain ⟨rest, rfl, spans, -⟩ := ready.spans.popBlockBack ring
          have part : ∀ other ∈ rest, other ∈ block :: rest ∧ other.slot ≠ block.slot :=
            fun other member => ⟨List.mem_cons_of_mem _ member,
              (ready.spans.consecutive.head_lt member).ne'⟩
          exact ⟨rest, (ready.popBlock ring List.mem_cons_self spans part success).1⟩
      | front =>
          obtain ⟨rest, rfl, spans, -⟩ := ready.spans.popBlockFront ring
          have part : ∀ other ∈ rest, other ∈ rest ++ [block] ∧ other.slot ≠ block.slot :=
            fun other member => ⟨List.mem_append_left _ member,
              (ready.spans.consecutive.lt_last member).ne⟩
          exact ⟨rest, (ready.popBlock ring (by simp) spans part success).1⟩

/-- A call without an error has a result. -/
theorem ok_of_settle {A : Type} {result : Except StorageError A × Store}
    (success : (settle result).1 = none) : ∃ value, result.1 = .ok value := by
  obtain ⟨error | value, after⟩ := result
  · cases success
  · exact ⟨value, rfl⟩

/-- Every call without an error keeps the store ready. -/
theorem Ready.call (ready : self.Ready contents) {call : StoreCall}
    (success : (self.call call).1 = none) : ∃ rest, (self.call call).2.Ready rest := by
  cases call with
  | pushBlockFront turn slot block =>
      obtain ⟨_, stored⟩ := ok_of_settle success
      have pushed : self.pushBlockFront turn slot block = (.ok (), _) := Prod.ext stored rfl
      cases block with
      | none => exact ready.pushBlockFront_none pushed
      | some added =>
          have checked : (checkFrontSlot self.blocks slot >>= fun _ =>
              checkFrontHeight self.blocks slot (some added)) = .ok () := by
            unfold Store.pushBlockFront at pushed
            split at pushed
            · cases pushed
            · assumption
          exact (ready.pushBlockFront_some checked).2 _ pushed
  | pushBlockBack turn slot block =>
      obtain ⟨stored, known⟩ := ok_of_settle success
      exact ready.pushBlockBack (Prod.ext known rfl)
  | popBlockFront =>
      obtain ⟨_, popped⟩ := ok_of_settle success
      exact ready.pop (Prod.ext popped rfl)
  | popBlockBack =>
      obtain ⟨_, popped⟩ := ok_of_settle success
      exact ready.pop (Prod.ext popped rfl)

end Store

/-- A loaded cell comes from the record of its slot. -/
theorem exists_record_of_spawnSlotsLoop {currentSlot : Option Nat}
    {entries : List (Nat × SlotBasicIndexValue)} {list : List StoredBlock}
    (loaded : Rocksdb.spawnSlotsLoop currentSlot entries = .ok list) :
    ∀ block ∈ list, ∃ entry ∈ entries, block = Rocksdb.storedBlockOf entry.1 entry.2 := by
  induction entries generalizing currentSlot list with
  | nil =>
      cases loaded
      simp
  | cons entry rest ih =>
      obtain ⟨slot, value⟩ := entry
      obtain ⟨_, -, loaded⟩ := bind_eq_ok loaded
      obtain ⟨slots, tail, same⟩ := bind_eq_ok loaded
      cases same
      intro block member
      cases List.mem_cons.mp member with
      | inl first => exact ⟨_, List.mem_cons_self, first⟩
      | inr later =>
          obtain ⟨entry, inside, known⟩ := ih tail block later
          exact ⟨entry, List.mem_cons_of_mem _ inside, known⟩

namespace Startup

/-- The store that a startup opens. -/
def store (self : Startup) : Store := ⟨self.db, self.files, self.opened, self.blocks⟩

/-- A startup from a database with complete records opens a ready store. -/
theorem ready (self : Startup) (recorded : self.db.Recorded) : self.store.Ready self.list := by
  obtain ⟨present, chain, -⟩ := spawnSlotsLoop_chain self.loaded
  obtain ⟨represents, -⟩ := StoredBlocksWrite.new_represents ⟨present, chain⟩ self.placed
  have record : ∀ block ∈ self.list, ∃ value, self.db.slotBasicIndex.get block.slot = some value ∧
      block = Rocksdb.storedBlockOf block.slot value := by
    intro block member
    obtain ⟨entry, inside, rfl⟩ := exists_record_of_spawnSlotsLoop self.loaded block member
    exact ⟨entry.2, SortedMap.get_eq_some_iff.mpr inside, rfl⟩
  refine ⟨⟨represents, present, chain⟩, sound_openAll self.success, ?_, ?_, recorded⟩
  · intro block member bytes
    obtain ⟨value, found, same⟩ := record block member
    obtain ⟨place, inside, here⟩ := List.getElem_of_mem member
    have cell := represents.cell place (by have := represents.fits; omega)
    rw [List.getD_eq_getElem _ _ inside, here] at cell
    have alive : block.dead = false := by
      cases dead : block.dead with
      | false => rfl
      | true =>
          rw [same] at dead bytes
          exact absurd ((recorded _ value found).1 dead) bytes
    apply owned_openAll _ ⟨_, cell⟩ self.success
    rw [StoredBlock.isLive, present block member, alive]
    rfl
  · intro block member live
    obtain ⟨value, found, same⟩ := record block member
    apply (recorded _ value found).2
    rw [same] at live
    exact live

end Startup

namespace Store

/-- A store is opened over an empty database or over a store that was closed, and every call on it
succeeds. -/
inductive Reachable : Store → Prop
  | fresh (startup : Startup) (empty : startup.db = Rocksdb.empty) : Reachable startup.store
  | restart (startup : Startup) (closed : Store) (reachable : Reachable closed)
      (db : startup.db = closed.db) (disk : startup.disk = closed.disk) : Reachable startup.store
  | call (store : Store) (call : StoreCall) (reachable : Reachable store)
      (success : (store.call call).1 = none) : Reachable (store.call call).2

/-- Every reachable store is ready. -/
theorem Reachable.ready {store : Store} (reachable : Reachable store) :
    ∃ contents, store.Ready contents := by
  induction reachable with
  | fresh startup empty =>
      have recorded : startup.db.Recorded := by
        rw [empty]
        intro slot value found
        cases found
      exact ⟨_, startup.ready recorded⟩
  | restart startup closed _ db _ ih =>
      obtain ⟨contents, ready⟩ := ih
      exact ⟨_, startup.ready (db ▸ ready.recorded)⟩
  | call store call _ success ih =>
      obtain ⟨contents, ready⟩ := ih
      exact ready.call success

/-- A file of ten bytes has a block of slot 1 with so many bytes. -/
def oneBlock (size : Nat) : Store :=
  ((Startup.oneFile 10 (by decide)).store.call
    (.pushBlockFront 0 1 (some (Writer.plainBlock 1 (List.replicate size 1))))).2

end Store

end Alpamayo
