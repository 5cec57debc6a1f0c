import Alpamayo.Proof.WriterDisk
import Alpamayo.Proof.WriterReplica

/-!
This file shows that the stored blocks keep their bytes for as long as they are in the ring, and that a
block that has left the ring lies at or below the published first slot.
-/

namespace Alpamayo

variable {contents rest : List StoredBlock} {block : StoredBlock}

namespace StoredBlocksWrite

variable {self : StoredBlocksWrite}

/-- A lookup that finds a cell finds a live block of the slot. -/
theorem Spans.mem_of_getBlockLocation (spans : self.Spans contents) {slot : Nat}
    (found : self.toRead.getBlockLocation slot = .found block) :
    block ∈ contents ∧ block.slot = slot ∧ block.dead = false := by
  unfold StoredBlocksRead.getBlockLocation at found
  dsimp only at found
  split at found
  · cases found
  · split at found
    · cases found
    · split at found
      · rename_i known
        split at found
        · cases found
        · rename_i live
          cases found
          rw [Bool.and_eq_true, decide_eq_true_eq] at known
          exact ⟨(spans.mem_iff known.1).mpr ⟨_, rfl⟩, known.2, by simpa using live⟩
      · cases found

end StoredBlocksWrite

namespace Writer

variable {self after : Writer} {event : WriterEvent} {reading : StorageFilesRead}

/-- The write of the push under way changes no byte of a live block of the ring. -/
def SparesLive (self : Writer) : Prop :=
  match self.task with
  | .push push =>
      match push.block with
      | some block =>
          ∀ index, (self.store.blocks.blocks.cells index).isLive = true →
            ∀ file ∈ self.store.files.files,
              file.id = (self.store.blocks.blocks.cells index).storageId →
                ((push.attempt self.store block).2.2 file.file).bytesAt
                    (self.store.blocks.blocks.cells index).offset
                    (self.store.blocks.blocks.cells index).size =
                  (self.store.disk file.file).bytesAt
                    (self.store.blocks.blocks.cells index).offset
                    (self.store.blocks.blocks.cells index).size
      | none => True
  | _ => True

instance (self : Writer) : Decidable self.SparesLive := by
  unfold SparesLive
  split
  · split <;> infer_instance
  · infer_instance

/-- No block is removed at the front, blocks are added at the back only before the first removal, each
accepted slot at the front is above all slots so far, and writes spare the live blocks. -/
def SparesStored (self : Writer) : WriterEvent → Prop
  | .popBlock side => side = .back
  | .pushBlockFront slot _ => checkFrontSlot self.store.blocks slot = .ok () →
      ∀ entry ∈ self.stored, entry.1.slot < slot
  | .pushBlockBack _ _ => self.evicted = false
  | .write | .tear _ => self.SparesLive
  | _ => True

instance decidableSparesStored (self : Writer) : (event : WriterEvent) →
    Decidable (self.SparesStored event)
  | .popBlock side => inferInstanceAs (Decidable (side = .back))
  | .pushBlockFront _ _ => inferInstanceAs (Decidable (_ → _))
  | .pushBlockBack _ _ => inferInstanceAs (Decidable (self.evicted = false))
  | .write | .tear _ => inferInstanceAs (Decidable self.SparesLive)
  | .send _ | .announce | .remove | .free | .evict | .roomy | .index | .refuse | .record | .store
  | .publish => isTrue trivial

/-- A write under way keeps a range that the whole write keeps. -/
theorem bytesAt_mix {chosen : Path → Nat → Bool} {old new : Disk} {path : Path} {offset size : Nat}
    (same : (new path).bytesAt offset size = (old path).bytesAt offset size) :
    (Disk.mix chosen old new path).bytesAt offset size = (old path).bytesAt offset size := by
  apply List.map_congr_left
  intro index member
  have equal := List.map_inj_left.mp same index member
  simp only [Disk.mix]
  split
  · exact equal
  · rfl

/-- A permitted change keeps the bytes of the live blocks of the ring. -/
theorem Change.bytesAt (change : Change self event after) (permitted : self.SparesStored event)
    (opens : reading.Opens self.store.files) (spans : self.Spans contents)
    (member : block ∈ contents) (live : block.dead = false) {path : Path}
    (found : reading.fileOf block.storageId = some path) :
    (after.store.disk path).bytesAt block.offset block.size =
      (self.store.disk path).bytesAt block.offset block.size := by
  have present := spans.ring.consecutive.present block member
  obtain ⟨index, cell⟩ := (spans.ring.mem_iff present).mp member
  obtain ⟨file, inside, same⟩ := List.mem_map.mp ((opens _ _).mp found)
  obtain ⟨sameId, samePath⟩ := Prod.mk.inj same
  -- The attempt of the push under way spares the block.
  have spared : ∀ push added, self.task = .push push → push.block = some added →
      self.SparesLive → ((push.attempt self.store added).2.2 path).bytesAt block.offset block.size =
        (self.store.disk path).bytesAt block.offset block.size := by
    intro push added known isBlock spares
    simp only [SparesLive, known, isBlock] at spares
    have spares := spares index (by rw [cell, StoredBlock.isLive, present, live]; rfl) file inside
      (by rw [cell]; exact sameId)
    rwa [cell, samePath] at spares
  cases change with
  | index push next store known indexed | indexDuring side block stage push next store known indexed =>
      obtain ⟨added, -, -, -, rfl, -⟩ := Push.addIndexes_eq indexed
      rfl
  | tear chosen push added place files disk known stage isBlock placed =>
      have kept := spared push added known isBlock permitted
      rw [placed] at kept
      exact bytesAt_mix kept
  | writeFailed push added error files disk known stage isBlock failed =>
      have kept := spared push added known isBlock permitted
      rwa [failed] at kept
  | write push added storageId offset files disk known stage isBlock placed =>
      have kept := spared push added known isBlock permitted
      rwa [placed] at kept
  | _ => rfl

/-- The stored blocks of the ring have their bytes, and the others are below the ring. -/
structure Keeps (writer : Writer) (reading : StorageFilesRead) (contents : List StoredBlock) :
    Prop where
  spans : writer.Spans contents
  opens : reading.Opens writer.store.files
  onDisk : writer.OnDisk reading
  known : ∀ cell ∈ contents, ∃ bytes, (cell, bytes) ∈ writer.stored
  bytes : ∀ entry ∈ writer.stored, entry.1 ∈ contents → entry.1.dead = false →
    ∀ path, reading.fileOf entry.1.storageId = some path →
      (writer.store.disk path).bytesAt entry.1.offset entry.1.size = entry.2
  below : ∀ entry ∈ writer.stored, entry.1 ∉ contents → ∀ first ∈ contents.head?,
    entry.1.slot < first.slot
  published : ∀ entry ∈ writer.stored, entry.1 ∉ contents → entry.1.slot ≤ maxSlot →
    entry.1.slot ≤ writer.store.blocks.firstAvailable
  whole : writer.evicted = false → ∀ entry ∈ writer.stored, entry.1 ∈ contents
  distinct : (writer.stored.map fun entry => entry.1.slot).Nodup
  front : ∀ push ∈ writer.task.underWay, push.side = .front →
    ∀ entry ∈ writer.stored, entry.1.slot < push.slot
  back : ∀ push ∈ writer.task.underWay, push.side = .back → writer.evicted = false

/-- The pushes under way stay above all slots, or below them before the first removal. -/
theorem Keeps.pushes (keeps : self.Keeps reading contents) (change : Change self event after)
    (permitted : self.SparesStored event) (stored : after.stored = self.stored) :
    (∀ push ∈ after.task.underWay, push.side = .front →
        ∀ entry ∈ after.stored, entry.1.slot < push.slot) ∧
      ∀ push ∈ after.task.underWay, push.side = .back → after.evicted = false := by
  rw [stored]
  constructor
  · intro next member front
    cases change.continues member with
    | front slot block cause isNext checked =>
        rw [cause] at permitted
        rw [isNext]
        exact permitted checked
    | back slot block cause isNext same =>
        rw [isNext] at front
        cases front
    | on push known side slot block same =>
        rw [slot]
        exact keeps.front push known (by rw [← side, front])
  · intro next member back
    cases change.continues member with
    | front slot block cause isNext checked =>
        rw [isNext] at back
        cases back
    | back slot block cause isNext same =>
        rw [cause] at permitted
        rw [same]
        exact permitted
    | on push known side slot block same =>
        rw [same back]
        exact keeps.back push known (by rw [← side, back])

/-- What a change keeps of the stored blocks. -/
structure Retains (before after : Writer) (contents rest : List StoredBlock) : Prop where
  stored : ∀ entry ∈ before.stored, entry ∈ after.stored
  gone : ∀ entry ∈ before.stored, entry.1 ∈ rest → entry.1 ∈ contents

/-- A change outside of the ring keeps the bytes. -/
theorem Keeps.other (keeps : self.Keeps reading contents) (change : Change self event after)
    (permitted : self.SparesStored event)
    (ring : after.store.blocks.blocks = self.store.blocks.blocks)
    (published : after.store.blocks.firstAvailable = self.store.blocks.firstAvailable ∨
      after.store.blocks.firstAvailable =
        StoredBlocksWrite.firstAvailableOf (contents.head?.map StoredBlock.slot))
    (stored : after.stored = self.stored) (evicted : after.evicted = self.evicted) :
    after.Keeps reading contents := by
  obtain ⟨rest, kept⟩ := keeps.spans.change change
  obtain rfl := keeps.spans.eq_of_ring kept ring
  obtain ⟨front, back⟩ := keeps.pushes change permitted stored
  refine ⟨kept, change.opens keeps.opens, change.onDisk keeps.opens keeps.onDisk, ?_, ?_, ?_, ?_, ?_,
    ?_, front, back⟩
  · rw [stored]
    exact keeps.known
  · rw [stored]
    intro entry member inside live path found
    rw [change.bytesAt permitted keeps.opens keeps.spans inside live found]
    exact keeps.bytes entry member inside live path found
  · rw [stored]
    exact keeps.below
  · rw [stored]
    intro entry member outside small
    obtain same | lowest := published
    · rw [same]
      exact keeps.published entry member outside small
    · rw [lowest]
      have below := keeps.below entry member outside
      cases head : rest.head? with
      | none => exact small
      | some first => exact (below first head).le
  · rw [stored, evicted]
    exact keeps.whole
  · rw [stored]
    exact keeps.distinct

/-- A removal at the back publishes a slot above the removed block. -/
theorem Keeps.popped (keeps : self.Keeps reading contents) (change : Change self event after)
    (permitted : self.SparesStored event) (popped : self.store.popRing .back =
      some (block, after.store.blocks)) (stored : after.stored = self.stored)
    (evicted : after.evicted = true) :
    ∃ rest, after.Keeps reading rest ∧ self.Retains after contents rest := by
  obtain ⟨rest, rfl, kept, -, -, published⟩ := keeps.spans.ring.popBlockBack popped
  obtain ⟨rest', spans⟩ := keeps.spans.change change
  obtain rfl := kept.unique spans.ring
  obtain ⟨front, back⟩ := keeps.pushes change permitted stored
  have consecutive := keeps.spans.ring.consecutive
  -- An entry outside of the rest is the removed block, or it was gone before.
  have below : ∀ entry ∈ self.stored, entry.1 ∉ rest → ∀ first ∈ rest.head?,
      entry.1.slot < first.slot := by
    intro entry member outside first isFirst
    have above := consecutive.head_lt (List.mem_of_mem_head? isFirst)
    by_cases removed : entry.1 = block
    · rw [removed]
      exact above
    · have earlier := keeps.below entry member (by simp [removed, outside]) block rfl
      omega
  refine ⟨rest, ⟨spans, change.opens keeps.opens, change.onDisk keeps.opens keeps.onDisk, ?_, ?_, ?_,
    ?_, ?_, ?_, front, back⟩, ?_, ?_⟩
  · rw [stored]
    exact fun cell member => keeps.known cell (List.mem_cons_of_mem block member)
  · rw [stored]
    intro entry member inside live path found
    have before := List.mem_cons_of_mem block inside
    rw [change.bytesAt permitted keeps.opens keeps.spans before live found]
    exact keeps.bytes entry member before live path found
  · rw [stored]
    exact below
  · rw [stored, published]
    intro entry member outside small
    cases head : rest.head? with
    | none => exact small
    | some first => exact (below entry member outside first head).le
  · rw [evicted]
    rintro ⟨⟩
  · rw [stored]
    exact keeps.distinct
  · rw [stored]
    exact fun entry member => member
  · exact fun entry member inside => List.mem_cons_of_mem block inside

/-- The writer after a cell has entered the ring. -/
def entered (self : Writer) (push : Push) (cell : StoredBlock) (blocks : StoredBlocksWrite) :
    Writer := { self with
  store := { self.store with blocks }
  task := .publish push.side
  stored := self.stored ++ [(cell, push.bytes)] }

/-- A cell with a new slot keeps the bytes of the others and has those of its push. -/
theorem Keeps.entered (keeps : self.Keeps reading contents) {push : Push} {cell : StoredBlock}
    {blocks : StoredBlocksWrite} (known : self.task = .push push)
    (stage : push.stage = .recorded cell) (kept : blocks.Spans rest)
    (joins : ∀ other, other ∈ rest ↔ other ∈ contents ∨ other = cell)
    (fresh : ∀ entry ∈ self.stored, entry.1.slot ≠ cell.slot)
    (below : ∀ entry ∈ self.stored, entry.1 ∉ contents → ∀ first ∈ rest.head?,
      entry.1.slot < first.slot)
    (published : blocks.firstAvailable = self.store.blocks.firstAvailable) :
    (self.entered push cell blocks).Keeps reading rest ∧
      self.Retains (self.entered push cell blocks) contents rest := by
  have onDisk := (keeps.onDisk push (by rw [known]; rfl)).recorded cell stage
  -- The entries are the old ones and the new one.
  have split : ∀ entry ∈ self.stored ++ [(cell, push.bytes)],
      entry ∈ self.stored ∨ entry = (cell, push.bytes) := by
    intro entry member
    rwa [List.mem_append, List.mem_singleton] at member
  have old : ∀ entry ∈ self.stored, entry.1 ∈ rest → entry.1 ∈ contents := by
    intro entry member inside
    obtain inside | same := (joins entry.1).mp inside
    · exact inside
    · exact absurd (congrArg StoredBlock.slot same) (fresh entry member)
  have isNew : cell ∈ rest := (joins cell).mpr (Or.inr rfl)
  refine ⟨⟨⟨kept, by rintro _ ⟨⟩⟩, keeps.opens, by rintro _ ⟨⟩, ?_, ?_, ?_, ?_, ?_, ?_, by rintro _ ⟨⟩,
    by rintro _ ⟨⟩⟩, ?_, old⟩
  · intro other inside
    obtain inside | rfl := (joins other).mp inside
    · obtain ⟨bytes, member⟩ := keeps.known other inside
      exact ⟨bytes, List.mem_append_left _ member⟩
    · exact ⟨push.bytes, List.mem_append_right _ List.mem_cons_self⟩
  · intro entry member inside live path found
    obtain member | rfl := split entry member
    · exact keeps.bytes entry member (old entry member inside) live path found
    · exact onDisk live path found
  · intro entry member outside
    obtain member | rfl := split entry member
    · exact below entry member fun inside => outside ((joins entry.1).mpr (Or.inl inside))
    · exact absurd isNew outside
  · intro entry member outside small
    obtain member | rfl := split entry member
    · rw [show (self.entered push cell blocks).store.blocks.firstAvailable = _ from published]
      exact keeps.published entry member
        (fun inside => outside ((joins entry.1).mpr (Or.inl inside))) small
    · exact absurd isNew outside
  · intro evicted entry member
    obtain member | rfl := split entry member
    · exact (joins entry.1).mpr (Or.inl (keeps.whole evicted entry member))
    · exact isNew
  · change ((self.stored ++ [(cell, push.bytes)]).map fun entry => entry.1.slot).Nodup
    rw [List.map_append, List.nodup_append]
    refine ⟨keeps.distinct, by simp, ?_⟩
    intro slot member other same
    obtain ⟨entry, inside, rfl⟩ := List.mem_map.mp member
    rw [List.map_singleton, List.mem_singleton] at same
    rw [same]
    exact fresh entry inside
  · exact fun entry member => List.mem_append_left _ member

/-- A new cell enters the ring with the bytes that its push has written. -/
theorem Keeps.pushed (keeps : self.Keeps reading contents) {push : Push} {cell : StoredBlock}
    {blocks : StoredBlocksWrite} (known : self.task = .push push)
    (stage : push.stage = .recorded cell)
    (pushed : self.store.blocks.pushCell push.side cell = some blocks) :
    ∃ rest, (self.entered push cell blocks).Keeps reading rest ∧
      self.Retains (self.entered push cell blocks) contents rest := by
  have fits := keeps.spans.pushFits known
  obtain ⟨present, slot⟩ := fits.cell cell stage
  have underWay : push ∈ self.task.underWay := by
    rw [known]
    rfl
  cases side : push.side with
  | front =>
      have above := keeps.front push underWay side
      rw [side] at pushed
      obtain ⟨-, kept, -, -, published⟩ := keeps.spans.ring.pushCell_front present
        (by rw [slot]; exact fits.front side) pushed
      refine ⟨_, keeps.entered known stage kept (by simp) ?_ ?_ published⟩
      · intro entry member
        have less := above entry member
        omega
      · intro entry member outside first isFirst
        cases contents with
        | nil =>
            cases isFirst
            rw [slot]
            exact above entry member
        | cons lowest others => exact keeps.below entry member outside first isFirst
  | back =>
      have whole := keeps.whole (keeps.back push underWay side)
      rw [side] at pushed
      obtain ⟨-, kept, -, -, published⟩ := keeps.spans.ring.pushCell_back present
        (by rw [slot]; exact fits.back side) pushed
      refine ⟨_, keeps.entered known stage kept (by simp [or_comm]) ?_ ?_ published⟩
      · intro entry member
        exact (kept.consecutive.head_lt (whole entry member)).ne'
      · exact fun entry member outside => absurd (whole entry member) outside

/-- Every permitted change keeps the bytes of the stored blocks of the ring. -/
theorem Keeps.change (keeps : self.Keeps reading contents) (permitted : self.SparesStored event)
    (change : Change self event after) :
    ∃ rest, after.Keeps reading rest ∧ self.Retains after contents rest := by
  cases id change.ring with
  | other ring firstAvailable stored evicted before done sends =>
      refine ⟨contents, keeps.other change permitted ring (Or.inl firstAvailable) stored evicted, ?_, ?_⟩
      · rw [stored]
        exact fun entry member => member
      · exact fun entry member inside => inside
  | popped side block popped stored evicted before done cause =>
      have back : side = .back := by
        obtain rfl | ⟨-, same⟩ := cause
        · exact permitted
        · exact same
      subst back
      exact keeps.popped change permitted popped stored (by rw [evicted]; simp)
  | pushed push cell known stage pushed stored evicted task cause =>
      subst cause
      cases change with
      | storeFailed push' cell' known' stage' failed => cases task
      | store push' cell' blocks known' stage' stored' => exact keeps.pushed known' stage' stored'
  | published side known blocks stored evicted done =>
      refine ⟨contents, keeps.other change permitted (by rw [blocks]; simp) ?_ stored evicted, ?_, ?_⟩
      · rw [blocks, ← keeps.spans.ring.getBackSlot]
        unfold StoredBlocksWrite.updateTotal
        split
        · exact Or.inr rfl
        · exact Or.inl rfl
      · rw [stored]
        exact fun entry member => member
      · exact fun entry member inside => inside

/-- Every permitted run keeps the bytes of the stored blocks of the ring. -/
theorem Run.keeps (run : Run SparesStored self after) (keeps : self.Keeps reading contents) :
    ∃ rest, after.Keeps reading rest ∧ self.Retains after contents rest := by
  apply run.invariant fun state => ∃ rest, state.Keeps reading rest ∧ self.Retains state contents rest
  · exact ⟨contents, keeps, fun entry member => member, fun entry member inside => inside⟩
  · intro before event next ⟨middle, known, retained⟩ permitted change
    obtain ⟨rest, kept, further⟩ := known.change permitted change
    refine ⟨rest, kept, ?_, ?_⟩
    · exact fun entry member => further.stored entry (retained.stored entry member)
    · intro entry member inside
      exact retained.gone entry member
        (further.gone entry (retained.stored entry member) inside)

end Writer

end Alpamayo
