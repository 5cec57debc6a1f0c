import Alpamayo.General.Successive
import Alpamayo.Storage.Rocksdb

/-!
This file describes the writer's ring as a list of contiguous blocks and what the store does to it.
-/

namespace Alpamayo

/-- The slots of a list of cells follow each other. -/
structure Consecutive (contents : List StoredBlock) : Prop where
  present : ∀ block ∈ contents, block.present = true
  slots : contents.IsChain fun low high => high.slot = low.slot + 1

/-- The heights of the live cells follow each other too. -/
structure Contiguous (contents : List StoredBlock) : Prop extends Consecutive contents where
  heighted : ∀ block ∈ contents, block.isLive = true → block.blockHeight.isSome = true
  heights : (contents.filter StoredBlock.isLive).IsChain fun low high =>
    ∃ height, low.blockHeight = some height ∧ high.blockHeight = some (height + 1)

/-- The block can follow the contents. -/
structure Extends (contents : List StoredBlock) (block : StoredBlock) : Prop where
  present : block.present = true
  heighted : block.isLive = true → block.blockHeight.isSome = true
  slot : ∀ last ∈ contents.getLast?, block.slot = last.slot + 1
  height : block.isLive = true → ∀ last ∈ (contents.filter StoredBlock.isLive).getLast?,
    ∃ height, last.blockHeight = some height ∧ block.blockHeight = some (height + 1)

/-- The block can come before the contents. -/
structure Precedes (block : StoredBlock) (contents : List StoredBlock) : Prop where
  present : block.present = true
  heighted : block.isLive = true → block.blockHeight.isSome = true
  slot : ∀ first ∈ contents.head?, first.slot = block.slot + 1
  height : block.isLive = true → ∀ first ∈ (contents.filter StoredBlock.isLive).head?,
    ∃ height, block.blockHeight = some height ∧ first.blockHeight = some (height + 1)

variable {contents rest : List StoredBlock} {block : StoredBlock}

/-- The slot of a block is its distance from the first slot. -/
theorem Consecutive.slot_getElem (consecutive : Consecutive contents) {index : Nat}
    (inside : index < contents.length) :
    contents[index].slot = contents[0].slot + index :=
  Successive.getElem_eq_add consecutive.slots inside

/-- Later cells have higher slots. -/
theorem Consecutive.head_lt (consecutive : Consecutive (block :: rest)) {other : StoredBlock}
    (member : other ∈ rest) : block.slot < other.slot := by
  obtain ⟨index, inside, rfl⟩ := List.getElem_of_mem member
  have above := consecutive.slot_getElem (show index + 1 < (block :: rest).length by simpa using inside)
  simp only [List.getElem_cons_succ, List.getElem_cons_zero] at above
  omega

/-- The earlier cells have lower slots. -/
theorem Consecutive.lt_last (consecutive : Consecutive (rest ++ [block])) {other : StoredBlock}
    (member : other ∈ rest) : other.slot < block.slot := by
  obtain ⟨index, inside, rfl⟩ := List.getElem_of_mem member
  have low := consecutive.slot_getElem (show index < (rest ++ [block]).length by
    rw [List.length_append]
    omega)
  have high := consecutive.slot_getElem (show rest.length < (rest ++ [block]).length by simp)
  rw [List.getElem_append_left inside] at low
  rw [List.getElem_concat_length rfl] at high
  omega

/-- The slot after the last one is above all slots. -/
theorem Consecutive.lt_next (consecutive : Consecutive contents) {slot : Nat}
    (next : ∀ last ∈ contents.getLast?, slot = last.slot + 1) {other : StoredBlock}
    (member : other ∈ contents) : other.slot < slot := by
  rcases contents.eq_nil_or_concat with rfl | ⟨rest, last, rfl⟩
  · cases member
  · rw [List.concat_eq_append] at consecutive next member
    have follows := next last (by simp)
    rcases List.mem_append.mp member with earlier | here
    · have lower := consecutive.lt_last earlier
      omega
    · rw [List.mem_singleton.mp here]
      omega

/-- The previous slot is lower than all the others. -/
theorem Consecutive.next_lt (consecutive : Consecutive contents) {slot : Nat}
    (next : ∀ first ∈ contents.head?, first.slot = slot + 1) {other : StoredBlock}
    (member : other ∈ contents) : slot < other.slot := by
  cases contents with
  | nil => cases member
  | cons first rest =>
      have follows := next first rfl
      rcases List.mem_cons.mp member with rfl | later
      · omega
      · have above := consecutive.head_lt later
        omega

/-- A part of the contents is consecutive. -/
theorem Consecutive.part (consecutive : Consecutive contents) (part : rest <:+: contents) :
    Consecutive rest where
  present := fun block member => consecutive.present block (part.subset member)
  slots := List.IsChain.infix consecutive.slots part

/-- A block with the next slot can follow the contents. -/
theorem Consecutive.append (consecutive : Consecutive contents) (present : block.present = true)
    (slot : ∀ last ∈ contents.getLast?, block.slot = last.slot + 1) :
    Consecutive (contents ++ [block]) := by
  constructor
  · intro other member
    rcases List.mem_append.mp member with member | member
    · exact consecutive.present other member
    · rw [List.mem_singleton.mp member]
      exact present
  · rw [List.isChain_append]
    refine ⟨consecutive.slots, List.isChain_singleton _, ?_⟩
    rintro last isLast _ ⟨⟩
    exact slot last isLast

/-- A block with the slot before can come before the contents. -/
theorem Consecutive.cons (consecutive : Consecutive contents) (present : block.present = true)
    (slot : ∀ first ∈ contents.head?, first.slot = block.slot + 1) :
    Consecutive (block :: contents) := by
  constructor
  · intro other member
    rcases List.mem_cons.mp member with rfl | member
    · exact present
    · exact consecutive.present other member
  · rw [List.isChain_cons]
    exact ⟨slot, consecutive.slots⟩

/-- A part of the contents is contiguous. -/
theorem Contiguous.part (contiguous : Contiguous contents) (part : rest <:+: contents) :
    Contiguous rest where
  toConsecutive := contiguous.toConsecutive.part part
  heighted := fun block member => contiguous.heighted block (part.subset member)
  heights := List.IsChain.infix contiguous.heights (part.filter _)

/-- An extension keeps the contents contiguous. -/
theorem Contiguous.append (contiguous : Contiguous contents) (follows : Extends contents block) :
    Contiguous (contents ++ [block]) where
  toConsecutive := contiguous.toConsecutive.append follows.present follows.slot
  heighted := by
    intro other member
    rcases List.mem_append.mp member with member | member
    · exact contiguous.heighted other member
    · rw [List.mem_singleton.mp member]
      exact follows.heighted
  heights := by
    rw [List.filter_append, List.isChain_append]
    by_cases live : block.isLive = true
    · rw [List.filter_cons_of_pos live, List.filter_nil]
      refine ⟨contiguous.heights, List.isChain_singleton _, ?_⟩
      rintro last isLast _ ⟨⟩
      exact follows.height live last isLast
    · rw [List.filter_cons_of_neg live, List.filter_nil]
      exact ⟨contiguous.heights, List.isChain_nil, by simp⟩

/-- A block in front of its contents keeps them contiguous. -/
theorem Contiguous.cons (contiguous : Contiguous contents) (before : Precedes block contents) :
    Contiguous (block :: contents) where
  toConsecutive := contiguous.toConsecutive.cons before.present before.slot
  heighted := by
    intro other member
    rcases List.mem_cons.mp member with rfl | member
    · exact before.heighted
    · exact contiguous.heighted other member
  heights := by
    by_cases live : block.isLive = true
    · rw [List.filter_cons_of_pos live, List.isChain_cons]
      exact ⟨before.height live, contiguous.heights⟩
    · rw [List.filter_cons_of_neg live]
      exact contiguous.heights

/-- The last value of a nonempty suffix is the last value of the list. -/
theorem mem_getLast?_of_suffix {A : Type} {part whole : List A} {last : A} (suffix : part <:+ whole)
    (isLast : last ∈ part.getLast?) : last ∈ whole.getLast? := by
  obtain ⟨initial, rfl⟩ := suffix
  rw [List.getLast?_append]
  rw [Option.mem_def.mp isLast]
  rfl

/-- A block that extends the contents extends what an eviction leaves of them. -/
theorem Extends.suffix (follows : Extends contents block) (suffix : rest <:+ contents) :
    Extends rest block where
  present := follows.present
  heighted := follows.heighted
  slot := fun last isLast => follows.slot last (mem_getLast?_of_suffix suffix isLast)
  height := fun live last isLast =>
    follows.height live last (mem_getLast?_of_suffix (suffix.filter _) isLast)

section free

variable {ring : CellRing StoredBlock}

/-- The cell after the head is free when the ring has room. -/
theorem Consecutive.frontFree_iff (consecutive : Consecutive contents)
    (represents : CellRing.Represents StoredBlock.newNoexists ring contents) :
    (ring.cells (ring.next ring.head)).present = false ↔ contents.length < ring.size := by
  have fits := represents.fits
  have positive := ring.size_pos
  rw [represents.nextCell]
  split
  · rename_i full
    rw [List.getD_eq_getElem _ _ (by omega), consecutive.present _ (List.getElem_mem (by omega))]
    simp [full]
  · simp only [StoredBlock.newNoexists_present, true_iff]
    omega

/-- The cell before the tail is free when the ring has room. -/
theorem Consecutive.backFree_iff (consecutive : Consecutive contents)
    (represents : CellRing.Represents StoredBlock.newNoexists ring contents) :
    (ring.cells (ring.prev ring.tail)).present = false ↔ contents.length < ring.size := by
  have fits := represents.fits
  have positive := ring.size_pos
  have last : ring.prev ring.tail = ring.offset (ring.size - 1) := by
    rw [← ring.offset_size]
    conv_lhs => rw [show ring.size = ring.size - 1 + 1 by omega]
    exact ring.prev_offset (by omega)
  rw [last, represents.cell _ (by omega)]
  by_cases full : contents.length = ring.size
  · rw [List.getD_eq_getElem _ _ (by omega), consecutive.present _ (List.getElem_mem (by omega))]
    simp [full]
  · rw [List.getD_eq_default _ _ (by omega)]
    simp only [StoredBlock.newNoexists_present, true_iff]
    omega

end free

namespace StoredBlocksWrite

variable {self : StoredBlocksWrite}

/-- The ring of the writer has contents with consecutive slots. -/
structure Spans (ring : StoredBlocksWrite) (contents : List StoredBlock) : Prop where
  represents : CellRing.Represents StoredBlock.newNoexists ring.blocks contents
  consecutive : Consecutive contents

/-- The ring of the writer holds contiguous contents. -/
structure Holds (ring : StoredBlocksWrite) (contents : List StoredBlock) : Prop where
  represents : CellRing.Represents StoredBlock.newNoexists ring.blocks contents
  contiguous : Contiguous contents

/-- Contiguous contents have consecutive slots. -/
theorem Holds.spans (holds : self.Holds contents) : self.Spans contents :=
  ⟨holds.represents, holds.contiguous.toConsecutive⟩

/-- The search from the back finds the first matching block. -/
theorem Spans.getBack (spans : self.Spans contents) (filter : StoredBlock → Bool) :
    self.getBack filter = contents.find? filter := by
  have tailCell := spans.represents.tailCell
  have headCell := spans.represents.headCell
  simp only [StoredBlocksWrite.getBack]
  cases contents with
  | nil => rw [if_neg (by simp [tailCell])]; rfl
  | cons first rest =>
      have firstPresent : first.present = true := spans.consecutive.present first (by simp)
      have lastPresent : ((first :: rest).getLastD .newNoexists).present = true := by
        rw [List.getLastD_cons]
        exact spans.consecutive.present _ (List.getLastD_mem_cons)
      rw [if_pos (by rw [tailCell, headCell, lastPresent]; simpa using firstPresent)]
      exact spans.represents.walkUp_tail filter (by simp)

/-- The back slot is the slot of the first block. -/
theorem Spans.getBackSlot (spans : self.Spans contents) :
    self.getBackSlot = contents.head?.map StoredBlock.slot := by
  rw [StoredBlocksWrite.getBackSlot, spans.getBack]
  cases contents with
  | nil => rfl
  | cons first rest =>
      have firstPresent : first.present = true := spans.consecutive.present first (by simp)
      rw [List.find?_cons_of_pos firstPresent]
      rfl

/-- The front slot is the slot of the last block. -/
theorem Spans.getFrontSlot (spans : self.Spans contents) :
    self.getFrontSlot = contents.getLast?.map StoredBlock.slot := by
  simp only [StoredBlocksWrite.getFrontSlot, spans.represents.headCell]
  rcases contents.eq_nil_or_concat with rfl | ⟨initial, last, rfl⟩
  · rfl
  · have lastPresent : last.present = true := spans.consecutive.present last (by simp)
    simp [lastPresent]

/-- A live block of contiguous contents has a height. -/
theorem heightOf_of_live {found : Option StoredBlock}
    (heighted : ∀ block ∈ found, block.blockHeight.isSome = true) :
    heightOf found = .ok (found.bind fun block =>
      block.blockHeight.map fun height => (block.slot, height)) := by
  cases found with
  | none => rfl
  | some block =>
      obtain ⟨height, known⟩ := Option.isSome_iff_exists.mp (heighted block rfl)
      simp [heightOf, known]

/-- The back height is the one of the first live block. -/
theorem Spans.getBackHeight (spans : self.Spans contents)
    (heighted : ∀ block ∈ contents, block.isLive = true → block.blockHeight.isSome = true) :
    self.getBackHeight = .ok ((contents.filter StoredBlock.isLive).head?.bind fun block =>
      block.blockHeight.map fun height => (block.slot, height)) := by
  rw [StoredBlocksWrite.getBackHeight, spans.getBack, List.head?_filter]
  apply heightOf_of_live
  intro block found
  exact heighted block (List.mem_of_find?_eq_some found) (List.find?_some found)

theorem Holds.getBackHeight (holds : self.Holds contents) :
    self.getBackHeight = .ok ((contents.filter StoredBlock.isLive).head?.bind fun block =>
      block.blockHeight.map fun height => (block.slot, height)) :=
  holds.spans.getBackHeight holds.contiguous.heighted

/-- The front height is the one of the last live block. -/
theorem Spans.getFrontHeight (spans : self.Spans contents)
    (heighted : ∀ block ∈ contents, block.isLive = true → block.blockHeight.isSome = true) :
    self.getFrontHeight = .ok ((contents.filter StoredBlock.isLive).getLast?.bind fun block =>
      block.blockHeight.map fun height => (block.slot, height)) := by
  have reversed : (contents.filter StoredBlock.isLive).getLast? =
      contents.reverse.find? StoredBlock.isLive := by
    rw [← List.head?_reverse, ← List.filter_reverse, List.head?_filter]
  rw [StoredBlocksWrite.getFrontHeight, spans.represents.walkDown_head _ (by rfl), reversed]
  apply heightOf_of_live
  intro block found
  exact heighted block (List.mem_reverse.mp (List.mem_of_find?_eq_some found))
    (List.find?_some found)

theorem Holds.getFrontHeight (holds : self.Holds contents) :
    self.getFrontHeight = .ok ((contents.filter StoredBlock.isLive).getLast?.bind fun block =>
      block.blockHeight.map fun height => (block.slot, height)) :=
  holds.spans.getFrontHeight holds.contiguous.heighted

/-- The ring is full when it has as many blocks as cells. -/
theorem Spans.isFull_iff (spans : self.Spans contents) :
    self.isFull = true ↔ contents.length = self.blocks.size := by
  rw [StoredBlocksWrite.isFull, spans.represents.nextCell]
  constructor
  · intro next
    by_contra different
    rw [if_neg different] at next
    cases next
  · intro full
    rw [if_pos full]
    cases contents with
    | nil =>
        have positive := self.blocks.size_pos
        simp at full
        omega
    | cons first rest => simpa using spans.consecutive.present first (by simp)

/-- The cell after the head is free when the ring has room. -/
theorem Spans.frontFree_iff (spans : self.Spans contents) :
    (self.blocks.cells (self.blocks.next self.blocks.head)).present = false ↔
      contents.length < self.blocks.size :=
  spans.consecutive.frontFree_iff spans.represents

/-- The cell before the tail is free when the ring has room. -/
theorem Spans.backFree_iff (spans : self.Spans contents) :
    (self.blocks.cells (self.blocks.prev self.blocks.tail)).present = false ↔
      contents.length < self.blocks.size :=
  spans.consecutive.backFree_iff spans.represents

@[simp] theorem updateTotal_blocks (side : VecSide) :
    (self.updateTotal side).blocks = self.blocks := by
  unfold updateTotal
  split <;> rfl

@[simp] theorem updateTotal_sent (side : VecSide) : (self.updateTotal side).sent = self.sent := by
  unfold updateTotal
  split <;> rfl

@[simp] theorem pushBlockFront2_size (cell : StoredBlock) :
    (self.pushBlockFront2 cell).2.blocks.size = self.blocks.size := by
  simp only [StoredBlocksWrite.pushBlockFront2]
  split <;> simp [CellRing.pushFront]

@[simp] theorem pushBlockBack2_size (cell : StoredBlock) :
    (self.pushBlockBack2 cell).2.blocks.size = self.blocks.size := by
  simp only [StoredBlocksWrite.pushBlockBack2]
  split <;> simp [CellRing.pushBack]

@[simp] theorem send_blocks (message : ReadWriteSyncMessage) :
    (self.send message).blocks = self.blocks := rfl

/-- A ring with room takes the block after its contents. -/
theorem Holds.pushBlockFront2 (holds : self.Holds contents)
    (room : contents.length < self.blocks.size) (follows : Extends contents block) :
    (self.pushBlockFront2 block).1 = .ok () ∧
      (self.pushBlockFront2 block).2.Holds (contents ++ [block]) := by
  have free := holds.spans.frontFree_iff.mpr room
  simp only [StoredBlocksWrite.pushBlockFront2, free, Bool.false_eq_true, if_false]
  refine ⟨trivial, ?_, holds.contiguous.append follows⟩
  rw [updateTotal_blocks]
  exact holds.represents.pushFront room

/-- A ring with room takes the block before its contents. -/
theorem Holds.pushBlockBack2 (holds : self.Holds contents)
    (room : contents.length < self.blocks.size) (before : Precedes block contents) :
    (self.pushBlockBack2 block).1 = .ok () ∧
      (self.pushBlockBack2 block).2.Holds (block :: contents) := by
  have free := holds.spans.backFree_iff.mpr room
  simp only [StoredBlocksWrite.pushBlockBack2, free, Bool.false_eq_true, if_false]
  refine ⟨trivial, ?_, holds.contiguous.cons before⟩
  rw [updateTotal_blocks]
  exact holds.represents.pushBack room

/-- The removal at the back takes the first block and publishes the slot of the next one. -/
theorem Spans.popBlockBack {after : StoredBlocksWrite} (spans : self.Spans contents)
    (popped : self.popBlockBack = some (block, after)) :
    ∃ rest, contents = block :: rest ∧ after.Spans rest ∧
      after.blocks = self.blocks.popBack StoredBlock.newNoexists ∧ after.sent = self.sent ∧
      after.firstAvailable = firstAvailableOf (rest.head?.map StoredBlock.slot) := by
  have tailCell := spans.represents.tailCell
  simp only [StoredBlocksWrite.popBlockBack] at popped
  split at popped
  · rename_i present
    cases popped
    cases contents with
    | nil =>
        rw [tailCell] at present
        cases present
    | cons first rest =>
        have kept : StoredBlocksWrite.Spans
            { self with blocks := self.blocks.popBack StoredBlock.newNoexists } rest :=
          ⟨spans.represents.popBack, spans.consecutive.part (List.suffix_cons first rest).isInfix⟩
        refine ⟨rest, by rw [tailCell]; rfl, ⟨kept.represents, kept.consecutive⟩, rfl, rfl, ?_⟩
        exact congrArg firstAvailableOf kept.getBackSlot
  · cases popped

/-- The removal at the front takes the last block. -/
theorem Spans.popBlockFront {after : StoredBlocksWrite} (spans : self.Spans contents)
    (popped : self.popBlockFront = some (block, after)) :
    ∃ rest, contents = rest ++ [block] ∧ after.Spans rest ∧
      after.blocks = self.blocks.popFront StoredBlock.newNoexists ∧ after.sent = self.sent ∧
      after.firstAvailable = self.firstAvailable := by
  have headCell := spans.represents.headCell
  simp only [StoredBlocksWrite.popBlockFront] at popped
  split at popped
  · rename_i present
    cases popped
    rcases contents.eq_nil_or_concat with rfl | ⟨rest, last, rfl⟩
    · rw [headCell] at present
      cases present
    · have represents := spans.represents
      rw [List.concat_eq_append] at headCell represents
      refine ⟨rest, by rw [headCell]; simp, ⟨represents.popFront, ?_⟩, rfl, rfl, rfl⟩
      exact spans.consecutive.part ⟨[], [last], by simp⟩
  · cases popped

/-- Only an empty ring has nothing to remove at the back. -/
theorem Spans.popBlockBack_eq_none (spans : self.Spans contents)
    (missing : self.popBlockBack = none) : contents = [] := by
  have tailCell := spans.represents.tailCell
  cases contents with
  | nil => rfl
  | cons first rest =>
      have read : self.blocks.cells self.blocks.tail = first := tailCell
      simp [StoredBlocksWrite.popBlockBack, read, spans.consecutive.present first] at missing

/-- Only an empty ring has nothing to remove at the front. -/
theorem Spans.popBlockFront_eq_none (spans : self.Spans contents)
    (missing : self.popBlockFront = none) : contents = [] := by
  have headCell := spans.represents.headCell
  rcases contents.eq_nil_or_concat with rfl | ⟨rest, last, rfl⟩
  · rfl
  · have read : self.blocks.cells self.blocks.head = last := by simpa using headCell
    simp [StoredBlocksWrite.popBlockFront, read, spans.consecutive.present last] at missing

/-- The removal at the back keeps the rest of the contents. -/
theorem Holds.popBlockBack (holds : self.Holds contents) :
    (contents = [] ∧ self.popBlockBack = none) ∨
    ∃ first rest after, contents = first :: rest ∧ self.popBlockBack = some (first, after) ∧
      after.Holds rest ∧ after.blocks.size = self.blocks.size := by
  cases popped : self.popBlockBack with
  | none => exact Or.inl ⟨holds.spans.popBlockBack_eq_none popped, rfl⟩
  | some found =>
      obtain ⟨rest, rfl, kept, blocks, -, -⟩ := holds.spans.popBlockBack popped
      refine Or.inr ⟨found.1, rest, found.2, rfl, rfl, ⟨kept.represents, ?_⟩, by rw [blocks]; rfl⟩
      exact holds.contiguous.part (List.suffix_cons found.1 rest).isInfix

/-- The removal at the front keeps the rest of the contents. -/
theorem Holds.popBlockFront (holds : self.Holds contents) :
    (contents = [] ∧ self.popBlockFront = none) ∨
    ∃ rest last after, contents = rest ++ [last] ∧ self.popBlockFront = some (last, after) ∧
      after.Holds rest ∧ after.blocks.size = self.blocks.size := by
  cases popped : self.popBlockFront with
  | none => exact Or.inl ⟨holds.spans.popBlockFront_eq_none popped, rfl⟩
  | some found =>
      obtain ⟨rest, rfl, kept, blocks, -, -⟩ := holds.spans.popBlockFront popped
      refine Or.inr ⟨rest, found.1, found.2, rfl, rfl, ⟨kept.represents, ?_⟩, by rw [blocks]; rfl⟩
      exact holds.contiguous.part ⟨[], [found.1], by simp⟩

end StoredBlocksWrite

/-- A successor in range is the next number. -/
theorem addOne_eq_ok {value next : Nat} (known : addOne value = .ok next) : next = value + 1 := by
  unfold addOne at known
  split at known
  · cases known
    rfl
  · cases known

/-- A predecessor in range is the number before. -/
theorem subOne_eq_ok {value next : Nat} (known : subOne value = .ok next) : value = next + 1 := by
  unfold subOne at known
  split at known
  · cases known
    omega
  · cases known

/-- A computation with a result has a result in its first step. -/
theorem bind_eq_ok {A B : Type} {first : Except StorageError A} {next : A → Except StorageError B}
    {result : B} (known : first >>= next = .ok result) :
    ∃ value, first = .ok value ∧ next value = .ok result := by
  cases first with
  | error error => cases known
  | ok value => exact ⟨value, rfl, known⟩

section checks

variable {self : StoredBlocksWrite} {slot : Nat} {added : Option BlockWithBinary}

/-- An accepted slot follows the last block. -/
theorem StoredBlocksWrite.Spans.checkFrontSlot (spans : self.Spans contents)
    (accepted : checkFrontSlot self slot = .ok ()) :
    ∀ last ∈ contents.getLast?, slot = last.slot + 1 := by
  intro last isLast
  rw [Alpamayo.checkFrontSlot, spans.getFrontSlot, Option.mem_def.mp isLast] at accepted
  obtain ⟨next, known, same⟩ := bind_eq_ok accepted
  split at same
  · rw [← addOne_eq_ok known]
    exact Eq.symm ‹next = slot›
  · cases same

/-- An accepted height follows the last live block. -/
theorem StoredBlocksWrite.Holds.checkFrontHeight {block : BlockWithBinary}
    (holds : self.Holds contents)
    (accepted : checkFrontHeight self slot (some block) = .ok ()) :
    ∀ last ∈ (contents.filter StoredBlock.isLive).getLast?,
      ∃ height, last.blockHeight = some height ∧ block.blockHeight = some (height + 1) := by
  intro last isLast
  have member := List.mem_filter.mp (List.mem_of_getLast? isLast)
  obtain ⟨height, known⟩ :=
    Option.isSome_iff_exists.mp (holds.contiguous.heighted last member.1 member.2)
  refine ⟨height, known, ?_⟩
  rw [Alpamayo.checkFrontHeight, holds.getFrontHeight, Option.mem_def.mp isLast] at accepted
  obtain ⟨found, isFound, accepted⟩ := bind_eq_ok accepted
  rw [Option.bind_some, known, Option.map_some] at isFound
  cases isFound
  dsimp only at accepted
  cases blockHeight : block.blockHeight with
  | none =>
      rw [blockHeight] at accepted
      cases accepted
  | some blockHeight' =>
      rw [blockHeight] at accepted
      obtain ⟨next, successor, same⟩ := bind_eq_ok accepted
      split at same
      · rw [← addOne_eq_ok successor, ‹next = blockHeight'›]
      · cases same

/-- An accepted slot comes before the first block. -/
theorem StoredBlocksWrite.Spans.checkBackSlot (spans : self.Spans contents)
    (accepted : checkBackSlot self slot = .ok ()) :
    ∀ first ∈ contents.head?, first.slot = slot + 1 := by
  intro first isFirst
  rw [Alpamayo.checkBackSlot, spans.getBackSlot, Option.mem_def.mp isFirst] at accepted
  obtain ⟨next, known, same⟩ := bind_eq_ok accepted
  split at same
  · rw [← ‹next = slot›]
    exact subOne_eq_ok known
  · cases same

/-- An accepted height comes before the first live block. -/
theorem StoredBlocksWrite.Holds.checkBackHeight {block : BlockWithBinary}
    (holds : self.Holds contents)
    (accepted : checkBackHeight self slot (some block) = .ok ()) :
    ∀ first ∈ (contents.filter StoredBlock.isLive).head?,
      ∃ height, block.blockHeight = some height ∧ first.blockHeight = some (height + 1) := by
  intro first isFirst
  have member := List.mem_filter.mp (List.mem_of_head? isFirst)
  obtain ⟨height, known⟩ :=
    Option.isSome_iff_exists.mp (holds.contiguous.heighted first member.1 member.2)
  rw [Alpamayo.checkBackHeight, holds.getBackHeight, Option.mem_def.mp isFirst] at accepted
  obtain ⟨found, isFound, accepted⟩ := bind_eq_ok accepted
  rw [Option.bind_some, known, Option.map_some] at isFound
  cases isFound
  dsimp only at accepted
  cases blockHeight : block.blockHeight with
  | none =>
      rw [blockHeight] at accepted
      cases accepted
  | some blockHeight' =>
      rw [blockHeight] at accepted
      obtain ⟨next, successor, same⟩ := bind_eq_ok accepted
      split at same
      · exact ⟨blockHeight', rfl, by rw [known, ← ‹next = height›, addOne_eq_ok successor]⟩
      · cases same

end checks

/-- The errors of a push into a ring without a free cell. -/
def StorageError.NoFreeSlot (error : StorageError) : Prop :=
  error = .noFreeSlotBack ∨ error = .noFreeSlotFront

/-- The errors of the ring and of the checks before a push. -/
def StorageError.Outer : StorageError → Prop
  | noFreeSlotBack | noFreeSlotFront => True
  | pushBackInvalidSlot _ _ | pushBackInvalidHeight _ _ _ _ => True
  | pushFrontInvalidSlot _ _ | pushFrontInvalidHeight _ _ _ _ => True
  | _ => False

/-- The result is not an error of this kind. -/
def Avoids {A : Type} (bad : StorageError → Prop) (result : Except StorageError A) : Prop :=
  ∀ error, result = .error error → ¬ bad error

/-- The result is not the report of a missing cell of the ring. -/
abbrev FindsCell {A : Type} (result : Except StorageError A) : Prop :=
  Avoids StorageError.NoFreeSlot result

section avoids

variable {A B : Type} {bad worse : StorageError → Prop}

@[simp] theorem avoids_ok (value : A) : Avoids bad (.ok value : Except StorageError A) := by
  intro error failed
  cases failed

@[simp] theorem avoids_error {error : StorageError} :
    Avoids bad (.error error : Except StorageError A) ↔ ¬ bad error := by
  constructor
  · intro avoids
    exact avoids error rfl
  · rintro other _ ⟨⟩
    exact other

/-- Two steps that avoid an error avoid it together. -/
theorem Avoids.bind {first : Except StorageError A} {next : A → Except StorageError B}
    (before : Avoids bad first) (after : ∀ value, Avoids bad (next value)) :
    Avoids bad (first >>= next) := by
  cases first with
  | error error => exact fun other failed => before other (by cases failed; rfl)
  | ok value => exact after value

theorem Avoids.mono {result : Except StorageError A} (avoids : Avoids bad result)
    (implies : ∀ error, worse error → bad error) : Avoids worse result :=
  fun error failed isWorse => avoids error failed (implies error isWorse)

/-- A result without the outer errors finds its cell. -/
theorem Avoids.findsCell {result : Except StorageError A}
    (avoids : Avoids StorageError.Outer result) : FindsCell result := by
  refine avoids.mono ?_
  rintro error (rfl | rfl) <;> trivial

end avoids

/-- The errors of a write to a file and of the search for it. -/
def StorageError.OfFiles : StorageError → Prop
  | notEnoughSpace | headOverflow _ _ => True
  | panicked reason => reason = "index out of bounds" ∨
      reason = "attempt to calculate the remainder with a divisor of zero"
  | _ => False

/-- A result with no other errors than those of the files. -/
abbrev FailsInFiles {A : Type} (result : Except StorageError A) : Prop :=
  Avoids (fun error => ¬ error.OfFiles) result

/-- The errors of the files are not outer errors. -/
theorem FailsInFiles.avoids {A : Type} {result : Except StorageError A}
    (fails : FailsInFiles result) : Avoids StorageError.Outer result := by
  refine fails.mono fun error outer inFiles => ?_
  cases error <;> first | exact outer | exact inFiles

namespace StorageFile

variable {self : StorageFile} {disk : Disk} {buffer : Bytes}

theorem popBlock_avoids (side : VecSide) : Avoids StorageError.Outer (self.popBlock block side).1 := by
  cases side <;>
    simp only [popBlock] <;>
    split
  any_goals simp [StorageError.Outer]
  all_goals split <;> simp [StorageError.Outer]

theorem writeBack_fails : FailsInFiles (self.writeBack disk buffer).1 := by
  simp only [writeBack]
  split <;> simp [StorageError.OfFiles]

theorem writeFront_fails : FailsInFiles (self.writeFront disk buffer).1 := by
  simp only [writeFront]
  split
  · simp [StorageError.OfFiles]
  · split <;> simp [StorageError.OfFiles]

end StorageFile

namespace StorageFilesWrite

variable {self : StorageFilesWrite}

theorem popBlock_avoids (side : VecSide) : Avoids StorageError.Outer (self.popBlock block side).1 := by
  unfold popBlock
  split
  · simp [StorageError.Outer]
  · split
    · simp [StorageError.Outer]
    · exact StorageFile.popBlock_avoids side

theorem fileIndexLoop_fails (files : List StorageFile) (size currentIndex fuel index : Nat) :
    FailsInFiles (fileIndexLoop files size currentIndex fuel index).1 := by
  induction fuel generalizing index with
  | zero => simp [fileIndexLoop]
  | succ fuel ih =>
      simp only [fileIndexLoop]
      split
      · simp [StorageError.OfFiles]
      · split
        · simp
        · split
          · simp
          · exact ih _

theorem getFileIndexForNewBlock_fails (size : Nat) :
    FailsInFiles (self.getFileIndexForNewBlock size).1 := by
  unfold getFileIndexForNewBlock
  split
  · simp [StorageError.OfFiles]
  · exact fileIndexLoop_fails _ _ _ _ _

/-- A push reports no other errors than those of the files. -/
theorem pushBlock_fails (disk : Disk) (buffer : Bytes) (side : VecSide) :
    FailsInFiles (self.pushBlock disk buffer side).1 := by
  have search := self.getFileIndexForNewBlock_fails (List.length buffer)
  unfold pushBlock
  split
  · rename_i missing
    rw [missing] at search
    simpa using search
  · simp
  · split
    · simp [StorageError.OfFiles]
    · rename_i file _
      have written : FailsInFiles (file.writeSide disk buffer side).1 := by
        cases side
        · exact StorageFile.writeBack_fails
        · exact StorageFile.writeFront_fails
      dsimp only
      split
      · rename_i failed
        simpa using written _ failed
      · simp

end StorageFilesWrite

/-- The database never reports an outer error. -/
theorem Rocksdb.spawnRemoveSlot_avoids {self : Rocksdb} (slot : Nat) (dead : Bool) :
    Avoids StorageError.Outer (self.spawnRemoveSlot slot dead) := by
  simp only [Rocksdb.spawnRemoveSlot]
  split
  · simp
  · split <;> simp [StorageError.Outer]

theorem addOne_avoids (value : Nat) : Avoids StorageError.Outer (addOne value) := by
  unfold addOne
  split <;> simp [StorageError.Outer]

theorem subOne_avoids (value : Nat) : Avoids StorageError.Outer (subOne value) := by
  unfold subOne
  split <;> simp [StorageError.Outer]

theorem heightOf_avoids (found : Option StoredBlock) :
    Avoids StorageError.Outer (StoredBlocksWrite.heightOf found) := by
  unfold StoredBlocksWrite.heightOf
  split
  · simp
  · split <;> simp [StorageError.Outer]

section checks

variable (blocks : StoredBlocksWrite) (slot : Nat) (added : Option BlockWithBinary)

/-- The checks at the front never report a missing cell. -/
theorem checkFront_findsCell : FindsCell (checkFrontSlot blocks slot >>= fun _ =>
    checkFrontHeight blocks slot added) := by
  refine Avoids.bind ?_ fun _ => (heightOf_avoids _).findsCell.bind fun front => ?_
  · unfold checkFrontSlot
    split
    · simp
    · refine (addOne_avoids _).findsCell.bind fun next => ?_
      split <;> simp [StorageError.NoFreeSlot]
  · split
    · split
      · simp [StorageError.NoFreeSlot]
      · refine (addOne_avoids _).findsCell.bind fun next => ?_
        split <;> simp [StorageError.NoFreeSlot]
    · simp

/-- The checks at the back never report a missing cell. -/
theorem checkBack_findsCell : FindsCell (checkBackSlot blocks slot >>= fun _ =>
    checkBackHeight blocks slot added) := by
  refine Avoids.bind ?_ fun _ => (heightOf_avoids _).findsCell.bind fun back => ?_
  · unfold checkBackSlot
    split
    · simp
    · refine (subOne_avoids _).findsCell.bind fun next => ?_
      split <;> simp [StorageError.NoFreeSlot]
  · split
    · split
      · simp [StorageError.NoFreeSlot]
      · refine (addOne_avoids _).findsCell.bind fun next => ?_
        split <;> simp [StorageError.NoFreeSlot]
    · simp

end checks

namespace Store

variable {self : Store} {slot turn : Nat}

/-- A removal never reports an outer error. -/
theorem popBlock_avoids (self : Store) (side : VecSide) :
    Avoids StorageError.Outer (self.popBlock side).1 := by
  unfold popBlock
  split
  · simp [StorageError.Outer]
  · rename_i block _ _
    have removal := self.db.spawnRemoveSlot_avoids block.slot block.dead
    dsimp only
    split
    · rename_i failed
      rw [failed] at removal
      simpa using removal
    · split
      · simp
      · cases side with
        | back => exact StorageFilesWrite.popBlock_avoids .back
        | front => exact StorageFilesWrite.popBlock_avoids .front

/-- The removal leaves the ring as the ring operation leaves it. -/
theorem popBlock_ring (side : VecSide) {after : StoredBlocksWrite}
    (popped : self.popRing side = some (block, after)) :
    (self.popBlock side).2.blocks.blocks = after.blocks := by
  unfold popBlock
  simp only [popped]
  split
  · rfl
  · split <;> rfl

/-- The removal at the back takes the first block from a nonempty ring. -/
theorem popBlockBack_holds (holds : self.blocks.Holds contents) :
    (contents = [] ∧ self.popBlockBack = (.error .noBlocksToRemove, self)) ∨
    ∃ first rest, contents = first :: rest ∧ self.popBlockBack.2.blocks.Holds rest ∧
      self.popBlockBack.2.blocks.blocks.size = self.blocks.blocks.size ∧
      FindsCell self.popBlockBack.1 := by
  rcases holds.popBlockBack with ⟨rfl, missing⟩ | ⟨first, rest, after, rfl, popped, kept, size⟩
  · refine Or.inl ⟨rfl, ?_⟩
    simp only [popBlockBack, popBlock, popRing, missing]
  · have ring := popBlock_ring .back popped
    refine Or.inr ⟨first, rest, rfl, ⟨?_, kept.contiguous⟩, ?_,
      (self.popBlock_avoids .back).findsCell⟩
    · rw [popBlockBack, ring]
      exact kept.represents
    · rw [popBlockBack, ring, size]

/-- The removal at the front takes the last block from a nonempty ring. -/
theorem popBlockFront_holds (holds : self.blocks.Holds contents) :
    (contents = [] ∧ self.popBlockFront = (.error .noBlocksToRemove, self)) ∨
    ∃ rest last, contents = rest ++ [last] ∧ self.popBlockFront.2.blocks.Holds rest ∧
      self.popBlockFront.2.blocks.blocks.size = self.blocks.blocks.size ∧
      FindsCell self.popBlockFront.1 := by
  rcases holds.popBlockFront with ⟨rfl, missing⟩ | ⟨rest, last, after, rfl, popped, kept, size⟩
  · refine Or.inl ⟨rfl, ?_⟩
    simp only [popBlockFront, popBlock, popRing, missing]
  · have ring := popBlock_ring .front popped
    refine Or.inr ⟨rest, last, rfl, ⟨?_, kept.contiguous⟩, ?_,
      (self.popBlock_avoids .front).findsCell⟩
    · rw [popBlockFront, ring]
      exact kept.represents
    · rw [popBlockFront, ring, size]

/-- The ring after an eviction holds a suffix of the contents before it. -/
structure Evicted (before after : Store) (contents rest : List StoredBlock) : Prop where
  suffix : rest <:+ contents
  holds : after.blocks.Holds rest
  size : after.blocks.blocks.size = before.blocks.blocks.size

theorem Evicted.refl (holds : self.blocks.Holds contents) : Evicted self self contents contents :=
  ⟨List.suffix_rfl, holds, rfl⟩

theorem Evicted.trans {middle after : Store} {part last : List StoredBlock}
    (first : Evicted self middle contents part) (second : Evicted middle after part last) :
    Evicted self after contents last :=
  ⟨second.suffix.trans first.suffix, second.holds, second.size.trans first.size⟩

/-- A removal at the back is an eviction, and a success removes a block. -/
theorem popBlockBack_evicted (holds : self.blocks.Holds contents) :
    ∃ rest, Evicted self self.popBlockBack.2 contents rest ∧
      (self.popBlockBack.1 = .ok () → rest.length < contents.length) ∧
      FindsCell self.popBlockBack.1 := by
  rcases popBlockBack_holds holds with ⟨rfl, failed⟩ | ⟨first, rest, rfl, kept, size, finds⟩
  · rw [failed]
    exact ⟨[], Evicted.refl holds, fun success => (by cases success),
      by simp [StorageError.NoFreeSlot]⟩
  · exact ⟨rest, ⟨List.suffix_cons first rest, kept, size⟩, fun _ => by simp, finds⟩

/-- The index records do not touch the ring. -/
theorem takeTurn_blocks (self : Store) (slot : Nat) (added : BlockWithBinary)
    (pending : Option Nat) : (self.takeTurn slot added pending).1.blocks = self.blocks := by
  rcases pending with _ | _ | turn <;> rfl

/-- The search for a place never reports an outer error. -/
theorem placeFront_avoids (slot : Nat) (added : BlockWithBinary) (fuel : Nat)
    (pending : Option Nat) :
    Avoids StorageError.Outer (self.placeFront slot added fuel pending).1 := by
  induction fuel generalizing self pending with
  | zero => simp [placeFront, StorageError.Outer]
  | succ fuel ih =>
      unfold placeFront
      generalize self.takeTurn slot added pending = turned
      obtain ⟨indexed, pending'⟩ := turned
      dsimp only
      have written : Avoids StorageError.Outer
          (indexed.files.pushBlockFront indexed.disk added.protobuf).1 :=
        (StorageFilesWrite.pushBlock_fails _ _ .front).avoids
      split
      · rename_i failed
        rw [failed] at written
        simpa using written
      · simp
      · rename_i files disk noRoom
        have removed := Store.popBlock_avoids { indexed with files, disk } .back
        split
        · rename_i popped
          rw [popBlockBack] at popped
          rw [popped] at removed
          simpa using removed
        · exact ih pending'

/-- The search for a place only evicts blocks. -/
theorem placeFront_evicted (slot : Nat) (added : BlockWithBinary) (holds : self.blocks.Holds contents)
    (fuel : Nat) (pending : Option Nat) :
    ∃ rest, Evicted self (self.placeFront slot added fuel pending).2 contents rest := by
  induction fuel generalizing self contents pending with
  | zero => exact ⟨contents, Evicted.refl holds⟩
  | succ fuel ih =>
      have ring := takeTurn_blocks self slot added pending
      unfold placeFront
      generalize self.takeTurn slot added pending = turned at ring ⊢
      obtain ⟨indexed, pending'⟩ := turned
      dsimp only at ring ⊢
      have same {after : Store} (unchanged : after.blocks = indexed.blocks) :
          Evicted self after contents contents := by
        rw [ring] at unchanged
        exact ⟨List.suffix_rfl, by rwa [unchanged], by rw [unchanged]⟩
      split
      · exact ⟨contents, same rfl⟩
      · refine ⟨contents, same ?_⟩
        split <;> rfl
      · rename_i files disk noRoom
        have start : Evicted self { indexed with files, disk } contents contents := same rfl
        obtain ⟨rest, evicted, -, -⟩ := popBlockBack_evicted start.holds
        split
        · rename_i error after popped
          rw [popped] at evicted
          exact ⟨rest, start.trans evicted⟩
        · rename_i after popped
          rw [popped] at evicted
          obtain ⟨last, later⟩ := ih evicted.holds pending'
          exact ⟨last, (start.trans evicted).trans later⟩

/-- What a push at the front leaves in the ring. -/
inductive PushedFront (slot : Nat) (contents : List StoredBlock) :
    Except StorageError Unit → List StoredBlock → Prop
  | stored (rest : List StoredBlock) (cell : StoredBlock) (suffix : rest <:+ contents)
      (place : cell.slot = slot) : PushedFront slot contents (.ok ()) (rest ++ [cell])
  | failed (error : StorageError) (rest : List StoredBlock) (suffix : rest <:+ contents)
      (other : ¬ error.NoFreeSlot) : PushedFront slot contents (.error error) rest

/-- A push at the front finds its cell. -/
theorem PushedFront.findsCell {result : Except StorageError Unit} {after : List StoredBlock}
    (pushed : PushedFront slot contents result after) : FindsCell result := by
  cases pushed with
  | stored => simp
  | failed error rest suffix other => simpa using other

/-- The result of a push at the front describes the ring that the push leaves. -/
def FrontResult (before : Store) (contents : List StoredBlock) (slot : Nat)
    (result : Except StorageError Unit × Store) : Prop :=
  ∃ after, result.2.blocks.Holds after ∧ PushedFront slot contents result.1 after ∧
    result.2.blocks.blocks.size = before.blocks.blocks.size

/-- An eviction without a result fails the push. -/
theorem Evicted.failed {A : Type} {after : Store} {error : StorageError}
    (evicted : Evicted self after contents rest)
    (finds : FindsCell (.error error : Except StorageError A)) :
    FrontResult self contents slot (.error error, after) :=
  ⟨rest, evicted.holds, .failed error rest evicted.suffix (by simpa using finds), evicted.size⟩

/-- The ring with room stores the cell of the new slot. -/
theorem Evicted.stored {before after : Store} {cell : StoredBlock}
    (evicted : Evicted before self contents rest) (room : rest.length < self.blocks.blocks.size)
    (follows : Extends contents cell)
    (ring : after.blocks = (self.blocks.pushBlockFront2 cell).2) :
    FrontResult before contents cell.slot ((self.blocks.pushBlockFront2 cell).1, after) := by
  obtain ⟨success, holds⟩ := evicted.holds.pushBlockFront2 room (follows.suffix evicted.suffix)
  refine ⟨rest ++ [cell], by rwa [ring], ?_, ?_⟩
  · rw [success]
    exact .stored rest cell evicted.suffix rfl
  · rw [ring, StoredBlocksWrite.pushBlockFront2_size, evicted.size]

/-- The cell of an accepted dead slot can follow the contents. -/
theorem extends_dead (next : ∀ last ∈ contents.getLast?, slot = last.slot + 1) :
    Extends contents (StoredBlock.newDead slot) :=
  ⟨rfl, fun live => (by cases live), next, fun live => (by cases live)⟩

/-- The first step of a push gives a full ring room for one cell. -/
theorem makeRoom_evicted (holds : self.blocks.Holds contents) :
    ∃ rest, Evicted self (if self.blocks.isFull then self.popBlockBack else (.ok (), self)).2
        contents rest ∧
      FindsCell (if self.blocks.isFull then self.popBlockBack else (.ok (), self)).1 ∧
      ((if self.blocks.isFull then self.popBlockBack else (.ok (), self)).1 = .ok () →
        rest.length < self.blocks.blocks.size) := by
  have fits := holds.represents.fits
  by_cases full : self.blocks.isFull = true
  · obtain ⟨rest, evicted, shorter, finds⟩ := popBlockBack_evicted holds
    rw [if_pos full]
    exact ⟨rest, evicted, finds, fun success => (shorter success).trans_le fits⟩
  · rw [if_neg full]
    refine ⟨contents, Evicted.refl holds, avoids_ok _, fun _ => ?_⟩
    rw [holds.spans.isFull_iff] at full
    omega

/-- A block goes after the contents once a file has room for it. -/
theorem pushFrontBlock_result {before : Store} {added : BlockWithBinary}
    (evicted : Evicted before self contents rest) (room : rest.length < self.blocks.blocks.size)
    (follows : ∀ storageId offset, Extends contents (StoredBlock.newConfirmed slot added.blockTime
      added.blockHeight storageId offset added.protobuf.length)) :
    FrontResult before contents slot (self.pushFrontBlock turn slot added) := by
  obtain ⟨last, later⟩ := placeFront_evicted slot added evicted.holds
    (self.blocks.blocks.size + 1) (some turn)
  have finds := (self.placeFront_avoids slot added (self.blocks.blocks.size + 1)
    (some turn)).findsCell
  unfold pushFrontBlock
  split
  · rename_i failed
    rw [failed] at later finds
    exact (evicted.trans later).failed finds
  · rename_i storageId offset after placed
    rw [placed] at later
    refine (evicted.trans later).stored ?_ (follows storageId offset) rfl
    rw [later.size]
    exact later.suffix.length_le.trans_lt room

/-- A push at the front evicts blocks and stores one cell, or it fails. -/
theorem pushBlockFront_result (turn slot : Nat) {added : Option BlockWithBinary}
    (holds : self.blocks.Holds contents)
    (heighted : ∀ block ∈ added, block.blockHeight.isSome = true) :
    FrontResult self contents slot (self.pushBlockFront turn slot added) := by
  have checked := checkFront_findsCell self.blocks slot added
  obtain ⟨rest, evicted, finds, room⟩ := makeRoom_evicted holds
  unfold pushBlockFront
  split
  · rename_i rejected
    rw [rejected] at checked
    exact (Evicted.refl holds).failed checked
  · rename_i accepted
    obtain ⟨_, slotAccepted, heightAccepted⟩ := bind_eq_ok accepted
    have next := holds.spans.checkFrontSlot slotAccepted
    split
    · rename_i failed
      rw [failed] at evicted finds
      exact evicted.failed finds
    · rename_i after made
      rw [made] at evicted room
      have room' : rest.length < after.blocks.blocks.size := by
        rw [evicted.size]
        exact room rfl
      cases added with
      | none => exact evicted.stored room' (extends_dead next) rfl
      | some block =>
          refine pushFrontBlock_result evicted room' fun storageId offset => ?_
          exact ⟨rfl, fun _ => heighted block rfl, next,
            fun _ => holds.checkFrontHeight heightAccepted⟩

/-- What a push at the back leaves in the ring. -/
inductive PushedBack (slot : Nat) (contents : List StoredBlock) :
    Except StorageError Bool → List StoredBlock → Prop
  | stored (cell : StoredBlock) (place : cell.slot = slot) :
      PushedBack slot contents (.ok true) (cell :: contents)
  | refused : PushedBack slot contents (.ok false) contents
  | failed (error : StorageError) (other : ¬ error.NoFreeSlot) :
      PushedBack slot contents (.error error) contents

/-- A push at the back finds its cell. -/
theorem PushedBack.findsCell {result : Except StorageError Bool} {after : List StoredBlock}
    (pushed : PushedBack slot contents result after) : FindsCell result := by
  cases pushed with
  | stored => simp
  | refused => simp
  | failed error other => simpa using other

/-- The result of a push at the back describes the ring that the push leaves. -/
def BackResult (before : Store) (contents : List StoredBlock) (slot : Nat)
    (result : Except StorageError Bool × Store) : Prop :=
  ∃ after, result.2.blocks.Holds after ∧ PushedBack slot contents result.1 after ∧
    result.2.blocks.blocks.size = before.blocks.blocks.size

/-- The ring with room stores the cell of the new slot. -/
theorem backResult_stored {after : Store} {cell : StoredBlock} (holds : self.blocks.Holds contents)
    (room : contents.length < self.blocks.blocks.size) (before : Precedes cell contents)
    (ring : after.blocks = (self.blocks.pushBlockBack2 cell).2) :
    BackResult self contents cell.slot
      ((self.blocks.pushBlockBack2 cell).1.map fun _ => true, after) := by
  obtain ⟨success, kept⟩ := holds.pushBlockBack2 room before
  refine ⟨cell :: contents, by rwa [ring], ?_, ?_⟩
  · rw [success]
    exact .stored cell rfl
  · rw [ring, StoredBlocksWrite.pushBlockBack2_size]

/-- The cell of an accepted dead slot can come before the contents. -/
theorem precedes_dead (next : ∀ first ∈ contents.head?, first.slot = slot + 1) :
    Precedes (StoredBlock.newDead slot) contents :=
  ⟨rfl, fun live => (by cases live), next, fun live => (by cases live)⟩

/-- A push at the back stores one cell, or it leaves the ring as it is. -/
theorem pushBlockBack_result (turn slot : Nat) {added : Option BlockWithBinary}
    (holds : self.blocks.Holds contents)
    (heighted : ∀ block ∈ added, block.blockHeight.isSome = true) :
    BackResult self contents slot (self.pushBlockBack turn slot added) := by
  have checked := checkBack_findsCell self.blocks slot added
  unfold pushBlockBack
  split
  · rename_i rejected
    rw [rejected] at checked
    exact ⟨contents, holds, .failed _ (by simpa using checked), rfl⟩
  · rename_i accepted
    obtain ⟨_, slotAccepted, heightAccepted⟩ := bind_eq_ok accepted
    have next := holds.spans.checkBackSlot slotAccepted
    split
    · exact ⟨contents, holds, .refused, rfl⟩
    · rename_i notFull
      have fits := holds.represents.fits
      have room : contents.length < self.blocks.blocks.size := by
        rw [holds.spans.isFull_iff] at notFull
        omega
      cases added with
      | none => exact backResult_stored holds room (precedes_dead next) rfl
      | some block =>
          have written : FindsCell (self.files.pushBlockBack self.disk block.protobuf).1 :=
            (StorageFilesWrite.pushBlock_fails _ _ .back).avoids.findsCell
          dsimp only
          split
          · rename_i failed
            rw [failed] at written
            exact ⟨contents, holds, .failed _ (by simpa using written), rfl⟩
          · exact ⟨contents, holds, .refused, rfl⟩
          · rename_i storageId offset files disk placed
            have before : Precedes (StoredBlock.newConfirmed slot block.blockTime block.blockHeight
                storageId offset block.protobuf.length) contents :=
              ⟨rfl, fun _ => heighted block rfl, next,
                fun _ => holds.checkBackHeight heightAccepted⟩
            exact backResult_stored holds room before rfl

end Store

end Alpamayo
