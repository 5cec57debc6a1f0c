import Alpamayo.Proof.WriterReplica

/-!
This file shows that the readers find every stored slot and only those.
-/

namespace Alpamayo

variable {contents : List StoredBlock} {blocks : StoredBlocksWrite} {slot : Nat}

/-- The answer to a lookup tells whether and how the ring stores the slot. -/
structure StoredBlocksRead.LooksUp (copy : StoredBlocksRead) (slot : Nat) : Prop where
  removed : copy.getBlockLocation slot = .removed ↔
    ∀ index, (copy.blocks.cells index).present = true → slot < (copy.blocks.cells index).slot
  notAvailable : copy.getBlockLocation slot = .notAvailable ↔
    (∃ index, (copy.blocks.cells index).present = true) ∧
      ∀ index, (copy.blocks.cells index).present = true → (copy.blocks.cells index).slot < slot
  dead : copy.getBlockLocation slot = .dead ↔ ∃ index, (copy.blocks.cells index).present = true ∧
    (copy.blocks.cells index).dead = true ∧ (copy.blocks.cells index).slot = slot
  found : ∀ block, copy.getBlockLocation slot = .found block ↔
    block.isLive = true ∧ block.slot = slot ∧ ∃ index, copy.blocks.cells index = block
  noMismatch : copy.getBlockLocation slot ≠ .slotMismatch

/-- Only a slot below the tail was removed. -/
theorem StoredBlocksRead.removed_before {copy : StoredBlocksRead}
    (removed : copy.getBlockLocation slot = .removed) :
    (!(copy.blocks.cells copy.blocks.tail).present ||
      decide (slot < (copy.blocks.cells copy.blocks.tail).slot)) = true := by
  rw [getBlockLocation] at removed
  simp only at removed
  split at removed
  · assumption
  · split at removed
    · cases removed
    · split at removed
      · split at removed
        all_goals cases removed
      · cases removed

namespace StoredBlocksWrite.Spans

/-- A slot is below the contents, above them, or the slot of one block of them. -/
theorem location_cases (spans : blocks.Spans contents) (slot : Nat) :
    (∀ block ∈ contents, slot < block.slot) ∧ blocks.toRead.getBlockLocation slot = .removed ∨
    (contents ≠ [] ∧ ∀ block ∈ contents, block.slot < slot) ∧
      blocks.toRead.getBlockLocation slot = .notAvailable ∨
    ∃ block ∈ contents, block.slot = slot ∧
      blocks.toRead.getBlockLocation slot = if block.dead then .dead else .found block := by
  have tailCell := spans.represents.tailCell
  have headCell := spans.represents.headCell
  cases contents with
  | nil =>
      refine Or.inl ⟨by simp, ?_⟩
      simp [StoredBlocksRead.getBlockLocation, StoredBlocksWrite.toRead, tailCell]
  | cons first rest =>
      have firstPresent := spans.consecutive.present first (by simp)
      rw [List.getD_cons_zero] at tailCell
      by_cases low : slot < first.slot
      · refine Or.inl ⟨?_, ?_⟩
        · intro block member
          exact low.trans_le (Successive.head_le spans.consecutive.slots rfl member)
        · simp [StoredBlocksRead.getBlockLocation, StoredBlocksWrite.toRead, tailCell, low]
      · have isLast := List.getLast?_eq_some_getLast (List.cons_ne_nil first rest)
        have lastCell : blocks.blocks.cells blocks.blocks.head =
            (first :: rest).getLast (List.cons_ne_nil first rest) := by
          rw [headCell, List.getLastD_eq_getLast?, isLast]
          rfl
        by_cases high : ((first :: rest).getLast (List.cons_ne_nil first rest)).slot < slot
        · refine Or.inr (Or.inl ⟨⟨List.cons_ne_nil first rest, ?_⟩, ?_⟩)
          · intro block member
            exact (Successive.le_getLast spans.consecutive.slots isLast member).trans_lt high
          · simp [StoredBlocksRead.getBlockLocation, StoredBlocksWrite.toRead, tailCell,
              firstPresent, low, lastCell, high]
        · refine Or.inr (Or.inr ?_)
          have below : ∀ last ∈ (first :: rest).getLast?, slot ≤ last.slot := by
            rw [isLast]
            rintro _ ⟨⟩
            omega
          obtain removed | found := spans.getBlockLocation below
          · exfalso
            have before := StoredBlocksRead.removed_before removed
            simp [StoredBlocksWrite.toRead, tailCell, firstPresent, low] at before
          · exact found

/-- A present cell of the copy is a block of the contents. -/
theorem forall_present_iff (spans : blocks.Spans contents) (holds : StoredBlock → Prop) :
    (∀ index, (blocks.toRead.blocks.cells index).present = true →
      holds (blocks.toRead.blocks.cells index)) ↔ ∀ block ∈ contents, holds block := by
  constructor
  · intro cells block member
    have present := spans.consecutive.present block member
    obtain ⟨index, rfl⟩ := (spans.mem_iff present).mp member
    exact cells index present
  · intro members index present
    exact members _ ((spans.mem_iff present).mpr ⟨index, rfl⟩)

theorem exists_present_iff (spans : blocks.Spans contents) (holds : StoredBlock → Prop) :
    (∃ index, (blocks.toRead.blocks.cells index).present = true ∧
      holds (blocks.toRead.blocks.cells index)) ↔ ∃ block ∈ contents, holds block := by
  constructor
  · rintro ⟨index, present, known⟩
    exact ⟨_, (spans.mem_iff present).mpr ⟨index, rfl⟩, known⟩
  · rintro ⟨block, member, known⟩
    have present := spans.consecutive.present block member
    obtain ⟨index, rfl⟩ := (spans.mem_iff present).mp member
    exact ⟨index, present, known⟩

theorem removed_iff (spans : blocks.Spans contents) :
    blocks.toRead.getBlockLocation slot = .removed ↔ ∀ block ∈ contents, slot < block.slot := by
  obtain ⟨below, same⟩ | ⟨⟨stored, above⟩, same⟩ | ⟨block, member, isSlot, same⟩ :=
    spans.location_cases slot
  · simp only [same, true_iff]
    exact below
  · obtain ⟨block, member⟩ := List.exists_mem_of_ne_nil contents stored
    have less := above block member
    simp only [same, reduceCtorEq, false_iff, not_forall]
    exact ⟨block, member, by omega⟩
  · have known : ¬ ∀ other ∈ contents, slot < other.slot := by
      intro below
      have less := below block member
      omega
    rw [same]
    cases block.dead with
    | true => simp [known]
    | false => simp [known]

theorem notAvailable_iff (spans : blocks.Spans contents) :
    blocks.toRead.getBlockLocation slot = .notAvailable ↔
      contents ≠ [] ∧ ∀ block ∈ contents, block.slot < slot := by
  obtain ⟨below, same⟩ | ⟨above, same⟩ | ⟨block, member, isSlot, same⟩ :=
    spans.location_cases slot
  · simp only [same, reduceCtorEq, false_iff]
    rintro ⟨stored, above⟩
    obtain ⟨block, member⟩ := List.exists_mem_of_ne_nil contents stored
    have less := above block member
    have more := below block member
    omega
  · simp only [same, true_iff]
    exact above
  · have known : ¬ (contents ≠ [] ∧ ∀ other ∈ contents, other.slot < slot) := by
      rintro ⟨-, above⟩
      have less := above block member
      omega
    rw [same]
    cases block.dead with
    | true => simp [known]
    | false => simp [known]

theorem dead_iff (spans : blocks.Spans contents) :
    blocks.toRead.getBlockLocation slot = .dead ↔
      ∃ block ∈ contents, block.dead = true ∧ block.slot = slot := by
  obtain ⟨below, same⟩ | ⟨⟨-, above⟩, same⟩ | ⟨block, member, isSlot, same⟩ :=
    spans.location_cases slot
  · simp only [same, reduceCtorEq, false_iff]
    rintro ⟨block, member, -, isSlot⟩
    have less := below block member
    omega
  · simp only [same, reduceCtorEq, false_iff]
    rintro ⟨block, member, -, isSlot⟩
    have less := above block member
    omega
  · have only : ∀ other ∈ contents, other.slot = slot → other = block := fun other inside sameSlot =>
      Successive.eq_of_key_eq spans.consecutive.slots inside member (sameSlot.trans isSlot.symm)
    rw [same]
    constructor
    · intro isDead
      refine ⟨block, member, ?_, isSlot⟩
      by_contra live
      rw [if_neg live] at isDead
      cases isDead
    · rintro ⟨other, inside, isDead, sameSlot⟩
      obtain rfl := only other inside sameSlot
      rw [if_pos isDead]

theorem found_iff (spans : blocks.Spans contents) {block : StoredBlock} :
    blocks.toRead.getBlockLocation slot = .found block ↔
      block ∈ contents ∧ block.dead = false ∧ block.slot = slot := by
  obtain ⟨below, same⟩ | ⟨⟨-, above⟩, same⟩ | ⟨stored, member, isSlot, same⟩ :=
    spans.location_cases slot
  · simp only [same, reduceCtorEq, false_iff]
    rintro ⟨inside, -, isSlot⟩
    have less := below block inside
    omega
  · simp only [same, reduceCtorEq, false_iff]
    rintro ⟨inside, -, isSlot⟩
    have less := above block inside
    omega
  · rw [same]
    constructor
    · intro found
      cases live : stored.dead with
      | true =>
          rw [live, if_pos rfl] at found
          cases found
      | false =>
          rw [live, if_neg (by decide)] at found
          cases found
          exact ⟨member, live, isSlot⟩
    · rintro ⟨inside, live, sameSlot⟩
      obtain rfl := Successive.eq_of_key_eq spans.consecutive.slots inside member
        (sameSlot.trans isSlot.symm)
      rw [live, if_neg (by decide)]

/-- The copy of a ring with consecutive contents finds every slot. -/
theorem looksUp (spans : blocks.Spans contents) (slot : Nat) : blocks.toRead.LooksUp slot where
  removed := by
    have cells := spans.forall_present_iff (fun block => slot < block.slot)
    rw [cells]
    exact spans.removed_iff
  notAvailable := by
    have cells := spans.forall_present_iff (fun block => block.slot < slot)
    have stored := spans.exists_present_iff (fun _ => True)
    simp only [and_true] at stored
    have nonempty : contents ≠ [] ↔ ∃ block, block ∈ contents :=
      ⟨List.exists_mem_of_ne_nil contents, fun ⟨_, member⟩ => List.ne_nil_of_mem member⟩
    rw [cells, stored, spans.notAvailable_iff, nonempty]
  dead := by
    have stored := spans.exists_present_iff (fun block => block.dead = true ∧ block.slot = slot)
    rw [stored]
    exact spans.dead_iff
  found := by
    intro block
    rw [spans.found_iff]
    constructor
    · rintro ⟨member, live, isSlot⟩
      have present := spans.consecutive.present block member
      refine ⟨?_, isSlot, (spans.mem_iff present).mp member⟩
      simp [StoredBlock.isLive, present, live]
    · rintro ⟨live, isSlot, index, same⟩
      rw [StoredBlock.isLive, Bool.and_eq_true, Bool.not_eq_true'] at live
      exact ⟨(spans.mem_iff live.1).mpr ⟨index, same⟩, live.2, isSlot⟩
  noMismatch := by
    obtain ⟨-, same⟩ | ⟨-, same⟩ | ⟨block, -, -, same⟩ := spans.location_cases slot
    · simp [same]
    · simp [same]
    · rw [same]
      split
      all_goals simp

end StoredBlocksWrite.Spans

namespace Writer

/-- A reader that applied some of the messages has the copy of an earlier ring. -/
theorem run_copies (db : Rocksdb) (list : List StoredBlock) (max : Nat)
    (blocks : StoredBlocksWrite) (files : StorageFilesWrite) (disk : Disk)
    (recentBlocks : List (Nat × BlockWithBinary)) (loaded : db.spawnSlots = .ok list)
    (opened : StoredBlocksWrite.new list max = .ok blocks) (final : Writer)
    (run : Run (fun _ _ => True) (start ⟨db, files, disk, blocks⟩ []) final)
    (messages : List ReadWriteSyncMessage) (applied : messages <+: final.store.blocks.sent) :
    ∃ (reader : Reader) (state : Writer) (contents : List StoredBlock),
      (Reader.init blocks.toRead recentBlocks).updates messages = .ok reader ∧
      reader.blocks = state.store.blocks.toRead ∧ state.Spans contents := by
  have silent : blocks.sent = [] := (StoredBlocksWrite.new_fields opened).1
  obtain ⟨reader, state, contents, -, updated, copy, spans⟩ :=
    run.copied (Reader.init blocks.toRead recentBlocks) (spans_start loaded opened) rfl silent rfl applied
  exact ⟨reader, state, contents, updated, copy, spans⟩

/-- A reader that applied any messages of the writer finds exactly the stored slots. -/
theorem run_looksUp (db : Rocksdb) (list : List StoredBlock) (max : Nat)
    (blocks : StoredBlocksWrite) (files : StorageFilesWrite) (disk : Disk)
    (recentBlocks : List (Nat × BlockWithBinary)) (loaded : db.spawnSlots = .ok list)
    (opened : StoredBlocksWrite.new list max = .ok blocks) (final : Writer)
    (run : Run (fun _ _ => True) (start ⟨db, files, disk, blocks⟩ []) final)
    (messages : List ReadWriteSyncMessage) (applied : messages <+: final.store.blocks.sent) :
    ∃ reader, (Reader.init blocks.toRead recentBlocks).updates messages = .ok reader ∧
      ∀ slot, reader.blocks.LooksUp slot := by
  obtain ⟨reader, state, contents, updated, copy, spans⟩ :=
    run_copies db list max blocks files disk recentBlocks loaded opened final run messages applied
  refine ⟨reader, updated, fun slot => ?_⟩
  rw [copy]
  exact spans.ring.looksUp slot

/-- A reader that follows the first stored block finds it. -/
theorem run_looksUp_first : ∃ final reader,
    Run (fun _ _ => True) (start (emptyStore 2 10 (by decide)) []) final ∧
      (Reader.init (emptyStore 2 10 (by decide)).blocks.toRead []).updates final.store.blocks.sent =
        .ok reader ∧
      ∀ slot, reader.blocks.LooksUp slot := by
  have taken : ((start (emptyStore 2 10 (by decide)) []).takeAll
      (storeFront 5 (plainBlock 4 [1, 2]))).map (fun state => state.store.blocks.sent.length) =
        some 2 := by
    decide +kernel
  obtain ⟨final, taken, -⟩ := Option.map_eq_some_iff.mp taken
  have run := run_of_takeAll (permits_any _ _) taken
  obtain ⟨reader, updated, finds⟩ := run_looksUp Rocksdb.empty [] 2 _ _ _ [] rfl rfl final run
    final.store.blocks.sent (List.prefix_refl _)
  exact ⟨final, reader, run, updated, finds⟩

end Writer

end Alpamayo
