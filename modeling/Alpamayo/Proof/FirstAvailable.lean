import Alpamayo.Proof.WriterRing

/-!
This file shows when the published first slot is the lowest stored one.
-/

namespace Alpamayo

/-- The published slot is that of the lowest cell, or the largest slot of an empty ring. -/
def StoredBlocksWrite.NamesLowest (blocks : StoredBlocksWrite) : Prop :=
  (∀ index, (blocks.blocks.cells index).present = false) ∧ blocks.firstAvailable = maxSlot ∨
    ∃ index, (blocks.blocks.cells index).present = true ∧
      (blocks.blocks.cells index).slot = blocks.firstAvailable ∧
      ∀ other, (blocks.blocks.cells other).present = true →
        blocks.firstAvailable ≤ (blocks.blocks.cells other).slot

variable {contents rest : List StoredBlock}

/-- The slot that the contents ask for. -/
def lowestOf (contents : List StoredBlock) : Nat :=
  StoredBlocksWrite.firstAvailableOf (contents.head?.map StoredBlock.slot)

/-- A block after other contents does not change the lowest slot. -/
theorem lowestOf_append (nonempty : contents ≠ []) : lowestOf (contents ++ rest) = lowestOf contents := by
  obtain ⟨first, tail, rfl⟩ := List.exists_cons_of_ne_nil nonempty
  rfl

namespace StoredBlocksWrite

variable {self : StoredBlocksWrite}

/-- A cell at a distance from the tail is a block or absent. -/
theorem Spans.cell (spans : self.Spans contents) (index : Fin self.blocks.size) :
    self.blocks.cells index ∈ contents ∨ self.blocks.cells index = StoredBlock.newNoexists := by
  obtain ⟨count, bound, rfl⟩ := self.blocks.exists_offset index
  rw [spans.represents.cell count bound]
  by_cases inside : count < contents.length
  · rw [List.getD_eq_getElem _ _ inside]
    exact Or.inl (List.getElem_mem inside)
  · rw [List.getD_eq_default _ _ (by omega)]
    exact Or.inr rfl

/-- The slot that the contents ask for is the lowest of the ring. -/
theorem Spans.namesLowest (spans : self.Spans contents)
    (known : self.firstAvailable = lowestOf contents) : self.NamesLowest := by
  cases contents with
  | nil =>
      refine Or.inl ⟨fun index => ?_, known⟩
      obtain member | absent := spans.cell index
      · cases member
      · rw [absent]
        rfl
  | cons first rest =>
      have tailCell : self.blocks.cells self.blocks.tail = first := spans.represents.tailCell
      refine Or.inr ⟨self.blocks.tail, ?_, ?_, fun other present => ?_⟩
      · rw [tailCell]
        exact spans.consecutive.present first (by simp)
      · rw [tailCell, known]
        rfl
      · obtain member | absent := spans.cell other
        · obtain ⟨index, inside, same⟩ := List.getElem_of_mem member
          have above := spans.consecutive.slot_getElem inside
          rw [same, List.getElem_cons_zero] at above
          have first : self.firstAvailable = first.slot := known
          omega
        · rw [absent] at present
          cases present

end StoredBlocksWrite

/-- The task is a push at the front. -/
def Task.pushesFront : Task → Bool
  | .push active => active.side = .front
  | _ => false

namespace Writer

variable {writer after : Writer} {event : WriterEvent}

/-- A removal at the front leaves a block, and a block at the front of an empty ring goes to its
first cell. -/
def KeepsFirst (writer : Writer) : WriterEvent → Prop
  | .popBlock .front => writer.store.blocks.blocks.tail = writer.store.blocks.blocks.head →
      (writer.store.blocks.blocks.cells writer.store.blocks.blocks.head).present = false
  | .store => writer.task.pushesFront = true →
      (writer.store.blocks.blocks.cells writer.store.blocks.blocks.tail).present = false →
      writer.store.blocks.blocks.tail.val = 0
  | _ => True

instance decidableKeepsFirst (writer : Writer) :
    (event : WriterEvent) → Decidable (writer.KeepsFirst event)
  | .popBlock .front | .store => inferInstanceAs (Decidable (_ → _))
  | .popBlock .back | .send _ | .pushBlockFront _ _ | .pushBlockBack _ _ | .announce | .remove
  | .free | .evict | .roomy | .index | .tear _ | .write | .refuse | .record | .publish =>
      isTrue trivial

/-- The published slot is right until a new cell waits for its publication. -/
def Named (writer : Writer) (contents : List StoredBlock) : Prop :=
  match writer.task with
  | .publish .back => True
  | .publish .front => writer.store.blocks.firstAvailable = lowestOf contents ∨
      writer.store.blocks.blocks.tail.val = 0 ∧ writer.store.blocks.blocks.head.val = 0
  | _ => writer.store.blocks.firstAvailable = lowestOf contents

/-- A task without a publication has the right slot. -/
theorem Named.known (named : writer.Named contents) (done : ∀ side, writer.task ≠ .publish side) :
    writer.store.blocks.firstAvailable = lowestOf contents := by
  unfold Named at named
  split at named
  · exact absurd ‹_› (done .back)
  · exact absurd ‹_› (done .front)
  · exact named

/-- The right slot suits every task. -/
theorem named_of (known : writer.store.blocks.firstAvailable = lowestOf contents) :
    writer.Named contents := by
  unfold Named
  split
  · trivial
  · exact Or.inl known
  · exact known

/-- The new cell of the front leaves the first slot or goes to the first cell of the ring. -/
theorem Named.store_front {blocks : StoredBlocksWrite} {cell : StoredBlock} (spans : writer.Spans contents)
    (known : writer.store.blocks.firstAvailable = lowestOf contents)
    (first : (writer.store.blocks.blocks.cells writer.store.blocks.blocks.tail).present = false →
      writer.store.blocks.blocks.tail.val = 0)
    (ring : blocks.blocks = writer.store.blocks.blocks.pushFront cell)
    (published : blocks.firstAvailable = writer.store.blocks.firstAvailable) :
    blocks.firstAvailable = lowestOf (contents ++ [cell]) ∨
      blocks.blocks.tail.val = 0 ∧ blocks.blocks.head.val = 0 := by
  by_cases empty : contents = []
  · subst empty
    have tailCell := spans.ring.represents.tailCell
    have zero := first (by rw [tailCell]; rfl)
    have head := spans.ring.represents.ends
    rw [List.length_nil, CellRing.offset_zero] at head
    rw [ring]
    refine Or.inr ⟨zero, ?_⟩
    change (writer.store.blocks.blocks.next writer.store.blocks.blocks.head).val = 0
    rw [head, zero]
  · rw [published, known, lowestOf_append empty]
    exact Or.inl rfl

/-- A removal that leaves a block at the front leaves the first slot. -/
theorem KeepsFirst.leaves {side : VecSide} {block : StoredBlock}
    (spans : writer.Spans contents) (keeps : writer.KeepsFirst event)
    (cause : event = .popBlock side ∨ event = .evict ∧ side = .back) (front : side = .front)
    (split : contents = rest ++ [block]) : rest ≠ [] := by
  rintro rfl
  obtain rfl | ⟨-, rfl⟩ := cause
  · subst front
    have head := spans.ring.represents.head_eq (by simp [split])
    have headCell := spans.ring.represents.headCell
    rw [split] at head headCell
    have missing := keeps (by simpa using head.symm)
    rw [headCell] at missing
    have present := spans.ring.consecutive.present block (by simp [split])
    simp [present] at missing
  · cases front

/-- Every change that keeps the first slot keeps the published slot right. -/
theorem Named.change (spans : writer.Spans contents) (named : writer.Named contents)
    (keeps : writer.KeepsFirst event) (change : Change writer event after) :
    ∃ rest, after.Spans rest ∧ after.Named rest := by
  obtain ⟨rest, kept⟩ := spans.change change
  refine ⟨rest, kept, ?_⟩
  cases change.ring with
  | other ring firstAvailable stored evicted before done sends =>
      have same := spans.eq_of_ring kept ring
      apply named_of
      rw [firstAvailable, named.known before, same]
  | popped side block popped stored evicted before done cause =>
      apply named_of
      cases side with
      | back =>
          obtain ⟨rest', -, kept', -, -, published⟩ := spans.ring.popBlockBack popped
          rw [kept.ring.unique kept', published]
          rfl
      | front =>
          obtain ⟨rest', split, kept', -, -, published⟩ := spans.ring.popBlockFront popped
          rw [kept.ring.unique kept', published, named.known before, split,
            lowestOf_append (keeps.leaves spans cause rfl split)]
  | pushed push cell known stage pushed stored evicted task cause =>
      have fits := spans.pushFits known
      obtain ⟨present, slot⟩ := fits.cell cell stage
      cases side : push.side with
      | back =>
          rw [Named, task, side]
          trivial
      | front =>
          rw [side] at pushed
          obtain ⟨-, kept', ring, -, published⟩ := spans.ring.pushCell_front present
            (by rw [slot]; exact fits.front side) pushed
          rw [Named, task, side, kept.ring.unique kept']
          subst cause
          exact Named.store_front spans (named.known (by simp [known]))
            (keeps (by simp [known, Task.pushesFront, side])) ring published
  | published side known blocks stored evicted done =>
      have same := spans.eq_of_ring kept (by rw [blocks, StoredBlocksWrite.updateTotal_blocks])
      apply named_of
      rw [blocks, same, StoredBlocksWrite.updateTotal]
      split
      · exact congrArg StoredBlocksWrite.firstAvailableOf spans.ring.getBackSlot
      · rename_i silent
        rw [Named, known] at named
        cases side with
        | back => exact absurd (Or.inl rfl) silent
        | front => exact named.resolve_right fun zero => silent (Or.inr zero)

/-- In a run whose steps keep the first slot, the published slot is the lowest stored one in every
state that has no publication pending. -/
theorem run_namesLowest (db : Rocksdb) (list : List StoredBlock) (max : Nat)
    (blocks : StoredBlocksWrite) (files : StorageFilesWrite) (disk : Disk)
    (loaded : db.spawnSlots = .ok list) (opened : StoredBlocksWrite.new list max = .ok blocks)
    (final : Writer) (run : Run KeepsFirst (start ⟨db, files, disk, blocks⟩ []) final)
    (done : ∀ side, final.task ≠ .publish side) : final.store.blocks.NamesLowest := by
  have spans : (start ⟨db, files, disk, blocks⟩ []).Spans list := spans_start loaded opened
  have known : blocks.firstAvailable = lowestOf list := by
    rw [(StoredBlocksWrite.new_fields opened).2]
    exact congrArg StoredBlocksWrite.firstAvailableOf spans.ring.getBackSlot
  obtain ⟨contents, kept, named⟩ := run.invariant
    (fun state => ∃ contents, state.Spans contents ∧ state.Named contents)
    ⟨list, spans, named_of known⟩
    fun before event next ⟨contents, whole, right⟩ keeps change => right.change whole keeps change
  exact kept.ring.namesLowest (named.known done)

/-- These events remove one block outside of a push. -/
def removeOne (side : VecSide) : List WriterEvent := [.popBlock side, .announce, .remove, .free]

/-- The published slot is right after a push and a removal at the back. -/
theorem run_namesLowest_back : ∃ final,
    Run KeepsFirst (start (emptyStore 2 10 (by decide)) []) final ∧
      final.store.blocks.firstAvailable = 6 ∧ final.store.blocks.NamesLowest := by
  have taken : ((start (emptyStore 2 10 (by decide)) []).takeAll
      (storeFront 5 (plainBlock 4 [1, 2]) ++ storeFront 6 (plainBlock 5 [3]) ++
        removeOne .back)).map (fun state => (state.store.blocks.firstAvailable, state.task)) =
      some (6, .idle) := by
    decide +kernel
  obtain ⟨final, taken, known⟩ := Option.map_eq_some_iff.mp taken
  have run : Run KeepsFirst _ final := run_of_takeAll (by decide +kernel) taken
  refine ⟨final, run, congrArg Prod.fst known, ?_⟩
  apply run_namesLowest Rocksdb.empty [] 2 _ _ _ rfl rfl final run
  intro side
  rw [show final.task = .idle from congrArg Prod.snd known]
  rintro ⟨⟩

/-- A removal at the front of the last block leaves its slot published. -/
theorem namesLowest_false : ¬ ∀ (db : Rocksdb) (list : List StoredBlock) (max : Nat)
    (blocks : StoredBlocksWrite) (files : StorageFilesWrite) (disk : Disk),
    db.spawnSlots = .ok list → StoredBlocksWrite.new list max = .ok blocks →
    ∀ final, Run (fun _ _ => True) (start ⟨db, files, disk, blocks⟩ []) final →
      final.task = .idle → final.store.blocks.NamesLowest := by
  intro always
  have taken : ((start (emptyStore 2 10 (by decide)) []).takeAll
      (storeFront 5 (plainBlock 4 [1, 2]) ++ removeOne .front)).map (fun state =>
        (state.store.blocks.firstAvailable, decide (∀ index : Fin state.store.blocks.blocks.size,
          (state.store.blocks.blocks.cells index).present = false), state.task)) =
      some (5, true, .idle) := by
    decide +kernel
  obtain ⟨final, taken, known⟩ := Option.map_eq_some_iff.mp taken
  have run := run_of_takeAll (permits_any _ _) taken
  simp only [Prod.mk.injEq, decide_eq_true_eq] at known
  obtain ⟨published, absent, idle⟩ := known
  obtain ⟨-, wrong⟩ | ⟨index, present, -⟩ :=
    always Rocksdb.empty [] 2 _ _ _ rfl rfl final run idle
  · rw [published] at wrong
    revert wrong
    decide
  · rw [absent index] at present
    cases present

end Writer

end Alpamayo
