import Alpamayo.Proof.StoreRing

/-!
This file shows what a push does to the highest stored slot, in any state of the ring.
-/

namespace Alpamayo

/-- The error of a push at a slot that does not follow the highest one. -/
def StorageError.InvalidFrontSlot (error : StorageError) : Prop :=
  ∃ slot expected, error = .pushFrontInvalidSlot slot expected

/-- The inner errors are not about the slot of a push. -/
theorem Avoids.validFrontSlot {A : Type} {result : Except StorageError A}
    (avoids : Avoids StorageError.Outer result) : Avoids StorageError.InvalidFrontSlot result := by
  refine avoids.mono ?_
  rintro error ⟨slot, expected, rfl⟩
  trivial

namespace StoredBlocksWrite

variable {self : StoredBlocksWrite} {block : StoredBlock} {slot : Nat}

@[simp] theorem updateTotal_getFrontSlot (side : VecSide) :
    (self.updateTotal side).getFrontSlot = self.getFrontSlot := by
  unfold updateTotal
  split <;> rfl

/-- A successful push makes its cell the head. -/
theorem pushBlockFront2_getFrontSlot (present : block.present = true)
    (pushed : (self.pushBlockFront2 block).1 = .ok ()) :
    (self.pushBlockFront2 block).2.getFrontSlot = some block.slot := by
  unfold pushBlockFront2 at pushed ⊢
  dsimp only at pushed ⊢
  split at pushed
  · cases pushed
  · rename_i free
    rw [if_neg free, updateTotal_getFrontSlot]
    simp only [getFrontSlot, CellRing.pushFront, CellRing.write,
      Function.update_self, present, if_true]

/-- A successful push at the back leaves the head as it is. -/
theorem pushBlockBack2_getFrontSlot (front : self.getFrontSlot = some slot)
    (pushed : (self.pushBlockBack2 block).1 = .ok ()) :
    (self.pushBlockBack2 block).2.getFrontSlot = some slot := by
  unfold pushBlockBack2 at pushed ⊢
  dsimp only at pushed ⊢
  split at pushed
  · cases pushed
  · rename_i free
    rw [if_neg free, updateTotal_getFrontSlot]
    have other : self.blocks.head ≠ self.blocks.prev self.blocks.tail := by
      intro same
      rw [getFrontSlot, same, if_neg free] at front
      cases front
    simpa only [getFrontSlot, CellRing.pushBack, CellRing.write,
      Function.update_of_ne other] using front

/-- A ring with a lowest slot has a highest slot. -/
theorem getFrontSlot_of_getBackSlot (back : self.getBackSlot = some slot) :
    ∃ front, self.getFrontSlot = some front := by
  unfold getBackSlot getBack at back
  dsimp only at back
  split at back
  · rename_i both
    rw [Bool.and_eq_true] at both
    exact ⟨_, by rw [getFrontSlot, both.2, if_pos rfl]⟩
  · cases back

/-- A push at the front reports only a missing cell. -/
theorem pushBlockFront2_avoids (block : StoredBlock) :
    Avoids StorageError.InvalidFrontSlot (self.pushBlockFront2 block).1 := by
  unfold pushBlockFront2
  dsimp only
  split <;> simp [StorageError.InvalidFrontSlot]

/-- A push at the back reports only a missing cell. -/
theorem pushBlockBack2_avoids (block : StoredBlock) :
    Avoids StorageError.InvalidFrontSlot
      ((self.pushBlockBack2 block).1.map fun _ => true) := by
  unfold pushBlockBack2
  dsimp only
  split <;> simp [StorageError.InvalidFrontSlot, Except.map]

end StoredBlocksWrite

section checks

variable {blocks : StoredBlocksWrite} {slot : Nat}

/-- A slot that follows the highest one passes the check. -/
theorem checkFront_avoids (added : Option BlockWithBinary)
    (next : ∀ front ∈ blocks.getFrontSlot, slot = front + 1) :
    Avoids StorageError.InvalidFrontSlot (checkFrontSlot blocks slot >>= fun _ =>
      checkFrontHeight blocks slot added) := by
  refine Avoids.bind ?_ fun _ => (heightOf_avoids _).validFrontSlot.bind fun front => ?_
  · unfold checkFrontSlot
    split
    · simp
    · rename_i front known
      have follows := next front known
      rcases Nat.lt_or_ge front maxSlot with inside | outside
      · simp only [addOne, if_pos inside, bind, Except.bind, if_pos follows.symm, avoids_ok]
      · simp [addOne, Nat.not_lt.mpr outside, bind, Except.bind, StorageError.InvalidFrontSlot]
  · split
    · split
      · simp [StorageError.InvalidFrontSlot]
      · refine (addOne_avoids _).validFrontSlot.bind fun next => ?_
        split <;> simp [StorageError.InvalidFrontSlot]
    · simp

/-- The checks at the back do not look at the highest slot. -/
theorem checkBack_avoids (blocks : StoredBlocksWrite) (slot : Nat)
    (added : Option BlockWithBinary) : Avoids StorageError.InvalidFrontSlot
    (checkBackSlot blocks slot >>= fun _ => checkBackHeight blocks slot added) := by
  refine Avoids.bind ?_ fun _ => (heightOf_avoids _).validFrontSlot.bind fun back => ?_
  · unfold checkBackSlot
    split
    · simp
    · refine (subOne_avoids _).validFrontSlot.bind fun next => ?_
      split <;> simp [StorageError.InvalidFrontSlot]
  · split
    · split
      · simp [StorageError.InvalidFrontSlot]
      · refine (addOne_avoids _).validFrontSlot.bind fun next => ?_
        split <;> simp [StorageError.InvalidFrontSlot]
    · simp

end checks

namespace Store

variable {self : Store} {turn slot front : Nat} {added : Option BlockWithBinary}

/-- The rest of a push after its checks. -/
theorem pushFrontBlock_avoids (block : BlockWithBinary) :
    Avoids StorageError.InvalidFrontSlot (self.pushFrontBlock turn slot block).1 := by
  have placing := (self.placeFront_avoids slot block (self.blocks.blocks.size + 1)
    (some turn)).validFrontSlot
  unfold pushFrontBlock
  split
  · rename_i failed
    rw [failed] at placing
    simpa using placing
  · exact StoredBlocksWrite.pushBlockFront2_avoids _

/-- The push of the slot after the highest one is never refused for its slot. -/
theorem pushBlockFront_avoids (self : Store) (turn : Nat) (added : Option BlockWithBinary)
    (next : ∀ front ∈ self.blocks.getFrontSlot, slot = front + 1) :
    Avoids StorageError.InvalidFrontSlot (self.pushBlockFront turn slot added).1 := by
  have checks := checkFront_avoids added next
  unfold pushBlockFront
  split
  · rename_i rejected
    rw [rejected] at checks
    simpa using checks
  · split
    · rename_i failed
      split at failed
      · have removed := (self.popBlock_avoids .back).validFrontSlot
        rw [popBlockBack] at failed
        rw [failed] at removed
        simpa using removed
      · cases failed
    · cases added with
      | none => exact StoredBlocksWrite.pushBlockFront2_avoids _
      | some block => exact pushFrontBlock_avoids block

/-- After a successful push its slot is the highest one. -/
theorem pushBlockFront_getFrontSlot {after : Store}
    (pushed : self.pushBlockFront turn slot added = (.ok (), after)) :
    after.blocks.getFrontSlot = some slot := by
  unfold pushBlockFront at pushed
  split at pushed
  · cases pushed
  · split at pushed
    · cases pushed
    · rename_i middle _
      cases added with
      | none =>
          obtain ⟨success, rfl⟩ := Prod.mk.inj pushed
          exact StoredBlocksWrite.pushBlockFront2_getFrontSlot rfl success
      | some block =>
          dsimp only at pushed
          unfold pushFrontBlock at pushed
          split at pushed
          · cases pushed
          · obtain ⟨success, rfl⟩ := Prod.mk.inj pushed
            exact StoredBlocksWrite.pushBlockFront2_getFrontSlot rfl success

/-- The push at the back has no error about the highest slot. -/
theorem pushBlockBack_avoids (self : Store) (turn slot : Nat) (added : Option BlockWithBinary) :
    Avoids StorageError.InvalidFrontSlot (self.pushBlockBack turn slot added).1 := by
  have checks := checkBack_avoids self.blocks slot added
  unfold pushBlockBack
  split
  · rename_i rejected
    rw [rejected] at checks
    simpa using checks
  · split
    · simp
    · cases added with
      | none => exact StoredBlocksWrite.pushBlockBack2_avoids _
      | some block =>
          have written : Avoids StorageError.Outer
              (self.files.pushBlockBack self.disk block.protobuf).1 :=
            (StorageFilesWrite.pushBlock_fails _ _ .back).avoids
          dsimp only
          split
          · rename_i failed
            rw [failed] at written
            simpa using written.validFrontSlot
          · simp
          · exact StoredBlocksWrite.pushBlockBack2_avoids _

/-- A mapped success comes from a success. -/
theorem ok_of_map {result : Except StorageError Unit} {value : Bool}
    (success : (result.map fun _ => true) = .ok value) : result = .ok () := by
  cases result with
  | error error => cases success
  | ok value => rfl

/-- A push at the back leaves the highest slot as it is. -/
theorem pushBlockBack_getFrontSlot {after : Store} {stored : Bool}
    (known : self.blocks.getFrontSlot = some front)
    (pushed : self.pushBlockBack turn slot added = (.ok stored, after)) :
    after.blocks.getFrontSlot = some front := by
  unfold pushBlockBack at pushed
  split at pushed
  · cases pushed
  · split at pushed
    · cases pushed
      exact known
    · cases added with
      | none =>
          obtain ⟨success, rfl⟩ := Prod.mk.inj pushed
          exact StoredBlocksWrite.pushBlockBack2_getFrontSlot known (ok_of_map success)
      | some block =>
          dsimp only at pushed
          split at pushed
          · cases pushed
          · cases pushed
            exact known
          · obtain ⟨success, rfl⟩ := Prod.mk.inj pushed
            exact StoredBlocksWrite.pushBlockBack2_getFrontSlot known (ok_of_map success)

end Store

end Alpamayo
