import Alpamayo.Proof.WriteIteration

/-!
This file shows when the backfill covers exactly the slots between its last slot and the ring.
-/

namespace Alpamayo

/-- The panic of a subtraction below zero. -/
def StorageError.Underflow (error : StorageError) : Prop :=
  error = .panicked "attempt to subtract with overflow"

instance : DecidablePred StorageError.Underflow := fun error =>
  inferInstanceAs (Decidable (error = .panicked "attempt to subtract with overflow"))

namespace StoredBlocksWrite

variable {self middle after : StoredBlocksWrite} {slot : Nat} {block : StoredBlock}

/-- The readers hear of so many blocks that left the ring at the back. -/
def evictions (self : StoredBlocksWrite) : Nat := self.sent.countP ReadWriteSyncMessage.evicts

/-- The lowest slot stands in the tail cell, and the head cell must be there too. -/
theorem getBackSlot_eq_some : self.getBackSlot = some slot ↔
    (self.blocks.cells self.blocks.tail).present = true ∧
      (self.blocks.cells self.blocks.head).present = true ∧
      (self.blocks.cells self.blocks.tail).slot = slot := by
  have found (present : (self.blocks.cells self.blocks.tail).present = true) :
      ∀ fuel, 0 < fuel → self.blocks.walkUp (fun block => block.present) fuel self.blocks.tail =
        some (self.blocks.cells self.blocks.tail) := by
    intro fuel positive
    cases fuel with
    | zero => omega
    | succ fuel => rw [CellRing.walkUp, if_pos present]
  have positive : 0 < self.blocks.size := Nat.zero_lt_of_lt self.blocks.tail.isLt
  simp only [getBackSlot, getBack, Bool.and_eq_true]
  split
  · rename_i both
    rw [found both.1 _ positive]
    simp [both.1, both.2]
  · rename_i missing
    simp only [Option.map_none, reduceCtorEq, false_iff]
    exact fun both => missing ⟨both.1, both.2.1⟩

@[simp] theorem updateTotal_evictions (side : VecSide) :
    (self.updateTotal side).evictions = self.evictions := by
  unfold updateTotal
  split <;> rfl

@[simp] theorem updateTotal_getBackSlot (side : VecSide) :
    (self.updateTotal side).getBackSlot = self.getBackSlot := by
  unfold updateTotal
  split <;> rfl

/-- A message about something else is no eviction. -/
theorem evictions_append {message : ReadWriteSyncMessage} (other : message.evicts = false) :
    (self.sent ++ [message]).countP ReadWriteSyncMessage.evicts = self.evictions := by
  rw [List.countP_append, List.countP_singleton, other]
  rfl

/-- The lowest slot of the ring stays where it is unless a block leaves at the back. -/
structure KeepsBack (before after : StoredBlocksWrite) : Prop where
  grows : before.evictions ≤ after.evictions
  lowest : after.evictions = before.evictions →
    ∀ slot, before.getBackSlot = some slot → after.getBackSlot = some slot

theorem KeepsBack.refl : KeepsBack self self := ⟨le_rfl, fun _ _ known => known⟩

theorem KeepsBack.trans (first : KeepsBack self middle) (second : KeepsBack middle after) :
    KeepsBack self after := by
  have grows := first.grows.trans second.grows
  refine ⟨grows, fun same slot known => ?_⟩
  have upper := first.grows
  have lower := second.grows
  exact second.lowest (by omega) slot (first.lowest (by omega) slot known)

/-- A push at the front is no eviction. -/
theorem pushBlockFront2_evictions : (self.pushBlockFront2 block).2.evictions = self.evictions := by
  unfold pushBlockFront2
  dsimp only
  split
  · rfl
  · exact (updateTotal_evictions _).trans (self.evictions_append rfl)

/-- A push at the front leaves the tail cell as it is. -/
theorem pushBlockFront2_keepsBack (present : block.present = true) :
    KeepsBack self (self.pushBlockFront2 block).2 := by
  refine ⟨pushBlockFront2_evictions.ge, fun _ slot known => ?_⟩
  unfold pushBlockFront2
  dsimp only
  split
  · rename_i taken
    rw [getBackSlot_eq_some] at known ⊢
    exact ⟨known.1, taken, known.2.2⟩
  · rename_i free
    rw [updateTotal_getBackSlot]
    rw [getBackSlot_eq_some] at known ⊢
    have other : self.blocks.tail ≠ self.blocks.next self.blocks.head := by
      intro same
      rw [← same] at free
      exact free known.1
    simpa only [CellRing.pushFront, CellRing.write, Function.update_self,
      Function.update_of_ne other, present, true_and] using ⟨known.1, known.2.2⟩

/-- A push at the back is no eviction. -/
theorem pushBlockBack2_evictions : (self.pushBlockBack2 block).2.evictions = self.evictions := by
  unfold pushBlockBack2
  dsimp only
  split
  · rfl
  · exact (updateTotal_evictions _).trans (self.evictions_append rfl)

/-- A push at the back makes its slot the lowest one. -/
theorem pushBlockBack2_getBackSlot {lowest : Nat} (present : block.present = true)
    (known : self.getBackSlot = some lowest) (pushed : (self.pushBlockBack2 block).1 = .ok ()) :
    (self.pushBlockBack2 block).2.getBackSlot = some block.slot := by
  unfold pushBlockBack2 at pushed ⊢
  dsimp only at pushed ⊢
  split at pushed
  · cases pushed
  · rename_i free
    rw [if_neg free, updateTotal_getBackSlot]
    rw [getBackSlot_eq_some] at known ⊢
    have other : self.blocks.head ≠ self.blocks.prev self.blocks.tail := by
      intro same
      rw [← same] at free
      exact free known.2.1
    simp only [CellRing.pushBack, CellRing.write, Function.update_self,
      Function.update_of_ne other, present, known.2.1, true_and]

end StoredBlocksWrite

namespace Store

open StoredBlocksWrite

variable {self : Store} {turn slot : Nat} {added : Option BlockWithBinary}

/-- A block that leaves the ring at the back is an eviction. -/
theorem popBlockBack_keepsBack (self : Store) : KeepsBack self.blocks self.popBlockBack.2.blocks := by
  unfold popBlockBack popBlock
  split
  · exact KeepsBack.refl
  · rename_i block blocks popped
    have evicted : (blocks.send .confirmedBlockPopBack).evictions = self.blocks.evictions + 1 := by
      simp only [popRing, StoredBlocksWrite.popBlockBack] at popped
      split at popped
      · obtain ⟨-, rfl⟩ := Prod.mk.inj (Option.some.inj popped)
        simp [evictions, send, ReadWriteSyncMessage.evicts]
      · cases popped
    have kept : KeepsBack self.blocks (blocks.send .confirmedBlockPopBack) :=
      ⟨by omega, fun same => by omega⟩
    dsimp only
    split
    · exact kept
    · split <;> exact kept

/-- The search for a place keeps the lowest slot unless it makes room. -/
theorem placeFront_keepsBack (block : BlockWithBinary) (fuel : Nat) (pending : Option Nat) :
    KeepsBack self.blocks (self.placeFront slot block fuel pending).2.blocks := by
  induction fuel generalizing self pending with
  | zero => exact KeepsBack.refl
  | succ fuel ih =>
      have ring := takeTurn_blocks self slot block pending
      unfold placeFront
      generalize self.takeTurn slot block pending = turned at ring ⊢
      obtain ⟨indexed, pending'⟩ := turned
      dsimp only at ring ⊢
      rw [← ring]
      split
      · exact KeepsBack.refl
      · split <;> exact KeepsBack.refl
      · rename_i files disk _
        have removed : KeepsBack indexed.blocks (popBlockBack { indexed with files, disk }).2.blocks :=
          popBlockBack_keepsBack { indexed with files, disk }
        split
        · rename_i popped
          rw [popped] at removed
          exact removed
        · rename_i popped
          rw [popped] at removed
          exact removed.trans (ih pending')

/-- A placed block keeps the lowest slot unless it makes room. -/
theorem pushFrontBlock_keepsBack (block : BlockWithBinary) :
    KeepsBack self.blocks (self.pushFrontBlock turn slot block).2.blocks := by
  have placed : KeepsBack self.blocks
      (self.placeFront slot block (self.blocks.blocks.size + 1) (some turn)).2.blocks :=
    placeFront_keepsBack block _ _
  unfold pushFrontBlock
  split
  · rename_i failed
    rw [failed] at placed
    exact placed
  · rename_i found
    rw [found] at placed
    exact placed.trans (pushBlockFront2_keepsBack rfl)

/-- A push at the front keeps the lowest slot unless it makes room. -/
theorem pushBlockFront_keepsBack :
    KeepsBack self.blocks (self.pushBlockFront turn slot added).2.blocks := by
  unfold pushBlockFront
  split
  · exact KeepsBack.refl
  · have room : KeepsBack self.blocks
        (if self.blocks.isFull then self.popBlockBack else (.ok (), self)).2.blocks := by
      split
      · exact self.popBlockBack_keepsBack
      · exact KeepsBack.refl
    split
    · rename_i made
      rw [made] at room
      exact room
    · rename_i made
      rw [made] at room
      refine room.trans ?_
      cases added with
      | none => exact pushBlockFront2_keepsBack rfl
      | some block => exact pushFrontBlock_keepsBack block

/-- A push at the back is no eviction. -/
theorem pushBlockBack_evictions :
    (self.pushBlockBack turn slot added).2.blocks.evictions = self.blocks.evictions := by
  unfold pushBlockBack
  split
  · rfl
  · split
    · rfl
    · cases added with
      | none => exact pushBlockBack2_evictions
      | some block =>
          dsimp only
          split
          · rfl
          · rfl
          · exact pushBlockBack2_evictions

/-- A block that the store takes at the back has the lowest slot. -/
theorem pushBlockBack_getBackSlot {lowest : Nat} {after : Store}
    (known : self.blocks.getBackSlot = some lowest)
    (pushed : self.pushBlockBack turn slot added = (.ok true, after)) :
    after.blocks.getBackSlot = some slot := by
  unfold pushBlockBack at pushed
  split at pushed
  · cases pushed
  · split at pushed
    · cases pushed
    · cases added with
      | none =>
          obtain ⟨success, rfl⟩ := Prod.mk.inj pushed
          exact pushBlockBack2_getBackSlot rfl known (ok_of_map success)
      | some block =>
          dsimp only at pushed
          split at pushed
          · cases pushed
          · cases pushed
          · obtain ⟨success, rfl⟩ := Prod.mk.inj pushed
            exact pushBlockBack2_getBackSlot rfl known (ok_of_map success)

/-- A push right before the lowest slot subtracts nothing from zero. -/
theorem pushBlockBack_underflow (known : self.blocks.getBackSlot = some (slot + 1)) :
    Avoids StorageError.Underflow (self.pushBlockBack turn slot added).1 := by
  have ring {block : StoredBlock} : Avoids StorageError.Underflow
      ((self.blocks.pushBlockBack2 block).1.map fun _ => true) := by
    unfold pushBlockBack2
    dsimp only
    split <;> simp [StorageError.Underflow, Except.map]
  have add (value : Nat) : Avoids StorageError.Underflow (addOne value) := by
    unfold addOne
    split <;> simp [StorageError.Underflow]
  have height (found : Option StoredBlock) : Avoids StorageError.Underflow (heightOf found) := by
    unfold heightOf
    split
    · simp
    · split <;> simp [StorageError.Underflow]
  have checks : Avoids StorageError.Underflow
      (checkBackSlot self.blocks slot >>= fun _ => checkBackHeight self.blocks slot added) := by
    refine Avoids.bind ?_ fun _ => (height _).bind fun back => ?_
    · rw [checkBackSlot, known]
      simp [subOne, bind, Except.bind]
    · split
      · split
        · simp [StorageError.Underflow]
        · refine (add _).bind fun next => ?_
          split <;> simp [StorageError.Underflow]
      · simp
  unfold pushBlockBack
  split
  · rename_i rejected
    rw [rejected] at checks
    simpa using checks
  · split
    · simp
    · cases added with
      | none => exact ring
      | some block =>
          have written : FailsInFiles (self.files.pushBlockBack self.disk block.protobuf).1 :=
            StorageFilesWrite.pushBlock_fails _ _ .back
          dsimp only
          split
          · rename_i failed
            rw [failed] at written
            simp only [avoids_error, not_not] at written ⊢
            intro underflow
            rw [StorageError.Underflow] at underflow
            simp [underflow, StorageError.OfFiles] at written
          · simp
          · exact ring

end Store

namespace WriteState

/-- The call of `push_block_back` for the next slot of the backfill returns false. -/
def RefusesBack (self : WriteState) : Prop :=
  ∃ slot ∈ self.nextBackSlot, ∃ block ∈ self.queuedSlotsBack.get slot,
    Write.slotBeforeBack self.store.blocks = some slot ∧
      (self.store.pushBlockBack (self.turns slot) slot block).1 = .ok false

/-- The backfill begins at this state, with this lowest slot in the ring. -/
structure Begins (upto back : Nat) (writer : WriteState) : Prop where
  last : writer.backfillUpto = some upto
  waits : writer.nextBackSlot = none
  lowest : writer.store.blocks.getBackSlot = some back
  positive : 0 < back
  bounded : back ≤ maxSlot

/-- The new requests lie between the last slot of the backfill and the lowest stored slot. -/
def RequestsWithin (upto back : Nat) (before after : WriteState) : Prop :=
  ∀ slot ∈ after.http.inprogress, slot ∈ before.http.inprogress ∨ (upto ≤ slot ∧ slot < back)

/-- A backfill that ends without a refused push and without an eviction has stored its last slot. -/
def EndsBelow (upto : Nat) (started before after : WriteState) : Prop :=
  before.backfillUpto.isSome = true → after.backfillUpto = none → ¬ before.RefusesBack →
    after.store.blocks.evictions = started.store.blocks.evictions →
    ∃ lowest, after.store.blocks.getBackSlot = some lowest ∧ lowest ≤ upto

end WriteState

namespace Write

open Command WriteState

/-- One call of the backfill requests only its own slots, stays above zero, and ends at its last
slot. -/
def CoversRange (upto back : Nat) (started before : WriteState) : Prop :=
  wp backfill (fun _ after => RequestsWithin upto back before after ∧ EndsBelow upto started before after)
    (fun reason after => RequestsWithin upto back before after ∧
      ∀ error, reason = .storage error → ¬ error.Underflow) before

/-- The run over the events comes to a call of the backfill in its last event. -/
inductive CallsBackfill : WriteState → List WriteEvent → WriteState → Prop
  | last {before called : WriteState} {event : WriteEvent}
      (calls : (stepFront event).run.run before = (.ok true, called)) :
      CallsBackfill before [event] called
  | later {before after called : WriteState} {event : WriteEvent} {events : List WriteEvent}
      (stepped : (step event).run.run before = (.ok (), after))
      (calls : CallsBackfill after events called) : CallsBackfill before (event :: events) called

section invariant

variable {upto back : Nat} {started before after : WriteState}

/-- The cursors of the backfill stay between its last slot and the ring. -/
structure InRange (upto back : Nat) (started writer : WriteState) : Prop where
  grows : started.store.blocks.evictions ≤ writer.store.blocks.evictions
  last : ∀ value ∈ writer.backfillUpto, value = upto
  next : writer.backfillUpto.isSome = true → ∃ slot, writer.nextBackSlot = some slot ∧
    upto ≤ slot ∧ slot < back ∧ (writer.store.blocks.evictions = started.store.blocks.evictions →
      writer.store.blocks.getBackSlot = some (slot + 1))
  request : writer.nextBackRequestSlot ≠ maxSlot →
    upto ≤ writer.nextBackRequestSlot + 1 ∧ writer.nextBackRequestSlot < back

/-- The invariant depends on the cursors and on the ring alone. -/
theorem InRange.of_cursors {other : WriteState} (kept : InRange upto back started before)
    (next : other.nextBackSlot = before.nextBackSlot)
    (request : other.nextBackRequestSlot = before.nextBackRequestSlot)
    (last : other.backfillUpto = before.backfillUpto)
    (ring : before.store.blocks.KeepsBack other.store.blocks) : InRange upto back started other := by
  have grows := kept.grows.trans ring.grows
  refine ⟨grows, by rw [last]; exact kept.last, fun enabled => ?_, by rw [request]; exact kept.request⟩
  rw [last] at enabled
  obtain ⟨slot, isNext, above, below, lowest⟩ := kept.next enabled
  refine ⟨slot, next.trans isNext, above, below, fun same => ?_⟩
  have lower := kept.grows
  have upper := ring.grows
  exact ring.lowest (by omega) (slot + 1) (lowest (by omega))

/-- The front of the writer moves no cursor of the backfill. -/
theorem inRange_closed : FrontClosed (InRange upto back started) where
  same := by
    intro before after kept back _ store
    simp only [backPart, Prod.mk.injEq] at back
    refine kept.of_cursors back.2.1 back.2.2.1 back.2.2.2 ?_
    rw [store]
    exact StoredBlocksWrite.KeepsBack.refl
  fetch := fun slot kept => kept.of_cursors rfl rfl rfl StoredBlocksWrite.KeepsBack.refl
  send := fun message other kept => kept.of_cursors rfl rfl rfl
    ⟨(StoredBlocksWrite.evictions_append other).ge, fun _ _ known => known⟩
  push := fun turn slot block kept => kept.of_cursors rfl rfl rfl Store.pushBlockFront_keepsBack

/-- An answer to a request moves no cursor of the backfill. -/
theorem inRange_routes (event : WriteEvent) (kept : InRange upto back started before) :
    Routes (InRange upto back started) event before := by
  cases event with
  | httpBlock slot block =>
      simp only [Routes]
      split
      · unfold WriteState.routeBlock
        dsimp only
        split
        · exact kept.of_cursors rfl rfl rfl StoredBlocksWrite.KeepsBack.refl
        · split
          · split <;> exact kept.of_cursors rfl rfl rfl StoredBlocksWrite.KeepsBack.refl
          · exact kept.of_cursors rfl rfl rfl StoredBlocksWrite.KeepsBack.refl
      · intro _
        unfold WriteState.routeCatchup
        dsimp only
        split <;> exact kept.of_cursors rfl rfl rfl StoredBlocksWrite.KeepsBack.refl
  | _ => trivial

/-- The part of a call before the next block is stored only adds requests. -/
structure Requested (upto back : Nat) (before after : WriteState) : Prop where
  store : after.store = before.store
  turns : after.turns = before.turns
  queued : after.queuedSlotsBack = before.queuedSlotsBack
  next : after.nextBackSlot = before.nextBackSlot
  last : after.backfillUpto = before.backfillUpto
  within : RequestsWithin upto back before after

theorem RequestsWithin.refl : RequestsWithin upto back before before := fun _ inside => Or.inl inside

/-- The first requests start at the next slot. -/
theorem startRequests_requested {slot : Nat} (above : upto ≤ slot) (below : slot < back)
    (request : before.nextBackRequestSlot ≠ maxSlot →
      upto ≤ before.nextBackRequestSlot + 1 ∧ before.nextBackRequestSlot < back) :
    wp (startRequests slot) (fun _ after => Requested upto back before after ∧
      upto ≤ after.nextBackRequestSlot + 1 ∧ after.nextBackRequestSlot < back)
      (fun _ _ => False) before := by
  simp only [startRequests, wp_modify]
  split
  · exact ⟨⟨rfl, rfl, rfl, rfl, rfl, RequestsWithin.refl⟩, Nat.le_succ_of_le above, below⟩
  · rename_i requested
    exact ⟨⟨rfl, rfl, rfl, rfl, rfl, RequestsWithin.refl⟩, request requested⟩

/-- The requests go down to the last slot and no further. -/
theorem requestBack_requested (positive : 0 < upto) {middle : WriteState}
    (requested : Requested upto back before middle)
    (within : upto ≤ middle.nextBackRequestSlot + 1 ∧ middle.nextBackRequestSlot < back) :
    wp (requestBack upto) (fun _ after => Requested upto back before after ∧
      upto ≤ after.nextBackRequestSlot + 1 ∧ after.nextBackRequestSlot < back)
      (fun _ _ => False) middle := by
  simp only [requestBack, wp_bind, wp_get]
  refine wp_loop (fun request after => Requested upto back before after ∧
    upto ≤ request + 1 ∧ request < back) (fun request _ => request + 1 - upto) ?_ (by omega)
    ⟨requested, within⟩
  rintro request after ⟨requested, above, below⟩
  simp only [requestNextBack, wp_bind, wp_get]
  split
  · rename_i wanted
    simp only [Bool.and_eq_true, decide_eq_true_eq] at wanted
    have inside : 0 < request := by omega
    simp only [wp_bind, wp_modify]
    refine wp_checked ?_ fun error failed => ?_
    · intro next known
      have lower := subOne_eq_ok known
      refine ⟨⟨{ requested with within := ?_ }, by omega, by omega⟩, by omega⟩
      intro slot member
      rw [HttpBlocks.mem_fetch] at member
      rcases member with rfl | old
      · exact Or.inr ⟨wanted.1, below⟩
      · exact requested.within slot old
    · rw [subOne, if_pos inside] at failed
      cases failed
  · exact ⟨{ requested with }, above, below⟩

/-- What one call of the backfill leaves behind. -/
def Covered (upto back : Nat) (started before after : WriteState) : Prop :=
  InRange upto back started after ∧ RequestsWithin upto back before after ∧
    EndsBelow upto started before after

/-- A call that ends the backfill keeps the requests that it made. -/
theorem covered_of_end (kept : InRange upto back started before) (ended : after.backfillUpto = none)
    (request : upto ≤ after.nextBackRequestSlot + 1 ∧ after.nextBackRequestSlot < back)
    (same : after.store.blocks.evictions = before.store.blocks.evictions)
    (within : RequestsWithin upto back before after) (ends : EndsBelow upto started before after) :
    Covered upto back started before after := by
  refine ⟨⟨kept.grows.trans same.ge, ?_, ?_, fun _ => request⟩, within, ends⟩
  · rw [ended]
    exact fun value member => (by cases member)
  · rw [ended]
    exact fun enabled => (by cases enabled)

/-- The block at the next slot is stored, or the backfill ends. -/
theorem storeBack_covered {middle : WriteState} {slot : Nat} {block : Option BlockWithBinary}
    (kept : InRange upto back started before) (requested : Requested upto back before middle)
    (request : upto ≤ middle.nextBackRequestSlot + 1 ∧ middle.nextBackRequestSlot < back)
    (next : before.nextBackSlot = some slot) (queued : before.queuedSlotsBack.get slot = some block)
    (above : upto ≤ slot) (below : slot < back) (positive : 0 < upto)
    (lowest : before.store.blocks.evictions = started.store.blocks.evictions →
      before.store.blocks.getBackSlot = some (slot + 1)) :
    wp (storeBack upto slot block) (fun _ after => Covered upto back started before after)
      (fun reason after => RequestsWithin upto back before after ∧
        ∀ error, reason = .storage error → ¬ error.Underflow) middle := by
  have inside : 0 < slot := by omega
  have last : ∀ value ∈ middle.backfillUpto, value = upto := by
    rw [requested.last]
    exact kept.last
  simp only [storeBack, wp_bind, wp_modify]
  refine wp_checked ?_ fun error failed => ?_
  · intro previous known
    have lower := subOne_eq_ok known
    simp only [pushBack, wp_bind, wp_get, requested.store, requested.turns]
    split
    · rename_i borders
      have back : before.store.blocks.getBackSlot = some (slot + 1) := by
        rw [slotBeforeBack, Option.bind_eq_some_iff] at borders
        obtain ⟨found, isBack, same⟩ := borders
        split at same
        · cases same
        · have equal : found - 1 = slot := Option.some.inj same
          rw [isBack]
          congr 1
          omega
      refine wp_onStore ?_ ?_
      · intro added store pushed
        have same : store.blocks.evictions = before.store.blocks.evictions := by
          have kept : (before.store.pushBlockBack (before.turns slot) slot block).2.blocks.evictions =
              before.store.blocks.evictions := Store.pushBlockBack_evictions
          rwa [pushed] at kept
        split
        · rename_i ends
          rw [wp_modify]
          refine covered_of_end kept rfl request same requested.within fun _ _ accepted _ => ?_
          cases added with
          | false =>
              exact absurd ⟨slot, next, block, queued, borders, by rw [pushed]⟩ accepted
          | true =>
              have final : slot = upto := by simpa using ends
              exact ⟨slot, Store.pushBlockBack_getBackSlot back pushed, final.le⟩
        · rename_i goes
          simp only [Bool.or_eq_true, Bool.not_eq_true', decide_eq_true_eq, not_or,
            Bool.not_eq_false] at goes
          obtain ⟨rfl, more⟩ := goes
          refine ⟨⟨kept.grows.trans same.ge, last, fun _ => ?_, fun _ => request⟩, requested.within, ?_⟩
          · refine ⟨previous, rfl, by omega, by omega, fun _ => ?_⟩
            rw [← lower]
            exact Store.pushBlockBack_getBackSlot back pushed
          · intro enabled ended
            rw [← requested.last, ended] at enabled
            cases enabled
      · intro error store failed
        refine ⟨requested.within, ?_⟩
        rintro _ ⟨⟩
        have clear : Avoids StorageError.Underflow
            (before.store.pushBlockBack (before.turns slot) slot block).1 :=
          Store.pushBlockBack_underflow back
        rw [failed] at clear
        simpa using clear
    · rename_i apart
      refine covered_of_end kept rfl request rfl requested.within ?_
      intro _ _ _ same
      refine absurd ?_ apart
      rw [slotBeforeBack, lowest same]
      rfl
  · rw [subOne, if_pos inside] at failed
    cases failed

/-- A call of the backfill keeps the cursors in their range. -/
theorem backfill_covered (positive : 0 < upto) (kept : InRange upto back started before) :
    wp backfill (fun _ after => Covered upto back started before after)
      (fun reason after => RequestsWithin upto back before after ∧
        ∀ error, reason = .storage error → ¬ error.Underflow) before := by
  simp only [backfill, wp_bind, wp_get]
  cases last : before.backfillUpto with
  | none =>
      refine ⟨kept, RequestsWithin.refl, fun enabled => ?_⟩
      rw [last] at enabled
      cases enabled
  | some value =>
      obtain rfl := kept.last value last
      obtain ⟨slot, next, above, below, lowest⟩ := kept.next (by rw [last]; rfl)
      rw [next]
      simp only [continueBackfill, wp_bind]
      refine wp_mono (startRequests_requested above below kept.request) ?_ fun _ _ never => never.elim
      rintro _ middle ⟨requested, within⟩
      refine wp_mono (requestBack_requested positive requested within) ?_ fun _ _ never => never.elim
      rintro _ after ⟨requested, within⟩
      rw [wp_get, requested.queued]
      split
      · refine ⟨⟨?_, ?_, ?_, fun _ => within⟩, requested.within, ?_⟩
        · rw [requested.store]
          exact kept.grows
        · rw [requested.last]
          exact kept.last
        · rw [requested.last, requested.next, requested.store]
          exact kept.next
        · intro enabled ended
          rw [← requested.last, ended] at enabled
          cases enabled
      · rename_i block queued
        exact storeBack_covered kept requested within next queued above below positive lowest

/-- The first call sets the cursor right below the ring, or the ring reaches the last slot. -/
theorem backfill_begins (begins : started.Begins upto back)
    (noRequest : started.nextBackRequestSlot = maxSlot) (apart : back ≠ upto + 1) :
    wp backfill (fun _ after => Covered upto back started started after) (fun _ _ => False) started := by
  have positive := begins.positive
  have before : slotBeforeBack started.store.blocks = some (back - 1) := by
    rw [slotBeforeBack, begins.lowest, Option.bind_some, if_neg positive.ne']
  simp only [backfill, wp_bind, wp_get, begins.last, begins.waits, startBackfill, wp_modify, before]
  split
  · rename_i above
    refine ⟨⟨le_rfl, ?_, fun _ => ?_, fun requested => absurd noRequest requested⟩,
      RequestsWithin.refl, ?_⟩
    · exact fun value member => (Option.some.inj member).symm
    · refine ⟨back - 1, rfl, above.le, by omega, fun _ => ?_⟩
      rw [Nat.sub_add_cancel positive]
      exact begins.lowest
    · exact fun _ ended => (by cases ended)
  · refine ⟨⟨le_rfl, fun value member => (by cases member), fun enabled => (by cases enabled),
      fun requested => absurd noRequest requested⟩, RequestsWithin.refl, fun _ _ _ _ => ?_⟩
    exact ⟨back, begins.lowest, by omega⟩

theorem inRange_keepsBackfill (positive : 0 < upto) : Keeps (InRange upto back started) backfill :=
  fun _ kept => wp_mono (backfill_covered positive kept) (fun _ _ covered => covered.1) fun _ _ _ => trivial

/-- Every later call of the run covers the range. -/
theorem CallsBackfill.covers {events : List WriteEvent} {called : WriteState} (positive : 0 < upto)
    (calls : CallsBackfill before events called) (kept : InRange upto back started before) :
    CoversRange upto back started called := by
  induction calls with
  | last calls =>
      have reached :=
        (wp_iff.mp (stepFront_keeps inRange_closed _ (inRange_routes _ kept) kept)).1 _ _ calls
      exact wp_mono (backfill_covered positive reached) (fun _ _ covered => covered.2)
        fun _ _ stopped => stopped
  | later stepped _ ih =>
      refine ih ((wp_iff.mp (step_keeps inRange_closed (inRange_keepsBackfill positive) _
        (inRange_routes _ kept) kept)).1 _ _ stepped)

end invariant

section start

/-- Without a next slot the backfill has made no request. -/
def NoRequest (writer : WriteState) : Prop :=
  writer.nextBackSlot = none → writer.nextBackRequestSlot = maxSlot

variable {self : WriteState}

theorem NoRequest.of_cursors {other : WriteState} (kept : NoRequest self)
    (next : other.nextBackSlot = self.nextBackSlot)
    (request : other.nextBackRequestSlot = self.nextBackRequestSlot) : NoRequest other := by
  rw [NoRequest, next, request]
  exact kept

theorem noRequest_closed : FrontClosed NoRequest where
  same := by
    intro before after kept back _ _
    simp only [backPart, Prod.mk.injEq] at back
    exact kept.of_cursors back.2.1 back.2.2.1
  fetch := fun _ kept => kept
  send := fun _ _ kept => kept
  push := fun _ _ _ kept => kept

/-- The answer to a request moves no cursor. -/
theorem noRequest_routes (event : WriteEvent) (kept : NoRequest self) : Routes NoRequest event self := by
  cases event with
  | httpBlock slot block =>
      simp only [Routes]
      split
      · unfold WriteState.routeBlock
        dsimp only
        split
        · exact kept
        · split
          · split <;> exact kept
          · exact kept
      · intro _
        unfold WriteState.routeCatchup
        dsimp only
        split <;> exact kept
  | _ => trivial

/-- The backfill has a next slot from its start on. -/
def HasNext (writer : WriteState) : Prop := writer.nextBackSlot ≠ none

/-- A next slot stays once it is there. -/
theorem continueBackfill_hasNext (upto slot : Nat) : Keeps HasNext (continueBackfill upto slot) := by
  have started : Keeps HasNext (startRequests slot) := keeps_modify fun self known => by
    split <;> exact known
  have requested : Keeps HasNext (requestBack upto) := by
    refine keeps_get.bind fun _ => (keeps_loop (fun _ => ?_) _ _).bind fun _ =>
      keeps_modify fun _ known => known
    refine keeps_get.bind fun _ => Keeps.ite (fun _ => ?_) fun _ => keeps_pure _
    exact Keeps.bind (keeps_modify fun _ known => known) fun _ =>
      (checked_keeps _).bind fun _ => keeps_pure _
  have stored (block : Option BlockWithBinary) : Keeps HasNext (storeBack upto slot block) := by
    refine Keeps.bind (keeps_modify fun _ known => known) fun _ => (checked_keeps _).bind fun _ =>
      Keeps.bind (keeps_modify fun _ _ => Option.some_ne_none _) fun _ => ?_
    refine Keeps.bind ?_ fun _ => Keeps.ite (fun _ => keeps_modify fun _ known => known)
      fun _ => keeps_pure _
    exact keeps_get.bind fun _ => Keeps.ite (fun _ => onStore_keeps fun _ known => known)
      fun _ => keeps_pure _
  refine started.bind fun _ => requested.bind fun _ => keeps_get.bind fun self => ?_
  split
  · exact keeps_pure _
  · exact stored _

theorem noRequest_keepsBackfill : Keeps NoRequest backfill := by
  intro self kept
  simp only [backfill, wp_bind, wp_get]
  split
  · rename_i upto slot _ next
    refine wp_mono (continueBackfill_hasNext upto slot self ?_) ?_ fun _ _ _ => trivial
    · rw [HasNext, next]
      exact Option.some_ne_none slot
    · exact fun _ _ known none => absurd none known
  · simp only [startBackfill, wp_modify]
    split
    · exact kept
    · split
      · exact fun none => (by cases none)
      · exact kept
  · exact kept

/-- No call of the run finds requests without a next slot. -/
theorem CallsBackfill.noRequest {before called : WriteState} {events : List WriteEvent}
    (calls : CallsBackfill before events called) (kept : NoRequest before) : NoRequest called := by
  induction calls with
  | last calls =>
      exact (wp_iff.mp (stepFront_keeps noRequest_closed _ (noRequest_routes _ kept) kept)).1 _ _ calls
  | later stepped _ ih =>
      refine ih ((wp_iff.mp (step_keeps noRequest_closed noRequest_keepsBackfill _
        (noRequest_routes _ kept) kept)).1 _ _ stepped)

end start

/-- When the last slot of the backfill is above zero and not right below the ring, every call of the
backfill from the one that begins it covers the range. -/
theorem start2_coversRange (store : Store) (turns : Nat → Nat) (concurrency : Nat)
    (backfillUpto popSlotsBack popSlotsFront firstAvailableBlock : Option Nat) (slots : NodeSlots)
    (events : List WriteEvent) (prepared started : WriteState) (upto back : Nat)
    (ready : (prepare popSlotsBack popSlotsFront firstAvailableBlock slots).run.run
      (WriteState.new store turns concurrency backfillUpto) = (.ok (), prepared))
    (calls : CallsBackfill prepared events started) (begins : started.Begins upto back)
    (positive : 0 < upto) (apart : back ≠ upto + 1) :
    CoversRange upto back started started ∧
      ∀ first later called, backfill.run.run started = (.ok (), first) →
        CallsBackfill first later called → CoversRange upto back started called := by
  have fresh : NoRequest prepared :=
    (wp_iff.mp (prepare_keeps noRequest_closed (fun _ _ kept => kept) popSlotsBack popSlotsFront
      firstAvailableBlock slots _ (fun _ => rfl))).1 _ _ ready
  have covered := backfill_begins begins (calls.noRequest fresh begins.waits) apart
  refine ⟨wp_mono covered (fun _ _ covered => covered.2) fun _ _ never => never.elim, ?_⟩
  intro first later called began after
  exact after.covers positive ((wp_iff.mp covered).1 _ _ began).1

/-- The writer with one stored slot and a backfill below it. -/
def rangePrepared (lowest upto : Nat) : Except WriteStop Unit × WriteState :=
  (prepare none none (some 0) (some (20, 21))).run.run
    (WriteState.new (oneSlotStore lowest) (fun _ => 0) 4 (some upto))

/-- The stream starts, and the iteration comes to its backfill. -/
def rangeStarted (lowest upto : Nat) : Except WriteStop Bool × WriteState :=
  (stepFront (.message .start none)).run.run (rangePrepared lowest upto).2

def rangeFirst (lowest upto : Nat) : Except WriteStop Unit × WriteState :=
  backfill.run.run (rangeStarted lowest upto).2

/-- The next message comes to the first requests. -/
def rangeCalled (lowest upto : Nat) : Except WriteStop Bool × WriteState :=
  (stepFront (.message .start none)).run.run (rangeFirst lowest upto).2

/-- Five slots below the ring are requested down to the last one. -/
theorem start2_coversRange_five :
    CoversRange 5 10 (rangeStarted 10 5).2 (rangeStarted 10 5).2 ∧
      CoversRange 5 10 (rangeStarted 10 5).2 (rangeCalled 10 5).2 := by
  have ready : (rangePrepared 10 5).1 = .ok () := by decide +kernel
  have calls : (rangeStarted 10 5).1 = .ok true := by decide +kernel
  have began : (rangeFirst 10 5).1 = .ok () := by decide +kernel
  have again : (rangeCalled 10 5).1 = .ok true := by decide +kernel
  have begins : (rangeStarted 10 5).2.Begins 5 10 := by
    refine ⟨?_, ?_, ?_, ?_, ?_⟩ <;> decide +kernel
  have covers := start2_coversRange (oneSlotStore 10) (fun _ => 0) 4 (some 5) none none (some 0)
    (some (20, 21)) [.message .start none] (rangePrepared 10 5).2 (rangeStarted 10 5).2 5 10
    (Prod.ext ready rfl) (.last (Prod.ext calls rfl)) begins (by decide) (by decide)
  exact ⟨covers.1, covers.2 _ _ _ (Prod.ext began rfl) (.last (Prod.ext again rfl))⟩

/-- A range of one slot ends with the slot missing, and the request for slot zero is the last one
before the subtraction below zero. -/
theorem coversRange_false :
    ((rangePrepared 10 9).1 = .ok () ∧
      CallsBackfill (rangePrepared 10 9).2 [.message .start none] (rangeStarted 10 9).2 ∧
      (rangeStarted 10 9).2.Begins 9 10 ∧
      ¬ CoversRange 9 10 (rangeStarted 10 9).2 (rangeStarted 10 9).2) ∧
    ((rangePrepared 3 0).1 = .ok () ∧
      CallsBackfill (rangePrepared 3 0).2 [.message .start none] (rangeStarted 3 0).2 ∧
      (rangeStarted 3 0).2.Begins 0 3 ∧
      (rangeFirst 3 0).1 = .ok () ∧
      CallsBackfill (rangeFirst 3 0).2 [.message .start none] (rangeCalled 3 0).2 ∧
      ¬ CoversRange 0 3 (rangeStarted 3 0).2 (rangeCalled 3 0).2) := by
  have single : (rangeStarted 10 9).1 = .ok true := by decide +kernel
  have zero : (rangeStarted 3 0).1 = .ok true := by decide +kernel
  have again : (rangeCalled 3 0).1 = .ok true := by decide +kernel
  refine ⟨⟨by decide +kernel, .last (Prod.ext single rfl), ?_, ?_⟩,
    by decide +kernel, .last (Prod.ext zero rfl), ?_, by decide +kernel, .last (Prod.ext again rfl), ?_⟩
  · refine ⟨?_, ?_, ?_, ?_, ?_⟩ <;> decide +kernel
  · intro covers
    have ended : (rangeFirst 10 9).1 = .ok () := by decide +kernel
    have waits : (rangeStarted 10 9).2.nextBackSlot = none := by decide +kernel
    have lowest : (rangeFirst 10 9).2.store.blocks.getBackSlot = some 10 := by decide +kernel
    have idle : ¬ (rangeStarted 10 9).2.RefusesBack := by
      rintro ⟨slot, member, -⟩
      rw [waits] at member
      cases member
    obtain ⟨found, isLowest, reaches⟩ := ((wp_iff.mp covers).1 () (rangeFirst 10 9).2
      (Prod.ext ended rfl)).2 (by decide +kernel) (by decide +kernel) idle (by decide +kernel)
    obtain rfl := Option.some.inj (lowest.symm.trans isLowest)
    omega
  · refine ⟨?_, ?_, ?_, ?_, ?_⟩ <;> decide +kernel
  · intro covers
    have stopped : (backfill.run.run (rangeCalled 3 0).2).1 =
        .error (.storage (.panicked "attempt to subtract with overflow")) := by decide +kernel
    exact ((wp_iff.mp covers).2 _ _ (Prod.ext stopped rfl)).2 _ rfl rfl

end Write

end Alpamayo
