import Alpamayo.Proof.Backfill
import Alpamayo.Proof.StandingBlocks
import Alpamayo.Proof.WriterReplica
import Mathlib.Tactic.IntervalCases

/-!
This file shows when the commitment levels of a reader stay in order.
-/

namespace Alpamayo

namespace StorageProcessed

variable {self : StorageProcessed} {slot : Nat} {block : BlockWithBinary}

/-- A finalized slot is confirmed, and a confirmed slot is processed. -/
structure Levels (state : StorageProcessed) : Prop where
  finalized : state.finalizedSlot ≤ state.confirmedSlot
  confirmed : state.confirmedSlot ≤ state.processedSlot

instance decidableLevels (state : StorageProcessed) : Decidable state.Levels :=
  decidable_of_iff
    (state.finalizedSlot ≤ state.confirmedSlot ∧ state.confirmedSlot ≤ state.processedSlot)
    ⟨fun ⟨finalized, confirmed⟩ => ⟨finalized, confirmed⟩,
      fun ⟨finalized, confirmed⟩ => ⟨finalized, confirmed⟩⟩

/-- The three slots of two states are the same, but the second may have processed more. -/
structure Advances (before after : StorageProcessed) : Prop where
  finalized : after.finalizedSlot = before.finalizedSlot
  confirmed : after.confirmedSlot = before.confirmedSlot
  processed : before.processedSlot ≤ after.processedSlot

theorem Advances.refl (self : StorageProcessed) : self.Advances self := ⟨rfl, rfl, le_rfl⟩

theorem Advances.trans {first second third : StorageProcessed} (left : first.Advances second)
    (right : second.Advances third) : first.Advances third where
  finalized := right.finalized.trans left.finalized
  confirmed := right.confirmed.trans left.confirmed
  processed := left.processed.trans right.processed

/-- More processed slots keep the order. -/
theorem Levels.advance {after : StorageProcessed} (levels : self.Levels)
    (advances : self.Advances after) : after.Levels where
  finalized := by
    rw [advances.finalized, advances.confirmed]
    exact levels.finalized
  confirmed := by
    rw [advances.confirmed]
    exact levels.confirmed.trans advances.processed

theorem advances_updateProcessed (self : StorageProcessed) : self.Advances self.updateProcessed := by
  unfold updateProcessed
  split <;> exact ⟨rfl, rfl, le_max_left _ _⟩

theorem advances_addSignatures (self : StorageProcessed) (slot : Nat) (block : BlockWithBinary) :
    self.Advances (self.addSignatures slot block) := by
  unfold addSignatures
  split
  · exact .refl self
  · split <;> exact ⟨rfl, rfl, le_rfl⟩

theorem advances_addProcessedBlock (self : StorageProcessed) (slot : Nat)
    (block : BlockWithBinary) : self.Advances (self.addProcessedBlock slot block) := by
  apply (self.advances_addSignatures slot block).trans
  refine Advances.trans ?_ (advances_updateProcessed _)
  split <;> exact ⟨rfl, rfl, le_rfl⟩

theorem advances_markDead (self : StorageProcessed) (slot : Nat) :
    self.Advances (self.markDead slot) := by
  refine Advances.trans ?_ (advances_updateProcessed _)
  split
  · split <;> exact ⟨rfl, rfl, le_rfl⟩
  · exact ⟨rfl, rfl, le_rfl⟩

theorem advances_evictRecent (self : StorageProcessed) : self.Advances self.evictRecent := by
  have removals (entries : List (Nat × RecentBlock)) (start : StorageProcessed) :
      start.Advances (entries.foldl (fun self entry => self.removeSignatures entry.2) start) := by
    induction entries generalizing start with
    | nil => exact .refl start
    | cons entry rest ih =>
        have first : start.Advances (start.removeSignatures entry.2) := ⟨rfl, rfl, le_rfl⟩
        exact first.trans (ih _)
  have start : self.Advances { self with
      recentBlocks := self.recentBlocks.popWhile (outdated self.confirmedHeight) } :=
    ⟨rfl, rfl, le_rfl⟩
  exact start.trans (removals (self.recentBlocks.popped (outdated self.confirmedHeight)) _)

/-- The processed slot is not below the confirmed one when all kept blocks are above it. -/
theorem confirmed_le_updateProcessed (self : StorageProcessed)
    (above : ∀ entry ∈ self.blocks.entries, self.confirmedSlot < entry.1) :
    self.confirmedSlot ≤ self.updateProcessed.processedSlot := by
  unfold updateProcessed
  split
  · rename_i place blockHeight found
    obtain ⟨entry, member, known⟩ := List.exists_of_findSome?_eq_some found
    obtain ⟨block, -, same⟩ := Option.map_eq_some_iff.mp known
    cases same
    exact (above entry (List.mem_reverse.mp member)).le.trans (le_max_right _ _)
  · exact le_max_right _ _

/-- A confirmation moves the confirmed slot and raises the processed one above it. -/
theorem setConfirmed_slots (self : StorageProcessed) (slot : Nat) (block : Option BlockWithBinary) :
    (self.setConfirmed slot block).finalizedSlot = self.finalizedSlot ∧
      slot ≤ (self.setConfirmed slot block).processedSlot := by
  let recorded : StorageProcessed := self.recordConfirmed slot block
  let kept : StorageProcessed := { recorded with
    confirmedSlot := slot
    confirmedHeight :=
      ((recorded.recentBlocks.get slot).map RecentBlock.blockHeight).getD recorded.confirmedHeight
    blocks := recorded.blocks.popWhile fun entry => entry.1 ≤ slot }
  have moved : self.setConfirmed slot block = kept.updateProcessed.evictRecent := rfl
  rw [moved]
  have first : self.Advances recorded := by
    cases block with
    | some block => exact self.advances_addSignatures slot block
    | none => exact .refl self
  have later : kept.Advances kept.updateProcessed.evictRecent :=
    kept.advances_updateProcessed.trans (advances_evictRecent _)
  refine ⟨later.finalized.trans first.finalized, ?_⟩
  refine le_trans ?_ (advances_evictRecent kept.updateProcessed).processed
  refine confirmed_le_updateProcessed kept fun entry member => ?_
  have found : (recorded.blocks.popWhile fun entry => entry.1 ≤ slot).get entry.1 = some entry.2 :=
    SortedMap.get_eq_some_iff.mpr member
  rw [SortedMap.get_popWhile_le] at found
  split at found
  · cases found
  · exact Nat.not_le.mp ‹_›

end StorageProcessed

namespace Reader

open StorageProcessed (run confirmations lastConfirmed Standing confirmedSlot_run le_lastConfirmed
  standing_of_recent ascending_concat)

variable {reader next : Reader} {message : ReadWriteSyncMessage}

/-- A finalized slot that the reader knows is confirmed already, and a confirmation does not go back
below the finalized slot. -/
def KeepsLevels (reader : Reader) : ReadWriteSyncMessage → Prop
  | .slotFinalized slot => slot ≤ reader.storageProcessed.confirmedSlot ∨
      reader.storageProcessed.recentBlocks.get slot = none
  | .blockConfirmed slot _ => reader.storageProcessed.finalizedSlot ≤ slot
  | _ => True

/-- A message that keeps the condition keeps the order. -/
theorem levels_update (levels : reader.storageProcessed.Levels) (keeps : reader.KeepsLevels message)
    (updated : reader.update message = .ok next) : next.storageProcessed.Levels := by
  cases message with
  | init blocks files recentBlocks => cases updated
  | blockNew slot block =>
      cases updated
      exact levels.advance (StorageProcessed.advances_addProcessedBlock _ slot block)
  | blockDead slot =>
      cases updated
      exact levels.advance (StorageProcessed.advances_markDead _ slot)
  | blockConfirmed slot block =>
      cases updated
      obtain ⟨finalized, processed⟩ :=
        StorageProcessed.setConfirmed_slots reader.storageProcessed slot block
      refine ⟨?_, ?_⟩
      · change (reader.storageProcessed.setConfirmed slot block).finalizedSlot ≤ _
        rw [finalized, StorageProcessed.setConfirmed_confirmedSlot]
        exact keeps
      · rw [StorageProcessed.setConfirmed_confirmedSlot]
        exact processed
  | slotFinalized slot =>
      cases updated
      simp only [StorageProcessed.setFinalized]
      cases known : reader.storageProcessed.recentBlocks.get slot with
      | none => exact levels
      | some recent =>
          refine ⟨keeps.resolve_right ?_, levels.confirmed⟩
          rw [known]
          exact Option.some_ne_none recent
  | confirmedBlockPopBack | confirmedBlockPopFront | confirmedBlockPushBack =>
      cases updated
      exact levels
  | confirmedBlockPushFront block =>
      change reader.pushFront block = _ at updated
      unfold pushFront at updated
      split at updated
      · cases updated
      · split at updated
        · cases updated
          exact levels
        · cases updated

/-- The recent blocks of the first message leave the levels in order. -/
theorem levels_init (blocks : StoredBlocksRead) (recentBlocks : List (Nat × BlockWithBinary)) :
    (init blocks recentBlocks).storageProcessed.Levels := by
  have folds (items : List (Nat × BlockWithBinary)) (start : StorageProcessed)
      (unfinalized : start.finalizedSlot = 0) (levels : start.Levels) :
      (items.foldl (fun processed item => processed.setConfirmed item.1 (some item.2))
        start).Levels := by
    induction items generalizing start with
    | nil => exact levels
    | cons item rest ih =>
        obtain ⟨finalized, processed⟩ := start.setConfirmed_slots item.1 (some item.2)
        refine ih _ (finalized.trans unfinalized) ⟨?_, ?_⟩
        · rw [finalized, unfinalized]
          exact Nat.zero_le _
        · rw [StorageProcessed.setConfirmed_confirmedSlot]
          exact processed
  exact folds recentBlocks StorageProcessed.default rfl ⟨le_rfl, le_rfl⟩

variable {blocks : StoredBlocksRead} {recentBlocks : List (Nat × BlockWithBinary)}
  {messages taken : List ReadWriteSyncMessage}

/-- The last message is applied to the state after the others. -/
theorem updates_concat_eq_ok
    (updated : (init blocks recentBlocks).updates (messages ++ [message]) = .ok reader) :
    ∃ middle, (init blocks recentBlocks).updates messages = .ok middle ∧
      middle.update message = .ok reader := by
  rw [updates_append] at updated
  cases before : (init blocks recentBlocks).updates messages with
  | error error =>
      rw [before] at updated
      cases updated
  | ok middle =>
      rw [before] at updated
      change middle.updates [message] = _ at updated
      cases step : middle.update message with
      | error error =>
          rw [updates, step] at updated
          cases updated
      | ok next =>
          rw [updates, step] at updated
          cases updated
          exact ⟨middle, rfl, step⟩

/-- The recent state of a reader is the run of what it heard. -/
theorem storageProcessed_updates (updated : (init blocks recentBlocks).updates messages = .ok reader) :
    reader.storageProcessed = StorageProcessed.run (heard recentBlocks messages) := by
  induction messages using List.reverseRecOn generalizing reader with
  | nil =>
      cases updated
      exact storageProcessed_init blocks
  | append_singleton messages message ih =>
      obtain ⟨middle, before, step⟩ := updates_concat_eq_ok updated
      rw [heard_concat]
      exact storageProcessed_update step (ih before)

/-- The confirmations ascend, those of the first message included, and a slot is finalized only after a
confirmation at or above it or while no processed block of it stands. -/
structure Ordered (recentBlocks : List (Nat × BlockWithBinary))
    (messages : List ReadWriteSyncMessage) : Prop where
  ascending : (confirmations (heard recentBlocks messages)).Pairwise (· ≤ ·)
  finalized : ∀ before slot, before ++ [.slotFinalized slot] <+: messages →
    (∃ earlier ∈ confirmations (heard recentBlocks before), slot ≤ earlier) ∨
      ∀ block, Standing slot block (heard recentBlocks before) → block.blockHeight = none

/-- An earlier part of an ordered broadcast is ordered. -/
theorem Ordered.before (ordered : Ordered recentBlocks messages) (initial : taken <+: messages) :
    Ordered recentBlocks taken where
  ascending := by
    obtain ⟨rest, rfl⟩ := initial
    refine ordered.ascending.sublist (List.Sublist.filterMap _ ?_)
    rw [heard, heard, List.filterMap_append, ← List.append_assoc]
    exact List.sublist_append_left _ _
  finalized := fun before slot final => ordered.finalized before slot (final.trans initial)

/-- In an ordered broadcast a slot that is finalized is confirmed or has no recent block. -/
theorem Ordered.slotFinalized {slot : Nat}
    (ordered : Ordered recentBlocks (messages ++ [.slotFinalized slot])) :
    slot ≤ (run (heard recentBlocks messages)).confirmedSlot ∨
      (run (heard recentBlocks messages)).recentBlocks.get slot = none := by
  have ascending := (ordered.before (List.prefix_append messages _)).ascending
  rw [confirmedSlot_run]
  rcases ordered.finalized messages slot List.prefix_rfl with ⟨earlier, member, below⟩ | absent
  · exact Or.inl (below.trans (le_lastConfirmed ascending member))
  · by_cases low : slot ≤ lastConfirmed (heard recentBlocks messages)
    · exact Or.inl low
    · cases found : (run (heard recentBlocks messages)).recentBlocks.get slot with
      | none => exact Or.inr rfl
      | some recent =>
          -- A recent block above the confirmed slot is that of a standing block.
          obtain ⟨block, blockHeight, height, -, standing⟩ :=
            standing_of_recent ascending found (Nat.not_le.mp low)
          rw [absent block standing] at height
          cases height

/-- The confirmed slot of an ordered broadcast does not go down. -/
theorem Ordered.blockConfirmed {slot : Nat} {block : Option BlockWithBinary}
    (ordered : Ordered recentBlocks (messages ++ [.blockConfirmed slot block])) :
    (run (heard recentBlocks messages)).confirmedSlot ≤ slot := by
  have ascending := ordered.ascending
  rw [heard_concat] at ascending
  rw [confirmedSlot_run]
  exact (ascending_concat.mp ascending).2 slot rfl

/-- Each message of an ordered broadcast keeps the condition in a state in order. -/
theorem Ordered.keepsLevels (ordered : Ordered recentBlocks (messages ++ [message]))
    (heardBefore : reader.storageProcessed = run (heard recentBlocks messages))
    (levels : reader.storageProcessed.Levels) : reader.KeepsLevels message := by
  cases message with
  | slotFinalized slot =>
      rw [KeepsLevels, heardBefore]
      exact ordered.slotFinalized
  | blockConfirmed slot block =>
      rw [KeepsLevels]
      refine levels.finalized.trans ?_
      rw [heardBefore]
      exact ordered.blockConfirmed
  | _ => trivial

/-- The levels are in order in every state that an ordered broadcast reaches. -/
theorem updates_levels (blocks : StoredBlocksRead) (recentBlocks : List (Nat × BlockWithBinary))
    (messages : List ReadWriteSyncMessage) (ordered : Ordered recentBlocks messages)
    (taken : List ReadWriteSyncMessage) (initial : taken <+: messages) (reader : Reader)
    (updated : (init blocks recentBlocks).updates taken = .ok reader) :
    reader.storageProcessed.Levels := by
  induction taken using List.reverseRecOn generalizing reader with
  | nil =>
      cases updated
      exact levels_init blocks recentBlocks
  | append_singleton taken message ih =>
      obtain ⟨middle, before, step⟩ := updates_concat_eq_ok updated
      have levels := ih ((List.prefix_append _ _).trans initial) middle before
      exact levels_update levels
        ((ordered.before initial).keepsLevels (storageProcessed_updates before) levels) step

/-- Slot 12 is processed before slot 11 is confirmed, and finalized after its own confirmation. -/
def steadyMessages : List ReadWriteSyncMessage :=
  [.blockNew 11 (.plain "b" 6 [⟨2⟩]), .blockNew 12 (.plain "c" 7 [⟨3⟩]),
    .blockConfirmed 11 (some (.plain "b" 6 [⟨2⟩])),
    .confirmedBlockPushFront (.newConfirmed 11 none (some 6) 0 8 8), .slotFinalized 10,
    .blockConfirmed 12 (some (.plain "c" 7 [⟨3⟩])),
    .confirmedBlockPushFront (.newConfirmed 12 none (some 7) 0 16 8), .slotFinalized 12]

theorem steadyMessages_ordered : Ordered [(10, .plain "a" 5 [⟨1⟩])] steadyMessages where
  ascending := by decide
  finalized := by
    rintro before slot ⟨rest, same⟩
    have here : steadyMessages[before.length]? = some (.slotFinalized slot) := by
      rw [← same]
      simp
    have taken : before = steadyMessages.take before.length := by
      rw [← same]
      simp
    have inside : before.length < 8 := (List.getElem?_eq_some_iff.mp here).1
    rw [taken]
    generalize before.length = place at here inside
    left
    interval_cases place <;> cases here <;> decide

/-- The reader after the messages. -/
def steadyReader : Except ReaderError Reader :=
  (init (Write.oneSlotStore 10).blocks.toRead [(10, .plain "a" 5 [⟨1⟩])]).updates steadyMessages

/-- The levels stay in order when each slot is finalized after its confirmation. -/
theorem updates_levels_steady : steadyReader.toOption.map (fun reader =>
      reader.storageProcessed.finalizedSlot) = some 12 ∧
    ∀ reader, steadyReader = .ok reader → reader.storageProcessed.Levels :=
  ⟨by decide +kernel, fun reader updated => updates_levels _ _ steadyMessages steadyMessages_ordered
    steadyMessages List.prefix_rfl reader updated⟩

/-- The stream assembles, confirms, and finalizes slot 12 while the answer for slot 11 is missing. -/
def delayedOutcome : Except WriteStop Unit × WriteState :=
  (Write.start2 none none none (some (10, 11))
    [.message .start none,
      .message (.block 12 { Writer.plainBlock 12 [] with parentSlot := 10 }) none,
      .message (.slotStatus 12 .confirmed) none, .message (.slotStatus 12 .finalized) none]).run.run
    (WriteState.new (Write.oneSlotStore 10) (fun _ => 0) 2 none)

/-- The reader that the messages of the delayed writer lead to. -/
def delayedReader : Except ReaderError Reader :=
  (init (Write.oneSlotStore 10).blocks.toRead []).updates delayedOutcome.2.store.blocks.sent

/-- The reader finalizes slot 12 while it has no confirmed slot yet. -/
theorem levels_false : delayedOutcome.1 = .ok () ∧ ¬ ∀ reader, delayedReader = .ok reader →
    reader.storageProcessed.Levels := by
  refine ⟨by decide +kernel, fun levels => ?_⟩
  cases known : delayedReader with
  | error error =>
      have fine : delayedReader.isOk = true := by decide +kernel
      rw [known] at fine
      cases fine
  | ok reader =>
      have ordered := (levels reader known).finalized
      have slots : delayedReader.toOption.map (fun reader =>
          (reader.storageProcessed.finalizedSlot, reader.storageProcessed.confirmedSlot)) =
          some (12, 0) := by decide +kernel
      rw [known] at slots
      simp only [Except.toOption, Option.map_some, Option.some.injEq, Prod.mk.injEq] at slots
      omega

end Reader

end Alpamayo
