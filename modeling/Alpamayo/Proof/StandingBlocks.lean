import Alpamayo.General.Since
import Alpamayo.Proof.ProcessedState
import Alpamayo.Storage.Read

/-!
This file tells from the messages alone which processed blocks the recent state keeps.
-/

namespace Alpamayo

namespace ProcessedUpdate

/-- The message brings a block of the slot or marks the slot dead. -/
def Mentions (slot : Nat) : ProcessedUpdate → Prop
  | .addProcessedBlock place _ => slot = place
  | .markDead place => slot = place
  | .setConfirmed _ _ | .setFinalized _ => False

/-- The message confirms the slot or a higher one. -/
def Passes (slot : Nat) : ProcessedUpdate → Prop
  | .setConfirmed place _ => slot ≤ place
  | _ => False

/-- A confirmation names its slot. -/
def confirms : ProcessedUpdate → Option Nat
  | .setConfirmed slot _ => some slot
  | _ => none

end ProcessedUpdate

namespace StorageProcessed

variable {updates : List ProcessedUpdate} {last : ProcessedUpdate} {slot other : Nat}
  {block : BlockWithBinary} {recent : RecentBlock}

/-- The confirmed slots are listed in the order of their messages. -/
def confirmations (updates : List ProcessedUpdate) : List Nat :=
  updates.filterMap ProcessedUpdate.confirms

/-- Before the first confirmation the last confirmed slot is zero. -/
def lastConfirmed (updates : List ProcessedUpdate) : Nat := (confirmations updates).getLastD 0

/-- The slot was mentioned after it was passed for the last time. -/
def Pending (slot : Nat) : List ProcessedUpdate → Prop :=
  Since (fun _ message => message.Mentions slot) fun later => ¬ later.Passes slot

/-- The block came first for its slot, and since then the slot was neither marked dead nor passed. -/
def Standing (slot : Nat) (block : BlockWithBinary) : List ProcessedUpdate → Prop :=
  Since (fun before message => message = .addProcessedBlock slot block ∧ ¬ Pending slot before)
    fun later => ¬ later.Passes slot ∧ later ≠ .markDead slot

theorem confirmations_concat : confirmations (updates ++ [last]) =
    confirmations updates ++ last.confirms.toList := by
  cases known : last.confirms <;> simp [confirmations, known]

theorem lastConfirmed_concat :
    lastConfirmed (updates ++ [last]) = last.confirms.getD (lastConfirmed updates) := by
  rw [lastConfirmed, confirmations_concat]
  cases last.confirms <;> simp [lastConfirmed]

theorem pending_concat : Pending slot (updates ++ [last]) ↔
    last.Mentions slot ∨ (Pending slot updates ∧ ¬ last.Passes slot) := since_concat

theorem standing_concat : Standing slot block (updates ++ [last]) ↔
    (last = .addProcessedBlock slot block ∧ ¬ Pending slot updates) ∨
      (Standing slot block updates ∧ ¬ last.Passes slot ∧ last ≠ .markDead slot) := since_concat

/-- The slot of a standing block is pending. -/
theorem Standing.pending (standing : Standing slot block updates) : Pending slot updates := by
  apply standing.mono
  · rintro before message ⟨rfl, -⟩
    rfl
  · exact fun later kept => kept.1

/-- The confirmed slot is the one of the last confirmation. -/
theorem confirmedSlot_run (updates : List ProcessedUpdate) :
    (run updates).confirmedSlot = lastConfirmed updates := by
  induction updates using List.reverseRecOn with
  | nil => rfl
  | append_singleton updates last ih =>
      rw [run_append, lastConfirmed_concat, ← ih]
      cases last with
      | addProcessedBlock slot block => exact addProcessedBlock_confirmedSlot
      | markDead slot => exact (markDead_frame (run updates) slot).2.1
      | setConfirmed slot confirmed => exact setConfirmed_confirmedSlot
      | setFinalized slot =>
          obtain ⟨_, _, equal⟩ := setFinalized_eq (run updates) slot
          rw [update, equal]
          rfl

/-- The map of blocks has the pending slots. -/
theorem containsKey_run (updates : List ProcessedUpdate) (slot : Nat) :
    (run updates).blocks.containsKey slot = true ↔ Pending slot updates := by
  induction updates using List.reverseRecOn with
  | nil => simp [run, default, SortedMap.containsKey, Pending]
  | append_singleton updates last ih =>
      rw [run_append, pending_concat, ← ih]
      cases last with
      | addProcessedBlock place block =>
          rw [update, containsKey_addProcessedBlock]
          simp [ProcessedUpdate.Mentions, ProcessedUpdate.Passes]
      | markDead place =>
          rw [update, (markDead_frame (run updates) place).1, SortedMap.containsKey_insert]
          simp [ProcessedUpdate.Mentions, ProcessedUpdate.Passes]
      | setConfirmed place confirmed =>
          rw [update, setConfirmed_blocks]
          simp only [SortedMap.containsKey, SortedMap.get_popWhile_le, ProcessedUpdate.Mentions,
            ProcessedUpdate.Passes]
          split <;> simp_all
      | setFinalized place =>
          obtain ⟨_, _, equal⟩ := setFinalized_eq (run updates) place
          rw [update, equal]
          simp [ProcessedUpdate.Mentions, ProcessedUpdate.Passes]

/-- A slot that is not pending is missing in the map of blocks. -/
theorem containsKey_run_eq_false (missing : ¬ Pending slot updates) :
    (run updates).blocks.containsKey slot = false := by
  rw [← containsKey_run] at missing
  simpa using missing

/-- The confirmations up to the last one are not above it when they ascend. -/
theorem le_lastConfirmed (ascending : (confirmations updates).Pairwise (· ≤ ·))
    (earlier : slot ∈ confirmations updates) : slot ≤ lastConfirmed updates := by
  rw [lastConfirmed]
  rcases List.eq_nil_or_concat (confirmations updates) with empty | ⟨start, final, same⟩
  · rw [empty] at earlier
    cases earlier
  · rw [same, List.concat_eq_append] at ascending earlier ⊢
    rw [List.getLastD_concat]
    rcases List.mem_append.mp earlier with before | here
    · exact (List.pairwise_append.mp ascending).2.2 slot before final (by simp)
    · exact (List.mem_singleton.mp here).le

/-- The last confirmation of an ascending run is not below the one before it. -/
theorem ascending_concat :
    (confirmations (updates ++ [last])).Pairwise (· ≤ ·) ↔
      (confirmations updates).Pairwise (· ≤ ·) ∧
        ∀ slot, last.confirms = some slot → lastConfirmed updates ≤ slot := by
  rw [confirmations_concat, List.pairwise_append]
  constructor
  · rintro ⟨start, -, below⟩
    refine ⟨start, fun slot known => ?_⟩
    rw [lastConfirmed]
    rcases List.eq_nil_or_concat (confirmations updates) with empty | ⟨first, final, same⟩
    · rw [empty]
      exact Nat.zero_le slot
    · rw [same, List.concat_eq_append, List.getLastD_concat]
      exact below final (by rw [same]; simp) slot (by rw [known]; simp)
  · rintro ⟨start, below⟩
    refine ⟨start, ?_, ?_⟩
    · cases last.confirms <;> simp
    · intro earlier member slot known
      exact (le_lastConfirmed start member).trans (below slot (by simpa using known))

/-- A dead mark of a slot with an entry in the map of blocks removes the recent block. -/
theorem recent_markDead (self : StorageProcessed) (slot other : Nat) :
    (self.markDead slot).recentBlocks.get other =
      if other = slot ∧ self.blocks.containsKey slot = true then none
      else self.recentBlocks.get other := by
  unfold markDead
  rw [updateProcessed_recentBlocks]
  by_cases known : self.blocks.containsKey slot = true
  · rw [if_pos known]
    cases found : self.recentBlocks.get slot with
    | none =>
        simp only [known, and_true]
        split
        · rename_i same
          rw [same, found]
        · rfl
    | some recent => simp [removeSignatures, SortedMap.get_erase, known]
  · simp [known]

/-- A confirmation records nothing at another slot. -/
theorem recordConfirmed_of_ne {confirmed : Option BlockWithBinary} (self : StorageProcessed)
    (different : other ≠ slot) :
    (self.recordConfirmed slot confirmed).recentBlocks.get other = self.recentBlocks.get other := by
  cases confirmed with
  | none => rfl
  | some block => rw [recordConfirmed, recent_addSignatures, if_neg fun same => different same.1]

/-- A recent block after a confirmation of a lower slot was there before. -/
theorem recent_of_setConfirmed {confirmed : Option BlockWithBinary} {self : StorageProcessed}
    (found : (self.setConfirmed slot confirmed).recentBlocks.get other = some recent)
    (above : slot < other) : self.recentBlocks.get other = some recent := by
  rw [setConfirmed_recentBlocks] at found
  rw [← recordConfirmed_of_ne self (Nat.ne_of_gt above)]
  exact SortedMap.get_of_popWhile found

/-- When the confirmations ascend, a recent block above them is that of a standing block. -/
theorem standing_of_recent (ascending : (confirmations updates).Pairwise (· ≤ ·))
    (found : (run updates).recentBlocks.get slot = some recent)
    (above : lastConfirmed updates < slot) : ∃ block blockHeight,
      block.blockHeight = some blockHeight ∧ recent = recentOf block blockHeight ∧
        Standing slot block updates := by
  induction updates using List.reverseRecOn with
  | nil => cases found
  | append_singleton updates last ih =>
      obtain ⟨start, next⟩ := ascending_concat.mp ascending
      rw [run_append] at found
      rw [lastConfirmed_concat] at above
      -- A block that stood before still stands if the message neither passes nor kills it.
      have extend (before : (run updates).recentBlocks.get slot = some recent)
          (low : lastConfirmed updates < slot) (open' : ¬ last.Passes slot)
          (alive : last ≠ .markDead slot) : ∃ block blockHeight,
            block.blockHeight = some blockHeight ∧ recent = recentOf block blockHeight ∧
              Standing slot block (updates ++ [last]) := by
        obtain ⟨block, blockHeight, height, same, standing⟩ := ih start before low
        exact ⟨block, blockHeight, height, same,
          standing_concat.mpr (Or.inr ⟨standing, open', alive⟩)⟩
      cases last with
      | addProcessedBlock place block =>
          rw [update, recent_addProcessedBlock] at found
          split at found
          · rename_i fresh
            obtain ⟨rfl, fresh⟩ := fresh
            have missing : ¬ Pending slot updates := by
              rw [← containsKey_run, fresh]
              exact Bool.false_ne_true
            cases height : block.blockHeight with
            | none =>
                rw [height] at found
                exact extend found above id ProcessedUpdate.noConfusion
            | some blockHeight =>
                rw [height] at found
                cases found
                exact ⟨block, blockHeight, height, rfl,
                  standing_concat.mpr (Or.inl ⟨rfl, missing⟩)⟩
          · exact extend found above id ProcessedUpdate.noConfusion
      | markDead place =>
          rw [update, recent_markDead] at found
          split at found
          · cases found
          · rename_i kept
            refine extend found above id ?_
            rintro ⟨rfl⟩
            obtain ⟨_, _, -, -, standing⟩ := ih start found above
            exact kept ⟨rfl, (containsKey_run updates slot).mpr standing.pending⟩
      | setConfirmed place confirmed =>
          exact extend (recent_of_setConfirmed found above) ((next place rfl).trans_lt above)
            (Nat.not_le.mpr above) ProcessedUpdate.noConfusion
      | setFinalized place =>
          obtain ⟨_, _, equal⟩ := setFinalized_eq (run updates) place
          rw [update, equal] at found
          exact extend found above id ProcessedUpdate.noConfusion

/-- The messages bring the block of the slot as a processed or as a confirmed one. -/
def Brings (updates : List ProcessedUpdate) (slot : Nat) (block : BlockWithBinary) : Prop :=
  .addProcessedBlock slot block ∈ updates ∨ .setConfirmed slot (some block) ∈ updates

theorem Brings.append (brings : Brings updates slot block) : Brings (updates ++ [last]) slot block :=
  brings.imp (List.mem_append_left _) (List.mem_append_left _)

/-- A recent block is that of a block that the messages bring. -/
theorem brings_of_recent (found : (run updates).recentBlocks.get slot = some recent) :
    ∃ block blockHeight, Brings updates slot block ∧ block.blockHeight = some blockHeight ∧
      recent = recentOf block blockHeight := by
  induction updates using List.reverseRecOn with
  | nil => cases found
  | append_singleton updates last ih =>
      rw [run_append] at found
      have old (before : (run updates).recentBlocks.get slot = some recent) :
          ∃ block blockHeight, Brings (updates ++ [last]) slot block ∧
            block.blockHeight = some blockHeight ∧ recent = recentOf block blockHeight := by
        obtain ⟨block, blockHeight, brings, height, same⟩ := ih before
        exact ⟨block, blockHeight, brings.append, height, same⟩
      have new (block : BlockWithBinary) (brings : Brings (updates ++ [last]) slot block)
          (added : (block.blockHeight.map (recentOf block)).or
            ((run updates).recentBlocks.get slot) = some recent) :
          ∃ block blockHeight, Brings (updates ++ [last]) slot block ∧
            block.blockHeight = some blockHeight ∧ recent = recentOf block blockHeight := by
        cases height : block.blockHeight with
        | none =>
            rw [height] at added
            exact old added
        | some blockHeight =>
            rw [height] at added
            cases added
            exact ⟨block, blockHeight, brings, height, rfl⟩
      cases last with
      | addProcessedBlock place block =>
          rw [update, recent_addProcessedBlock] at found
          split at found
          · rename_i fresh
            obtain ⟨rfl, -⟩ := fresh
            exact new block (Or.inl (by simp)) found
          · exact old found
      | markDead place =>
          rw [update, recent_markDead] at found
          split at found
          · cases found
          · exact old found
      | setConfirmed place confirmed =>
          rw [update, setConfirmed_recentBlocks] at found
          have recorded := SortedMap.get_of_popWhile found
          cases confirmed with
          | none => exact old recorded
          | some block =>
              rw [recordConfirmed, recent_addSignatures] at recorded
              split at recorded
              · rename_i fresh
                obtain ⟨rfl, -⟩ := fresh
                exact new block (Or.inr (by simp)) recorded
              · exact old recorded
      | setFinalized place =>
          obtain ⟨_, _, equal⟩ := setFinalized_eq (run updates) place
          rw [update, equal] at found
          exact old found

/-- The confirmed height is that of a block of a confirmed slot. -/
theorem confirmedHeight_run (updates : List ProcessedUpdate) :
    (run updates).confirmedHeight = 0 ∨ ∃ slot ∈ confirmations updates, ∃ block,
      Brings updates slot block ∧ block.blockHeight = some (run updates).confirmedHeight := by
  induction updates using List.reverseRecOn with
  | nil => exact Or.inl rfl
  | append_singleton updates last ih =>
      have old (same : (run (updates ++ [last])).confirmedHeight = (run updates).confirmedHeight) :
          (run (updates ++ [last])).confirmedHeight = 0 ∨
            ∃ slot ∈ confirmations (updates ++ [last]), ∃ block, Brings (updates ++ [last]) slot block ∧
              block.blockHeight = some (run (updates ++ [last])).confirmedHeight := by
        rw [same, confirmations_concat]
        exact ih.imp id fun ⟨slot, confirmed, block, brings, height⟩ =>
          ⟨slot, List.mem_append_left _ confirmed, block, brings.append, height⟩
      cases last with
      | addProcessedBlock slot block =>
          exact old (by rw [run_append, update, addProcessedBlock_confirmedHeight])
      | markDead slot =>
          exact old (by rw [run_append, update, (markDead_frame (run updates) slot).2.2])
      | setFinalized slot =>
          obtain ⟨_, _, equal⟩ := setFinalized_eq (run updates) slot
          exact old (by rw [run_append, update, equal])
      | setConfirmed slot confirmed =>
          have height : ((run updates).setConfirmed slot confirmed).confirmedHeight = _ :=
            setConfirmed_confirmedHeight
          cases found : ((run updates).recordConfirmed slot confirmed).recentBlocks.get slot with
          | none =>
              rw [found] at height
              exact old (by rw [run_append, update, height]; rfl)
          | some recent =>
              rw [found] at height
              rw [run_append, update, height, confirmations_concat]
              refine Or.inr ⟨slot, by simp [ProcessedUpdate.confirms], ?_⟩
              -- The recorded block is the confirmed one or was there before.
              cases confirmed with
              | none =>
                  obtain ⟨block, blockHeight, brings, known, rfl⟩ := brings_of_recent found
                  exact ⟨block, brings.append, known⟩
              | some block =>
                  rw [recordConfirmed, recent_addSignatures] at found
                  cases known : block.blockHeight with
                  | none =>
                      rw [known] at found
                      have before : (run updates).recentBlocks.get slot = some recent := by
                        split at found <;> exact found
                      obtain ⟨block, blockHeight, brings, known, rfl⟩ := brings_of_recent before
                      exact ⟨block, brings.append, known⟩
                  | some blockHeight =>
                      rw [known] at found
                      split at found
                      · cases found
                        exact ⟨block, Or.inr (by simp), known⟩
                      · obtain ⟨block, blockHeight, brings, known, rfl⟩ := brings_of_recent found
                        exact ⟨block, brings.append, known⟩

/-- No block of a confirmed slot is so high that a block of this height leaves the recent window. -/
def InWindow (updates : List ProcessedUpdate) (blockHeight : Nat) : Prop :=
  ∀ slot ∈ confirmations updates, ∀ block height, Brings updates slot block →
    block.blockHeight = some height → height < blockHeight + maxRecentBlockhashes

/-- The window before an update contains that after it. -/
theorem InWindow.before {blockHeight : Nat} (window : InWindow (updates ++ [last]) blockHeight) :
    InWindow updates blockHeight := by
  intro slot confirmed block height brings known
  refine window slot ?_ block height brings.append known
  rw [confirmations_concat]
  exact List.mem_append_left _ confirmed

/-- A recent block in the window survives a confirmation. -/
theorem InWindow.kept {blockHeight place : Nat} {confirmed : Option BlockWithBinary}
    (window : InWindow (updates ++ [.setConfirmed place confirmed]) blockHeight)
    (found : ((run updates).recordConfirmed place confirmed).recentBlocks.get slot = some recent)
    (height : recent.blockHeight = blockHeight) :
    ((run updates).setConfirmed place confirmed).recentBlocks.get slot = some recent := by
  rw [setConfirmed_recentBlocks]
  apply SortedMap.get_popWhile_of_not_popped found
  intro removed
  have outside : maxRecentBlockhashes ≤
      ((run updates).setConfirmed place confirmed).confirmedHeight - recent.blockHeight :=
    of_decide_eq_true (SortedMap.test_of_mem_popped removed)
  have positive : 0 < maxRecentBlockhashes := by decide
  have bound : ((run updates).setConfirmed place confirmed).confirmedHeight <
      blockHeight + maxRecentBlockhashes := by
    rcases confirmedHeight_run (updates ++ [.setConfirmed place confirmed]) with
      zero | ⟨other, member, block, brings, known⟩
    · rw [run_append] at zero
      change ((run updates).setConfirmed place confirmed).confirmedHeight = 0 at zero
      omega
    · rw [run_append] at known
      exact window other member block _ brings known
  omega

/-- A standing block with a height in the window has its recent block. -/
theorem recent_of_standing {blockHeight : Nat} (standing : Standing slot block updates)
    (height : block.blockHeight = some blockHeight) (window : InWindow updates blockHeight) :
    (run updates).recentBlocks.get slot = some (recentOf block blockHeight) := by
  induction updates using List.reverseRecOn with
  | nil => exact absurd standing not_since_nil
  | append_singleton updates last ih =>
      rw [run_append]
      rcases standing_concat.mp standing with ⟨rfl, fresh⟩ | ⟨before, open', alive⟩
      · rw [update, recent_addProcessedBlock, if_pos ⟨rfl, containsKey_run_eq_false fresh⟩, height]
        rfl
      · have found := ih before window.before
        cases last with
        | addProcessedBlock place other =>
            rw [update, recent_addProcessedBlock, if_neg, found]
            rintro ⟨rfl, fresh⟩
            rw [(containsKey_run updates slot).mpr before.pending] at fresh
            cases fresh
        | markDead place =>
            rw [update, recent_markDead, if_neg, found]
            rintro ⟨rfl, -⟩
            exact alive rfl
        | setConfirmed place confirmed =>
            have above : place < slot := Nat.not_le.mp open'
            refine window.kept ?_ rfl
            rw [recordConfirmed_of_ne _ (Nat.ne_of_gt above), found]
        | setFinalized place =>
            obtain ⟨_, _, equal⟩ := setFinalized_eq (run updates) place
            rw [update, equal]
            exact found

end StorageProcessed

/-- The update of the recent state that a message causes. -/
def ReadWriteSyncMessage.processedUpdate : ReadWriteSyncMessage → Option ProcessedUpdate
  | blockNew slot block => some (.addProcessedBlock slot block)
  | blockDead slot => some (.markDead slot)
  | blockConfirmed slot block => some (.setConfirmed slot block)
  | slotFinalized slot => some (.setFinalized slot)
  | _ => none

namespace Reader

/-- The blocks of the first message count as confirmed before the messages that follow it. -/
def heard (recentBlocks : List (Nat × BlockWithBinary)) (messages : List ReadWriteSyncMessage) :
    List ProcessedUpdate :=
  recentBlocks.map (fun item => .setConfirmed item.1 (some item.2)) ++
    messages.filterMap ReadWriteSyncMessage.processedUpdate

variable {recentBlocks : List (Nat × BlockWithBinary)} {messages : List ReadWriteSyncMessage}
  {message : ReadWriteSyncMessage} {reader next : Reader}

/-- One more message adds its own update. -/
theorem heard_concat : heard recentBlocks (messages ++ [message]) =
    heard recentBlocks messages ++ message.processedUpdate.toList := by
  cases known : message.processedUpdate <;> simp [heard, known]

/-- The recent state after the first message is the run of its blocks. -/
theorem storageProcessed_init (blocks : StoredBlocksRead) :
    (init blocks recentBlocks).storageProcessed = StorageProcessed.run (heard recentBlocks []) := by
  simp [init, StorageProcessed.run, heard, List.foldl_map, StorageProcessed.update]

/-- A message changes the recent state by its own update only. -/
theorem storageProcessed_update {updates : List ProcessedUpdate}
    (updated : reader.update message = .ok next)
    (before : reader.storageProcessed = StorageProcessed.run updates) :
    next.storageProcessed =
      StorageProcessed.run (updates ++ message.processedUpdate.toList) := by
  cases message with
  | init blocks files recentBlocks => cases updated
  | confirmedBlockPushFront block =>
      change reader.pushFront block = _ at updated
      unfold pushFront at updated
      split at updated
      · cases updated
      · split at updated
        · cases updated
          simpa [ReadWriteSyncMessage.processedUpdate] using before
        · cases updated
  | confirmedBlockPopBack | confirmedBlockPopFront | confirmedBlockPushBack =>
      cases updated
      simpa [ReadWriteSyncMessage.processedUpdate] using before
  | _ =>
      cases updated
      rw [ReadWriteSyncMessage.processedUpdate, Option.toList_some, StorageProcessed.run_append,
        ← before]
      rfl

end Reader

end Alpamayo
