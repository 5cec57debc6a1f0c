import Alpamayo.Storage.Processed

/-!
This file describes what each update does to the reader's recent blocks and signatures.
-/

namespace Alpamayo

namespace BlockWithBinary

/-- The block lists a signature when one of its transactions has it. -/
def Lists (block : BlockWithBinary) (signature : Signature) : Prop :=
  ∃ tx ∈ block.transactions, tx.signature = signature

instance (block : BlockWithBinary) (signature : Signature) : Decidable (block.Lists signature) :=
  inferInstanceAs (Decidable (∃ tx ∈ block.transactions, tx.signature = signature))

/-- This block carries only a hash, a height, and successful transactions. -/
def plain (blockhash : String) (blockHeight : Nat) (signatures : List Signature) :
    BlockWithBinary where
  blockhash
  parentSlot := 0
  blockTime := none
  blockHeight := some blockHeight
  protobuf := []
  txsOffset := []
  transactions := signatures.map fun signature => ⟨signature, none, [], 0⟩
  sfa := []

end BlockWithBinary

namespace StorageProcessed

variable {self : StorageProcessed} {slot blockHeight : Nat} {block : BlockWithBinary}
  {signature : Signature} {status : RecentSignatureStatus}

/-- The recent record lists exactly the signatures of its block. -/
theorem mem_recentOf : signature ∈ (recentOf block blockHeight).signatures ↔
    block.Lists signature := by
  simp [recentOf, BlockWithBinary.Lists]

/-- A listed signature gets a status of the new block; another one keeps its status. -/
theorem get_insertStatuses (statuses : HashMap Signature RecentSignatureStatus)
    (transactions : List TransactionWithBinary)
    (found : (insertStatuses statuses slot blockHeight transactions).get signature = some status) :
    ((∃ tx ∈ transactions, tx.signature = signature) ∧ status.slot = slot ∧
      status.blockHeight = blockHeight) ∨
    ((∀ tx ∈ transactions, tx.signature ≠ signature) ∧ statuses.get signature = some status) := by
  induction transactions generalizing statuses with
  | nil => exact Or.inr ⟨by simp, found⟩
  | cons tx rest ih =>
      rcases ih _ found with ⟨⟨later, member, same⟩, place⟩ | ⟨absent, before⟩
      · exact Or.inl ⟨⟨later, List.mem_cons_of_mem _ member, same⟩, place⟩
      · rw [HashMap.get_insert] at before
        split at before
        · rename_i same
          cases before
          exact Or.inl ⟨⟨tx, List.mem_cons_self, same.symm⟩, rfl, rfl⟩
        · rename_i different
          refine Or.inr ⟨?_, before⟩
          intro other member
          rcases List.mem_cons.mp member with rfl | member
          · exact fun same => different same.symm
          · exact absent other member

/-- The removal drops exactly the listed signatures. -/
theorem get_removeStatuses (statuses : HashMap Signature RecentSignatureStatus)
    (signatures : List Signature) :
    (removeStatuses statuses signatures).get signature =
      if signature ∈ signatures then none else statuses.get signature := by
  induction signatures generalizing statuses with
  | nil => simp [removeStatuses]
  | cons first rest ih =>
      change (removeStatuses (statuses.remove first) rest).get signature = _
      rw [ih, HashMap.get_remove]
      by_cases inRest : signature ∈ rest
      · simp [inRest]
      · by_cases same : signature = first <;> simp [inRest, same]

section updateProcessed

/-- The processed values are the only change of this update. -/
theorem updateProcessed_eq (self : StorageProcessed) : ∃ processedSlot processedHeight,
    self.updateProcessed = { self with processedSlot, processedHeight } := by
  unfold updateProcessed
  split <;> exact ⟨_, _, rfl⟩

@[simp] theorem updateProcessed_blocks : self.updateProcessed.blocks = self.blocks := by
  obtain ⟨_, _, equal⟩ := updateProcessed_eq self
  rw [equal]

@[simp] theorem updateProcessed_signatureStatuses :
    self.updateProcessed.signatureStatuses = self.signatureStatuses := by
  obtain ⟨_, _, equal⟩ := updateProcessed_eq self
  rw [equal]

@[simp] theorem updateProcessed_recentBlocks :
    self.updateProcessed.recentBlocks = self.recentBlocks := by
  obtain ⟨_, _, equal⟩ := updateProcessed_eq self
  rw [equal]

@[simp] theorem updateProcessed_blockHeights :
    self.updateProcessed.blockHeights = self.blockHeights := by
  obtain ⟨_, _, equal⟩ := updateProcessed_eq self
  rw [equal]

@[simp] theorem updateProcessed_confirmedSlot :
    self.updateProcessed.confirmedSlot = self.confirmedSlot := by
  obtain ⟨_, _, equal⟩ := updateProcessed_eq self
  rw [equal]

@[simp] theorem updateProcessed_confirmedHeight :
    self.updateProcessed.confirmedHeight = self.confirmedHeight := by
  obtain ⟨_, _, equal⟩ := updateProcessed_eq self
  rw [equal]

end updateProcessed

/-- The removals of several recent blocks drop their signatures and heights only. -/
theorem foldl_removeSignatures (self : StorageProcessed) (entries : List (Nat × RecentBlock)) :
    let final := entries.foldl (fun self entry => self.removeSignatures entry.2) self
    final.blocks = self.blocks ∧ final.recentBlocks = self.recentBlocks ∧
      final.confirmedSlot = self.confirmedSlot ∧ final.confirmedHeight = self.confirmedHeight ∧
      ∀ signature, final.signatureStatuses.get signature =
        if ∃ entry ∈ entries, signature ∈ entry.2.signatures then none
        else self.signatureStatuses.get signature := by
  induction entries generalizing self with
  | nil => simp
  | cons entry rest ih =>
      obtain ⟨blocks, recent, confirmedSlot, confirmedHeight, statuses⟩ :=
        ih (self.removeSignatures entry.2)
      refine ⟨blocks, recent, confirmedSlot, confirmedHeight, fun signature => ?_⟩
      rw [List.foldl_cons, statuses]
      simp only [removeSignatures, get_removeStatuses, List.mem_cons, exists_eq_or_imp]
      by_cases inRest : ∃ entry ∈ rest, signature ∈ entry.2.signatures
      · simp [inRest]
      · by_cases here : signature ∈ entry.2.signatures <;> simp [inRest, here]

@[simp] theorem evictRecent_blocks : self.evictRecent.blocks = self.blocks :=
  (foldl_removeSignatures _ _).1

@[simp] theorem evictRecent_confirmedSlot : self.evictRecent.confirmedSlot = self.confirmedSlot :=
  (foldl_removeSignatures _ _).2.2.1

@[simp] theorem evictRecent_confirmedHeight :
    self.evictRecent.confirmedHeight = self.confirmedHeight :=
  (foldl_removeSignatures _ _).2.2.2.1

@[simp] theorem evictRecent_recentBlocks : self.evictRecent.recentBlocks =
    self.recentBlocks.popWhile (outdated self.confirmedHeight) :=
  (foldl_removeSignatures _ _).2.1

/-- A status that survives the eviction was there before and is in no evicted block. -/
theorem get_evictRecent : self.evictRecent.signatureStatuses.get signature =
    if ∃ entry ∈ self.recentBlocks.popped (outdated self.confirmedHeight),
      signature ∈ entry.2.signatures then none else self.signatureStatuses.get signature :=
  (foldl_removeSignatures _ _).2.2.2.2 signature

/-- The block is recorded only in a slot without an entry and only with a height. -/
theorem addSignatures_cases (self : StorageProcessed) (slot : Nat) (block : BlockWithBinary) :
    ((self.blocks.containsKey slot = true ∨ block.blockHeight = none) ∧
      self.addSignatures slot block = self) ∨
    ∃ blockHeight, self.blocks.containsKey slot = false ∧ block.blockHeight = some blockHeight ∧
      self.addSignatures slot block = { self with
        signatureStatuses :=
          insertStatuses self.signatureStatuses slot blockHeight block.transactions
        recentBlocks := self.recentBlocks.insert slot (recentOf block blockHeight)
        blockHeights := self.blockHeights.insert block.blockhash blockHeight } := by
  unfold addSignatures
  by_cases known : self.blocks.containsKey slot = true
  · exact Or.inl ⟨Or.inl known, if_pos known⟩
  · rw [if_neg known]
    cases height : block.blockHeight with
    | none => exact Or.inl ⟨Or.inr rfl, rfl⟩
    | some blockHeight => exact Or.inr ⟨blockHeight, by simpa using known, rfl, rfl⟩

@[simp] theorem addSignatures_blocks :
    (self.addSignatures slot block).blocks = self.blocks := by
  rcases addSignatures_cases self slot block with ⟨-, equal⟩ | ⟨_, -, -, equal⟩ <;> rw [equal]

@[simp] theorem addSignatures_confirmedSlot :
    (self.addSignatures slot block).confirmedSlot = self.confirmedSlot := by
  rcases addSignatures_cases self slot block with ⟨-, equal⟩ | ⟨_, -, -, equal⟩ <;> rw [equal]

@[simp] theorem addSignatures_confirmedHeight :
    (self.addSignatures slot block).confirmedHeight = self.confirmedHeight := by
  rcases addSignatures_cases self slot block with ⟨-, equal⟩ | ⟨_, -, -, equal⟩ <;> rw [equal]

/-- A status after the addition is an old one or comes from the new block. -/
theorem get_addSignatures
    (found : (self.addSignatures slot block).signatureStatuses.get signature = some status) :
    self.signatureStatuses.get signature = some status ∨
      (self.blocks.containsKey slot = false ∧ block.Lists signature ∧ status.slot = slot ∧
        block.blockHeight = some status.blockHeight) := by
  rcases addSignatures_cases self slot block with ⟨-, equal⟩ | ⟨height, fresh, known, equal⟩
  · rw [equal] at found
    exact Or.inl found
  · rw [equal] at found
    rcases get_insertStatuses _ _ found with ⟨listed, place, sameHeight⟩ | ⟨-, before⟩
    · exact Or.inr ⟨fresh, listed, place, by rw [known, sameHeight]⟩
    · exact Or.inl before

/-- A status after a new processed block is an old one or comes from the block. -/
theorem get_addProcessedBlock
    (found : (self.addProcessedBlock slot block).signatureStatuses.get signature = some status) :
    self.signatureStatuses.get signature = some status ∨
      (self.blocks.containsKey slot = false ∧ block.Lists signature ∧ status.slot = slot ∧
        block.blockHeight = some status.blockHeight) := by
  apply get_addSignatures
  unfold addProcessedBlock at found
  rw [updateProcessed_signatureStatuses] at found
  split at found <;> exact found

/-- The addition changes the recent block of its own slot only. -/
theorem recent_addSignatures (self : StorageProcessed) (slot : Nat) (block : BlockWithBinary)
    (other : Nat) :
    (self.addSignatures slot block).recentBlocks.get other =
      if other = slot ∧ self.blocks.containsKey slot = false then
        (block.blockHeight.map (recentOf block)).or (self.recentBlocks.get other)
      else self.recentBlocks.get other := by
  rcases addSignatures_cases self slot block with ⟨known | noHeight, equal⟩ |
    ⟨height, fresh, known, equal⟩
  · rw [equal, if_neg (by simp [known])]
  · rw [equal, noHeight]
    split <;> rfl
  · rw [equal]
    simp only [SortedMap.get_insert, fresh, known, and_true]
    split <;> rfl

/-- A new processed block changes the recent block of its own slot only. -/
theorem recent_addProcessedBlock (self : StorageProcessed) (slot : Nat) (block : BlockWithBinary)
    (other : Nat) :
    (self.addProcessedBlock slot block).recentBlocks.get other =
      if other = slot ∧ self.blocks.containsKey slot = false then
        (block.blockHeight.map (recentOf block)).or (self.recentBlocks.get other)
      else self.recentBlocks.get other := by
  rw [← recent_addSignatures]
  unfold addProcessedBlock
  rw [updateProcessed_recentBlocks]
  split <;> rfl

/-- A new processed block gives its slot an entry. -/
theorem containsKey_addProcessedBlock (self : StorageProcessed) (slot : Nat)
    (block : BlockWithBinary) (other : Nat) :
    (self.addProcessedBlock slot block).blocks.containsKey other = true ↔
      other = slot ∨ self.blocks.containsKey other = true := by
  unfold addProcessedBlock
  rw [updateProcessed_blocks]
  simp only [addSignatures_blocks]
  split
  · rename_i known
    rw [addSignatures_blocks]
    constructor
    · exact Or.inr
    · rintro (rfl | found)
      · exact known
      · exact found
  · simp only [SortedMap.containsKey, SortedMap.get_insert]
    split <;> simp_all

@[simp] theorem addProcessedBlock_confirmedSlot :
    (self.addProcessedBlock slot block).confirmedSlot = self.confirmedSlot := by
  unfold addProcessedBlock
  rw [updateProcessed_confirmedSlot]
  split <;> simp

@[simp] theorem addProcessedBlock_confirmedHeight :
    (self.addProcessedBlock slot block).confirmedHeight = self.confirmedHeight := by
  unfold addProcessedBlock
  rw [updateProcessed_confirmedHeight]
  split <;> simp

/-- A dead mark of a known slot removes the recent block of the slot. -/
theorem markDead_cases (self : StorageProcessed) (slot : Nat) :
    (∃ recent, self.blocks.containsKey slot = true ∧ self.recentBlocks.get slot = some recent ∧
      (self.markDead slot).recentBlocks = self.recentBlocks.erase slot ∧
      (self.markDead slot).signatureStatuses =
        removeStatuses self.signatureStatuses recent.signatures) ∨
    ((self.markDead slot).recentBlocks = self.recentBlocks ∧
      (self.markDead slot).signatureStatuses = self.signatureStatuses) := by
  unfold markDead
  rw [updateProcessed_recentBlocks, updateProcessed_signatureStatuses]
  by_cases known : self.blocks.containsKey slot = true
  · rw [if_pos known]
    cases found : self.recentBlocks.get slot with
    | none => exact Or.inr ⟨rfl, rfl⟩
    | some recent => exact Or.inl ⟨recent, known, rfl, rfl, rfl⟩
  · rw [if_neg known]
    exact Or.inr ⟨rfl, rfl⟩

/-- The fields that a dead mark does not read back stay. -/
theorem markDead_frame (self : StorageProcessed) (slot : Nat) :
    (self.markDead slot).blocks = self.blocks.insert slot none ∧
      (self.markDead slot).confirmedSlot = self.confirmedSlot ∧
      (self.markDead slot).confirmedHeight = self.confirmedHeight := by
  unfold markDead
  rw [updateProcessed_blocks, updateProcessed_confirmedSlot, updateProcessed_confirmedHeight]
  split
  · split <;> exact ⟨rfl, rfl, rfl⟩
  · exact ⟨rfl, rfl, rfl⟩

/-- A status after a dead mark was there before. -/
theorem get_markDead
    (found : (self.markDead slot).signatureStatuses.get signature = some status) :
    self.signatureStatuses.get signature = some status := by
  rcases markDead_cases self slot with ⟨recent, -, -, -, statuses⟩ | ⟨-, statuses⟩
  · rw [statuses, get_removeStatuses] at found
    split at found
    · cases found
    · exact found
  · rwa [statuses] at found

/-- The state of a confirmation before the eviction of old blocks. -/
def recordConfirmed (self : StorageProcessed) (slot : Nat) (block : Option BlockWithBinary) :
    StorageProcessed :=
  match block with
  | some block => self.addSignatures slot block
  | none => self

@[simp] theorem recordConfirmed_blocks {block : Option BlockWithBinary} :
    (self.recordConfirmed slot block).blocks = self.blocks := by
  cases block <;> simp [recordConfirmed]

@[simp] theorem setConfirmed_blocks {block : Option BlockWithBinary} :
    (self.setConfirmed slot block).blocks =
      self.blocks.popWhile fun entry => entry.1 ≤ slot := by
  unfold setConfirmed
  rw [evictRecent_blocks, updateProcessed_blocks]
  cases block <;> simp

@[simp] theorem setConfirmed_confirmedSlot {block : Option BlockWithBinary} :
    (self.setConfirmed slot block).confirmedSlot = slot := by
  unfold setConfirmed
  rw [evictRecent_confirmedSlot, updateProcessed_confirmedSlot]

/-- The recent block of the slot gives the confirmed height. -/
theorem setConfirmed_confirmedHeight {block : Option BlockWithBinary} :
    (self.setConfirmed slot block).confirmedHeight =
      (((self.recordConfirmed slot block).recentBlocks.get slot).map RecentBlock.blockHeight).getD
        self.confirmedHeight := by
  unfold setConfirmed
  rw [evictRecent_confirmedHeight, updateProcessed_confirmedHeight]
  cases block <;> simp [recordConfirmed]

theorem setConfirmed_recentBlocks {block : Option BlockWithBinary} :
    (self.setConfirmed slot block).recentBlocks =
      (self.recordConfirmed slot block).recentBlocks.popWhile
        (outdated (self.setConfirmed slot block).confirmedHeight) := by
  unfold setConfirmed
  rw [evictRecent_recentBlocks, evictRecent_confirmedHeight, updateProcessed_recentBlocks]
  rfl

/-- A status after a confirmation was there before the eviction and is in no evicted block. -/
theorem get_setConfirmed {block : Option BlockWithBinary} :
    (self.setConfirmed slot block).signatureStatuses.get signature =
      if ∃ entry ∈ (self.recordConfirmed slot block).recentBlocks.popped
          (outdated (self.setConfirmed slot block).confirmedHeight),
        signature ∈ entry.2.signatures then none
      else (self.recordConfirmed slot block).signatureStatuses.get signature := by
  unfold setConfirmed
  rw [get_evictRecent]
  simp only [updateProcessed_signatureStatuses, updateProcessed_recentBlocks,
    updateProcessed_confirmedHeight, evictRecent_confirmedHeight]
  rfl

/-- A status after a confirmation is an old one or comes from the confirmed block. -/
theorem get_setConfirmed_cases {confirmed : Option BlockWithBinary}
    (found : (self.setConfirmed slot confirmed).signatureStatuses.get signature = some status) :
    self.signatureStatuses.get signature = some status ∨
      ∃ block, confirmed = some block ∧ self.blocks.containsKey slot = false ∧
        block.Lists signature ∧ status.slot = slot ∧
        block.blockHeight = some status.blockHeight := by
  rw [get_setConfirmed] at found
  split at found
  · cases found
  · cases confirmed with
    | none => exact Or.inl found
    | some block =>
        rcases get_addSignatures found with before | added
        · exact Or.inl before
        · exact Or.inr ⟨block, rfl, added⟩

end StorageProcessed

/-- The messages of the writer cause these updates of the recent state. -/
inductive ProcessedUpdate where
  | addProcessedBlock (slot : Nat) (block : BlockWithBinary)
  | markDead (slot : Nat)
  | setConfirmed (slot : Nat) (block : Option BlockWithBinary)
  | setFinalized (slot : Nat)
  deriving DecidableEq

namespace StorageProcessed

def update (self : StorageProcessed) : ProcessedUpdate → StorageProcessed
  | .addProcessedBlock slot block => self.addProcessedBlock slot block
  | .markDead slot => self.markDead slot
  | .setConfirmed slot block => self.setConfirmed slot block
  | .setFinalized slot => self.setFinalized slot

/-- A run applies the updates to the default state. -/
def run (updates : List ProcessedUpdate) : StorageProcessed :=
  updates.foldl StorageProcessed.update StorageProcessed.default

theorem run_append (updates : List ProcessedUpdate) (last : ProcessedUpdate) :
    run (updates ++ [last]) = (run updates).update last := by
  simp [run]

/-- The finalized values are the only change of this update. -/
theorem setFinalized_eq (self : StorageProcessed) (slot : Nat) : ∃ finalizedSlot finalizedHeight,
    self.setFinalized slot = { self with finalizedSlot, finalizedHeight } := by
  unfold setFinalized
  split <;> exact ⟨_, _, rfl⟩

end StorageProcessed

end Alpamayo
