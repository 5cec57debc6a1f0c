import Alpamayo.Proof.StandingBlocks

/-!
This file compares the reader's recent blocks with the confirmed chain.
-/

namespace Alpamayo.StorageProcessed

variable {updates : List ProcessedUpdate} {last : ProcessedUpdate}

/-- The confirmed chain contains the block at the slot. -/
def InChain (updates : List ProcessedUpdate) (slot : Nat) (block : BlockWithBinary) : Prop :=
  .setConfirmed slot (some block) ∈ updates

/-- The confirmed chain passed the slot of a processed block without the block. -/
def Abandoned (updates : List ProcessedUpdate) (slot : Nat) (block : BlockWithBinary) : Prop :=
  .addProcessedBlock slot block ∈ updates ∧ slot ≤ (run updates).confirmedSlot ∧
    ¬ InChain updates slot block

/-- The signature occurs in the run, and only in abandoned blocks. -/
def OnlyAbandoned (updates : List ProcessedUpdate) (signature : Signature) : Prop :=
  (∃ slot block, Abandoned updates slot block ∧ block.Lists signature) ∧
    ∀ slot block, .addProcessedBlock slot block ∈ updates ∨ InChain updates slot block →
      block.Lists signature → Abandoned updates slot block

/-- The recent state agrees with the chain after the confirmation of a slot. -/
structure FollowsChain (updates : List ProcessedUpdate) (slot : Nat)
    (confirmed : Option BlockWithBinary) : Prop where
  skipped : confirmed = none → (run updates).recentBlocks.get slot = none
  entry : ∀ block, confirmed = some block →
    maxRecentBlockhashes ≤ (run updates).confirmedHeight - block.blockHeight.getD 0 ∨
      ∃ blockHeight, block.blockHeight = some blockHeight ∧
        (run updates).recentBlocks.get slot = some (recentOf block blockHeight)
  abandoned : ∀ signature, OnlyAbandoned updates signature →
    (run updates).signatureStatuses.get signature = none
  height : (∃ slot block, InChain updates slot block) → ∃ slot block, InChain updates slot block ∧
    (∀ slot' block', InChain updates slot' block' → slot' ≤ slot) ∧
      block.blockHeight = some (run updates).confirmedHeight

/-- The state before an update lets the reader follow it. -/
def Ready (updates : List ProcessedUpdate) : ProcessedUpdate → Prop
  | .addProcessedBlock slot block => slot ≤ (run updates).confirmedSlot →
      (run updates).blocks.containsKey slot = true ∨ InChain updates slot block
  | .setConfirmed slot confirmed => (run updates).confirmedSlot ≤ slot ∧
      (∀ skipped, (run updates).confirmedSlot < skipped → skipped < slot →
        (run updates).recentBlocks.get skipped = none) ∧
      match confirmed with
      | none => (run updates).recentBlocks.get slot = none
      | some block => ∃ blockHeight, block.blockHeight = some blockHeight ∧
          ((run updates).blocks.containsKey slot = false ∨
            (run updates).recentBlocks.get slot = some (recentOf block blockHeight))
  | .markDead _ | .setFinalized _ => True

/-- The messages leave a block in the slot: a confirmed one, or a processed one that still stands. -/
def Occupied (updates : List ProcessedUpdate) (slot : Nat) : Prop :=
  (∃ block, InChain updates slot block) ∨
    ∃ block blockHeight, block.blockHeight = some blockHeight ∧ Standing slot block updates

/-- The messages before an update let the reader follow it. -/
def Guard (updates : List ProcessedUpdate) : ProcessedUpdate → Prop
  | .addProcessedBlock slot block => slot ≤ lastConfirmed updates →
      Pending slot updates ∨ InChain updates slot block
  | .setConfirmed slot confirmed => lastConfirmed updates ≤ slot ∧
      (∀ skipped, lastConfirmed updates < skipped → skipped < slot → ¬ Occupied updates skipped) ∧
      match confirmed with
      | none => ¬ Occupied updates slot
      | some block => ∃ blockHeight, block.blockHeight = some blockHeight ∧
          (¬ Pending slot updates ∨ InWindow updates blockHeight ∧ ∃ first,
            Standing slot first updates ∧ first.blockHeight = some blockHeight ∧
              recentOf first blockHeight = recentOf block blockHeight)
  | .markDead _ | .setFinalized _ => True

/-- Every message of the run meets the guard after the messages before it. -/
def GuardedRun (updates : List ProcessedUpdate) : Prop :=
  ∀ before last, before ++ [last] <+: updates → Guard before last

/-- The invariant connects the recent blocks and the statuses with the chain. -/
structure ChainInvariant (updates : List ProcessedUpdate) : Prop where
  pending : ∀ slot recent, (run updates).recentBlocks.get slot = some recent →
    (run updates).confirmedSlot < slot → (run updates).blocks.containsKey slot = true
  processed : ∀ slot recent, (run updates).recentBlocks.get slot = some recent →
    (run updates).confirmedSlot < slot → ∃ block blockHeight,
      .addProcessedBlock slot block ∈ updates ∧ recent = recentOf block blockHeight
  settled : ∀ signature status, (run updates).signatureStatuses.get signature = some status →
    status.slot ≤ (run updates).confirmedSlot →
      ∃ slot block, InChain updates slot block ∧ block.Lists signature
  indexed : ∀ signature status, (run updates).signatureStatuses.get signature = some status →
    (run updates).confirmedSlot < status.slot →
      ∃ recent, (run updates).recentBlocks.get status.slot = some recent ∧
        signature ∈ recent.signatures
  below : ∀ slot block, InChain updates slot block → slot ≤ (run updates).confirmedSlot
  top : (∃ slot block, InChain updates slot block) → ∃ slot block, InChain updates slot block ∧
    (∀ slot' block', InChain updates slot' block' → slot' ≤ slot) ∧
      block.blockHeight = some (run updates).confirmedHeight

/-- The empty run satisfies the invariant. -/
theorem chainInvariant_nil : ChainInvariant [] where
  pending := by intro slot recent found; cases found
  processed := by intro slot recent found; cases found
  settled := by intro signature status found; cases found
  indexed := by intro signature status found; cases found
  below := by intro slot block member; cases member
  top := by rintro ⟨slot, block, member⟩; cases member

/-- Only a confirmation adds to the chain. -/
theorem inChain_append_iff {slot : Nat} {block : BlockWithBinary} :
    InChain (updates ++ [last]) slot block ↔
      InChain updates slot block ∨ last = .setConfirmed slot (some block) := by
  simp [InChain, eq_comm]

/-- A part of the chain stays in the chain. -/
theorem InChain.append {slot : Nat} {block : BlockWithBinary} (member : InChain updates slot block) :
    InChain (updates ++ [last]) slot block := inChain_append_iff.mpr (Or.inl member)

/-- An update outside the chain keeps the chain and its top. -/
theorem ChainInvariant.frame (invariant : ChainInvariant updates)
    (outside : ∀ slot block, last ≠ .setConfirmed slot (some block))
    (sameSlot : (run (updates ++ [last])).confirmedSlot = (run updates).confirmedSlot)
    (sameHeight : (run (updates ++ [last])).confirmedHeight = (run updates).confirmedHeight)
    (pending : ∀ slot recent, (run (updates ++ [last])).recentBlocks.get slot = some recent →
      (run updates).confirmedSlot < slot →
      (run (updates ++ [last])).blocks.containsKey slot = true ∧ ∃ block blockHeight,
        .addProcessedBlock slot block ∈ updates ++ [last] ∧ recent = recentOf block blockHeight)
    (statuses : ∀ signature status,
      (run (updates ++ [last])).signatureStatuses.get signature = some status →
      (status.slot ≤ (run updates).confirmedSlot →
        ∃ slot block, InChain updates slot block ∧ block.Lists signature) ∧
      ((run updates).confirmedSlot < status.slot →
        ∃ recent, (run (updates ++ [last])).recentBlocks.get status.slot = some recent ∧
          signature ∈ recent.signatures)) :
    ChainInvariant (updates ++ [last]) := by
  have same (slot : Nat) (block : BlockWithBinary) :
      InChain (updates ++ [last]) slot block ↔ InChain updates slot block := by
    rw [inChain_append_iff, or_iff_left (outside slot block)]
  constructor
  · intro slot recent found above
    exact (pending slot recent found (sameSlot ▸ above)).1
  · intro slot recent found above
    exact (pending slot recent found (sameSlot ▸ above)).2
  · intro signature status found low
    obtain ⟨slot, block, member, listed⟩ := (statuses signature status found).1 (sameSlot ▸ low)
    exact ⟨slot, block, member.append, listed⟩
  · intro signature status found above
    exact (statuses signature status found).2 (sameSlot ▸ above)
  · intro slot block member
    rw [sameSlot]
    exact invariant.below slot block ((same slot block).mp member)
  · simp only [same, sameHeight]
    exact invariant.top

/-- A processed block above the confirmed slot keeps the invariant. -/
theorem ChainInvariant.addProcessedBlock {slot : Nat} {block : BlockWithBinary}
    (invariant : ChainInvariant updates) (ready : Ready updates (.addProcessedBlock slot block)) :
    ChainInvariant (updates ++ [.addProcessedBlock slot block]) := by
  have next : run (updates ++ [.addProcessedBlock slot block]) =
      (run updates).addProcessedBlock slot block := run_append updates _
  apply invariant.frame (by simp) (by rw [next]; simp) (by rw [next]; simp)
  · intro other recent found above
    rw [next, recent_addProcessedBlock] at found
    rw [next, containsKey_addProcessedBlock]
    split at found
    · rename_i here
      obtain ⟨rfl, fresh⟩ := here
      refine ⟨Or.inl rfl, block, ?_⟩
      cases height : block.blockHeight with
      | none =>
          rw [height] at found
          have known := invariant.pending other recent found above
          rw [fresh] at known
          cases known
      | some blockHeight =>
          rw [height] at found
          cases found
          exact ⟨blockHeight, by simp, rfl⟩
    · obtain ⟨old, height, member, same⟩ := invariant.processed other recent found above
      exact ⟨Or.inr (invariant.pending other recent found above), old, height,
        List.mem_append_left _ member, same⟩
  · intro signature status found
    rw [next] at found ⊢
    rcases get_addProcessedBlock found with before | ⟨fresh, listed, place, height⟩
    · refine ⟨invariant.settled signature status before, fun above => ?_⟩
      obtain ⟨recent, present, member⟩ := invariant.indexed signature status before above
      have known := invariant.pending _ _ present above
      refine ⟨recent, ?_, member⟩
      rw [recent_addProcessedBlock, if_neg, present]
      rintro ⟨here, fresh⟩
      rw [here, fresh] at known
      cases known
    · constructor
      · intro low
        rw [place] at low
        rcases ready low with known | member
        · rw [fresh] at known
          cases known
        · exact ⟨slot, block, member, listed⟩
      · intro above
        refine ⟨recentOf block status.blockHeight, ?_, mem_recentOf.mpr listed⟩
        rw [recent_addProcessedBlock, if_pos ⟨place, fresh⟩, height]
        rfl

/-- A dead mark keeps the invariant. -/
theorem ChainInvariant.markDead {slot : Nat} (invariant : ChainInvariant updates) :
    ChainInvariant (updates ++ [.markDead slot]) := by
  have next : run (updates ++ [.markDead slot]) = (run updates).markDead slot :=
    run_append updates _
  obtain ⟨blocks, confirmedSlot, confirmedHeight⟩ := markDead_frame (run updates) slot
  have kept {other : Nat} {recent : RecentBlock}
      (found : ((run updates).markDead slot).recentBlocks.get other = some recent) :
      (run updates).recentBlocks.get other = some recent := by
    rcases markDead_cases (run updates) slot with ⟨_, -, -, recents, -⟩ | ⟨recents, -⟩
    · rw [recents, SortedMap.get_erase] at found
      split at found
      · cases found
      · exact found
    · rwa [recents] at found
  apply invariant.frame (by simp) (by rw [next, confirmedSlot]) (by rw [next, confirmedHeight])
  · intro other recent found above
    rw [next] at found ⊢
    have before := kept found
    obtain ⟨old, height, member, same⟩ := invariant.processed other recent before above
    refine ⟨?_, old, height, List.mem_append_left _ member, same⟩
    have known := invariant.pending other recent before above
    rw [blocks, SortedMap.containsKey, SortedMap.get_insert]
    split
    · rfl
    · exact known
  · intro signature status found
    rw [next] at found ⊢
    refine ⟨invariant.settled signature status (get_markDead found), fun above => ?_⟩
    obtain ⟨recent, present, member⟩ :=
      invariant.indexed signature status (get_markDead found) above
    refine ⟨recent, ?_, member⟩
    rcases markDead_cases (run updates) slot with
      ⟨dead, -, removed, recents, statuses⟩ | ⟨recents, -⟩
    · -- The signatures of the removed block have no status any more.
      rw [recents, SortedMap.get_erase_of_ne, present]
      intro here
      rw [here, removed] at present
      cases present
      rw [statuses, get_removeStatuses, if_pos member] at found
      cases found
    · rw [recents, present]

/-- A finalized slot keeps the invariant. -/
theorem ChainInvariant.setFinalized {slot : Nat} (invariant : ChainInvariant updates) :
    ChainInvariant (updates ++ [.setFinalized slot]) := by
  obtain ⟨_, _, equal⟩ := setFinalized_eq (run updates) slot
  have next : run (updates ++ [.setFinalized slot]) = (run updates).setFinalized slot :=
    run_append updates _
  rw [equal] at next
  apply invariant.frame (by simp) (by rw [next]) (by rw [next])
  · intro other recent found above
    rw [next] at found ⊢
    obtain ⟨old, height, member, same⟩ := invariant.processed other recent found above
    exact ⟨invariant.pending other recent found above, old, height,
      List.mem_append_left _ member, same⟩
  · intro signature status found
    rw [next] at found ⊢
    exact ⟨invariant.settled signature status found, invariant.indexed signature status found⟩

section setConfirmed

variable {slot : Nat} {confirmed : Option BlockWithBinary}

/-- A confirmation in a ready state leaves exactly the recent block of the confirmed block in its slot. -/
theorem Ready.recordConfirmed (ready : Ready updates (.setConfirmed slot confirmed)) :
    (confirmed = none ∧ ((run updates).recordConfirmed slot confirmed).recentBlocks.get slot = none) ∨
    ∃ block blockHeight, confirmed = some block ∧ block.blockHeight = some blockHeight ∧
      ((run updates).recordConfirmed slot confirmed).recentBlocks.get slot =
        some (recentOf block blockHeight) := by
  obtain ⟨-, -, here⟩ := ready
  cases confirmed with
  | none => exact Or.inl ⟨rfl, here⟩
  | some block =>
      obtain ⟨blockHeight, height, fresh | same⟩ := here
      · refine Or.inr ⟨block, blockHeight, rfl, height, ?_⟩
        rw [StorageProcessed.recordConfirmed, recent_addSignatures, if_pos ⟨rfl, fresh⟩, height]
        rfl
      · refine Or.inr ⟨block, blockHeight, rfl, height, ?_⟩
        rw [StorageProcessed.recordConfirmed, recent_addSignatures, height, same]
        split <;> rfl

/-- A confirmation in a ready state leaves only statuses of the chain up to its slot. -/
theorem ChainInvariant.settled_setConfirmed {signature : Signature} {status : RecentSignatureStatus}
    (invariant : ChainInvariant updates) (ready : Ready updates (.setConfirmed slot confirmed))
    (found : ((run updates).setConfirmed slot confirmed).signatureStatuses.get signature =
      some status) (low : status.slot ≤ slot) :
    ∃ slot' block, InChain (updates ++ [.setConfirmed slot confirmed]) slot' block ∧
      block.Lists signature := by
  have same (block : BlockWithBinary) (known : confirmed = some block) :
      InChain (updates ++ [.setConfirmed slot confirmed]) slot block :=
    inChain_append_iff.mpr (Or.inr (by rw [known]))
  rcases get_setConfirmed_cases found with before | ⟨block, known, -, listed, -, -⟩
  · by_cases old : status.slot ≤ (run updates).confirmedSlot
    · obtain ⟨slot', block, member, listed⟩ := invariant.settled signature status before old
      exact ⟨slot', block, member.append, listed⟩
    · obtain ⟨recent, present, member⟩ := invariant.indexed signature status before (by omega)
      obtain ⟨-, skipped, here⟩ := ready
      have place : status.slot = slot := by
        by_contra different
        rw [skipped status.slot (by omega) (by omega)] at present
        cases present
      have known := invariant.pending _ _ present (by omega)
      rw [place] at present known
      cases confirmed with
      | none =>
          rw [show (run updates).recentBlocks.get slot = none from here] at present
          cases present
      | some block =>
          obtain ⟨blockHeight, -, fresh | same'⟩ := here
          · rw [fresh] at known
            cases known
          · rw [same'] at present
            cases present
            exact ⟨slot, block, same block rfl, mem_recentOf.mp member⟩
  · exact ⟨slot, block, same block known, listed⟩

/-- A status above the confirmed slot keeps its recent block. -/
theorem ChainInvariant.indexed_setConfirmed {signature : Signature} {status : RecentSignatureStatus}
    (invariant : ChainInvariant updates) (ready : Ready updates (.setConfirmed slot confirmed))
    (found : ((run updates).setConfirmed slot confirmed).signatureStatuses.get signature =
      some status) (above : slot < status.slot) :
    ∃ recent, ((run updates).setConfirmed slot confirmed).recentBlocks.get status.slot =
      some recent ∧ signature ∈ recent.signatures := by
  have before : (run updates).signatureStatuses.get signature = some status := by
    rcases get_setConfirmed_cases found with before | ⟨_, -, -, -, place, -⟩
    · exact before
    · omega
  obtain ⟨recent, present, member⟩ :=
    invariant.indexed signature status before (ready.1.trans_lt above)
  refine ⟨recent, ?_, member⟩
  rw [setConfirmed_recentBlocks]
  apply SortedMap.get_popWhile_of_not_popped
  · rw [recordConfirmed_of_ne _ (Nat.ne_of_gt above), present]
  · -- The eviction of the recent block would have removed the status.
    intro removed
    rw [get_setConfirmed, if_pos ⟨_, removed, member⟩] at found
    cases found

/-- The confirmed height after a confirmation in a ready state is the one of the top of the chain. -/
theorem ChainInvariant.top_setConfirmed (invariant : ChainInvariant updates)
    (ready : Ready updates (.setConfirmed slot confirmed))
    (some' : ∃ slot' block, InChain (updates ++ [.setConfirmed slot confirmed]) slot' block) :
    ∃ top block, InChain (updates ++ [.setConfirmed slot confirmed]) top block ∧
      (∀ slot' block', InChain (updates ++ [.setConfirmed slot confirmed]) slot' block' →
        slot' ≤ top) ∧
      block.blockHeight = some ((run updates).setConfirmed slot confirmed).confirmedHeight := by
  rw [setConfirmed_confirmedHeight]
  rcases ready.recordConfirmed with ⟨rfl, missing⟩ | ⟨block, blockHeight, rfl, height, present⟩
  · simp only [inChain_append_iff, ProcessedUpdate.setConfirmed.injEq, reduceCtorEq, and_false,
      or_false, missing] at some' ⊢
    exact invariant.top some'
  · refine ⟨slot, block, inChain_append_iff.mpr (Or.inr rfl), ?_, by simp [present, height, recentOf]⟩
    intro slot' block' member
    rcases inChain_append_iff.mp member with old | last
    · exact (invariant.below slot' block' old).trans ready.1
    · cases last
      exact le_rfl

/-- A confirmation in a ready state keeps the invariant. -/
theorem ChainInvariant.setConfirmed (invariant : ChainInvariant updates)
    (ready : Ready updates (.setConfirmed slot confirmed)) :
    ChainInvariant (updates ++ [.setConfirmed slot confirmed]) := by
  have next : run (updates ++ [.setConfirmed slot confirmed]) =
      (run updates).setConfirmed slot confirmed := run_append updates _
  have advanced : (run updates).confirmedSlot ≤ slot := ready.1
  constructor
  · intro other recent found above
    rw [next, setConfirmed_confirmedSlot] at above
    rw [next] at found
    have before := recent_of_setConfirmed found above
    rw [next, setConfirmed_blocks, SortedMap.containsKey, SortedMap.get_popWhile_le,
      if_neg (by omega)]
    exact invariant.pending other recent before (by omega)
  · intro other recent found above
    rw [next, setConfirmed_confirmedSlot] at above
    rw [next] at found
    have before := recent_of_setConfirmed found above
    obtain ⟨block, blockHeight, member, same⟩ :=
      invariant.processed other recent before (by omega)
    exact ⟨block, blockHeight, List.mem_append_left _ member, same⟩
  · intro signature status found low
    rw [next, setConfirmed_confirmedSlot] at low
    rw [next] at found
    exact invariant.settled_setConfirmed ready found low
  · intro signature status found above
    rw [next, setConfirmed_confirmedSlot] at above
    rw [next] at found ⊢
    exact invariant.indexed_setConfirmed ready found above
  · intro other block member
    rw [next, setConfirmed_confirmedSlot]
    rcases inChain_append_iff.mp member with old | last
    · exact (invariant.below other block old).trans advanced
    · cases last
      exact le_rfl
  · intro some'
    rw [next]
    exact invariant.top_setConfirmed ready some'

end setConfirmed

/-- One update in a ready state keeps the invariant. -/
theorem ChainInvariant.step (invariant : ChainInvariant updates) (ready : Ready updates last) :
    ChainInvariant (updates ++ [last]) := by
  cases last with
  | addProcessedBlock slot block => exact invariant.addProcessedBlock ready
  | markDead slot => exact invariant.markDead
  | setConfirmed slot confirmed => exact invariant.setConfirmed ready
  | setFinalized slot => exact invariant.setFinalized

section messages

/-- The recent state agrees with what the messages leave. -/
structure MessageInvariant (updates : List ProcessedUpdate) : Prop where
  ascending : (confirmations updates).Pairwise (· ≤ ·)
  passed : ∀ slot recent, (run updates).recentBlocks.get slot = some recent →
    slot ≤ lastConfirmed updates → ∃ block, InChain updates slot block

/-- The messages before the first one leave nothing. -/
theorem messageInvariant_nil : MessageInvariant [] where
  ascending := List.Pairwise.nil
  passed := by intro slot recent found; cases found

variable {slot : Nat} {recent : RecentBlock}

/-- A slot with a recent block is occupied. -/
theorem MessageInvariant.occupied (invariant : MessageInvariant updates)
    (found : (run updates).recentBlocks.get slot = some recent) : Occupied updates slot := by
  by_cases low : slot ≤ lastConfirmed updates
  · exact Or.inl (invariant.passed slot recent found low)
  · obtain ⟨block, blockHeight, height, -, standing⟩ :=
      standing_of_recent invariant.ascending found (Nat.not_le.mp low)
    exact Or.inr ⟨block, blockHeight, height, standing⟩

/-- A slot that is not occupied has no recent block. -/
theorem MessageInvariant.recent_eq_none (invariant : MessageInvariant updates)
    (free : ¬ Occupied updates slot) : (run updates).recentBlocks.get slot = none := by
  cases found : (run updates).recentBlocks.get slot with
  | none => rfl
  | some recent => exact absurd (invariant.occupied found) free

/-- The state is ready for a message that meets the guard. -/
theorem MessageInvariant.ready (invariant : MessageInvariant updates)
    (guarded : Guard updates last) : Ready updates last := by
  cases last with
  | addProcessedBlock slot block =>
      intro low
      rw [confirmedSlot_run] at low
      rw [containsKey_run]
      exact guarded low
  | setConfirmed slot confirmed =>
      obtain ⟨next, skipped, here⟩ := guarded
      rw [← confirmedSlot_run] at next skipped
      refine ⟨next, fun other above below => invariant.recent_eq_none (skipped other above below), ?_⟩
      cases confirmed with
      | none => exact invariant.recent_eq_none here
      | some block =>
          obtain ⟨blockHeight, height, fresh | ⟨window, first, standing, known, same⟩⟩ := here
          · exact ⟨blockHeight, height, Or.inl (containsKey_run_eq_false fresh)⟩
          · refine ⟨blockHeight, height, Or.inr ?_⟩
            rw [recent_of_standing standing known window, same]
  | markDead slot => trivial
  | setFinalized slot => trivial

/-- A guarded message keeps the agreement. -/
theorem MessageInvariant.step (invariant : MessageInvariant updates) (guarded : Guard updates last) :
    MessageInvariant (updates ++ [last]) := by
  have kept {place : Nat} {recent : RecentBlock}
      (found : (run updates).recentBlocks.get place = some recent)
      (low : place ≤ lastConfirmed updates) : ∃ block, InChain (updates ++ [last]) place block := by
    obtain ⟨block, member⟩ := invariant.passed place recent found low
    exact ⟨block, member.append⟩
  refine ⟨ascending_concat.mpr ⟨invariant.ascending, ?_⟩, ?_⟩
  · intro slot known
    cases last with
    | setConfirmed place confirmed =>
        cases known
        exact guarded.1
    | _ => cases known
  · intro other recent found low
    rw [run_append] at found
    rw [lastConfirmed_concat] at low
    cases last with
    | addProcessedBlock slot block =>
        rw [update, recent_addProcessedBlock] at found
        split at found
        · rename_i fresh
          obtain ⟨rfl, fresh⟩ := fresh
          rcases guarded low with known | member
          · rw [← containsKey_run, fresh] at known
            cases known
          · exact ⟨block, member.append⟩
        · exact kept found low
    | markDead slot =>
        rw [update, recent_markDead] at found
        split at found
        · cases found
        · exact kept found low
    | setConfirmed slot confirmed =>
        change other ≤ slot at low
        rw [update, setConfirmed_recentBlocks] at found
        have recorded := SortedMap.get_of_popWhile found
        rcases Nat.lt_or_eq_of_le low with below | rfl
        · rw [recordConfirmed_of_ne _ (Nat.ne_of_lt below)] at recorded
          by_cases old : other ≤ lastConfirmed updates
          · exact kept recorded old
          · exact absurd (invariant.occupied recorded) (guarded.2.1 other (Nat.not_le.mp old) below)
        · cases confirmed with
          | none => exact absurd (invariant.occupied recorded) guarded.2.2
          | some block => exact ⟨block, inChain_append_iff.mpr (Or.inr rfl)⟩
    | setFinalized slot =>
        obtain ⟨_, _, equal⟩ := setFinalized_eq (run updates) slot
        rw [update, equal] at found
        exact kept found low

end messages

theorem guardedRun_nil : GuardedRun [] := by
  intro before last initial
  exact absurd (List.prefix_nil.mp initial) (by simp)

/-- A run is guarded when its start and its last update are. -/
theorem guardedRun_append :
    GuardedRun (updates ++ [last]) ↔ GuardedRun updates ∧ Guard updates last := by
  constructor
  · intro guarded
    exact ⟨fun before next initial => guarded before next (initial.trans (List.prefix_append _ _)),
      guarded updates last List.prefix_rfl⟩
  · rintro ⟨start, final⟩ before next initial
    rcases List.prefix_concat_iff.mp initial with same | initial
    · obtain ⟨rfl, rfl⟩ := List.append_singleton_inj.mp same
      exact final
    · exact start before next initial

/-- Every guarded run satisfies both invariants. -/
theorem invariants_run (guarded : GuardedRun updates) :
    MessageInvariant updates ∧ ChainInvariant updates := by
  induction updates using List.reverseRecOn with
  | nil => exact ⟨messageInvariant_nil, chainInvariant_nil⟩
  | append_singleton updates last ih =>
      obtain ⟨start, final⟩ := guardedRun_append.mp guarded
      obtain ⟨messages, chain⟩ := ih start
      exact ⟨messages.step final, chain.step (messages.ready final)⟩

/-- The invariant leaves no status to a signature of abandoned blocks only. -/
theorem ChainInvariant.abandoned {signature : Signature} (invariant : ChainInvariant updates)
    (only : OnlyAbandoned updates signature) :
    (run updates).signatureStatuses.get signature = none := by
  cases found : (run updates).signatureStatuses.get signature with
  | none => rfl
  | some status =>
      by_cases low : status.slot ≤ (run updates).confirmedSlot
      · obtain ⟨slot, block, member, listed⟩ := invariant.settled signature status found low
        exact absurd member (only.2 slot block (Or.inr member) listed).2.2
      · obtain ⟨recent, present, member⟩ := invariant.indexed signature status found (by omega)
        obtain ⟨block, blockHeight, added, same⟩ :=
          invariant.processed status.slot recent present (by omega)
        rw [same, mem_recentOf] at member
        exact absurd (only.2 status.slot block (Or.inl added) member).2.1 low

/-- The recent state follows the chain after each confirmation of a guarded run. -/
theorem guardedRun_followsChain (updates : List ProcessedUpdate) (slot : Nat)
    (confirmed : Option BlockWithBinary)
    (guarded : GuardedRun (updates ++ [.setConfirmed slot confirmed])) :
    FollowsChain (updates ++ [.setConfirmed slot confirmed]) slot confirmed := by
  have invariant := (invariants_run guarded).2
  obtain ⟨start, final⟩ := guardedRun_append.mp guarded
  have ready := (invariants_run start).1.ready final
  have next : run (updates ++ [.setConfirmed slot confirmed]) =
      (run updates).setConfirmed slot confirmed := run_append updates _
  refine ⟨?_, ?_, fun signature only => invariant.abandoned only, invariant.top⟩
  · intro skipped
    rcases ready.recordConfirmed with ⟨-, missing⟩ | ⟨_, _, known, -⟩
    · rw [next, setConfirmed_recentBlocks]
      exact SortedMap.get_popWhile_eq_none missing
    · rw [skipped] at known
      cases known
  · rintro block rfl
    rcases ready.recordConfirmed with ⟨known, -⟩ | ⟨_, blockHeight, known, height, present⟩
    · cases known
    · cases known
      refine Or.inr ⟨blockHeight, height, ?_⟩
      rw [next, setConfirmed_recentBlocks]
      apply SortedMap.get_popWhile_of_not_popped present
      intro removed
      have old := SortedMap.test_of_mem_popped removed
      rw [setConfirmed_confirmedHeight, present] at old
      simp [outdated, recentOf, maxRecentBlockhashes] at old

/-- The fork block of slot 5 is marked dead before slot 5 is confirmed without a block. -/
def forkRun : List ProcessedUpdate :=
  [.addProcessedBlock 5 (.plain "x" 4 [⟨9⟩]), .addProcessedBlock 6 (.plain "a" 4 [⟨7⟩]), .markDead 5,
    .setConfirmed 5 none]

theorem forkRun_guarded : GuardedRun (forkRun ++ [.setConfirmed 6 (some (.plain "a" 4 [⟨7⟩]))]) := by
  have steps : forkRun = [] ++ [.addProcessedBlock 5 (.plain "x" 4 [⟨9⟩])] ++
      [.addProcessedBlock 6 (.plain "a" 4 [⟨7⟩])] ++ [.markDead 5] ++ [.setConfirmed 5 none] := rfl
  have low : lastConfirmed [] = 0 := rfl
  have unheard (slot : Nat) : ¬ Pending slot [] := not_since_nil
  have unsent (slot : Nat) (block : BlockWithBinary) : ¬ Standing slot block [] := not_since_nil
  have unconfirmed (slot : Nat) (block : BlockWithBinary) : ¬ InChain [] slot block := List.not_mem_nil
  have window : InWindow forkRun 4 := by
    intro slot _ block height brings known
    simp only [Brings, forkRun, List.mem_cons, ProcessedUpdate.addProcessedBlock.injEq,
      ProcessedUpdate.setConfirmed.injEq, reduceCtorEq, List.not_mem_nil, or_false,
      and_false] at brings
    obtain ⟨rfl, rfl⟩ | ⟨rfl, rfl⟩ := brings <;>
    · cases known
      decide
  rw [steps]
  simp only [guardedRun_append, Guard, lastConfirmed_concat, pending_concat,
    standing_concat, Occupied, inChain_append_iff, low, unheard, unsent, unconfirmed,
    ProcessedUpdate.confirms, ProcessedUpdate.Mentions, ProcessedUpdate.Passes]
  refine ⟨⟨⟨⟨⟨guardedRun_nil, by simp⟩, by simp⟩, by simp⟩, ?_⟩, ?_⟩
  · -- The only block below slot 5 or at it is the dead one.
    simp
    omega
  · refine ⟨by simp, fun skipped above below => absurd below ?_, 4, rfl, Or.inr ?_⟩
    · simp only [Option.getD_some] at above
      omega
    · exact ⟨window, .plain "a" 4 [⟨7⟩], by simp, rfl, rfl⟩

/-- The confirmed block replaces the fork, and the signature of the fork has no status. -/
theorem guardedRun_followsChain_fork :
    OnlyAbandoned (forkRun ++ [.setConfirmed 6 (some (.plain "a" 4 [⟨7⟩]))]) ⟨9⟩ ∧
      FollowsChain (forkRun ++ [.setConfirmed 6 (some (.plain "a" 4 [⟨7⟩]))]) 6
        (some (.plain "a" 4 [⟨7⟩])) := by
  refine ⟨?_, guardedRun_followsChain forkRun 6 _ forkRun_guarded⟩
  have fork : Abandoned (forkRun ++ [.setConfirmed 6 (some (.plain "a" 4 [⟨7⟩]))]) 5
      (.plain "x" 4 [⟨9⟩]) := ⟨by decide, by decide +kernel, by simp [InChain, forkRun]⟩
  refine ⟨⟨5, _, fork, by decide⟩, ?_⟩
  intro slot block found listed
  simp only [forkRun, InChain, List.mem_append, List.mem_cons,
    ProcessedUpdate.addProcessedBlock.injEq, ProcessedUpdate.setConfirmed.injEq, reduceCtorEq,
    List.not_mem_nil, or_false, false_or, Option.some.injEq, and_false] at found
  rcases found with (⟨rfl, rfl⟩ | ⟨rfl, rfl⟩) | ⟨rfl, rfl⟩
  · exact fork
  · exact absurd listed (by decide)
  · exact absurd listed (by decide)

/-- A skipped slot keeps the recent block of an abandoned fork and its signatures. -/
theorem followsChain_false :
    ¬ ∀ (updates : List ProcessedUpdate) (slot : Nat) (confirmed : Option BlockWithBinary),
      FollowsChain (updates ++ [.setConfirmed slot confirmed]) slot confirmed := by
  intro follows
  have kept : (run ([.addProcessedBlock 5 (.plain "a" 4 [⟨7⟩])] ++
      [.setConfirmed 5 none])).recentBlocks.get 5 ≠ none := by decide
  exact kept ((follows [.addProcessedBlock 5 (.plain "a" 4 [⟨7⟩])] 5 none).skipped rfl)

end Alpamayo.StorageProcessed
