import Alpamayo.Proof.ProcessedState

/-!
This file shows when the maps of the signatures and of the blockhashes are the index of the recent
blocks.
-/

namespace Alpamayo.StorageProcessed

variable {before after : StorageProcessed} {change : ProcessedUpdate} {slot blockHeight : Nat}
  {signature : Signature}

/-- The maps are the index of the recent blocks. -/
structure Indexed (before : StorageProcessed) : Prop where
  listed : ∀ signature, (before.signatureStatuses.get signature).isSome = true ↔
    ∃ slot recent, before.recentBlocks.get slot = some recent ∧ signature ∈ recent.signatures
  placed : ∀ signature status, before.signatureStatuses.get signature = some status →
    ∃ recent, before.recentBlocks.get status.slot = some recent ∧
      recent.blockHeight = status.blockHeight ∧ signature ∈ recent.signatures
  heights : ∀ blockhash blockHeight, before.blockHeights.get blockhash = some blockHeight ↔
    ∃ slot recent, before.recentBlocks.get slot = some recent ∧ recent.blockhash = blockhash ∧
      recent.blockHeight = blockHeight

/-- A block with a height is recorded in a slot without an entry. -/
def recordedBlock (before : StorageProcessed) (slot : Nat) (block : BlockWithBinary) :
    Option (Nat × RecentBlock) :=
  if before.blocks.containsKey slot then none
  else block.blockHeight.map fun blockHeight => (slot, recentOf block blockHeight)

/-- The recent block that the update records. -/
def recorded (before : StorageProcessed) : ProcessedUpdate → Option (Nat × RecentBlock)
  | .addProcessedBlock slot block => before.recordedBlock slot block
  | .setConfirmed slot block => block.bind (before.recordedBlock slot)
  | .markDead _ | .setFinalized _ => none

/-- The recent blocks with the one that the update records. -/
def withRecorded (before : StorageProcessed) (change : ProcessedUpdate) : SortedMap Nat RecentBlock :=
  (before.recorded change).elim before.recentBlocks fun entry =>
    before.recentBlocks.insert entry.1 entry.2

/-- The recent blocks that leave the window with the update: one that is marked dead, or the outdated
ones. -/
def leaving (before : StorageProcessed) : ProcessedUpdate → List (Nat × RecentBlock)
  | .markDead slot =>
      if before.blocks.containsKey slot then
        (before.recentBlocks.get slot).toList.map fun recent => (slot, recent)
      else []
  | .setConfirmed slot block =>
      let recentBlocks := before.withRecorded (.setConfirmed slot block)
      recentBlocks.popped (outdated (((recentBlocks.get slot).map RecentBlock.blockHeight).getD
        before.confirmedHeight))
  | .addProcessedBlock _ _ | .setFinalized _ => []

/-- A block that leaves the window lists the signature. -/
def Drops (before : StorageProcessed) (change : ProcessedUpdate) (signature : Signature) : Prop :=
  ∃ entry ∈ before.leaving change, signature ∈ entry.2.signatures

/-- A block that leaves the window has the blockhash. -/
def DropsHash (before : StorageProcessed) (change : ProcessedUpdate) (blockhash : String) : Prop :=
  ∃ entry ∈ before.leaving change, entry.2.blockhash = blockhash

/-- The update keeps the maps an index. A block that leaves shares no signature and no blockhash with
one that stays; a recorded block has the height of the other recent blocks with its blockhash; and where
it replaces a recent block, no signature and no blockhash of that block depended on it alone. -/
structure KeepsIndex (before : StorageProcessed) (change : ProcessedUpdate) : Prop where
  separate : ∀ slot recent, (before.withRecorded change).get slot = some recent →
    slot ∉ (before.leaving change).map Prod.fst →
      (∀ signature ∈ recent.signatures, ¬ before.Drops change signature) ∧
        ¬ before.DropsHash change recent.blockhash
  agrees : ∀ slot recent, before.recorded change = some (slot, recent) →
    ∀ other old, before.recentBlocks.get other = some old → other ≠ slot →
      old.blockhash = recent.blockhash → old.blockHeight = recent.blockHeight
  covers : ∀ slot recent, before.recorded change = some (slot, recent) →
    ∀ old, before.recentBlocks.get slot = some old →
      (∀ signature ∈ old.signatures, signature ∈ recent.signatures ∨ before.Drops change signature ∨
        ∃ status, before.signatureStatuses.get signature = some status ∧ status.slot ≠ slot) ∧
      (old.blockhash = recent.blockhash ∨ before.DropsHash change old.blockhash ∨
        ∃ other twin, before.recentBlocks.get other = some twin ∧ other ≠ slot ∧
          twin.blockhash = old.blockhash)

/-- The update records one block, drops the leaving ones, and changes nothing else in the window and in
the maps. -/
structure Changes (before : StorageProcessed) (change : ProcessedUpdate) (after : StorageProcessed) :
    Prop where
  stays : ∀ slot recent, before.recorded change = some (slot, recent) →
    slot ∉ (before.leaving change).map Prod.fst
  leaves : ∀ entry ∈ before.leaving change, (before.withRecorded change).get entry.1 = some entry.2
  recentBlocks : ∀ slot, after.recentBlocks.get slot =
    if slot ∈ (before.leaving change).map Prod.fst then none else (before.withRecorded change).get slot
  dropped : ∀ signature, before.Drops change signature → after.signatureStatuses.get signature = none
  added : ∀ signature slot recent, ¬ before.Drops change signature →
    before.recorded change = some (slot, recent) → signature ∈ recent.signatures →
      ∃ status, after.signatureStatuses.get signature = some status ∧ status.slot = slot ∧
        status.blockHeight = recent.blockHeight
  kept : ∀ signature, ¬ before.Drops change signature →
    (∀ slot recent, before.recorded change = some (slot, recent) → signature ∉ recent.signatures) →
      after.signatureStatuses.get signature = before.signatureStatuses.get signature
  droppedHash : ∀ blockhash, before.DropsHash change blockhash → after.blockHeights.get blockhash = none
  addedHash : ∀ slot recent, before.recorded change = some (slot, recent) →
    ¬ before.DropsHash change recent.blockhash →
      after.blockHeights.get recent.blockhash = some recent.blockHeight
  keptHash : ∀ blockhash, ¬ before.DropsHash change blockhash →
    (∀ slot recent, before.recorded change = some (slot, recent) → recent.blockhash ≠ blockhash) →
      after.blockHeights.get blockhash = before.blockHeights.get blockhash

/-- The window with the recorded block has it in its slot and the old blocks elsewhere. -/
theorem withRecorded_self {recent : RecentBlock}
    (isRecorded : before.recorded change = some (slot, recent)) :
    (before.withRecorded change).get slot = some recent := by
  rw [withRecorded, isRecorded]
  exact SortedMap.get_insert_self

theorem withRecorded_other (differs : ∀ recent, before.recorded change ≠ some (slot, recent)) :
    (before.withRecorded change).get slot = before.recentBlocks.get slot := by
  unfold withRecorded
  cases isRecorded : before.recorded change with
  | none => rfl
  | some entry =>
      apply SortedMap.get_insert_of_ne
      rintro rfl
      exact differs entry.2 isRecorded

/-- A block of the window with the recorded block is that block or an old one of another slot. -/
theorem withRecorded_cases {recent : RecentBlock}
    (known : (before.withRecorded change).get slot = some recent) :
    before.recorded change = some (slot, recent) ∨
      before.recentBlocks.get slot = some recent ∧
        ∀ other, before.recorded change ≠ some (slot, other) := by
  by_cases replaced : ∃ other, before.recorded change = some (slot, other)
  · obtain ⟨other, isRecorded⟩ := replaced
    rw [withRecorded_self isRecorded] at known
    cases known
    exact Or.inl isRecorded
  · simp only [not_exists] at replaced
    rw [withRecorded_other replaced] at known
    exact Or.inr ⟨known, replaced⟩

/-- An old block is replaced or stays in the window with the recorded block. -/
theorem replaced_or_withRecorded (change : ProcessedUpdate) {old : RecentBlock}
    (known : before.recentBlocks.get slot = some old) :
    (∃ recent, before.recorded change = some (slot, recent)) ∨
      (before.withRecorded change).get slot = some old := by
  by_cases replaced : ∃ other, before.recorded change = some (slot, other)
  · exact Or.inl replaced
  · simp only [not_exists] at replaced
    rw [withRecorded_other replaced]
    exact Or.inr known

namespace Changes

variable {recent : RecentBlock} (changes : before.Changes change after)

include changes

/-- A block that does not leave is in the window after the update. -/
theorem get_of_stays (known : (before.withRecorded change).get slot = some recent)
    (stays : slot ∉ (before.leaving change).map Prod.fst) : after.recentBlocks.get slot = some recent := by
  rw [changes.recentBlocks, if_neg stays, known]

/-- A block of the window after the update did not leave. -/
theorem stays_of_get (known : after.recentBlocks.get slot = some recent) :
    (before.withRecorded change).get slot = some recent ∧
      slot ∉ (before.leaving change).map Prod.fst := by
  rw [changes.recentBlocks] at known
  split at known
  · cases known
  · exact ⟨known, ‹_›⟩

/-- A block with a signature that is not dropped stays. -/
theorem stays_of_listed (known : (before.withRecorded change).get slot = some recent)
    (keeps : ¬ before.Drops change signature) (listed : signature ∈ recent.signatures) :
    slot ∉ (before.leaving change).map Prod.fst := by
  intro leaves
  obtain ⟨entry, member, rfl⟩ := List.mem_map.mp leaves
  have same := changes.leaves entry member
  rw [known] at same
  cases same
  exact keeps ⟨entry, member, listed⟩

/-- A block with a blockhash that is not dropped stays. -/
theorem stays_of_hash (known : (before.withRecorded change).get slot = some recent)
    (keeps : ¬ before.DropsHash change recent.blockhash) :
    slot ∉ (before.leaving change).map Prod.fst := by
  intro leaves
  obtain ⟨entry, member, rfl⟩ := List.mem_map.mp leaves
  have same := changes.leaves entry member
  rw [known] at same
  cases same
  exact keeps ⟨entry, member, rfl⟩

/-- After a sound update the maps are an index only if the condition holds. -/
theorem keepsIndex (indexed : before.Indexed) (afterIndexed : after.Indexed) :
    before.KeepsIndex change := by
  have hashKept {slot : Nat} {recent : RecentBlock} (known : after.recentBlocks.get slot = some recent) :
      ¬ before.DropsHash change recent.blockhash := by
    intro dropped
    have missing := changes.droppedHash _ dropped
    rw [(afterIndexed.heights _ _).mpr ⟨slot, recent, known, rfl, rfl⟩] at missing
    cases missing
  constructor
  · intro slot recent known stays
    have stored := changes.get_of_stays known stays
    refine ⟨?_, hashKept stored⟩
    intro signature listed dropped
    have present := (afterIndexed.listed signature).mpr ⟨slot, recent, stored, listed⟩
    rw [changes.dropped signature dropped] at present
    cases present
  · intro slot recent isRecorded other old known differs sameHash
    have stored := changes.get_of_stays (withRecorded_self isRecorded) (changes.stays _ _ isRecorded)
    have height := changes.addedHash slot recent isRecorded (hashKept stored)
    have kept : (before.withRecorded change).get other = some old := by
      rw [withRecorded_other, known]
      rintro _ again
      rw [isRecorded] at again
      cases again
      exact differs rfl
    have otherStays := changes.stays_of_hash kept (sameHash ▸ hashKept stored)
    have otherHeight := (afterIndexed.heights _ _).mpr
      ⟨other, old, changes.get_of_stays kept otherStays, rfl, rfl⟩
    rw [sameHash, height] at otherHeight
    exact (Option.some.inj otherHeight).symm
  · intro slot recent isRecorded old known
    constructor
    · intro signature listed
      by_cases inRecent : signature ∈ recent.signatures
      · exact Or.inl inRecent
      by_cases drops : before.Drops change signature
      · exact Or.inr (Or.inl drops)
      have same := changes.kept signature drops (by
        intro _ _ again
        rw [isRecorded] at again
        cases again
        exact inRecent)
      have present := (indexed.listed signature).mpr ⟨slot, old, known, listed⟩
      obtain ⟨status, found⟩ := Option.isSome_iff_exists.mp present
      refine Or.inr (Or.inr ⟨status, found, ?_⟩)
      rintro rfl
      obtain ⟨place, placed, -, listed⟩ := afterIndexed.placed signature status (same ▸ found)
      have here := (changes.stays_of_get placed).1
      rw [withRecorded_self isRecorded] at here
      cases here
      exact inRecent listed
    · by_cases sameHash : old.blockhash = recent.blockhash
      · exact Or.inl sameHash
      by_cases drops : before.DropsHash change old.blockhash
      · exact Or.inr (Or.inl drops)
      have same := changes.keptHash old.blockhash drops (by
        intro _ _ again
        rw [isRecorded] at again
        cases again
        exact fun equal => sameHash equal.symm)
      have found := (indexed.heights _ _).mpr ⟨slot, old, known, rfl, rfl⟩
      rw [← same] at found
      obtain ⟨other, twin, stored, twinHash, -⟩ := (afterIndexed.heights _ _).mp found
      have differs : other ≠ slot := by
        rintro rfl
        have here := (changes.stays_of_get stored).1
        rw [withRecorded_self isRecorded] at here
        cases here
        exact sameHash twinHash.symm
      refine Or.inr (Or.inr ⟨other, twin, ?_, differs, twinHash⟩)
      rw [← (changes.stays_of_get stored).1, withRecorded_other]
      rintro _ again
      rw [isRecorded] at again
      cases again
      exact differs rfl

/-- A signature that keeps its status stays listed by the block of the status. -/
theorem placed_of_kept (indexed : before.Indexed) (keeps : before.KeepsIndex change)
    (stays : ¬ before.Drops change signature)
    (unlisted : ∀ slot recent, before.recorded change = some (slot, recent) →
      signature ∉ recent.signatures)
    {status : RecentSignatureStatus} (found : before.signatureStatuses.get signature = some status) :
    ∃ recent, after.recentBlocks.get status.slot = some recent ∧
      recent.blockHeight = status.blockHeight ∧ signature ∈ recent.signatures := by
  obtain ⟨old, known, height, listed⟩ := indexed.placed signature status found
  obtain ⟨recent, isRecorded⟩ | same := replaced_or_withRecorded change known
  · obtain inRecent | drops | ⟨other, again, differs⟩ :=
      (keeps.covers _ recent isRecorded old known).1 signature listed
    · exact absurd inRecent (unlisted _ _ isRecorded)
    · exact absurd drops stays
    · rw [found] at again
      cases again
      exact absurd rfl differs
  · exact ⟨old, changes.get_of_stays same (changes.stays_of_listed same stays listed), height, listed⟩

/-- A status after the update is placed in a recent block that lists the signature. -/
theorem placed (indexed : before.Indexed) (keeps : before.KeepsIndex change)
    {status : RecentSignatureStatus} (found : after.signatureStatuses.get signature = some status) :
    ∃ recent, after.recentBlocks.get status.slot = some recent ∧
      recent.blockHeight = status.blockHeight ∧ signature ∈ recent.signatures := by
  have stays : ¬ before.Drops change signature := by
    intro drops
    rw [changes.dropped signature drops] at found
    cases found
  by_cases new : ∃ slot recent, before.recorded change = some (slot, recent) ∧
      signature ∈ recent.signatures
  · obtain ⟨slot, recent, isRecorded, listed⟩ := new
    obtain ⟨added, same, place, height⟩ := changes.added signature slot recent stays isRecorded listed
    rw [found] at same
    cases same
    refine ⟨recent, ?_, height.symm, listed⟩
    rw [place]
    exact changes.get_of_stays (withRecorded_self isRecorded) (changes.stays _ _ isRecorded)
  · have unlisted (slot : Nat) (recent : RecentBlock)
        (isRecorded : before.recorded change = some (slot, recent)) :
        signature ∉ recent.signatures := fun listed => new ⟨slot, recent, isRecorded, listed⟩
    rw [changes.kept signature stays unlisted] at found
    exact changes.placed_of_kept indexed keeps stays unlisted found

/-- A signature that a recent block lists after the update has a status. -/
theorem present_of_listed (indexed : before.Indexed) (keeps : before.KeepsIndex change)
    {recent : RecentBlock} (known : after.recentBlocks.get slot = some recent)
    (listed : signature ∈ recent.signatures) :
    (after.signatureStatuses.get signature).isSome = true := by
  obtain ⟨same, stays⟩ := changes.stays_of_get known
  have undropped := (keeps.separate slot recent same stays).1 signature listed
  by_cases new : ∃ slot recent, before.recorded change = some (slot, recent) ∧
      signature ∈ recent.signatures
  · obtain ⟨place, block, isRecorded, inBlock⟩ := new
    obtain ⟨status, found, -⟩ := changes.added signature place block undropped isRecorded inBlock
    rw [found]
    rfl
  · rw [changes.kept signature undropped fun place block isRecorded inBlock =>
      new ⟨place, block, isRecorded, inBlock⟩]
    obtain isRecorded | ⟨old, -⟩ := withRecorded_cases same
    · exact absurd ⟨slot, recent, isRecorded, listed⟩ new
    · exact (indexed.listed signature).mpr ⟨slot, recent, old, listed⟩

/-- A height after the update is that of a recent block with the blockhash. -/
theorem recent_of_height (indexed : before.Indexed) (keeps : before.KeepsIndex change)
    {blockhash : String} (found : after.blockHeights.get blockhash = some blockHeight) :
    ∃ slot recent, after.recentBlocks.get slot = some recent ∧ recent.blockhash = blockhash ∧
      recent.blockHeight = blockHeight := by
  have stays : ¬ before.DropsHash change blockhash := by
    intro drops
    rw [changes.droppedHash blockhash drops] at found
    cases found
  by_cases new : ∃ slot recent, before.recorded change = some (slot, recent) ∧
      recent.blockhash = blockhash
  · obtain ⟨slot, recent, isRecorded, rfl⟩ := new
    rw [changes.addedHash slot recent isRecorded stays] at found
    exact ⟨slot, recent, changes.get_of_stays (withRecorded_self isRecorded)
      (changes.stays _ _ isRecorded), rfl, Option.some.inj found⟩
  · rw [changes.keptHash blockhash stays fun slot recent isRecorded same =>
      new ⟨slot, recent, isRecorded, same⟩] at found
    obtain ⟨slot, old, known, rfl, height⟩ := (indexed.heights _ _).mp found
    obtain ⟨recent, isRecorded⟩ | same := replaced_or_withRecorded change known
    · obtain sameHash | drops | ⟨other, twin, twinKnown, differs, sameHash⟩ :=
        (keeps.covers slot recent isRecorded old known).2
      · exact absurd ⟨slot, recent, isRecorded, sameHash.symm⟩ new
      · exact absurd drops stays
      · have kept : (before.withRecorded change).get other = some twin := by
          rw [withRecorded_other, twinKnown]
          rintro _ again
          rw [isRecorded] at again
          cases again
          exact differs rfl
        have twinHeight := (indexed.heights _ _).mpr ⟨other, twin, twinKnown, sameHash, rfl⟩
        rw [found] at twinHeight
        exact ⟨other, twin, changes.get_of_stays kept (changes.stays_of_hash kept (sameHash ▸ stays)),
          sameHash, (Option.some.inj twinHeight).symm⟩
    · exact ⟨slot, old, changes.get_of_stays same (changes.stays_of_hash same stays), rfl, height⟩

/-- The blockhash of a recent block has its height after the update. -/
theorem height_of_recent (indexed : before.Indexed) (keeps : before.KeepsIndex change)
    {recent : RecentBlock} (known : after.recentBlocks.get slot = some recent) :
    after.blockHeights.get recent.blockhash = some recent.blockHeight := by
  obtain ⟨same, stays⟩ := changes.stays_of_get known
  have undropped := (keeps.separate slot recent same stays).2
  obtain isRecorded | ⟨old, differs⟩ := withRecorded_cases same
  · exact changes.addedHash slot recent isRecorded undropped
  · have height := (indexed.heights _ _).mpr ⟨slot, recent, old, rfl, rfl⟩
    by_cases new : ∃ place block, before.recorded change = some (place, block) ∧
        block.blockhash = recent.blockhash
    · obtain ⟨place, block, isRecorded, sameHash⟩ := new
      have apart : slot ≠ place := by
        rintro rfl
        exact differs block isRecorded
      rw [← sameHash, changes.addedHash place block isRecorded (sameHash ▸ undropped),
        keeps.agrees place block isRecorded slot recent old apart sameHash.symm]
    · rw [changes.keptHash _ undropped fun place block isRecorded sameHash =>
        new ⟨place, block, isRecorded, sameHash⟩, height]

/-- A sound update keeps the maps an index exactly when the condition holds. -/
theorem indexed_iff (indexed : before.Indexed) : after.Indexed ↔ before.KeepsIndex change := by
  constructor
  · exact changes.keepsIndex indexed
  · intro keeps
    constructor
    · intro signature
      constructor
      · intro present
        obtain ⟨status, found⟩ := Option.isSome_iff_exists.mp present
        obtain ⟨recent, known, -, listed⟩ := changes.placed indexed keeps found
        exact ⟨status.slot, recent, known, listed⟩
      · rintro ⟨slot, recent, known, listed⟩
        exact changes.present_of_listed indexed keeps known listed
    · intro signature status found
      exact changes.placed indexed keeps found
    · intro blockhash blockHeight
      constructor
      · exact changes.recent_of_height indexed keeps
      · rintro ⟨slot, recent, known, rfl, rfl⟩
        exact changes.height_of_recent indexed keeps known

end Changes

/-- The state records one block and changes nothing else in the window and in the maps. -/
structure Records (before : StorageProcessed) (recorded : Option (Nat × RecentBlock))
    (middle : StorageProcessed) : Prop where
  recentBlocks : middle.recentBlocks = recorded.elim before.recentBlocks fun entry =>
    before.recentBlocks.insert entry.1 entry.2
  added : ∀ signature slot recent, recorded = some (slot, recent) → signature ∈ recent.signatures →
    ∃ status, middle.signatureStatuses.get signature = some status ∧ status.slot = slot ∧
      status.blockHeight = recent.blockHeight
  kept : ∀ signature, (∀ slot recent, recorded = some (slot, recent) →
    signature ∉ recent.signatures) →
      middle.signatureStatuses.get signature = before.signatureStatuses.get signature
  blockHeights : middle.blockHeights = recorded.elim before.blockHeights fun entry =>
    before.blockHeights.insert entry.2.blockhash entry.2.blockHeight

theorem Records.none (before : StorageProcessed) : before.Records none before :=
  ⟨rfl, fun _ _ _ none => (by cases none), fun _ _ => rfl, rfl⟩

/-- The addition of signatures records the block. -/
theorem addSignatures_records (before : StorageProcessed) (slot : Nat) (block : BlockWithBinary) :
    before.Records (before.recordedBlock slot block) (before.addSignatures slot block) := by
  obtain ⟨known | noHeight, equal⟩ | ⟨height, fresh, known, equal⟩ :=
    addSignatures_cases before slot block
  · rw [equal, recordedBlock, if_pos known]
    exact Records.none before
  · rw [equal, recordedBlock, noHeight, Option.map_none, ite_self]
    exact Records.none before
  · have last (signature : Signature) := HashMap.get_foldl_insert block.transactions
      (fun tx => tx.signature) (fun tx => (⟨slot, height, tx.err⟩ : RecentSignatureStatus))
      before.signatureStatuses signature
    rw [equal, recordedBlock, fresh, known]
    simp only [Bool.false_eq_true, if_false, Option.map_some]
    constructor
    · rfl
    · rintro signature _ _ ⟨⟩ listed
      obtain ⟨tx, member, same⟩ := mem_recentOf.mp listed
      cases found : block.transactions.reverse.find? fun tx => tx.signature = signature with
      | none =>
          have missing := List.find?_eq_none.mp found tx (List.mem_reverse.mpr member)
          simp [same] at missing
      | some newest =>
          exact ⟨⟨slot, height, newest.err⟩, (last signature).trans (by rw [found]; rfl), rfl, rfl⟩
    · intro signature unlisted
      have missing : block.transactions.reverse.find? (fun tx => tx.signature = signature) = none := by
        rw [List.find?_eq_none]
        intro tx member
        have absent := unlisted _ _ rfl
        rw [mem_recentOf] at absent
        simpa using fun same => absent ⟨tx, List.mem_reverse.mp member, same⟩
      exact (last signature).trans (by rw [missing]; rfl)
    · rfl

/-- The removals of several recent blocks drop their heights. -/
theorem get_foldl_removeSignatures (before : StorageProcessed) (entries : List (Nat × RecentBlock))
    (blockhash : String) :
    (entries.foldl (fun state entry => state.removeSignatures entry.2) before).blockHeights.get
        blockhash =
      if ∃ entry ∈ entries, entry.2.blockhash = blockhash then none
      else before.blockHeights.get blockhash := by
  induction entries generalizing before with
  | nil => simp
  | cons entry rest ih =>
      rw [List.foldl_cons, ih]
      simp only [removeSignatures, HashMap.get_remove, List.mem_cons, exists_eq_or_imp,
        @eq_comm _ blockhash]
      by_cases inRest : ∃ entry ∈ rest, entry.2.blockhash = blockhash
      · simp only [inRest, if_true, or_true]
      · by_cases here : entry.2.blockhash = blockhash <;> simp only [inRest, here, if_true, if_false,
          or_false]

open Classical in
/-- A block is recorded before the leaving blocks are dropped. -/
theorem Changes.of_records {middle : StorageProcessed}
    (records : before.Records (before.recorded change) middle)
    (stays : ∀ slot recent, before.recorded change = some (slot, recent) →
      slot ∉ (before.leaving change).map Prod.fst)
    (leaves : ∀ entry ∈ before.leaving change, middle.recentBlocks.get entry.1 = some entry.2)
    (recentBlocks : ∀ slot, after.recentBlocks.get slot =
      if slot ∈ (before.leaving change).map Prod.fst then none else middle.recentBlocks.get slot)
    (statuses : ∀ signature, after.signatureStatuses.get signature =
      if before.Drops change signature then none else middle.signatureStatuses.get signature)
    (heights : ∀ blockhash, after.blockHeights.get blockhash =
      if before.DropsHash change blockhash then none else middle.blockHeights.get blockhash) :
    before.Changes change after := by
  have window : middle.recentBlocks = before.withRecorded change := records.recentBlocks
  rw [window] at leaves recentBlocks
  refine ⟨stays, leaves, recentBlocks, ?_, ?_, ?_, ?_, ?_, ?_⟩
  · intro signature drops
    rw [statuses, if_pos drops]
  · intro signature slot recent undropped isRecorded listed
    rw [statuses, if_neg undropped]
    exact records.added signature slot recent isRecorded listed
  · intro signature undropped unlisted
    rw [statuses, if_neg undropped]
    exact records.kept signature unlisted
  · intro blockhash drops
    rw [heights, if_pos drops]
  · intro slot recent isRecorded undropped
    rw [heights, if_neg undropped, records.blockHeights, isRecorded]
    exact HashMap.get_insert_self _ _ _
  · intro blockhash undropped differs
    rw [heights, if_neg undropped, records.blockHeights]
    cases isRecorded : before.recorded change with
    | none => rfl
    | some entry =>
        simp only [Option.elim, HashMap.get_insert]
        exact if_neg (differs entry.1 entry.2 isRecorded).symm

/-- A new processed block records the block. -/
theorem addProcessedBlock_changes (before : StorageProcessed) (slot : Nat) (block : BlockWithBinary) :
    before.Changes (.addProcessedBlock slot block) (before.addProcessedBlock slot block) := by
  have same : (before.addProcessedBlock slot block).recentBlocks =
        (before.addSignatures slot block).recentBlocks ∧
      (before.addProcessedBlock slot block).signatureStatuses =
        (before.addSignatures slot block).signatureStatuses ∧
      (before.addProcessedBlock slot block).blockHeights =
        (before.addSignatures slot block).blockHeights := by
    unfold addProcessedBlock
    rw [updateProcessed_recentBlocks, updateProcessed_signatureStatuses, updateProcessed_blockHeights]
    split <;> exact ⟨rfl, rfl, rfl⟩
  obtain ⟨recentBlocks, statuses, heights⟩ := same
  have stays (slot' : Nat) :
      slot' ∉ (before.leaving (.addProcessedBlock slot block)).map Prod.fst := List.not_mem_nil
  apply Changes.of_records (addSignatures_records before slot block)
  · exact fun slot _ _ => stays slot
  · exact fun _ member => absurd member List.not_mem_nil
  · intro other
    rw [recentBlocks, if_neg (stays other)]
  · intro signature
    rw [statuses, if_neg]
    rintro ⟨_, ⟨⟩, -⟩
  · intro blockhash
    rw [heights, if_neg]
    rintro ⟨_, ⟨⟩, -⟩

/-- A dead mark drops the recent block of a known slot and nothing else. -/
theorem markDead_maps (before : StorageProcessed) (slot : Nat) :
    (∃ recent, before.recentBlocks.get slot = some recent ∧
      before.leaving (.markDead slot) = [(slot, recent)] ∧
      (before.markDead slot).recentBlocks = before.recentBlocks.erase slot ∧
      (before.markDead slot).signatureStatuses =
        removeStatuses before.signatureStatuses recent.signatures ∧
      (before.markDead slot).blockHeights = before.blockHeights.remove recent.blockhash) ∨
    (before.leaving (.markDead slot) = [] ∧
      (before.markDead slot).recentBlocks = before.recentBlocks ∧
      (before.markDead slot).signatureStatuses = before.signatureStatuses ∧
      (before.markDead slot).blockHeights = before.blockHeights) := by
  have leavingEq : before.leaving (.markDead slot) = if before.blocks.containsKey slot then
      (before.recentBlocks.get slot).toList.map fun recent => (slot, recent) else [] := rfl
  unfold markDead
  rw [updateProcessed_recentBlocks, updateProcessed_signatureStatuses, updateProcessed_blockHeights,
    leavingEq]
  by_cases known : before.blocks.containsKey slot = true
  · rw [if_pos known, if_pos known]
    cases found : before.recentBlocks.get slot with
    | none => exact Or.inr ⟨rfl, rfl, rfl, rfl⟩
    | some recent => exact Or.inl ⟨recent, rfl, rfl, rfl, rfl, rfl⟩
  · rw [if_neg known, if_neg known]
    exact Or.inr ⟨rfl, rfl, rfl, rfl⟩

theorem markDead_changes (before : StorageProcessed) (slot : Nat) :
    before.Changes (.markDead slot) (before.markDead slot) := by
  apply Changes.of_records (Records.none before : before.Records (before.recorded (.markDead slot)) before)
  · rintro _ _ ⟨⟩
  all_goals
    obtain ⟨recent, known, leaving, window, statuses, heights⟩ | ⟨leaving, window, statuses, heights⟩ :=
      markDead_maps before slot
  · rw [leaving]
    rintro _ (_ | ⟨_, ⟨⟩⟩)
    exact known
  · rw [leaving]
    rintro _ ⟨⟩
  · intro other
    rw [leaving, window, SortedMap.get_erase]
    simp
  · intro other
    rw [leaving, window]
    simp
  · intro signature
    rw [statuses, get_removeStatuses]
    simp [Drops, leaving]
  · intro signature
    rw [statuses]
    simp [Drops, leaving]
  · intro blockhash
    rw [heights, HashMap.get_remove]
    simp [DropsHash, leaving, eq_comm]
  · intro blockhash
    rw [heights]
    simp [DropsHash, leaving]

/-- The window before the eviction has the confirmed block. -/
theorem recordConfirmed_records (before : StorageProcessed) (slot : Nat)
    (block : Option BlockWithBinary) :
    before.Records (before.recorded (.setConfirmed slot block)) (before.recordConfirmed slot block) := by
  cases block with
  | none => exact Records.none before
  | some block => exact addSignatures_records before slot block

/-- The evicted blocks of a confirmation are the leaving ones. -/
theorem leaving_setConfirmed (before : StorageProcessed) (slot : Nat)
    (block : Option BlockWithBinary) :
    before.leaving (.setConfirmed slot block) = (before.recordConfirmed slot block).recentBlocks.popped
      (outdated (before.setConfirmed slot block).confirmedHeight) := by
  rw [setConfirmed_confirmedHeight, (recordConfirmed_records before slot block).recentBlocks]
  rfl

/-- A confirmation drops the heights of the evicted blocks. -/
theorem setConfirmed_blockHeights (before : StorageProcessed) (slot : Nat)
    (block : Option BlockWithBinary) (blockhash : String) :
    (before.setConfirmed slot block).blockHeights.get blockhash =
      if ∃ entry ∈ (before.recordConfirmed slot block).recentBlocks.popped
          (outdated (before.setConfirmed slot block).confirmedHeight),
        entry.2.blockhash = blockhash then none
      else (before.recordConfirmed slot block).blockHeights.get blockhash := by
  unfold setConfirmed evictRecent
  rw [get_foldl_removeSignatures]
  simp only [updateProcessed_recentBlocks, updateProcessed_blockHeights,
    updateProcessed_confirmedHeight, (foldl_removeSignatures _ _).2.2.2.1]
  rfl

/-- The confirmed block is not outdated. -/
theorem recorded_stays (before : StorageProcessed) (slot : Nat) (block : Option BlockWithBinary)
    {place : Nat} {recent : RecentBlock}
    (isRecorded : before.recorded (.setConfirmed slot block) = some (place, recent)) :
    place ∉ (before.leaving (.setConfirmed slot block)).map Prod.fst := by
  have here : place = slot := by
    cases block with
    | none => cases isRecorded
    | some block =>
        simp only [recorded, Option.bind_some, recordedBlock] at isRecorded
        split at isRecorded
        · cases isRecorded
        · obtain ⟨_, -, ⟨⟩⟩ := Option.map_eq_some_iff.mp isRecorded
          rfl
  subst here
  intro leaves
  obtain ⟨entry, member, same⟩ := List.mem_map.mp leaves
  have known := withRecorded_self isRecorded
  simp only [leaving, known, Option.map_some, Option.getD_some] at member
  have stored := SortedMap.get_of_mem_popped member
  rw [same, known] at stored
  have old := SortedMap.test_of_mem_popped member
  rw [outdated, ← Option.some.inj stored, Nat.sub_self] at old
  exact absurd old (by decide)

theorem setConfirmed_changes (before : StorageProcessed) (slot : Nat)
    (block : Option BlockWithBinary) :
    before.Changes (.setConfirmed slot block) (before.setConfirmed slot block) := by
  have leaving := leaving_setConfirmed before slot block
  apply Changes.of_records (recordConfirmed_records before slot block)
  · exact fun _ _ isRecorded => recorded_stays before slot block isRecorded
  · intro entry member
    rw [leaving] at member
    exact SortedMap.get_of_mem_popped member
  · intro other
    rw [leaving, setConfirmed_recentBlocks, SortedMap.get_popWhile_popped]
  · intro signature
    rw [get_setConfirmed, Drops, leaving]
    split <;> simp_all
  · intro blockhash
    rw [setConfirmed_blockHeights, DropsHash, leaving]
    split <;> simp_all

/-- Every update records at most one block and drops the leaving ones. -/
theorem update_changes (before : StorageProcessed) (change : ProcessedUpdate) :
    before.Changes change (before.update change) := by
  cases change with
  | addProcessedBlock slot block => exact addProcessedBlock_changes before slot block
  | markDead slot => exact markDead_changes before slot
  | setConfirmed slot block => exact setConfirmed_changes before slot block
  | setFinalized slot =>
      obtain ⟨_, _, equal⟩ := setFinalized_eq before slot
      rw [update, equal]
      apply Changes.of_records
        (Records.none before : before.Records (before.recorded (.setFinalized slot)) before)
      · rintro _ _ ⟨⟩
      · rintro _ ⟨⟩
      · exact fun _ => (if_neg List.not_mem_nil).symm
      · intro signature
        rw [if_neg]
        rintro ⟨_, ⟨⟩, -⟩
      · intro blockhash
        rw [if_neg]
        rintro ⟨_, ⟨⟩, -⟩

/-- The empty maps are the index of the empty window. -/
theorem default_indexed : default.Indexed :=
  ⟨fun _ => ⟨fun present => (by cases present), fun ⟨_, _, known, _⟩ => (by cases known)⟩,
    fun _ _ found => (by cases found),
    fun _ _ => ⟨fun found => (by cases found), fun ⟨_, _, known, _⟩ => (by cases known)⟩⟩

/-- The maps are the index of the recent blocks after every update of a run exactly if each update of
the run keeps them an index. -/
theorem run_indexed_iff (updates : List ProcessedUpdate) :
    (∀ before, before <+: updates → (run before).Indexed) ↔
      ∀ before change, before ++ [change] <+: updates → (run before).KeepsIndex change := by
  constructor
  · intro indexed before change part
    have start := indexed before ((List.prefix_append before [change]).trans part)
    rw [← (update_changes (run before) change).indexed_iff start, ← run_append]
    exact indexed _ part
  · intro keeps before
    induction before using List.reverseRecOn with
    | nil => exact fun _ => default_indexed
    | append_singleton before change ih =>
        intro part
        have start := ih ((List.prefix_append before [change]).trans part)
        rw [run_append, (update_changes (run before) change).indexed_iff start]
        exact keeps before change part

/-- Two forks have the transaction, and one of them dies. -/
def deadFork : List ProcessedUpdate :=
  [.addProcessedBlock 1 (.plain "a" 1 [⟨7⟩]), .addProcessedBlock 2 (.plain "b" 1 [⟨7⟩]), .markDead 2]

/-- The signature of the dead fork loses its status although the other recent block lists it. -/
theorem run_indexed_false : ¬ (run deadFork).Indexed := by
  intro indexed
  have present := (indexed.listed ⟨7⟩).mpr ⟨1, ⟨"a", 1, [⟨7⟩]⟩, by decide +kernel, by decide⟩
  exact absurd present (by decide +kernel)

end Alpamayo.StorageProcessed
