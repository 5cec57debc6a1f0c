import Alpamayo.Proof.ProcessedState

/-!
This file compares the reported commitment of a signature with the heights of the reader.
-/

namespace Alpamayo.StorageProcessed

variable {updates : List ProcessedUpdate} {signature : Signature} {status : RecentSignatureStatus}

/-- The signature occurs in a block that was confirmed. -/
def SeenConfirmed (updates : List ProcessedUpdate) (signature : Signature) : Prop :=
  ∃ slot block, .setConfirmed slot (some block) ∈ updates ∧ block.Lists signature

/-- The signature occurs in a processed block and in no confirmed block. -/
def OnlyProcessed (updates : List ProcessedUpdate) (signature : Signature) : Prop :=
  (∃ slot block, .addProcessedBlock slot block ∈ updates ∧ block.Lists signature) ∧
    ¬ SeenConfirmed updates signature

/-- Every recorded signature occurs in a processed or a confirmed block of the run. -/
theorem run_seen (found : (run updates).signatureStatuses.get signature = some status) :
    (∃ slot block, .addProcessedBlock slot block ∈ updates ∧ block.Lists signature) ∨
      SeenConfirmed updates signature := by
  induction updates using List.reverseRecOn generalizing status with
  | nil => cases found
  | append_singleton updates last ih =>
      rw [run_append] at found
      -- An old status keeps its block, and the last update can only add its own block.
      have old (before : (run updates).signatureStatuses.get signature = some status) :
          (∃ slot block, .addProcessedBlock slot block ∈ updates ++ [last] ∧
            block.Lists signature) ∨ SeenConfirmed (updates ++ [last]) signature := by
        rcases ih before with ⟨slot, block, member, listed⟩ | ⟨slot, block, member, listed⟩
        · exact Or.inl ⟨slot, block, List.mem_append_left _ member, listed⟩
        · exact Or.inr ⟨slot, block, List.mem_append_left _ member, listed⟩
      cases last with
      | addProcessedBlock slot block =>
          rcases get_addProcessedBlock found with before | ⟨-, listed, -⟩
          · exact old before
          · exact Or.inl ⟨slot, block, by simp, listed⟩
      | markDead slot => exact old (get_markDead found)
      | setConfirmed slot confirmed =>
          rcases get_setConfirmed_cases found with before | ⟨block, rfl, -, listed, -⟩
          · exact old before
          · exact Or.inr ⟨slot, block, by simp, listed⟩
      | setFinalized slot =>
          obtain ⟨_, _, equal⟩ := setFinalized_eq (run updates) slot
          simp only [update, equal] at found
          exact old found

/-- The answer gives the commitment that the heights and the run justify. -/
def CommitmentCorrect (updates : List ProcessedUpdate) (signature : Signature)
    (blockHeight : Nat) : Prop :=
  let state := run updates
  ∃ answer, state.getSignatureStatus signature = some answer ∧
    (answer.confirmationStatus = some .finalized ∧ answer.confirmations = none ↔
      blockHeight ≤ state.finalizedHeight) ∧
    (answer.confirmationStatus = some .confirmed ∧
        answer.confirmations = some (state.confirmedHeight - blockHeight + 1) ↔
      state.finalizedHeight < blockHeight ∧ blockHeight ≤ state.confirmedHeight) ∧
    (state.confirmedHeight < blockHeight ∧ state.finalizedHeight < blockHeight →
      answer.confirmationStatus = some .processed) ∧
    (OnlyProcessed updates signature →
      answer.confirmationStatus ≠ some .confirmed ∧ answer.confirmationStatus ≠ some .finalized)

/-- The code reports one of the two upper commitments for every signature. -/
theorem confirmationStatusOf_cases (self : StorageProcessed) (blockHeight : Nat) :
    confirmationStatusOf (self.confirmationsOf blockHeight) =
      if self.finalizedHeight < blockHeight ∧ blockHeight ≤ self.confirmedHeight then .confirmed
      else .finalized := by
  unfold confirmationsOf
  split
  · split
    · rw [if_pos ⟨‹_›, ‹_›⟩]
      rfl
    · rw [if_neg (by omega)]
      rfl
  · rw [if_neg (by omega)]
    rfl

/-- The reported commitment is correct exactly when a confirmed block lists the signature and its
height is not above both heights of the reader. -/
theorem commitmentCorrect_iff (updates : List ProcessedUpdate) (signature : Signature)
    (status : RecentSignatureStatus)
    (found : (run updates).signatureStatuses.get signature = some status) :
    CommitmentCorrect updates signature status.blockHeight ↔
      (status.blockHeight ≤ (run updates).confirmedHeight ∨
        status.blockHeight ≤ (run updates).finalizedHeight) ∧
      SeenConfirmed updates signature := by
  have reported := confirmationStatusOf_cases (run updates) status.blockHeight
  simp only [CommitmentCorrect, getSignatureStatus, found, Option.map_some, Option.some.injEq,
    exists_eq_left', reported]
  constructor
  · rintro ⟨-, -, above, only⟩
    constructor
    · by_contra high
      have processed := above (by omega)
      split at processed <;> cases processed
    · by_contra unconfirmed
      obtain ⟨notConfirmed, notFinalized⟩ := only ⟨(run_seen found).resolve_right unconfirmed,
        unconfirmed⟩
      split at notConfirmed <;> simp_all
  · rintro ⟨low, confirmed⟩
    refine ⟨?_, ?_, fun high => by omega, fun only => absurd confirmed only.2⟩
    · unfold confirmationsOf
      by_cases above : (run updates).finalizedHeight < status.blockHeight
      · have confirmed : status.blockHeight ≤ (run updates).confirmedHeight := by omega
        simp [above, confirmed]
      · simp [above, Nat.le_of_not_lt above]
    · unfold confirmationsOf
      split
      · simp_all
      · simp_all

/-- A block that was first processed and then confirmed is reported as confirmed. -/
theorem commitmentCorrect_iff_confirmed :
    CommitmentCorrect [.addProcessedBlock 5 (.plain "a" 4 [⟨7⟩]),
      .setConfirmed 5 (some (.plain "a" 4 [⟨7⟩]))] ⟨7⟩ 4 :=
  (commitmentCorrect_iff [.addProcessedBlock 5 (.plain "a" 4 [⟨7⟩]),
      .setConfirmed 5 (some (.plain "a" 4 [⟨7⟩]))] ⟨7⟩ ⟨5, 4, none⟩ rfl).mpr
    ⟨by decide, 5, .plain "a" 4 [⟨7⟩], by decide, by decide⟩

/-- A block that was only processed is reported as finalized. -/
theorem commitmentCorrect_false : ¬ ∀ (updates : List ProcessedUpdate) (signature : Signature)
    (status : RecentSignatureStatus),
    (run updates).signatureStatuses.get signature = some status →
      CommitmentCorrect updates signature status.blockHeight := by
  intro always
  obtain ⟨answer, given, -, -, above, -⟩ :=
    always [.addProcessedBlock 5 (.plain "a" 4 [⟨7⟩])] ⟨7⟩ ⟨5, 4, none⟩ rfl
  cases given
  exact absurd (above (by decide)) (by decide)

end Alpamayo.StorageProcessed
