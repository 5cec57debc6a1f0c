import Alpamayo.Proof.Fees
import Alpamayo.Proof.RecentIndex
import Alpamayo.Rpc.RecentPrioritizationFees

/-!
This file proves that the listed fees are those of the blocks that made the recent entries.
-/

namespace Alpamayo

/-- The update without its fees. -/
def ProcessedFeesUpdate.change : ProcessedFeesUpdate → ProcessedUpdate
  | addProcessedBlock slot block => .addProcessedBlock slot block.block
  | markDead slot => .markDead slot
  | setConfirmed slot block => .setConfirmed slot (block.map BlockWithFees.block)
  | setFinalized slot => .setFinalized slot

/-- The update brings the block for the slot. -/
inductive ProcessedFeesUpdate.Brings (slot : Nat) (block : BlockWithFees) :
    ProcessedFeesUpdate → Prop where
  | added : Brings slot block (.addProcessedBlock slot block)
  | confirmed : Brings slot block (.setConfirmed slot (some block))

namespace StorageProcessedFees

/-- The updates are applied to the default state. -/
def run (updates : List ProcessedFeesUpdate) : StorageProcessedFees :=
  updates.foldl update default

theorem run_append (updates : List ProcessedFeesUpdate) (last : ProcessedFeesUpdate) :
    run (updates ++ [last]) = (run updates).update last := by
  simp [run]

/-- The fees change nothing in the rest of the state. -/
theorem update_processed (self : StorageProcessedFees) (change : ProcessedFeesUpdate) :
    (self.update change).processed = self.processed.update change.change := by
  cases change <;> rfl

/-- Each recent block and its fees come from one block that an update has brought for the slot. -/
def Sourced (updates : List ProcessedFeesUpdate) (self : StorageProcessedFees) : Prop :=
  ∀ slot recent, self.processed.recentBlocks.get slot = some recent →
    ∃ change ∈ updates, ∃ block height, change.Brings slot block ∧
      block.block.blockHeight = some height ∧
        recent = StorageProcessed.recentOf block.block height ∧
          self.fees.get slot = some block.fees

/-- The recorded block has its fees recorded for the same slot, and no other fees change. -/
theorem addFees_get (self : StorageProcessedFees) (slot : Nat) (block : BlockWithFees)
    (other : Nat) : (self.addFees slot block).get other =
      if (self.processed.recordedBlock slot block.block).isSome ∧ other = slot then some block.fees
      else self.fees.get other := by
  unfold addFees StorageProcessed.recordedBlock
  by_cases known : self.processed.blocks.containsKey slot = true
  · simp [known]
  · rw [if_neg known, if_neg known]
    cases block.block.blockHeight with
    | none => simp
    | some height =>
        rw [HashMap.get_insert]
        simp

theorem recordedBlock_eq_some {processed : StorageProcessed} {slot other : Nat}
    {block : BlockWithBinary} {recent : RecentBlock}
    (recorded : processed.recordedBlock slot block = some (other, recent)) :
    other = slot ∧ ∃ height, block.blockHeight = some height ∧
      recent = StorageProcessed.recentOf block height := by
  unfold StorageProcessed.recordedBlock at recorded
  split at recorded
  · cases recorded
  · obtain ⟨height, isHeight, same⟩ := Option.map_eq_some_iff.mp recorded
    cases same
    exact ⟨rfl, height, isHeight, rfl⟩

/-- An update that brings a block keeps the sources. -/
theorem Sourced.brings {updates : List ProcessedFeesUpdate} {self : StorageProcessedFees}
    (sourced : self.Sourced updates) {change : ProcessedFeesUpdate} {slot : Nat}
    {block : BlockWithFees} (brings : change.Brings slot block)
    (recorded : self.processed.recorded change.change =
      self.processed.recordedBlock slot block.block)
    (fees : (self.update change).fees = self.addFees slot block) :
    (self.update change).Sourced (updates ++ [change]) := by
  intro other recent known
  rw [update_processed] at known
  obtain ⟨inWindow, -⟩ := (StorageProcessed.update_changes _ _).stays_of_get known
  rw [fees, addFees_get]
  rcases StorageProcessed.withRecorded_cases inWindow with isRecorded | ⟨old, notRecorded⟩
  · rw [recorded] at isRecorded
    obtain ⟨same, height, isHeight, isRecent⟩ := recordedBlock_eq_some isRecorded
    subst same
    refine ⟨change, by simp, block, height, brings, isHeight, isRecent, ?_⟩
    rw [isRecorded, if_pos ⟨rfl, rfl⟩]
  · obtain ⟨earlier, member, source, height, known_brings, isHeight, isRecent, isFees⟩ :=
      sourced other recent old
    refine ⟨earlier, List.mem_append_left _ member, source, height, known_brings, isHeight, isRecent, ?_⟩
    rw [if_neg, isFees]
    rintro ⟨isSome, same⟩
    obtain ⟨⟨place, made⟩, isMade⟩ := Option.isSome_iff_exists.mp isSome
    obtain ⟨samePlace, -⟩ := recordedBlock_eq_some isMade
    apply notRecorded made
    rw [recorded, isMade, samePlace, same]

/-- An update without a block keeps the sources. -/
theorem Sourced.keeps {updates : List ProcessedFeesUpdate} {self : StorageProcessedFees}
    (sourced : self.Sourced updates) {change : ProcessedFeesUpdate}
    (recorded : self.processed.recorded change.change = none)
    (fees : (self.update change).fees = self.fees) :
    (self.update change).Sourced (updates ++ [change]) := by
  intro other recent known
  rw [update_processed] at known
  obtain ⟨inWindow, -⟩ := (StorageProcessed.update_changes _ _).stays_of_get known
  have old : self.processed.recentBlocks.get other = some recent := by
    rcases StorageProcessed.withRecorded_cases inWindow with isRecorded | ⟨old, -⟩
    · rw [recorded] at isRecorded
      cases isRecorded
    · exact old
  obtain ⟨earlier, member, rest⟩ := sourced other recent old
  rw [fees]
  exact ⟨earlier, List.mem_append_left _ member, rest⟩

/-- The recent blocks of every run have their sources. -/
theorem run_sourced (updates : List ProcessedFeesUpdate) : (run updates).Sourced updates := by
  induction updates using List.reverseRecOn with
  | nil =>
      intro slot recent known
      cases known
  | append_singleton updates change ih =>
      rw [run_append]
      cases change with
      | addProcessedBlock slot block => exact ih.brings .added rfl rfl
      | markDead slot => exact ih.keeps rfl rfl
      | setConfirmed slot block =>
          cases block with
          | none => exact ih.keeps rfl rfl
          | some block => exact ih.brings .confirmed rfl rfl
      | setFinalized slot => exact ih.keeps rfl rfl

/-- The listed slots are the newest recent ones, in ascending order. -/
theorem getFees_slots (self : StorageProcessedFees) (pubkeys : List Pubkey)
    (percentile : Option Nat) : (self.getFees pubkeys percentile).map Prod.fst =
      (self.processed.recentBlocks.entries.map Prod.fst).drop
        (self.processed.recentBlocks.size - rpfMaxNumRecentBlocks) := by
  unfold getFees
  rw [List.map_reverse, List.map_map, List.take_reverse, List.map_reverse, List.reverse_reverse,
    ← List.map_drop]
  rfl

end StorageProcessedFees

/-- The answer to a request about keys and a percentile after some updates: the newest slots of the
recent blocks, each with the fee of the block that made its entry. -/
structure ListsFees (updates : List ProcessedFeesUpdate) (pubkeys : List Pubkey)
    (percentile : Option Nat) (fees : List (Nat × Nat)) : Prop where
  ascends : (fees.map Prod.fst).Pairwise (· < ·)
  newest : fees.map Prod.fst =
    ((StorageProcessedFees.run updates).processed.recentBlocks.entries.map Prod.fst).drop
      ((StorageProcessedFees.run updates).processed.recentBlocks.size - rpfMaxNumRecentBlocks)
  fee : ∀ entry ∈ fees, ∃ change ∈ updates, ∃ block height, change.Brings entry.1 block ∧
    block.block.blockHeight = some height ∧
      (StorageProcessedFees.run updates).processed.recentBlocks.get entry.1 =
        some (StorageProcessed.recentOf block.block height) ∧
      TransactionsFees.IsFee (block.transactions.filterMap id) pubkeys percentile entry.2

theorem StorageProcessedFees.getFees_lists (updates : List ProcessedFeesUpdate)
    (pubkeys : List Pubkey) (percentile : Option Nat) :
    ListsFees updates pubkeys percentile ((run updates).getFees pubkeys percentile) := by
  have newest := (run updates).getFees_slots pubkeys percentile
  refine ⟨?_, newest, ?_⟩
  · rw [newest]
    apply List.Pairwise.drop
    rw [List.pairwise_map]
    exact (run updates).processed.recentBlocks.sorted
  · intro entry member
    rw [getFees, List.mem_reverse, List.mem_map] at member
    obtain ⟨recent, inWindow, same⟩ := member
    have listed : recent ∈ (run updates).processed.recentBlocks.entries :=
      List.mem_reverse.mp (List.mem_of_mem_take inWindow)
    have known := SortedMap.get_eq_some_iff.mpr listed
    obtain ⟨change, isUpdate, block, height, brings, isHeight, isRecent, isFees⟩ :=
      run_sourced updates recent.1 recent.2 known
    rw [← same]
    refine ⟨change, isUpdate, block, height, brings, isHeight, ?_, ?_⟩
    · rw [← isRecent]
      exact known
    · show TransactionsFees.IsFee _ _ _ ((run updates).feeOf pubkeys percentile recent.1)
      rw [feeOf, isFees]
      exact TransactionsFees.isFee_getFee block.transactions pubkeys percentile

namespace RpcRequestRecentPrioritizationFees

variable {verifyPubkey : String → Except String Pubkey} {grpfPercentile : Bool}

/-- The keys are read one by one in their order. -/
theorem readPubkeys_eq_ok {texts : List String} {pubkeys : List Pubkey} :
    readPubkeys verifyPubkey texts = .ok pubkeys ↔ texts.map verifyPubkey = pubkeys.map .ok := by
  induction texts generalizing pubkeys with
  | nil => cases pubkeys <;> simp [readPubkeys]
  | cons text rest ih =>
      rw [readPubkeys, List.map_cons]
      cases read : verifyPubkey text with
      | error error => cases pubkeys <;> simp
      | ok pubkey =>
          cases pubkeys with
          | nil =>
              cases found : readPubkeys verifyPubkey rest <;> simp [Except.map]
          | cons first others =>
              rw [List.map_cons, List.cons.injEq, ← ih]
              cases found : readPubkeys verifyPubkey rest <;> simp [Except.map]

/-- A percentile is used only if it is allowed, and then it is at most 10000. -/
theorem readPercentile_eq_ok {percentile used : Option Nat} :
    readPercentile grpfPercentile percentile = .ok used ↔
      if grpfPercentile then used = percentile ∧ ∀ value ∈ percentile, value ≤ 10000
      else used = none := by
  unfold readPercentile
  cases grpfPercentile with
  | false => exact Except.ok.injEq none used ▸ eq_comm
  | true =>
      cases percentile with
      | none => simp [eq_comm]
      | some value =>
          by_cases big : 10000 < value
          · simp [big]
          · simp [big, Nat.le_of_not_lt big, eq_comm]

/-- After any updates, a call that is answered lists the fees of the newest recent blocks for the keys
and the percentile of its parameters; it is answered unless it is late, has more than 128 keys, has a key
that cannot be read, or has a percentile above 10000 where percentiles are allowed. -/
theorem handle_listsFees (updates : List ProcessedFeesUpdate) (pubkeyStrs : Option (List String))
    (percentile : Option Nat) (expired : Bool) :
    ((∃ fees, handle verifyPubkey grpfPercentile pubkeyStrs percentile
        (StorageProcessedFees.run updates) expired = .fees fees) ↔
      expired = false ∧ (pubkeyStrs.getD []).length ≤ maxTxAccountLocks ∧
        (∃ pubkeys : List Pubkey, (pubkeyStrs.getD []).map verifyPubkey = pubkeys.map .ok) ∧
          (grpfPercentile = true → ∀ value ∈ percentile, value ≤ 10000)) ∧
      ∀ fees, handle verifyPubkey grpfPercentile pubkeyStrs percentile
          (StorageProcessedFees.run updates) expired = .fees fees →
        ∃ pubkeys, (pubkeyStrs.getD []).map verifyPubkey = pubkeys.map .ok ∧
          ListsFees updates pubkeys (if grpfPercentile then percentile else none) fees := by
  unfold handle parse
  by_cases many : maxTxAccountLocks < (pubkeyStrs.getD []).length
  · rw [if_pos many]
    refine ⟨⟨fun ⟨_, answered⟩ => (by cases answered), ?_⟩, fun _ answered => (by cases answered)⟩
    intro allowed
    exact absurd allowed.2.1 (Nat.not_le.mpr many)
  rw [if_neg many]
  cases read : readPubkeys verifyPubkey (pubkeyStrs.getD []) with
  | error error =>
      refine ⟨⟨fun ⟨_, answered⟩ => (by cases answered), ?_⟩, fun _ answered => (by cases answered)⟩
      rintro ⟨-, -, ⟨pubkeys, known⟩, -⟩
      rw [readPubkeys_eq_ok.mpr known] at read
      cases read
  | ok pubkeys =>
      have known := readPubkeys_eq_ok.mp read
      cases checked : readPercentile grpfPercentile percentile with
      | error error =>
          refine ⟨⟨fun ⟨_, answered⟩ => (by cases answered), ?_⟩,
            fun _ answered => (by cases answered)⟩
          rintro ⟨-, -, -, small⟩
          rw [readPercentile_eq_ok.mpr ?_] at checked
          · cases checked
          · exact if grpfPercentile then percentile else none
          · cases grpfPercentile with
            | false => rfl
            | true => exact ⟨rfl, small rfl⟩
      | ok used =>
          have isUsed := readPercentile_eq_ok.mp checked
          unfold StorageProcessedFees.processRecentPrioritizationFees
          cases expired with
          | true =>
              refine ⟨⟨fun ⟨_, answered⟩ => (by cases answered), ?_⟩,
                fun _ answered => (by cases answered)⟩
              rintro ⟨late, -⟩
              cases late
          | false =>
              have percentiles : used = (if grpfPercentile then percentile else none) ∧
                  (grpfPercentile = true → ∀ value ∈ percentile, value ≤ 10000) := by
                cases grpfPercentile with
                | false => exact ⟨isUsed, fun impossible => by cases impossible⟩
                | true => exact ⟨isUsed.1, fun _ => isUsed.2⟩
              constructor
              · constructor
                · intro _
                  exact ⟨rfl, Nat.not_lt.mp many, ⟨pubkeys, known⟩, percentiles.2⟩
                · intro _
                  exact ⟨_, rfl⟩
              · rintro fees ⟨⟩
                rw [← percentiles.1]
                exact ⟨pubkeys, known, StorageProcessedFees.getFees_lists updates pubkeys used⟩

end RpcRequestRecentPrioritizationFees

end Alpamayo
