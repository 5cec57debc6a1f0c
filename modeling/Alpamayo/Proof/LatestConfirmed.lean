import Alpamayo.Proof.BlocksListing
import Alpamayo.Proof.SlotLookup
import Alpamayo.Proof.StandingBlocks
import Alpamayo.Storage.ReadLatest

/-!
This file shows when the block height and the latest blockhash at the confirmed commitment are those of
the highest confirmed block that is not dead.
-/

namespace Alpamayo

variable {contents : List StoredBlock} {slot blockHeight : Nat}

/-- The ring reaches the slot, and the highest live cell up to the slot has the height. -/
def StoredBlocksRead.LeadsTo (copy : StoredBlocksRead) (slot blockHeight : Nat) : Prop :=
  (∃ index, (copy.blocks.cells index).present = true ∧ slot ≤ (copy.blocks.cells index).slot) ∧
    ∃ index, (copy.blocks.cells index).isLive = true ∧ (copy.blocks.cells index).slot ≤ slot ∧
      (copy.blocks.cells index).blockHeight = some blockHeight ∧
      ∀ other, (copy.blocks.cells other).isLive = true → (copy.blocks.cells other).slot ≤ slot →
        (copy.blocks.cells other).slot ≤ (copy.blocks.cells index).slot

/-- The loop depends only on the lookup of slots. -/
theorem StoredBlocksRead.findBlockHeight_congr {copy other : StoredBlocksRead}
    (same : copy.getBlockLocation = other.getBlockLocation) :
    copy.findBlockHeight = other.findBlockHeight := by
  funext fuel
  induction fuel with
  | zero => rfl
  | succ fuel ih =>
      funext slot
      simp only [findBlockHeight, same, ih]

namespace StoredBlocksWrite.Spans

variable {blocks : StoredBlocksWrite}

/-- The highest live block up to the slot has the height. -/
def Leads (contents : List StoredBlock) (slot blockHeight : Nat) : Prop :=
  (∃ block ∈ contents, slot ≤ block.slot) ∧
    ∃ block ∈ contents, block.dead = false ∧ block.slot ≤ slot ∧
      block.blockHeight = some blockHeight ∧
      ∀ other ∈ contents, other.dead = false → other.slot ≤ slot → other.slot ≤ block.slot

/-- The cells of the ring are its contents. -/
theorem leadsTo_iff (spans : blocks.Spans contents) :
    blocks.toRead.LeadsTo slot blockHeight ↔ Leads contents slot blockHeight := by
  have live (block : StoredBlock) : (block.isLive = true ∧ ∃ index, blocks.blocks.cells index = block) ↔
      block ∈ contents ∧ block.dead = false := by
    rw [StoredBlock.isLive, Bool.and_eq_true, Bool.not_eq_true']
    constructor
    · rintro ⟨⟨present, alive⟩, found⟩
      exact ⟨(spans.mem_iff present).mpr found, alive⟩
    · rintro ⟨member, alive⟩
      have present := spans.consecutive.present block member
      exact ⟨⟨present, alive⟩, (spans.mem_iff present).mp member⟩
  apply and_congr
  · constructor
    · rintro ⟨index, present, above⟩
      exact ⟨_, (spans.mem_iff present).mpr ⟨index, rfl⟩, above⟩
    · rintro ⟨block, member, above⟩
      have present := spans.consecutive.present block member
      obtain ⟨index, rfl⟩ := (spans.mem_iff present).mp member
      exact ⟨index, present, above⟩
  · constructor
    · rintro ⟨index, alive, below, height, highest⟩
      obtain ⟨member, notDead⟩ := (live _).mp ⟨alive, index, rfl⟩
      refine ⟨_, member, notDead, below, height, ?_⟩
      intro other otherMember otherAlive otherBelow
      obtain ⟨isLive, place, rfl⟩ := (live other).mpr ⟨otherMember, otherAlive⟩
      exact highest place isLive otherBelow
    · rintro ⟨block, member, notDead, below, height, highest⟩
      obtain ⟨alive, index, rfl⟩ := (live block).mpr ⟨member, notDead⟩
      refine ⟨index, alive, below, height, ?_⟩
      intro other otherAlive otherBelow
      obtain ⟨otherMember, otherNotDead⟩ := (live _).mp ⟨otherAlive, other, rfl⟩
      exact highest _ otherMember otherNotDead otherBelow

/-- A result of the loop is the height of the highest live block up to the slot. -/
theorem leads_of_findBlockHeight (spans : blocks.Spans contents) {fuel : Nat}
    (found : blocks.toRead.findBlockHeight fuel slot = some (.ok blockHeight)) :
    Leads contents slot blockHeight := by
  induction fuel generalizing slot with
  | zero => cases found
  | succ fuel ih =>
      rw [StoredBlocksRead.findBlockHeight] at found
      obtain ⟨-, same⟩ | ⟨-, same⟩ | ⟨block, member, isSlot, same⟩ := spans.location_cases slot
      · rw [same] at found
        cases found
      · rw [same] at found
        cases found
      · rw [same] at found
        cases dead : block.dead with
        | true =>
            simp only [dead, if_true] at found
            split at found
            · cases found
            · obtain ⟨-, low, lowMember, alive, below, height, highest⟩ := ih found
              refine ⟨⟨block, member, isSlot.ge⟩, low, lowMember, alive, by omega, height, ?_⟩
              intro other otherMember otherAlive otherBelow
              apply highest other otherMember otherAlive
              have different : other.slot ≠ block.slot := by
                intro equal
                rw [Successive.eq_of_key_eq spans.consecutive.slots otherMember member equal, dead]
                  at otherAlive
                cases otherAlive
              omega
        | false =>
            simp only [dead, Bool.false_eq_true, if_false] at found
            split at found
            · rename_i height known
              cases found
              exact ⟨⟨block, member, isSlot.ge⟩, block, member, dead, isSlot.le, known,
                fun other _ _ below => below.trans isSlot.ge⟩
            · exact ih found

/-- The loop finds the height of the highest live block up to the slot. -/
theorem findBlockHeight_of_leads (spans : blocks.Spans contents) {fuel : Nat} (enough : slot < fuel)
    (leads : Leads contents slot blockHeight) :
    blocks.toRead.findBlockHeight fuel slot = some (.ok blockHeight) := by
  induction fuel generalizing slot with
  | zero => omega
  | succ fuel ih =>
      obtain ⟨⟨top, topMember, above⟩, low, lowMember, alive, below, height, highest⟩ := leads
      rw [StoredBlocksRead.findBlockHeight]
      obtain ⟨lower, -⟩ | ⟨⟨-, higher⟩, -⟩ | ⟨block, member, isSlot, same⟩ := spans.location_cases slot
      · have := lower low lowMember
        omega
      · have := higher top topMember
        omega
      · rw [same]
        cases dead : block.dead with
        | true =>
            have different : low.slot ≠ block.slot := by
              intro equal
              rw [Successive.eq_of_key_eq spans.consecutive.slots lowMember member equal, dead] at alive
              cases alive
            simp only [if_true]
            rw [if_neg (by omega)]
            apply ih (by omega)
            refine ⟨⟨block, member, by omega⟩, low, lowMember, alive, by omega, height, ?_⟩
            exact fun other otherMember otherAlive otherBelow =>
              highest other otherMember otherAlive (by omega)
        | false =>
            have reached := highest block member dead isSlot.le
            have equal : low = block :=
              Successive.eq_of_key_eq spans.consecutive.slots lowMember member (by omega)
            simp only [Bool.false_eq_true, if_false, ← equal, height]

end StoredBlocksWrite.Spans

namespace StorageProcessed

variable {updates : List ProcessedUpdate} {last : ProcessedUpdate} {slot : Nat}
  {block : BlockWithBinary} {confirmed other : Option BlockWithBinary}

/-- The slot was confirmed with or without a block, and not once more. -/
def ConfirmedAs (slot : Nat) (confirmed : Option BlockWithBinary) : List ProcessedUpdate → Prop :=
  Since (fun _ message => message = .setConfirmed slot confirmed)
    fun later => ∀ other, later ≠ .setConfirmed slot other

theorem confirmedAs_concat : ConfirmedAs slot confirmed (updates ++ [last]) ↔
    last = .setConfirmed slot confirmed ∨
      (ConfirmedAs slot confirmed updates ∧ ∀ other, last ≠ .setConfirmed slot other) := since_concat

/-- A slot is confirmed in one way. -/
theorem ConfirmedAs.unique (first : ConfirmedAs slot confirmed updates)
    (second : ConfirmedAs slot other updates) : confirmed = other := by
  induction updates using List.reverseRecOn with
  | nil => exact absurd first not_since_nil
  | append_singleton updates last ih =>
      rcases confirmedAs_concat.mp first with rfl | ⟨before, apart⟩
      · rcases confirmedAs_concat.mp second with same | ⟨-, apart⟩
        · cases same
          rfl
        · exact absurd rfl (apart confirmed)
      · rcases confirmedAs_concat.mp second with rfl | ⟨before', -⟩
        · exact absurd rfl (apart other)
        · exact ih before before'

/-- Two blocks leave the same recent record. -/
def SameRecord (first block : BlockWithBinary) : Prop :=
  first.blockHeight = block.blockHeight ∧
    ∀ blockHeight, recentOf first blockHeight = recentOf block blockHeight

/-- The block was confirmed for its slot while no other word about the slot was pending than a standing
block with the same record, and since then the slot was neither marked dead nor given another block. -/
def Recorded (slot : Nat) (block : BlockWithBinary) : List ProcessedUpdate → Prop :=
  Since (fun before message => message = .setConfirmed slot (some block) ∧
      (¬ Pending slot before ∨ ∃ first blockHeight, SameRecord first block ∧
        first.blockHeight = some blockHeight ∧ Standing slot first before ∧
          InWindow before blockHeight))
    fun later => later ≠ .markDead slot ∧ (∀ other, later ≠ .setConfirmed slot other) ∧
      ∀ other, later = .addProcessedBlock slot other → SameRecord other block

/-- While its slot is the last confirmed one, a recorded block has its recent block. -/
theorem recent_of_recorded {blockHeight : Nat} (recorded : Recorded slot block updates)
    (height : block.blockHeight = some blockHeight) (isLast : lastConfirmed updates = slot) :
    (run updates).recentBlocks.get slot = some (recentOf block blockHeight) := by
  induction updates using List.reverseRecOn with
  | nil => exact absurd recorded not_since_nil
  | append_singleton updates last ih =>
      rw [lastConfirmed_concat] at isLast
      rw [run_append]
      rcases since_concat.mp recorded with ⟨rfl, start⟩ | ⟨before, alive, once, same⟩
      · -- The confirmation records the block or keeps the record of the standing one.
        have found : ((run updates).recordConfirmed slot (some block)).recentBlocks.get slot =
            some (recentOf block blockHeight) := by
          rw [recordConfirmed, recent_addSignatures, height]
          rcases start with fresh | ⟨first, firstHeight, ⟨sameHeight, same⟩, known, standing, window⟩
          · rw [if_pos ⟨rfl, containsKey_run_eq_false fresh⟩]
            rfl
          · rw [sameHeight, height] at known
            cases known
            rw [recent_of_standing standing (sameHeight.trans height) window, same]
            split <;> rfl
        rw [update, setConfirmed_recentBlocks]
        apply SortedMap.get_popWhile_of_not_popped found
        intro removed
        have outside := SortedMap.test_of_mem_popped removed
        rw [setConfirmed_confirmedHeight, found] at outside
        simp [outdated, recentOf, maxRecentBlockhashes] at outside
      · cases last with
        | addProcessedBlock place other =>
            have found := ih before isLast
            rw [update, recent_addProcessedBlock]
            split
            · rename_i fresh
              obtain ⟨rfl, -⟩ := fresh
              obtain ⟨sameHeight, same⟩ := same other rfl
              rw [sameHeight, height]
              exact congrArg some (same blockHeight)
            · exact found
        | markDead place =>
            have found := ih before isLast
            rw [update, recent_markDead, if_neg, found]
            rintro ⟨rfl, -⟩
            exact alive rfl
        | setConfirmed place confirmed =>
            change place = slot at isLast
            subst isLast
            exact absurd rfl (once confirmed)
        | setFinalized place =>
            obtain ⟨_, _, equal⟩ := setFinalized_eq (run updates) place
            rw [update, equal]
            exact ih before isLast

end StorageProcessed

namespace Reader

open StorageProcessed (run lastConfirmed ConfirmedAs Recorded Brings confirmedAs_concat recentOf)

variable {reader after : Reader} {block : BlockWithBinary} {updates : List ProcessedUpdate}
  {message : ReadWriteSyncMessage} {slot : Nat}

/-- The writer stores the block that it has confirmed, and a backfilled block has the height of the one
that was confirmed for its slot. -/
def StoresConfirmed (self : Reader) (updates : List ProcessedUpdate) : ReadWriteSyncMessage → Prop
  | .confirmedBlockPushFront cell => ∀ confirmed,
      self.confirmedInProcess = some (cell.slot, confirmed) →
        cell.dead = confirmed.isNone ∧ cell.blockHeight = confirmed.bind BlockWithBinary.blockHeight
  | .confirmedBlockPushBack cell => cell.dead = false → ∀ block,
      ConfirmedAs cell.slot (some block) updates → cell.blockHeight = block.blockHeight
  | _ => True

/-- The states that a reader reaches by the messages of the writer, with the updates of its recent
state; the first ones are the confirmations of the blocks in the first message. -/
inductive Reached : List ProcessedUpdate → Reader → Prop
  | init (db : Rocksdb) (list : List StoredBlock) (max : Nat) (writer : StoredBlocksWrite)
      (recentBlocks : List (Nat × BlockWithBinary)) (loaded : db.spawnSlots = .ok list)
      (opened : StoredBlocksWrite.new list max = .ok writer)
      (recent : recentBlocks.map Prod.fst = writer.getRecentBlocks.map StoredBlock.slot)
      (stored : ∀ item ∈ recentBlocks, ∀ cell ∈ list, cell.slot = item.1 →
        cell.blockHeight = item.2.blockHeight) :
      Reached (heard recentBlocks []) (Reader.init writer.toRead recentBlocks)
  | update (updates : List ProcessedUpdate) (reader after : Reader) (message : ReadWriteSyncMessage)
      (before : Reached updates reader) (sends : reader.WriterSends message)
      (stores : reader.StoresConfirmed updates message) (updated : reader.update message = .ok after) :
      Reached (updates ++ message.processedUpdate.toList) after

/-- A reached state is reachable. -/
theorem Reached.reachable (reached : reader.Reached updates) : reader.Reachable := by
  induction reached with
  | init db list max writer recentBlocks loaded opened recent stored =>
      exact .init db list max writer recentBlocks loaded opened recent
  | update updates reader after message before sends stores updated ih =>
      exact .update reader after message ih sends updated

/-- The recent state of a reached reader is the run of its updates. -/
theorem Reached.storageProcessed (reached : reader.Reached updates) :
    reader.storageProcessed = run updates := by
  induction reached with
  | init db list max writer recentBlocks loaded opened recent stored => exact storageProcessed_init _
  | update updates reader after message before sends stores updated ih =>
      exact storageProcessed_update updated ih

/-- A live cell has the height of the block that was confirmed for its slot. -/
def CellTied (updates : List ProcessedUpdate) (cell : StoredBlock) : Prop :=
  cell.isLive = true → ∀ block, ConfirmedAs cell.slot (some block) updates →
    cell.blockHeight = block.blockHeight

/-- The cells and the block in process agree with the confirmations. -/
structure Tied (reader : Reader) (updates : List ProcessedUpdate) : Prop where
  cells : reader.blocks.blocks.Every (CellTied updates)
  inProcess : ∀ slot confirmed, reader.confirmedInProcess = some (slot, confirmed) →
    ConfirmedAs slot confirmed updates

theorem cellTied_newNoexists (updates : List ProcessedUpdate) :
    CellTied updates StoredBlock.newNoexists := by
  intro live
  cases live

/-- A message without a confirmation keeps the way a slot is confirmed. -/
theorem confirmedAs_update {confirmed : Option BlockWithBinary}
    (open' : ∀ place other, message ≠ .blockConfirmed place other) :
    ConfirmedAs slot confirmed (updates ++ message.processedUpdate.toList) ↔
      ConfirmedAs slot confirmed updates := by
  cases message with
  | blockConfirmed place other => exact absurd rfl (open' place other)
  | blockNew | blockDead | slotFinalized =>
      rw [ReadWriteSyncMessage.processedUpdate, Option.toList_some, confirmedAs_concat]
      simp
  | _ => simp [ReadWriteSyncMessage.processedUpdate]

/-- The slot of a live cell is not confirmed again. -/
theorem Reachable.lt_of_sends {place : Nat} {confirmed : Option BlockWithBinary}
    (reachable : reader.Reachable) (sends : reader.WriterSends (.blockConfirmed place confirmed))
    (index : Fin reader.blocks.blocks.size)
    (live : (reader.blocks.blocks.cells index).isLive = true) :
    (reader.blocks.blocks.cells index).slot < place := by
  obtain ⟨contents, consistent⟩ := reachable.consistent
  have spans : StoredBlocksWrite.Spans ⟨reader.blocks.blocks, 0, []⟩ contents :=
    ⟨consistent.represents, consistent.consecutive⟩
  rw [StoredBlock.isLive, Bool.and_eq_true] at live
  have member := (spans.mem_iff live.1).mpr ⟨index, rfl⟩
  rcases contents.eq_nil_or_concat with rfl | ⟨rest, last, rfl⟩
  · cases member
  · have isLast : (rest.concat last).getLast? = some last := by simp
    have top := consistent.headCell_of_last isLast
    have present := consistent.consecutive.present last (List.mem_of_getLast? isLast)
    have below := Successive.le_getLast consistent.consecutive.slots isLast member
    have next : place = last.slot + 1 := by
      rw [← top] at present ⊢
      exact sends present
    omega

/-- A message of the writer keeps the cells tied to the confirmations. -/
theorem Tied.update (tied : reader.Tied updates) (reachable : reader.Reachable)
    (sends : reader.WriterSends message) (stores : reader.StoresConfirmed updates message)
    (updated : reader.update message = .ok after) :
    after.Tied (updates ++ message.processedUpdate.toList) := by
  have frame (open' : ∀ place other, message ≠ .blockConfirmed place other) (cell : StoredBlock)
      (known : CellTied updates cell) :
      CellTied (updates ++ message.processedUpdate.toList) cell := by
    intro live block confirmed
    exact known live block ((confirmedAs_update open').mp confirmed)
  cases message with
  | init blocks files recent => cases sends
  | blockNew | blockDead | slotFinalized =>
      cases updated
      exact ⟨fun index => frame (by simp) _ (tied.cells index), fun slot confirmed known =>
        (confirmedAs_update (by simp)).mpr (tied.inProcess slot confirmed known)⟩
  | blockConfirmed place confirmed =>
      cases updated
      constructor
      · intro index live block again
        rcases confirmedAs_concat.mp again with same | ⟨before, -⟩
        · -- The writer confirms only the slot above the ring.
          have above := reachable.lt_of_sends sends index live
          exact absurd (ProcessedUpdate.setConfirmed.inj same).1 (Nat.ne_of_gt above)
        · exact tied.cells index live block before
      · rintro _ _ ⟨⟩
        exact confirmedAs_concat.mpr (Or.inl rfl)
  | confirmedBlockPopBack =>
      cases updated
      exact ⟨CellRing.Every.popBack (fun index => frame (by simp) _ (tied.cells index))
        (cellTied_newNoexists _), fun slot confirmed known =>
        (confirmedAs_update (by simp)).mpr (tied.inProcess slot confirmed known)⟩
  | confirmedBlockPopFront =>
      cases updated
      exact ⟨CellRing.Every.popFront (fun index => frame (by simp) _ (tied.cells index))
        (cellTied_newNoexists _), fun slot confirmed known =>
        (confirmedAs_update (by simp)).mpr (tied.inProcess slot confirmed known)⟩
  | confirmedBlockPushBack cell =>
      cases updated
      refine ⟨CellRing.Every.pushBack (fun index => frame (by simp) _ (tied.cells index))
        (frame (by simp) _ fun live => stores ?_), fun slot confirmed known =>
        (confirmedAs_update (by simp)).mpr (tied.inProcess slot confirmed known)⟩
      rw [StoredBlock.isLive, Bool.and_eq_true, Bool.not_eq_true'] at live
      exact live.2
  | confirmedBlockPushFront cell =>
      simp only [Reader.update, pushFront] at updated
      split at updated
      · cases updated
      · rename_i place confirmed running
        split at updated
        · rename_i same
          subst same
          cases updated
          refine ⟨CellRing.Every.pushFront (fun index => frame (by simp) _ (tied.cells index))
            (frame (by simp) _ ?_), by rintro _ _ ⟨⟩⟩
          intro live block again
          obtain ⟨dead, height⟩ := stores confirmed running
          rw [height, (tied.inProcess _ _ running).unique again]
          rfl
        · cases updated

/-- The cells of a reached reader are tied to the confirmations. -/
theorem Reached.tied (reached : reader.Reached updates) : reader.Tied updates := by
  induction reached with
  | init db list max writer recentBlocks loaded opened recent stored =>
      obtain ⟨present, chain, -⟩ := spawnSlotsLoop_chain loaded
      have consecutive : Consecutive list := ⟨present, chain⟩
      obtain ⟨represents, -⟩ := StoredBlocksWrite.new_represents consecutive opened
      refine ⟨represents.every (cellTied_newNoexists _) ?_, by rintro _ _ ⟨⟩⟩
      intro cell member live block confirmed
      obtain ⟨before, message, later, same, rfl, -⟩ := confirmed
      have heardOf : ProcessedUpdate.setConfirmed cell.slot (some block) ∈ heard recentBlocks [] := by
        rw [same]
        simp
      simp only [heard, List.filterMap_nil, List.append_nil, List.mem_map,
        ProcessedUpdate.setConfirmed.injEq, Option.some.injEq] at heardOf
      obtain ⟨item, itemMember, place, rfl⟩ := heardOf
      exact stored item itemMember cell member place.symm
  | update updates reader after message before sends stores updated ih =>
      exact ih.update before.reachable sends stores updated

/-- The block has the highest slot of the confirmed blocks that are not dead: the block in process, or
without a live one there the block that was confirmed for the live cell with the highest slot. -/
inductive LatestConfirmed (reader : Reader) (updates : List ProcessedUpdate) :
    Nat → BlockWithBinary → Prop
  | inProcess (slot : Nat) (block : BlockWithBinary)
      (running : reader.confirmedInProcess = some (slot, some block)) :
      LatestConfirmed reader updates slot block
  | stored (index : Fin reader.blocks.blocks.size) (slot : Nat) (block : BlockWithBinary)
      (idle : ∀ place other, reader.confirmedInProcess ≠ some (place, some other))
      (live : (reader.blocks.blocks.cells index).isLive = true)
      (place : (reader.blocks.blocks.cells index).slot = slot)
      (highest : ∀ other, (reader.blocks.blocks.cells other).isLive = true →
        (reader.blocks.blocks.cells other).slot ≤ slot)
      (confirmed : ConfirmedAs slot (some block) updates) : LatestConfirmed reader updates slot block

/-- Both requests succeed at the confirmed commitment with the values of the block. -/
def AnswersLatest (reader : Reader) (block : BlockWithBinary) : Prop :=
  ∃ height, block.blockHeight = some height ∧
    (∃ slot, reader.processBlockHeight false .confirmed = some (.blockHeight height slot)) ∧
    ∃ slot, reader.processLatestBlockhash false .confirmed =
      .latestBlockhash slot block.blockhash (height + maxProcessingAge)

/-- The blockhash request answers from the recent block of the confirmed slot. -/
theorem processLatestBlockhash_iff {height : Nat} {blockhash : String} :
    (∃ slot, reader.processLatestBlockhash false .confirmed =
      .latestBlockhash slot blockhash (height + maxProcessingAge)) ↔
      ∃ recent, reader.storageProcessed.recentBlocks.get reader.storageProcessed.confirmedSlot =
        some recent ∧ recent.blockhash = blockhash ∧ recent.blockHeight = height := by
  simp only [processLatestBlockhash, Bool.false_eq_true, if_false, reachedSlot]
  cases recent : reader.storageProcessed.recentBlocks.get reader.storageProcessed.confirmedSlot with
  | none => simp
  | some record => simp

/-- A block in process with a height gives the height. -/
theorem processBlockHeight_running {slot height : Nat}
    (running : reader.confirmedInProcess = some (slot, some block))
    (known : block.blockHeight = some height) :
    reader.processBlockHeight false .confirmed =
      some (.blockHeight height reader.storageProcessed.confirmedSlot) := by
  simp only [processBlockHeight, commitmentHeight, running, known, Bool.false_eq_true, if_false,
    reachedSlot]

/-- Without a live block in process the ring gives the height. -/
theorem processBlockHeight_idle {contents : List StoredBlock} (consistent : reader.Consistent contents)
    (idle : ∀ slot other, reader.confirmedInProcess ≠ some (slot, some other)) {height : Nat} :
    (∃ slot, reader.processBlockHeight false .confirmed = some (.blockHeight height slot)) ↔
      reader.blocks.LeadsTo reader.storageProcessed.confirmedSlot height := by
  have spans : StoredBlocksWrite.Spans ⟨reader.blocks.blocks, 0, []⟩ contents :=
    ⟨consistent.represents, consistent.consecutive⟩
  have missing : reader.commitmentHeight .confirmed = none := by
    unfold commitmentHeight
    cases running : reader.confirmedInProcess with
    | none => rfl
    | some item =>
        obtain ⟨slot, _ | other⟩ := item
        · rfl
        · exact absurd running (idle slot other)
  have answer : (∃ slot, reader.processBlockHeight false .confirmed =
      some (.blockHeight height slot)) ↔
      reader.blocks.findBlockHeight (reader.storageProcessed.confirmedSlot + 1)
        reader.storageProcessed.confirmedSlot = some (.ok height) := by
    simp only [processBlockHeight, missing, Bool.false_eq_true, if_false, reachedSlot]
    cases reader.blocks.findBlockHeight (reader.storageProcessed.confirmedSlot + 1)
        reader.storageProcessed.confirmedSlot with
    | none => simp
    | some result => cases result <;> simp
  have copied : reader.blocks.findBlockHeight =
      (StoredBlocksWrite.toRead ⟨reader.blocks.blocks, 0, []⟩).findBlockHeight :=
    StoredBlocksRead.findBlockHeight_congr rfl
  rw [answer, copied]
  constructor
  · intro found
    exact (StoredBlocksWrite.Spans.leadsTo_iff spans).mpr
      (StoredBlocksWrite.Spans.leads_of_findBlockHeight spans found)
  · intro leads
    exact StoredBlocksWrite.Spans.findBlockHeight_of_leads spans (Nat.lt_succ_self _)
      ((StoredBlocksWrite.Spans.leadsTo_iff spans).mp leads)

/-- The ring leads from the slot of its highest live cell to the height of that cell. -/
theorem leadsTo_self {index : Fin reader.blocks.blocks.size} {height : Nat}
    (live : (reader.blocks.blocks.cells index).isLive = true)
    (known : (reader.blocks.blocks.cells index).blockHeight = some height) :
    reader.blocks.LeadsTo (reader.blocks.blocks.cells index).slot height := by
  have present : (reader.blocks.blocks.cells index).present = true := by
    rw [StoredBlock.isLive, Bool.and_eq_true] at live
    exact live.1
  exact ⟨⟨index, present, le_rfl⟩, index, live, le_rfl, known, fun _ _ below => below⟩

/-- At the slot of the latest live block both requests answer with its values. -/
theorem answersLatest_of_last (reached : reader.Reached updates)
    (latest : reader.LatestConfirmed updates slot block) (recorded : Recorded slot block updates)
    {height : Nat} (known : block.blockHeight = some height)
    (isLast : lastConfirmed updates = slot) : reader.AnswersLatest block := by
  obtain ⟨contents, consistent⟩ := reached.reachable.consistent
  have confirmedSlot : reader.storageProcessed.confirmedSlot = slot := by
    rw [reached.storageProcessed, StorageProcessed.confirmedSlot_run, isLast]
  refine ⟨height, known, ?_, processLatestBlockhash_iff.mpr ⟨recentOf block height, ?_, rfl, rfl⟩⟩
  · cases latest with
    | inProcess slot block running => exact ⟨_, processBlockHeight_running running known⟩
    | stored index slot block idle live place highest confirmed =>
        subst place
        rw [processBlockHeight_idle consistent idle, confirmedSlot]
        apply leadsTo_self live
        rw [reached.tied.cells index live block confirmed, known]
  · rw [confirmedSlot, reached.storageProcessed]
    exact StorageProcessed.recent_of_recorded recorded known isLast

/-- In every reachable state with a recorded latest live confirmed block, both requests answer with the
values of the block if and only if its slot is the last confirmed one, where no block of another slot
has its blockhash. -/
theorem answersLatest_iff (reader : Reader) (updates : List ProcessedUpdate)
    (reached : reader.Reached updates) (slot : Nat) (block : BlockWithBinary)
    (latest : reader.LatestConfirmed updates slot block) (recorded : Recorded slot block updates)
    (height : block.blockHeight ≠ none)
    (distinct : ∀ place other, Brings updates place other → other.blockhash = block.blockhash →
      place = slot) :
    reader.AnswersLatest block ↔ lastConfirmed updates = slot := by
  constructor
  · rintro ⟨height, -, -, answered⟩
    obtain ⟨recent, found, sameHash, -⟩ := processLatestBlockhash_iff.mp answered
    rw [reached.storageProcessed, StorageProcessed.confirmedSlot_run] at found
    obtain ⟨other, otherHeight, brings, -, rfl⟩ := StorageProcessed.brings_of_recent found
    exact distinct _ other brings sameHash
  · obtain ⟨value, known⟩ := Option.ne_none_iff_exists'.mp height
    exact answersLatest_of_last reached latest recorded known

/-- The blocks of the first message. -/
def fullRecent : List (Nat × BlockWithBinary) := [11, 12, 13].map fun slot => (slot, sampleBlock slot)

theorem fullReader_reached : fullReader.Reached (heard fullRecent []) := by
  refine .init fullDb fullBlocks 4 fullWriter fullRecent (by decide +kernel) rfl (by decide +kernel) ?_
  decide

/-- The writer has confirmed the next slot as dead. -/
def deadReader : Reader := { fullReader with
  storageProcessed := fullReader.storageProcessed.setConfirmed 14 none
  confirmedInProcess := some (14, none) }

theorem deadReader_reached : deadReader.Reached (heard fullRecent [] ++ [.setConfirmed 14 none]) :=
  .update _ fullReader deadReader (.blockConfirmed 14 none) fullReader_reached (by decide)
    trivial rfl

/-- The block of slot 15 follows the dead slot 14. -/
def lateBlock : BlockWithBinary := .plain "late" 14 [⟨7⟩]

/-- The dead slot is stored in the place of the oldest block. -/
def skippedReader : Reader := { deadReader with
  confirmedInProcess := none
  blocks := deadReader.blocks.popBlockBack.pushBlockFront (.newDead 14) }

/-- The block of slot 15 was processed, confirmed, and stored. -/
def lateReader : Reader where
  confirmedInProcess := none
  storageProcessed :=
    (skippedReader.storageProcessed.addProcessedBlock 15 lateBlock).setConfirmed 15 (some lateBlock)
  blocks := skippedReader.blocks.popBlockBack.pushBlockFront (.newConfirmed 15 none (some 14) 0 14 8)

def lateUpdates : List ProcessedUpdate :=
  heard fullRecent [] ++ [.setConfirmed 14 none, .addProcessedBlock 15 lateBlock]

theorem lateReader_reached :
    lateReader.Reached (lateUpdates ++ [.setConfirmed 15 (some lateBlock)]) := by
  have popped := Reached.update _ deadReader { deadReader with
    blocks := deadReader.blocks.popBlockBack } .confirmedBlockPopBack deadReader_reached
    (by decide) trivial rfl
  have skipped := Reached.update _ _ skippedReader (.confirmedBlockPushFront (.newDead 14)) popped
    (by decide) (by rintro confirmed ⟨⟩; decide) rfl
  have processed := Reached.update _ _ _ (.blockNew 15 lateBlock) skipped trivial trivial rfl
  have confirmed := Reached.update _ _ _ (.blockConfirmed 15 (some lateBlock)) processed
    (by decide) trivial rfl
  have emptied := Reached.update _ _ _ .confirmedBlockPopBack confirmed (by decide) trivial rfl
  exact Reached.update _ _ lateReader (.confirmedBlockPushFront (.newConfirmed 15 none (some 14) 0 14 8))
    emptied (by decide) (by rintro confirmed ⟨⟩; decide) rfl

theorem lateReader_recorded :
    Recorded 15 lateBlock (lateUpdates ++ [.setConfirmed 15 (some lateBlock)]) := by
  have fresh : ¬ StorageProcessed.Pending 15 (heard fullRecent [] ++ [.setConfirmed 14 none]) := by
    rw [← StorageProcessed.containsKey_run]
    decide +kernel
  refine ⟨lateUpdates, _, [], rfl, ⟨rfl, Or.inr ⟨lateBlock, 14, ⟨rfl, fun _ => rfl⟩, rfl, ?_, ?_⟩⟩, by simp⟩
  · exact ⟨heard fullRecent [] ++ [.setConfirmed 14 none], _, [], rfl, ⟨rfl, fresh⟩, by simp⟩
  · intro slot _ block height brings known
    simp [Brings, lateUpdates, heard, fullRecent] at brings
    obtain ⟨-, rfl⟩ | ⟨-, rfl⟩ | ⟨-, rfl⟩ | ⟨-, rfl⟩ := brings <;>
    · cases known
      decide

/-- The requests answer with the block after the dead slot. -/
theorem answersLatest_iff_late : lateReader.AnswersLatest lateBlock := by
  have confirmed : ConfirmedAs 15 (some lateBlock)
      (lateUpdates ++ [.setConfirmed 15 (some lateBlock)]) := ⟨lateUpdates, _, [], rfl, rfl, by simp⟩
  have latest : lateReader.LatestConfirmed (lateUpdates ++ [.setConfirmed 15 (some lateBlock)]) 15
      lateBlock :=
    .stored ⟨1, by decide⟩ 15 lateBlock (by rintro slot other ⟨⟩) (by decide) (by decide) (by decide)
      confirmed
  refine (answersLatest_iff lateReader _ lateReader_reached 15 lateBlock latest lateReader_recorded
    (by decide) ?_).mpr rfl
  intro place other brings sameHash
  simp [Brings, lateUpdates, heard, fullRecent] at brings
  obtain ⟨rfl, -⟩ | ⟨-, rfl⟩ | ⟨-, rfl⟩ | ⟨-, rfl⟩ | ⟨rfl, -⟩ := brings
  · rfl
  · exact absurd sameHash (by decide)
  · exact absurd sameHash (by decide)
  · exact absurd sameHash (by decide)
  · rfl

/-- Both requests fail as long as the last confirmed slot is dead and in process, although the block
before it is in the ring and in the recent window. -/
theorem answersLatest_false : ∃ updates, deadReader.Reached updates ∧
    deadReader.LatestConfirmed updates 13 (sampleBlock 13) ∧ Recorded 13 (sampleBlock 13) updates ∧
    deadReader.storageProcessed.recentBlocks.get 13 = some (recentOf (sampleBlock 13) 13) ∧
    deadReader.processBlockHeight false .confirmed =
      some (.readError .failedToFindCommitmentSlot) ∧
    deadReader.processLatestBlockhash false .confirmed = .readError .failedToGetBlock ∧
    ¬ deadReader.AnswersLatest (sampleBlock 13) := by
  have height : deadReader.processBlockHeight false .confirmed =
      some (.readError .failedToFindCommitmentSlot) := by decide +kernel
  refine ⟨_, deadReader_reached, ?_, ?_, by decide +kernel, height, by decide +kernel, ?_⟩
  · have confirmed : ConfirmedAs 13 (some (sampleBlock 13))
        (heard fullRecent [] ++ [.setConfirmed 14 none]) :=
      ⟨heard (fullRecent.take 2) [], _, [.setConfirmed 14 none], rfl, rfl, by simp⟩
    exact .stored ⟨3, by decide⟩ 13 (sampleBlock 13) (by rintro slot other ⟨⟩) (by decide) (by decide)
      (by decide) confirmed
  · refine ⟨heard (fullRecent.take 2) [], _, [.setConfirmed 14 none], rfl, ⟨rfl, Or.inl ?_⟩, by simp⟩
    rw [← StorageProcessed.containsKey_run]
    decide +kernel
  · rintro ⟨_, -, ⟨_, answered⟩, -⟩
    rw [height] at answered
    cases answered

end Reader

end Alpamayo
