import Alpamayo.Proof.HeightWalk
import Alpamayo.Proof.ValidatedReads
import Alpamayo.Proof.WriteSteps

/-!
This file shows that the readers of the main loop serve the confirmed slots, and only received blocks.
-/

namespace Alpamayo

variable {sourced : Nat → BlockWithBinary → Prop}

/-- A cell of the ring was loaded at the start, marks a dead slot, or places a received block. -/
inductive StoredBlock.From (sourced : Nat → BlockWithBinary → Prop) (list : List StoredBlock) :
    StoredBlock → Prop where
  | absent : StoredBlock.From sourced list .newNoexists
  | loaded (cell : StoredBlock) (member : cell ∈ list) : StoredBlock.From sourced list cell
  | dead (slot : Nat) : StoredBlock.From sourced list (.newDead slot)
  | received (slot : Nat) (block : BlockWithBinary) (storageId : StorageId) (offset : Nat)
      (source : sourced slot block) : StoredBlock.From sourced list (.newConfirmed slot
        block.blockTime block.blockHeight storageId offset block.protobuf.length)

/-- The blocks of a message came for its slot. -/
def ReadWriteSyncMessage.Brings (sourced : Nat → BlockWithBinary → Prop) :
    ReadWriteSyncMessage → Prop
  | blockNew slot block | blockConfirmed slot (some block) => sourced slot block
  | _ => True

/-- The cell of a push is dead or places its block. -/
theorem CellOf.from {slot : Nat} {added : Option BlockWithBinary} {cell : StoredBlock}
    {list : List StoredBlock} (known : CellOf slot added cell)
    (source : ∀ block ∈ added, sourced slot block) : cell.From sourced list := by
  cases known with
  | dead => exact .dead slot
  | live block storageId offset => exact .received slot block storageId offset (source block rfl)

namespace Writer

variable {self after : Writer} {event : WriterEvent} {list : List StoredBlock}

/-- Every block of the writer was received or loaded. -/
structure Serves (sourced : Nat → BlockWithBinary → Prop) (list : List StoredBlock)
    (writer : Writer) : Prop where
  cells : writer.store.blocks.blocks.Every (StoredBlock.From sourced list)
  push : ∀ push ∈ writer.task.underWay, ∀ block ∈ push.block, sourced push.slot block
  recorded : ∀ push ∈ writer.task.underWay, ∀ cell, push.stage = .recorded cell →
    cell.From sourced list
  sent : ∀ message ∈ writer.store.blocks.sent, message.Brings sourced

/-- The pushes under way keep their sources. -/
theorem Serves.push_change (serves : self.Serves sourced list)
    (permitted : FollowsLoop sourced self event) (change : Change self event after) :
    ∀ push ∈ after.task.underWay, ∀ block ∈ push.block, sourced push.slot block := by
  intro next member
  cases change.underWay member with
  | front slot added cause isNext checked | back slot added cause isNext checked ring evicted =>
      rw [cause] at permitted
      rw [isNext]
      rintro block ⟨⟩
      exact permitted.2
  | goesOn push known side slot block cell same =>
      rw [slot, block]
      exact serves.push push known

/-- Each message of a permitted change brings a received block. -/
theorem Serves.sent_change (serves : self.Serves sourced list)
    (permitted : FollowsLoop sourced self event) (change : Change self event after) :
    ∀ message ∈ after.store.blocks.sent, message.Brings sourced := by
  have known := serves.sent
  have next (message : ReadWriteSyncMessage) (brings : message.Brings sourced) :
      ∀ other ∈ self.store.blocks.sent ++ [message], other.Brings sourced := by
    intro other member
    obtain old | new := List.mem_append.mp member
    · exact known other old
    · rw [List.mem_singleton.mp new]
      exact brings
  cases change with
  | send message idle report =>
      refine next message ?_
      cases message <;> first | trivial | exact permitted.2
  | frontRefused slot added idle | pushBlockFront slot added idle checked =>
      refine next _ ?_
      cases added with
      | none => trivial
      | some block => exact permitted.2
  | popBlock side block blocks idle popped =>
      change ∀ message ∈ blocks.sent, _
      rw [Store.popRing_sent popped]
      exact known
  | announce side block push task => exact next _ (by cases side <;> trivial)
  | evict push _ files block blocks task front evicts popped =>
      change ∀ message ∈ blocks.sent, _
      rw [show blocks.sent = self.store.blocks.sent from Store.popRing_sent popped]
      exact known
  | index push _ store task indexed =>
      rw [show store.blocks = self.store.blocks from Push.addIndexes_blocks indexed]
      exact known
  | indexDuring side block stage push _ store task indexed =>
      rw [show store.blocks = self.store.blocks from Push.addIndexes_blocks indexed]
      exact known
  | store push cell blocks task stage stored =>
      change ∀ message ∈ blocks.sent, _
      rcases StoredBlocksWrite.pushCell_sent stored with sent | sent
      · rw [sent]
        exact next _ trivial
      · rw [sent]
        exact next _ trivial
  | publish side task =>
      change ∀ message ∈ (self.store.blocks.updateTotal side).sent, _
      rw [StoredBlocksWrite.updateTotal_sent]
      exact known
  | _ => exact known

/-- Every permitted change keeps the sources. -/
theorem Serves.change (serves : self.Serves sourced list)
    (permitted : FollowsLoop sourced self event) (change : Change self event after) :
    after.Serves sourced list where
  cells := by
    cases change.ring with
    | other ring firstAvailable stored evicted before done sends =>
        rw [ring]
        exact serves.cells
    | popped side block popped stored evicted before done cause =>
        exact Store.every_popRing serves.cells .absent popped
    | pushed push cell known stage pushed stored evicted task cause =>
        exact StoredBlocksWrite.every_pushCell serves.cells
          (serves.recorded push (by rw [known]; rfl) cell stage) pushed
    | published side known blocks stored evicted done =>
        rw [blocks, StoredBlocksWrite.updateTotal_blocks]
        exact serves.cells
  push := serves.push_change permitted change
  recorded := by
    intro next member cell stage
    have source := serves.push_change permitted change next member
    cases change.underWay member with
    | front slot block cause isNext checked | back slot block cause isNext checked ring evicted =>
        rw [isNext] at stage
        cases stage
    | goesOn push known side slot block recorded same =>
        obtain old | new := recorded cell stage
        · exact serves.recorded push known cell old
        · exact new.from source
  sent := serves.sent_change permitted change

/-- Every permitted run keeps the sources. -/
theorem Serves.run (serves : self.Serves sourced list) (run : Run (FollowsLoop sourced) self after) :
    after.Serves sourced list :=
  run.invariant (Serves sourced list) serves fun _ _ _ kept permitted change =>
    kept.change permitted change

end Writer

namespace StorageProcessed

variable {self : StorageProcessed} {slot : Nat}

/-- Every processed block came for its slot. -/
def Sourced (sourced : Nat → BlockWithBinary → Prop) (self : StorageProcessed) : Prop :=
  ∀ slot block, self.getProcessedBlock slot = some block → sourced slot block

theorem Sourced.congr {after : StorageProcessed} (known : self.Sourced sourced)
    (same : after.blocks = self.blocks) : after.Sourced sourced := by
  intro slot block found
  rw [getProcessedBlock, same] at found
  exact known slot block found

theorem Sourced.addProcessedBlock (known : self.Sourced sourced) {block : BlockWithBinary}
    (source : sourced slot block) : (self.addProcessedBlock slot block).Sourced sourced := by
  unfold StorageProcessed.addProcessedBlock
  dsimp only
  refine Sourced.congr ?_ updateProcessed_blocks
  have added : (self.addSignatures slot block).Sourced sourced := known.congr addSignatures_blocks
  split
  · exact added
  · intro other found isFound
    rw [getProcessedBlock, SortedMap.get_insert] at isFound
    split at isFound
    · rename_i same
      rw [same]
      cases isFound
      exact source
    · exact added other found isFound

theorem Sourced.markDead (known : self.Sourced sourced) (slot : Nat) :
    (self.markDead slot).Sourced sourced := by
  intro other found isFound
  rw [getProcessedBlock, (markDead_frame self slot).1, SortedMap.get_insert] at isFound
  split at isFound
  · cases isFound
  · exact known other found isFound

theorem Sourced.setConfirmed (known : self.Sourced sourced) (slot : Nat)
    (block : Option BlockWithBinary) : (self.setConfirmed slot block).Sourced sourced := by
  intro other found isFound
  rw [getProcessedBlock, setConfirmed_blocks] at isFound
  refine known other found ?_
  rw [Option.join_eq_some_iff] at isFound
  rw [getProcessedBlock, SortedMap.get_of_popWhile isFound]
  rfl

theorem Sourced.setFinalized (known : self.Sourced sourced) (slot : Nat) :
    (self.setFinalized slot).Sourced sourced := by
  obtain ⟨finalizedSlot, finalizedHeight, same⟩ := setFinalized_eq self slot
  rw [same]
  exact known

end StorageProcessed

namespace Reader

variable {reader next : Reader} {message : ReadWriteSyncMessage}

/-- The blocks that the reader holds itself came for their slots. -/
structure Serves (sourced : Nat → BlockWithBinary → Prop) (reader : Reader) : Prop where
  pending : ∀ slot block, reader.confirmedInProcess = some (slot, some block) → sourced slot block
  processed : reader.storageProcessed.Sourced sourced

theorem serves_init (blocks : StoredBlocksRead) (recentBlocks : List (Nat × BlockWithBinary)) :
    (Reader.init blocks recentBlocks).Serves sourced := by
  refine ⟨by rintro slot block ⟨⟩, ?_⟩
  have empty : StorageProcessed.default.Sourced sourced := by rintro slot block ⟨⟩
  change StorageProcessed.Sourced sourced (recentBlocks.foldl _ StorageProcessed.default)
  generalize StorageProcessed.default = processed at empty ⊢
  induction recentBlocks generalizing processed with
  | nil => exact empty
  | cons item rest ih => exact ih _ (empty.setConfirmed item.1 (some item.2))

/-- A message with received blocks keeps the sources of the reader. -/
theorem Serves.update (serves : reader.Serves sourced) (brings : message.Brings sourced)
    (updated : reader.update message = .ok next) : next.Serves sourced := by
  cases message with
  | init => cases updated
  | blockNew slot block =>
      cases updated
      exact ⟨serves.pending, serves.processed.addProcessedBlock brings⟩
  | blockDead slot =>
      cases updated
      exact ⟨serves.pending, serves.processed.markDead slot⟩
  | blockConfirmed slot added =>
      cases updated
      refine ⟨?_, serves.processed.setConfirmed slot added⟩
      rintro _ _ ⟨⟩
      exact brings
  | slotFinalized slot =>
      cases updated
      exact ⟨serves.pending, serves.processed.setFinalized slot⟩
  | confirmedBlockPopBack | confirmedBlockPopFront | confirmedBlockPushBack block =>
      cases updated
      exact ⟨serves.pending, serves.processed⟩
  | confirmedBlockPushFront block =>
      simp only [Reader.update, pushFront] at updated
      split at updated
      · cases updated
      · split at updated
        · cases updated
          exact ⟨by rintro slot block ⟨⟩, serves.processed⟩
        · cases updated

/-- The messages of a log with received blocks keep the sources of the reader. -/
theorem Serves.updates {messages : List ReadWriteSyncMessage} (serves : reader.Serves sourced)
    (brings : ∀ message ∈ messages, message.Brings sourced)
    (updated : reader.updates messages = .ok next) : next.Serves sourced := by
  induction messages generalizing reader with
  | nil =>
      cases updated
      exact serves
  | cons message rest ih =>
      rw [Reader.updates] at updated
      cases middle : reader.update message with
      | error error =>
          rw [middle] at updated
          cases updated
      | ok after =>
          rw [middle] at updated
          exact ih (serves.update (brings message List.mem_cons_self) middle)
            (fun other member => brings other (List.mem_cons_of_mem _ member)) updated

/-- A location of a slot was loaded at the start or places a block that came for the slot. -/
structure Locates (sourced : Nat → BlockWithBinary → Prop) (list : List StoredBlock) (slot : Nat)
    (cell : StoredBlock) : Prop where
  isSlot : cell.slot = slot
  source : cell ∈ list ∨ ∃ block, sourced slot block ∧ cell.blockTime = block.blockTime ∧
    cell.blockHeight = block.blockHeight ∧ cell.size = block.protobuf.length

/-- The reader answers with received blocks and with the blocks that were loaded at the start. -/
structure ServesReceived (sourced : Nat → BlockWithBinary → Prop) (list : List StoredBlock)
    (reader : Reader) : Prop where
  block : ∀ expired slot bytes, reader.processBlock expired slot = .answer (.block bytes) →
    ∃ block, sourced slot block ∧ bytes = block.protobuf
  read : ∀ expired slot cell, reader.processBlock expired slot = .read cell →
    Locates sourced list slot cell
  blockTime : ∀ expired slot time, reader.processBlockTime expired slot = .blockTime time →
    (∃ block, sourced slot block ∧ time = block.blockTime) ∨
      ∃ cell ∈ list, cell.slot = slot ∧ time = cell.blockTime

variable {list contents : List StoredBlock} {blocks : StoredBlocksWrite} {slot : Nat}

/-- A location of the copy is a live cell of the writer. -/
theorem locates_of_found (spans : blocks.Spans contents)
    (cells : blocks.blocks.Every (StoredBlock.From sourced list)) {cell : StoredBlock}
    (found : blocks.toRead.getBlockLocation slot = .found cell) : Locates sourced list slot cell := by
  obtain ⟨member, live, isSlot⟩ := spans.found_iff.mp found
  obtain ⟨index, isCell⟩ := (spans.mem_iff (spans.consecutive.present cell member)).mp member
  have origin := cells index
  rw [isCell] at origin
  refine ⟨isSlot, ?_⟩
  cases origin with
  | absent => exact absurd (spans.consecutive.present _ member) Bool.false_ne_true
  | loaded cell known => exact Or.inl known
  | dead slot => cases live
  | received other block storageId offset source =>
      cases isSlot
      exact Or.inr ⟨block, source, rfl, rfl, rfl⟩

/-- A reader with the copy of the writer answers from its own blocks and from the cells. -/
theorem Serves.servesReceived (serves : reader.Serves sourced) (spans : blocks.Spans contents)
    (cells : blocks.blocks.Every (StoredBlock.From sourced list))
    (copy : reader.blocks = blocks.toRead) : reader.ServesReceived sourced list := by
  have pending {slot : Nat} {block : BlockWithBinary}
      (known : reader.inProcessBlock slot = some (some block)) : sourced slot block := by
    unfold inProcessBlock at known
    split at known
    · split at known
      · rename_i found same
        cases same
        cases known
        exact serves.pending _ _ found
      · cases known
    · cases known
  constructor
  · intro expired slot bytes answered
    unfold processBlock at answered
    split at answered
    · cases answered
    · split at answered
      · cases answered
        exact ⟨_, pending ‹_›, rfl⟩
      · cases answered
      · unfold locateBlock at answered
        split at answered <;> cases answered
  · intro expired slot cell read
    have found := found_of_processBlock read
    rw [copy] at found
    exact locates_of_found spans cells found
  · intro expired slot time answered
    unfold processBlockTime at answered
    split at answered
    · cases answered
    · split at answered
      · cases answered
        exact Or.inl ⟨_, pending ‹_›, rfl⟩
      · cases answered
      · split at answered
        · unfold locateBlockTime at answered
          split at answered <;> cases answered
          rename_i found
          rw [copy] at found
          obtain ⟨isSlot, loaded | ⟨block, source, time, -⟩⟩ := locates_of_found spans cells found
          · exact Or.inr ⟨_, loaded, isSlot, rfl⟩
          · exact Or.inl ⟨block, source, time⟩
        · split at answered
          · cases answered
            exact Or.inl ⟨_, serves.processed _ _ ‹_›, rfl⟩
          · cases answered

end Reader

namespace Write

open Command WriteState Writer

/-- Whatever the stream and the node deliver, in every state of every reader an answer for a slot
has a block that was received for that slot, or one that was loaded at the start. -/
theorem start2_servesReceived (db : Rocksdb) (list : List StoredBlock) (max : Nat)
    (blocks : StoredBlocksWrite) (files : StorageFilesWrite) (disk : Disk)
    (loaded : db.spawnSlots = .ok list) (opened : StoredBlocksWrite.new list max = .ok blocks)
    (turns : Nat → Nat) (concurrency : Nat)
    (backfillUpto popSlotsBack popSlotsFront firstAvailableBlock : Option Nat) (slots : NodeSlots)
    (events : List WriteEvent) (starts : StreamStarts events)
    (recentBlocks : List (Nat × BlockWithBinary)) (messages : List ReadWriteSyncMessage)
    (applied : messages <+: ((start2 popSlotsBack popSlotsFront firstAvailableBlock slots
      events).run.run (WriteState.new ⟨db, files, disk, blocks⟩ turns concurrency
        backfillUpto)).2.store.blocks.sent) :
    ∃ reader, (Reader.init blocks.toRead recentBlocks).updates messages = .ok reader ∧
      reader.ServesReceived (WriteEvent.Received events) list := by
  have spans : (Writer.start ⟨db, files, disk, blocks⟩ []).Spans list := spans_start loaded opened
  have silent : blocks.sent = [] := (StoredBlocksWrite.new_fields opened).1
  obtain ⟨final, run, isStore⟩ := start2_reaches turns concurrency backfillUpto popSlotsBack
    popSlotsFront firstAvailableBlock slots events starts spans silent
  rw [← isStore] at applied
  obtain ⟨next, writer, contents, reaches, updated, copy, kept⟩ := run.copied
    (Reader.init blocks.toRead recentBlocks) spans rfl silent rfl applied
  have first : (Writer.start ⟨db, files, disk, blocks⟩ []).Serves (WriteEvent.Received events) list := by
    refine ⟨spans.ring.represents.every .absent fun cell => .loaded cell, ?_, ?_, ?_⟩
    · rintro push ⟨⟩
    · rintro push ⟨⟩
    · change ∀ message ∈ blocks.sent, _
      rw [silent]
      simp
  have whole := (first.run run).sent
  have serves := (Reader.serves_init blocks.toRead recentBlocks).updates
    (fun message member => whole message (applied.subset member)) updated
  exact ⟨next, updated, serves.servesReceived kept.ring (first.run reaches).cells copy⟩

/-- The log of the run that fills the gap. -/
def twoGapsLog : List ReadWriteSyncMessage := twoGapsOutcome.2.store.blocks.sent

/-- A reader with the whole log finds the place of the block that the node sent for slot 6. -/
theorem start2_servesReceived_twoGaps : ∃ reader cell,
    (Reader.init sixCells.blocks.toRead []).updates twoGapsLog = .ok reader ∧
      reader.processBlock false 6 = .read cell ∧
      Reader.Locates (WriteEvent.Received twoGapsEvents) [] 6 cell := by
  have whole : (⟨Rocksdb.empty, sixCells.files, sixCells.disk, sixCells.blocks⟩ : Store) =
      sixCells := rfl
  have serves := start2_servesReceived Rocksdb.empty [] 6 sixCells.blocks sixCells.files
    sixCells.disk rfl rfl (fun _ => 0) 2 (some 3) none none (some 0) (some (4, 5)) twoGapsEvents
    (Or.inl rfl) [] twoGapsLog
  rw [whole] at serves
  have known : ((Reader.init sixCells.blocks.toRead []).updates twoGapsLog).toOption.map
      (fun reader => reader.processBlock false 6) =
        some (.read (.newConfirmed 6 (some 7) (some 5) 0 2 1)) := by
    decide +kernel
  obtain ⟨reader, updated, answers⟩ := serves (by rw [twoGapsLog, twoGapsOutcome])
  rw [updated] at known
  exact ⟨reader, _, updated, Option.some.inj known, answers.read _ _ _ (Option.some.inj known)⟩

/-- The readers of the main loop answer for every slot up to a published one, wherever they stand in
the log when they take the request. -/
theorem start2_answersConfirmed (totalReaders : Nat) (db : Rocksdb) (list : List StoredBlock)
    (max : Nat) (blocks : StoredBlocksWrite) (files : StorageFilesWrite) (disk : Disk)
    (loaded : db.spawnSlots = .ok list) (opened : StoredBlocksWrite.new list max = .ok blocks)
    (turns : Nat → Nat) (concurrency : Nat)
    (backfillUpto popSlotsBack popSlotsFront firstAvailableBlock : Option Nat) (slots : NodeSlots)
    (events : List WriteEvent) (starts : StreamStarts events)
    (recentBlocks : List (Nat × BlockWithBinary)) (storedSlots : StoredSlots)
    (before later : List (SlotsEvent totalReaders)) (observed after : SlotsState totalReaders) :
    let log := ((start2 popSlotsBack popSlotsFront firstAvailableBlock slots events).run.run
      (WriteState.new ⟨db, files, disk, blocks⟩ turns concurrency backfillUpto)).2.store.blocks.sent
    SlotsState.run log (SlotsState.initial storedSlots totalReaders) before = some observed →
    observed.published ≠ [] → ∀ slot, slot ≤ observed.shared.storedSlots.confirmed →
    SlotsState.run log observed later = some after →
    ∀ index, (after.readers index).todo = [] →
      ∃ reader, (Reader.init blocks.toRead recentBlocks).updates
          (log.take (after.readers index).position) = .ok reader ∧ reader.AnswersConfirmed slot := by
  intro log ran published slot below continued index idle
  have spans : (Writer.start ⟨db, files, disk, blocks⟩ []).Spans list := spans_start loaded opened
  have silent : blocks.sent = [] := (StoredBlocksWrite.new_fields opened).1
  obtain ⟨final, run, isStore⟩ := start2_reaches turns concurrency backfillUpto popSlotsBack
    popSlotsFront firstAvailableBlock slots events starts spans silent
  have isLog : final.store.blocks.sent = log := by rw [isStore]
  have follows : Run FollowsTip (Writer.start ⟨db, files, disk, blocks⟩ []) final := by
    refine Relation.ReflTransGen.mono ?_ _ _ run
    rintro state next ⟨event, permitted, stepped⟩
    exact ⟨event, permitted.1, stepped⟩
  have first : Reader.Confirms (Reader.init blocks.toRead recentBlocks)
      (Writer.start ⟨db, files, disk, blocks⟩ []) (Reader.init blocks.toRead recentBlocks) list := by
    refine ⟨spans, ?_, ⟨rfl, by rintro _ ⟨⟩⟩, ?_, by rintro _ ⟨⟩⟩
    · change Reader.updates _ blocks.sent = _
      rw [silent]
      rfl
    · apply Reader.AtTip.of_no_tips
      change tips blocks.sent = []
      rw [silent]
      rfl
  obtain ⟨_, _, whole⟩ := first.run follows
  have ascending : (tips log).Pairwise (· < ·) := by
    rw [← isLog]
    exact List.isChain_iff_pairwise.mp (whole.atTip.chain.imp fun low high next => by omega)
  obtain ⟨tip, isTip, least⟩ := SlotsState.exists_tip ascending ran published continued idle
  have part : log.take (after.readers index).position <+: final.store.blocks.sent := by
    rw [isLog]
    exact List.take_prefix _ _
  obtain ⟨point, started, -, known, settled⟩ :=
    (follows.replayed spans rfl silent
      (show (Reader.init blocks.toRead recentBlocks).blocks = blocks.toRead from rfl)).earlier _ part
  obtain ⟨reader, contents, confirms⟩ := first.run started
  have copy := confirms.follows.blocks
  rw [settled] at copy
  have updated := confirms.updates
  have atTip := confirms.atTip
  rw [known] at updated atTip
  exact ⟨reader, updated, atTip.answersConfirmed isTip (below.trans least) confirms.spans.ring copy⟩

/-- The second reader is ahead of the first one until both have published slot 6. -/
def twoGapsSchedule : List (SlotsEvent 2) :=
  [.receive 1, .act 1, .receive 1, .act 1, .receive 1, .receive 0, .act 0, .act 0, .receive 0, .act 0,
    .act 0, .act 0, .receive 0, .receive 0, .act 0, .receive 0, .receive 0, .act 0, .receive 1, .act 1,
    .act 1, .receive 1, .receive 1, .act 1, .act 1, .act 1]

/-- Once slot 6 is published, the first reader answers for it and for the slots of the backfill. -/
theorem start2_answersConfirmed_twoGaps : ∃ reader,
    (Reader.init sixCells.blocks.toRead []).updates (twoGapsLog.take 7) = .ok reader ∧
      reader.AnswersConfirmed 6 ∧ reader.AnswersConfirmed 4 := by
  have known : ((SlotsState.run twoGapsLog (SlotsState.initial StoredSlots.default 2) twoGapsSchedule).bind
      fun observed => (SlotsState.run twoGapsLog observed [.receive 0]).map fun after =>
        (observed.published, observed.shared.storedSlots.confirmed,
          (after.readers 0).todo.length, (after.readers 0).position)) = some ([5, 6], 6, 0, 7) := by
    decide +kernel
  obtain ⟨observed, ran, rest⟩ := Option.bind_eq_some_iff.mp known
  obtain ⟨after, continued, fields⟩ := Option.map_eq_some_iff.mp rest
  simp only [Prod.mk.injEq] at fields
  obtain ⟨published, confirmed, idle, position⟩ := fields
  have whole : (⟨Rocksdb.empty, sixCells.files, sixCells.disk, sixCells.blocks⟩ : Store) =
      sixCells := rfl
  have answers := start2_answersConfirmed 2 Rocksdb.empty [] 6 sixCells.blocks sixCells.files
    sixCells.disk rfl rfl (fun _ => 0) 2 (some 3) none none (some 0) (some (4, 5)) twoGapsEvents
    (Or.inl rfl) [] StoredSlots.default twoGapsSchedule [.receive 0] observed after
  rw [whole] at answers
  rw [twoGapsLog, twoGapsOutcome] at ran continued ⊢
  have answered (slot : Nat) (below : slot ≤ 6) := answers ran (by rw [published]; simp) slot
    (by rw [confirmed]; exact below) continued 0 (List.length_eq_zero_iff.mp idle)
  rw [position] at answered
  obtain ⟨reader, updated, upper⟩ := answered 6 (by decide)
  obtain ⟨other, again, lower⟩ := answered 4 (by decide)
  obtain rfl := Except.ok.inj (updated.symm.trans again)
  exact ⟨reader, updated, upper, lower⟩

end Write

end Alpamayo
