import Alpamayo.Proof.SlotsPublished
import Alpamayo.Proof.WriterReplica
import Alpamayo.Storage.ReadBlock

/-!
This file shows that reads at the confirmed commitment find every slot up to the published tip.
-/

namespace Alpamayo

variable {contents rest : List StoredBlock} {block : StoredBlock}
  {sent : List ReadWriteSyncMessage} {message : ReadWriteSyncMessage}

/-- A member of an ascending list is not above its last value. -/
theorem exists_getLast_ge {list : List Nat} (ascending : list.Pairwise (· < ·)) {value : Nat}
    (member : value ∈ list) : ∃ last ∈ list.getLast?, value ≤ last := by
  rcases list.eq_nil_or_concat with rfl | ⟨low, last, rfl⟩
  · cases member
  · rw [List.concat_eq_append] at ascending member ⊢
    refine ⟨last, List.getLast?_concat, ?_⟩
    obtain earlier | same := List.mem_append.mp member
    · exact ((List.pairwise_append.mp ascending).2.2 value earlier last (by simp)).le
    · rw [List.mem_singleton.mp same]

/-- A message at the end adds its own tip. -/
theorem tips_concat : tips (sent ++ [message]) = tips sent ++ message.tip.toList := by
  cases known : message.tip <;> simp [tips, known]

/-- A message without a tip leaves the tips. -/
theorem tips_concat_none (none : message.tip = none) : tips (sent ++ [message]) = tips sent := by
  rw [tips_concat, none]
  exact List.append_nil _

/-- A report announces no tip. -/
theorem ReadWriteSyncMessage.tip_of_report (report : message.isReport = true) :
    message.tip = none := by
  cases message <;> first | rfl | cases report

/-- The message of a removal announces no tip. -/
theorem ReadWriteSyncMessage.tip_popMessage (side : VecSide) : (popMessage side).tip = none := by
  cases side <;> rfl

/-- The calls of the loop after the start: a pushed slot follows the last confirmed one and the
highest stored one, a backfilled slot precedes the lowest stored one, and nothing is removed at the
front. -/
def Writer.FollowsTip (writer : Writer) : WriterEvent → Prop
  | .popBlock .front => tips writer.store.blocks.sent = []
  | .pushBlockFront slot _ =>
      (∀ tip ∈ (tips writer.store.blocks.sent).getLast?, slot = tip + 1) ∧
        ∀ front ∈ writer.store.blocks.getFrontSlot, slot = front + 1
  | .pushBlockBack slot _ => writer.store.blocks.getBackSlot = some (slot + 1)
  | _ => True

instance decidableFollowsTip (writer : Writer) :
    (event : WriterEvent) → Decidable (writer.FollowsTip event)
  | .popBlock .front => inferInstanceAs (Decidable (_ = _))
  | .pushBlockFront _ _ => inferInstanceAs (Decidable (_ ∧ _))
  | .pushBlockBack _ _ => inferInstanceAs (Decidable (_ = _))
  | .popBlock .back | .send _ | .announce | .remove | .free | .evict | .roomy | .index | .tear _
  | .write | .refuse | .record | .store | .publish => isTrue trivial

namespace Reader

variable {reader next : Reader} {writer after : Writer} {event : WriterEvent}

/-- The confirmed slot is the last tip; the ring ends at it, or right below it while its block is in
process. -/
structure AtTip (reader : Reader) (sent : List ReadWriteSyncMessage)
    (contents : List StoredBlock) : Prop where
  chain : (tips sent).IsChain fun low high => high = low + 1
  confirmed : ∀ tip ∈ (tips sent).getLast?, reader.storageProcessed.confirmedSlot = tip
  pending : ∀ tip ∈ (tips sent).getLast?, ∀ slot block,
    reader.confirmedInProcess = some (slot, block) →
      slot = tip ∧ ∀ last ∈ contents.getLast?, tip = last.slot + 1
  settled : ∀ tip ∈ (tips sent).getLast?, reader.confirmedInProcess = none →
    ∀ last ∈ contents.getLast?, last.slot = tip

/-- A message without a tip keeps what the reader knows of the last tip. -/
theorem AtTip.frame {sent' : List ReadWriteSyncMessage} (atTip : reader.AtTip sent contents)
    (tips' : tips sent' = tips sent)
    (confirmed : next.storageProcessed.confirmedSlot = reader.storageProcessed.confirmedSlot)
    (inProcess : next.confirmedInProcess = reader.confirmedInProcess)
    (last : ∀ block ∈ rest.getLast?, block ∈ contents.getLast?) : next.AtTip sent' rest where
  chain := by
    rw [tips']
    exact atTip.chain
  confirmed := by
    rw [tips', confirmed]
    exact atTip.confirmed
  pending := by
    rw [tips', inProcess]
    intro tip isTip slot block known
    obtain ⟨same, follows⟩ := atTip.pending tip isTip slot block known
    exact ⟨same, fun block isLast => follows block (last block isLast)⟩
  settled := by
    rw [tips', inProcess]
    exact fun tip isTip known block isLast => atTip.settled tip isTip known block (last block isLast)

/-- Before the first tip nothing is known. -/
theorem AtTip.of_no_tips (none : tips sent = []) : reader.AtTip sent contents := by
  constructor <;> simp [none]

/-- The announced block becomes the last tip. -/
theorem AtTip.announce {slot : Nat} {added : Option BlockWithBinary}
    (atTip : reader.AtTip sent contents)
    (follows : ∀ tip ∈ (tips sent).getLast?, slot = tip + 1)
    (next : ∀ last ∈ contents.getLast?, slot = last.slot + 1) :
    AtTip { reader with
      storageProcessed := reader.storageProcessed.setConfirmed slot added
      confirmedInProcess := some (slot, added) } (sent ++ [.blockConfirmed slot added]) contents := by
  have tips' : tips (sent ++ [.blockConfirmed slot added]) = tips sent ++ [slot] := tips_concat
  constructor
  · rw [tips', List.isChain_append]
    refine ⟨atTip.chain, List.isChain_singleton _, ?_⟩
    rintro tip isTip _ ⟨⟩
    exact follows tip isTip
  · rw [tips', List.getLast?_concat]
    rintro _ ⟨⟩
    simp
  · rw [tips', List.getLast?_concat]
    rintro _ ⟨⟩ _ _ ⟨⟩
    exact ⟨rfl, next⟩
  · rintro tip isTip ⟨⟩

/-- The stored block becomes the last one of the ring. -/
theorem AtTip.store {cell : StoredBlock} {added : Option BlockWithBinary}
    (atTip : reader.AtTip sent contents)
    (pending : reader.confirmedInProcess = some (cell.slot, added)) :
    AtTip { reader with
      confirmedInProcess := none
      blocks := reader.blocks.pushBlockFront cell } (sent ++ [.confirmedBlockPushFront cell])
      (contents ++ [cell]) := by
  have tips' : tips (sent ++ [.confirmedBlockPushFront cell]) = tips sent := tips_concat_none rfl
  constructor
  · rw [tips']
    exact atTip.chain
  · rw [tips']
    exact atTip.confirmed
  · rintro tip isTip _ _ ⟨⟩
  · rw [tips', List.getLast?_concat]
    rintro tip isTip - _ ⟨⟩
    exact (atTip.pending tip isTip _ _ pending).1

/-- A backfill goes on with a nonempty ring. -/
theorem backed_change (spans : writer.Spans contents) (kept : after.Spans rest)
    (backed : ∀ push ∈ writer.task.underWay, push.side = .back → contents ≠ [])
    (permitted : writer.FollowsTip event) (change : Writer.Change writer event after) :
    ∀ push ∈ after.task.underWay, push.side = .back → rest ≠ [] := by
  intro next member back
  obtain ⟨ring, started⟩ := change.back_underWay member back
  rw [spans.eq_of_ring kept ring]
  obtain ⟨push, running, side⟩ | ⟨slot, block, rfl⟩ := started
  · exact backed push running side
  · rintro rfl
    have first : writer.store.blocks.getBackSlot = some (slot + 1) := permitted
    rw [spans.ring.getBackSlot] at first
    cases first

/-- A change of the writer and its message keep the reader at the last tip. -/
theorem AtTip.change (spans : writer.Spans contents) (kept : after.Spans rest)
    (follows : reader.Follows writer) (atTip : reader.AtTip writer.store.blocks.sent contents)
    (backed : ∀ push ∈ writer.task.underWay, push.side = .back → contents ≠ [])
    (permitted : writer.FollowsTip event) (change : Writer.Change writer event after) :
    reader.Advances writer.store.blocks.sent after.store.blocks.sent
      fun next => next.AtTip after.store.blocks.sent rest := by
  cases change.ring with
  | other ring firstAvailable stored evicted before done sends =>
      obtain rfl := spans.eq_of_ring kept ring
      cases sends with
      | nothing sent =>
          rw [sent]
          exact .stay rfl atTip
      | report message report sent settled =>
          obtain ⟨processed, updated, confirmed⟩ := reader.update_report report
          rw [sent]
          exact .take message _ rfl updated (atTip.frame
            (tips_concat_none (ReadWriteSyncMessage.tip_of_report report)) confirmed rfl fun _ => id)
      | removal side sent settled =>
          rw [sent]
          exact .take _ _ rfl (update_popMessage side) (atTip.frame
            (tips_concat_none (ReadWriteSyncMessage.tip_popMessage side)) rfl rfl fun _ => id)
      | confirmed slot added cause sent settled =>
          subst cause
          obtain ⟨afterTip, afterFront⟩ := permitted
          rw [spans.ring.getFrontSlot] at afterFront
          rw [sent]
          refine .take _ _ rfl rfl (atTip.announce afterTip fun last isLast => ?_)
          exact afterFront last.slot (by rw [Option.mem_def.mp isLast]; rfl)
  | popped side block popped stored evicted before done cause =>
      have sent := spans.sent_popRing popped
      rw [sent]
      refine .stay rfl ?_
      obtain ⟨rest', kept', -, back, front⟩ := spans.popRing popped
      obtain rfl := kept.ring.unique kept'
      cases side with
      | back =>
          refine atTip.frame rfl rfl rfl fun last isLast => ?_
          rw [back rfl]
          exact mem_getLast?_of_suffix (List.suffix_cons block _) isLast
      | front =>
          obtain rfl | ⟨-, wrong⟩ := cause
          · exact AtTip.of_no_tips permitted
          · cases wrong
  | pushed push cell known stage pushed stored evicted task cause =>
      have fits := spans.pushFits known
      obtain ⟨present, slot⟩ := fits.cell cell stage
      cases side : push.side with
      | front =>
          rw [side] at pushed
          obtain ⟨-, kept', -, sent, -⟩ := spans.ring.pushCell_front present
            (by rw [slot]; exact fits.front side) pushed
          obtain rfl := kept.ring.unique kept'
          have pending := follows.inProcess push (by rw [known]; rfl) side
          rw [← slot] at pending
          rw [sent]
          refine .take _ _ rfl ?_ (atTip.store pending)
          simp only [Reader.update, Reader.pushFront, pending, if_true]
      | back =>
          rw [side] at pushed
          obtain ⟨-, kept', -, sent, -⟩ := spans.ring.pushCell_back present
            (by rw [slot]; exact fits.back side) pushed
          obtain rfl := kept.ring.unique kept'
          rw [sent]
          refine .take _ { reader with blocks := reader.blocks.pushBlockBack cell } rfl rfl ?_
          refine atTip.frame (tips_concat_none rfl) rfl rfl fun last isLast => ?_
          obtain ⟨first, tail, rfl⟩ := List.exists_cons_of_ne_nil
            (backed push (by rw [known]; rfl) side)
          rwa [List.getLast?_cons_cons] at isLast
  | published side known blocks stored evicted done =>
      have same := spans.eq_of_ring kept (by rw [blocks, StoredBlocksWrite.updateTotal_blocks])
      have sent : after.store.blocks.sent = writer.store.blocks.sent := by
        rw [blocks, StoredBlocksWrite.updateTotal]
        split <;> rfl
      rw [same, sent]
      exact .stay rfl atTip

/-- A reader that has all messages is in step with the writer and at the last tip. -/
structure Confirms (first : Reader) (writer : Writer) (reader : Reader)
    (contents : List StoredBlock) : Prop where
  spans : writer.Spans contents
  updates : first.updates writer.store.blocks.sent = .ok reader
  follows : reader.Follows writer
  atTip : reader.AtTip writer.store.blocks.sent contents
  backed : ∀ push ∈ writer.task.underWay, push.side = .back → contents ≠ []

variable {first : Reader}

/-- Every permitted change has a next state of the reader. -/
theorem Confirms.change (confirms : Confirms first writer reader contents)
    (permitted : writer.FollowsTip event) (change : Writer.Change writer event after) :
    ∃ next rest, Confirms first after next rest := by
  obtain ⟨rest, kept⟩ := confirms.spans.change change
  have backed := backed_change confirms.spans kept confirms.backed permitted change
  have follows := confirms.follows.change confirms.spans change
  have atTip := confirms.atTip.change confirms.spans kept confirms.follows confirms.backed permitted
    change
  obtain ⟨next, updated, followed, reached⟩ := (follows.and atTip).updates confirms.updates
  exact ⟨next, rest, kept, updated, followed, reached, backed⟩

/-- Every run after the start keeps some reader at the last tip. -/
theorem Confirms.run (confirms : Confirms first writer reader contents)
    (run : Writer.Run Writer.FollowsTip writer after) :
    ∃ next rest, Confirms first after next rest :=
  run.invariant (fun state => ∃ next rest, Confirms first state next rest)
    ⟨reader, contents, confirms⟩
    fun _ _ _ ⟨_, _, known⟩ permitted change => known.change permitted change

/-- The reader finds the slot for each of the three requests. -/
structure AnswersConfirmed (reader : Reader) (slot : Nat) : Prop where
  block : ∀ file : StoredBlock → Bytes,
    let result := reader.answerBlock false slot fun location => some (.ok (file location))
    result = .removed ∨ result = .dead ∨ ∃ bytes, result = .block bytes
  noGap : ∀ expired file, reader.answerBlock expired slot file ≠ .notAvailable ∧
    reader.answerBlock expired slot file ≠ .readError .itemSlotMismatch
  blockTime : ∀ expired, reader.processBlockTime expired slot ≠ .notAvailable ∧
    ∀ error, reader.processBlockTime expired slot ≠ .readError error
  blocks : ∀ expired startSlot stop,
    reader.processBlocks expired startSlot stop .confirmed ≠ .readError .endSlotOutOfLimit

variable {blocks : StoredBlocksWrite} {tip slot : Nat}

/-- A slot up to the tip is in process or not above the ring. -/
theorem AtTip.located (atTip : reader.AtTip sent contents) (isTip : tip ∈ (tips sent).getLast?)
    (below : slot ≤ tip) : (∃ added, reader.inProcessBlock slot = some added) ∨
      reader.inProcessBlock slot = none ∧ ∀ last ∈ contents.getLast?, slot ≤ last.slot := by
  cases pending : reader.confirmedInProcess with
  | none =>
      refine Or.inr ⟨by simp [inProcessBlock, pending], fun last isLast => ?_⟩
      have same := atTip.settled tip isTip pending last isLast
      omega
  | some entry =>
      obtain ⟨confirmed, added⟩ := entry
      obtain ⟨rfl, follows⟩ := atTip.pending tip isTip confirmed added pending
      by_cases same : confirmed = slot
      · exact Or.inl ⟨added, by simp [inProcessBlock, pending, same]⟩
      · refine Or.inr ⟨by simp [inProcessBlock, pending, same], fun last isLast => ?_⟩
        have next := follows last isLast
        omega

/-- The scan of the ring ends at its highest slot. -/
theorem AtTip.endSlot_le (atTip : reader.AtTip sent contents) (isTip : tip ∈ (tips sent).getLast?)
    {last : StoredBlock} (isLast : last ∈ contents.getLast?) :
    reader.endSlot .confirmed ≤ last.slot := by
  have confirmed := atTip.confirmed tip isTip
  cases pending : reader.confirmedInProcess with
  | none =>
      have same := atTip.settled tip isTip pending last isLast
      simp [endSlot, pending, confirmed, same]
  | some entry =>
      have next := (atTip.pending tip isTip entry.1 entry.2 pending).2 last isLast
      simp [endSlot, pending, confirmed, next]

/-- The listing at the confirmed commitment stays inside the ring. -/
theorem AtTip.processBlocks_ne (atTip : reader.AtTip sent contents)
    (isTip : tip ∈ (tips sent).getLast?) (spans : blocks.Spans contents)
    (copy : reader.blocks = blocks.toRead) (expired : Bool) (startSlot : Nat)
    (stop : RpcRequestBlocksUntil) :
    reader.processBlocks expired startSlot stop .confirmed ≠ .readError .endSlotOutOfLimit := by
  intro wrong
  have represents : CellRing.Represents StoredBlock.newNoexists reader.blocks.blocks contents := by
    rw [copy]
    exact spans.represents
  simp only [processBlocks, StoredBlocksRead.getBackSlot, StoredBlocksRead.getBlocks,
    represents.tailCell, represents.headCell] at wrong
  rcases contents.eq_nil_or_concat with rfl | ⟨initial, last, rfl⟩
  · cases expired <;> simp at wrong
  · rw [List.concat_eq_append] at wrong spans atTip
    have present := spans.consecutive.present last (by simp)
    have reaches := atTip.endSlot_le isTip (show last ∈ (initial ++ [last]).getLast? by simp)
    cases expired with
    | true => simp at wrong
    | false =>
        simp only [Bool.false_eq_true, if_false] at wrong
        split at wrong
        · cases wrong
        · split at wrong
          · cases wrong
          · split at wrong
            · cases wrong
            · rename_i error failed
              cases wrong
              split at failed
              · cases failed
              · simp [present, reaches] at failed

/-- A reader at the tip finds every slot up to it. -/
theorem AtTip.answersConfirmed (atTip : reader.AtTip sent contents)
    (isTip : tip ∈ (tips sent).getLast?) (below : slot ≤ tip) (spans : blocks.Spans contents)
    (copy : reader.blocks = blocks.toRead) : reader.AnswersConfirmed slot := by
  have confirmed := atTip.confirmed tip isTip
  have bounded : slot ≤ reader.storageProcessed.confirmedSlot := by omega
  have located : (∃ added, reader.inProcessBlock slot = some added) ∨
      reader.inProcessBlock slot = none ∧ (reader.blocks.getBlockLocation slot = .removed ∨
        ∃ block ∈ contents, block.slot = slot ∧
          reader.blocks.getBlockLocation slot = if block.dead then .dead else .found block) := by
    rw [copy]
    exact (atTip.located isTip below).imp_right fun known =>
      ⟨known.1, spans.getBlockLocation known.2⟩
  have answers : ∀ file, reader.answerBlock false slot file = .removed ∨
      reader.answerBlock false slot file = .dead ∨
      (∃ bytes, reader.answerBlock false slot file = .block bytes) ∨
      ∃ location, reader.answerBlock false slot file = finishBlock (file location) := by
    intro file
    simp only [answerBlock, processBlock, locateBlock, Bool.false_eq_true, if_false]
    obtain ⟨added, known⟩ | ⟨none, removed | ⟨block, -, -, known⟩⟩ := located
    · rw [known]
      cases added <;> simp
    · rw [none, removed]
      simp
    · rw [none, known]
      cases block.dead with
      | true => simp
      | false => exact Or.inr (Or.inr (Or.inr ⟨block, rfl⟩))
  constructor
  · intro file
    obtain removed | dead | stored | ⟨location, read⟩ :=
      answers fun location => some (.ok (file location))
    · exact Or.inl removed
    · exact Or.inr (Or.inl dead)
    · exact Or.inr (Or.inr stored)
    · exact Or.inr (Or.inr ⟨file location, read⟩)
  · intro expired file
    cases expired with
    | true => exact ⟨by rintro ⟨⟩, by rintro ⟨⟩⟩
    | false =>
        obtain removed | dead | ⟨bytes, stored⟩ | ⟨location, read⟩ := answers file
        · simp [removed]
        · simp [dead]
        · simp [stored]
        · rw [read]
          rcases file location with _ | _ | _ <;> simp [finishBlock]
  · intro expired
    cases expired with
    | true => exact ⟨by rintro ⟨⟩, by rintro _ ⟨⟩⟩
    | false =>
        simp only [processBlockTime, locateBlockTime, Bool.false_eq_true, if_false]
        obtain ⟨added, known⟩ | ⟨none, removed | ⟨block, -, -, known⟩⟩ := located
        · rw [known]
          cases added <;> simp
        · rw [none, if_pos bounded, removed]
          simp
        · rw [none, if_pos bounded, known]
          cases block.dead <;> simp
  · exact atTip.processBlocks_ne isTip spans copy

end Reader

namespace SlotsState

variable {totalReaders : Nat} {log : List ReadWriteSyncMessage}
  {state after : SlotsState totalReaders} {events : List (SlotsEvent totalReaders)}

/-- A published slot stays published. -/
theorem published_mono (ran : run log state events = some after) {slot : Nat}
    (member : slot ∈ state.published) : slot ∈ after.published := by
  have preserved : ∀ (before : SlotsState totalReaders) event next, slot ∈ before.published →
      step log before event = some next → slot ∈ next.published := by
    intro before event next known stepped
    rcases step_cases stepped with ⟨index, message, idle, found, rfl⟩ |
      ⟨index, action, rest, busy, rfl⟩ | ⟨slot, rfl⟩
    · exact known
    · exact List.mem_append_left _ known
    · exact known
  exact run_invariant preserved member ran

/-- An idle reader has handled the tips up to the published slot. -/
theorem exists_tip (ascending : (tips log).Pairwise (· < ·)) {storedSlots : StoredSlots}
    {before later : List (SlotsEvent totalReaders)}
    (ran : run log (initial storedSlots totalReaders) before = some state)
    (published : state.published ≠ []) (continued : run log state later = some after)
    {index : Fin totalReaders} (idle : (after.readers index).todo = []) :
    ∃ tip ∈ (tips (log.take (after.readers index).position)).getLast?,
      state.shared.storedSlots.confirmed ≤ tip := by
  have publishing : Publishing log state := run_invariant
    (fun _ _ _ known stepped => known.step ascending stepped) (publishing_initial storedSlots) ran
  have publishing' : Publishing log after := run_invariant
    (fun _ _ _ known stepped => known.step ascending stepped) publishing continued
  have last : ConfirmedIsLast storedSlots.confirmed state := run_invariant
    (fun _ _ _ known stepped => known.step stepped)
    (show ConfirmedIsLast _ (initial storedSlots totalReaders) from rfl) ran
  rw [ConfirmedIsLast, List.getLast?_eq_some_getLast published, Option.getD_some] at last
  have member := published_mono continued (List.getLast_mem published)
  have executed := publishing'.reached _ member index
  rw [SlotReader.Executed, SlotReader.finished, if_pos idle, ← last] at executed
  refine exists_getLast_ge (ascending.sublist ?_) executed
  exact (List.take_sublist _ _).filterMap _

end SlotsState

namespace Writer

/-- A request that the API issues once it has observed a published confirmed slot is answered by
every reader, wherever the reader stands in the log when it takes the request. -/
theorem run_answersConfirmed (totalReaders : Nat) (db : Rocksdb) (list : List StoredBlock)
    (max : Nat) (blocks : StoredBlocksWrite) (files : StorageFilesWrite) (disk : Disk)
    (recentBlocks : List (Nat × BlockWithBinary)) (loaded : db.spawnSlots = .ok list)
    (opened : StoredBlocksWrite.new list max = .ok blocks) (final : Writer)
    (run : Run FollowsTip (start ⟨db, files, disk, blocks⟩ []) final) (storedSlots : StoredSlots)
    (before later : List (SlotsEvent totalReaders)) (observed after : SlotsState totalReaders)
    (ran : SlotsState.run final.store.blocks.sent (SlotsState.initial storedSlots totalReaders)
      before = some observed)
    (published : observed.published ≠ []) (slot : Nat)
    (below : slot ≤ observed.shared.storedSlots.confirmed)
    (continued : SlotsState.run final.store.blocks.sent observed later = some after)
    (index : Fin totalReaders) (idle : (after.readers index).todo = []) :
    ∃ reader, (Reader.init blocks.toRead recentBlocks).updates
        (final.store.blocks.sent.take (after.readers index).position) = .ok reader ∧
      reader.AnswersConfirmed slot := by
  have spans : (start ⟨db, files, disk, blocks⟩ []).Spans list := spans_start loaded opened
  have silent : blocks.sent = [] := (StoredBlocksWrite.new_fields opened).1
  have first : Reader.Confirms (Reader.init blocks.toRead recentBlocks)
      (start ⟨db, files, disk, blocks⟩ []) (Reader.init blocks.toRead recentBlocks) list := by
    refine ⟨spans, ?_, ⟨rfl, by rintro _ ⟨⟩⟩, ?_, by rintro _ ⟨⟩⟩
    · change Reader.updates _ blocks.sent = _
      rw [silent]
      rfl
    · apply Reader.AtTip.of_no_tips
      change tips blocks.sent = []
      rw [silent]
      rfl
  obtain ⟨_, _, whole⟩ := first.run run
  have ascending : (tips final.store.blocks.sent).Pairwise (· < ·) :=
    List.isChain_iff_pairwise.mp (whole.atTip.chain.imp fun low high next => by omega)
  obtain ⟨tip, isTip, least⟩ := SlotsState.exists_tip ascending ran published continued idle
  obtain ⟨point, started, -, known, settled⟩ :=
    (run.replayed spans rfl silent
      (show (Reader.init blocks.toRead recentBlocks).blocks = blocks.toRead from rfl)).earlier _
      (List.take_prefix (after.readers index).position _)
  obtain ⟨reader, contents, confirms⟩ := first.run started
  have copy := confirms.follows.blocks
  rw [settled] at copy
  have updated := confirms.updates
  have atTip := confirms.atTip
  rw [known] at updated atTip
  exact ⟨reader, updated, atTip.answersConfirmed isTip (below.trans least) confirms.spans.ring copy⟩

/-- The only reader publishes the first stored slot and answers for it. -/
theorem run_answersConfirmed_first : ∃ final reader,
    Run FollowsTip (start (emptyStore 2 10 (by decide)) []) final ∧
      (Reader.init (emptyStore 2 10 (by decide)).blocks.toRead []).updates
        (final.store.blocks.sent.take 2) = .ok reader ∧ reader.AnswersConfirmed 5 := by
  have taken : ((start (emptyStore 2 10 (by decide)) []).takeAll
      (storeFront 5 (plainBlock 4 [1, 2]))).map (fun state => state.store.blocks.sent) =
      some [.blockConfirmed 5 (some (plainBlock 4 [1, 2])),
        .confirmedBlockPushFront (.newConfirmed 5 (some 7) (some 4) 0 0 2)] := by
    rfl
  obtain ⟨final, taken, known⟩ := Option.map_eq_some_iff.mp taken
  have run : Run FollowsTip _ final := run_of_takeAll (by decide +kernel) taken
  have observed : ∃ observed after : SlotsState 1,
      SlotsState.run final.store.blocks.sent (SlotsState.initial StoredSlots.default 1)
        [.receive 0, .act 0, .act 0, .act 0] = some observed ∧ observed.published = [5] ∧
      observed.shared.storedSlots.confirmed = 5 ∧
      SlotsState.run final.store.blocks.sent observed [.receive 0] = some after ∧
      (after.readers 0).todo = [] ∧ (after.readers 0).position = 2 := by
    rw [known]
    exact ⟨_, _, rfl, by decide, by decide, rfl, by decide, by decide⟩
  obtain ⟨observed, after, ran, published, confirmed, continued, idle, position⟩ := observed
  have answers := run_answersConfirmed 1 Rocksdb.empty [] 2 _ _ _ [] rfl rfl final run
    StoredSlots.default _ _ observed after ran (by simp [published]) 5 (by rw [confirmed]) continued
    0 idle
  rw [position] at answers
  obtain ⟨reader, updated, answers⟩ := answers
  exact ⟨final, reader, run, updated, answers⟩

end Writer

end Alpamayo
