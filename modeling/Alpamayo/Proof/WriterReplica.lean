import Alpamayo.Proof.ProcessedState
import Alpamayo.Proof.WriterRing
import Alpamayo.Storage.Read

/-!
This file shows that the readers' copy of the stored blocks is the writer's ring in every run.
-/

namespace Alpamayo

variable {contents rest : List StoredBlock} {block : StoredBlock}

/-- A live block with a time has a key in the time index. -/
def StoredBlock.timeKey (block : StoredBlock) : Option BlockTimeKey :=
  if block.isLive then block.blockTime.map fun time => toLex (time, block.slot) else none

/-- The key of a block gives its time and its slot. -/
theorem StoredBlock.timeKey_eq_some_iff {time : UnixTimestamp} {slot : Nat} :
    block.timeKey = some (toLex (time, slot)) ↔
      block.isLive = true ∧ block.blockTime = some time ∧ block.slot = slot := by
  unfold timeKey
  split
  · simp_all
  · simp_all

/-- The slot of a key is the slot of its block. -/
theorem StoredBlock.slot_of_timeKey {key : BlockTimeKey} (known : block.timeKey = some key) :
    block.slot = (ofLex key).2 :=
  (timeKey_eq_some_iff.mp (known : block.timeKey = some (toLex ((ofLex key).1, (ofLex key).2)))).2.2

/-- The index gains the key of a block. -/
def insertTime (index : SortedMap BlockTimeKey Unit) (block : StoredBlock) :
    SortedMap BlockTimeKey Unit :=
  match block.timeKey with
  | some key => index.insert key ()
  | none => index

/-- The new index has the keys of the old one and the key of the block. -/
theorem containsKey_insertTime (index : SortedMap BlockTimeKey Unit) (block : StoredBlock)
    (key : BlockTimeKey) : (insertTime index block).containsKey key = true ↔
      index.containsKey key = true ∨ block.timeKey = some key := by
  unfold insertTime
  cases block.timeKey with
  | none => simp
  | some known =>
      rw [SortedMap.containsKey_insert, Option.some.injEq, or_comm, @eq_comm _ key known]

/-- The index has exactly the keys of the contents. -/
def TimeIndexed (index : SortedMap BlockTimeKey Unit) (contents : List StoredBlock) : Prop :=
  ∀ key, index.containsKey key = true ↔ ∃ block ∈ contents, block.timeKey = some key

/-- The keys of a list with one more block are the old ones and that of the block. -/
theorem exists_timeKey_iff {key : BlockTimeKey}
    (joins : ∀ other, other ∈ rest ↔ other ∈ contents ∨ other = block) :
    (∃ other ∈ rest, other.timeKey = some key) ↔
      (∃ other ∈ contents, other.timeKey = some key) ∨ block.timeKey = some key := by
  constructor
  · rintro ⟨other, member, known⟩
    obtain member | rfl := (joins other).mp member
    · exact Or.inl ⟨other, member, known⟩
    · exact Or.inr known
  · rintro (⟨other, member, known⟩ | known)
    · exact ⟨other, (joins other).mpr (Or.inl member), known⟩
    · exact ⟨block, (joins block).mpr (Or.inr rfl), known⟩

section timeIndexed

variable {index other : SortedMap BlockTimeKey Unit}

/-- The contents determine the index. -/
theorem TimeIndexed.unique (first : TimeIndexed index contents) (second : TimeIndexed other contents) :
    index = other := by
  apply SortedMap.ext_get
  intro key
  have same := (first key).trans (second key).symm
  cases found : index.get key <;> cases found' : other.get key <;>
    simp_all [SortedMap.containsKey]

/-- A block joins the index with its key. -/
theorem TimeIndexed.record {reader : StoredBlocksRead}
    (indexed : TimeIndexed reader.blockTimeIndex contents) (present : block.present = true) (joins : ∀ other, other ∈ rest ↔ other ∈ contents ∨ other = block) :
    TimeIndexed (reader.recordTime block) rest := by
  intro key
  have recorded : reader.recordTime block = insertTime reader.blockTimeIndex block := by
    simp only [StoredBlocksRead.recordTime, insertTime, StoredBlock.timeKey, StoredBlock.isLive,
      present, Bool.true_and]
    cases block.dead with
    | true => rfl
    | false => cases block.blockTime <;> rfl
  rw [exists_timeKey_iff joins, ← indexed key, recorded, containsKey_insertTime]

/-- A block leaves the index with its key. -/
theorem TimeIndexed.forget {reader : StoredBlocksRead}
    (indexed : TimeIndexed reader.blockTimeIndex contents)
    (joins : ∀ other, other ∈ contents ↔ other ∈ rest ∨ other = block)
    (apart : ∀ other ∈ rest, other.slot ≠ block.slot) :
    TimeIndexed (reader.forgetTime block) rest := by
  intro key
  have kept : (∃ other ∈ rest, other.timeKey = some key) ↔
      block.timeKey ≠ some key ∧ reader.blockTimeIndex.containsKey key = true := by
    rw [indexed key, exists_timeKey_iff joins]
    constructor
    · rintro ⟨other, member, known⟩
      refine ⟨fun same => apart other member ?_, Or.inl ⟨other, member, known⟩⟩
      rw [StoredBlock.slot_of_timeKey known, StoredBlock.slot_of_timeKey same]
    · rintro ⟨different, found | same⟩
      · exact found
      · exact absurd same different
  rw [kept]
  unfold StoredBlocksRead.forgetTime StoredBlock.timeKey
  cases live : block.isLive with
  | false => simp
  | true =>
      cases time : block.blockTime with
      | none => simp
      | some time =>
          simp only [if_true, SortedMap.containsKey_erase, Option.map_some, ne_eq, Option.some.injEq]
          rw [eq_comm]

end timeIndexed

/-- One round of the loop adds the key of its cell. -/
theorem toReadLoop_succ (ring : CellRing StoredBlock) (fuel : Nat) (place : Fin ring.size)
    (index : SortedMap BlockTimeKey Unit) :
    StoredBlocksWrite.toReadLoop ring (fuel + 1) place index =
      if place = ring.head then insertTime index (ring.cells place)
      else StoredBlocksWrite.toReadLoop ring fuel (ring.next place)
        (insertTime index (ring.cells place)) := by
  simp only [StoredBlocksWrite.toReadLoop, insertTime, StoredBlock.timeKey]
  cases (ring.cells place).isLive with
  | false => rfl
  | true => cases (ring.cells place).blockTime <;> rfl

/-- The loop of the writer adds the keys of the contents from its start on. -/
theorem toReadLoop_containsKey {ring : CellRing StoredBlock}
    (represents : CellRing.Represents StoredBlock.newNoexists ring contents)
    {count fuel : Nat} (inside : count < contents.length) (enough : contents.length ≤ count + fuel)
    (index : SortedMap BlockTimeKey Unit) (key : BlockTimeKey) :
    (StoredBlocksWrite.toReadLoop ring fuel (ring.offset count) index).containsKey key = true ↔
      index.containsKey key = true ∨ ∃ block ∈ contents.drop count, block.timeKey = some key := by
  have fits := represents.fits
  induction fuel generalizing count index with
  | zero => omega
  | succ fuel ih =>
      have value : ring.cells (ring.offset count) = contents[count] := by
        rw [represents.cell count (by omega), List.getD_eq_getElem _ _ inside]
      rw [toReadLoop_succ, value, represents.head_eq (by omega), List.drop_eq_getElem_cons inside]
      by_cases last : count + 1 = contents.length
      · rw [if_pos (by rw [← last]; rfl), containsKey_insertTime, List.drop_of_length_le (by omega)]
        simp
      · have apart : ring.offset count ≠ ring.offset (contents.length - 1) := by
          intro equal
          have := ring.offset_injective (by omega) (by omega) equal
          omega
        rw [if_neg apart, ring.next_offset (by omega)]
        refine (ih (by omega) (by omega) _).trans ?_
        rw [containsKey_insertTime]
        simp only [List.mem_cons, exists_eq_or_imp, or_assoc]

/-- The copy of a ring has an index with exactly the keys of its contents. -/
theorem StoredBlocksWrite.Spans.toRead_indexed {blocks : StoredBlocksWrite}
    (spans : blocks.Spans contents) : TimeIndexed blocks.toRead.blockTimeIndex contents := by
  intro key
  have tailCell := spans.represents.tailCell
  simp only [StoredBlocksWrite.toRead, tailCell]
  cases contents with
  | nil => simp [SortedMap.containsKey]
  | cons first rest =>
      have fits := spans.represents.fits
      rw [if_pos (by simpa using spans.consecutive.present first (by simp)),
        ← blocks.blocks.offset_zero, toReadLoop_containsKey spans.represents (by simp) (by omega)]
      simp [SortedMap.containsKey]

section toRead

variable {blocks after : StoredBlocksWrite} {cell : StoredBlock}

/-- Two copies with one ring and one index are equal. -/
theorem StoredBlocksRead.eq_of {first second : StoredBlocksRead}
    (ring : first.blocks = second.blocks) (times : first.blockTimeIndex = second.blockTimeIndex) :
    first = second := by
  cases first
  cases second
  cases ring
  cases times
  rfl

/-- The copy depends on the ring only. -/
theorem StoredBlocksWrite.toRead_congr (ring : after.blocks = blocks.blocks) :
    after.toRead = blocks.toRead := by
  unfold toRead
  rw [ring]

/-- The slots of consecutive contents are distinct. -/
theorem Consecutive.slot_ne (consecutive : Consecutive contents) {low high : Nat}
    {first second : StoredBlock} (firstPlace : contents[low]? = some first)
    (secondPlace : contents[high]? = some second) (less : low < high) : first.slot ≠ second.slot := by
  obtain ⟨below, rfl⟩ := List.getElem?_eq_some_iff.mp firstPlace
  obtain ⟨inside, rfl⟩ := List.getElem?_eq_some_iff.mp secondPlace
  rw [consecutive.slot_getElem inside, consecutive.slot_getElem below]
  omega

/-- The side selects the removal from the copy. -/
def StoredBlocksRead.popBlock (self : StoredBlocksRead) : VecSide → StoredBlocksRead
  | .back => self.popBlockBack
  | .front => self.popBlockFront

/-- The copy follows the removal at the back. -/
theorem StoredBlocksWrite.Spans.toRead_popBack (spans : blocks.Spans contents)
    (popped : blocks.popBlockBack = some (block, after)) :
    blocks.toRead.popBlockBack = after.toRead := by
  obtain ⟨rest, rfl, kept, ring, -, -⟩ := spans.popBlockBack popped
  have cell : blocks.blocks.cells blocks.blocks.tail = block := spans.represents.tailCell
  apply StoredBlocksRead.eq_of
  · exact ring.symm
  · change blocks.toRead.forgetTime (blocks.blocks.cells blocks.blocks.tail) = _
    rw [cell]
    apply TimeIndexed.unique _ kept.toRead_indexed
    apply spans.toRead_indexed.forget
    · intro other
      rw [List.mem_cons, or_comm]
    · intro other member
      obtain ⟨index, place⟩ := List.mem_iff_getElem?.mp member
      have first : (block :: rest)[0]? = some block := rfl
      have apart := spans.consecutive.slot_ne first (List.getElem?_cons_succ.trans place)
        (Nat.succ_pos index)
      exact apart.symm

/-- The copy follows the removal at the front. -/
theorem StoredBlocksWrite.Spans.toRead_popFront (spans : blocks.Spans contents)
    (popped : blocks.popBlockFront = some (block, after)) :
    blocks.toRead.popBlockFront = after.toRead := by
  obtain ⟨rest, rfl, kept, ring, -, -⟩ := spans.popBlockFront popped
  have cell : blocks.blocks.cells blocks.blocks.head = block := by
    simpa using spans.represents.headCell
  apply StoredBlocksRead.eq_of
  · exact ring.symm
  · change blocks.toRead.forgetTime (blocks.blocks.cells blocks.blocks.head) = _
    rw [cell]
    apply TimeIndexed.unique _ kept.toRead_indexed
    apply spans.toRead_indexed.forget
    · intro other
      rw [List.mem_append, List.mem_singleton]
    · intro other member
      obtain ⟨index, inside, rfl⟩ := List.getElem_of_mem member
      have place : (rest ++ [block])[index]? = some rest[index] := by
        rw [List.getElem?_append_left inside, List.getElem?_eq_getElem inside]
      exact spans.consecutive.slot_ne place List.getElem?_concat_length inside

/-- The copy follows a new cell at the front. -/
theorem StoredBlocksWrite.Spans.toRead_pushFront (spans : blocks.Spans contents)
    (kept : after.Spans (contents ++ [cell])) (present : cell.present = true)
    (ring : after.blocks = blocks.blocks.pushFront cell) :
    blocks.toRead.pushBlockFront cell = after.toRead := by
  apply StoredBlocksRead.eq_of ring.symm
  apply TimeIndexed.unique _ kept.toRead_indexed
  apply spans.toRead_indexed.record present
  intro other
  rw [List.mem_append, List.mem_singleton]

/-- The copy follows a new cell at the back. -/
theorem StoredBlocksWrite.Spans.toRead_pushBack (spans : blocks.Spans contents)
    (kept : after.Spans (cell :: contents)) (present : cell.present = true)
    (ring : after.blocks = blocks.blocks.pushBack cell) :
    blocks.toRead.pushBlockBack cell = after.toRead := by
  apply StoredBlocksRead.eq_of ring.symm
  apply TimeIndexed.unique _ kept.toRead_indexed
  apply spans.toRead_indexed.record present
  intro other
  rw [List.mem_cons, or_comm]

/-- The lookup of a slot up to the highest stored one finds its cell, or the slot was removed. -/
theorem StoredBlocksWrite.Spans.getBlockLocation (spans : blocks.Spans contents) {slot : Nat}
    (below : ∀ last ∈ contents.getLast?, slot ≤ last.slot) :
    blocks.toRead.getBlockLocation slot = .removed ∨ ∃ block ∈ contents, block.slot = slot ∧
      blocks.toRead.getBlockLocation slot = if block.dead then .dead else .found block := by
  have tailCell := spans.represents.tailCell
  have headCell := spans.represents.headCell
  have fits := spans.represents.fits
  cases contents with
  | nil => simp [StoredBlocksRead.getBlockLocation, StoredBlocksWrite.toRead, tailCell]
  | cons first rest =>
      have firstPresent := spans.consecutive.present first (by simp)
      obtain ⟨initial, last, split⟩ : ∃ initial last, first :: rest = initial ++ [last] :=
        ⟨_, _, (List.dropLast_append_getLast (List.cons_ne_nil first rest)).symm⟩
      have lastPresent := spans.consecutive.present last (by rw [split]; simp)
      have lastCell : blocks.blocks.cells blocks.blocks.head = last := by
        rw [headCell, split]
        simp
      have lastSlot := below last (by rw [split]; simp)
      have within : initial.length < (first :: rest).length := by
        rw [split]
        simp
      have top := spans.consecutive.slot_getElem within
      have isLast : (first :: rest)[initial.length] = last := by
        simp [split]
      rw [isLast, List.getElem_cons_zero] at top
      by_cases low : slot < first.slot
      · simp [StoredBlocksRead.getBlockLocation, StoredBlocksWrite.toRead, tailCell, low]
      · have inside : slot - first.slot < (first :: rest).length := by
          rw [split, List.length_append, List.length_singleton]
          omega
        have found := spans.consecutive.slot_getElem inside
        rw [List.getElem_cons_zero] at found
        have cell := spans.represents.cell (slot - first.slot) (by omega)
        rw [List.getD_eq_getElem _ _ inside] at cell
        refine Or.inr ⟨_, List.getElem_mem inside, by omega, ?_⟩
        have present := spans.consecutive.present _ (List.getElem_mem inside)
        simp only [StoredBlocksRead.getBlockLocation, StoredBlocksWrite.toRead, tailCell,
          List.getD_cons_zero, firstPresent, lastCell, lastPresent, cell, present, low]
        simp [not_lt.mpr lastSlot, show first.slot + (slot - first.slot) = slot by omega, found]

end toRead

/-- A finished removal waits for nothing. -/
theorem Writer.resume_unannounced (push : Option Push) : (resume push).unannounced = none := by
  cases push <;> rfl

namespace Reader

/-- A reader applies the messages one after another. -/
def updates (self : Reader) : List ReadWriteSyncMessage → Except ReaderError Reader
  | [] => .ok self
  | message :: rest => self.update message >>= fun next => next.updates rest

/-- The messages in two parts are applied one part after the other. -/
theorem updates_append (self : Reader) (first second : List ReadWriteSyncMessage) :
    self.updates (first ++ second) = self.updates first >>= fun next => next.updates second := by
  induction first generalizing self with
  | nil => rfl
  | cons message rest ih =>
      rw [List.cons_append, updates, updates]
      cases self.update message with
      | error error => rfl
      | ok next => exact ih next

/-- The reader applies the message that was added to the log, if there is one. -/
inductive Advances (reader : Reader) (before after : List ReadWriteSyncMessage)
    (holds : Reader → Prop) : Prop where
  | stay (same : after = before) (kept : holds reader)
  | take (message : ReadWriteSyncMessage) (next : Reader) (sent : after = before ++ [message])
      (updated : reader.update message = .ok next) (kept : holds next)

section advances

variable {reader first : Reader} {before after : List ReadWriteSyncMessage}
  {holds other : Reader → Prop}

/-- There is only one way to advance. -/
theorem Advances.and (one : reader.Advances before after holds)
    (two : reader.Advances before after other) :
    reader.Advances before after fun next => holds next ∧ other next := by
  cases one with
  | stay same kept =>
      cases two with
      | stay same' kept' => exact .stay same ⟨kept, kept'⟩
      | take message next sent updated kept' => simp [same] at sent
  | take message next sent updated kept =>
      cases two with
      | stay same kept' => simp [same] at sent
      | take message' next' sent' updated' kept' =>
          rw [sent, List.append_cancel_left_eq, List.cons.injEq] at sent'
          rw [← sent'.1, updated] at updated'
          cases updated'
          exact .take message next sent updated ⟨kept, kept'⟩

/-- The reader that has the whole log has the longer log afterwards. -/
theorem Advances.updates (advances : reader.Advances before after holds)
    (updated : first.updates before = .ok reader) :
    ∃ next, first.updates after = .ok next ∧ holds next := by
  cases advances with
  | stay same kept => exact ⟨reader, by rw [same, updated], kept⟩
  | take message next sent applied kept =>
      refine ⟨next, ?_, kept⟩
      rw [sent, Reader.updates_append, updated]
      change reader.update message >>= _ = _
      rw [applied]
      rfl

end advances

/-- The reader has all messages; a removal without its message is the last difference. -/
structure Follows (reader : Reader) (writer : Writer) : Prop where
  blocks : (match writer.task.unannounced with
    | none => reader.blocks
    | some side => reader.blocks.popBlock side) = writer.store.blocks.toRead
  inProcess : ∀ push ∈ writer.task.underWay, push.side = .front →
    reader.confirmedInProcess = some (push.slot, push.block)

variable {reader : Reader} {writer after : Writer} {event : WriterEvent}

/-- A change outside of the ring and the messages keeps the reader in step. -/
theorem Follows.same (follows : reader.Follows writer)
    (ring : after.store.blocks.blocks = writer.store.blocks.blocks)
    (task : after.task.unannounced = writer.task.unannounced)
    (pushes : ∀ next ∈ after.task.underWay, ∃ push ∈ writer.task.underWay,
      push.side = next.side ∧ push.slot = next.slot ∧ push.block = next.block) :
    reader.Follows after := by
  constructor
  · rw [task, StoredBlocksWrite.toRead_congr ring]
    exact follows.blocks
  · intro next member front
    obtain ⟨push, known, side, slot, block⟩ := pushes next member
    rw [← slot, ← block]
    exact follows.inProcess push known (side.trans front)

/-- A report changes neither the copy nor the confirmed block nor the confirmed slot. -/
theorem update_report (reader : Reader) {message : ReadWriteSyncMessage}
    (report : message.isReport = true) :
    ∃ processed, reader.update message = .ok { reader with storageProcessed := processed } ∧
      processed.confirmedSlot = reader.storageProcessed.confirmedSlot := by
  cases message with
  | blockNew slot block => exact ⟨_, rfl, by simp⟩
  | blockDead slot => exact ⟨_, rfl, (StorageProcessed.markDead_frame _ slot).2.1⟩
  | slotFinalized slot =>
      obtain ⟨_, _, same⟩ := StorageProcessed.setFinalized_eq reader.storageProcessed slot
      exact ⟨_, rfl, by rw [same]⟩
  | _ => cases report

/-- The message of a removal removes the block from the copy. -/
theorem update_popMessage (side : VecSide) :
    reader.update (.popMessage side) = .ok { reader with blocks := reader.blocks.popBlock side } := by
  cases side <;> rfl

/-- A removal that leaves the ring waits for its message. -/
theorem Follows.popRing (spans : writer.Spans contents) (follows : reader.Follows writer)
    (settled : writer.task.unannounced = none) {side : VecSide} {blocks : StoredBlocksWrite}
    (popped : writer.store.popRing side = some (block, blocks)) :
    reader.blocks.popBlock side = blocks.toRead := by
  have same := follows.blocks
  rw [settled] at same
  dsimp only at same
  rw [same]
  cases side with
  | back => exact spans.ring.toRead_popBack popped
  | front => exact spans.ring.toRead_popFront popped

/-- The message of a new cell is applied to the copy. -/
theorem Follows.pushCell (spans : writer.Spans contents) (follows : reader.Follows writer)
    {push : Push} {cell : StoredBlock} {blocks : StoredBlocksWrite}
    (known : writer.task = .push push) (stage : push.stage = .recorded cell)
    (stored : writer.store.blocks.pushCell push.side cell = some blocks) :
    ∃ message next, blocks.sent = writer.store.blocks.sent ++ [message] ∧
      reader.update message = .ok next ∧ next.blocks = blocks.toRead := by
  have fits := spans.pushFits known
  obtain ⟨present, slot⟩ := fits.cell cell stage
  have same := follows.blocks
  rw [known] at same
  change reader.blocks = _ at same
  cases side : push.side with
  | front =>
      rw [side] at stored
      obtain ⟨-, kept, ring, sent, -⟩ := spans.ring.pushCell_front present
        (by rw [slot]; exact fits.front side) stored
      have inProcess := follows.inProcess push (by rw [known]; rfl) side
      refine ⟨_, { reader with
        confirmedInProcess := none
        blocks := reader.blocks.pushBlockFront cell }, sent, ?_, ?_⟩
      · simp only [Reader.update, Reader.pushFront, inProcess, slot, if_true]
      · change reader.blocks.pushBlockFront cell = _
        rw [same]
        exact spans.ring.toRead_pushFront kept present ring
  | back =>
      rw [side] at stored
      obtain ⟨-, kept, ring, sent, -⟩ := spans.ring.pushCell_back present
        (by rw [slot]; exact fits.back side) stored
      refine ⟨_, { reader with blocks := reader.blocks.pushBlockBack cell }, sent, rfl, ?_⟩
      change reader.blocks.pushBlockBack cell = _
      rw [same]
      exact spans.ring.toRead_pushBack kept present ring

/-- A reader that has all messages stays in step with the writer. -/
theorem Follows.change (spans : writer.Spans contents) (follows : reader.Follows writer)
    (change : Writer.Change writer event after) :
    reader.Advances writer.store.blocks.sent after.store.blocks.sent fun next =>
      next.Follows after := by
  have blocks := follows.blocks
  cases change with
  | send message idle report =>
      obtain ⟨processed, updated, -⟩ := reader.update_report report
      rw [idle] at blocks
      refine .take message _ rfl updated ⟨?_, ?_⟩
      · rw [idle]
        exact blocks
      · rw [idle]
        rintro _ ⟨⟩
  | popEmpty side idle empty =>
      exact .stay rfl (follows.same rfl (by rw [idle]; rfl) (by rintro _ ⟨⟩))
  | popBlock side block popped' idle popped =>
      refine .stay (spans.sent_popRing popped) ⟨?_, by rintro _ ⟨⟩⟩
      exact follows.popRing spans (by rw [idle]; rfl) popped
  | frontRefused slot added idle =>
      rw [idle] at blocks
      exact .take _ _ rfl rfl ⟨blocks, by rintro _ ⟨⟩⟩
  | pushBlockFront slot added idle checked =>
      rw [idle] at blocks
      refine .take _ _ rfl rfl ⟨blocks, ?_⟩
      rintro _ ⟨⟩ -
      rfl
  | backRefused slot added task idle ends =>
      refine .stay rfl (follows.same rfl ?_ ?_)
      · rw [idle]
        obtain rfl | rfl := ends <;> rfl
      · obtain rfl | rfl := ends <;> rintro _ ⟨⟩
  | pushBlockBack slot added idle checked room =>
      rw [idle] at blocks
      refine .stay rfl ⟨blocks, ?_⟩
      rintro _ ⟨⟩ ⟨⟩
  | announce side block push known =>
      rw [known] at blocks
      refine .take _ _ rfl (update_popMessage side) ⟨blocks, ?_⟩
      intro waiting member
      exact follows.inProcess waiting (by rw [known]; exact member)
  | removeFailed side block push error known failed =>
      exact .stay rfl (follows.same rfl (by rw [known]; rfl) (by rintro _ ⟨⟩))
  | remove side block push db known removed =>
      refine .stay rfl (follows.same rfl (by rw [known]; rfl) fun next member => ?_)
      exact ⟨next, by rw [known]; exact member, rfl, rfl, rfl⟩
  | freeEmpty side block push known empty =>
      refine .stay rfl (follows.same rfl ?_ fun next member => ?_)
      · rw [known]
        exact Writer.resume_unannounced push
      · rw [Writer.resume_underWay] at member
        exact ⟨next, by rw [known]; exact member, rfl, rfl, rfl⟩
  | freeFailed side block push error files known nonempty failed =>
      exact .stay rfl (follows.same rfl (by rw [known]; rfl) (by rintro _ ⟨⟩))
  | free side block push files known nonempty freed =>
      refine .stay rfl (follows.same rfl ?_ fun next member => ?_)
      · rw [known]
        exact Writer.resume_unannounced push
      · rw [Writer.resume_underWay] at member
        exact ⟨next, by rw [known]; exact member, rfl, rfl, rfl⟩
  | evictEmpty push next files known front evicts empty =>
      exact .stay rfl (follows.same rfl (by rw [known]; rfl) (by rintro _ ⟨⟩))
  | evict push next files block popped' known front evicts popped =>
      obtain ⟨slot, -, -, added, -⟩ := evicts.next
      refine .stay (spans.sent_popRing popped) ⟨?_, ?_⟩
      · exact follows.popRing spans (by rw [known]; rfl) popped
      · rintro _ ⟨⟩ -
        rw [slot, added]
        exact follows.inProcess push (by rw [known]; rfl) front
  | roomy side slot added indexed known room =>
      refine .stay rfl (follows.same rfl (by rw [known]; rfl) ?_)
      rintro _ ⟨⟩
      exact ⟨⟨side, slot, added, .room, indexed⟩, by rw [known]; rfl, rfl, rfl, rfl⟩
  | index push next store known indexed =>
      obtain ⟨added, -, -, -, rfl, rfl⟩ := Push.addIndexes_eq indexed
      refine .stay rfl (follows.same rfl (by rw [known]; rfl) ?_)
      rintro _ ⟨⟩
      exact ⟨push, by rw [known]; rfl, rfl, rfl, rfl⟩
  | indexDuring side block stage push next store known indexed =>
      obtain ⟨added, -, -, -, rfl, rfl⟩ := Push.addIndexes_eq indexed
      refine .stay rfl (follows.same rfl (by rw [known]; cases stage <;> rfl) ?_)
      rintro _ ⟨⟩
      exact ⟨push, by rw [known]; rfl, rfl, rfl, rfl⟩
  | tear chosen push added place files disk known stage isBlock placed =>
      exact .stay rfl (follows.same rfl rfl fun next member => ⟨next, member, rfl, rfl, rfl⟩)
  | writeFailed push added error files disk known stage isBlock failed =>
      exact .stay rfl (follows.same rfl (by rw [known]; rfl) (by rintro _ ⟨⟩))
  | writeRefused push added files known stage isBlock back refused =>
      refine .stay rfl (follows.same rfl (by rw [known]; rfl) ?_)
      rintro _ ⟨⟩
      exact ⟨push, by rw [known]; rfl, rfl, rfl, rfl⟩
  | write push added storageId offset files disk known stage isBlock placed =>
      refine .stay rfl (follows.same rfl (by rw [known]; rfl) ?_)
      rintro _ ⟨⟩
      exact ⟨push, by rw [known]; rfl, rfl, rfl, rfl⟩
  | refuse side slot added known =>
      exact .stay rfl (follows.same rfl (by rw [known]; rfl) (by rintro _ ⟨⟩))
  | recordDead push known stage noBlock =>
      refine .stay rfl (follows.same rfl (by rw [known]; rfl) ?_)
      rintro _ ⟨⟩
      exact ⟨push, by rw [known]; rfl, rfl, rfl, rfl⟩
  | record push added storageId offset known stage isBlock indexed =>
      refine .stay rfl (follows.same rfl (by rw [known]; rfl) ?_)
      rintro _ ⟨⟩
      exact ⟨push, by rw [known]; rfl, rfl, rfl, rfl⟩
  | storeFailed push cell known stage failed =>
      exact .stay rfl (follows.same rfl (by rw [known]; rfl) (by rintro _ ⟨⟩))
  | store push cell stored' known stage stored =>
      obtain ⟨message, next, sent, updated, same⟩ := follows.pushCell spans known stage stored
      exact .take message next sent updated ⟨same, by rintro _ ⟨⟩⟩
  | publish side known =>
      refine .stay ?_ (follows.same (by simp) (by rw [known]; rfl) (by rintro _ ⟨⟩))
      unfold StoredBlocksWrite.updateTotal
      split <;> rfl

end Reader

/-- The present blocks of the contents are the present cells of the ring. -/
theorem StoredBlocksWrite.Spans.mem_iff {blocks : StoredBlocksWrite} (spans : blocks.Spans contents)
    (present : block.present = true) : block ∈ contents ↔ ∃ index, blocks.blocks.cells index = block := by
  have fits := spans.represents.fits
  constructor
  · intro member
    obtain ⟨count, inside, rfl⟩ := List.getElem_of_mem member
    refine ⟨blocks.blocks.offset count, ?_⟩
    rw [spans.represents.cell count (by omega), List.getD_eq_getElem _ _ inside]
  · rintro ⟨index, rfl⟩
    obtain ⟨count, bound, rfl⟩ := blocks.blocks.exists_offset index
    rw [spans.represents.cell count bound] at present ⊢
    by_cases inside : count < contents.length
    · rw [List.getD_eq_getElem _ _ inside]
      exact List.getElem_mem inside
    · rw [List.getD_eq_default _ _ (by omega)] at present
      cases present

/-- The copy of a reader is that of the ring, and its index has the times of the live blocks. -/
structure StoredBlocksRead.Replicates (copy : StoredBlocksRead) (blocks : StoredBlocksWrite) :
    Prop where
  toRead : copy = blocks.toRead
  times : ∀ time slot, copy.blockTimeIndex.containsKey (toLex (time, slot)) = true ↔
    ∃ index, (blocks.blocks.cells index).isLive = true ∧
      (blocks.blocks.cells index).blockTime = some time ∧ (blocks.blocks.cells index).slot = slot

/-- The copy of the ring itself replicates it. -/
theorem StoredBlocksWrite.Spans.replicates {blocks : StoredBlocksWrite}
    (spans : blocks.Spans contents) : blocks.toRead.Replicates blocks where
  toRead := rfl
  times := by
    intro time slot
    rw [spans.toRead_indexed (toLex (time, slot))]
    simp only [StoredBlock.timeKey_eq_some_iff]
    constructor
    · rintro ⟨block, member, live, known⟩
      obtain ⟨index, rfl⟩ := (spans.mem_iff (spans.consecutive.present block member)).mp member
      exact ⟨index, live, known⟩
    · rintro ⟨index, live, known⟩
      have present : (blocks.blocks.cells index).present = true := by
        rw [StoredBlock.isLive, Bool.and_eq_true] at live
        exact live.1
      exact ⟨_, (spans.mem_iff present).mpr ⟨index, rfl⟩, live, known⟩

namespace Writer

variable {allowed : Writer → WriterEvent → Prop} {first final : Writer} {reader : Reader}

/-- A reader follows each state of a run, and each part of the log is that of an earlier state. -/
structure Replayed (allowed : Writer → WriterEvent → Prop) (first : Writer) (reader : Reader)
    (state : Writer) : Prop where
  spans : ∃ contents, state.Spans contents
  replay : ∃ next, reader.updates state.store.blocks.sent = .ok next ∧ next.Follows state
  earlier : ∀ messages, messages <+: state.store.blocks.sent → ∃ before, Run allowed first before ∧
    Run allowed before state ∧ before.store.blocks.sent = messages ∧ before.task.unannounced = none

/-- A message is sent only when no removal waits for its own. -/
theorem Change.settled {self after : Writer} {event : WriterEvent} {contents : List StoredBlock}
    (spans : self.Spans contents) (change : Change self event after)
    (sent : after.store.blocks.sent ≠ self.store.blocks.sent) : after.task.unannounced = none := by
  cases change.ring with
  | other ring firstAvailable stored evicted before done sends =>
      cases sends with
      | nothing same => exact absurd same sent
      | report message report sent settled => exact settled
      | removal side sent settled => exact settled
      | confirmed slot block cause sent settled => exact settled
  | popped side block popped stored evicted before done cause =>
      exact absurd (spans.sent_popRing popped) sent
  | pushed push cell known stage pushed stored evicted task cause =>
      rw [task]
      rfl
  | published side known blocks stored evicted done =>
      rw [blocks, StoredBlocksWrite.updateTotal_sent] at sent
      exact absurd rfl sent

/-- A step adds at most one message, which the reader can apply. -/
theorem Replayed.next {state after : Writer} (replayed : Replayed allowed first reader state)
    (run : Run allowed first state) (stepped : Next allowed state after) :
    Replayed allowed first reader after := by
  obtain ⟨contents, spans⟩ := replayed.spans
  obtain ⟨next, updated, follows⟩ := replayed.replay
  obtain ⟨event, permitted, taken⟩ := id stepped
  have change := change_of_step taken
  have advances := follows.change spans change
  refine ⟨spans.change change, advances.updates updated, fun messages part => ?_⟩
  have earlier : messages <+: state.store.blocks.sent ∨ messages = after.store.blocks.sent ∧
      after.store.blocks.sent ≠ state.store.blocks.sent := by
    cases advances with
    | stay same kept => exact Or.inl (same ▸ part)
    | take message last sent applied kept =>
        rw [sent] at part ⊢
        obtain whole | part := List.prefix_concat_iff.mp part
        · exact Or.inr ⟨whole, by simp⟩
        · exact Or.inl part
  obtain part | ⟨whole, longer⟩ := earlier
  · obtain ⟨before, started, reaches, rest⟩ := replayed.earlier messages part
    exact ⟨before, started, reaches.tail stepped, rest⟩
  · exact ⟨after, run.tail stepped, .refl, whole.symm, change.settled spans longer⟩

/-- A reader that starts with the copy of an idle writer follows every run. -/
theorem Run.replayed (run : Run allowed first final) {contents : List StoredBlock}
    (spans : first.Spans contents) (idle : first.task = .idle)
    (silent : first.store.blocks.sent = []) (copy : reader.blocks = first.store.blocks.toRead) :
    Replayed allowed first reader final := by
  induction run with
  | refl =>
      refine ⟨⟨contents, spans⟩, ⟨reader, by rw [silent]; rfl, ?_, ?_⟩, fun messages part => ?_⟩
      · rw [idle]
        exact copy
      · rw [idle]
        rintro _ ⟨⟩
      · rw [silent, List.prefix_nil] at part
        exact ⟨first, .refl, .refl, by rw [silent, part], by rw [idle]; rfl⟩
  | tail run stepped ih => exact ih.next run stepped

/-- A reader that applied some of the messages has the copy of an earlier state. -/
theorem Run.copied (run : Run allowed first final) (reader : Reader) {contents : List StoredBlock}
    (spans : first.Spans contents) (idle : first.task = .idle) (silent : first.store.blocks.sent = [])
    (copy : reader.blocks = first.store.blocks.toRead) {messages : List ReadWriteSyncMessage}
    (applied : messages <+: final.store.blocks.sent) :
    ∃ (next : Reader) (state : Writer) (rest : List StoredBlock), Run allowed first state ∧
      reader.updates messages = .ok next ∧ next.blocks = state.store.blocks.toRead ∧
      state.Spans rest := by
  have replayed : ∀ state, Run allowed first state → Replayed allowed first reader state :=
    fun state reaches => reaches.replayed spans idle silent copy
  obtain ⟨state, started, -, known, settled⟩ := (replayed final run).earlier messages applied
  obtain ⟨rest, whole⟩ := (replayed state started).spans
  obtain ⟨next, updated, follows⟩ := (replayed state started).replay
  rw [known] at updated
  have blocks := follows.blocks
  rw [settled] at blocks
  exact ⟨next, state, rest, started, updated, blocks, whole⟩

/-- For every run from the initial message on, a reader that applied some of the messages, in their
order, has met no error and has the copy that the writer would make at that point of the run. -/
theorem run_replicates (db : Rocksdb) (list : List StoredBlock) (max : Nat)
    (blocks : StoredBlocksWrite) (files : StorageFilesWrite) (disk : Disk)
    (recentBlocks : List (Nat × BlockWithBinary)) (loaded : db.spawnSlots = .ok list)
    (opened : StoredBlocksWrite.new list max = .ok blocks) (final : Writer)
    (run : Run (fun _ _ => True) (start ⟨db, files, disk, blocks⟩ []) final)
    (messages : List ReadWriteSyncMessage) (applied : messages <+: final.store.blocks.sent) :
    ∃ reader, (Reader.init blocks.toRead recentBlocks).updates messages = .ok reader ∧
      (∃ state, Run (fun _ _ => True) (start ⟨db, files, disk, blocks⟩ []) state ∧
        Run (fun _ _ => True) state final ∧ state.store.blocks.sent = messages ∧
        state.task.unannounced = none) ∧
      ∀ state, Run (fun _ _ => True) (start ⟨db, files, disk, blocks⟩ []) state →
        state.store.blocks.sent = messages → state.task.unannounced = none →
        reader.blocks.Replicates state.store.blocks := by
  have spans : (start ⟨db, files, disk, blocks⟩ []).Spans list := spans_start loaded opened
  have silent : blocks.sent = [] := (StoredBlocksWrite.new_fields opened).1
  have replays : ∀ state, Run (fun _ _ => True) (start ⟨db, files, disk, blocks⟩ []) state →
      Replayed (fun _ _ => True) (start ⟨db, files, disk, blocks⟩ [])
        (Reader.init blocks.toRead recentBlocks) state :=
    fun state reaches => reaches.replayed spans rfl silent rfl
  obtain ⟨point, started, reaches, known, settled⟩ := (replays final run).earlier messages applied
  obtain ⟨reader, updated, -⟩ := (replays point started).replay
  rw [known] at updated
  refine ⟨reader, updated, ⟨point, started, reaches, known, settled⟩, ?_⟩
  intro state reached same quiet
  obtain ⟨contents, whole⟩ := (replays state reached).spans
  obtain ⟨other, updated', follows⟩ := (replays state reached).replay
  rw [same, updated] at updated'
  cases updated'
  have copy := follows.blocks
  rw [quiet] at copy
  change reader.blocks = _ at copy
  rw [copy]
  exact whole.ring.replicates

/-- A reader follows the first stored block. -/
theorem run_replicates_first : ∃ final reader,
    Run (fun _ _ => True) (start (emptyStore 2 10 (by decide)) []) final ∧
      final.store.blocks.sent.length = 2 ∧
      (Reader.init (emptyStore 2 10 (by decide)).blocks.toRead []).updates final.store.blocks.sent =
        .ok reader ∧
      reader.blocks.Replicates final.store.blocks := by
  have taken : ((start (emptyStore 2 10 (by decide)) []).takeAll
      (storeFront 5 (plainBlock 4 [1, 2]))).map
        (fun state => (state.store.blocks.sent.length, state.task)) = some (2, .idle) := by
    decide +kernel
  obtain ⟨final, taken, known⟩ := Option.map_eq_some_iff.mp taken
  have run := run_of_takeAll (permits_any _ _) taken
  obtain ⟨reader, updated, -, replicates⟩ := run_replicates Rocksdb.empty [] 2 _ _ _ [] rfl rfl final
    run final.store.blocks.sent (List.prefix_refl _)
  have idle := congrArg Prod.snd known
  refine ⟨final, reader, run, congrArg Prod.fst known, updated, replicates final run rfl ?_⟩
  rw [show final.task = .idle from idle]
  rfl

end Writer

end Alpamayo
