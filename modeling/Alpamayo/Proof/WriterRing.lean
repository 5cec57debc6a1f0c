import Alpamayo.Proof.BlocksDeque
import Alpamayo.Proof.WriterSteps

/-!
This file shows that the ring of the writer has consecutive contents in every state of a run.
-/

namespace Alpamayo

variable {contents rest : List StoredBlock} {block cell : StoredBlock}

/-- Two descriptions of one ring have the same length or the second is longer. -/
theorem Consecutive.length_le {ring : CellRing StoredBlock} (consecutive : Consecutive rest)
    (first : CellRing.Represents StoredBlock.newNoexists ring contents)
    (second : CellRing.Represents StoredBlock.newNoexists ring rest) :
    rest.length ≤ contents.length := by
  have fits := second.fits
  by_contra longer
  have read := first.cell contents.length (by omega)
  rw [second.cell _ (by omega), List.getD_eq_getElem _ _ (by omega),
    List.getD_eq_default _ _ (le_refl _)] at read
  have present := consecutive.present _ (List.getElem_mem (show contents.length < rest.length by omega))
  rw [read] at present
  cases present

namespace StoredBlocksWrite

variable {self after : StoredBlocksWrite}

/-- The ring determines its contents. -/
theorem Spans.unique (first : self.Spans contents) (second : self.Spans rest) : contents = rest := by
  have lower := second.consecutive.length_le first.represents second.represents
  have upper := first.consecutive.length_le second.represents first.represents
  apply List.ext_getElem (by omega)
  intro index inside inside'
  have fits := first.represents.fits
  have read := first.represents.cell index (by omega)
  rw [second.represents.cell index (by omega), List.getD_eq_getElem _ _ inside,
    List.getD_eq_getElem _ _ inside'] at read
  exact read.symm

/-- The cell at the front comes with its message. -/
theorem Spans.pushCell_front (spans : self.Spans contents) (present : cell.present = true)
    (slot : ∀ last ∈ contents.getLast?, cell.slot = last.slot + 1)
    (pushed : self.pushCell .front cell = some after) :
    contents.length < self.blocks.size ∧ after.Spans (contents ++ [cell]) ∧
      after.blocks = self.blocks.pushFront cell ∧
      after.sent = self.sent ++ [.confirmedBlockPushFront cell] ∧
      after.firstAvailable = self.firstAvailable := by
  simp only [pushCell] at pushed
  split at pushed
  · cases pushed
  · rename_i free
    cases pushed
    have room := spans.frontFree_iff.mp (by simpa using free)
    exact ⟨room, ⟨spans.represents.pushFront room, spans.consecutive.append present slot⟩,
      rfl, rfl, rfl⟩

/-- The cell at the back comes with its message. -/
theorem Spans.pushCell_back (spans : self.Spans contents) (present : cell.present = true)
    (slot : ∀ first ∈ contents.head?, first.slot = cell.slot + 1)
    (pushed : self.pushCell .back cell = some after) :
    contents.length < self.blocks.size ∧ after.Spans (cell :: contents) ∧
      after.blocks = self.blocks.pushBack cell ∧
      after.sent = self.sent ++ [.confirmedBlockPushBack cell] ∧
      after.firstAvailable = self.firstAvailable := by
  simp only [pushCell] at pushed
  split at pushed
  · cases pushed
  · rename_i free
    cases pushed
    have room := spans.backFree_iff.mp (by simpa using free)
    exact ⟨room, ⟨spans.represents.pushBack room, spans.consecutive.cons present slot⟩,
      rfl, rfl, rfl⟩

/-- The message of a new cell names its side. -/
theorem pushCell_sent {side : VecSide} (pushed : self.pushCell side cell = some after) :
    after.sent = self.sent ++ [.confirmedBlockPushBack cell] ∨
      after.sent = self.sent ++ [.confirmedBlockPushFront cell] := by
  unfold pushCell at pushed
  split at pushed
  · split at pushed <;> cases pushed
    exact Or.inl rfl
  · split at pushed <;> cases pushed
    exact Or.inr rfl

end StoredBlocksWrite

/-- A push records a dead slot, or its block at some place. -/
inductive CellOf (slot : Nat) : Option BlockWithBinary → StoredBlock → Prop where
  | dead : CellOf slot none (StoredBlock.newDead slot)
  | live (block : BlockWithBinary) (storageId : StorageId) (offset : Nat) : CellOf slot (some block)
      (StoredBlock.newConfirmed slot block.blockTime block.blockHeight storageId offset
        block.protobuf.length)

/-- The push of a task can wait for a removal. -/
def Task.underWay : Task → Option Push
  | .push active => some active
  | .pop removal => removal.resume
  | _ => none

/-- The cell of a push will fit at its side of the contents. -/
structure Push.Fits (push : Push) (contents : List StoredBlock) (size : Nat) : Prop where
  front : push.side = .front → ∀ last ∈ contents.getLast?, push.slot = last.slot + 1
  back : push.side = .back → ∀ first ∈ contents.head?, first.slot = push.slot + 1
  room : push.stage ≠ .room → contents.length < size
  cell : ∀ cell, push.stage = .recorded cell → cell.present = true ∧ cell.slot = push.slot

namespace Push

variable {push next : Push} {size : Nat}

/-- A push that goes on keeps fitting. -/
theorem Fits.later (fits : push.Fits contents size) (side : next.side = push.side)
    (slot : next.slot = push.slot) (room : contents.length < size)
    (cell : ∀ cell, next.stage = .recorded cell → cell.present = true ∧ cell.slot = next.slot) :
    next.Fits contents size where
  front := by
    rw [side, slot]
    exact fits.front
  back := by
    rw [side, slot]
    exact fits.back
  room := fun _ => room
  cell := cell

/-- A push at the front that waits for the removal of the lowest block keeps fitting. -/
theorem Fits.evict (fits : push.Fits (block :: rest) size) (front : push.side = .front)
    (slot : next.slot = push.slot) (side : next.side = push.side) (write : next.stage = .write)
    (bound : rest.length < size) : next.Fits rest size where
  front := by
    intro _ last isLast
    rw [slot]
    exact fits.front front last (mem_getLast?_of_suffix (List.suffix_cons block rest) isLast)
  back := by
    rw [side, front]
    rintro ⟨⟩
  room := fun _ => bound
  cell := by
    intro cell recorded
    rw [write] at recorded
    cases recorded

end Push

namespace Writer

variable {self after : Writer} {event : WriterEvent}

/-- A push goes on after the removal that it waited for. -/
theorem resume_underWay (push : Option Push) : (resume push).underWay = push := by
  cases push <;> rfl

/-- The ring has consecutive contents, and the push under way fits to them. -/
structure Spans (writer : Writer) (contents : List StoredBlock) : Prop where
  ring : writer.store.blocks.Spans contents
  fits : ∀ push ∈ writer.task.underWay, push.Fits contents writer.store.blocks.blocks.size

/-- A change outside of the ring keeps the contents. -/
theorem Spans.same (spans : self.Spans contents)
    (ring : after.store.blocks.blocks = self.store.blocks.blocks)
    (fits : ∀ push ∈ after.task.underWay, push.Fits contents self.store.blocks.blocks.size) :
    after.Spans contents := by
  constructor
  · constructor
    · rw [ring]
      exact spans.ring.represents
    · exact spans.ring.consecutive
  · rw [ring]
    exact fits

/-- The same ring has the same contents. -/
theorem Spans.eq_of_ring (spans : self.Spans contents) (kept : after.Spans rest)
    (ring : after.store.blocks.blocks = self.store.blocks.blocks) : rest = contents := by
  refine kept.ring.unique ⟨?_, spans.ring.consecutive⟩
  rw [ring]
  exact spans.ring.represents

/-- A removal at one side keeps the contents of the other. -/
theorem Spans.popRing (spans : self.Spans contents) {side : VecSide} {blocks : StoredBlocksWrite}
    (popped : self.store.popRing side = some (block, blocks)) :
    ∃ rest, blocks.Spans rest ∧ blocks.blocks.size = self.store.blocks.blocks.size ∧
      (side = .back → contents = block :: rest) ∧ (side = .front → contents = rest ++ [block]) := by
  cases side with
  | back =>
      obtain ⟨rest, split, kept, ring, -, -⟩ := spans.ring.popBlockBack popped
      exact ⟨rest, kept, by rw [ring]; rfl, fun _ => split, by rintro ⟨⟩⟩
  | front =>
      obtain ⟨rest, split, kept, ring, -, -⟩ := spans.ring.popBlockFront popped
      exact ⟨rest, kept, by rw [ring]; rfl, by rintro ⟨⟩, fun _ => split⟩

/-- A removal does not change the log. -/
theorem Spans.sent_popRing {side : VecSide} {blocks : StoredBlocksWrite} (spans : self.Spans contents)
    (popped : self.store.popRing side = some (block, blocks)) :
    blocks.sent = self.store.blocks.sent := by
  cases side with
  | back =>
      obtain ⟨rest, -, -, -, sent, -⟩ := spans.ring.popBlockBack popped
      exact sent
  | front =>
      obtain ⟨rest, -, -, -, sent, -⟩ := spans.ring.popBlockFront popped
      exact sent

/-- An eviction keeps the side and the slot of its push. -/
theorem Evicts.next {push next : Push} {files : StorageFilesWrite}
    (evicts : self.Evicts push next files) :
    next.slot = push.slot ∧ next.side = push.side ∧ next.stage = .write ∧
      next.block = push.block ∧ next.indexed = push.indexed := by
  cases evicts with
  | full stage full => exact ⟨rfl, rfl, rfl, rfl, rfl⟩
  | unplaced block files stage known refused => exact ⟨rfl, rfl, stage, rfl, rfl⟩

/-- The push of the current task fits to the contents. -/
theorem Spans.pushFits (spans : self.Spans contents) {push : Push} (known : self.task = .push push) :
    push.Fits contents self.store.blocks.blocks.size :=
  spans.fits push (by rw [known]; rfl)

/-- The records of the contents leave a push in its stage. -/
theorem Spans.indexed (spans : self.Spans contents) {push next : Push} {store : Store}
    (known : self.task.underWay = some push)
    (indexed : push.addIndexes self.store = some (store, next)) :
    store.blocks = self.store.blocks ∧ next.Fits contents self.store.blocks.blocks.size := by
  obtain ⟨added, -, -, -, rfl, rfl⟩ := Push.addIndexes_eq indexed
  have fits := spans.fits push known
  exact ⟨rfl, fits.front, fits.back, fits.room, fits.cell⟩

/-- Every change keeps some consecutive contents. -/
theorem Spans.change (spans : self.Spans contents) (change : Change self event after) :
    ∃ rest, after.Spans rest := by
  cases change with
  | send message idle report =>
      refine ⟨contents, spans.same rfl ?_⟩
      rw [idle]
      rintro _ ⟨⟩
  | popEmpty side idle empty => exact ⟨contents, spans.same rfl (by rintro _ ⟨⟩)⟩
  | popBlock side block blocks idle popped =>
      obtain ⟨rest, kept, -⟩ := spans.popRing popped
      exact ⟨rest, kept, by rintro _ ⟨⟩⟩
  | frontRefused slot added idle => exact ⟨contents, spans.same rfl (by rintro _ ⟨⟩)⟩
  | pushBlockFront slot added idle checked =>
      refine ⟨contents, spans.same rfl ?_⟩
      rintro _ ⟨⟩
      exact ⟨fun _ => spans.ring.checkFrontSlot checked, by rintro ⟨⟩, by simp, by rintro _ ⟨⟩⟩
  | backRefused slot added task idle ends =>
      refine ⟨contents, spans.same rfl ?_⟩
      obtain rfl | rfl := ends <;> rintro _ ⟨⟩
  | pushBlockBack slot added idle checked room =>
      refine ⟨contents, spans.same rfl ?_⟩
      rintro _ ⟨⟩
      refine ⟨by rintro ⟨⟩, fun _ => spans.ring.checkBackSlot checked, fun _ => ?_, by rintro _ ⟨⟩⟩
      have fits := spans.ring.represents.fits
      have partly := spans.ring.isFull_iff.not.mp (by rw [room]; exact Bool.false_ne_true)
      omega
  | announce side block push known =>
      exact ⟨contents, spans.same rfl fun push member => spans.fits push (by rw [known]; exact member)⟩
  | removeFailed side block push error known failed =>
      exact ⟨contents, spans.same rfl (by rintro _ ⟨⟩)⟩
  | remove side block push db known removed =>
      exact ⟨contents, spans.same rfl fun push member => spans.fits push (by rw [known]; exact member)⟩
  | freeEmpty side block push known empty =>
      refine ⟨contents, spans.same rfl fun waiting member => spans.fits waiting ?_⟩
      rw [known]
      rwa [resume_underWay] at member
  | freeFailed side block push error files known nonempty failed =>
      exact ⟨contents, spans.same rfl (by rintro _ ⟨⟩)⟩
  | free side block push files known nonempty freed =>
      refine ⟨contents, spans.same rfl fun waiting member => spans.fits waiting ?_⟩
      rw [known]
      rwa [resume_underWay] at member
  | evictEmpty push next files known front evicts empty =>
      exact ⟨contents, spans.same rfl (by rintro _ ⟨⟩)⟩
  | evict push next files block blocks known front evicts popped =>
      obtain ⟨rest, kept, size, split, -⟩ := spans.popRing popped
      obtain ⟨slot, side, write, -, -⟩ := evicts.next
      have fits := spans.pushFits known
      have bound := spans.ring.represents.fits
      rw [split rfl] at fits bound
      refine ⟨rest, kept, ?_⟩
      rintro _ ⟨⟩
      change next.Fits rest blocks.blocks.size
      rw [size]
      exact fits.evict front slot side write bound
  | roomy side slot added indexed known room =>
      refine ⟨contents, spans.same rfl ?_⟩
      rintro _ ⟨⟩
      have fits := spans.ring.represents.fits
      have partly := spans.ring.isFull_iff.not.mp (by rw [room]; exact Bool.false_ne_true)
      exact (spans.pushFits known).later rfl rfl (by omega) (by rintro _ ⟨⟩)
  | index push next store known indexed =>
      obtain ⟨same, fits⟩ := spans.indexed (by rw [known]; rfl) indexed
      refine ⟨contents, spans.same (by rw [same]) ?_⟩
      rintro _ ⟨⟩
      exact fits
  | indexDuring side block stage push next store known indexed =>
      obtain ⟨same, fits⟩ := spans.indexed (by rw [known]; rfl) indexed
      refine ⟨contents, spans.same (by rw [same]) ?_⟩
      rintro _ ⟨⟩
      exact fits
  | tear chosen push added place files disk known stage isBlock placed =>
      exact ⟨contents, spans.same rfl spans.fits⟩
  | writeFailed push added error files disk known stage isBlock failed =>
      exact ⟨contents, spans.same rfl (by rintro _ ⟨⟩)⟩
  | writeRefused push added files known stage isBlock back refused =>
      have fits := spans.pushFits known
      refine ⟨contents, spans.same rfl ?_⟩
      rintro _ ⟨⟩
      exact fits.later rfl rfl (fits.room (by rw [stage]; rintro ⟨⟩)) (by rintro _ ⟨⟩)
  | write push added storageId offset files disk known stage isBlock placed =>
      have fits := spans.pushFits known
      refine ⟨contents, spans.same rfl ?_⟩
      rintro _ ⟨⟩
      exact fits.later rfl rfl (fits.room (by rw [stage]; rintro ⟨⟩)) (by rintro _ ⟨⟩)
  | refuse side slot added known => exact ⟨contents, spans.same rfl (by rintro _ ⟨⟩)⟩
  | recordDead push known stage noBlock =>
      have fits := spans.pushFits known
      refine ⟨contents, spans.same rfl ?_⟩
      rintro _ ⟨⟩
      refine fits.later rfl rfl (fits.room (by rw [stage]; rintro ⟨⟩)) ?_
      rintro _ ⟨⟩
      exact ⟨rfl, rfl⟩
  | record push added storageId offset known stage isBlock indexed =>
      have fits := spans.pushFits known
      refine ⟨contents, spans.same rfl ?_⟩
      rintro _ ⟨⟩
      refine fits.later rfl rfl (fits.room (by rw [stage]; rintro ⟨⟩)) ?_
      rintro _ ⟨⟩
      exact ⟨rfl, rfl⟩
  | storeFailed push cell known stage failed => exact ⟨contents, spans.same rfl (by rintro _ ⟨⟩)⟩
  | store push cell blocks known stage stored =>
      have fits := spans.pushFits known
      obtain ⟨present, slot⟩ := fits.cell cell stage
      cases side : push.side with
      | front =>
          rw [side] at stored
          obtain ⟨-, kept, -⟩ := spans.ring.pushCell_front present
            (by rw [slot]; exact fits.front side) stored
          exact ⟨_, kept, by rintro _ ⟨⟩⟩
      | back =>
          rw [side] at stored
          obtain ⟨-, kept, -⟩ := spans.ring.pushCell_back present
            (by rw [slot]; exact fits.back side) stored
          exact ⟨_, kept, by rintro _ ⟨⟩⟩
  | publish side known => exact ⟨contents, spans.same (by simp) (by rintro _ ⟨⟩)⟩

/-- The push of the next task is new, or it goes on from the push of this task; only a push at the front
changes the ring by an eviction. -/
inductive UnderWay (self : Writer) (event : WriterEvent) (after : Writer) (next : Push) : Prop where
  | front (slot : Nat) (block : Option BlockWithBinary) (cause : event = .pushBlockFront slot block)
      (isNext : next = ⟨.front, slot, block, .room, false⟩)
      (checked : checkFrontSlot self.store.blocks slot = .ok ())
  | back (slot : Nat) (block : Option BlockWithBinary) (cause : event = .pushBlockBack slot block)
      (isNext : next = ⟨.back, slot, block, .write, false⟩)
      (checked : checkBackSlot self.store.blocks slot = .ok ())
      (ring : after.store.blocks.blocks = self.store.blocks.blocks)
      (evicted : after.evicted = self.evicted)
  | goesOn (push : Push) (known : push ∈ self.task.underWay) (side : next.side = push.side)
      (slot : next.slot = push.slot) (block : next.block = push.block)
      (cell : ∀ cell, next.stage = .recorded cell →
        push.stage = .recorded cell ∨ CellOf next.slot next.block cell)
      (same : next.side = .back → after.store.blocks.blocks = self.store.blocks.blocks ∧
        after.evicted = self.evicted)

/-- A step starts a push or goes on with the push under way. -/
theorem Change.underWay (change : Change self event after) {next : Push}
    (member : next ∈ after.task.underWay) : UnderWay self event after next := by
  cases change with
  | send message idle report =>
      rw [idle] at member
      cases member
  | popEmpty | popBlock | frontRefused | removeFailed | freeFailed | evictEmpty | writeFailed | refuse
  | storeFailed | store | publish => cases member
  | pushBlockFront slot block idle checked =>
      cases member
      exact .front slot block rfl rfl checked
  | backRefused slot block task idle ends => obtain rfl | rfl := ends <;> cases member
  | pushBlockBack slot block idle checked =>
      cases member
      exact .back slot block rfl rfl checked rfl rfl
  | announce side block push known | remove side block push db known removed =>
      exact .goesOn next (by rw [known]; exact member) rfl rfl rfl (fun _ => Or.inl)
        fun _ => ⟨rfl, rfl⟩
  | freeEmpty side block push known empty | free side block push files known nonempty freed =>
      rw [resume_underWay] at member
      exact .goesOn next (by rw [known]; exact member) rfl rfl rfl (fun _ => Or.inl)
        fun _ => ⟨rfl, rfl⟩
  | evict push next files block blocks known front evicts popped =>
      cases member
      obtain ⟨slot, side, stage, block, -⟩ := evicts.next
      refine .goesOn push (by rw [known]; rfl) side slot block ?_ ?_
      · rw [stage]
        rintro _ ⟨⟩
      · rw [side, front]
        rintro ⟨⟩
  | index push next store known indexed =>
      obtain ⟨added, -, -, -, rfl, rfl⟩ := Push.addIndexes_eq indexed
      cases member
      exact .goesOn push (by rw [known]; rfl) rfl rfl rfl (fun _ => Or.inl) fun _ => ⟨rfl, rfl⟩
  | indexDuring side block stage push next store known indexed =>
      obtain ⟨added, -, -, -, rfl, rfl⟩ := Push.addIndexes_eq indexed
      cases member
      exact .goesOn push (by rw [known]; rfl) rfl rfl rfl (fun _ => Or.inl) fun _ => ⟨rfl, rfl⟩
  | tear chosen push block place files disk known stage isBlock placed =>
      exact .goesOn next member rfl rfl rfl (fun _ => Or.inl) fun _ => ⟨rfl, rfl⟩
  | roomy side slot block indexed known room =>
      cases member
      exact .goesOn ⟨side, slot, block, .room, indexed⟩ (by rw [known]; rfl) rfl rfl rfl
        (by rintro _ ⟨⟩) fun _ => ⟨rfl, rfl⟩
  | writeRefused push block files known stage isBlock side refused
  | write push block storageId offset files disk known stage isBlock placed =>
      cases member
      exact .goesOn push (by rw [known]; rfl) rfl rfl rfl (by rintro _ ⟨⟩) fun _ => ⟨rfl, rfl⟩
  | recordDead push known stage noBlock =>
      cases member
      refine .goesOn push (by rw [known]; rfl) rfl rfl rfl ?_ fun _ => ⟨rfl, rfl⟩
      rintro _ ⟨⟩
      rw [noBlock]
      exact Or.inr .dead
  | record push block storageId offset known stage isBlock indexed =>
      cases member
      refine .goesOn push (by rw [known]; rfl) rfl rfl rfl ?_ fun _ => ⟨rfl, rfl⟩
      rintro _ ⟨⟩
      rw [isBlock]
      exact Or.inr (.live block storageId offset)

/-- A push at the back goes on with the same ring, or it starts. -/
theorem Change.back_underWay (change : Change self event after) {next : Push}
    (member : next ∈ after.task.underWay) (back : next.side = .back) :
    after.store.blocks.blocks = self.store.blocks.blocks ∧
      ((∃ push ∈ self.task.underWay, push.side = .back) ∨
        ∃ slot block, event = .pushBlockBack slot block) := by
  cases change.underWay member with
  | front slot block cause isNext checked =>
      rw [isNext] at back
      cases back
  | back slot block cause isNext checked ring evicted => exact ⟨ring, Or.inr ⟨slot, block, cause⟩⟩
  | goesOn push known side slot block cell same =>
      exact ⟨(same back).1, Or.inl ⟨push, known, side.symm.trans back⟩⟩

/-- In every state of a run the ring has consecutive contents. -/
theorem Run.spans {allowed : Writer → WriterEvent → Prop} (run : Run allowed self after)
    (spans : self.Spans contents) : ∃ rest, after.Spans rest :=
  run.invariant (fun state => ∃ rest, state.Spans rest) ⟨contents, spans⟩
    fun _ _ _ ⟨_, known⟩ _ change => known.change change

/-- A loaded ring spans its list. -/
theorem spans_start {db : Rocksdb} {max : Nat} {files : StorageFilesWrite} {disk : Disk}
    {blocks : StoredBlocksWrite} {stored : List (StoredBlock × Bytes)}
    (loaded : db.spawnSlots = .ok contents) (opened : StoredBlocksWrite.new contents max = .ok blocks) :
    (Writer.start ⟨db, files, disk, blocks⟩ stored).Spans contents := by
  obtain ⟨present, chain, -⟩ := spawnSlotsLoop_chain loaded
  obtain ⟨represents, -⟩ := StoredBlocksWrite.new_represents ⟨present, chain⟩ opened
  exact ⟨⟨represents, present, chain⟩, by rintro _ ⟨⟩⟩

end Writer

end Alpamayo
