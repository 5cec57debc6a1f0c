import Alpamayo.Proof.WriterRing

/-!
This file shows that every operation on the store is a run of the steps of the writer.
-/

namespace Alpamayo

/-- The program makes these calls; every other event belongs to the call under way. -/
def WriterEvent.IsCall : WriterEvent → Prop
  | .send _ | .popBlock _ | .pushBlockFront _ _ | .pushBlockBack _ _ => True
  | _ => False

/-- A removal goes on with the push that waits for it, and a failure stops the writer. -/
def Task.next {A : Type} (waiting : Option Push) : Except StorageError A → Task
  | .ok _ => Writer.resume waiting
  | .error _ => .stopped

/-- The place of a push ends its search, and a failure stops the writer. -/
def Task.placed (slot : Nat) (block : BlockWithBinary) : Except StorageError (StorageId × Nat) → Task
  | .ok place => .push ⟨.front, slot, some block, .written place.1 place.2, true⟩
  | .error _ => .stopped

/-- The success of an operation can have another value. -/
theorem Task.next_map {A B : Type} (waiting : Option Push) (result : Except StorageError A)
    (change : A → B) : Task.next waiting (result.map change) = Task.next waiting result := by
  cases result <;> rfl

namespace Store

/-- A block that has left the ring loses its records and its bytes. -/
def dropBlock (self : Store) (side : VecSide) (removed : StoredBlock) :
    Except StorageError Unit × Store :=
  match self.db.spawnRemoveSlot removed.slot removed.dead with
  | .error error => (.error error, self)
  | .ok db =>
      if removed.size = 0 then (.ok (), { self with db })
      else
        let (result, files) := self.files.popBlock removed side
        (result, { self with db, files })

/-- A removal drops the block after the ring and the readers have lost it. -/
theorem popBlock_eq_dropBlock {self : Store} {side : VecSide} {removed : StoredBlock}
    {blocks : StoredBlocksWrite} (popped : self.popRing side = some (removed, blocks)) :
    self.popBlock side =
      Store.dropBlock { self with blocks := blocks.send (.popMessage side) } side removed := by
  simp only [popBlock, popped, dropBlock]
  cases side <;> rfl

theorem dropBlock_blocks (self : Store) (side : VecSide) (removed : StoredBlock) :
    (self.dropBlock side removed).2.blocks = self.blocks := by
  unfold dropBlock
  split
  · rfl
  · split <;> rfl

/-- A successful removal leaves the rest of the contents. -/
theorem popBlockBack_spans {self after : Store} {contents : List StoredBlock}
    (spans : self.blocks.Spans contents) (success : self.popBlockBack = (.ok (), after)) :
    ∃ block rest, contents = block :: rest ∧ after.blocks.Spans rest ∧
      after.blocks.blocks.size = self.blocks.blocks.size ∧
      after.blocks.sent = self.blocks.sent ++ [.confirmedBlockPopBack] := by
  cases popped : self.popRing .back with
  | none =>
      simp only [popBlockBack, popBlock, popped] at success
      cases success
  | some found =>
      obtain ⟨block, blocks⟩ := found
      obtain ⟨rest, split, kept, ring, sent, -⟩ := spans.popBlockBack popped
      rw [popBlockBack, popBlock_eq_dropBlock popped] at success
      have same : after.blocks = blocks.send (.popMessage .back) := by
        rw [show after = _ from (congrArg Prod.snd success).symm, dropBlock_blocks]
      refine ⟨block, rest, split, ?_⟩
      rw [same]
      refine ⟨⟨kept.represents, kept.consecutive⟩, ?_, ?_⟩
      · change blocks.blocks.size = _
        rw [ring]
        rfl
      · change blocks.sent ++ _ = _
        rw [sent]
        rfl

/-- A push at the front with room in the ring. -/
def pushRoomy (self : Store) (turn slot : Nat) :
    Option BlockWithBinary → Except StorageError Unit × Store
  | none => self.pushFrontDead slot
  | some block => self.pushFrontBlock turn slot block

/-- A push at the front after its two checks. -/
def pushChecked (self : Store) (turn slot : Nat) (block : Option BlockWithBinary) :
    Except StorageError Unit × Store :=
  match if self.blocks.isFull then self.popBlockBack else (.ok (), self) with
  | (.error error, self) => (.error error, self)
  | (.ok (), self) => self.pushRoomy turn slot block

theorem pushBlockFront_eq (self : Store) (turn slot : Nat) (block : Option BlockWithBinary) :
    self.pushBlockFront turn slot block =
      match checkFrontSlot self.blocks slot >>= fun _ => checkFrontHeight self.blocks slot block with
      | .error error => (.error error, self)
      | .ok () => self.pushChecked turn slot block := by
  unfold pushBlockFront pushChecked pushRoomy
  rfl

/-- A block at the back with room in the ring. -/
def pushBackBlock (self : Store) (turn slot : Nat) (block : BlockWithBinary) :
    Except StorageError Bool × Store :=
  let indexed := self.db.addIndexes slot block
  match self.files.pushBlockBack self.disk block.protobuf with
  | (.error error, files, disk) =>
      (.error error, { self with files, disk, db := if turn = 0 then indexed else self.db })
  | (.ok none, files, disk) => (.ok false, { self with files, disk, db := indexed })
  | (.ok (some (storageId, offset)), files, disk) =>
      Store.pushBackStored { self with files, disk, db := indexed } slot block storageId offset

/-- A push at the back with room in the ring. -/
def pushBackRoomy (self : Store) (turn slot : Nat) :
    Option BlockWithBinary → Except StorageError Bool × Store
  | none => self.pushBackDead slot
  | some block => self.pushBackBlock turn slot block

theorem pushBlockBack_eq (self : Store) (turn slot : Nat) (block : Option BlockWithBinary) :
    self.pushBlockBack turn slot block =
      match checkBackSlot self.blocks slot >>= fun _ => checkBackHeight self.blocks slot block with
      | .error error => (.error error, self)
      | .ok () => if self.blocks.isFull then (.ok false, self) else
          self.pushBackRoomy turn slot block := by
  unfold pushBlockBack pushBackRoomy pushBackBlock
  rfl

end Store

namespace Writer

variable {allowed : Writer → WriterEvent → Prop} {self : Writer} {contents : List StoredBlock}
  {slot turn : Nat} {block : BlockWithBinary}

/-- The conditions of a run are about the calls of the program only. -/
def OnCalls (allowed : Writer → WriterEvent → Prop) : Prop :=
  ∀ writer event, ¬ event.IsCall → allowed writer event

/-- A run leads to the store with this task. -/
def Leads (allowed : Writer → WriterEvent → Prop) (self : Writer) (store : Store) (task : Task) :
    Prop :=
  ∃ after, Run allowed self after ∧ after.store = store ∧ after.task = task

section leads

variable {store : Store} {task : Task} {event : WriterEvent} {next : Writer}

theorem Leads.here (self : Writer) : Leads allowed self self.store self.task :=
  ⟨self, .refl, rfl, rfl⟩

theorem Leads.done (isStore : self.store = store) (isTask : self.task = task) :
    Leads allowed self store task := ⟨self, .refl, isStore, isTask⟩

/-- A permitted step goes before the rest of a run. -/
theorem Leads.step (permitted : allowed self event) (stepped : self.step event = some next)
    (rest : Leads allowed next store task) : Leads allowed self store task := by
  obtain ⟨after, run, same⟩ := rest
  exact ⟨after, Relation.ReflTransGen.head ⟨event, permitted, stepped⟩ run, same⟩

/-- A step inside of a call goes before the rest of a run. -/
theorem Leads.inner (free : OnCalls allowed) (event : WriterEvent) (inside : ¬ event.IsCall)
    (stepped : self.step event = some next) (rest : Leads allowed next store task) :
    Leads allowed self store task :=
  rest.step (free self event inside) stepped

/-- A run goes on from where another one has led. -/
theorem Leads.trans {middle : Store} {between : Task} (first : Leads allowed self middle between)
    (rest : ∀ after : Writer, Run allowed self after → after.store = middle → after.task = between →
      Leads allowed after store task) : Leads allowed self store task := by
  obtain ⟨after, run, isStore, isTask⟩ := first
  obtain ⟨last, later, same⟩ := rest after run isStore isTask
  exact ⟨last, run.trans later, same⟩

end leads

/-- The records and the bytes of a removed block are freed as in the operation. -/
theorem leads_drop (free : OnCalls allowed) {side : VecSide} {removed : StoredBlock}
    {waiting : Option Push} (known : self.task = .pop ⟨side, removed, .remove, waiting⟩) :
    Leads allowed self (self.store.dropBlock side removed).2
      (Task.next waiting (self.store.dropBlock side removed).1) := by
  unfold Store.dropBlock
  cases erased : self.store.db.spawnRemoveSlot removed.slot removed.dead with
  | error error =>
      have stepped : self.step .remove = some { self with task := .stopped } := by
        simp only [step, known, remove, erased]
      exact .inner free .remove id stepped (.here _)
  | ok db =>
      have stepped : self.step .remove = some { self with
          store := { self.store with db }
          task := .pop ⟨side, removed, .free, waiting⟩ } := by
        simp only [step, known, remove, erased]
      refine .inner free .remove id stepped ?_
      by_cases empty : removed.size = 0
      · simp only [if_pos empty]
        refine .inner free .free id rfl ?_
        simp only [Writer.free, if_pos empty]
        exact .here _
      · simp only [if_neg empty]
        refine .inner free .free id rfl ?_
        simp only [Writer.free, if_neg empty]
        generalize self.store.files.popBlock removed side = outcome
        obtain ⟨_ | _, files⟩ := outcome
        · exact .here _
        · exact .here _

/-- The removal of a block ends in the state of the operation. -/
theorem leads_startPop (free : OnCalls allowed) (side : VecSide) (waiting : Option Push) :
    Leads allowed (self.startPop side waiting) (self.store.popBlock side).2
      (Task.next waiting (self.store.popBlock side).1) := by
  cases popped : self.store.popRing side with
  | none =>
      simp only [startPop, Store.popBlock, popped]
      exact .here _
  | some found =>
      obtain ⟨removed, blocks⟩ := found
      rw [Store.popBlock_eq_dropBlock popped]
      simp only [startPop, popped]
      refine .inner free .announce id rfl ?_
      exact leads_drop free rfl

/-- The records of the contents are written when their turn comes. -/
theorem leads_takeTurn (free : OnCalls allowed) {pending : Option Nat}
    (known : self.task = .push ⟨.front, slot, some block, .write, pending.isNone⟩) :
    Leads allowed self (self.store.takeTurn slot block pending).1
      (.push ⟨.front, slot, some block, .write,
        (self.store.takeTurn slot block pending).2.isNone⟩) := by
  match pending with
  | none =>
      exact .done rfl known
  | some 0 =>
      have stepped : self.step .index = some { self with
          store := { self.store with db := self.store.db.addIndexes slot block }
          task := .push ⟨.front, slot, some block, .write, true⟩ } := by
        simp only [step, known]
        rfl
      exact .inner free .index id stepped (.here _)
  | some (turn + 1) =>
      exact .done rfl known

/-- The search for a place ends in the state of the operation; each round removes one block. -/
theorem leads_placeFront (free : OnCalls allowed) {contents : List StoredBlock} {fuel : Nat}
    (pending : Option Nat)
    (known : self.task = .push ⟨.front, slot, some block, .write, pending.isNone⟩)
    (spans : self.store.blocks.Spans contents) (enough : contents.length < fuel) :
    Leads allowed self (self.store.placeFront slot block fuel pending).2
      (Task.placed slot block (self.store.placeFront slot block fuel pending).1) := by
  induction fuel generalizing self contents pending with
  | zero => omega
  | succ fuel ih =>
      have first := leads_takeTurn free known
      have ring : (self.store.takeTurn slot block pending).1.blocks = self.store.blocks := by
        unfold Store.takeTurn
        split <;> rfl
      rw [Store.placeFront]
      generalize self.store.takeTurn slot block pending = taken at first ring ⊢
      obtain ⟨store, later⟩ := taken
      refine first.trans fun middle _ isStore isTask => ?_
      cases isStore
      dsimp only at ring isTask ⊢
      have attempts : Push.attempt ⟨.front, slot, some block, .write, later.isNone⟩ middle.store block =
          middle.store.files.pushBlockFront middle.store.disk block.protobuf := rfl
      rcases outcome : middle.store.files.pushBlockFront middle.store.disk block.protobuf with
        ⟨_ | _ | place, files, disk⟩
      · have stepped : middle.step .write = some { middle with
            store := { middle.store with files, disk }, task := .stopped } := by
          simp only [step, isTask, write, attempts, outcome]
        exact .inner free .write id stepped (.here _)
      · have stepped : middle.step .evict = some (startPop { middle with
            store := { middle.store with files, disk } } .back
            (some ⟨.front, slot, some block, .write, later.isNone⟩)) := by
          simp only [step, isTask, evict, attempts, outcome]
        refine .inner free .evict id stepped ((leads_startPop free .back _).trans ?_)
        dsimp only
        change ∀ after : Writer, _ → after.store = (Store.popBlockBack
          { middle.store with files, disk }).2 → after.task = Task.next _ (Store.popBlockBack
          { middle.store with files, disk }).1 → _
        rcases popped : Store.popBlockBack { middle.store with files, disk } with ⟨_ | _, shorter⟩
        · exact fun after _ isStore isTask => .done isStore isTask
        · intro after _ isStore isTask
          rw [← ring] at spans
          have whole : (Store.blocks { middle.store with files, disk }).Spans contents := spans
          obtain ⟨removed, rest, split, kept, -⟩ := Store.popBlockBack_spans whole popped
          rw [split, List.length_cons] at enough
          dsimp only at isStore isTask ⊢
          rw [← isStore] at kept ⊢
          exact ih later isTask kept (by omega)
      · have stepped : middle.step .write = some { middle with
            store := { middle.store with files, disk }
            task := .push ⟨.front, slot, some block, .written place.1 place.2, later.isNone⟩ } := by
          simp only [step, isTask, write, attempts, outcome]
        refine .inner free .write id stepped ?_
        cases later with
        | none => exact .here _
        | some turn => exact .inner free .index id rfl (.here _)

variable {added : Option BlockWithBinary} {indexed : Bool} {cell : StoredBlock}
  {contents : List StoredBlock}

/-- The recorded cell enters the ring and the first slot is published. -/
theorem leads_storeFront (free : OnCalls allowed) (spans : self.Spans contents)
    (known : self.task = .push ⟨.front, slot, added, .recorded cell, indexed⟩) :
    Leads allowed self { self.store with blocks := (self.store.blocks.pushBlockFront2 cell).2 }
      (Task.next none (self.store.blocks.pushBlockFront2 cell).1) := by
  have room := spans.ring.frontFree_iff.mpr ((spans.pushFits known).room (by simp))
  have entered : self.step .store = some
      (self.enter ⟨.front, slot, added, .recorded cell, indexed⟩ cell) := by
    simp only [step, known]
  refine .inner free .store id entered ?_
  simp only [enter, StoredBlocksWrite.pushCell, StoredBlocksWrite.pushBlockFront2, room,
    Bool.false_eq_true, if_false]
  exact .inner free .publish id rfl (.here _)

/-- The recorded cell enters the ring and the first slot is published. -/
theorem leads_storeBack (free : OnCalls allowed) (spans : self.Spans contents)
    (known : self.task = .push ⟨.back, slot, added, .recorded cell, indexed⟩) :
    Leads allowed self { self.store with blocks := (self.store.blocks.pushBlockBack2 cell).2 }
      (Task.next none (self.store.blocks.pushBlockBack2 cell).1) := by
  have room := spans.ring.backFree_iff.mpr ((spans.pushFits known).room (by simp))
  have entered : self.step .store = some
      (self.enter ⟨.back, slot, added, .recorded cell, indexed⟩ cell) := by
    simp only [step, known]
  refine .inner free .store id entered ?_
  simp only [enter, StoredBlocksWrite.pushCell, StoredBlocksWrite.pushBlockBack2, room,
    Bool.false_eq_true, if_false]
  exact .inner free .publish id rfl (.here _)

/-- A step keeps some contents of the ring. -/
theorem Spans.ofStep {event : WriterEvent} {next : Writer} (spans : self.Spans contents)
    (stepped : self.step event = some next) : ∃ rest, next.Spans rest :=
  spans.change (change_of_step stepped)

/-- A dead slot is recorded and stored as in the operation. -/
theorem leads_pushFrontDead (free : OnCalls allowed) (spans : self.Spans contents)
    (known : self.task = .push ⟨.front, slot, none, .write, indexed⟩) :
    Leads allowed self (self.store.pushFrontDead slot).2
      (Task.next none (self.store.pushFrontDead slot).1) := by
  have recorded : self.step .record = some { self with
      store := { self.store with db := self.store.db.slotAdd slot none }
      task := .push ⟨.front, slot, none, .recorded (.newDead slot), indexed⟩ } := by
    simp only [step, known]
    rfl
  obtain ⟨rest, kept⟩ := spans.ofStep recorded
  exact .inner free .record id recorded (leads_storeFront free kept rfl)

/-- A placed block is recorded and stored as in the operation. -/
theorem leads_pushFrontStored (free : OnCalls allowed) (spans : self.Spans contents)
    {place : StorageId × Nat}
    (known : self.task = .push ⟨.front, slot, some block, .written place.1 place.2, true⟩) :
    Leads allowed self (self.store.pushFrontStored slot block place.1 place.2).2
      (Task.next none (self.store.pushFrontStored slot block place.1 place.2).1) := by
  have recorded : self.step .record = some { self with
      store := { self.store with
        db := self.store.db.slotAdd slot (some (block, place.1, place.2)) }
      task := .push ⟨.front, slot, some block, .recorded (.newConfirmed slot block.blockTime
        block.blockHeight place.1 place.2 block.protobuf.length), true⟩ } := by
    simp only [step, known]
    rfl
  obtain ⟨rest, kept⟩ := spans.ofStep recorded
  exact .inner free .record id recorded (leads_storeFront free kept rfl)

/-- A push at the front ends in the state of the operation once the ring has room. -/
theorem leads_pushFrontBlock (free : OnCalls allowed) (spans : self.Spans contents)
    (known : self.task = .push ⟨.front, slot, some block, .write, false⟩) :
    Leads allowed self (self.store.pushFrontBlock turn slot block).2
      (Task.next none (self.store.pushFrontBlock turn slot block).1) := by
  have placing := leads_placeFront free (some turn) known spans.ring
    (Nat.lt_succ_of_le spans.ring.represents.fits)
  rw [Store.pushFrontBlock]
  generalize self.store.placeFront slot block (self.store.blocks.blocks.size + 1) (some turn) = placed
    at placing ⊢
  obtain ⟨_ | place, store⟩ := placed
  · exact placing
  · refine placing.trans fun after run isStore isTask => ?_
    obtain ⟨rest, kept⟩ := run.spans spans
    cases isStore
    exact leads_pushFrontStored free kept isTask

/-- With room in the ring a push ends in the state of the operation. -/
theorem leads_pushRoomy (free : OnCalls allowed) (spans : self.Spans contents)
    (known : self.task = .push ⟨.front, slot, added, .write, false⟩) :
    Leads allowed self (self.store.pushRoomy turn slot added).2
      (Task.next none (self.store.pushRoomy turn slot added).1) := by
  cases added with
  | none => exact leads_pushFrontDead free spans known
  | some block => exact leads_pushFrontBlock free spans known

/-- A full ring loses its lowest block before the push. -/
theorem leads_pushChecked (free : OnCalls allowed) (spans : self.Spans contents)
    (known : self.task = .push ⟨.front, slot, added, .room, false⟩) :
    Leads allowed self (self.store.pushChecked turn slot added).2
      (Task.next none (self.store.pushChecked turn slot added).1) := by
  unfold Store.pushChecked
  by_cases full : self.store.blocks.isFull = true
  · have evicted : self.step .evict = some (self.startPop .back
        (some ⟨.front, slot, added, .write, false⟩)) := by
      simp only [step, known, evict, if_pos full]
    rw [if_pos full]
    refine .inner free .evict id evicted ((leads_startPop free .back _).trans fun after run isStore isTask => ?_)
    obtain ⟨_, middle⟩ := spans.ofStep evicted
    obtain ⟨rest, kept⟩ := run.spans middle
    rw [← Store.popBlockBack] at isStore isTask
    generalize self.store.popBlockBack = popped at isStore isTask ⊢
    obtain ⟨_ | _, store⟩ := popped
    · exact .done isStore isTask
    · cases isStore
      exact leads_pushRoomy free kept isTask
  · have roomy : self.step .roomy = some { self with
        task := .push ⟨.front, slot, added, .write, false⟩ } := by
      simp only [step, known, if_neg full]
    rw [if_neg full]
    obtain ⟨rest, kept⟩ := spans.ofStep roomy
    exact .inner free .roomy id roomy (leads_pushRoomy free kept rfl)

/-- A push at the front ends in the state of the operation after its announcement. -/
theorem leads_startFront (free : OnCalls allowed) (spans : self.Spans contents)
    (idle : self.task = .idle) (turn slot : Nat) (added : Option BlockWithBinary) {store : Store}
    (announced : store = { self.store with
      blocks := self.store.blocks.send (.blockConfirmed slot added) }) :
    Leads allowed (self.startFront slot added) (store.pushBlockFront turn slot added).2
      (Task.next none (store.pushBlockFront turn slot added).1) := by
  obtain ⟨rest, kept⟩ := spans.change (change_pushBlockFront idle slot added)
  have isStore : (self.startFront slot added).store = store := announced.symm
  have isTask : (self.startFront slot added).task = match checkFrontSlot store.blocks slot >>= fun _ =>
      checkFrontHeight store.blocks slot added with
    | .error _ => .stopped
    | .ok () => .push ⟨.front, slot, added, .room, false⟩ := by
    rw [announced]
    rfl
  rw [Store.pushBlockFront_eq]
  revert isTask
  split
  · exact fun isTask => .done isStore isTask
  · intro isTask
    rw [← isStore]
    exact leads_pushChecked free kept isTask

/-- A dead slot at the back is recorded and stored as in the operation. -/
theorem leads_pushBackDead (free : OnCalls allowed) (spans : self.Spans contents)
    (known : self.task = .push ⟨.back, slot, none, .write, indexed⟩) :
    Leads allowed self (self.store.pushBackDead slot).2
      (Task.next none (self.store.pushBackDead slot).1) := by
  have recorded : self.step .record = some { self with
      store := { self.store with db := self.store.db.slotAdd slot none }
      task := .push ⟨.back, slot, none, .recorded (.newDead slot), indexed⟩ } := by
    simp only [step, known]
    rfl
  obtain ⟨rest, kept⟩ := spans.ofStep recorded
  simp only [Store.pushBackDead, Task.next_map]
  exact .inner free .record id recorded (leads_storeBack free kept rfl)

/-- A placed block at the back is recorded and stored as in the operation. -/
theorem leads_pushBackStored (free : OnCalls allowed) (spans : self.Spans contents)
    {place : StorageId × Nat}
    (known : self.task = .push ⟨.back, slot, some block, .written place.1 place.2, true⟩) :
    Leads allowed self (self.store.pushBackStored slot block place.1 place.2).2
      (Task.next none (self.store.pushBackStored slot block place.1 place.2).1) := by
  have recorded : self.step .record = some { self with
      store := { self.store with
        db := self.store.db.slotAdd slot (some (block, place.1, place.2)) }
      task := .push ⟨.back, slot, some block, .recorded (.newConfirmed slot block.blockTime
        block.blockHeight place.1 place.2 block.protobuf.length), true⟩ } := by
    simp only [step, known]
    rfl
  obtain ⟨rest, kept⟩ := spans.ofStep recorded
  simp only [Store.pushBackStored, Task.next_map]
  exact .inner free .record id recorded (leads_storeBack free kept rfl)

/-- The records and the file of a block at the back end in the state of the operation. -/
theorem leads_pushBackBlock (free : OnCalls allowed) (spans : self.Spans contents)
    (known : self.task = .push ⟨.back, slot, some block, .write, false⟩) :
    Leads allowed self (self.store.pushBackBlock turn slot block).2
      (Task.next none (self.store.pushBackBlock turn slot block).1) := by
  have attempts (self : Writer) (indexed : Bool) :
      Push.attempt ⟨.back, slot, some block, .write, indexed⟩ self.store block =
        self.store.files.pushBlockBack self.store.disk block.protobuf := rfl
  obtain ⟨middle, indexes, isMiddle⟩ : ∃ middle, self.step .index = some middle ∧
      middle = { self with
        store := { self.store with db := self.store.db.addIndexes slot block }
        task := .push ⟨.back, slot, some block, .write, true⟩ } := by
    refine ⟨_, ?_, rfl⟩
    simp only [step, known]
    rfl
  have isTask : middle.task = .push ⟨.back, slot, some block, .write, true⟩ := by rw [isMiddle]
  obtain ⟨rest, kept⟩ := spans.ofStep indexes
  have same : middle.store.files.pushBlockBack middle.store.disk block.protobuf =
      self.store.files.pushBlockBack self.store.disk block.protobuf := by rw [isMiddle]
  unfold Store.pushBackBlock
  rcases outcome : self.store.files.pushBlockBack self.store.disk block.protobuf with
    ⟨_ | _ | place, files, disk⟩
  · by_cases first : turn = 0
    · have written : middle.step .write = some { middle with
          store := { middle.store with files, disk }, task := .stopped } := by
        simp only [step, isTask, write, attempts, same, outcome]
      refine .inner free .index id indexes (.inner free .write id written (.done ?_ rfl))
      simp only [if_pos first, isMiddle]
    · have written : self.step .write = some { self with
          store := { self.store with files, disk }, task := .stopped } := by
        simp only [step, known, write, attempts, outcome]
      refine .inner free .write id written (.done ?_ rfl)
      simp only [if_neg first]
  · have written : middle.step .write = some { middle with
        store := { middle.store with files, disk }
        task := .push ⟨.back, slot, some block, .refused, true⟩ } := by
      simp only [step, isTask, write, attempts, same, outcome, if_true]
    refine .inner free .index id indexes (.inner free .write id written
      (.inner free .refuse id rfl (.done ?_ rfl)))
    simp only [isMiddle]
  · have written : middle.step .write = some { middle with
        store := { middle.store with files, disk }
        task := .push ⟨.back, slot, some block, .written place.1 place.2, true⟩ } := by
      simp only [step, isTask, write, attempts, same, outcome]
    obtain ⟨_, kept'⟩ := kept.ofStep written
    have stores := leads_pushBackStored free kept' rfl
    refine .inner free .index id indexes (.inner free .write id written ?_)
    simpa only [isMiddle] using stores

/-- A push at the back ends in the state of the operation. -/
theorem leads_startBack (free : OnCalls allowed) (spans : self.Spans contents)
    (idle : self.task = .idle) (turn slot : Nat) (added : Option BlockWithBinary) :
    Leads allowed (self.startBack slot added) (self.store.pushBlockBack turn slot added).2
      (Task.next none (self.store.pushBlockBack turn slot added).1) := by
  obtain ⟨rest, kept⟩ := spans.change (change_pushBlockBack idle slot added)
  have isStore : (self.startBack slot added).store = self.store := rfl
  have isTask : (self.startBack slot added).task =
      match checkBackSlot self.store.blocks slot >>= fun _ =>
        checkBackHeight self.store.blocks slot added with
      | .error _ => .stopped
      | .ok () => if self.store.blocks.isFull then .idle else
          .push ⟨.back, slot, added, .write, false⟩ := rfl
  rw [Store.pushBlockBack_eq]
  revert isTask
  split
  · exact fun isTask => .done isStore isTask
  · intro isTask
    split at isTask
    · rw [if_pos ‹_›]
      exact .done isStore isTask
    · rw [if_neg ‹_›, ← isStore]
      cases added with
      | none => exact leads_pushBackDead free kept isTask
      | some block => exact leads_pushBackBlock free kept isTask

end Writer

end Alpamayo
