import Alpamayo.Proof.LatestConfirmed
import Alpamayo.Proof.PushOutcomes

/-!
This file shows that the search for a height ends in every reader when every pushed block has a height.
-/

namespace Alpamayo

variable {contents : List StoredBlock}

/-- The loop ends on contents whose live blocks have heights. -/
theorem StoredBlocksWrite.Spans.findBlockHeight_ends {blocks : StoredBlocksWrite}
    (spans : blocks.Spans contents) (walkable : ∀ block ∈ contents, block.Walkable) {fuel slot : Nat}
    (enough : slot < fuel) : blocks.toRead.findBlockHeight fuel slot ≠ none := by
  induction fuel generalizing slot with
  | zero => omega
  | succ fuel ih =>
      rw [StoredBlocksRead.findBlockHeight]
      obtain ⟨-, same⟩ | ⟨-, same⟩ | ⟨block, member, isSlot, same⟩ := spans.location_cases slot
      · rw [same]
        exact Option.some_ne_none _
      · rw [same]
        exact Option.some_ne_none _
      · rw [same]
        have present := spans.consecutive.present block member
        cases dead : block.dead with
        | true =>
            have above := (walkable block member).above present dead
            simp only [if_true]
            rw [if_neg (by omega)]
            exact ih (by omega)
        | false =>
            have live : block.isLive = true := by
              rw [StoredBlock.isLive, present, dead]
              rfl
            obtain ⟨height, known⟩ :=
              Option.isSome_iff_exists.mp ((walkable block member).heighted live)
            simp only [Bool.false_eq_true, if_false, known]
            exact Option.some_ne_none _

/-- The loop asks again and again for a live block without a height. -/
theorem StoredBlocksRead.findBlockHeight_loops {copy : StoredBlocksRead} {slot : Nat}
    {block : StoredBlock} (found : copy.getBlockLocation slot = .found block)
    (heightless : block.blockHeight = none) (fuel : Nat) : copy.findBlockHeight fuel slot = none := by
  induction fuel with
  | zero => rfl
  | succ fuel ih =>
      simp only [findBlockHeight, found, heightless]
      exact ih

/-- The request for the height has an answer when the loop ends. -/
theorem Reader.processBlockHeight_ends {reader : Reader} (expired : Bool) (commitment : CommitmentLevel)
    (ends : ∀ slot, reader.blocks.findBlockHeight (slot + 1) slot ≠ none) :
    reader.processBlockHeight expired commitment ≠ none := by
  unfold processBlockHeight
  split
  · exact Option.some_ne_none _
  · dsimp only
    split
    · exact Option.some_ne_none _
    · rw [ne_eq, Option.map_eq_none_iff]
      exact ends _

/-- A new cell of the ring keeps a property of the cells. -/
theorem StoredBlocksWrite.every_pushCell {self after : StoredBlocksWrite} {holds : StoredBlock → Prop}
    {cell : StoredBlock} {side : VecSide} (every : self.blocks.Every holds) (known : holds cell)
    (pushed : self.pushCell side cell = some after) : after.blocks.Every holds := by
  unfold pushCell at pushed
  split at pushed
  · split at pushed <;> cases pushed
    exact every.pushBack known
  · split at pushed <;> cases pushed
    exact every.pushFront known

namespace Writer

variable {self after : Writer} {event : WriterEvent}

/-- Each push carries a height unless its slot is refused. -/
def Heights (writer : Writer) : WriterEvent → Prop
  | .pushBlockFront slot block => CarriesFront writer.store.blocks slot block
  | .pushBlockBack slot block => CarriesBack writer.store.blocks slot block
  | _ => True

/-- The cells of the ring and those of the pushes under way are walkable. -/
structure Walkable (writer : Writer) : Prop where
  cells : writer.store.blocks.blocks.Every StoredBlock.Walkable
  carries : ∀ push ∈ writer.task.underWay, CarriesHeight push.slot push.block
  recorded : ∀ push ∈ writer.task.underWay, ∀ cell, push.stage = .recorded cell → cell.Walkable

/-- The pushes under way keep their heights. -/
theorem Walkable.carries_change (walkable : self.Walkable) (permitted : self.Heights event)
    (change : Change self event after) :
    ∀ push ∈ after.task.underWay, CarriesHeight push.slot push.block := by
  intro next member
  cases change.underWay member with
  | front slot block cause isNext checked | back slot block cause isNext checked ring evicted =>
      rw [cause] at permitted
      rw [isNext]
      exact permitted checked
  | goesOn push known side slot block cell same =>
      rw [slot, block]
      exact walkable.carries push known

/-- Every permitted change keeps the cells walkable. -/
theorem Walkable.change (walkable : self.Walkable) (permitted : self.Heights event)
    (change : Change self event after) : after.Walkable where
  cells := by
    cases change.ring with
    | other ring firstAvailable stored evicted before done sends =>
        rw [ring]
        exact walkable.cells
    | popped side block popped stored evicted before done cause =>
        exact Store.every_popRing walkable.cells StoredBlock.walkable_newNoexists popped
    | pushed push cell known stage pushed stored evicted task cause =>
        exact StoredBlocksWrite.every_pushCell walkable.cells
          (walkable.recorded push (by rw [known]; rfl) cell stage) pushed
    | published side known blocks stored evicted done =>
        rw [blocks, StoredBlocksWrite.updateTotal_blocks]
        exact walkable.cells
  carries := walkable.carries_change permitted change
  recorded := by
    intro next member cell stage
    have carries := walkable.carries_change permitted change next member
    cases change.underWay member with
    | front slot block cause isNext checked | back slot block cause isNext checked ring evicted =>
        rw [isNext] at stage
        cases stage
    | goesOn push known side slot block recorded same =>
        obtain old | new := recorded cell stage
        · exact walkable.recorded push known cell old
        · exact carries.pushable cell new

/-- Every permitted run keeps the cells walkable. -/
theorem Walkable.run (walkable : self.Walkable) (run : Run Heights self after) : after.Walkable :=
  run.invariant Walkable walkable fun _ _ _ kept permitted change => kept.change permitted change

/-- In a walkable state the search for a height ends. -/
theorem Walkable.ends (walkable : self.Walkable) (spans : self.Spans contents) (slot : Nat) :
    self.store.blocks.toRead.findBlockHeight (slot + 1) slot ≠ none := by
  refine spans.ring.findBlockHeight_ends (fun block member => ?_) (Nat.lt_succ_self slot)
  obtain ⟨index, rfl⟩ := (spans.ring.mem_iff (spans.ring.consecutive.present block member)).mp member
  exact walkable.cells index

end Writer

namespace Store

variable {store : Store} {call : StoreCall}

/-- The push of a call carries a height unless its slot is refused. -/
def CallCarries (store : Store) : StoreCall → Prop
  | .pushBlockFront _ slot block => CarriesFront store.blocks slot block
  | .pushBlockBack _ slot block => CarriesBack store.blocks slot block
  | .popBlockFront | .popBlockBack => True

/-- Each push into the store and into those before it has carried a height. -/
inductive Kept : Store → Prop
  | fresh (startup : Startup) (empty : startup.db = Rocksdb.empty) : Kept startup.store
  | restart (startup : Startup) (closed : Store) (kept : Kept closed) (db : startup.db = closed.db)
      (disk : startup.disk = closed.disk) : Kept startup.store
  | call (store : Store) (call : StoreCall) (kept : Kept store) (carries : store.CallCarries call)
      (success : (store.call call).1 = none) : Kept (store.call call).2

theorem Kept.reachable (kept : Kept store) : Reachable store := by
  induction kept with
  | fresh startup empty => exact .fresh startup empty
  | restart startup closed _ db disk ih => exact .restart startup closed ih db disk
  | call store call _ _ success ih => exact .call store call ih success

/-- A push without an error had its slot accepted. -/
theorem CallCarries.pushable (carries : store.CallCarries call)
    (success : (store.call call).1 = none) : CallPushable StoredBlock.Walkable call := by
  cases call with
  | pushBlockFront turn slot block =>
      obtain ⟨_, stored⟩ := ok_of_settle success
      unfold Store.pushBlockFront at stored
      split at stored
      · cases stored
      · rename_i accepted
        obtain ⟨_, checked, -⟩ := bind_eq_ok accepted
        exact (carries checked).pushable
  | pushBlockBack turn slot block =>
      obtain ⟨_, stored⟩ := ok_of_settle success
      unfold Store.pushBlockBack at stored
      split at stored
      · cases stored
      · rename_i accepted
        obtain ⟨_, checked, -⟩ := bind_eq_ok accepted
        exact (carries checked).pushable
  | popBlockFront | popBlockBack => trivial

/-- A startup loads walkable cells from walkable records. -/
theorem every_startup (startup : Startup) (records : startup.db.Every StoredBlock.Walkable) :
    startup.store.Every StoredBlock.Walkable := by
  obtain ⟨present, chain, -⟩ := spawnSlotsLoop_chain startup.loaded
  obtain ⟨represents, -⟩ := StoredBlocksWrite.new_represents ⟨present, chain⟩ startup.placed
  refine ⟨represents.every StoredBlock.walkable_newNoexists fun block member => ?_, records⟩
  obtain ⟨entry, inside, rfl⟩ := exists_record_of_spawnSlotsLoop startup.loaded block member
  exact records entry.1 entry.2 (SortedMap.get_eq_some_iff.mpr inside)

/-- Every cell and every record of a kept store is walkable. -/
theorem Kept.walkable (kept : Kept store) : store.Every StoredBlock.Walkable := by
  induction kept with
  | fresh startup empty =>
      refine every_startup startup ?_
      rw [empty]
      intro slot value found
      cases found
  | restart startup closed _ db _ ih => exact every_startup startup (db ▸ ih.records)
  | call store call _ carries success ih =>
      exact ih.call StoredBlock.walkable_newNoexists (carries.pushable success)

/-- A reader that follows the writer of a kept store ends every search for a height. -/
theorem Kept.reader_ends {startup : Startup} (kept : Kept startup.store)
    (recentBlocks : List (Nat × BlockWithBinary)) {final : Writer}
    (run : Writer.Run Writer.Heights startup.writer final) {messages : List ReadWriteSyncMessage}
    (applied : messages <+: final.store.blocks.sent) :
    ∃ reader, (startup.reader recentBlocks).updates messages = .ok reader ∧
      ∀ slot, reader.blocks.findBlockHeight (slot + 1) slot ≠ none := by
  have spans : startup.writer.Spans startup.list := Writer.spans_start startup.loaded startup.placed
  have silent : startup.blocks.sent = [] := (StoredBlocksWrite.new_fields startup.placed).1
  have walkable : startup.writer.Walkable := ⟨kept.walkable.cells, by rintro _ ⟨⟩, by rintro _ ⟨⟩⟩
  obtain ⟨reader, state, contents, started, updated, copy, whole⟩ :=
    run.copied (startup.reader recentBlocks) spans rfl silent rfl applied
  refine ⟨reader, updated, fun slot => ?_⟩
  rw [copy]
  exact (walkable.run started).ends whole slot

/-- While every push carries a height, every live block has a height, each push stores its block or is
refused without a panic, and the readers' search for a height ends. -/
theorem heights_keepStore (store : Store) (kept : Kept store) :
    store.blocks.Heighted ∧
    (∀ (turn slot : Nat) (pushed : Option BlockWithBinary),
      (store.FrontMeets slot pushed → PushOutcome store slot pushed
        ((store.pushBlockFront turn slot pushed).1.map fun _ => true)
        (store.pushBlockFront turn slot pushed).2) ∧
      (store.BackMeets slot pushed → PushOutcome store slot pushed
        (store.pushBlockBack turn slot pushed).1 (store.pushBlockBack turn slot pushed).2)) ∧
    ∀ (startup : Startup), startup.store = store →
      ∀ (recentBlocks : List (Nat × BlockWithBinary)) (final : Writer),
      Writer.Run Writer.Heights startup.writer final →
      ∀ messages, messages <+: final.store.blocks.sent →
        ∃ reader, (startup.reader recentBlocks).updates messages = .ok reader ∧
          (∀ slot, reader.blocks.findBlockHeight (slot + 1) slot ≠ none) ∧
          ∀ expired commitment, reader.processBlockHeight expired commitment ≠ none := by
  obtain ⟨contents, ready⟩ := kept.reachable.ready
  refine ⟨kept.walkable.heighted, fun turn slot pushed => ⟨fun meets => ?_, fun meets => ?_⟩, ?_⟩
  · exact ready.pushBlockFront_outcome kept.walkable meets turn
  · exact ready.pushBlockBack_outcome kept.walkable meets turn
  · rintro startup rfl recentBlocks final run messages applied
    obtain ⟨reader, updated, ends⟩ := kept.reader_ends recentBlocks run applied
    exact ⟨reader, updated, ends, fun expired commitment =>
      Reader.processBlockHeight_ends expired commitment ends⟩

/-- The store with one block has kept its heights. -/
theorem oneBlock_kept : Kept (oneBlock 4) :=
  .call _ _ (.fresh _ rfl) (fun _ => rfl) (by decide +kernel)

/-- The next block at the front has a height and finds room. -/
theorem oneBlock_frontMeets :
    (oneBlock 4).FrontMeets 2 (some (Writer.plainBlock 2 (List.replicate 5 2))) where
  slotFits := by decide +kernel
  carries := fun _ => rfl
  heightFits := by
    intro _ _ front known
    have height : (oneBlock 4).blocks.getFrontHeight = .ok (some (1, 1)) := by decide +kernel
    rw [height] at known
    cases known
    decide
  room := by
    intro _ contents _
    refine Or.inl ⟨0, StorageFilesWrite.findsRoom_zero_iff.mpr ⟨by decide +kernel, ?_⟩⟩
    exact ⟨0, ⟨0, "a", 0, 4, 10, true⟩, by decide +kernel, by decide +kernel, by decide +kernel⟩

/-- The next block at the back has a height and a file. -/
theorem oneBlock_backMeets : (oneBlock 4).BackMeets 0 (some (Writer.plainBlock 0 [3])) where
  slotFits := by decide +kernel
  carries := fun _ => rfl
  heightFits := by
    rintro _ _ ⟨⟩ _ _ _ ⟨⟩
    decide
  file := by
    intro _ _ _
    decide +kernel

/-- The stream delivers a block for slot 5 and finds slot 6 dead. -/
def deadSlotEvents : List WriterEvent :=
  [.send (.blockNew 5 (Writer.plainBlock 4 [1, 2]))] ++
    Writer.storeFront 5 (Writer.plainBlock 4 [1, 2]) ++
    [.send (.blockDead 6), .pushBlockFront 6 none, .roomy, .record, .store, .publish,
      .send (.slotFinalized 5)]

/-- The block has a height, and a dead slot needs none. -/
theorem heights_deadSlotEvents (writer : Writer) :
    ∀ event ∈ deadSlotEvents, writer.Heights event := by
  intro event member
  simp only [deadSlotEvents, Writer.storeFront, List.cons_append, List.nil_append, List.mem_cons,
    List.not_mem_nil, or_false] at member
  obtain rfl | rfl | rfl | rfl | rfl | rfl | rfl | rfl | rfl | rfl | rfl | rfl | rfl | rfl | rfl := member
  case inr.inl => exact fun _ => rfl
  case inr.inr.inr.inr.inr.inr.inr.inr.inr.inl => exact fun _ => Nat.succ_pos 5
  all_goals trivial

/-- Blocks with heights above and below the block of slot 1 are stored or refused, and a reader that
has confirmed the dead slot 6 finds the height of the block below it. -/
theorem heights_keepStore_four :
    PushOutcome (oneBlock 4) 2 (some (Writer.plainBlock 2 (List.replicate 5 2)))
      (((oneBlock 4).pushBlockFront 0 2
        (some (Writer.plainBlock 2 (List.replicate 5 2)))).1.map fun _ => true)
      ((oneBlock 4).pushBlockFront 0 2 (some (Writer.plainBlock 2 (List.replicate 5 2)))).2 ∧
    PushOutcome (oneBlock 4) 0 (some (Writer.plainBlock 0 [3]))
      ((oneBlock 4).pushBlockBack 0 0 (some (Writer.plainBlock 0 [3]))).1
      ((oneBlock 4).pushBlockBack 0 0 (some (Writer.plainBlock 0 [3]))).2 ∧
    ∃ final reader, Writer.Run Writer.Heights (Startup.oneFile 10 (by decide)).writer final ∧
      ((Startup.oneFile 10 (by decide)).reader []).updates final.store.blocks.sent = .ok reader ∧
      reader.reachedSlot .confirmed = 6 ∧ reader.blocks.getBlockLocation 6 = .dead ∧
      ∀ expired commitment, reader.processBlockHeight expired commitment ≠ none := by
  have taken : ((Startup.oneFile 10 (by decide)).writer.takeAll deadSlotEvents).bind (fun state =>
      (((Startup.oneFile 10 (by decide)).reader []).updates state.store.blocks.sent).toOption.map
        fun reader => (reader.reachedSlot .confirmed,
          reader.blocks.getBlockLocation 6)) = some (6, .dead) := by
    decide +kernel
  obtain ⟨final, taken, known⟩ := Option.bind_eq_some_iff.mp taken
  have run := Writer.run_of_takeAll (Writer.permits_of_forall heights_deadSlotEvents _) taken
  have kept : Kept (Startup.oneFile 10 (by decide)).store := .fresh _ rfl
  obtain ⟨-, -, walks⟩ := heights_keepStore _ kept
  obtain ⟨reader, updated, -, ends⟩ := walks _ rfl [] final run _ (List.prefix_refl _)
  rw [updated] at known
  obtain ⟨confirmed, dead⟩ := Prod.mk.inj (Option.some.inj known)
  obtain ⟨-, stores, -⟩ := heights_keepStore _ oneBlock_kept
  exact ⟨(stores 0 2 _).1 oneBlock_frontMeets, (stores 0 0 _).2 oneBlock_backMeets, final, reader, run,
    updated, confirmed, dead, ends⟩

/-- The sources may send a block without a height. -/
def heightless : BlockWithBinary := { Writer.plainBlock 1 [1, 2, 3, 4] with blockHeight := none }

/-- The store after a push of the block without a height. -/
def heightlessStore (startup : Startup) : Store :=
  (startup.store.call (.pushBlockFront 0 1 (some heightless))).2

/-- The empty store takes a block without a height; then the next push panics, and the readers search for
the height without an end. -/
theorem heights_false :
    Reachable (heightlessStore (Startup.oneFile 10 (by decide))) ∧
    ¬ (heightlessStore (Startup.oneFile 10 (by decide))).blocks.Heighted ∧
    ((heightlessStore (Startup.oneFile 10 (by decide))).pushBlockFront 0 2
      (some (Writer.plainBlock 2 [2]))).1 = .error (.panicked "should have height") ∧
    (∃ final reader, Writer.Run (fun _ _ => True) (Startup.oneFile 10 (by decide)).writer final ∧
      ((Startup.oneFile 10 (by decide)).reader []).updates final.store.blocks.sent = .ok reader ∧
      reader.processBlockHeight false .confirmed = none ∧
      ∀ fuel, reader.blocks.findBlockHeight fuel 1 = none) ∧
    ¬ ∀ store, Reachable store → ∀ (turn slot : Nat) (pushed : Option BlockWithBinary),
      PushOutcome store slot pushed ((store.pushBlockFront turn slot pushed).1.map fun _ => true)
        (store.pushBlockFront turn slot pushed).2 := by
  have reachable : Reachable (Startup.oneFile 10 (by decide)).store := .fresh _ rfl
  have stored : ((Startup.oneFile 10 (by decide)).store.pushBlockFront 0 1 (some heightless)).1 =
      .ok () := by decide +kernel
  have bare : ¬ (heightlessStore (Startup.oneFile 10 (by decide))).blocks.Heighted := by
    intro heighted
    have cell := heighted ⟨0, by decide⟩ (by decide +kernel)
    revert cell
    decide +kernel
  refine ⟨.call _ _ reachable (by decide +kernel), bare, by decide +kernel, ?_, fun always => ?_⟩
  · have taken : ((Startup.oneFile 10 (by decide)).writer.takeAll (Writer.storeFront 1 heightless)).map
        (fun final => (((Startup.oneFile 10 (by decide)).reader []).updates
          final.store.blocks.sent).toOption.map fun reader =>
            (reader.blocks.getBlockLocation 1, reader.processBlockHeight false .confirmed)) =
        some (some (.found (StoredBlock.newConfirmed 1 (some 7) none 0 0 4), none)) := by
      decide +kernel
    obtain ⟨final, taken, applied⟩ := Option.map_eq_some_iff.mp taken
    have run := Writer.run_of_takeAll (Writer.permits_any _ _) taken
    obtain ⟨reader, -, -, -, updated, -⟩ := run.copied ((Startup.oneFile 10 (by decide)).reader [])
      (Writer.spans_start (Startup.oneFile 10 (by decide)).loaded
        (Startup.oneFile 10 (by decide)).placed) rfl rfl rfl (List.prefix_refl _)
    rw [updated] at applied
    obtain ⟨found, answer⟩ := Prod.mk.inj (Option.some.inj applied)
    exact ⟨final, reader, run, updated, answer, StoredBlocksRead.findBlockHeight_loops found rfl⟩
  · have outcome := always _ reachable 0 1 (some heightless)
    rw [stored] at outcome
    exact bare outcome.2

end Store

end Alpamayo
