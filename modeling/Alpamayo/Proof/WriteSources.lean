import Alpamayo.Proof.WriteIteration

/-!
This file shows that the writer keeps every block under the slot that it was received for.
-/

namespace Alpamayo

variable {sourced : Nat → BlockWithBinary → Prop} {slot : Nat} {block : BlockWithBinary}

/-- A reported block came for its slot. -/
def MemoryConfirmedBlock.Sourced (sourced : Nat → BlockWithBinary → Prop) :
    MemoryConfirmedBlock → Prop
  | .block slot block => sourced slot block
  | _ => True

theorem MemoryConfirmedBlock.sourced_missedOrDead (slot : Nat) (dead : Bool) :
    (missedOrDead slot dead).Sourced sourced := by
  unfold missedOrDead
  split <;> trivial

namespace StorageMemory

/-- Every block of the buffer came for the slot of its item. -/
structure Sourced (sourced : Nat → BlockWithBinary → Prop) (memory : StorageMemory) : Prop where
  inOrder : InOrder memory.blocks
  blocks : ∀ item ∈ memory.blocks, ∀ block ∈ item.block, sourced item.slot block

theorem sourced_default : Sourced sourced default := ⟨by simp [InOrder, default], by simp [default]⟩

variable {memory after : StorageMemory} {change : BlockInfo → Except MemoryPanic BlockInfo}
  {accepted : Bool}

/-- A change of the item of a slot keeps the sources when its new block has one. -/
theorem Sourced.updateSlot (known : memory.Sourced sourced)
    (changes : ∀ item changed, item.slot = slot → change item = .ok changed →
      changed.slot = item.slot ∧ ∀ block ∈ changed.block, block ∈ item.block ∨ sourced slot block)
    (updated : memory.updateSlot slot change = .ok (accepted, after)) : after.Sourced sourced := by
  obtain ⟨grown, -, origin, -⟩ := growTo_spec known.inOrder slot
  have old : ∀ item ∈ growTo memory.blocks slot, ∀ block ∈ item.block, sourced item.slot block := by
    intro item member block isBlock
    obtain kept | ⟨fresh, -, -⟩ := origin item member
    · exact known.blocks item kept block isBlock
    · rw [fresh] at isBlock
      cases isBlock
  rcases updateSlot_cases known.inOrder slot change with
    ⟨-, result⟩ | ⟨-, index, item, place, isSlot, result⟩
  · rw [result] at updated
    cases updated
    exact ⟨known.inOrder, known.blocks⟩
  · rw [result] at updated
    cases changed : change item with
    | error panic =>
        rw [changed] at updated
        cases updated
    | ok next =>
        rw [changed] at updated
        cases updated
        obtain ⟨same, source⟩ := changes item next isSlot changed
        refine ⟨Successive.isChain_set grown place same, ?_⟩
        intro other member block isBlock
        rcases List.mem_or_eq_of_mem_set member with kept | rfl
        · exact old other kept block isBlock
        · rw [same]
          rcases source block isBlock with earlier | new
          · exact old item (List.mem_of_getElem? place) block earlier
          · rwa [isSlot]

theorem Sourced.addProcessed (known : memory.Sourced sourced) (source : sourced slot block)
    (added : memory.addProcessed slot block = .ok after) : after.Sourced sourced := by
  obtain ⟨accepted, middle, updated, rfl⟩ := eq_of_bind_ok (fun _ middle => middle) added
  refine known.updateSlot ?_ updated
  rintro item changed isSlot ⟨⟩
  refine ⟨rfl, ?_⟩
  rintro _ ⟨⟩
  exact Or.inr source

theorem Sourced.setDead (known : memory.Sourced sourced)
    (marked : memory.setDead slot = .ok after) : after.Sourced sourced := by
  obtain ⟨accepted, middle, updated, rfl⟩ := eq_of_bind_ok (fun _ middle => middle) marked
  refine known.updateSlot ?_ updated
  intro item changed isSlot changes
  split at changes
  · cases changes
  · cases changes
    exact ⟨rfl, fun block => Or.inl⟩

theorem Sourced.setConfirmed (known : memory.Sourced sourced)
    (marked : memory.setConfirmed slot = .ok after) : after.Sourced sourced := by
  unfold StorageMemory.setConfirmed at marked
  split at marked
  · cases marked
  · obtain ⟨accepted, middle, updated, rfl⟩ := eq_of_bind_ok
      (fun accepted middle => if accepted then { middle with confirmed := slot } else middle)
      marked
    have kept : middle.Sourced sourced := by
      refine known.updateSlot ?_ updated
      intro item changed isSlot changes
      split at changes
      · cases changes
      · cases changes
        exact ⟨rfl, fun block => Or.inl⟩
    cases accepted with
    | true => exact ⟨kept.inOrder, kept.blocks⟩
    | false => exact kept

/-- The chain takes blocks from the items that it passes over and adds none. -/
theorem Sourced.clear (known : memory.Sourced sourced) (count : Nat) : Sourced sourced
    { memory with blocks := (memory.blocks.take count).map BlockInfo.clear ++
      memory.blocks.drop count } := by
  refine ⟨(remains_clear known.inOrder count).1, ?_⟩
  intro item member block isBlock
  rcases List.mem_append.mp member with cleared | kept
  · obtain ⟨old, -, rfl⟩ := List.mem_map.mp cleared
    cases isBlock
  · exact known.blocks item (List.mem_of_mem_drop kept) block isBlock

/-- The first item leaves the buffer. -/
theorem Sourced.tail {first : BlockInfo} {rest : List BlockInfo}
    (known : Sourced sourced { memory with blocks := first :: rest }) :
    Sourced sourced { memory with blocks := rest } :=
  ⟨List.IsChain.tail known.inOrder, fun item member =>
    known.blocks item (List.mem_cons_of_mem _ member)⟩

/-- The report of the first item brings its block. -/
theorem Sourced.front {first : BlockInfo} {rest : List BlockInfo}
    (known : Sourced sourced { memory with blocks := first :: rest }) :
    MemoryConfirmedBlock.Sourced sourced (match first.block with
      | some block => .block first.slot block
      | none => .missedOrDead first.slot first.dead) := by
  split
  · rename_i block isBlock
    exact known.blocks first List.mem_cons_self block isBlock
  · exact MemoryConfirmedBlock.sourced_missedOrDead _ _

theorem Sourced.nextRecord {firstSlot place : Nat} {item : BlockInfo} {record : MemoryConfirmedBlock}
    {rest : List BlockInfo} (known : memory.Sourced sourced)
    (reported : memory.nextRecord firstSlot place item = .ok (record, rest)) :
    record.Sourced sourced ∧ Sourced sourced { memory with blocks := rest } := by
  have cleared := known.clear place
  unfold StorageMemory.nextRecord at reported
  dsimp only at reported
  split at reported
  · split at reported
    · cases reported
      exact ⟨trivial, known⟩
    · split at reported
      · cases reported
        exact ⟨trivial, known⟩
      · split at reported
        · split at reported
          · cases reported
          · rename_i found
            rw [found] at cleared
            cases reported
            exact ⟨cleared.front, cleared.tail⟩
        · cases reported
  · split at reported
    · cases reported
      exact ⟨trivial, known⟩
    · split at reported
      · split at reported
        · cases reported
        · rename_i first rest found
          have whole : Sourced sourced { memory with blocks := first :: rest } := by
            rw [← found]
            exact known
          cases reported
          exact ⟨MemoryConfirmedBlock.sourced_missedOrDead _ _, whole.tail⟩
      · cases reported

/-- A round reports a block for its slot and keeps the others. -/
theorem Sourced.popConfirmed {record : Option MemoryConfirmedBlock} (known : memory.Sourced sourced)
    (popped : memory.popConfirmed = .ok (record, after)) :
    (∀ found ∈ record, found.Sourced sourced) ∧ after.Sourced sourced := by
  cases record with
  | none =>
      rw [eq_of_popConfirmed_none popped]
      exact ⟨by simp, known⟩
  | some record =>
      unfold StorageMemory.popConfirmed at popped
      split at popped
      · cases popped
      · split at popped
        · rename_i first index isFirst found
          cases walked : confirmedLoop memory.blocks first.slot (memory.blocks.length + 1) index with
          | error panic => simp [walked, bind, Except.bind] at popped
          | ok ending =>
              cases reported : memory.nextRecord first.slot ending.1 ending.2 with
              | error panic => simp [walked, reported, bind, Except.bind] at popped
              | ok result =>
                  simp only [walked, reported, bind, Except.bind, Except.ok.injEq, Prod.mk.injEq,
                    Option.some.injEq] at popped
                  obtain ⟨rfl, rfl⟩ := popped
                  obtain ⟨source, kept⟩ := known.nextRecord reported
                  refine ⟨?_, kept.inOrder, kept.blocks⟩
                  rintro _ ⟨⟩
                  exact source
        · cases popped

end StorageMemory

/-- Every block of the queue came for its slot. -/
def QueuedSlots.Sourced (sourced : Nat → BlockWithBinary → Prop) (queue : QueuedSlots) : Prop :=
  ∀ slot block, queue.get slot = some (some block) → sourced slot block

namespace QueuedSlots

variable {queue : QueuedSlots}

theorem sourced_empty : QueuedSlots.Sourced sourced SortedMap.empty := by
  intro slot block known
  cases known

theorem Sourced.insert (known : queue.Sourced sourced) {slot : Nat} {added : Option BlockWithBinary}
    (source : ∀ block ∈ added, sourced slot block) :
    QueuedSlots.Sourced sourced (SortedMap.insert queue slot added) := by
  intro other block found
  rw [SortedMap.get_insert] at found
  split at found
  · rename_i same
    cases found
    rw [same]
    exact source block rfl
  · exact known other block found

theorem Sourced.erase (known : queue.Sourced sourced) (slot : Nat) :
    QueuedSlots.Sourced sourced (SortedMap.erase queue slot) := by
  intro other block found
  rw [SortedMap.get_erase] at found
  split at found
  · cases found
  · exact known other block found

end QueuedSlots

/-- The blocks that wait in the writer came for their slots. -/
structure WriteState.Carries (sourced : Nat → BlockWithBinary → Prop) (writer : WriteState) :
    Prop where
  memory : writer.storageMemory.Sourced sourced
  front : writer.queuedSlotsFront.Sourced sourced
  back : writer.queuedSlotsBack.Sourced sourced

namespace WriteState

variable {self : WriteState}

theorem carries_new (store : Store) (turns : Nat → Nat) (concurrency : Nat)
    (backfillUpto : Option Nat) : (WriteState.new store turns concurrency backfillUpto).Carries sourced :=
  ⟨StorageMemory.sourced_default, QueuedSlots.sourced_empty, QueuedSlots.sourced_empty⟩

/-- A report with a source goes to the queue of the front. -/
theorem Carries.takeRecord (carries : self.Carries sourced) {record : MemoryConfirmedBlock}
    (source : record.Sourced sourced) : (self.takeRecord record).Carries sourced := by
  unfold WriteState.takeRecord
  dsimp only
  split
  · exact ⟨carries.memory, carries.front, carries.back⟩
  · cases record with
    | missed slot => exact ⟨carries.memory, carries.front, carries.back⟩
    | dead slot => exact ⟨carries.memory, carries.front.insert (by simp), carries.back⟩
    | block slot block =>
        refine ⟨carries.memory, carries.front.insert ?_, carries.back⟩
        rintro _ ⟨⟩
        exact source

/-- A report changes neither the store nor the history. -/
theorem takeRecord_store (self : WriteState) (record : MemoryConfirmedBlock) :
    (self.takeRecord record).store = self.store ∧ (self.takeRecord record).pushed = self.pushed := by
  unfold WriteState.takeRecord
  dsimp only
  split
  · exact ⟨rfl, rfl⟩
  · cases record <;> exact ⟨rfl, rfl⟩

/-- An answer with a source goes to one of the queues. -/
theorem Carries.routeBlock (carries : self.Carries sourced) {added : Option BlockWithBinary}
    (source : ∀ block ∈ added, sourced slot block) : (self.routeBlock slot added).Carries sourced := by
  unfold WriteState.routeBlock
  dsimp only
  split
  · exact ⟨carries.memory, carries.front.insert source, carries.back⟩
  · split
    · split
      · exact ⟨carries.memory, carries.front, carries.back.insert source⟩
      · exact ⟨carries.memory, carries.front, carries.back⟩
    · exact ⟨carries.memory, carries.front, carries.back⟩

theorem routeBlock_store (added : Option BlockWithBinary) :
    (self.routeBlock slot added).store = self.store ∧
      (self.routeBlock slot added).pushed = self.pushed := by
  unfold WriteState.routeBlock
  dsimp only
  split
  · exact ⟨rfl, rfl⟩
  · split
    · split <;> exact ⟨rfl, rfl⟩
    · exact ⟨rfl, rfl⟩

/-- The catch-up keeps an answer with a source for the front. -/
theorem Carries.routeCatchup (carries : self.Carries sourced) {added : Option BlockWithBinary}
    (next : Nat) (source : ∀ block ∈ added, sourced slot block) :
    (self.routeCatchup next slot added).Carries sourced := by
  unfold WriteState.routeCatchup
  dsimp only
  split
  · exact ⟨carries.memory, carries.front.insert source, carries.back⟩
  · exact ⟨carries.memory, carries.front, carries.back⟩

theorem routeCatchup_store (next : Nat) (added : Option BlockWithBinary) :
    (self.routeCatchup next slot added).store = self.store ∧
      (self.routeCatchup next slot added).pushed = self.pushed := by
  unfold WriteState.routeCatchup
  dsimp only
  split <;> exact ⟨rfl, rfl⟩

end WriteState

end Alpamayo
