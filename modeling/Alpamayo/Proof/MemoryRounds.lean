import Alpamayo.Proof.MemoryBuffer

/-!
This file shows that the buffer never reports a slot above the confirmed one.
-/

namespace Alpamayo

namespace StorageMemory

/-- The deque is in order, and its confirmed items lie at or below the confirmed slot. -/
structure Ordered (memory : StorageMemory) : Prop where
  inOrder : InOrder memory.blocks
  below : ∀ item ∈ memory.blocks, item.confirmed = true → item.slot ≤ memory.confirmed

theorem ordered_default : Ordered default := ⟨by simp [InOrder, default], by simp [default]⟩

section calls

variable {memory after : StorageMemory} {slot : Nat} {accepted : Bool}
  {change : BlockInfo → Except MemoryPanic BlockInfo}

/-- A change of one item keeps the order and the other confirmed items. -/
theorem Ordered.updateSlot (ordered : memory.Ordered)
    (same : ∀ item changed, change item = .ok changed → changed.slot = item.slot)
    (updated : memory.updateSlot slot change = .ok (accepted, after)) :
    InOrder after.blocks ∧ after.confirmed = memory.confirmed ∧
      ∀ item ∈ after.blocks, item.confirmed = true → item.slot ≤ memory.confirmed ∨
        (accepted = true ∧ item.slot = slot ∧ ∃ old, change old = .ok item ∧
          (old.confirmed = true → item.slot ≤ memory.confirmed)) := by
  obtain ⟨grown, -, origin, -⟩ := growTo_spec ordered.inOrder slot
  have old {item : BlockInfo} (member : item ∈ growTo memory.blocks slot)
      (confirmed : item.confirmed = true) : item.slot ≤ memory.confirmed := by
    rcases origin item member with known | ⟨fresh, -, -⟩
    · exact ordered.below item known confirmed
    · rw [fresh] at confirmed
      cases confirmed
  rcases updateSlot_cases ordered.inOrder slot change with
    ⟨-, result⟩ | ⟨-, index, item, place, isSlot, result⟩
  · rw [result] at updated
    cases updated
    exact ⟨ordered.inOrder, rfl, fun item member confirmed =>
      Or.inl (ordered.below item member confirmed)⟩
  · rw [result] at updated
    cases changes : change item with
    | error panic =>
        rw [changes] at updated
        cases updated
    | ok changed =>
        rw [changes] at updated
        cases updated
        have kept := same item changed changes
        refine ⟨Successive.isChain_set grown place kept, rfl, ?_⟩
        intro other member confirmed
        rcases List.mem_or_eq_of_mem_set member with known | rfl
        · exact Or.inl (old known confirmed)
        · refine Or.inr ⟨rfl, kept.trans isSlot, item, changes, fun oldConfirmed => ?_⟩
          rw [kept]
          exact old (List.mem_of_getElem? place) oldConfirmed

/-- A change that confirms nothing keeps the order. -/
theorem Ordered.updateSlot_unconfirmed (ordered : memory.Ordered)
    (same : ∀ item changed, change item = .ok changed →
      changed.slot = item.slot ∧ changed.confirmed = item.confirmed)
    (updated : memory.updateSlot slot change = .ok (accepted, after)) : after.Ordered := by
  obtain ⟨inOrder, confirmed, below⟩ :=
    ordered.updateSlot (fun item changed changes => (same item changed changes).1) updated
  refine ⟨inOrder, ?_⟩
  intro item member isConfirmed
  rw [confirmed]
  rcases below item member isConfirmed with bound | ⟨-, -, old, changes, bound⟩
  · exact bound
  · rw [(same old item changes).2] at isConfirmed
    exact bound isConfirmed

/-- An update with a result comes from the change of one slot. -/
theorem eq_of_bind_ok {result : Except MemoryPanic (Bool × StorageMemory)}
    (last : Bool → StorageMemory → StorageMemory)
    (known : (result >>= fun pair => .ok (last pair.1 pair.2)) = .ok after) :
    ∃ accepted middle, result = .ok (accepted, middle) ∧ last accepted middle = after := by
  cases result with
  | error panic => cases known
  | ok pair => exact ⟨pair.1, pair.2, rfl, by cases known; rfl⟩

theorem Ordered.addProcessed {block : BlockWithBinary} (ordered : memory.Ordered)
    (added : memory.addProcessed slot block = .ok after) : after.Ordered := by
  obtain ⟨accepted, middle, updated, rfl⟩ := eq_of_bind_ok (fun _ middle => middle) added
  refine ordered.updateSlot_unconfirmed ?_ updated
  rintro item changed ⟨⟩
  exact ⟨rfl, rfl⟩

theorem Ordered.setDead (ordered : memory.Ordered) (marked : memory.setDead slot = .ok after) :
    after.Ordered := by
  obtain ⟨accepted, middle, updated, rfl⟩ := eq_of_bind_ok (fun _ middle => middle) marked
  refine ordered.updateSlot_unconfirmed ?_ updated
  intro item changed changes
  split at changes
  · cases changes
  · cases changes
    exact ⟨rfl, rfl⟩

theorem Ordered.setConfirmed (ordered : memory.Ordered)
    (marked : memory.setConfirmed slot = .ok after) : after.Ordered := by
  unfold StorageMemory.setConfirmed at marked
  split at marked
  · cases marked
  · rename_i forward
    obtain ⟨accepted, middle, updated, rfl⟩ := eq_of_bind_ok
      (fun accepted middle => if accepted then { middle with confirmed := slot } else middle)
      marked
    obtain ⟨inOrder, confirmed, below⟩ := ordered.updateSlot (by
      intro item changed changes
      split at changes
      · cases changes
      · cases changes
        rfl) updated
    cases accepted with
    | true =>
        refine ⟨inOrder, fun item member isConfirmed => ?_⟩
        show item.slot ≤ slot
        rcases below item member isConfirmed with bound | ⟨-, isSlot, -⟩ <;> omega
    | false =>
        refine ⟨inOrder, fun item member isConfirmed => ?_⟩
        show item.slot ≤ middle.confirmed
        rcases below item member isConfirmed with bound | ⟨impossible, -⟩
        · omega
        · cases impossible

end calls

section round

variable {memory after : StorageMemory} {first item : BlockInfo}

/-- The walk ends at an item without a block or with a parent before the deque. -/
theorem confirmedLoop_parent {blocks : List BlockInfo} {firstSlot : Nat} (fuel : Nat)
    {index place : Nat} (walked : confirmedLoop blocks firstSlot fuel index = .ok (place, item)) :
    ∀ block ∈ item.block, block.parentSlot < firstSlot := by
  induction fuel generalizing index with
  | zero => cases walked
  | succ fuel ih =>
      simp only [confirmedLoop] at walked
      split at walked
      · cases walked
      · split at walked
        · rename_i block known
          split at walked
          · exact ih walked
          · cases walked
            intro other isOther
            rw [known] at isOther
            cases isOther
            omega
        · rename_i unknown
          cases walked
          simp [unknown]

/-- The items after a report have the slots and the marks of items before it. -/
def Remains (blocks rest : List BlockInfo) : Prop :=
  InOrder rest ∧ ∀ item ∈ rest, ∃ old ∈ blocks, old.slot = item.slot ∧ old.confirmed = item.confirmed

theorem remains_refl {blocks : List BlockInfo} (inOrder : InOrder blocks) : Remains blocks blocks :=
  ⟨inOrder, fun item member => ⟨item, member, rfl, rfl⟩⟩

theorem Remains.tail {blocks rest : List BlockInfo} (remains : Remains blocks (first :: rest)) :
    Remains blocks rest :=
  ⟨remains.1.tail, fun item member => remains.2 item (List.mem_cons_of_mem _ member)⟩

/-- Clearing the items that a chain passes over keeps the slots and the marks. -/
theorem remains_clear {blocks : List BlockInfo} (inOrder : InOrder blocks) (count : Nat) :
    Remains blocks ((blocks.take count).map BlockInfo.clear ++ blocks.drop count) := by
  have slots : ((blocks.take count).map BlockInfo.clear ++ blocks.drop count).map BlockInfo.slot =
      blocks.map BlockInfo.slot := by
    conv_rhs => rw [← List.take_append_drop count blocks]
    simp only [List.map_append, List.map_map]
    rfl
  constructor
  · unfold InOrder at inOrder ⊢
    rw [← List.isChain_map (R := fun low high : Nat => high = low + 1) BlockInfo.slot] at inOrder ⊢
    rwa [slots]
  · intro item member
    rcases List.mem_append.mp member with cleared | kept
    · obtain ⟨old, isOld, rfl⟩ := List.mem_map.mp cleared
      exact ⟨old, List.mem_of_mem_take isOld, rfl, rfl⟩
    · exact ⟨item, List.mem_of_mem_drop kept, rfl, rfl⟩

/-- A report comes from a next slot that is not above the deque. -/
theorem nextRecord_remains {firstSlot place : Nat} {record : MemoryConfirmedBlock}
    {rest : List BlockInfo} (inOrder : InOrder memory.blocks)
    (parent : ∀ block ∈ item.block, block.parentSlot < firstSlot)
    (reported : memory.nextRecord firstSlot place item = .ok (record, rest)) :
    memory.genNextSlot ≤ firstSlot ∧ Remains memory.blocks rest := by
  have unchanged := remains_refl inOrder
  have cleared := remains_clear inOrder place
  unfold nextRecord at reported
  dsimp only at reported
  split at reported
  · rename_i block known
    have before := parent block known
    split at reported
    · cases reported
      exact ⟨by omega, unchanged⟩
    · split at reported
      · cases reported
        exact ⟨by omega, unchanged⟩
      · split at reported
        · split at reported
          · cases reported
          · rename_i found
            rw [found] at cleared
            cases reported
            exact ⟨by omega, cleared.tail⟩
        · cases reported
  · split at reported
    · cases reported
      exact ⟨by omega, unchanged⟩
    · split at reported
      · split at reported
        · cases reported
        · rename_i found
          rw [found] at unchanged
          cases reported
          rw [found]
          exact ⟨by omega, unchanged.tail⟩
      · cases reported

/-- A round that reports a slot reports one that is not above the confirmed slot. -/
theorem Ordered.popConfirmed {record : MemoryConfirmedBlock} (ordered : memory.Ordered)
    (popped : memory.popConfirmed = .ok (some record, after)) :
    after.Ordered ∧ after.confirmed = memory.confirmed ∧
      memory.genNextSlot ≤ memory.confirmed ∧ after.genNextSlot = memory.genNextSlot + 1 := by
  unfold StorageMemory.popConfirmed at popped
  split at popped
  · cases popped
  · split at popped
    · rename_i first index isFirst found
      cases walked : confirmedLoop memory.blocks first.slot (memory.blocks.length + 1) index with
      | error panic => simp [walked, bind, Except.bind] at popped
      | ok ending =>
          obtain ⟨place, item⟩ := ending
          cases reported : memory.nextRecord first.slot place item with
          | error panic => simp [walked, reported, bind, Except.bind] at popped
          | ok result =>
              simp only [walked, reported, bind, Except.bind, Except.ok.injEq, Prod.mk.injEq] at popped
              obtain ⟨-, rfl⟩ := popped
              obtain ⟨next, inOrder, origin⟩ :=
                nextRecord_remains ordered.inOrder (confirmedLoop_parent _ walked) reported
              obtain ⟨inside, isConfirmed, -⟩ := List.findIdx?_eq_some_iff_getElem.mp found
              have known := List.getElem_mem inside
              have lowest := Successive.head_le ordered.inOrder isFirst known
              have bound := ordered.below _ known isConfirmed
              refine ⟨⟨inOrder, ?_⟩, rfl, by omega, rfl⟩
              intro other member otherConfirmed
              obtain ⟨old, isOld, slot, mark⟩ := origin other member
              rw [← slot]
              exact ordered.below old isOld (mark.trans otherConfirmed)
    · cases popped

/-- A round without a report changes nothing. -/
theorem eq_of_popConfirmed_none (popped : memory.popConfirmed = .ok (none, after)) :
    after = memory := by
  unfold StorageMemory.popConfirmed at popped
  split at popped
  · cases popped
    rfl
  · split at popped
    · rename_i first index isFirst found
      cases walked : confirmedLoop memory.blocks first.slot (memory.blocks.length + 1) index with
      | error panic => simp [walked, bind, Except.bind] at popped
      | ok ending =>
          cases reported : memory.nextRecord first.slot ending.1 ending.2 with
          | error panic => simp [walked, reported, bind, Except.bind] at popped
          | ok result => simp [walked, reported, bind, Except.bind] at popped
    · cases popped
      rfl

end round

end StorageMemory

end Alpamayo
