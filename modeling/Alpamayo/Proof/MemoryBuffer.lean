import Alpamayo.General.Successive
import Alpamayo.Storage.Memory
import Mathlib.Logic.Relation

/-!
This file describes what the calls of the confirmed-chain buffer do to its deque.
-/

namespace Alpamayo

/-- The slots of the deque follow each other. -/
def InOrder (blocks : List BlockInfo) : Prop :=
  blocks.IsChain fun low high => high.slot = low.slot + 1

namespace StorageMemory

/-- The buffer holds a block of the slot with this parent. -/
def Link (memory : StorageMemory) (slot parent : Nat) : Prop :=
  ∃ item ∈ memory.blocks, item.slot = slot ∧
    ∃ block, item.block = some block ∧ block.parentSlot = parent

/-- The parent links of the held blocks lead from one slot to the other. -/
def Reachable (memory : StorageMemory) : Nat → Nat → Prop := Relation.ReflTransGen memory.Link

section growTo

variable {blocks : List BlockInfo} {slot : Nat}

/-- A growing deque stays in order, keeps its items, and gets the slot; the new items are blank. -/
theorem growTo_spec (inOrder : InOrder blocks) (slot : Nat) :
    InOrder (growTo blocks slot) ∧
      (∀ item ∈ blocks, item ∈ growTo blocks slot) ∧
      (∀ item ∈ growTo blocks slot, item ∈ blocks ∨ (item = BlockInfo.new item.slot ∧
        (∀ other ∈ blocks, other.slot ≠ item.slot) ∧
        (slot ≤ item.slot ∨ ∃ other ∈ blocks, other.slot ≤ item.slot))) ∧
      ∃ item ∈ growTo blocks slot, item.slot = slot := by
  unfold growTo
  split
  · rename_i first last isFirst isLast
    have lower {item : BlockInfo} (member : item ∈ blocks) :=
      Successive.head_le inOrder isFirst member
    have upper {item : BlockInfo} (member : item ∈ blocks) :=
      Successive.le_getLast inOrder isLast member
    have lastMember := List.mem_of_getLast? isLast
    split
    · rename_i below
      refine ⟨Successive.isChain_range'_append (fun _ => rfl) inOrder isFirst below.le,
        fun item member => List.mem_append_right _ member, ?_, BlockInfo.new slot, ?_, rfl⟩
      · intro item member
        rcases List.mem_append.mp member with fresh | old
        · obtain ⟨number, inside, rfl⟩ := List.mem_map.mp fresh
          rw [List.mem_range'_1] at inside
          refine Or.inr ⟨rfl, ?_, Or.inl inside.1⟩
          intro other otherMember
          have := lower otherMember
          simp only [BlockInfo.new]
          omega
        · exact Or.inl old
      · refine List.mem_append_left _ (List.mem_map.mpr ⟨slot, ?_, rfl⟩)
        rw [List.mem_range'_1]
        omega
    · split
      · rename_i above
        refine ⟨Successive.isChain_append_range' (fun _ => rfl) inOrder isLast _,
          fun item member => List.mem_append_left _ member, ?_, BlockInfo.new slot, ?_, rfl⟩
        · intro item member
          rcases List.mem_append.mp member with old | fresh
          · exact Or.inl old
          · obtain ⟨number, inside, rfl⟩ := List.mem_map.mp fresh
            rw [List.mem_range'_1] at inside
            refine Or.inr ⟨rfl, ?_, Or.inr ⟨last, lastMember, ?_⟩⟩
            · intro other otherMember
              have := upper otherMember
              simp only [BlockInfo.new]
              omega
            · simp only [BlockInfo.new]
              omega
        · refine List.mem_append_right _ (List.mem_map.mpr ⟨slot, ?_, rfl⟩)
          rw [List.mem_range'_1]
          omega
      · obtain ⟨item, place, same⟩ := Successive.getElem?_of_key inOrder isFirst lastMember
          (show first.slot ≤ slot by omega) (by omega)
        exact ⟨inOrder, fun _ member => member, fun _ member => Or.inl member, item,
          List.mem_of_getElem? place, same⟩
  · rename_i unknown
    have none : blocks = [] := by
      cases blocks with
      | nil => rfl
      | cons first rest =>
          exact (unknown first _ rfl (List.getLast?_eq_some_getLast (by simp))).elim
    subst none
    exact ⟨List.isChain_singleton _, by simp, by simp [BlockInfo.new], by simp [BlockInfo.new]⟩

end growTo

/-- The first slot sets the next slot of the buffer. -/
def started (memory : StorageMemory) (slot : Nat) : Nat :=
  if memory.genNextSlot = 0 then slot else memory.genNextSlot

/-- A change either meets a reported slot or replaces the item of its slot in the grown deque. -/
theorem updateSlot_cases {memory : StorageMemory} (inOrder : InOrder memory.blocks) (slot : Nat)
    (change : BlockInfo → Except MemoryPanic BlockInfo) :
    (slot < memory.started slot ∧ memory.updateSlot slot change =
      .ok (false, { memory with genNextSlot := memory.started slot })) ∨
    (memory.started slot ≤ slot ∧ ∃ index item,
      (growTo memory.blocks slot)[index]? = some item ∧ item.slot = slot ∧
      memory.updateSlot slot change = (change item).bind fun changed => .ok (true, { memory with
        genNextSlot := memory.started slot
        blocks := (growTo memory.blocks slot).set index changed })) := by
  have next : (if memory.genNextSlot = 0 then { memory with genNextSlot := slot } else memory) =
      { memory with genNextSlot := memory.started slot } := by
    unfold started
    split <;> rfl
  unfold updateSlot addSlot
  rw [next]
  by_cases reported : slot < memory.started slot
  · exact Or.inl ⟨reported, by simp only [reported, if_true]⟩
  · refine Or.inr ⟨by omega, ?_⟩
    obtain ⟨ordered, -, -, item, member, same⟩ := growTo_spec inOrder slot
    simp only [reported, if_false]
    obtain ⟨first, isFirst⟩ : ∃ first, (growTo memory.blocks slot).head? = some first := by
      cases grown : growTo memory.blocks slot with
      | nil =>
          rw [grown] at member
          cases member
      | cons first rest => exact ⟨first, rfl⟩
    have lower := Successive.head_le ordered isFirst member
    obtain ⟨found, place, isSlot⟩ := Successive.getElem?_of_key ordered isFirst member
      (show first.slot ≤ slot by omega) (by omega)
    refine ⟨slot - first.slot, found, place, isSlot, ?_⟩
    rw [isFirst]
    simp only [Option.map_some, Option.getD_some, updateAt, place]
    cases change found <;> rfl

section walk

variable {memory : StorageMemory} {first : BlockInfo}

/-- The parent of each held block is below its slot. -/
def ParentsBelow (memory : StorageMemory) : Prop :=
  ∀ item ∈ memory.blocks, ∀ block, item.block = some block → block.parentSlot < item.slot

/-- The walk ends at a reachable item without a held parent. -/
theorem confirmedLoop_ok (inOrder : InOrder memory.blocks) (parents : memory.ParentsBelow)
    (isFirst : memory.blocks.head? = some first) {fuel index : Nat} {item : BlockInfo}
    (place : memory.blocks[index]? = some item) (enough : index < fuel) :
    ∃ place' last, confirmedLoop memory.blocks first.slot fuel index = .ok (place', last) ∧
      memory.blocks[place']? = some last ∧ memory.Reachable item.slot last.slot ∧
      ∀ block, last.block = some block → block.parentSlot < first.slot := by
  induction fuel generalizing index item with
  | zero => omega
  | succ fuel ih =>
      have member := List.mem_of_getElem? place
      simp only [confirmedLoop, place]
      cases held : item.block with
      | none =>
          refine ⟨index, item, rfl, place, Relation.ReflTransGen.refl, ?_⟩
          intro block isBlock
          rw [held] at isBlock
          cases isBlock
      | some block =>
          have below := parents item member block held
          dsimp only
          by_cases inside : first.slot ≤ block.parentSlot
          · obtain ⟨parent, parentPlace, isParent⟩ :=
              Successive.getElem?_of_key inOrder isFirst member inside below.le
            obtain ⟨bound, isItem⟩ := List.getElem?_eq_some_iff.mp place
            have start : first.slot = memory.blocks[0].slot := by
              rw [List.head?_eq_getElem?, List.getElem?_eq_getElem (by omega)] at isFirst
              rw [Option.some_inj.mp isFirst]
            have distance := Successive.getElem_eq_add inOrder bound
            rw [isItem, ← start] at distance
            obtain ⟨place', last, walked, lastPlace, reach, ends⟩ := ih parentPlace (by omega)
            rw [if_pos inside]
            refine ⟨place', last, walked, lastPlace, ?_, ends⟩
            exact Relation.ReflTransGen.head
              ⟨item, member, rfl, block, held, isParent.symm⟩ reach
          · rw [if_neg inside]
            refine ⟨index, item, rfl, place, Relation.ReflTransGen.refl, ?_⟩
            intro block' isBlock
            rw [held] at isBlock
            cases isBlock
            omega

/-- A link leads to a lower slot. -/
theorem ParentsBelow.link_lt (parents : memory.ParentsBelow) {slot parent : Nat}
    (link : memory.Link slot parent) : parent < slot := by
  obtain ⟨item, member, rfl, block, held, rfl⟩ := link
  exact parents item member block held

/-- A path leads to a slot that is not higher. -/
theorem ParentsBelow.reachable_le (parents : memory.ParentsBelow) {slot parent : Nat}
    (reach : memory.Reachable slot parent) : parent ≤ slot := by
  induction reach with
  | refl => exact le_rfl
  | tail _ link ih => exact (parents.link_lt link).le.trans ih

/-- A slot has at most one link. -/
theorem link_unique (inOrder : InOrder memory.blocks) {slot parent parent' : Nat}
    (link : memory.Link slot parent) (link' : memory.Link slot parent') : parent = parent' := by
  obtain ⟨item, member, rfl, block, held, rfl⟩ := link
  obtain ⟨item', member', same, block', held', rfl⟩ := link'
  obtain rfl := Successive.eq_of_key_eq inOrder member' member same
  rw [held] at held'
  cases held'
  rfl

/-- A held slot on the path from the start lies at or above the end of the walk. -/
theorem reachable_of_walk (inOrder : InOrder memory.blocks)
    (isFirst : memory.blocks.head? = some first) {start slot : Nat} {last : BlockInfo}
    (lastMember : last ∈ memory.blocks) (reach : memory.Reachable start last.slot)
    (ends : ∀ block, last.block = some block → block.parentSlot < first.slot)
    (path : memory.Reachable start slot) :
    memory.Reachable slot last.slot ∨ slot < first.slot := by
  induction path with
  | refl => exact Or.inl reach
  | tail _ link ih =>
      rcases ih with further | below
      · rcases Relation.ReflTransGen.cases_head further with same | ⟨parent, next, rest⟩
        · obtain ⟨item, member, isSlot, block, held, rfl⟩ := link
          obtain rfl := Successive.eq_of_key_eq inOrder member lastMember (isSlot.trans same)
          exact Or.inr (ends block held)
        · rw [link_unique inOrder link next]
          exact Or.inl rest
      · obtain ⟨item, member, rfl, -⟩ := link
        have := Successive.head_le inOrder isFirst member
        omega

/-- A record leaves the items from the end of the walk on as they are and clears earlier ones only
for a block whose parent was reported before. -/
structure Shrunk (memory after : StorageMemory) (last : BlockInfo) : Prop where
  inOrder : InOrder after.blocks
  confirmed : after.confirmed = memory.confirmed
  next : after.genNextSlot = memory.genNextSlot + 1
  above : ∀ item ∈ after.blocks, memory.genNextSlot < item.slot
  old : ∀ item ∈ after.blocks, item ∈ memory.blocks ∨
    ∃ before ∈ memory.blocks, item = before.clear ∧ before.slot < last.slot ∧
      ∃ block, last.block = some block ∧ block.parentSlot < memory.genNextSlot
  kept : ∀ item ∈ memory.blocks, last.slot ≤ item.slot → memory.genNextSlot < item.slot →
    item ∈ after.blocks

/-- The end of the walk explains the record. -/
inductive Explains (memory : StorageMemory) (last : BlockInfo) : MemoryConfirmedBlock → Prop
  | missed : Explains memory last (.missed memory.genNextSlot)
  | marked (item : BlockInfo) (member : item ∈ memory.blocks)
      (place : item.slot = memory.genNextSlot) (dead : item.dead = true) :
      Explains memory last (.dead memory.genNextSlot)
  | between (block : BlockWithBinary) (held : last.block = some block)
      (parent : block.parentSlot < memory.genNextSlot) (below : memory.genNextSlot < last.slot) :
      Explains memory last (.dead memory.genNextSlot)
  | reached (block : BlockWithBinary) (held : last.block = some block)
      (place : last.slot = memory.genNextSlot) :
      Explains memory last (.block memory.genNextSlot block)

/-- Every record is about the next slot. -/
theorem Explains.getSlot {last : BlockInfo} {record : MemoryConfirmedBlock}
    (explains : memory.Explains last record) : record.getSlot = memory.genNextSlot := by
  cases explains <;> rfl

/-- A record for a slot before the deque leaves the deque as it is. -/
theorem shrunk_of_below {last : BlockInfo} (inOrder : InOrder memory.blocks)
    (isFirst : memory.blocks.head? = some first) (below : memory.genNextSlot < first.slot) :
    memory.Shrunk { memory with genNextSlot := memory.genNextSlot + 1 } last :=
  ⟨inOrder, rfl, rfl,
    fun _ member => below.trans_le (Successive.head_le inOrder isFirst member),
    fun _ member => Or.inl member, fun _ member _ _ => member⟩

/-- The record of the first slot removes its item. -/
theorem shrunk_of_front {last : BlockInfo} {rest : List BlockInfo} (inOrder : InOrder memory.blocks)
    (split : memory.blocks = first :: rest) (here : memory.genNextSlot = first.slot) :
    memory.Shrunk { memory with blocks := rest, genNextSlot := memory.genNextSlot + 1 } last := by
  rw [InOrder, split] at inOrder
  refine ⟨(List.isChain_cons.mp inOrder).2, rfl, rfl, ?_, ?_, ?_⟩
  · intro item member
    rw [here]
    exact Successive.lt_of_mem_tail inOrder member
  · intro item member
    exact Or.inl (by rw [split]; exact List.mem_cons_of_mem _ member)
  · intro item member _ later
    rw [split] at member
    rcases List.mem_cons.mp member with rfl | member
    · omega
    · exact member

/-- The record of the first slot of a chain clears the items before the end of the walk. -/
theorem shrunk_of_chain {last : BlockInfo} {rest : List BlockInfo} {block : BlockWithBinary}
    {place : Nat} (inOrder : InOrder memory.blocks) (split : memory.blocks = first :: rest)
    (here : memory.genNextSlot = first.slot) (lastPlace : memory.blocks[place]? = some last)
    (held : last.block = some block) (parent : block.parentSlot < memory.genNextSlot) :
    memory.Shrunk { memory with
      blocks := (rest.take (place - 1)).map BlockInfo.clear ++ rest.drop (place - 1)
      genNextSlot := memory.genNextSlot + 1 } last := by
  have front : memory.Shrunk _ last := shrunk_of_front inOrder split here
  rw [InOrder, split] at inOrder
  have position {index : Nat} {item : BlockInfo} (found : rest[index]? = some item) :
      item.slot = first.slot + (index + 1) := by
    obtain ⟨bound, rfl⟩ := List.getElem?_eq_some_iff.mp found
    simpa using Successive.getElem_eq_add inOrder
      (show index + 1 < (first :: rest).length by simpa using bound)
  have lastSlot : last.slot = first.slot + place := by
    rw [split] at lastPlace
    obtain ⟨bound, rfl⟩ := List.getElem?_eq_some_iff.mp lastPlace
    exact Successive.getElem_eq_add inOrder bound
  refine ⟨?_, rfl, rfl, ?_, ?_, ?_⟩
  · have keys : ((rest.take (place - 1)).map BlockInfo.clear ++ rest.drop (place - 1)).map
        BlockInfo.slot = rest.map BlockInfo.slot := by
      rw [List.map_append, List.map_map, show BlockInfo.slot ∘ BlockInfo.clear = BlockInfo.slot
        from rfl, ← List.map_append, List.take_append_drop]
    have mapped := (List.isChain_map BlockInfo.slot (R := fun low high => high = low + 1)).mpr
      front.inOrder
    rw [← keys] at mapped
    exact (List.isChain_map BlockInfo.slot).mp mapped
  · intro item member
    rcases List.mem_append.mp member with cleared | kept
    · obtain ⟨before, inside, rfl⟩ := List.mem_map.mp cleared
      exact front.above before (List.mem_of_mem_take inside)
    · exact front.above item (List.mem_of_mem_drop kept)
  · intro item member
    rcases List.mem_append.mp member with cleared | kept
    · obtain ⟨before, inside, rfl⟩ := List.mem_map.mp cleared
      obtain ⟨index, found⟩ := List.mem_iff_getElem?.mp inside
      rw [List.getElem?_take] at found
      split at found <;> [skip; cases found]
      have slot := position found
      refine Or.inr ⟨before, ?_, rfl, by omega, block, held, parent⟩
      rw [split]
      exact List.mem_cons_of_mem _ (List.mem_of_getElem? found)
    · refine Or.inl ?_
      rw [split]
      exact List.mem_cons_of_mem _ (List.mem_of_mem_drop kept)
  · intro item member high later
    have inRest : item ∈ rest := front.kept item member high later
    obtain ⟨index, found⟩ := List.mem_iff_getElem?.mp inRest
    have slot := position found
    refine List.mem_append_right _ (List.mem_iff_getElem?.mpr ⟨index - (place - 1), ?_⟩)
    rw [List.getElem?_drop, show place - 1 + (index - (place - 1)) = index by omega, found]

/-- The record explains itself by the end of the walk and leaves a shrunk buffer. -/
theorem nextRecord_ok {last : BlockInfo} {place : Nat} (inOrder : InOrder memory.blocks)
    (isFirst : memory.blocks.head? = some first) (lastPlace : memory.blocks[place]? = some last)
    (ends : ∀ block, last.block = some block → block.parentSlot < first.slot)
    (above : memory.genNextSlot ≤ first.slot) :
    ∃ record blocks, memory.nextRecord first.slot place last = .ok (record, blocks) ∧
      memory.Explains last record ∧
      memory.Shrunk { memory with blocks, genNextSlot := memory.genNextSlot + 1 } last := by
  obtain ⟨rest, split⟩ : ∃ rest, memory.blocks = first :: rest := by
    cases blocks : memory.blocks with
    | nil =>
        rw [blocks] at isFirst
        cases isFirst
    | cons head rest =>
        rw [blocks] at isFirst
        cases isFirst
        exact ⟨rest, rfl⟩
  have firstMember : first ∈ memory.blocks := by simp [split]
  have lastAbove := Successive.head_le inOrder isFirst (List.mem_of_getElem? lastPlace)
  unfold nextRecord
  cases held : last.block with
  | none =>
      dsimp only
      by_cases below : memory.genNextSlot < first.slot
      · rw [if_pos below]
        exact ⟨_, _, rfl, .missed, shrunk_of_below inOrder isFirst below⟩
      · have here : memory.genNextSlot = first.slot := by omega
        rw [if_neg below, if_pos here, split]
        refine ⟨_, _, rfl, ?_, shrunk_of_front inOrder split here⟩
        unfold MemoryConfirmedBlock.missedOrDead
        rw [← here]
        split
        · exact .marked first firstMember here.symm ‹_›
        · exact .missed
  | some block =>
      have parent := ends block held
      dsimp only
      by_cases unknown : memory.genNextSlot ≤ block.parentSlot
      · rw [if_pos unknown]
        exact ⟨_, _, rfl, .missed, shrunk_of_below inOrder isFirst (by omega)⟩
      · rw [if_neg unknown]
        by_cases below : memory.genNextSlot < first.slot
        · rw [if_pos below]
          exact ⟨_, _, rfl, .between block held (by omega) (by omega),
            shrunk_of_below inOrder isFirst below⟩
        · have here : memory.genNextSlot = first.slot := by omega
          rw [if_neg below, if_pos here]
          have shrunk := shrunk_of_chain inOrder split here lastPlace held (by omega)
          cases place with
          | zero =>
              -- The walk ended at the first item, whose block is reported.
              rw [split] at lastPlace ⊢
              cases lastPlace
              simp only [List.take_zero, List.map_nil, List.drop_zero, List.nil_append, held, ← here]
              exact ⟨_, _, rfl, .reached block held here.symm, by simpa using shrunk⟩
          | succ place =>
              have distance : last.slot = first.slot + (place + 1) := by
                obtain ⟨bound, rfl⟩ := List.getElem?_eq_some_iff.mp lastPlace
                rw [Successive.getElem_eq_add inOrder bound]
                simp only [split, List.getElem_cons_zero]
              rw [split]
              simp only [List.take_succ_cons, List.map_cons, List.drop_succ_cons, List.cons_append,
                BlockInfo.clear, MemoryConfirmedBlock.missedOrDead, if_true, ← here]
              exact ⟨_, _, rfl, .between block held (by omega) (by omega), by simpa using shrunk⟩

end walk

end StorageMemory

end Alpamayo
