import Alpamayo.Proof.StoreRing
import Mathlib.Data.Fintype.Basic

/-!
This file shows that the writer's ring is a bounded deque of contiguous blocks in every run.
-/

namespace Alpamayo

/-- The loaded slots follow each other. -/
theorem spawnSlotsLoop_chain {currentSlot : Option Nat} {entries : List (Nat × SlotBasicIndexValue)}
    {list : List StoredBlock} (loaded : Rocksdb.spawnSlotsLoop currentSlot entries = .ok list) :
    (∀ block ∈ list, block.present = true) ∧
      (list.IsChain fun low high => high.slot = low.slot + 1) ∧
      ∀ current ∈ currentSlot, ∀ first ∈ list.head?, first.slot = current + 1 := by
  induction entries generalizing currentSlot list with
  | nil =>
      cases loaded
      simp
  | cons entry rest ih =>
      obtain ⟨slot, value⟩ := entry
      obtain ⟨_, checked, loaded⟩ := bind_eq_ok loaded
      obtain ⟨slots, tail, same⟩ := bind_eq_ok loaded
      cases same
      obtain ⟨present, chain, follows⟩ := ih tail
      refine ⟨?_, List.isChain_cons.mpr ⟨follows slot rfl, chain⟩, ?_⟩
      · intro block member
        rcases List.mem_cons.mp member with rfl | member
        · rfl
        · exact present block member
      · rintro current isCurrent _ ⟨⟩
        rw [Option.mem_def.mp isCurrent] at checked
        obtain ⟨next, successor, accepted⟩ := bind_eq_ok checked
        split at accepted
        · rw [← addOne_eq_ok successor, ‹next = slot›]
          rfl
        · cases accepted

namespace StoredBlocksWrite

section cursors

variable {size : Nat} {cells : Fin size → StoredBlock} {indexes : List (Fin size)}

/-- Only an empty list has no smallest cell. -/
theorem minByKey_eq_none (nothing : minByKey cells indexes = none) : indexes = [] := by
  cases indexes with
  | nil => rfl
  | cons index rest =>
      simp only [minByKey] at nothing
      split at nothing <;> [cases nothing; split at nothing <;> cases nothing]

/-- Only an empty list has no largest cell. -/
theorem maxByKey_eq_none (nothing : maxByKey cells indexes = none) : indexes = [] := by
  cases indexes with
  | nil => rfl
  | cons index rest =>
      simp only [maxByKey] at nothing
      split at nothing <;> [cases nothing; split at nothing <;> cases nothing]

/-- The chosen cell has the smallest slot. -/
theorem minByKey_spec {best : Fin size} (chosen : minByKey cells indexes = some best) :
    best ∈ indexes ∧ ∀ index ∈ indexes, (cells best).slot ≤ (cells index).slot := by
  induction indexes generalizing best with
  | nil => cases chosen
  | cons index rest ih =>
      simp only [minByKey] at chosen
      cases later : minByKey cells rest with
      | none =>
          rw [later] at chosen
          cases chosen
          rw [minByKey_eq_none later]
          simp
      | some other =>
          obtain ⟨member, least⟩ := ih later
          rw [later] at chosen
          dsimp only at chosen
          split at chosen <;> cases chosen
          · refine ⟨List.mem_cons_of_mem _ member, ?_⟩
            intro index' member'
            rcases List.mem_cons.mp member' with rfl | member'
            · omega
            · exact least index' member'
          · refine ⟨List.mem_cons_self, ?_⟩
            intro index' member'
            rcases List.mem_cons.mp member' with rfl | member'
            · exact le_rfl
            · have := least index' member'
              omega

/-- The chosen cell has the largest slot. -/
theorem maxByKey_spec {best : Fin size} (chosen : maxByKey cells indexes = some best) :
    best ∈ indexes ∧ ∀ index ∈ indexes, (cells index).slot ≤ (cells best).slot := by
  induction indexes generalizing best with
  | nil => cases chosen
  | cons index rest ih =>
      simp only [maxByKey] at chosen
      cases later : maxByKey cells rest with
      | none =>
          rw [later] at chosen
          cases chosen
          rw [maxByKey_eq_none later]
          simp
      | some other =>
          obtain ⟨member, most⟩ := ih later
          rw [later] at chosen
          dsimp only at chosen
          split at chosen <;> cases chosen
          · refine ⟨List.mem_cons_self, ?_⟩
            intro index' member'
            rcases List.mem_cons.mp member' with rfl | member'
            · exact le_rfl
            · have := most index' member'
              omega
          · refine ⟨List.mem_cons_of_mem _ member, ?_⟩
            intro index' member'
            rcases List.mem_cons.mp member' with rfl | member'
            · omega
            · exact most index' member'

end cursors

section new

variable {list : List StoredBlock} {max : Nat}

/-- The cells of a new ring are the listed blocks and then the absent ones. -/
theorem newCell_present (consecutive : Consecutive list) (index : Fin max) :
    (list.getD index StoredBlock.newNoexists).present = true ↔ index.val < list.length := by
  constructor
  · intro present
    by_contra outside
    rw [List.getD_eq_default _ _ (by omega)] at present
    cases present
  · intro inside
    rw [List.getD_eq_getElem _ _ inside]
    exact consecutive.present _ (List.getElem_mem inside)

/-- The slots of the listed cells grow with their index. -/
theorem newCell_slot (consecutive : Consecutive list) {index : Fin max}
    (inside : index.val < list.length) :
    (list.getD index StoredBlock.newNoexists).slot = list[0].slot + index.val := by
  rw [List.getD_eq_getElem _ _ inside, consecutive.slot_getElem inside]

variable {cells : Fin max → StoredBlock} {existing : List (Fin max)}

/-- The tail of a new ring is its first cell. -/
theorem newTail_val (consecutive : Consecutive list) (positive : 0 < max)
    (known : cells = fun index : Fin max => list.getD index StoredBlock.newNoexists)
    (all : ∀ index, index ∈ existing ↔ index.val < list.length) :
    ((minByKey cells existing).getD ⟨0, positive⟩).val = 0 := by
  cases chosen : minByKey cells existing with
  | none => rfl
  | some best =>
      obtain ⟨member, least⟩ := minByKey_spec chosen
      have inside := (all best).mp member
      have first := least ⟨0, positive⟩ ((all _).mpr (by dsimp only; omega))
      rw [known] at first
      dsimp only at first
      rw [newCell_slot consecutive inside, List.getD_eq_getElem _ _ (by omega)] at first
      change best.val = 0
      omega

/-- The head of a new ring is its last listed cell. -/
theorem newHead_val (consecutive : Consecutive list) (positive : 0 < max) (fits : list.length ≤ max)
    (known : cells = fun index : Fin max => list.getD index StoredBlock.newNoexists)
    (all : ∀ index, index ∈ existing ↔ index.val < list.length) :
    ((maxByKey cells existing).getD ⟨max - 1, by omega⟩).val =
      if list.length = 0 then max - 1 else list.length - 1 := by
  cases chosen : maxByKey cells existing with
  | none =>
      have none : existing = [] := maxByKey_eq_none chosen
      rw [if_pos]
      · rfl
      · by_contra some
        have member := (all ⟨0, positive⟩).mpr (by dsimp only; omega)
        rw [none] at member
        cases member
  | some best =>
      obtain ⟨member, most⟩ := maxByKey_spec chosen
      have inside := (all best).mp member
      have last := most ⟨list.length - 1, by omega⟩ ((all _).mpr (by dsimp only; omega))
      rw [known] at last
      dsimp only at last
      rw [newCell_slot consecutive inside, List.getD_eq_getElem _ _ (by omega),
        consecutive.slot_getElem (by omega)] at last
      rw [if_neg (by omega)]
      change best.val = list.length - 1
      omega

/-- A new ring represents the list that it was made from. -/
theorem new_represents {blocks : StoredBlocksWrite} (consecutive : Consecutive list)
    (opened : new list max = .ok blocks) :
    CellRing.Represents StoredBlock.newNoexists blocks.blocks list ∧ blocks.blocks.size = max := by
  unfold new at opened
  split at opened
  · cases opened
  · rename_i fits
    split at opened
    · rename_i positive
      cases opened
      set cells : Fin max → StoredBlock := fun index => list.getD index StoredBlock.newNoexists
        with known
      set existing := (List.finRange max).filter fun index => (cells index).present
      have all (index : Fin max) : index ∈ existing ↔ index.val < list.length := by
        rw [← newCell_present consecutive index]
        simp [existing, known]
      have tail := newTail_val consecutive positive known all
      have head := newHead_val consecutive positive (by omega) known all
      set ring : CellRing StoredBlock := ⟨max, cells, (minByKey cells existing).getD ⟨0, positive⟩,
        (maxByKey cells existing).getD ⟨max - 1, by omega⟩⟩ with isRing
      have offset (count : Nat) (bound : count < max) : (ring.offset count).val = count := by
        rw [ring.offset_val (by exact bound.le)]
        have zero : ring.tail.val = 0 := tail
        rw [zero, if_pos (by simpa [isRing] using bound), Nat.zero_add]
      refine ⟨⟨by simpa using fits, ?_, ?_⟩, rfl⟩
      · intro count bound
        change list.getD (ring.offset count).val _ = _
        rw [offset count bound]
      · apply Fin.ext
        change (ring.next ring.head).val = (ring.offset list.length).val
        have last : ring.head.val = if list.length = 0 then max - 1 else list.length - 1 := head
        have zero : ring.tail.val = 0 := tail
        have size : ring.size = max := rfl
        rw [ring.next_val, ring.offset_val (by omega), zero, last, size]
        split <;> split <;> split <;> omega
    · cases opened

end new

/-- A new ring has sent no message and published its first slot. -/
theorem new_fields {list : List StoredBlock} {max : Nat} {blocks : StoredBlocksWrite}
    (opened : new list max = .ok blocks) :
    blocks.sent = [] ∧ blocks.firstAvailable = firstAvailableOf blocks.getBackSlot := by
  unfold new at opened
  split at opened
  · cases opened
  · split at opened
    · cases opened
      exact ⟨rfl, rfl⟩
    · cases opened

end StoredBlocksWrite

/-- The calls of the writer on its store; the turn orders the two joined requests of a push. -/
inductive StoreCall where
  | pushBlockFront (turn slot : Nat) (block : Option BlockWithBinary)
  | pushBlockBack (turn slot : Nat) (block : Option BlockWithBinary)
  | popBlockFront
  | popBlockBack

/-- Every pushed block carries a height. -/
def StoreCall.Heighted : StoreCall → Prop
  | .pushBlockFront _ _ block | .pushBlockBack _ _ block =>
      ∀ pushed ∈ block, pushed.blockHeight.isSome = true
  | .popBlockFront | .popBlockBack => True

namespace Store

/-- A call keeps only the error of its result. -/
def settle {A : Type} (result : Except StorageError A × Store) : Option StorageError × Store :=
  (match result.1 with
    | .ok _ => none
    | .error error => some error, result.2)

/-- A call has an error or none, and it leaves a store in both cases. -/
def call (self : Store) : StoreCall → Option StorageError × Store
  | .pushBlockFront turn slot block => settle (self.pushBlockFront turn slot block)
  | .pushBlockBack turn slot block => settle (self.pushBlockBack turn slot block)
  | .popBlockFront => settle self.popBlockFront
  | .popBlockBack => settle self.popBlockBack

/-- A run makes the calls one after the other, whether or not they fail. -/
def runCalls (self : Store) (calls : List StoreCall) : Store :=
  calls.foldl (fun store call => (store.call call).2) self

variable {self : Store} {contents : List StoredBlock}

/-- The error of a call that finds its cell is another one. -/
theorem settle_noFreeSlot {A : Type} {result : Except StorageError A × Store}
    (finds : FindsCell result.1) : ∀ error ∈ (settle result).1, ¬ error.NoFreeSlot := by
  obtain ⟨failed | value, after⟩ := result
  · rintro _ ⟨⟩
    exact finds failed rfl
  · rintro _ ⟨⟩

/-- One call keeps some contiguous contents and the size, and finds its cell. -/
theorem call_holds (holds : self.blocks.Holds contents) (call : StoreCall)
    (heighted : call.Heighted) :
    (∃ after, (self.call call).2.blocks.Holds after) ∧
      (self.call call).2.blocks.blocks.size = self.blocks.blocks.size ∧
      ∀ error ∈ (self.call call).1, ¬ error.NoFreeSlot := by
  cases call with
  | pushBlockFront turn slot block =>
      obtain ⟨after, kept, pushed, size⟩ := pushBlockFront_result turn slot holds heighted
      exact ⟨⟨after, kept⟩, size, settle_noFreeSlot pushed.findsCell⟩
  | pushBlockBack turn slot block =>
      obtain ⟨after, kept, pushed, size⟩ := pushBlockBack_result turn slot holds heighted
      exact ⟨⟨after, kept⟩, size, settle_noFreeSlot pushed.findsCell⟩
  | popBlockFront =>
      rcases popBlockFront_holds holds with ⟨-, failed⟩ | ⟨rest, last, -, kept, size, finds⟩
      · simp only [Store.call, failed]
        exact ⟨⟨contents, holds⟩, rfl, by simp [settle, StorageError.NoFreeSlot]⟩
      · exact ⟨⟨rest, kept⟩, size, settle_noFreeSlot finds⟩
  | popBlockBack =>
      rcases popBlockBack_holds holds with ⟨-, failed⟩ | ⟨first, rest, -, kept, size, finds⟩
      · simp only [Store.call, failed]
        exact ⟨⟨contents, holds⟩, rfl, by simp [settle, StorageError.NoFreeSlot]⟩
      · exact ⟨⟨rest, kept⟩, size, settle_noFreeSlot finds⟩

/-- A whole run keeps some contiguous contents and the size. -/
theorem runCalls_holds (holds : self.blocks.Holds contents) (calls : List StoreCall)
    (heighted : ∀ call ∈ calls, call.Heighted) :
    ∃ after, (self.runCalls calls).blocks.Holds after ∧
      (self.runCalls calls).blocks.blocks.size = self.blocks.blocks.size := by
  induction calls generalizing self contents with
  | nil => exact ⟨contents, holds, rfl⟩
  | cons call rest ih =>
      obtain ⟨⟨after, kept⟩, size, -⟩ := call_holds holds call (heighted call (by simp))
      obtain ⟨last, final, size'⟩ :=
        ih kept fun other member => heighted other (List.mem_cons_of_mem _ member)
      exact ⟨last, final, size'.trans size⟩

end Store

/-- This number counts the cells that exist. -/
def StoredBlocksWrite.existing (self : StoredBlocksWrite) : Nat :=
  (Finset.univ.filter fun index => (self.blocks.cells index).present = true).card

/-- The existing cells are a cyclic interval of contiguous blocks between the cursors. -/
structure BoundedDeque (blocks : StoredBlocksWrite) : Prop where
  interval : ∀ index, (blocks.blocks.cells index).present = true ↔
    ∃ count < blocks.existing, index = blocks.blocks.offset count
  head : 0 < blocks.existing → blocks.blocks.head = blocks.blocks.offset (blocks.existing - 1)
  slots : ∀ count, count + 1 < blocks.existing →
    (blocks.blocks.cells (blocks.blocks.offset (count + 1))).slot =
      (blocks.blocks.cells (blocks.blocks.offset count)).slot + 1
  heights : ∀ low high, low < high → high < blocks.existing →
    (blocks.blocks.cells (blocks.blocks.offset low)).dead = false →
    (blocks.blocks.cells (blocks.blocks.offset high)).dead = false →
    (∀ middle, low < middle → middle < high →
      (blocks.blocks.cells (blocks.blocks.offset middle)).dead = true) →
    ∃ height, (blocks.blocks.cells (blocks.blocks.offset low)).blockHeight = some height ∧
      (blocks.blocks.cells (blocks.blocks.offset high)).blockHeight = some (height + 1)
  empty : blocks.existing = 0 →
    blocks.blocks.tail.val = (blocks.blocks.head.val + 1) % blocks.blocks.size
  full : blocks.isFull = true ↔ blocks.existing = blocks.blocks.size

section boundedDeque

variable {blocks : StoredBlocksWrite} {contents : List StoredBlock}

/-- The cell at a distance from the tail is the block at that place. -/
theorem StoredBlocksWrite.Holds.cell (holds : blocks.Holds contents) {count : Nat}
    (inside : count < contents.length) :
    blocks.blocks.cells (blocks.blocks.offset count) = contents[count] := by
  have fits := holds.represents.fits
  rw [holds.represents.cell count (by omega), List.getD_eq_getElem _ _ inside]

/-- A cell exists exactly when it is one of the contents. -/
theorem StoredBlocksWrite.Holds.present_iff (holds : blocks.Holds contents)
    (index : Fin blocks.blocks.size) : (blocks.blocks.cells index).present = true ↔
      ∃ count < contents.length, index = blocks.blocks.offset count := by
  obtain ⟨count, bound, rfl⟩ := blocks.blocks.exists_offset index
  constructor
  · intro present
    refine ⟨count, ?_, rfl⟩
    by_contra outside
    rw [holds.represents.cell count bound, List.getD_eq_default _ _ (by omega)] at present
    cases present
  · rintro ⟨other, inside, same⟩
    rw [same, holds.cell inside]
    exact holds.contiguous.present _ (List.getElem_mem inside)

/-- As many cells exist as there are contents. -/
theorem StoredBlocksWrite.Holds.existing (holds : blocks.Holds contents) :
    blocks.existing = contents.length := by
  have fits := holds.represents.fits
  have image : (Finset.univ.filter fun index => (blocks.blocks.cells index).present = true) =
      (Finset.range contents.length).image blocks.blocks.offset := by
    ext index
    simp only [Finset.mem_filter, Finset.mem_univ, true_and, Finset.mem_image, Finset.mem_range]
    rw [holds.present_iff index]
    exact exists_congr fun count => and_congr_right fun _ => eq_comm
  rw [StoredBlocksWrite.existing, image, Finset.card_image_of_injOn, Finset.card_range]
  intro first firstMember second secondMember same
  simp only [Finset.coe_range, Set.mem_Iio] at firstMember secondMember
  exact blocks.blocks.offset_injective (by omega) (by omega) same

/-- Two live contents with only dead ones between them have consecutive heights. -/
theorem Contiguous.height_step (contiguous : Contiguous contents) {low high : Nat}
    (order : low < high) (inside : high < contents.length)
    (lowLive : contents[low].dead = false) (highLive : contents[high].dead = false)
    (between : ∀ middle, (above : low < middle) → (below : middle < high) →
      contents[middle].dead = true) :
    ∃ height, contents[low].blockHeight = some height ∧
      contents[high].blockHeight = some (height + 1) := by
  set middles := (contents.drop (low + 1)).take (high - (low + 1)) with isMiddles
  have split : contents = contents.take low ++ (contents[low] :: (middles ++ [contents[high]])) ++
      contents.drop (high + 1) := by
    have after : contents.drop (low + 1) =
        middles ++ contents[high] :: contents.drop (high + 1) := by
      rw [← List.take_append_drop (high - (low + 1)) (contents.drop (low + 1)), List.drop_drop,
        show low + 1 + (high - (low + 1)) = high by omega, List.drop_eq_getElem_cons inside]
    conv_lhs => rw [← List.take_append_drop low contents,
      List.drop_eq_getElem_cons (show low < contents.length by omega), after]
    simp
  have dead : middles.filter StoredBlock.isLive = [] := by
    rw [List.filter_eq_nil_iff]
    intro block member
    obtain ⟨place, bound, rfl⟩ := List.getElem_of_mem member
    have bound' : place < high - (low + 1) := by
      rw [isMiddles, List.length_take] at bound
      omega
    have same : middles[place] = contents[low + 1 + place] := by simp [isMiddles]
    rw [same, StoredBlock.isLive, between _ (by omega) (by omega)]
    simp
  have part := (contiguous.part ⟨_, _, split.symm⟩)
  have live {index : Nat} (bound : index < contents.length) (alive : contents[index].dead = false) :
      contents[index].isLive = true := by
    simp [StoredBlock.isLive, alive, contiguous.present _ (List.getElem_mem bound)]
  have heights := part.heights
  rw [List.filter_cons_of_pos (live (by omega) lowLive), List.filter_append, dead,
    List.filter_cons_of_pos (live inside highLive)] at heights
  simpa using heights

/-- A ring of contiguous contents is a bounded deque. -/
theorem StoredBlocksWrite.Holds.boundedDeque (holds : blocks.Holds contents) :
    BoundedDeque blocks := by
  have count := holds.existing
  constructor
  · rw [count]
    exact holds.present_iff
  · rw [count]
    exact holds.represents.head_eq
  · intro place inside
    rw [count] at inside
    rw [holds.cell inside, holds.cell (by omega)]
    exact List.isChain_iff_getElem.mp holds.contiguous.slots place inside
  · intro low high order inside lowLive highLive between
    rw [count] at inside
    rw [holds.cell (by omega)] at lowLive ⊢
    rw [holds.cell inside] at highLive ⊢
    refine holds.contiguous.height_step order inside lowLive highLive fun middle above below => ?_
    rw [← holds.cell (by omega)]
    exact between middle above below
  · intro none
    rw [count] at none
    have ends := holds.represents.ends
    rw [none, CellRing.offset_zero] at ends
    rw [← ends]
    rfl
  · rw [count]
    exact holds.spans.isFull_iff

end boundedDeque

/-- The heights of successive live blocks of the list differ by one. -/
def ConsecutiveHeights (list : List StoredBlock) : Prop :=
  (∀ block ∈ list, block.dead = false → block.blockHeight.isSome = true) ∧
    (list.filter fun block => !block.dead).IsChain fun low high =>
      ∃ height, low.blockHeight = some height ∧ high.blockHeight = some (height + 1)

/-- A list that the database accepts is contiguous when its heights are. -/
theorem contiguous_of_spawnSlots {db : Rocksdb} {list : List StoredBlock}
    (loaded : db.spawnSlots = .ok list) (heights : ConsecutiveHeights list) : Contiguous list := by
  obtain ⟨present, chain, -⟩ := spawnSlotsLoop_chain loaded
  have same : list.filter StoredBlock.isLive = list.filter fun block => !block.dead :=
    List.filter_congr fun block member => by simp [StoredBlock.isLive, present block member]
  refine ⟨⟨present, chain⟩, ?_, by rw [same]; exact heights.2⟩
  intro block member live
  exact heights.1 block member (by simpa [StoredBlock.isLive, present block member] using live)

/-- Every run of calls keeps the ring a bounded deque and finds a free cell for each push. -/
theorem runCalls_boundedDeque (db : Rocksdb) (list : List StoredBlock) (max : Nat) (store : Store)
    (calls : List StoreCall) (loaded : db.spawnSlots = .ok list)
    (heights : ConsecutiveHeights list)
    (opened : StoredBlocksWrite.new list max = .ok store.blocks)
    (heighted : ∀ call ∈ calls, call.Heighted) :
    (store.runCalls calls).blocks.blocks.size = max ∧
      BoundedDeque (store.runCalls calls).blocks ∧
      ∀ call : StoreCall, call.Heighted →
        ((store.runCalls calls).call call).1 ≠ some .noFreeSlotBack ∧
          ((store.runCalls calls).call call).1 ≠ some .noFreeSlotFront := by
  have contiguous := contiguous_of_spawnSlots loaded heights
  obtain ⟨start, size⟩ := StoredBlocksWrite.new_represents contiguous.toConsecutive opened
  obtain ⟨after, holds, size'⟩ := Store.runCalls_holds ⟨start, contiguous⟩ calls heighted
  refine ⟨size'.trans size, holds.boundedDeque, fun call carries => ?_⟩
  obtain ⟨-, -, finds⟩ := Store.call_holds holds call carries
  exact ⟨fun missing => finds _ missing (Or.inl rfl), fun missing => finds _ missing (Or.inr rfl)⟩

/-- A block with a height and some bytes for the store of three cells. -/
def cellBlock (height : Nat) (bytes : Bytes) : BlockWithBinary :=
  ⟨"", height, some 7, some height, bytes, [], [], []⟩

/-- This store has the block of slot 7 in a ring of three cells and a file of ten bytes. -/
def threeCellStore : Store where
  db := (Rocksdb.empty.addIndexes 7 (cellBlock 4 [1, 2, 3, 4])).slotAdd 7
    (some (cellBlock 4 [1, 2, 3, 4], 0, 0))
  files := ⟨[⟨0, "a", 0, 4, 10, true⟩], HashMap.empty.insert 0 0, 0⟩
  disk := fun _ => ⟨10, fun _ => 1⟩
  blocks := ⟨⟨3, fun index => [StoredBlock.newConfirmed 7 (some 7) (some 4) 0 0 4].getD index
    StoredBlock.newNoexists, 0, 0⟩, 7, []⟩

/-- The push of slot 10 needs a cell and that of slot 11 also bytes of the file, so slots 7 to 9 are
removed; then slot 9 comes back at the other end. -/
def threeCellCalls : List StoreCall :=
  [.pushBlockFront 0 8 none, .pushBlockFront 0 9 (some (cellBlock 5 [5, 5, 5, 5])),
    .pushBlockFront 1 10 (some (cellBlock 6 [6, 6, 6])),
    .pushBlockFront 1 11 (some (cellBlock 7 [7, 7, 7, 7, 7])),
    .pushBlockBack 0 9 (some (cellBlock 5 [5, 5]))]

/-- The cell at a distance from the tail after the calls. -/
def threeCellAt (count : Nat) : StoredBlock :=
  (threeCellStore.runCalls threeCellCalls).blocks.blocks.cells
    ((threeCellStore.runCalls threeCellCalls).blocks.blocks.offset count)

theorem threeCellCalls_existing :
    (threeCellStore.runCalls threeCellCalls).blocks.existing = 3 ∧
      (threeCellAt 0).dead = false ∧ (threeCellAt 1).dead = false := by
  decide +kernel

/-- The ring is full of live blocks, and the heights of the two lowest follow each other. -/
theorem runCalls_boundedDeque_three :
    BoundedDeque (threeCellStore.runCalls threeCellCalls).blocks ∧
      (threeCellStore.runCalls threeCellCalls).blocks.isFull = true ∧
      ∃ height, (threeCellAt 0).blockHeight = some height ∧
        (threeCellAt 1).blockHeight = some (height + 1) := by
  have heights : ConsecutiveHeights [StoredBlock.newConfirmed 7 (some 7) (some 4) 0 0 4] :=
    ⟨by decide, by decide⟩
  have heighted : ∀ call ∈ threeCellCalls, call.Heighted := by
    simp [threeCellCalls, StoreCall.Heighted, cellBlock]
  obtain ⟨size, deque, -⟩ := runCalls_boundedDeque threeCellStore.db
    [StoredBlock.newConfirmed 7 (some 7) (some 4) 0 0 4] 3 threeCellStore threeCellCalls rfl heights rfl
    heighted
  obtain ⟨existing, lowLive, highLive⟩ := threeCellCalls_existing
  refine ⟨deque, deque.full.mpr (existing.trans size.symm), ?_⟩
  exact deque.heights 0 1 Nat.one_pos (by omega) lowLive highLive fun middle above below => by omega

end Alpamayo
