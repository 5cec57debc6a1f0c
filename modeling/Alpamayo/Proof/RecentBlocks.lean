import Alpamayo.Proof.SlotLookup
import Mathlib.Data.List.DropRight

/-!
This file shows when the recent blocks of a ring are its highest live blocks.
-/

namespace Alpamayo

open CellRing

variable {contents : List StoredBlock}

namespace StoredBlocksWrite

/-- The number of live cells. -/
def liveCount (self : StoredBlocksWrite) : Nat :=
  (List.finRange self.blocks.size).countP fun index => (self.blocks.cells index).isLive

/-- The list has the highest live blocks of the ring in ascending order, and as many as the window
takes. -/
structure RecentWindow (writer : StoredBlocksWrite) (recent : List StoredBlock) : Prop where
  ascending : recent.Pairwise fun low high => low.slot < high.slot
  live : ∀ block ∈ recent, ∃ index, (writer.blocks.cells index).isLive = true ∧
    writer.blocks.cells index = block
  highest : ∀ index, (writer.blocks.cells index).isLive = true →
    writer.blocks.cells index ∉ recent → ∀ block ∈ recent,
      (writer.blocks.cells index).slot < block.slot
  count : recent.length = min writer.liveCount maxRecentBlockhashes

/-- The walk collects the live blocks down to the tail, without the tail, until the window is full. -/
theorem getRecentBlocksLoop_eq {ring : CellRing StoredBlock}
    (represents : ring.Represents StoredBlock.newNoexists contents)
    (present : ∀ block ∈ contents, block.present = true) {count fuel : Nat}
    (inside : count < contents.length) (enough : count < fuel) (blocks : List StoredBlock) :
    getRecentBlocksLoop ring fuel (ring.offset count) blocks =
      blocks ++ (((contents.take (count + 1)).drop 1).reverse.filter StoredBlock.isLive).take
        (maxRecentBlockhashes - blocks.length) := by
  have fits := represents.fits
  induction fuel generalizing count blocks with
  | zero => omega
  | succ fuel ih =>
      have value : ring.cells (ring.offset count) = contents[count] := by
        rw [represents.cell count (by omega), List.getD_eq_getElem _ _ inside]
      rw [getRecentBlocksLoop, value]
      by_cases room : blocks.length < maxRecentBlockhashes
      · cases count with
        | zero =>
            have atTail : ring.offset 0 = ring.tail := ring.offset_zero
            simp [atTail]
        | succ count =>
            have above : ring.offset (count + 1) ≠ ring.tail := by
              intro equal
              rw [← ring.offset_zero] at equal
              have := ring.offset_injective (by omega) ring.size_pos equal
              omega
            have isPresent := present contents[count + 1] (List.getElem_mem inside)
            have listed : (contents.take (count + 2)).drop 1 =
                (contents.take (count + 1)).drop 1 ++ [contents[count + 1]] := by
              rw [List.take_succ_eq_append_getElem inside, List.drop_append_of_le_length]
              rw [List.length_take]
              omega
            rw [listed, List.reverse_append, List.reverse_singleton, List.singleton_append,
              List.filter_cons]
            simp only [room, above, isPresent, decide_true, ne_eq, not_false_eq_true, Bool.and_true,
              if_true]
            rw [ring.prev_offset (by omega), ih (by omega) (by omega)]
            simp only [StoredBlock.isLive, isPresent, Bool.true_and, Bool.not_eq_true']
            cases contents[count + 1].dead with
            | true => rfl
            | false =>
                have left : maxRecentBlockhashes - blocks.length =
                    maxRecentBlockhashes - (blocks.length + 1) + 1 := by omega
                simp only [Bool.false_eq_true, if_false, if_true, List.length_append,
                  List.length_singleton, List.append_assoc, List.singleton_append]
                rw [left, List.take_succ_cons]
      · have full : maxRecentBlockhashes - blocks.length = 0 := by omega
        simp [room, full]

variable {self : StoredBlocksWrite}

/-- The recent blocks are the highest live blocks above the lowest block. -/
theorem Spans.getRecentBlocks_eq (spans : self.Spans contents) : self.getRecentBlocks =
    ((contents.drop 1).filter StoredBlock.isLive).rtake maxRecentBlockhashes := by
  have fits := spans.represents.fits
  unfold getRecentBlocks
  by_cases nonempty : 0 < contents.length
  · have whole : contents.take (contents.length - 1 + 1) = contents :=
      List.take_of_length_le (by omega)
    rw [spans.represents.head_eq nonempty, getRecentBlocksLoop_eq spans.represents
      spans.consecutive.present (by omega) (by omega), whole, List.nil_append, List.filter_reverse,
      List.length_nil, Nat.sub_zero, List.rtake_eq_reverse_take_reverse]
  · have nil : contents = [] := List.length_eq_zero_iff.mp (by omega)
    subst nil
    have absent : (self.blocks.cells self.blocks.head).present = false := by
      rw [spans.represents.headCell]
      rfl
    have stopped (fuel : Nat) : getRecentBlocksLoop self.blocks fuel self.blocks.head [] = [] := by
      cases fuel with
      | zero => rfl
      | succ fuel => simp [getRecentBlocksLoop, absent]
    rw [stopped]
    rfl

/-- The live cells are the live blocks of the contents. -/
theorem Spans.liveCount_eq (spans : self.Spans contents) :
    self.liveCount = (contents.filter StoredBlock.isLive).length := by
  have fits := spans.represents.fits
  -- The cells are listed from the tail on.
  have listed : List.Perm (List.finRange self.blocks.size)
      ((List.range self.blocks.size).map self.blocks.offset) := by
    rw [List.perm_ext_iff_of_nodup (List.nodup_finRange _)]
    · intro index
      obtain ⟨count, bound, same⟩ := self.blocks.exists_offset index
      exact iff_of_true (List.mem_finRange index)
        (List.mem_map.mpr ⟨count, List.mem_range.mpr bound, same⟩)
    · apply List.Nodup.map_on _ List.nodup_range
      intro first firstInside second secondInside same
      exact self.blocks.offset_injective (List.mem_range.mp firstInside)
        (List.mem_range.mp secondInside) same
  have cells : (List.range self.blocks.size).map (fun count => self.blocks.cells
      (self.blocks.offset count)) =
      contents ++ List.replicate (self.blocks.size - contents.length) StoredBlock.newNoexists := by
    apply List.ext_getElem
    · simp
      omega
    · intro count low high
      rw [List.length_map, List.length_range] at low
      rw [List.getElem_map, List.getElem_range, spans.represents.cell count low]
      by_cases inside : count < contents.length
      · rw [List.getD_eq_getElem _ _ inside, List.getElem_append_left inside]
      · rw [List.getD_eq_default _ _ (by omega), List.getElem_append_right (by omega),
          List.getElem_replicate]
  have counted : ((List.range self.blocks.size).map self.blocks.offset).countP
      (fun index => (self.blocks.cells index).isLive) = ((List.range self.blocks.size).map
        (fun count => self.blocks.cells (self.blocks.offset count))).countP StoredBlock.isLive := by
    rw [List.countP_map, List.countP_map]
    rfl
  rw [liveCount, listed.countP_eq, counted, cells, List.countP_append, List.countP_replicate,
    ← List.countP_eq_length_filter]
  rfl

/-- The highest live blocks of the contents fill the window. -/
theorem Spans.recentWindow (spans : self.Spans contents) :
    self.RecentWindow ((contents.filter StoredBlock.isLive).rtake maxRecentBlockhashes) := by
  have sorted : (contents.filter StoredBlock.isLive).Pairwise fun low high => low.slot < high.slot :=
    (Successive.pairwise_lt spans.consecutive.slots).filter _
  have cut := List.take_append_drop
    ((contents.filter StoredBlock.isLive).length - maxRecentBlockhashes)
    (contents.filter StoredBlock.isLive)
  constructor
  · exact sorted.sublist (List.drop_sublist _ _)
  · intro block member
    obtain ⟨inside, isLive⟩ := List.mem_filter.mp (List.mem_of_mem_drop member)
    obtain ⟨index, rfl⟩ := (spans.mem_iff (spans.consecutive.present block inside)).mp inside
    exact ⟨index, isLive, rfl⟩
  · intro index isLive older block newer
    have present : (self.blocks.cells index).present = true := by
      rw [StoredBlock.isLive, Bool.and_eq_true] at isLive
      exact isLive.1
    have member := List.mem_filter.mpr ⟨(spans.mem_iff present).mpr ⟨index, rfl⟩, isLive⟩
    rw [← cut, List.pairwise_append] at sorted
    rw [← cut, List.mem_append] at member
    exact sorted.2.2 _ (member.resolve_right older) block newer
  · rw [spans.liveCount_eq, List.rtake, List.length_drop]
    omega

/-- The recent blocks fill the window exactly if the lowest block is dead or does not belong to it. -/
theorem Spans.recentWindow_iff (spans : self.Spans contents) :
    self.RecentWindow self.getRecentBlocks ↔
      ((self.blocks.cells self.blocks.tail).isLive = true → maxRecentBlockhashes < self.liveCount) := by
  have window := spans.recentWindow
  have tailCell := spans.represents.tailCell
  have counted := spans.liveCount_eq
  rw [spans.getRecentBlocks_eq, tailCell]
  cases contents with
  | nil =>
      constructor
      · rintro - ⟨⟩
      · exact fun _ => window
  | cons first rest =>
      rw [List.getD_cons_zero, List.drop_one, List.tail_cons]
      cases isLive : first.isLive with
      | false =>
          rw [List.filter_cons_of_neg (by simp [isLive])] at window
          constructor
          · rintro - ⟨⟩
          · exact fun _ => window
      | true =>
          rw [List.filter_cons_of_pos isLive] at window counted
          rw [List.length_cons] at counted
          constructor
          · intro recent _
            have count := recent.count
            rw [List.rtake, List.length_drop] at count
            omega
          · intro full
            have above := full rfl
            have one : (rest.filter StoredBlock.isLive).length + 1 - maxRecentBlockhashes =
                (rest.filter StoredBlock.isLive).length - maxRecentBlockhashes + 1 := by
              omega
            rw [List.rtake, List.length_cons, one, List.drop_succ_cons] at window
            exact window

end StoredBlocksWrite

namespace Writer

/-- In every state of a run, the recent blocks fill the window exactly if the lowest block is dead or does
not belong to it. -/
theorem run_recentWindow_iff (db : Rocksdb) (list : List StoredBlock) (max : Nat)
    (blocks : StoredBlocksWrite) (files : StorageFilesWrite) (disk : Disk)
    (loaded : db.spawnSlots = .ok list) (opened : StoredBlocksWrite.new list max = .ok blocks)
    (final : Writer) (run : Run (fun _ _ => True) (start ⟨db, files, disk, blocks⟩ []) final) :
    final.store.blocks.RecentWindow final.store.blocks.getRecentBlocks ↔
      ((final.store.blocks.blocks.cells final.store.blocks.blocks.tail).isLive = true →
        maxRecentBlockhashes < final.store.blocks.liveCount) := by
  obtain ⟨contents, spans⟩ := run.spans (spans_start loaded opened)
  exact spans.ring.recentWindow_iff

/-- A live block above a dead slot is the recent one. -/
theorem run_recentWindow_iff_dead : ∃ final,
    Run (fun _ _ => True) (start (emptyStore 2 10 (by decide)) []) final ∧
      final.store.blocks.getRecentBlocks.map StoredBlock.slot = [5] ∧
      final.store.blocks.RecentWindow final.store.blocks.getRecentBlocks := by
  have taken : ((start (emptyStore 2 10 (by decide)) []).takeAll
      ([.pushBlockFront 4 none, .roomy, .record, .store, .publish] ++
        storeFront 5 (plainBlock 4 [1, 2]))).map (fun state =>
          ((state.store.blocks.blocks.cells state.store.blocks.blocks.tail).isLive,
            state.store.blocks.getRecentBlocks.map StoredBlock.slot)) = some (false, [5]) := by
    decide +kernel
  obtain ⟨final, taken, known⟩ := Option.map_eq_some_iff.mp taken
  obtain ⟨isDead, recent⟩ := Prod.mk.inj known
  have run := run_of_takeAll (permits_any _ _) taken
  refine ⟨final, run, recent, ?_⟩
  apply (run_recentWindow_iff Rocksdb.empty [] 2 _ _ _ rfl rfl final run).mpr
  rw [isDead]
  rintro ⟨⟩

/-- The only block of a ring is not a recent one. -/
theorem recentWindow_false : ¬ ∀ (db : Rocksdb) (list : List StoredBlock) (max : Nat)
    (blocks : StoredBlocksWrite) (files : StorageFilesWrite) (disk : Disk),
    db.spawnSlots = .ok list → StoredBlocksWrite.new list max = .ok blocks → ∀ final : Writer,
      Run (fun _ _ => True) (start ⟨db, files, disk, blocks⟩ []) final →
      final.store.blocks.RecentWindow final.store.blocks.getRecentBlocks := by
  intro always
  have taken : ((start (emptyStore 2 10 (by decide)) []).takeAll
      (storeFront 5 (plainBlock 4 [1, 2]))).map (fun state =>
        (state.store.blocks.getRecentBlocks, state.store.blocks.liveCount)) = some ([], 1) := by
    decide +kernel
  obtain ⟨final, taken, known⟩ := Option.map_eq_some_iff.mp taken
  obtain ⟨recent, counted⟩ := Prod.mk.inj known
  have run := run_of_takeAll (permits_any _ _) taken
  have window := always Rocksdb.empty [] 2 _ _ _ rfl rfl final run
  have count := window.count
  rw [recent, counted] at count
  cases count

end Writer

end Alpamayo
