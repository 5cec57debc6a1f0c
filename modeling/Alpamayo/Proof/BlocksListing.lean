import Alpamayo.Proof.BlocksDeque
import Alpamayo.Proof.ProcessedState
import Alpamayo.Storage.Read

/-!
This file shows when the listing of slots is exact in the reachable states of a reader.
-/

namespace Alpamayo

namespace RpcRequestBlocksUntil

/-- The request asks for a nonempty range. -/
def Valid (startSlot : Nat) : RpcRequestBlocksUntil → Prop
  | endSlot slot => startSlot ≤ slot
  | limit count => 1 ≤ count

/-- The slot lies in the requested range. -/
def within (slot : Nat) : RpcRequestBlocksUntil → Bool
  | endSlot last => slot ≤ last
  | limit _ => true

/-- Only a limit shortens the list. -/
def truncate (slots : List Nat) : RpcRequestBlocksUntil → List Nat
  | endSlot _ => slots
  | limit count => slots.take count

/-- The request needs no slot from this one on when the given number of slots comes before it. -/
def fulfilled (slot count : Nat) : RpcRequestBlocksUntil → Bool
  | endSlot last => last < slot
  | limit wanted => wanted ≤ count

end RpcRequestBlocksUntil

section scan

variable {scanEnd : Nat} {stop : RpcRequestBlocksUntil} {contents : List StoredBlock}
  {ring : CellRing StoredBlock}

/-- The listing as a scan of a list of cells. -/
def scanCells (scanEnd : Nat) (stop : RpcRequestBlocksUntil) : List StoredBlock → List Nat → List Nat
  | [], blocks => blocks
  | block :: rest, blocks =>
      if scanEnd < block.slot then blocks
      else if StoredBlocksRead.limitReached blocks.length stop then blocks
      else scanCells scanEnd stop rest (if block.dead then blocks else blocks ++ [block.slot])

/-- The loop over the ring scans the contents from its first cell on. -/
theorem getBlocksLoop_eq
    (represents : CellRing.Represents StoredBlock.newNoexists ring contents)
    (consecutive : Consecutive contents) (fuel : Nat) {place : Nat}
    (inside : place < contents.length) (enough : contents.length ≤ place + fuel)
    (blocks : List Nat) :
    StoredBlocksRead.getBlocksLoop ring scanEnd stop fuel (ring.offset place) blocks =
      scanCells scanEnd stop (contents.drop place) blocks := by
  induction fuel generalizing place blocks with
  | zero => omega
  | succ fuel ih =>
      have fits := represents.fits
      have cell : ring.cells (ring.offset place) = contents[place] := by
        rw [represents.cell place (by omega), List.getD_eq_getElem _ _ inside]
      have present := consecutive.present _ (List.getElem_mem inside)
      rw [List.drop_eq_getElem_cons inside]
      simp only [StoredBlocksRead.getBlocksLoop, scanCells, cell, present, Bool.not_true,
        Bool.false_or, decide_eq_true_eq]
      split
      · rfl
      · split
        · rfl
        · by_cases last : place + 1 = contents.length
          · have isHead : ring.offset place = ring.head := by
              rw [represents.head_eq (by omega)]
              congr 1
              omega
            rw [if_pos isHead, List.drop_eq_nil_of_le (by omega)]
            rfl
          · have notHead : ring.offset place ≠ ring.head := by
              rw [represents.head_eq (by omega)]
              intro same
              have := ring.offset_injective (by omega) (by omega) same
              omega
            rw [if_neg notHead, ring.next_offset (by omega)]
            exact ih (by omega) (by omega) _

/-- The slots of the cells that a scan lists when nothing else stops it. -/
def listedSlots (scanEnd : Nat) (cells : List StoredBlock) : List Nat :=
  (cells.filter fun block => !block.dead && decide (block.slot ≤ scanEnd)).map StoredBlock.slot

/-- The slots that still fit into a request. -/
def moreSlots (count : Nat) (slots : List Nat) : RpcRequestBlocksUntil → List Nat
  | .endSlot _ => slots
  | .limit limit => slots.take (limit - count)

/-- A scan of ascending cells lists the live slots up to its end. -/
theorem scanCells_eq (cells : List StoredBlock)
    (chain : cells.IsChain fun low high => high.slot = low.slot + 1) (blocks : List Nat)
    (bounded : ∀ limit, stop = .limit limit → blocks.length ≤ limit) :
    scanCells scanEnd stop cells blocks =
      blocks ++ moreSlots blocks.length (listedSlots scanEnd cells) stop := by
  induction cells generalizing blocks with
  | nil => cases stop <;> simp [scanCells, listedSlots, moreSlots]
  | cons block rest ih =>
      simp only [scanCells]
      split
      · rename_i above
        have none : listedSlots scanEnd (block :: rest) = [] := by
          rw [listedSlots, List.map_eq_nil_iff, List.filter_eq_nil_iff]
          intro other member
          have higher := Successive.head_le chain rfl member
          simp only [Bool.and_eq_true, decide_eq_true_eq, not_and]
          omega
        rw [none]
        cases stop <;> simp [moreSlots]
      · rename_i within
        split
        · rename_i reached
          cases stop with
          | endSlot last => cases reached
          | limit limit =>
              have full : blocks.length = limit := by
                simpa [StoredBlocksRead.limitReached] using reached
              simp [moreSlots, full]
        · rename_i unfinished
          have room : ∀ limit, stop = .limit limit → blocks.length < limit := by
            intro limit same
            have bound := bounded limit same
            subst same
            have different : blocks.length ≠ limit := by
              simpa [StoredBlocksRead.limitReached] using unfinished
            omega
          by_cases dead : block.dead = true
          · rw [if_pos dead, ih chain.tail blocks bounded]
            simp [listedSlots, dead]
          · have listed : listedSlots scanEnd (block :: rest) =
                block.slot :: listedSlots scanEnd rest := by
              rw [listedSlots, List.filter_cons_of_pos (by simp [dead]; omega)]
              rfl
            rw [listed, if_neg dead, ih chain.tail _ ?_, List.append_assoc]
            · cases stop with
              | endSlot last => rfl
              | limit limit =>
                  have more := room limit rfl
                  simp only [moreSlots, List.length_append, List.length_singleton]
                  rw [show limit - blocks.length = limit - (blocks.length + 1) + 1 by omega,
                    List.take_succ_cons]
                  rfl
            · intro limit same
              rw [List.length_append, List.length_singleton]
              exact room limit same

end scan

namespace Reader

variable {reader : Reader} {contents : List StoredBlock} {startSlot : Nat}
  {stop : RpcRequestBlocksUntil}

/-- The slots of the live cells, from the tail on. -/
def liveSlots (self : Reader) : List Nat :=
  (((List.range self.blocks.blocks.size).map fun count =>
    self.blocks.blocks.cells (self.blocks.blocks.offset count)).filter StoredBlock.isLive).map
      StoredBlock.slot

/-- The slot of a live block that the writer is still storing. -/
def inProcessSlots (self : Reader) : List Nat :=
  match self.confirmedInProcess with
  | some (slot, some _) => [slot]
  | _ => []

/-- The confirmed slots that are not dead. -/
def confirmedSlots (self : Reader) : List Nat := self.liveSlots ++ self.inProcessSlots

/-- The list ascends and has exactly the wanted slots, up to the limit. -/
def ListsExactly (self : Reader) (startSlot : Nat) (stop : RpcRequestBlocksUntil)
    (slots : List Nat) : Prop :=
  slots.Pairwise (· < ·) ∧ slots = stop.truncate (self.confirmedSlots.filter fun slot =>
    decide (startSlot ≤ slot) && stop.within slot)

/-- The first slot that the scan of the ring reads. -/
def scanStart (self : Reader) (startSlot : Nat) : Nat :=
  let tail := self.blocks.blocks.cells self.blocks.blocks.tail
  tail.slot + self.blocks.blocks.distance
    (StoredBlocksRead.startIndex self.blocks.blocks (startSlot - tail.slot))

/-- Up to the newest stored slot, the scan ends only above the wanted live slots; above it, the
scan meets no live slot up to its end. -/
def ScanCovers (self : Reader) (startSlot : Nat) (stop : RpcRequestBlocksUntil) : Prop :=
  let lastSlot := self.endSlot .confirmed
  if startSlot ≤ (self.blocks.blocks.cells self.blocks.blocks.head).slot then
    ∀ slot ∈ self.liveSlots, startSlot ≤ slot → lastSlot < slot →
      stop.fulfilled slot (self.liveSlots.filter fun other =>
        decide (startSlot ≤ other) && decide (other ≤ lastSlot)).length = true
  else ∀ slot ∈ self.liveSlots, self.scanStart startSlot ≤ slot → lastSlot < slot

instance (self : Reader) (startSlot : Nat) (stop : RpcRequestBlocksUntil) :
    Decidable (self.ScanCovers startSlot stop) := by
  unfold ScanCovers
  infer_instance

/-- The ring holds consecutive cells, and the block in process comes after them. -/
structure Consistent (reader : Reader) (contents : List StoredBlock) : Prop where
  represents : CellRing.Represents StoredBlock.newNoexists reader.blocks.blocks contents
  consecutive : Consecutive contents
  inProcess : ∀ slot block, reader.confirmedInProcess = some (slot, block) →
    reader.storageProcessed.confirmedSlot = slot ∧
      ∀ last ∈ contents.getLast?, slot = last.slot + 1

/-- The live slots of the ring are those of its contents. -/
theorem Consistent.liveSlots (consistent : reader.Consistent contents) :
    reader.liveSlots = (contents.filter StoredBlock.isLive).map StoredBlock.slot := by
  have fits := consistent.represents.fits
  have cells : (List.range reader.blocks.blocks.size).map (fun count =>
      reader.blocks.blocks.cells (reader.blocks.blocks.offset count)) = contents ++
      List.replicate (reader.blocks.blocks.size - contents.length) StoredBlock.newNoexists := by
    apply List.ext_getElem
    · simp
      omega
    · intro count inside _
      rw [List.length_map, List.length_range] at inside
      rw [List.getElem_map, List.getElem_range, consistent.represents.cell count inside,
        List.getElem_append]
      split
      · rename_i known
        exact List.getD_eq_getElem _ _ known
      · rename_i outside
        rw [List.getD_eq_default _ _ (by omega), List.getElem_replicate]
  rw [Reader.liveSlots, cells, List.filter_append]
  have absent : (List.replicate (reader.blocks.blocks.size - contents.length)
      StoredBlock.newNoexists).filter StoredBlock.isLive = [] := by
    rw [List.filter_eq_nil_iff]
    intro block member
    rw [List.eq_of_mem_replicate member]
    simp
  rw [absent, List.append_nil]

/-- The cells from a slot on give the live slots from it on. -/
theorem Consistent.listedSlots (consistent : reader.Consistent contents) {first : StoredBlock}
    (isFirst : contents.head? = some first) (place scanEnd : Nat) :
    listedSlots scanEnd (contents.drop place) = reader.liveSlots.filter fun slot =>
      decide (first.slot + place ≤ slot) && decide (slot ≤ scanEnd) := by
  have dropped := Successive.drop_eq_filter consistent.consecutive.slots isFirst
    (show first.slot ≤ first.slot + place by omega)
  rw [Nat.add_sub_cancel_left] at dropped
  rw [Alpamayo.listedSlots, dropped, consistent.liveSlots, List.filter_map, List.filter_filter,
    List.filter_filter]
  congr 1
  apply List.filter_congr
  intro block member
  have present := consistent.consecutive.present block member
  simp only [StoredBlock.isLive, present, Bool.true_and, Function.comp]
  cases block.dead <;> simp [Bool.and_comm]

/-- The slots of consecutive cells lie between the first and the last one. -/
theorem Consistent.liveSlots_le (consistent : reader.Consistent contents) {last : StoredBlock}
    (isLast : contents.getLast? = some last) {slot : Nat} (member : slot ∈ reader.liveSlots) :
    slot ≤ last.slot := by
  rw [consistent.liveSlots] at member
  obtain ⟨block, live, rfl⟩ := List.mem_map.mp member
  exact Successive.le_getLast consistent.consecutive.slots isLast (List.mem_filter.mp live).1

/-- The confirmed slots ascend. -/
theorem Consistent.confirmedSlots_ascend (consistent : reader.Consistent contents) :
    reader.confirmedSlots.Pairwise (· < ·) := by
  have slots : contents.Pairwise fun low high => low.slot < high.slot := by
    refine List.Pairwise.imp ?_ (List.isChain_iff_pairwise.mp
      (consistent.consecutive.slots.imp (S := fun low high => low.slot < high.slot) ?_))
    · exact fun below => below
    · intro low high next
      omega
  rw [confirmedSlots, consistent.liveSlots, List.pairwise_append]
  refine ⟨?_, ?_, ?_⟩
  · rw [List.pairwise_map]
    exact slots.filter _
  · rw [inProcessSlots]
    split <;> simp
  · intro low lowMember high highMember
    rw [inProcessSlots] at highMember
    split at highMember
    · rename_i slot block running
      rw [List.mem_singleton.mp highMember]
      rw [← consistent.liveSlots] at lowMember
      rcases contents.eq_nil_or_concat with rfl | ⟨rest, last, rfl⟩
      · rw [consistent.liveSlots] at lowMember
        cases lowMember
      · have isLast : (rest.concat last).getLast? = some last := by simp
        have below := consistent.liveSlots_le isLast lowMember
        have next := (consistent.inProcess slot (some block) running).2 last isLast
        omega
    · cases highMember

/-- The scan of the ring from an index gives the live slots between its first and its last slot. -/
theorem Consistent.getBlocksLoop (consistent : reader.Consistent contents) {first : StoredBlock}
    (isFirst : contents.head? = some first) (scanEnd : Nat)
    (index : Fin reader.blocks.blocks.size) :
    StoredBlocksRead.getBlocksLoop reader.blocks.blocks scanEnd stop reader.blocks.blocks.size
        index [] =
      moreSlots 0 (reader.liveSlots.filter fun slot => decide (first.slot +
        reader.blocks.blocks.distance index ≤ slot) && decide (slot ≤ scanEnd)) stop := by
  have positive := reader.blocks.blocks.size_pos
  have fits := consistent.represents.fits
  have bound := reader.blocks.blocks.distance_lt index
  rw [← reader.blocks.blocks.offset_distance index,
    reader.blocks.blocks.distance_offset bound]
  generalize reader.blocks.blocks.distance index = place at bound
  rcases Nat.lt_or_ge place contents.length with inside | outside
  · rw [getBlocksLoop_eq consistent.represents consistent.consecutive _ inside (by omega),
      scanCells_eq _ (consistent.consecutive.slots.drop place) [] (by simp),
      consistent.listedSlots isFirst place scanEnd]
    rfl
  · have absent : reader.blocks.blocks.cells (reader.blocks.blocks.offset place) =
        StoredBlock.newNoexists := by
      rw [consistent.represents.cell place bound, List.getD_eq_default _ _ outside]
    have none : (reader.liveSlots.filter fun slot =>
        decide (first.slot + place ≤ slot) && decide (slot ≤ scanEnd)) = [] := by
      rw [← consistent.listedSlots isFirst, List.drop_eq_nil_of_le outside]
      rfl
    rw [none]
    obtain ⟨fuel, size⟩ := Nat.exists_eq_succ_of_ne_zero positive.ne'
    have loop : StoredBlocksRead.getBlocksLoop reader.blocks.blocks scanEnd stop
        reader.blocks.blocks.size (reader.blocks.blocks.offset place) [] = [] := by
      generalize reader.blocks.blocks.size = rounds at size
      subst size
      simp [StoredBlocksRead.getBlocksLoop, absent]
    rw [loop]
    cases stop <;> simp [moreSlots]

/-- An answer with slots comes from a scan of a nonempty ring that reaches its last slot. -/
theorem Consistent.processBlocks (consistent : reader.Consistent contents) {expired : Bool}
    {slots : List Nat}
    (answered : reader.processBlocks expired startSlot stop .confirmed = .blocks slots) :
    ∃ first last, contents.head? = some first ∧ contents.getLast? = some last ∧
      reader.blocks.blocks.cells reader.blocks.blocks.tail = first ∧
      reader.blocks.blocks.cells reader.blocks.blocks.head = last ∧
      first.slot ≤ startSlot ∧ reader.endSlot .confirmed ≤ last.slot ∧
      slots = reader.appendInProcess .confirmed startSlot stop (moreSlots 0
        (reader.liveSlots.filter fun slot => decide (reader.scanStart startSlot ≤ slot) &&
          decide (slot ≤ StoredBlocksRead.scanEndSlot (reader.endSlot .confirmed) stop)) stop) := by
  have tailCell := consistent.represents.tailCell
  have headCell := consistent.represents.headCell
  unfold Reader.processBlocks at answered
  split at answered
  · cases answered
  · split at answered
    · cases answered
    · rename_i tailSlot isTail
      split at answered
      · cases answered
      · rename_i notBelow
        split at answered
        · rename_i blocks listed
          cases answered
          unfold StoredBlocksRead.getBlocks at listed
          dsimp only at listed
          split at listed
          · cases listed
          · rename_i tailFine
            split at listed
            · cases listed
            · rename_i headFine
              simp only [Bool.not_eq_true', Bool.not_eq_false, Bool.and_eq_true,
                decide_eq_true_eq] at tailFine headFine
              cases contents with
              | nil =>
                  rw [tailCell] at tailFine
                  cases tailFine.1
              | cons first rest =>
                  have isLast : (first :: rest).getLast? =
                      some ((first :: rest).getLastD StoredBlock.newNoexists) := by
                    rw [List.getLastD_eq_getLast?, List.getLast?_eq_some_getLast (by simp)]
                    rfl
                  rw [List.getD_cons_zero] at tailCell
                  rw [tailCell] at tailFine listed
                  rw [headCell] at headFine
                  refine ⟨first, _, rfl, isLast, tailCell, headCell, tailFine.2, headFine.2, ?_⟩
                  rw [consistent.getBlocksLoop rfl] at listed
                  cases listed
                  simp only [scanStart, tailCell]
        · cases answered

/-- A list of at most one slot is added to a list that is cut at a limit. -/
theorem append_take_eq (slots : List Nat) {last : List Nat} (single : last.length ≤ 1)
    (limit : Nat) :
    (if (slots.take limit).length < limit then slots.take limit ++ last
      else slots.take limit) = (slots ++ last).take limit := by
  rw [List.take_append, List.length_take]
  rcases Nat.lt_or_ge slots.length limit with short | long
  · rw [if_pos (by omega), List.take_of_length_le (show last.length ≤ _ by omega)]
  · rw [if_neg (by omega), Nat.sub_eq_zero_of_le long, List.take_zero, List.append_nil]

/-- The wanted slot of a live block that the writer is still storing. -/
def wantedInProcess (self : Reader) (startSlot : Nat) (stop : RpcRequestBlocksUntil) : List Nat :=
  self.inProcessSlots.filter fun slot => decide (startSlot ≤ slot) && stop.within slot

/-- The answer is the truncated list of the scanned slots and the block in process. -/
theorem appendInProcess_eq (self : Reader) (startSlot : Nat) (stop : RpcRequestBlocksUntil)
    (scanned : List Nat) :
    self.appendInProcess .confirmed startSlot stop (moreSlots 0 scanned stop) =
      stop.truncate (scanned ++ self.wantedInProcess startSlot stop) := by
  unfold appendInProcess wantedInProcess inProcessSlots
  cases stop with
  | endSlot last =>
      rcases self.confirmedInProcess with _ | ⟨slot, _ | block⟩
      · simp [moreSlots, RpcRequestBlocksUntil.truncate]
      · simp [moreSlots, RpcRequestBlocksUntil.truncate]
      · by_cases wanted : startSlot ≤ slot ∧ slot ≤ last <;>
          simp [moreSlots, RpcRequestBlocksUntil.truncate, RpcRequestBlocksUntil.within, wantsSlot,
            wanted]
  | limit limit =>
      rcases self.confirmedInProcess with _ | ⟨slot, _ | block⟩
      · simp [moreSlots, RpcRequestBlocksUntil.truncate]
      · simp [moreSlots, RpcRequestBlocksUntil.truncate]
      · by_cases wanted : startSlot ≤ slot
        · have cut := append_take_eq scanned (show [slot].length ≤ 1 by simp) limit
          simpa [moreSlots, RpcRequestBlocksUntil.truncate, RpcRequestBlocksUntil.within, wantsSlot,
            wanted] using cut
        · simp [moreSlots, RpcRequestBlocksUntil.truncate, RpcRequestBlocksUntil.within, wanted]

/-- An ascending list splits at a bound. -/
theorem filter_split {list : List Nat} (ascends : list.Pairwise (· < ·)) (test : Nat → Bool)
    (bound : Nat) :
    list.filter test = (list.filter fun slot => test slot && decide (slot ≤ bound)) ++
      list.filter fun slot => test slot && decide (bound < slot) := by
  induction list with
  | nil => rfl
  | cons first rest ih =>
      obtain ⟨below, ascends⟩ := List.pairwise_cons.mp ascends
      rcases Nat.lt_or_ge bound first with above | inside
      · have none : ((first :: rest).filter fun slot => test slot && decide (slot ≤ bound)) = [] := by
          rw [List.filter_eq_nil_iff]
          intro slot member
          have lower : first ≤ slot := by
            rcases List.mem_cons.mp member with rfl | later
            · exact le_rfl
            · exact (below slot later).le
          simp only [Bool.and_eq_true, decide_eq_true_eq, not_and]
          omega
        rw [none, List.nil_append]
        apply List.filter_congr
        intro slot member
        have lower : bound < slot := by
          rcases List.mem_cons.mp member with rfl | later
          · exact above
          · exact above.trans (below slot later)
        simp [lower]
      · rw [List.filter_cons, List.filter_cons, List.filter_cons, ih ascends]
        have notAbove : ¬ bound < first := by omega
        cases test first <;> simp [inside, notAbove]

/-- A limit hides the rest of a list only when the first part is long enough. -/
theorem take_eq_take_append_iff (part rest : List Nat) (limit : Nat) :
    part.take limit = (part ++ rest).take limit ↔ limit ≤ part.length ∨ rest = [] := by
  rw [List.take_append, List.self_eq_append_right, List.take_eq_nil_iff, Nat.sub_eq_zero_iff_le]

section exactness

variable {first last : StoredBlock} {slots : List Nat}

/-- A block in process lets the scan end at the newest stored slot. -/
theorem Consistent.endSlot_eq (consistent : reader.Consistent contents)
    (isLast : contents.getLast? = some last) (running : reader.confirmedInProcess.isSome = true) :
    reader.endSlot .confirmed = last.slot := by
  obtain ⟨⟨slot, block⟩, known⟩ := Option.isSome_iff_exists.mp running
  obtain ⟨confirmed, next⟩ := consistent.inProcess slot block known
  have follows := next last isLast
  rw [endSlot, if_pos rfl, if_pos running, confirmed]
  omega

/-- Up to the newest stored slot, the scan starts at the wanted slot. -/
theorem Consistent.scanStart_eq (consistent : reader.Consistent contents)
    (isFirst : contents.head? = some first) (isLast : contents.getLast? = some last)
    (tailCell : reader.blocks.blocks.cells reader.blocks.blocks.tail = first)
    (small : 2 * reader.blocks.blocks.size ≤ maxSlot) (lower : first.slot ≤ startSlot)
    (upper : startSlot ≤ last.slot) : reader.scanStart startSlot = startSlot := by
  have fits := consistent.represents.fits
  have nonempty : 0 < contents.length := by
    cases contents with
    | nil => cases isFirst
    | cons _ _ => simp
  have distance := consistent.consecutive.slot_getElem (show contents.length - 1 < _ by omega)
  rw [List.getLast?_eq_getElem?, List.getElem?_eq_getElem (by omega)] at isLast
  rw [List.head?_eq_getElem?, List.getElem?_eq_getElem nonempty] at isFirst
  rw [Option.some_inj.mp isLast, Option.some_inj.mp isFirst] at distance
  have inside : startSlot - first.slot < reader.blocks.blocks.size := by omega
  have tailInside := reader.blocks.blocks.tail.isLt
  have unwrapped : StoredBlocksRead.startIndex reader.blocks.blocks (startSlot - first.slot) =
      reader.blocks.blocks.offset (startSlot - first.slot) := by
    apply Fin.ext
    rw [StoredBlocksRead.startIndex, CellRing.offset]
    simp only
    rw [Nat.mod_eq_of_lt (show _ < maxSlot + 1 by omega)]
  rw [scanStart, tailCell, unwrapped, reader.blocks.blocks.distance_offset inside]
  omega

/-- Two filters of a list agree when one test holds wherever the other does. -/
theorem filter_eq_filter_iff {list : List Nat} {first second : Nat → Bool}
    (weaker : ∀ slot ∈ list, first slot = true → second slot = true) :
    list.filter first = list.filter second ↔
      ∀ slot ∈ list, second slot = true → first slot = true := by
  constructor
  · intro same slot member passes
    have inside : slot ∈ list.filter second := List.mem_filter.mpr ⟨member, passes⟩
    rw [← same] at inside
    exact (List.mem_filter.mp inside).2
  · intro stronger
    apply List.filter_congr
    intro slot member
    rw [Bool.eq_iff_iff]
    exact ⟨weaker slot member, stronger slot member⟩

/-- Up to the newest stored slot, only a scan that ends too early loses a wanted slot. -/
theorem Consistent.truncate_eq_iff_below (consistent : reader.Consistent contents)
    (isLast : contents.getLast? = some last) :
    stop.truncate ((reader.liveSlots.filter fun slot => decide (startSlot ≤ slot) &&
        decide (slot ≤ StoredBlocksRead.scanEndSlot (reader.endSlot .confirmed) stop)) ++
          reader.wantedInProcess startSlot stop) =
      stop.truncate ((reader.liveSlots.filter fun slot => decide (startSlot ≤ slot) &&
        stop.within slot) ++ reader.wantedInProcess startSlot stop) ↔
      ∀ slot ∈ reader.liveSlots, startSlot ≤ slot → reader.endSlot .confirmed < slot →
        stop.fulfilled slot (reader.liveSlots.filter fun other => decide (startSlot ≤ other) &&
          decide (other ≤ reader.endSlot .confirmed)).length = true := by
  cases stop with
  | endSlot upper =>
      simp only [RpcRequestBlocksUntil.truncate, List.append_left_inj, StoredBlocksRead.scanEndSlot,
        RpcRequestBlocksUntil.within, RpcRequestBlocksUntil.fulfilled, decide_eq_true_eq]
      rw [filter_eq_filter_iff]
      · simp only [Bool.and_eq_true, decide_eq_true_eq, le_min_iff]
        constructor
        · intro stronger slot member above early
          by_contra inside
          have reached := (stronger slot member ⟨above, by omega⟩).2.1
          omega
        · intro complete slot member wanted
          refine ⟨wanted.1, ?_, wanted.2⟩
          by_contra outside
          have := complete slot member wanted.1 (by omega)
          omega
      · simp only [Bool.and_eq_true, decide_eq_true_eq, le_min_iff]
        exact fun slot _ listed => ⟨listed.1, listed.2.2⟩
  | limit limit =>
      simp only [RpcRequestBlocksUntil.truncate, StoredBlocksRead.scanEndSlot,
        RpcRequestBlocksUntil.within, RpcRequestBlocksUntil.fulfilled, decide_eq_true_eq,
        Bool.and_true]
      have ascends := (List.pairwise_append.mp consistent.confirmedSlots_ascend).1
      rw [filter_split ascends (fun slot => decide (startSlot ≤ slot)) (reader.endSlot .confirmed)]
      by_cases running : reader.confirmedInProcess.isSome = true
      · have atEnd := consistent.endSlot_eq isLast running
        have none : (reader.liveSlots.filter fun slot => decide (startSlot ≤ slot) &&
            decide (reader.endSlot .confirmed < slot)) = [] := by
          rw [List.filter_eq_nil_iff]
          intro slot member
          have := consistent.liveSlots_le isLast member
          simp only [Bool.and_eq_true, decide_eq_true_eq, not_and]
          omega
        rw [none, List.append_nil]
        refine ⟨fun _ slot member _ late => ?_, fun _ => rfl⟩
        have := consistent.liveSlots_le isLast member
        omega
      · have nothing : reader.wantedInProcess startSlot (.limit limit) = [] := by
          rw [Bool.not_eq_true, Option.isSome_eq_false_iff, Option.isNone_iff_eq_none] at running
          rw [wantedInProcess, inProcessSlots, running]
          rfl
        rw [nothing, List.append_nil, List.append_nil]
        refine (take_eq_take_append_iff _ _ limit).trans ?_
        rw [List.filter_eq_nil_iff]
        simp only [Bool.and_eq_true, decide_eq_true_eq, not_and]
        constructor
        · rintro (enough | none) slot member above late
          · exact enough
          · exact absurd late (none slot member above)
        · intro complete
          by_cases none : ∀ slot ∈ reader.liveSlots, startSlot ≤ slot →
              ¬ reader.endSlot .confirmed < slot
          · exact Or.inr none
          · simp only [not_forall, not_not] at none
            obtain ⟨slot, member, above, late⟩ := none
            exact Or.inl (complete slot member above late)

/-- Above the newest stored slot, every slot that the scan lists is wrong. -/
theorem Consistent.truncate_eq_iff_above (consistent : reader.Consistent contents)
    (isLast : contents.getLast? = some last) (valid : stop.Valid startSlot)
    (above : last.slot < startSlot) (reaches : reader.endSlot .confirmed ≤ last.slot) :
    stop.truncate ((reader.liveSlots.filter fun slot => decide (reader.scanStart startSlot ≤ slot) &&
        decide (slot ≤ StoredBlocksRead.scanEndSlot (reader.endSlot .confirmed) stop)) ++
          reader.wantedInProcess startSlot stop) =
      stop.truncate ((reader.liveSlots.filter fun slot => decide (startSlot ≤ slot) &&
        stop.within slot) ++ reader.wantedInProcess startSlot stop) ↔
      ∀ slot ∈ reader.liveSlots, reader.scanStart startSlot ≤ slot →
        reader.endSlot .confirmed < slot := by
  have scanEnd : StoredBlocksRead.scanEndSlot (reader.endSlot .confirmed) stop =
      reader.endSlot .confirmed := by
    cases stop with
    | endSlot upper =>
        simp only [RpcRequestBlocksUntil.Valid] at valid
        simp only [StoredBlocksRead.scanEndSlot]
        omega
    | limit limit => rfl
  have none : (reader.liveSlots.filter fun slot => decide (startSlot ≤ slot) &&
      stop.within slot) = [] := by
    rw [List.filter_eq_nil_iff]
    intro slot member
    have := consistent.liveSlots_le isLast member
    simp only [Bool.and_eq_true, decide_eq_true_eq, not_and]
    omega
  have empty : (reader.liveSlots.filter fun slot => decide (reader.scanStart startSlot ≤ slot) &&
      decide (slot ≤ reader.endSlot .confirmed)) = [] ↔ ∀ slot ∈ reader.liveSlots,
        reader.scanStart startSlot ≤ slot → reader.endSlot .confirmed < slot := by
    rw [List.filter_eq_nil_iff]
    simp only [Bool.and_eq_true, decide_eq_true_eq, not_and, Nat.not_le]
  rw [scanEnd, none, ← empty, List.nil_append]
  constructor
  · intro same
    cases scanned : (reader.liveSlots.filter fun slot =>
        decide (reader.scanStart startSlot ≤ slot) &&
          decide (slot ≤ reader.endSlot .confirmed)) with
    | nil => rfl
    | cons wrong rest =>
        have member : wrong ∈ reader.liveSlots :=
          List.mem_of_mem_filter (scanned ▸ List.mem_cons_self)
        have below := consistent.liveSlots_le isLast member
        rw [scanned] at same
        have listed : wrong ∈ stop.truncate (reader.wantedInProcess startSlot stop) := by
          rw [← same]
          cases stop with
          | endSlot upper => simp [RpcRequestBlocksUntil.truncate]
          | limit limit =>
              simp only [RpcRequestBlocksUntil.Valid] at valid
              rw [RpcRequestBlocksUntil.truncate, List.cons_append,
                show limit = limit - 1 + 1 by omega, List.take_succ_cons]
              exact List.mem_cons_self
        have pending : wrong ∈ reader.wantedInProcess startSlot stop := by
          cases stop with
          | endSlot upper => exact listed
          | limit limit => exact List.mem_of_mem_take listed
        have wanted := (List.mem_filter.mp pending).2
        simp only [Bool.and_eq_true, decide_eq_true_eq] at wanted
        omega
  · intro nothing
    rw [nothing, List.nil_append]

/-- The answer of a consistent reader is exact when its scan covers the request, and only then. -/
theorem Consistent.listsExactly_iff (consistent : reader.Consistent contents) {expired : Bool}
    (small : 2 * reader.blocks.blocks.size ≤ maxSlot) (valid : stop.Valid startSlot)
    (answered : reader.processBlocks expired startSlot stop .confirmed = .blocks slots) :
    reader.ListsExactly startSlot stop slots ↔ reader.ScanCovers startSlot stop := by
  obtain ⟨first, last, isFirst, isLast, tailCell, headCell, lower, reaches, rfl⟩ :=
    consistent.processBlocks answered
  have wanted : reader.confirmedSlots.filter (fun slot => decide (startSlot ≤ slot) &&
      stop.within slot) = (reader.liveSlots.filter fun slot => decide (startSlot ≤ slot) &&
        stop.within slot) ++ reader.wantedInProcess startSlot stop := List.filter_append ..
  rw [appendInProcess_eq, ListsExactly, wanted, ScanCovers, headCell]
  have drop : ∀ list : List Nat, list.Pairwise (· < ·) ∧ list = stop.truncate
      ((reader.liveSlots.filter fun slot => decide (startSlot ≤ slot) && stop.within slot) ++
        reader.wantedInProcess startSlot stop) ↔ list = stop.truncate
      ((reader.liveSlots.filter fun slot => decide (startSlot ≤ slot) && stop.within slot) ++
        reader.wantedInProcess startSlot stop) := by
    intro list
    refine ⟨And.right, fun same => ⟨?_, same⟩⟩
    rw [same, ← wanted]
    have ascends := consistent.confirmedSlots_ascend.filter fun slot =>
      decide (startSlot ≤ slot) && stop.within slot
    cases stop with
    | endSlot upper => exact ascends
    | limit limit => exact ascends.sublist (List.take_sublist _ _)
  rw [drop]
  split
  · rename_i upper
    rw [consistent.scanStart_eq isFirst isLast tailCell small lower upper]
    exact consistent.truncate_eq_iff_below isLast
  · rename_i above
    exact consistent.truncate_eq_iff_above isLast valid (by omega) reaches

end exactness

section reachable

/-- The messages that the writer can send while its ring is that of the reader. -/
def WriterSends (self : Reader) : ReadWriteSyncMessage → Prop
  | .init _ _ _ => False
  | .blockNew _ _ | .blockDead _ | .slotFinalized _ => True
  | .blockConfirmed slot _ =>
      (self.blocks.blocks.cells self.blocks.blocks.head).present = true →
        slot = (self.blocks.blocks.cells self.blocks.blocks.head).slot + 1
  | .confirmedBlockPopBack => (self.blocks.blocks.cells self.blocks.blocks.tail).present = true
  | .confirmedBlockPopFront =>
      (self.blocks.blocks.cells self.blocks.blocks.head).present = true ∧
        self.confirmedInProcess = none
  | .confirmedBlockPushBack block =>
      block.present = true ∧
        (self.blocks.blocks.cells self.blocks.blocks.tail).present = true ∧
        (self.blocks.blocks.cells self.blocks.blocks.tail).slot = block.slot + 1 ∧
        (self.blocks.blocks.cells (self.blocks.blocks.prev self.blocks.blocks.tail)).present = false
  | .confirmedBlockPushFront block =>
      block.present = true ∧
        (self.blocks.blocks.cells (self.blocks.blocks.next self.blocks.blocks.head)).present = false

instance decidableWriterSends (self : Reader) :
    (message : ReadWriteSyncMessage) → Decidable (self.WriterSends message)
  | .init _ _ _ => inferInstanceAs (Decidable False)
  | .blockNew _ _ | .blockDead _ | .slotFinalized _ => inferInstanceAs (Decidable True)
  | .blockConfirmed _ _ => inferInstanceAs (Decidable (_ = true → _ = _))
  | .confirmedBlockPopBack => inferInstanceAs (Decidable (_ = true))
  | .confirmedBlockPopFront | .confirmedBlockPushBack _ | .confirmedBlockPushFront _ =>
      inferInstanceAs (Decidable (_ ∧ _))

/-- The states that a reader reaches from the first message by the messages of the writer. -/
inductive Reachable : Reader → Prop
  | init (db : Rocksdb) (list : List StoredBlock) (max : Nat) (writer : StoredBlocksWrite)
      (recentBlocks : List (Nat × BlockWithBinary)) (loaded : db.spawnSlots = .ok list)
      (opened : StoredBlocksWrite.new list max = .ok writer)
      (recent : recentBlocks.map Prod.fst = writer.getRecentBlocks.map StoredBlock.slot) :
      Reachable (Reader.init writer.toRead recentBlocks)
  | update (reader after : Reader) (message : ReadWriteSyncMessage) (before : Reachable reader)
      (sends : reader.WriterSends message) (updated : reader.update message = .ok after) :
      Reachable after

variable {after : Reader}

/-- A present cell at the tail is the first of the contents. -/
theorem Consistent.exists_first (consistent : reader.Consistent contents)
    (present : (reader.blocks.blocks.cells reader.blocks.blocks.tail).present = true) :
    ∃ first rest, contents = first :: rest ∧
      reader.blocks.blocks.cells reader.blocks.blocks.tail = first := by
  have cell := consistent.represents.tailCell
  cases contents with
  | nil =>
      rw [cell] at present
      cases present
  | cons first rest => exact ⟨first, rest, rfl, cell⟩

/-- A present cell at the head is the last of the contents. -/
theorem Consistent.exists_last (consistent : reader.Consistent contents)
    (present : (reader.blocks.blocks.cells reader.blocks.blocks.head).present = true) :
    ∃ rest last, contents = rest ++ [last] := by
  have cell := consistent.represents.headCell
  rcases contents.eq_nil_or_concat with rfl | ⟨rest, last, rfl⟩
  · rw [cell] at present
    cases present
  · exact ⟨rest, last, List.concat_eq_append ..⟩

/-- The last of the contents is the cell at the head. -/
theorem Consistent.headCell_of_last (consistent : reader.Consistent contents) {last : StoredBlock}
    (isLast : contents.getLast? = some last) :
    reader.blocks.blocks.cells reader.blocks.blocks.head = last := by
  rw [consistent.represents.headCell, List.getLastD_eq_getLast?, isLast]
  rfl

/-- A message that leaves the ring and the block in process alone keeps the reader consistent. -/
theorem Consistent.of_processed (consistent : reader.Consistent contents)
    {processed : StorageProcessed}
    (same : processed.confirmedSlot = reader.storageProcessed.confirmedSlot) :
    Reader.Consistent { reader with storageProcessed := processed } contents :=
  ⟨consistent.represents, consistent.consecutive, fun slot block known => by
    rw [same]
    exact consistent.inProcess slot block known⟩

/-- A message of the writer keeps the reader consistent. -/
theorem Consistent.update (consistent : reader.Consistent contents)
    {message : ReadWriteSyncMessage} (sends : reader.WriterSends message)
    (updated : reader.update message = .ok after) : ∃ rest, after.Consistent rest := by
  cases message with
  | init blocks files recent => cases sends
  | blockNew slot block =>
      cases updated
      exact ⟨contents, consistent.of_processed (by simp)⟩
  | blockDead slot =>
      cases updated
      exact ⟨contents, consistent.of_processed (StorageProcessed.markDead_frame _ slot).2.1⟩
  | slotFinalized slot =>
      cases updated
      obtain ⟨_, _, same⟩ := StorageProcessed.setFinalized_eq reader.storageProcessed slot
      exact ⟨contents, consistent.of_processed (by rw [same])⟩
  | blockConfirmed slot block =>
      cases updated
      refine ⟨contents, consistent.represents, consistent.consecutive, ?_⟩
      rintro confirmed added ⟨⟩
      refine ⟨by simp, ?_⟩
      intro last isLast
      have cell := consistent.headCell_of_last isLast
      have present := consistent.consecutive.present last (List.mem_of_getLast? isLast)
      rw [← cell] at present ⊢
      exact sends present
  | confirmedBlockPopBack =>
      cases updated
      obtain ⟨first, rest, rfl, -⟩ := consistent.exists_first sends
      refine ⟨rest, consistent.represents.popBack,
        consistent.consecutive.part (List.suffix_cons first rest).isInfix, ?_⟩
      intro slot block known
      obtain ⟨confirmed, next⟩ := consistent.inProcess slot block known
      exact ⟨confirmed, fun last isLast =>
        next last (mem_getLast?_of_suffix (List.suffix_cons first rest) isLast)⟩
  | confirmedBlockPopFront =>
      cases updated
      obtain ⟨present, idle⟩ := sends
      obtain ⟨rest, last, rfl⟩ := consistent.exists_last present
      refine ⟨rest, consistent.represents.popFront,
        consistent.consecutive.part (List.prefix_append rest [last]).isInfix, ?_⟩
      intro slot block known
      rw [show reader.confirmedInProcess = some (slot, block) from known] at idle
      cases idle
  | confirmedBlockPushBack block =>
      cases updated
      obtain ⟨present, tailPresent, next, free⟩ := sends
      obtain ⟨first, rest, rfl, cell⟩ := consistent.exists_first tailPresent
      rw [cell] at next
      have room := (consistent.consecutive.backFree_iff consistent.represents).mp free
      refine ⟨block :: first :: rest, consistent.represents.pushBack room,
        consistent.consecutive.cons present ?_, ?_⟩
      · rintro _ ⟨⟩
        exact next
      · intro slot stored known
        obtain ⟨confirmed, follows⟩ := consistent.inProcess slot stored known
        refine ⟨confirmed, fun last isLast => follows last ?_⟩
        rwa [List.getLast?_cons_cons] at isLast
  | confirmedBlockPushFront block =>
      obtain ⟨present, free⟩ := sends
      simp only [Reader.update, pushFront] at updated
      split at updated
      · cases updated
      · rename_i slot stored running
        split at updated
        · rename_i same
          cases updated
          obtain ⟨-, next⟩ := consistent.inProcess slot stored running
          have room := (consistent.consecutive.frontFree_iff consistent.represents).mp free
          refine ⟨contents ++ [block], consistent.represents.pushFront room,
            consistent.consecutive.append present ?_, ?_⟩
          · rw [← same]
            exact next
          · intro _ _ known
            cases known
        · cases updated

/-- A reader that is reached by the messages of the writer is consistent. -/
theorem Reachable.consistent (reachable : reader.Reachable) :
    ∃ contents, reader.Consistent contents := by
  induction reachable with
  | init db list max writer recentBlocks loaded opened recent =>
      obtain ⟨present, chain, -⟩ := spawnSlotsLoop_chain loaded
      have consecutive : Consecutive list := ⟨present, chain⟩
      obtain ⟨represents, -⟩ := StoredBlocksWrite.new_represents consecutive opened
      exact ⟨list, represents, consecutive, fun _ _ known => (by cases known)⟩
  | update reader after message before sends updated ih =>
      obtain ⟨contents, consistent⟩ := ih
      exact consistent.update sends updated

end reachable

/-- In every reachable state, an answer lists the confirmed slots of a valid request exactly if and
only if the scan of the ring covers the request. -/
theorem processBlocks_listsExactly_iff (reader : Reader) (reachable : reader.Reachable)
    (small : 2 * reader.blocks.blocks.size ≤ maxSlot) (expired : Bool) (startSlot : Nat) (stop : RpcRequestBlocksUntil) (slots : List Nat)
    (valid : stop.Valid startSlot)
    (answered : reader.processBlocks expired startSlot stop .confirmed = .blocks slots) :
    reader.ListsExactly startSlot stop slots ↔ reader.ScanCovers startSlot stop := by
  obtain ⟨contents, consistent⟩ := reachable.consistent
  exact consistent.listsExactly_iff small valid answered

/-- A block with a height and one byte. -/
def sampleBlock (slot : Nat) : BlockWithBinary :=
  ⟨"", slot - 1, none, some slot, [0], [], [], []⟩

/-- The database has four live slots. -/
def fullDb : Rocksdb :=
  [10, 11, 12, 13].foldl (fun db slot => db.slotAdd slot (some (sampleBlock slot, 0, slot)))
    Rocksdb.empty

def fullBlocks : List StoredBlock :=
  [10, 11, 12, 13].map fun slot => StoredBlock.newConfirmed slot none (some slot) 0 slot 1

/-- The ring of four cells has the four slots of the database. -/
def fullWriter : StoredBlocksWrite where
  blocks := ⟨4, fun index => fullBlocks.getD index StoredBlock.newNoexists, 0, 3⟩
  firstAvailable := 10
  sent := []

/-- The reader after the first message. -/
def fullReader : Reader :=
  Reader.init fullWriter.toRead ([11, 12, 13].map fun slot => (slot, sampleBlock slot))

theorem fullReader_reachable : fullReader.Reachable :=
  .init fullDb fullBlocks 4 fullWriter _ (by decide +kernel) rfl (by decide +kernel)

/-- The listing from a stored slot on is exact. -/
theorem processBlocks_listsExactly_iff_stored :
    fullReader.processBlocks false 11 (.limit 2) .confirmed = .blocks [11, 12] ∧
      fullReader.ListsExactly 11 (.limit 2) [11, 12] := by
  have answered : fullReader.processBlocks false 11 (.limit 2) .confirmed = .blocks [11, 12] := by
    decide +kernel
  refine ⟨answered, (processBlocks_listsExactly_iff fullReader fullReader_reachable
    (by decide) false 11 (.limit 2) [11, 12] (show 1 ≤ 2 by decide) answered).mpr ?_⟩
  decide +kernel

/-- The listing from a slot above the newest one starts again at the lowest stored slot. -/
theorem listsExactly_false : fullReader.Reachable ∧
    fullReader.processBlocks false 14 (.limit 5) .confirmed = .blocks [10, 11, 12, 13] ∧
    ¬ fullReader.ListsExactly 14 (.limit 5) [10, 11, 12, 13] := by
  refine ⟨fullReader_reachable, by decide +kernel, ?_⟩
  rintro ⟨-, same⟩
  revert same
  decide +kernel

end Reader

end Alpamayo
