import Alpamayo.Proof.SlotLookup
import Alpamayo.Proof.TransactionScan

/-!
This file shows when the bounds that come from block times hide no slot and no entry of a scan.
-/

namespace Alpamayo

namespace StoredBlocksRead

variable {copy : StoredBlocksRead} {slot lower upper : Nat} {time blockTime : UnixTimestamp}

/-- The ring has a live block of the slot with this time. -/
def LiveAt (copy : StoredBlocksRead) (slot : Nat) (blockTime : UnixTimestamp) : Prop :=
  ∃ index, (copy.blocks.cells index).isLive = true ∧
    (copy.blocks.cells index).blockTime = some blockTime ∧ (copy.blocks.cells index).slot = slot

/-- The bounds from block times hide no live slot that they are meant to include. -/
def BoundsHold (copy : StoredBlocksRead) : Prop :=
  ∀ slot blockTime, copy.LiveAt slot blockTime → ∀ time,
    (time ≤ blockTime → ∀ lower, copy.blockTimeToSlotLower time = some lower → lower ≤ slot) ∧
    (blockTime ≤ time → ∀ upper, copy.blockTimeToSlotUpper time = some upper → slot ≤ upper)

/-- Where the time falls from a slot to a higher one, the lower time also occurs at or below the first
slot and the higher one at or above the second. -/
def TimesCovered (copy : StoredBlocksRead) : Prop :=
  ∀ low lowTime high highTime, copy.LiveAt low lowTime → copy.LiveAt high highTime → low < high →
    highTime < lowTime → (∃ first, first ≤ low ∧ copy.LiveAt first highTime) ∧
      ∃ last, high ≤ last ∧ copy.LiveAt last lowTime

/-- The index has the times of the live blocks, and slots have their machine type. -/
structure Indexed (copy : StoredBlocksRead) : Prop where
  times : ∀ time slot, copy.blockTimeIndex.containsKey (toLex (time, slot)) = true ↔
    copy.LiveAt slot time
  fits : ∀ slot time, copy.LiveAt slot time → slot ≤ maxSlot

theorem Indexed.mem_iff (indexed : copy.Indexed) :
    (toLex (blockTime, slot), ()) ∈ copy.blockTimeIndex.entries ↔ copy.LiveAt slot blockTime := by
  rw [← indexed.times, SortedMap.containsKey_iff]
  constructor
  · intro member
    exact ⟨(), SortedMap.get_eq_some_iff.mpr member⟩
  · rintro ⟨⟨⟩, found⟩
    exact SortedMap.get_eq_some_iff.mp found

theorem key_ge (reached : time ≤ blockTime) (slot : Nat) :
    toLex (time, 0) ≤ toLex (blockTime, slot) := by
  rw [Prod.Lex.toLex_le_toLex]
  obtain less | same := lt_or_eq_of_le reached
  · exact Or.inl less
  · exact Or.inr ⟨same, Nat.zero_le slot⟩

theorem key_le (reached : blockTime ≤ time) (fits : slot ≤ maxSlot) :
    toLex (blockTime, slot) ≤ toLex (time, maxSlot) := by
  rw [Prod.Lex.toLex_le_toLex]
  obtain less | same := lt_or_eq_of_le reached
  · exact Or.inl less
  · exact Or.inr ⟨same, fits⟩

/-- A lower bound is the first key from the time on. -/
theorem Indexed.lower_spec (indexed : copy.Indexed)
    (known : copy.blockTimeToSlotLower time = some lower) :
    ∃ lowerTime, copy.LiveAt lower lowerTime ∧ time ≤ lowerTime ∧
      ∀ slot blockTime, copy.LiveAt slot blockTime → time ≤ blockTime →
        lowerTime < blockTime ∨ lowerTime = blockTime ∧ lower ≤ slot := by
  obtain ⟨⟨key, value⟩, found, rfl⟩ := Option.map_eq_some_iff.mp known
  obtain ⟨member, above, least⟩ := SortedMap.find?_ge found
  refine ⟨(ofLex key).1, indexed.mem_iff.mp member, ?_, ?_⟩
  · obtain less | ⟨same, -⟩ := Prod.Lex.le_iff.mp above
    · exact le_of_lt less
    · exact le_of_eq same
  · intro slot blockTime live reached
    exact Prod.Lex.le_iff.mp (least _ (indexed.mem_iff.mpr live) (key_ge reached slot))

/-- An upper bound is the last key up to the time. -/
theorem Indexed.upper_spec (indexed : copy.Indexed)
    (known : copy.blockTimeToSlotUpper time = some upper) :
    ∃ upperTime, copy.LiveAt upper upperTime ∧ upperTime ≤ time ∧
      ∀ slot blockTime, copy.LiveAt slot blockTime → blockTime ≤ time →
        blockTime < upperTime ∨ blockTime = upperTime ∧ slot ≤ upper := by
  obtain ⟨⟨key, value⟩, found, rfl⟩ := Option.map_eq_some_iff.mp known
  obtain ⟨member, below, greatest⟩ := SortedMap.find?_le found
  refine ⟨(ofLex key).1, indexed.mem_iff.mp member, ?_, ?_⟩
  · obtain less | ⟨same, -⟩ := Prod.Lex.le_iff.mp below
    · exact le_of_lt less
    · exact le_of_eq same
  · intro slot blockTime live reached
    exact Prod.Lex.le_iff.mp (greatest _ (indexed.mem_iff.mpr live)
      (key_le reached (indexed.fits slot blockTime live)))

theorem Indexed.exists_lower (indexed : copy.Indexed) (live : copy.LiveAt slot blockTime)
    (reached : time ≤ blockTime) : ∃ lower, copy.blockTimeToSlotLower time = some lower := by
  cases found : copy.blockTimeIndex.entries.find? fun entry => toLex (time, 0) ≤ entry.1 with
  | some entry => exact ⟨(ofLex entry.1).2, by rw [blockTimeToSlotLower, found, Option.map_some]⟩
  | none =>
      have outside := List.find?_eq_none.mp found _ (indexed.mem_iff.mpr live)
      rw [decide_eq_true_eq] at outside
      exact absurd (key_ge reached slot) outside

theorem Indexed.exists_upper (indexed : copy.Indexed) (live : copy.LiveAt slot blockTime)
    (reached : blockTime ≤ time) : ∃ upper, copy.blockTimeToSlotUpper time = some upper := by
  cases found : copy.blockTimeIndex.entries.reverse.find? fun entry =>
      entry.1 ≤ toLex (time, maxSlot) with
  | some entry => exact ⟨(ofLex entry.1).2, by rw [blockTimeToSlotUpper, found, Option.map_some]⟩
  | none =>
      have outside := List.find?_eq_none.mp found _ (List.mem_reverse.mpr (indexed.mem_iff.mpr live))
      rw [decide_eq_true_eq] at outside
      exact absurd (key_le reached (indexed.fits slot blockTime live)) outside

/-- The bounds hide no slot exactly if the times are covered where they fall. -/
theorem Indexed.boundsHold_iff (indexed : copy.Indexed) : copy.BoundsHold ↔ copy.TimesCovered := by
  constructor
  · intro holds low lowTime high highTime isLow isHigh less falls
    refine ⟨?_, ?_⟩
    · obtain ⟨first, known⟩ := indexed.exists_lower isHigh (le_refl highTime)
      obtain ⟨firstTime, isFirst, above, least⟩ := indexed.lower_spec known
      have below : first ≤ low := (holds low lowTime isLow highTime).1 (le_of_lt falls) first known
      obtain later | ⟨same, -⟩ := least high highTime isHigh (le_refl highTime)
      · exact absurd later (not_lt.mpr above)
      · exact ⟨first, below, same ▸ isFirst⟩
    · obtain ⟨last, known⟩ := indexed.exists_upper isLow (le_refl lowTime)
      obtain ⟨lastTime, isLast, below, greatest⟩ := indexed.upper_spec known
      have above : high ≤ last := (holds high highTime isHigh lowTime).2 (le_of_lt falls) last known
      obtain earlier | ⟨same, -⟩ := greatest low lowTime isLow (le_refl lowTime)
      · exact absurd earlier (not_lt.mpr below)
      · exact ⟨last, above, same ▸ isLast⟩
  · intro covered slot blockTime live time
    refine ⟨?_, ?_⟩
    · intro reached lower known
      obtain ⟨lowerTime, isLower, above, least⟩ := indexed.lower_spec known
      by_contra hidden
      obtain falls | ⟨-, below⟩ := least slot blockTime live reached
      · obtain ⟨⟨first, below, isFirst⟩, -⟩ :=
          covered slot blockTime lower lowerTime live isLower (by omega) falls
        obtain later | ⟨-, least'⟩ := least first lowerTime isFirst above
        · exact absurd later (lt_irrefl lowerTime)
        · omega
      · omega
    · intro reached upper known
      obtain ⟨upperTime, isUpper, below, greatest⟩ := indexed.upper_spec known
      by_contra hidden
      obtain falls | ⟨-, above⟩ := greatest slot blockTime live reached
      · obtain ⟨-, last, above, isLast⟩ :=
          covered upper upperTime slot blockTime isUpper live (by omega) falls
        obtain earlier | ⟨-, greatest'⟩ := greatest last upperTime isLast below
        · exact absurd earlier (lt_irrefl upperTime)
        · omega
      · omega

/-- Times that never fall with the slot are covered. -/
theorem timesCovered_of_monotone (rises : ∀ low lowTime high highTime, copy.LiveAt low lowTime →
    copy.LiveAt high highTime → low < high → lowTime ≤ highTime) : copy.TimesCovered := by
  intro low lowTime high highTime isLow isHigh less falls
  exact absurd falls (not_lt.mpr (rises low lowTime high highTime isLow isHigh less))

/-- The time comes at the bound or after it, or it is the last one of the ring before the bound. -/
def Closes (copy : StoredBlocksRead) (bound time : UnixTimestamp) : Prop :=
  bound ≤ time ∨ ∀ slot other, copy.LiveAt slot other → other ≤ bound → other ≤ time

/-- Every upper bound of a time from the given one on reaches the slot exactly if each time that closes
such a range occurs at the slot or above it. -/
theorem Indexed.upper_reaches_iff (indexed : copy.Indexed) :
    (∀ time, blockTime ≤ time → ∀ upper, copy.blockTimeToSlotUpper time = some upper →
      slot ≤ upper) ↔
    ∀ place time, copy.LiveAt place time → copy.Closes blockTime time →
      ∃ last, slot ≤ last ∧ copy.LiveAt last time := by
  constructor
  · intro reaches place time live closes
    obtain ⟨upper, known⟩ := indexed.exists_upper live (le_max_right blockTime time)
    obtain ⟨upperTime, isUpper, below, greatest⟩ := indexed.upper_spec known
    have above := reaches _ (le_max_left blockTime time) upper known
    refine ⟨upper, above, ?_⟩
    obtain earlier | ⟨same, -⟩ := greatest place time live (le_max_right blockTime time)
    · -- A later time up to the bound would close the range instead.
      obtain after | last := closes
      · rw [max_eq_right after] at below
        exact absurd earlier (not_lt.mpr below)
      · have inside : upperTime ≤ blockTime := by
          rcases le_total blockTime time with after | before
          · rw [max_eq_right after] at below
            exact absurd earlier (not_lt.mpr below)
          · rwa [max_eq_left before] at below
        exact absurd earlier (not_lt.mpr (last upper upperTime isUpper inside))
    · exact same ▸ isUpper
  · intro covered time reached upper known
    obtain ⟨upperTime, isUpper, below, greatest⟩ := indexed.upper_spec known
    have closes : copy.Closes blockTime upperTime := by
      refine Or.inr fun place other live inside => ?_
      obtain earlier | ⟨same, -⟩ := greatest place other live (inside.trans reached)
      · exact earlier.le
      · exact same.le
    obtain ⟨last, above, isLast⟩ := covered upper upperTime isUpper closes
    obtain earlier | ⟨-, within⟩ := greatest last upperTime isLast below
    · exact absurd earlier (lt_irrefl upperTime)
    · exact above.trans within

end StoredBlocksRead

namespace ReadRequestTransactionsForAddress

/-- The same request without its bounds on the block time. -/
def untimed (self : ReadRequestTransactionsForAddress) : ReadRequestTransactionsForAddress :=
  { self with blockTimeFilterLower := none, blockTimeFilterUpper := none }

/-- The bounds on the block time include the time. -/
structure Admits (read : ReadRequestTransactionsForAddress) (blockTime : UnixTimestamp) : Prop where
  lower : ∀ time ∈ read.blockTimeFilterLower, time ≤ blockTime
  upper : ∀ time ∈ read.blockTimeFilterUpper, blockTime ≤ time

end ReadRequestTransactionsForAddress

namespace Reader

variable {reader : Reader} {slot : Nat} {blockTime : UnixTimestamp}
  {read : ReadRequestTransactionsForAddress}

/-- The scan of the index starts below the block in process when the read has seen that block. -/
def indexStart (reader : Reader) (read : ReadRequestTransactionsForAddress) : Nat :=
  (reader.tfaInProcess read (reader.scanRange read).1).elim (reader.scanRange read).1
    fun inProcess => inProcess.1 - 1

/-- The bounds on the block time take no stored entry and no block in process out of a read that they
include. -/
structure ScanKeeps (reader : Reader) : Prop where
  stored : ∀ (db : Rocksdb) addressHash read entry blockTime, read.Admits blockTime →
    reader.blocks.LiveAt entry.signature.slot blockTime →
      entry ∈ db.scanned addressHash read.desc (reader.indexStart read.untimed)
        (reader.scanRange read.untimed).2 →
      entry ∈ db.scanned addressHash read.desc (reader.indexStart read) (reader.scanRange read).2
  inProcess : ∀ read slot block statuses blockTime, block.blockTime = some blockTime →
    read.Admits blockTime →
      reader.tfaInProcess read.untimed (reader.scanRange read.untimed).1 =
        some (slot, block, statuses) →
      reader.tfaInProcess read (reader.scanRange read).1 = some (slot, block, statuses)

/-- A stored time that closes the range of the block in process occurs at its slot or above it. -/
def InProcessCovered (reader : Reader) : Prop :=
  ∀ slot block blockTime, reader.confirmedInProcess = some (slot, some block) →
    block.blockTime = some blockTime → (∃ address sfa, block.getSfa address = some sfa) →
      slot ≤ reader.storageProcessed.confirmedSlot →
        ∀ place time, reader.blocks.LiveAt place time → reader.blocks.Closes blockTime time →
          ∃ last, slot ≤ last ∧ reader.blocks.LiveAt last time

/-- Without a bound on the block time the slot filter is the bound. -/
@[simp] theorem refineLower_none (slotLower : Option Nat) :
    reader.refineLower slotLower none = slotLower := by
  cases slotLower <;> rfl

@[simp] theorem refineUpper_none (slotUpper : Option Nat) :
    reader.refineUpper slotUpper none = slotUpper := by
  cases slotUpper <;> rfl

/-- The refined lower bound keeps a live slot that the other bounds keep. -/
theorem refineLower_keeps (holds : reader.blocks.BoundsHold)
    (live : reader.blocks.LiveAt slot blockTime) {slotLower : Option Nat}
    {timeLower : Option UnixTimestamp} (above : ∀ bound ∈ slotLower, bound ≤ slot)
    (after : ∀ time ∈ timeLower, time ≤ blockTime) :
    ∀ bound ∈ reader.refineLower slotLower timeLower, bound ≤ slot := by
  cases timeLower with
  | none => rwa [refineLower_none]
  | some time =>
      have reached := (holds slot blockTime live time).1 (after time rfl)
      cases slotLower with
      | none => exact reached
      | some lower =>
          rintro bound ⟨⟩
          apply max_le (above lower rfl)
          cases known : reader.blocks.blockTimeToSlotLower time with
          | none => exact Nat.zero_le slot
          | some timeSlot => exact reached timeSlot known

/-- The refined upper bound keeps a slot that the slot filter and the bound of the time keep. -/
theorem refineUpper_keeps {slotUpper : Option Nat} {timeUpper : Option UnixTimestamp}
    (below : ∀ bound ∈ slotUpper, slot ≤ bound)
    (reached : ∀ time ∈ timeUpper, ∀ upper, reader.blocks.blockTimeToSlotUpper time = some upper →
      slot ≤ upper) :
    ∀ bound ∈ reader.refineUpper slotUpper timeUpper, slot ≤ bound := by
  cases timeUpper with
  | none => rwa [refineUpper_none]
  | some time =>
      cases slotUpper with
      | none => exact reached time rfl
      | some upper =>
          rintro bound ⟨⟩
          apply le_min (below upper rfl)
          cases known : reader.blocks.blockTimeToSlotUpper time with
          | none => exact below upper rfl
          | some timeSlot => exact reached time rfl timeSlot known

/-- The upper slot keeps the slots up to the commitment and up to the refined bound. -/
theorem le_upperSlot_iff : slot ≤ reader.upperSlot read ↔
    slot ≤ reader.commitmentSlot read.commitment ∧
      ∀ bound ∈ reader.refineUpper read.slotFilterUpper read.blockTimeFilterUpper, slot ≤ bound := by
  rw [upperSlot]
  cases reader.refineUpper read.slotFilterUpper read.blockTimeFilterUpper with
  | none => simp
  | some bound => simp [and_comm]

theorem le_upperSlot_untimed_iff : slot ≤ reader.upperSlot read.untimed ↔
    slot ≤ reader.commitmentSlot read.commitment ∧ ∀ bound ∈ read.slotFilterUpper, slot ≤ bound := by
  rw [le_upperSlot_iff, ReadRequestTransactionsForAddress.untimed, refineUpper_none]

/-- The upper slot keeps what it keeps without times and what the bound of the time keeps. -/
theorem upperSlot_keeps (inside : slot ≤ reader.upperSlot read.untimed)
    (reached : ∀ time ∈ read.blockTimeFilterUpper, ∀ upper,
      reader.blocks.blockTimeToSlotUpper time = some upper → slot ≤ upper) :
    slot ≤ reader.upperSlot read := by
  obtain ⟨committed, below⟩ := le_upperSlot_untimed_iff.mp inside
  exact le_upperSlot_iff.mpr ⟨committed, refineUpper_keeps below reached⟩

/-- A bound on the block times only lowers the upper slot. -/
theorem upperSlot_le_untimed : reader.upperSlot read ≤ reader.upperSlot read.untimed := by
  obtain ⟨committed, below⟩ := le_upperSlot_iff.mp (Nat.le_refl (reader.upperSlot read))
  refine le_upperSlot_untimed_iff.mpr ⟨committed, ?_⟩
  intro bound known
  cases time : read.blockTimeFilterUpper with
  | none =>
      rw [time, refineUpper_none] at below
      exact below bound known
  | some time' =>
      rw [time, Option.mem_def.mp known] at below
      exact (below _ rfl).trans (min_le_left _ _)

/-- A first descending scan keeps a slot that it reaches without bounds on the block time, also behind
the block in process. -/
theorem indexStart_keeps (desc : read.desc = true)
    (keeps : slot ≤ reader.upperSlot read.untimed → slot ≤ reader.upperSlot read)
    (inside : slot ≤ reader.indexStart read.untimed) : slot ≤ reader.indexStart read := by
  have untimedDesc : read.untimed.desc = true := desc
  have untimedCursor : read.untimed.cursor = read.cursor := rfl
  cases cursor : read.cursor with
  | some place =>
      have notFirst (request : ReadRequestTransactionsForAddress)
          (later : request.cursor = some place) (start : Nat) :
          reader.tfaInProcess request start = none := by
        rw [tfaInProcess, later]
        simp
      rw [indexStart, notFirst _ (untimedCursor.trans cursor)] at inside
      rw [indexStart, notFirst _ cursor]
      simpa [scanRange, desc, untimedDesc, cursor, untimedCursor] using inside
  | none =>
      have wide : (reader.scanRange read.untimed).1 = reader.upperSlot read.untimed := by
        simp [scanRange, untimedDesc, untimedCursor, cursor]
      have narrow : (reader.scanRange read).1 = reader.upperSlot read := by
        simp [scanRange, desc, cursor]
      rw [indexStart, wide] at inside
      rw [indexStart, narrow]
      cases seen : reader.tfaInProcess read (reader.upperSlot read) with
      | some known =>
          -- A read that sees the block in process also sees it without the bounds.
          obtain ⟨place, block, statuses⟩ := known
          obtain ⟨first, known, below, sfa⟩ := tfaInProcess_eq_some.mp seen
          have seenWide : reader.tfaInProcess read.untimed (reader.upperSlot read.untimed) =
              some (place, block, statuses) :=
            tfaInProcess_eq_some.mpr ⟨first, known, below.trans upperSlot_le_untimed, sfa⟩
          rwa [seenWide] at inside
      | none =>
          apply keeps
          cases seenWide : reader.tfaInProcess read.untimed (reader.upperSlot read.untimed) with
          | none => rwa [seenWide] at inside
          | some known =>
              obtain ⟨place, block, statuses⟩ := known
              have below := (tfaInProcess_eq_some.mp seenWide).2.2.1
              rw [seenWide] at inside
              exact (inside.trans (Nat.sub_le place 1)).trans below

/-- Bounds that hide no slot keep every stored entry of a read. -/
theorem scanned_keeps {db : Rocksdb} {addressHash : HashedKey} {entry : TfaEntry}
    (holds : reader.blocks.BoundsHold) (admits : read.Admits blockTime)
    (live : reader.blocks.LiveAt entry.signature.slot blockTime)
    (inside : entry ∈ db.scanned addressHash read.desc (reader.indexStart read.untimed)
      (reader.scanRange read.untimed).2) :
    entry ∈ db.scanned addressHash read.desc (reader.indexStart read) (reader.scanRange read).2 := by
  have upper : entry.signature.slot ≤ reader.upperSlot read.untimed →
      entry.signature.slot ≤ reader.upperSlot read := fun wide =>
    upperSlot_keeps wide fun time known => (holds _ _ live time).2 (admits.upper time known)
  have lower : (∀ bound ∈ read.slotFilterLower, bound ≤ entry.signature.slot) →
      ∀ bound ∈ reader.refineLower read.slotFilterLower read.blockTimeFilterLower,
        bound ≤ entry.signature.slot := fun above => refineLower_keeps holds live above admits.lower
  simp only [Rocksdb.scanned, List.mem_filter, Bool.and_eq_true, Bool.not_eq_true'] at inside ⊢
  obtain ⟨listed, reached, within⟩ := inside
  have place : entry.position.1 = entry.signature.slot := rfl
  refine ⟨listed, ?_⟩
  cases desc : read.desc with
  | true =>
      have untimedDesc : read.untimed.desc = true := desc
      rw [desc, reaches, if_pos rfl, decide_eq_true_eq, place] at reached
      simp only [scanRange, desc, untimedDesc, if_true, outOfRange, Option.any_eq_false,
        decide_eq_false_iff_not, Nat.not_lt, place] at within ⊢
      refine ⟨?_, lower fun bound known => within bound ?_⟩
      · rw [reaches, if_pos rfl, decide_eq_true_eq]
        exact indexStart_keeps desc upper reached
      · rwa [ReadRequestTransactionsForAddress.untimed, refineLower_none]
  | false =>
      have untimedDesc : read.untimed.desc = false := desc
      have untimedCursor : read.untimed.cursor = read.cursor := rfl
      have notFirst (request : ReadRequestTransactionsForAddress) (ascends : request.desc = false)
          (start : Nat) : reader.tfaInProcess request start = none := by
        rw [tfaInProcess, ascends]
        simp
      rw [indexStart, notFirst _ untimedDesc] at reached
      rw [indexStart, notFirst _ desc]
      simp only [scanRange, desc, untimedDesc, untimedCursor, Bool.false_eq_true, if_false, outOfRange,
        Option.any_some, decide_eq_false_iff_not, Nat.not_lt, place, reaches, decide_eq_true_eq,
        Option.elim_none] at reached within ⊢
      refine ⟨?_, upper within⟩
      cases cursor : read.cursor with
      | some cursor' => rwa [cursor] at reached
      | none =>
          rw [cursor, Option.elim_none, max_le_iff] at reached
          rw [Option.elim_none, max_le_iff]
          refine ⟨?_, reached.2⟩
          have above : ∀ bound ∈ read.slotFilterLower, bound ≤ entry.signature.slot := by
            intro bound known
            have first := reached.1
            rwa [ReadRequestTransactionsForAddress.untimed, refineLower_none, known] at first
          cases refined : reader.refineLower read.slotFilterLower read.blockTimeFilterLower with
          | none => exact Nat.zero_le _
          | some bound => exact lower above bound refined

/-- A read keeps the block in process exactly if the times of the ring close its range at its slot or
above it. -/
theorem inProcess_keeps_iff (indexed : reader.blocks.Indexed) :
    (∀ read slot block statuses blockTime, block.blockTime = some blockTime →
      read.Admits blockTime →
      reader.tfaInProcess read.untimed (reader.scanRange read.untimed).1 =
        some (slot, block, statuses) →
      reader.tfaInProcess read (reader.scanRange read).1 = some (slot, block, statuses)) ↔
    reader.InProcessCovered := by
  constructor
  · rintro keeps slot block blockTime inProcess timed ⟨address, sfa, known⟩ committed
    apply indexed.upper_reaches_iff.mp
    intro time reached upper isUpper
    let read : ReadRequestTransactionsForAddress :=
      ⟨.confirmed, address, true, none, none, none, none, some time, 1⟩
    have below : slot ≤ reader.upperSlot read.untimed :=
      le_upperSlot_untimed_iff.mpr ⟨committed, nofun⟩
    have wide : reader.tfaInProcess read.untimed (reader.scanRange read.untimed).1 =
        some (slot, block, sfa.signatures) :=
      tfaInProcess_eq_some.mpr ⟨⟨rfl, rfl, rfl⟩, inProcess, below, sfa, known, rfl⟩
    have narrow := keeps read slot block sfa.signatures blockTime timed
      ⟨nofun, by rintro other ⟨⟩; exact reached⟩ wide
    have reaches : slot ≤ reader.upperSlot read := (tfaInProcess_eq_some.mp narrow).2.2.1
    exact (le_upperSlot_iff.mp reaches).2 upper isUpper
  · intro covered read slot block statuses blockTime timed admits wide
    obtain ⟨⟨desc, first, confirmed⟩, inProcess, below, sfa, known, same⟩ :=
      tfaInProcess_eq_some.mp wide
    have wideStart : (reader.scanRange read.untimed).1 = reader.upperSlot read.untimed := by
      simp [scanRange, desc, first]
    have narrowStart : (reader.scanRange read).1 = reader.upperSlot read := by
      have desc : read.desc = true := desc
      have first : read.cursor = none := first
      simp [scanRange, desc, first]
    have committed : slot ≤ reader.storageProcessed.confirmedSlot := by
      have confirmed : read.commitment = .confirmed := confirmed
      rw [wideStart, le_upperSlot_untimed_iff, confirmed] at below
      exact below.1
    have reaches := indexed.upper_reaches_iff.mpr
      (covered slot block blockTime inProcess timed ⟨read.address, sfa, known⟩ committed)
    refine tfaInProcess_eq_some.mpr ⟨⟨desc, first, confirmed⟩, inProcess, ?_, sfa, known, same⟩
    rw [narrowStart]
    rw [wideStart] at below
    exact upperSlot_keeps below fun time isTime => reaches time (admits.upper time isTime)

/-- The bounds hide no slot and no entry of a read exactly if the times are covered in the ring and
around the block in process. -/
theorem keeps_iff (indexed : reader.blocks.Indexed) :
    reader.blocks.BoundsHold ∧ reader.ScanKeeps ↔
      reader.blocks.TimesCovered ∧ reader.InProcessCovered := by
  constructor
  · rintro ⟨holds, keeps⟩
    exact ⟨indexed.boundsHold_iff.mp holds, (inProcess_keeps_iff indexed).mp keeps.inProcess⟩
  · rintro ⟨covered, inProcess⟩
    have holds := indexed.boundsHold_iff.mpr covered
    refine ⟨holds, ?_, (inProcess_keeps_iff indexed).mpr inProcess⟩
    intro db addressHash read entry blockTime admits live inside
    exact scanned_keeps holds admits live inside

end Reader

namespace Writer

/-- The reader has applied messages that a run of the writer sent, in their order. -/
def Informs (reader : Reader) : Prop :=
  ∃ db list max blocks files disk recentBlocks, db.spawnSlots = .ok list ∧
    StoredBlocksWrite.new list max = .ok blocks ∧
    ∃ final, Run (fun _ _ => True) (start ⟨db, files, disk, blocks⟩ []) final ∧
    ∃ messages, messages <+: final.store.blocks.sent ∧
      (Reader.init blocks.toRead recentBlocks).updates messages = .ok reader

/-- The index of a reader has the times of its ring. -/
theorem Informs.indexed {reader : Reader} (informed : Informs reader)
    (fits : ∀ slot time, reader.blocks.LiveAt slot time → slot ≤ maxSlot) :
    reader.blocks.Indexed := by
  obtain ⟨db, list, max, blocks, files, disk, recentBlocks, loaded, opened, final, run, messages,
    applied, updated⟩ := informed
  obtain ⟨other, state, contents, updated', copy, spans⟩ :=
    run_copies db list max blocks files disk recentBlocks loaded opened final run messages applied
  rw [updated] at updated'
  cases updated'
  have times := spans.ring.replicates.times
  rw [← copy] at times
  refine ⟨?_, fits⟩
  intro time slot
  rw [times time slot, StoredBlocksRead.LiveAt, copy]
  rfl

/-- Whatever messages of the writer a reader applied, its bounds from block times hide no slot and no
entry of a read exactly if the times are covered where they fall and around the block in process. -/
theorem run_boundsHold_iff (reader : Reader) (informed : Informs reader)
    (fits : ∀ slot time, reader.blocks.LiveAt slot time → slot ≤ maxSlot) :
    reader.blocks.BoundsHold ∧ reader.ScanKeeps ↔
      reader.blocks.TimesCovered ∧ reader.InProcessCovered :=
  Reader.keeps_iff (informed.indexed fits)

/-- The database has two live slots with these times, which a block need not have. -/
def pairDb (first second : Option UnixTimestamp) : Rocksdb := { Rocksdb.empty with
  slotBasicIndex := (SortedMap.empty.insert 10
    { blockTime := first, blockHeight := some 8, offset := 0, size := 1 }).insert 11
    { blockTime := second, blockHeight := some 9, offset := 1, size := 1 } }

def pairBlocks (first second : Option UnixTimestamp) : List StoredBlock :=
  [StoredBlock.newConfirmed 10 first (some 8) 0 0 1,
    StoredBlock.newConfirmed 11 second (some 9) 0 1 1]

def pairRing (first second : Option UnixTimestamp) : StoredBlocksWrite where
  blocks := ⟨2, fun index => (pairBlocks first second).getD index StoredBlock.newNoexists,
    ⟨0, Nat.two_pos⟩, ⟨1, Nat.one_lt_two⟩⟩
  firstAvailable := 10
  sent := []

/-- The reader knows that the slot after them is confirmed, and the writer is storing its block. -/
def pairReader (first second : Option UnixTimestamp) (block : Option BlockWithBinary) : Reader where
  blocks := (pairRing first second).toRead
  confirmedInProcess := some (12, block)
  storageProcessed := StorageProcessed.default.setConfirmed 12 block

/-- The writer has started to store the next slot. -/
theorem pairReader_informed {first second : Option UnixTimestamp} {block : Option BlockWithBinary}
    (loaded : (pairDb first second).spawnSlots = .ok (pairBlocks first second)) :
    Informs (pairReader first second block) := by
  let writer := start ⟨pairDb first second, ⟨[], HashMap.empty, 0⟩, fun _ => ⟨0, fun _ => 0⟩,
    pairRing first second⟩ []
  have run : Run (fun _ _ => True) writer _ := run_of_takeAll (permits_any _ [.pushBlockFront 12 block]) rfl
  exact ⟨pairDb first second, _, 2, pairRing first second, ⟨[], HashMap.empty, 0⟩,
    fun _ => ⟨0, fun _ => 0⟩, [], loaded, rfl, _, run, [.blockConfirmed 12 block], List.prefix_rfl, rfl⟩

theorem pairReader_live {first second : Option UnixTimestamp} {block : Option BlockWithBinary} {slot : Nat}
    {time : UnixTimestamp} : (pairReader first second block).blocks.LiveAt slot time ↔
      slot = 10 ∧ first = some time ∨ slot = 11 ∧ second = some time := by
  constructor
  · rintro ⟨⟨index, inside⟩, -, timed, rfl⟩
    have cases : index = 0 ∨ index = 1 := by
      change index < 2 at inside
      omega
    obtain rfl | rfl := cases
    · exact Or.inl ⟨rfl, timed⟩
    · exact Or.inr ⟨rfl, timed⟩
  · rintro (⟨rfl, timed⟩ | ⟨rfl, timed⟩)
    · exact ⟨⟨0, Nat.two_pos⟩, rfl, timed, rfl⟩
    · exact ⟨⟨1, Nat.one_lt_two⟩, rfl, timed, rfl⟩

theorem pairReader_fits {first second : Option UnixTimestamp} {block : Option BlockWithBinary} (slot : Nat)
    (time : UnixTimestamp) (live : (pairReader first second block).blocks.LiveAt slot time) :
    slot ≤ maxSlot := by
  obtain ⟨rfl, -⟩ | ⟨rfl, -⟩ := pairReader_live.mp live <;> decide

theorem pairReader_rises (block : Option BlockWithBinary) :
    (pairReader (some 5) (some 7) block).blocks.TimesCovered := by
  apply StoredBlocksRead.timesCovered_of_monotone
  intro low lowTime high highTime isLow isHigh less
  simp only [pairReader_live, Option.some.injEq] at isLow isHigh
  obtain ⟨rfl, rfl⟩ | ⟨rfl, rfl⟩ := isLow <;> obtain ⟨rfl, rfl⟩ | ⟨rfl, rfl⟩ := isHigh
  all_goals first | decide | omega

/-- The block of slot 12 has one transaction of an address. -/
def timedBlock : BlockWithBinary := ⟨"", 11, some 8, some 10, [], [], [],
  [(⟨0⟩, ⟨SfaKey.concat 0 12, 0, [⟨⟨1⟩, none, none, 3, false, false⟩]⟩)]⟩

theorem pairReader_untimed (slot : Nat) (time : UnixTimestamp) :
    ¬ (pairReader none none (some timedBlock)).blocks.LiveAt slot time := by
  rw [pairReader_live]
  rintro (⟨-, timed⟩ | ⟨-, timed⟩) <;> cases timed

/-- Where the times rise and the slot in process is dead, the bounds hide nothing, and neither do they
where a block is in process and no stored block has a time. -/
theorem run_boundsHold_iff_rising :
    ((pairReader (some 5) (some 7) none).blocks.BoundsHold ∧
      (pairReader (some 5) (some 7) none).ScanKeeps) ∧
    (pairReader none none (some timedBlock)).blocks.BoundsHold ∧
      (pairReader none none (some timedBlock)).ScanKeeps := by
  constructor
  · refine (run_boundsHold_iff (pairReader (some 5) (some 7) none)
      (pairReader_informed (by decide +kernel)) pairReader_fits).mpr ⟨pairReader_rises none, ?_⟩
    rintro slot block blockTime ⟨⟩
  · refine (run_boundsHold_iff (pairReader none none (some timedBlock))
      (pairReader_informed (by decide +kernel)) pairReader_fits).mpr ⟨?_, ?_⟩
    · intro low lowTime high highTime isLow
      exact absurd isLow (pairReader_untimed low lowTime)
    · intro slot block blockTime running known shown reached place time live
      exact absurd live (pairReader_untimed place time)

/-- The lower bound of the time 5 is slot 11 and hides slot 10 with its time 7. Where the times rise, the
upper bound of the time 9 is slot 11, too, and takes the block in process with its time 8 out of a
read. -/
theorem boundsHold_false :
    (¬ ∀ reader, Informs reader → (∀ slot time, reader.blocks.LiveAt slot time → slot ≤ maxSlot) →
      reader.blocks.BoundsHold) ∧
    ¬ ∀ reader, Informs reader → (∀ slot time, reader.blocks.LiveAt slot time → slot ≤ maxSlot) →
      reader.blocks.TimesCovered → reader.ScanKeeps := by
  constructor
  · intro always
    have holds := always (pairReader (some 7) (some 5) none)
      (pairReader_informed (by decide +kernel)) pairReader_fits
    have live : (pairReader (some 7) (some 5) none).blocks.LiveAt 10 7 :=
      pairReader_live.mpr (Or.inl ⟨rfl, rfl⟩)
    have hidden := (holds 10 7 live 5).1 (by decide) 11 (by decide +kernel)
    omega
  · intro always
    have keeps := (always (pairReader (some 5) (some 7) (some timedBlock))
      (pairReader_informed (by decide +kernel)) pairReader_fits
      (pairReader_rises (some timedBlock))).inProcess
        ⟨.confirmed, ⟨0⟩, true, none, none, none, none, some 9, 5⟩ 12 timedBlock _ 8 rfl
        ⟨nofun, by rintro time ⟨⟩; decide⟩ rfl
    revert keeps
    decide +kernel

end Writer

end Alpamayo
