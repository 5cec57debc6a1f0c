import Alpamayo.Source.StreamSource

/-!
This file proves that the assembly of a block does not depend on the order of its updates.
-/

namespace Alpamayo

variable {RawTransaction RawReward : Type} {decoders : Decoders RawTransaction RawReward}

/-- The update brings a part of the block of this slot. -/
def SubscribeUpdate.Concerns (slot : Nat) : SubscribeUpdate RawTransaction RawReward → Bool
  | .transaction other (some _) => other = slot
  | .blockMeta close => close.slot = slot
  | _ => false

namespace SubscribeUpdate

/-- The transaction that the update brings to this slot. -/
def part (decoders : Decoders RawTransaction RawReward) (slot : Nat) :
    SubscribeUpdate RawTransaction RawReward → Option (Nat × BuiltTransaction)
  | .transaction other (some info) =>
      if other = slot then (decoders.createTxWithMeta info.raw).toOption.map
        (StreamSource.buildTransaction decoders slot info)
      else none
  | _ => none

/-- The block meta that the update brings to this slot. -/
def closing (slot : Nat) :
    SubscribeUpdate RawTransaction RawReward → Option (SubscribeUpdateBlockMeta RawReward)
  | .blockMeta close => if close.slot = slot then some close else none
  | _ => none

/-- The libraries decode the transaction of the update. -/
def Decodes (decoders : Decoders RawTransaction RawReward) :
    SubscribeUpdate RawTransaction RawReward → Prop
  | .transaction _ (some info) => ∃ tx, decoders.createTxWithMeta info.raw = .ok tx
  | _ => True

end SubscribeUpdate

namespace SlotInfo

/-- Two records have the same parts of a block. -/
structure SameParts (first second : SlotInfo RawReward) : Prop where
  transactions : first.transactions = second.transactions
  blockMeta : first.blockMeta = second.blockMeta
  sealed : first.sealed = second.sealed
  indexVote : first.indexVote = second.indexVote

theorem SameParts.refl (info : SlotInfo RawReward) : SameParts info info := ⟨rfl, rfl, rfl, rfl⟩

/-- A sealed record builds no second block. -/
theorem tryBuildBlock_sealed {info : SlotInfo RawReward} (closed : info.sealed = true) :
    info.tryBuildBlock decoders = (none, info) := by
  cases info
  simp_all [tryBuildBlock]

/-- The parts do not make a block yet. -/
def Incomplete (transactions : List (Nat × BuiltTransaction))
    (blockMeta : Option (SubscribeUpdateBlockMeta RawReward)) : Prop :=
  ∀ close ∈ blockMeta, close.executedTransactionCount ≠ transactions.length

/-- An incomplete record is not built. -/
theorem tryBuildBlock_incomplete {info : SlotInfo RawReward}
    (incomplete : Incomplete info.transactions info.blockMeta) :
    info.tryBuildBlock decoders = (none, info) := by
  unfold tryBuildBlock
  split
  case h_1 close unsealed found => rw [if_pos (incomplete close found)]
  case h_2 => rfl

/-- A complete record is built once and sealed. -/
theorem tryBuildBlock_complete (info : SlotInfo RawReward) (unsealed : info.sealed = false)
    {close : SubscribeUpdateBlockMeta RawReward} (found : info.blockMeta = some close)
    (counted : close.executedTransactionCount = info.transactions.length)
    {rewards : List Reward} {numPartitions : Option Nat}
    (decoded : decodeRewards decoders close.rewards = .ok (rewards, numPartitions)) :
    info.tryBuildBlock decoders =
      (some (.ok (buildBlock close info.transactions rewards numPartitions info.indexVote)),
        { info with sealed := true, blockMeta := none, transactions := [] }) := by
  simp [tryBuildBlock, unsealed, found, counted, decoded]

end SlotInfo

namespace StreamSource

variable {source : StreamSource RawReward} {slot other : Nat} {info : SlotInfo RawReward}
  {update : SubscribeUpdate RawTransaction RawReward}

/-- The status drops the record of this slot. -/
def FinalizesAbove (source : StreamSource RawReward) (slot : Nat) :
    SubscribeUpdate RawTransaction RawReward → Prop
  | .slot high _ (.ok .finalized) => slot < high ∧ ∃ firstProcessed,
      source.firstProcessed = some firstProcessed ∧ firstProcessed < high
  | _ => False

/-- Only the record that is set changes. -/
theorem slotInfo_setInfo : (source.setInfo other info).slotInfo slot =
    if slot = other then info else source.slotInfo slot := by
  unfold slotInfo setInfo
  simp only [SortedMap.get_insert]
  split <;> rfl

/-- The records from the finalized slot on are kept. -/
theorem slotInfo_popWhile {high : Nat} (kept : high ≤ slot) :
    ({ source with slots := source.slots.popWhile fun entry => entry.1 < high } :
      StreamSource RawReward).slotInfo slot = source.slotInfo slot := by
  have kept : (source.slots.popWhile fun entry => entry.1 < high).get slot = source.slots.get slot := by
    cases found : source.slots.get slot with
    | none => exact SortedMap.get_popWhile_eq_none found
    | some info =>
        refine SortedMap.get_popWhile_of_not_popped found fun removed => ?_
        have below := SortedMap.test_of_mem_popped removed
        simp only [decide_eq_true_eq] at below
        omega
  simp only [slotInfo, kept]

/-- The first processed slot and the votes setting do not change with the records. -/
@[simp] theorem firstProcessed_setInfo : (source.setInfo slot info).firstProcessed =
    source.firstProcessed := rfl

@[simp] theorem indexVote_setInfo : (source.setInfo slot info).indexVote = source.indexVote := rfl

/-- The item is a block of this slot. -/
def IsBlock (slot : Nat) (item : Option Item) : Prop :=
  ∃ block, item = some (.ok (.block slot block))

/-- An accepted status drops the lower records or changes one record beside its parts. -/
theorem acceptStatus_cases (source : StreamSource RawReward) (firstProcessed high : Nat)
    (parent : Option Nat) (status : SlotStatusProto) :
    (status = .finalized ∧ (source.acceptStatus firstProcessed high parent status).2 =
      { source with slots := source.slots.popWhile fun entry => entry.1 < high }) ∨
    ∃ info, info.SameParts (source.slotInfo high) ∧
      (source.acceptStatus firstProcessed high parent status).2 = source.setInfo high info := by
  unfold acceptStatus
  split
  case isTrue finalized => exact Or.inl ⟨finalized, rfl⟩
  case isFalse =>
    right
    dsimp only
    split
    · split
      · refine ⟨_, ?_, rfl⟩
        exact ⟨rfl, rfl, rfl, rfl⟩
      · split <;> exact ⟨_, SlotInfo.SameParts.refl _, rfl⟩
    · split
      · refine ⟨_, ?_, rfl⟩
        exact ⟨rfl, rfl, rfl, rfl⟩
      · refine ⟨_, ?_, rfl⟩
        exact ⟨rfl, rfl, rfl, rfl⟩
      · exact ⟨_, SlotInfo.SameParts.refl _, rfl⟩
      · exact ⟨_, SlotInfo.SameParts.refl _, rfl⟩

/-- A status is no block. -/
theorem not_isBlock_acceptStatus (source : StreamSource RawReward) (firstProcessed high : Nat)
    (parent : Option Nat) (status : SlotStatusProto) :
    ¬ IsBlock slot (source.acceptStatus firstProcessed high parent status).1 := by
  rintro ⟨block, found⟩
  unfold acceptStatus at found
  split at found
  · cases parent <;> simp at found
  · dsimp only at found
    split at found
    · split at found
      · simp at found
      · split at found <;> simp at found
    · split at found <;> simp at found

/-- The round leaves the parts of this slot and emits no block for it. -/
structure Undisturbed (slot : Nat) (source : StreamSource RawReward)
    (result : Option Item × StreamSource RawReward) : Prop where
  parts : (result.2.slotInfo slot).SameParts (source.slotInfo slot)
  indexVote : result.2.indexVote = source.indexVote
  noBlock : ¬ IsBlock slot result.1

/-- A round without an effect on the records leaves every slot. -/
theorem undisturbed_of_same {item : Option Item} {after : StreamSource RawReward}
    (noBlock : ¬ IsBlock slot item) (slots : after.slots = source.slots)
    (indexVote : after.indexVote = source.indexVote) : Undisturbed slot source (item, after) where
  parts := by
    have same : after.slotInfo slot = source.slotInfo slot := by
      simp only [slotInfo, slots, indexVote]
    rw [same]
    exact SlotInfo.SameParts.refl _
  indexVote := indexVote
  noBlock := noBlock

/-- A missing item is no block. -/
@[simp] theorem not_isBlock_none : ¬ IsBlock slot none := by
  rintro ⟨block, found⟩
  cases found

/-- An error is no block. -/
@[simp] theorem not_isBlock_error (reason : RecvError) : ¬ IsBlock slot (some (.error reason)) := by
  rintro ⟨block, found⟩
  cases found

/-- An accepted status leaves the parts of every record that it does not drop. -/
theorem undisturbed_acceptStatus {firstProcessed high : Nat} {parent : Option Nat}
    {status : SlotStatusProto} (kept : status = .finalized → high ≤ slot) :
    Undisturbed slot source (source.acceptStatus firstProcessed high parent status) where
  parts := by
    rcases acceptStatus_cases source firstProcessed high parent status with
      ⟨finalized, after⟩ | ⟨info, same, after⟩
    · rw [after, slotInfo_popWhile (kept finalized)]
      exact SlotInfo.SameParts.refl _
    · rw [after, slotInfo_setInfo]
      split
      case isTrue here =>
        subst here
        exact same
      case isFalse => exact SlotInfo.SameParts.refl _
  indexVote := by
    rcases acceptStatus_cases source firstProcessed high parent status with
      ⟨finalized, after⟩ | ⟨info, same, after⟩ <;> rw [after]
    rfl
  noBlock := not_isBlock_acceptStatus source firstProcessed high parent status

/-- A status leaves the parts of every record that it does not drop. -/
theorem undisturbed_slotUpdate {high : Nat} {parent : Option Nat} {status : SlotStatusProto}
    (kept : status = .finalized → ∀ firstProcessed, source.firstProcessed = some firstProcessed →
      firstProcessed < high → high ≤ slot) :
    Undisturbed slot source (source.slotUpdate high parent status) := by
  unfold slotUpdate
  set next := if status = .createdBank ∧ source.firstProcessed = none then
    { source with firstProcessed := some high } else source with created
  have slots : next.slots = source.slots := by
    rw [created]
    split <;> rfl
  have indexVote : next.indexVote = source.indexVote := by
    rw [created]
    split <;> rfl
  dsimp only
  split
  case h_1 => exact undisturbed_of_same not_isBlock_none slots indexVote
  case h_2 firstProcessed found =>
    split
    case isTrue => exact undisturbed_of_same not_isBlock_none slots indexVote
    case isFalse above =>
      have known : status = .finalized → high ≤ slot := by
        rintro rfl
        rw [created, if_neg (by simp)] at found
        exact kept rfl firstProcessed found (Nat.not_le.mp above)
      have accepted : Undisturbed slot next (next.acceptStatus firstProcessed high parent status) :=
        undisturbed_acceptStatus known
      have same : next.slotInfo slot = source.slotInfo slot := by
        simp only [slotInfo, slots, indexVote]
      exact ⟨same ▸ accepted.parts, accepted.indexVote.trans indexVote, accepted.noBlock⟩

/-- The build of another slot leaves this one. -/
theorem undisturbed_build (different : slot ≠ other) :
    Undisturbed slot source (source.build decoders other info) := by
  have frame (next : SlotInfo RawReward) :
      ((source.setInfo other next).slotInfo slot).SameParts (source.slotInfo slot) := by
    rw [slotInfo_setInfo, if_neg different]
    exact SlotInfo.SameParts.refl _
  unfold build
  split
  case isTrue => exact ⟨frame info, rfl, not_isBlock_none⟩
  case isFalse =>
    refine ⟨frame _, rfl, ?_⟩
    rintro ⟨block, found⟩
    cases built : (info.tryBuildBlock decoders).1 with
    | none => simp [built] at found
    | some outcome =>
        cases outcome with
        | error reason => simp [built, Except.map] at found
        | ok value =>
            simp only [built, Option.map_some, Except.map, Option.some.injEq, Except.ok.injEq,
              StreamSourceMessage.block.injEq] at found
            exact different found.1.symm

/-- An update of other slots leaves this one, unless it finalizes a later slot. -/
theorem undisturbed_update (apart : update.Concerns slot = false)
    (kept : ¬ source.FinalizesAbove slot update) :
    Undisturbed slot source (source.update decoders update) := by
  cases update with
  | slot high parent status =>
      cases status with
      | error number => exact undisturbed_of_same (not_isBlock_error _) rfl rfl
      | ok status =>
          have known : status = .finalized → ∀ firstProcessed,
              source.firstProcessed = some firstProcessed → firstProcessed < high → high ≤ slot := by
            rintro rfl firstProcessed found below
            by_contra above
            exact kept ⟨Nat.not_le.mp above, firstProcessed, found, below⟩
          cases status with
          | processed | firstShredReceived | completed =>
              exact undisturbed_of_same not_isBlock_none rfl rfl
          | _ => exact undisturbed_slotUpdate known
  | transaction place transaction =>
      cases transaction with
      | none => exact undisturbed_of_same (not_isBlock_error _) rfl rfl
      | some info =>
          have different : slot ≠ place := by
            rintro rfl
            simp [SubscribeUpdate.Concerns] at apart
          simp only [StreamSource.update, transactionUpdate]
          split
          · refine ⟨?_, rfl, not_isBlock_error _⟩
            rw [slotInfo_setInfo, if_neg different]
            exact SlotInfo.SameParts.refl _
          · exact undisturbed_build different
  | blockMeta close =>
      refine undisturbed_build fun same => ?_
      simp [SubscribeUpdate.Concerns, ← same] at apart
  | ping => exact undisturbed_of_same not_isBlock_none rfl rfl
  | unexpected kind => exact undisturbed_of_same (not_isBlock_error _) rfl rfl
  | missing => exact undisturbed_of_same (not_isBlock_error _) rfl rfl
  | failed reason => exact undisturbed_of_same (not_isBlock_error _) rfl rfl

/-- The record joined with the part that an update brings. -/
def joined (decoders : Decoders RawTransaction RawReward) (source : StreamSource RawReward)
    (slot : Nat) (update : SubscribeUpdate RawTransaction RawReward) : SlotInfo RawReward :=
  { source.slotInfo slot with
    transactions := (source.slotInfo slot).transactions ++ (update.part decoders slot).toList
    blockMeta := (update.closing slot).or (source.slotInfo slot).blockMeta }

/-- An update of this slot joins its part to the record and tries to build. -/
theorem update_concerned (concerns : update.Concerns slot = true)
    (decodes : update.Decodes decoders) :
    source.update decoders update = source.build decoders slot (source.joined decoders slot update) := by
  cases update with
  | transaction place transaction =>
      cases transaction with
      | none => simp [SubscribeUpdate.Concerns] at concerns
      | some info =>
          have same : place = slot := by simpa [SubscribeUpdate.Concerns] using concerns
          subst same
          obtain ⟨tx, created⟩ := decodes
          simp [StreamSource.update, transactionUpdate, created, joined, SubscribeUpdate.part,
            SubscribeUpdate.closing, Except.toOption]
  | blockMeta close =>
      have same : close.slot = slot := by simpa [SubscribeUpdate.Concerns] using concerns
      subst same
      simp [StreamSource.update, joined, SubscribeUpdate.part, SubscribeUpdate.closing]
  | _ => simp [SubscribeUpdate.Concerns] at concerns

/-- An update of other slots brings no part. -/
theorem part_of_apart (decoders : Decoders RawTransaction RawReward)
    (apart : update.Concerns slot = false) :
    update.part decoders slot = none ∧ update.closing slot = none := by
  cases update with
  | transaction place transaction =>
      cases transaction with
      | none => simp [SubscribeUpdate.part, SubscribeUpdate.closing]
      | some info =>
          have different : place ≠ slot := by simpa [SubscribeUpdate.Concerns] using apart
          simp [SubscribeUpdate.part, SubscribeUpdate.closing, different]
  | blockMeta close =>
      have different : close.slot ≠ slot := by simpa [SubscribeUpdate.Concerns] using apart
      simp [SubscribeUpdate.part, SubscribeUpdate.closing, different]
  | _ => simp [SubscribeUpdate.part, SubscribeUpdate.closing]

/-- An update of this slot without a block meta brings a transaction. -/
theorem part_of_concerned (concerns : update.Concerns slot = true)
    (decodes : update.Decodes decoders) (noClosing : update.closing slot = none) :
    (update.part decoders slot).isSome := by
  cases update with
  | transaction place transaction =>
      cases transaction with
      | none => simp [SubscribeUpdate.Concerns] at concerns
      | some info =>
          have same : place = slot := by simpa [SubscribeUpdate.Concerns] using concerns
          obtain ⟨tx, created⟩ := decodes
          simp [SubscribeUpdate.part, same, created, Except.toOption]
  | blockMeta close =>
      have same : close.slot = slot := by simpa [SubscribeUpdate.Concerns] using concerns
      simp [SubscribeUpdate.closing, same] at noClosing
  | _ => simp [SubscribeUpdate.Concerns] at concerns

/-- The record of the slot is open and holds these parts. -/
structure Collecting (source : StreamSource RawReward) (slot : Nat)
    (transactions : List (Nat × BuiltTransaction))
    (blockMeta : Option (SubscribeUpdateBlockMeta RawReward)) : Prop where
  transactions : (source.slotInfo slot).transactions = transactions
  blockMeta : (source.slotInfo slot).blockMeta = blockMeta
  unsealed : (source.slotInfo slot).sealed = false
  indexVote : (source.slotInfo slot).indexVote = source.indexVote

/-- The first processed slot has not reached this slot. -/
def Below (source : StreamSource RawReward) (slot : Nat) : Prop :=
  ∀ firstProcessed ∈ source.firstProcessed, firstProcessed < slot

variable {transactions : List (Nat × BuiltTransaction)}
  {blockMeta : Option (SubscribeUpdateBlockMeta RawReward)}

/-- A record above the first processed slot is built. -/
theorem build_below (below : source.Below slot) : source.build decoders slot info =
    ((info.tryBuildBlock decoders).1.map fun block => block.map fun block => .block slot block,
      source.setInfo slot (info.tryBuildBlock decoders).2) := by
  unfold build
  rw [if_neg]
  cases found : source.firstProcessed with
  | none => simp
  | some firstProcessed =>
      have above : firstProcessed < slot := below firstProcessed found
      simp only [Option.any_some, decide_eq_true_eq]
      omega

/-- A part that does not complete the block is only collected. -/
theorem Collecting.collect (known : source.Collecting slot transactions blockMeta)
    (below : source.Below slot) (kept : ¬ source.FinalizesAbove slot update)
    (decodes : update.Concerns slot = true → update.Decodes decoders)
    (incomplete : SlotInfo.Incomplete (transactions ++ (update.part decoders slot).toList)
      ((update.closing slot).or blockMeta)) :
    (source.update decoders update).2.Collecting slot
        (transactions ++ (update.part decoders slot).toList) ((update.closing slot).or blockMeta) ∧
      ¬ IsBlock slot (source.update decoders update).1 := by
  cases concerns : update.Concerns slot with
  | false =>
      have frame : Undisturbed slot source (source.update decoders update) :=
        undisturbed_update concerns kept
      have noPart : update.part decoders slot = none := (part_of_apart decoders concerns).1
      have noClosing : update.closing slot = none := (part_of_apart decoders concerns).2
      rw [noPart, noClosing]
      refine ⟨⟨?_, ?_, ?_, ?_⟩, frame.noBlock⟩
      · simpa using frame.parts.transactions.trans known.transactions
      · simpa using frame.parts.blockMeta.trans known.blockMeta
      · exact frame.parts.sealed.trans known.unsealed
      · rw [frame.parts.indexVote, known.indexVote, frame.indexVote]
  | true =>
      have unbuilt : (source.joined decoders slot update).tryBuildBlock decoders =
          (none, source.joined decoders slot update) := by
        refine SlotInfo.tryBuildBlock_incomplete ?_
        simpa only [joined, known.transactions, known.blockMeta] using incomplete
      rw [update_concerned concerns (decodes concerns), build_below below, unbuilt]
      refine ⟨⟨?_, ?_, ?_, ?_⟩, not_isBlock_none⟩ <;>
        simp only [slotInfo_setInfo, if_pos, joined, indexVote_setInfo]
      · rw [known.transactions]
      · rw [known.blockMeta]
      · exact known.unsealed
      · exact known.indexVote

/-- The part that completes the block builds and seals it. -/
theorem Collecting.complete (known : source.Collecting slot transactions blockMeta)
    (below : source.Below slot) (concerns : update.Concerns slot = true)
    (decodes : update.Decodes decoders) {close : SubscribeUpdateBlockMeta RawReward}
    (closes : (update.closing slot).or blockMeta = some close)
    (counted : close.executedTransactionCount =
      (transactions ++ (update.part decoders slot).toList).length)
    {rewards : List Reward} {numPartitions : Option Nat}
    (decoded : SlotInfo.decodeRewards decoders close.rewards = .ok (rewards, numPartitions)) :
    (source.update decoders update).1 = some (.ok (.block slot (SlotInfo.buildBlock close
        (transactions ++ (update.part decoders slot).toList) rewards numPartitions
        source.indexVote))) ∧
      ((source.update decoders update).2.slotInfo slot).sealed = true := by
  have built := SlotInfo.tryBuildBlock_complete (source.joined decoders slot update) known.unsealed
    (by rw [joined, known.blockMeta, closes])
    (by rw [joined, known.transactions, counted]) decoded
  rw [update_concerned concerns decodes, build_below below, built]
  refine ⟨?_, ?_⟩
  · simp only [Option.map_some, Except.map, joined, known.transactions, known.indexVote]
  · simp only [slotInfo_setInfo, if_pos]

/-- A sealed record builds nothing and stays sealed. -/
theorem build_sealed (closed : info.sealed = true) :
    ((source.build decoders slot info).2.slotInfo slot).sealed = true ∧
      ¬ IsBlock slot (source.build decoders slot info).1 := by
  unfold build
  rw [SlotInfo.tryBuildBlock_sealed closed]
  split <;> exact ⟨by simpa [slotInfo_setInfo] using closed, not_isBlock_none⟩

/-- The updates of a sealed slot emit no second block until a later slot is finalized. -/
theorem sealed_update (decoders : Decoders RawTransaction RawReward)
    (closed : (source.slotInfo slot).sealed = true)
    (kept : ¬ source.FinalizesAbove slot update) :
    ((source.update decoders update).2.slotInfo slot).sealed = true ∧
      ¬ IsBlock slot (source.update decoders update).1 := by
  cases concerns : update.Concerns slot with
  | false =>
      have frame : Undisturbed slot source (source.update decoders update) :=
        undisturbed_update concerns kept
      exact ⟨frame.parts.sealed.trans closed, frame.noBlock⟩
  | true =>
      cases update with
      | transaction place transaction =>
          cases transaction with
          | none => simp [SubscribeUpdate.Concerns] at concerns
          | some info =>
              have same : place = slot := by simpa [SubscribeUpdate.Concerns] using concerns
              subst same
              simp only [StreamSource.update, transactionUpdate]
              split
              · exact ⟨by simpa [slotInfo_setInfo] using closed, not_isBlock_error _⟩
              · exact build_sealed closed
      | blockMeta close =>
          have same : close.slot = slot := by simpa [SubscribeUpdate.Concerns] using concerns
          subst same
          exact build_sealed closed
      | _ => simp [SubscribeUpdate.Concerns] at concerns

/-- The votes setting is fixed, and the first processed slot is stored once. -/
structure Settled (source after : StreamSource RawReward) : Prop where
  indexVote : after.indexVote = source.indexVote
  firstProcessed : ∀ firstProcessed ∈ source.firstProcessed, firstProcessed ∈ after.firstProcessed

theorem Settled.refl (source : StreamSource RawReward) : Settled source source :=
  ⟨rfl, fun _ found => found⟩

/-- A build settles nothing else. -/
theorem settled_build (source : StreamSource RawReward) (place : Nat) (info : SlotInfo RawReward) :
    Settled source (source.build decoders place info).2 := by
  unfold build
  split <;> exact ⟨rfl, fun _ found => found⟩

/-- Only the first created bank settles the first processed slot. -/
theorem settled_slotUpdate (source : StreamSource RawReward) (high : Nat) (parent : Option Nat)
    (status : SlotStatusProto) : Settled source (source.slotUpdate high parent status).2 := by
  unfold slotUpdate
  set next := if status = .createdBank ∧ source.firstProcessed = none then
    { source with firstProcessed := some high } else source with created
  have settled : Settled source next := by
    rw [created]
    split
    case isTrue first => exact ⟨rfl, fun _ found => by simp [first.2] at found⟩
    case isFalse => exact Settled.refl source
  dsimp only
  split
  case h_1 => exact settled
  case h_2 firstProcessed found =>
    split
    · exact settled
    · rcases acceptStatus_cases next firstProcessed high parent status with
        ⟨-, after⟩ | ⟨info, -, after⟩ <;> rw [after] <;>
        exact ⟨settled.indexVote, settled.firstProcessed⟩

/-- A round settles at most the first processed slot. -/
theorem settled_update (decoders : Decoders RawTransaction RawReward)
    (source : StreamSource RawReward) (update : SubscribeUpdate RawTransaction RawReward) :
    Settled source (source.update decoders update).2 := by
  cases update with
  | slot high parent status =>
      cases status with
      | error number => exact Settled.refl source
      | ok status =>
          cases status with
          | processed | firstShredReceived | completed => exact Settled.refl source
          | _ => exact settled_slotUpdate source high parent _
  | transaction place transaction =>
      cases transaction with
      | none => exact Settled.refl source
      | some info =>
          simp only [StreamSource.update, transactionUpdate]
          split
          · exact ⟨rfl, fun _ found => found⟩
          · exact settled_build source place _
  | blockMeta close => exact settled_build source close.slot _
  | _ => exact Settled.refl source

/-- No update of the run drops the record of this slot. -/
def KeepsRecord (decoders : Decoders RawTransaction RawReward) (slot : Nat) :
    StreamSource RawReward → List (SubscribeUpdate RawTransaction RawReward) → Prop
  | _, [] => True
  | source, update :: rest => ¬ source.FinalizesAbove slot update ∧
      KeepsRecord decoders slot (source.update decoders update).2 rest

variable {updates : List (SubscribeUpdate RawTransaction RawReward)}

/-- A run settles at most the first processed slot. -/
theorem settled_run (decoders : Decoders RawTransaction RawReward) (source : StreamSource RawReward)
    (updates : List (SubscribeUpdate RawTransaction RawReward)) :
    Settled source (source.run decoders updates).2 := by
  induction updates generalizing source with
  | nil => exact Settled.refl source
  | cons update rest ih =>
      have first := settled_update decoders source update
      have later := ih (source.update decoders update).2
      exact ⟨later.indexVote.trans first.indexVote,
        fun firstProcessed found => later.firstProcessed _ (first.firstProcessed _ found)⟩

/-- The first processed slot stays below a slot if it is below it after the run. -/
theorem below_of_run (below : (source.run decoders updates).2.Below slot) : source.Below slot :=
  fun firstProcessed found =>
    below firstProcessed ((settled_run decoders source updates).firstProcessed _ found)

/-- The updates of two runs in a row are one run. -/
theorem run_append (first second : List (SubscribeUpdate RawTransaction RawReward)) :
    source.run decoders (first ++ second) =
      ((source.run decoders first).1 ++ ((source.run decoders first).2.run decoders second).1,
        ((source.run decoders first).2.run decoders second).2) := by
  induction first generalizing source with
  | nil => rfl
  | cons update rest ih => simp only [List.cons_append, run, ih]

/-- A run emits no block for a sealed slot. -/
theorem sealed_run (closed : (source.slotInfo slot).sealed = true)
    (kept : KeepsRecord decoders slot source updates) :
    ∀ item ∈ (source.run decoders updates).1, ¬ IsBlock slot item := by
  induction updates generalizing source with
  | nil => simp [run]
  | cons update rest ih =>
      obtain ⟨keeps, later⟩ := kept
      obtain ⟨stillClosed, noBlock⟩ := sealed_update decoders closed keeps
      intro item member
      rcases List.mem_cons.mp member with rfl | member
      · exact noBlock
      · exact ih stillClosed later item member

/-- The block meta that a run brings to this slot. -/
def closingOf (slot : Nat) (updates : List (SubscribeUpdate RawTransaction RawReward))
    (blockMeta : Option (SubscribeUpdateBlockMeta RawReward)) :
    Option (SubscribeUpdateBlockMeta RawReward) :=
  updates.foldl (fun found update => (update.closing slot).or found) blockMeta

/-- A run that does not complete the block collects its parts and emits no block. -/
theorem Collecting.run (known : source.Collecting slot transactions blockMeta)
    (below : (source.run decoders updates).2.Below slot)
    (kept : KeepsRecord decoders slot source updates)
    (decodes : ∀ update ∈ updates, update.Concerns slot = true → update.Decodes decoders)
    (incomplete : ∀ part, part <+: updates → SlotInfo.Incomplete
      (transactions ++ part.filterMap (SubscribeUpdate.part decoders slot))
      (closingOf slot part blockMeta)) :
    (source.run decoders updates).2.Collecting slot
        (transactions ++ updates.filterMap (SubscribeUpdate.part decoders slot))
        (closingOf slot updates blockMeta) ∧
      ∀ item ∈ (source.run decoders updates).1, ¬ IsBlock slot item := by
  induction updates generalizing source transactions blockMeta with
  | nil => simpa [closingOf, StreamSource.run] using known
  | cons update rest ih =>
      obtain ⟨keeps, later⟩ := kept
      have joins (part : List (SubscribeUpdate RawTransaction RawReward)) :
          transactions ++ (update :: part).filterMap (SubscribeUpdate.part decoders slot) =
            transactions ++ (update.part decoders slot).toList ++
              part.filterMap (SubscribeUpdate.part decoders slot) := by
        cases found : update.part decoders slot <;> simp [found]
      obtain ⟨collecting, noBlock⟩ := known.collect (below_of_run below) keeps
        (decodes update List.mem_cons_self)
        (by simpa [joins, closingOf] using incomplete [update] (by simp))
      obtain ⟨collected, noBlocks⟩ := ih collecting below later
        (fun other member => decodes other (List.mem_cons_of_mem _ member))
        (fun part leads => by
          rw [← joins]
          exact incomplete (update :: part) (List.prefix_cons_inj update |>.mpr leads))
      refine ⟨?_, ?_⟩
      · rw [joins]
        exact collected
      · intro item member
        rcases List.mem_cons.mp member with rfl | member
        · exact noBlock
        · exact noBlocks item member

/-- The sorted list depends only on the transactions, as their indexes are distinct. -/
theorem sortTransactions_perm {first second : List (Nat × BuiltTransaction)}
    (same : first.Perm second) (distinct : (first.map Prod.fst).Nodup) :
    SlotInfo.sortTransactions first = SlotInfo.sortTransactions second := by
  have sorted (list : List (Nat × BuiltTransaction)) :
      (list.mergeSort fun first second => first.1 ≤ second.1).Pairwise
        fun first second => decide (first.1 ≤ second.1) = true := by
    apply List.pairwise_mergeSort
    · intro low middle high
      simpa using Nat.le_trans
    · intro low high
      simpa using Nat.le_total low.1 high.1
  have unsorted (list : List (Nat × BuiltTransaction)) :
      (list.mergeSort fun first second => first.1 ≤ second.1).Perm list := List.mergeSort_perm _ _
  unfold SlotInfo.sortTransactions
  rw [List.Perm.eq_of_pairwise ?_ (sorted first) (sorted second)
    ((unsorted first).trans (same.trans (unsorted second).symm))]
  intro low high lowMember highMember below above
  have lowMember := (unsorted first).mem_iff.mp lowMember
  have highMember := same.mem_iff.mpr ((unsorted second).mem_iff.mp highMember)
  simp only [decide_eq_true_eq] at below above
  exact List.inj_on_of_nodup_map distinct lowMember highMember (Nat.le_antisymm below above)

/-- The last block meta of the run is kept. -/
theorem closingOf_eq : closingOf slot updates blockMeta =
    (updates.filterMap (SubscribeUpdate.closing slot)).getLast?.or blockMeta := by
  induction updates generalizing blockMeta with
  | nil => rfl
  | cons update rest ih =>
      have unfolded : closingOf slot (update :: rest) blockMeta =
          closingOf slot rest ((update.closing slot).or blockMeta) := rfl
      rw [unfolded, ih]
      cases found : update.closing slot with
      | none => simp [found]
      | some close =>
          simp only [found, List.filterMap_cons, List.getLast?_cons, Option.or_some, Option.some_or]

/-- The updates of other slots bring no parts. -/
theorem filterMap_concerns {B : Type}
    {select : SubscribeUpdate RawTransaction RawReward → Option B}
    (selects : ∀ update : SubscribeUpdate RawTransaction RawReward, update.Concerns slot = false →
      select update = none) :
    updates.filterMap select = (updates.filter (SubscribeUpdate.Concerns slot)).filterMap select := by
  rw [List.filterMap_filter]
  congr 1
  funext update
  cases concerns : update.Concerns slot with
  | false => simpa using selects update concerns
  | true => simp

/-- The transactions of a block as they are built. -/
def built (decoders : Decoders RawTransaction RawReward) (slot : Nat)
    (infos : List (SubscribeUpdateTransactionInfo RawTransaction)) : List (Nat × BuiltTransaction) :=
  infos.filterMap fun info => (decoders.createTxWithMeta info.raw).toOption.map
    (buildTransaction decoders slot info)

variable {infos : List (SubscribeUpdateTransactionInfo RawTransaction)}
  {close : SubscribeUpdateBlockMeta RawReward}

/-- Each decoded transaction is built with its own index. -/
theorem map_fst_built (slot : Nat)
    (decodes : ∀ info ∈ infos, ∃ tx, decoders.createTxWithMeta info.raw = .ok tx) :
    (built decoders slot infos).map Prod.fst = infos.map fun info => info.index := by
  induction infos with
  | nil => rfl
  | cons info rest ih =>
      obtain ⟨tx, created⟩ := decodes info List.mem_cons_self
      have tail := ih fun other member => decodes other (List.mem_cons_of_mem _ member)
      simp only [built] at tail
      simp [built, created, Except.toOption, buildTransaction, ← tail]

/-- These updates bring the whole block. -/
def blockUpdates (infos : List (SubscribeUpdateTransactionInfo RawTransaction))
    (close : SubscribeUpdateBlockMeta RawReward) : List (SubscribeUpdate RawTransaction RawReward) :=
  infos.map (fun info => .transaction close.slot (some info)) ++ [.blockMeta close]

/-- The updates bring the transactions of the block. -/
theorem parts_blockUpdates :
    (blockUpdates infos close).filterMap (SubscribeUpdate.part decoders close.slot) =
      built decoders close.slot infos := by
  simp [blockUpdates, built, List.filterMap_append, List.filterMap_map, Function.comp_def,
    SubscribeUpdate.part]

/-- The updates bring one block meta. -/
theorem closings_blockUpdates :
    (blockUpdates infos close).filterMap (SubscribeUpdate.closing close.slot) = [close] := by
  simp [blockUpdates, List.filterMap_append, List.filterMap_map, Function.comp_def,
    SubscribeUpdate.closing]

/-- The updates arrive in any order, between any other updates; `last` is the last of them. -/
structure Arrives (decoders : Decoders RawTransaction RawReward)
    (infos : List (SubscribeUpdateTransactionInfo RawTransaction))
    (close : SubscribeUpdateBlockMeta RawReward)
    (before : List (SubscribeUpdate RawTransaction RawReward))
    (last : SubscribeUpdate RawTransaction RawReward) : Prop where
  counted : close.executedTransactionCount = infos.length
  distinct : (infos.map fun info => info.index).Nodup
  decodes : ∀ info ∈ infos, ∃ tx, decoders.createTxWithMeta info.raw = .ok tx
  permuted : ((before ++ [last]).filter (SubscribeUpdate.Concerns close.slot)).Perm
    (blockUpdates infos close)
  concerns : last.Concerns close.slot = true

variable {before : List (SubscribeUpdate RawTransaction RawReward)}
  {last : SubscribeUpdate RawTransaction RawReward}

/-- The parts that arrive are the transactions of the block. -/
theorem Arrives.parts (arrives : Arrives decoders infos close before last) :
    ((before ++ [last]).filterMap (SubscribeUpdate.part decoders close.slot)).Perm
      (built decoders close.slot infos) := by
  rw [filterMap_concerns (fun update apart => (part_of_apart decoders apart).1),
    ← parts_blockUpdates]
  exact arrives.permuted.filterMap _

/-- One block meta arrives. -/
theorem Arrives.closings (arrives : Arrives decoders infos close before last) :
    (before ++ [last]).filterMap (SubscribeUpdate.closing close.slot) = [close] := by
  rw [filterMap_concerns (fun update apart => (part_of_apart decoders apart).2)]
  exact List.perm_singleton.mp ((arrives.permuted.filterMap _).trans
    (by rw [closings_blockUpdates]))

/-- The libraries decode what arrives for the slot. -/
theorem Arrives.decodes_of_mem (arrives : Arrives decoders infos close before last)
    (update : SubscribeUpdate RawTransaction RawReward) (member : update ∈ before ++ [last])
    (concerns : update.Concerns close.slot = true) : update.Decodes decoders := by
  have known : update ∈ blockUpdates infos close :=
    arrives.permuted.mem_iff.mp (List.mem_filter.mpr ⟨member, concerns⟩)
  rcases List.mem_append.mp known with transaction | closing
  · obtain ⟨info, found, rfl⟩ := List.mem_map.mp transaction
    exact arrives.decodes info found
  · rw [List.mem_singleton.mp closing]
    trivial

/-- There are as many parts as transactions. -/
theorem Arrives.parts_length (arrives : Arrives decoders infos close before last) :
    ((before ++ [last]).filterMap (SubscribeUpdate.part decoders close.slot)).length =
      infos.length := by
  have counted := congrArg List.length (map_fst_built close.slot arrives.decodes)
  rw [arrives.parts.length_eq]
  simpa using counted

/-- The updates before the last one do not complete the block. -/
theorem Arrives.incomplete (arrives : Arrives decoders infos close before last)
    {part : List (SubscribeUpdate RawTransaction RawReward)} (leads : part <+: before) :
    SlotInfo.Incomplete (part.filterMap (SubscribeUpdate.part decoders close.slot))
      (closingOf close.slot part none) := by
  intro found closing same
  rw [closingOf_eq, Option.or_none] at closing
  have early : found ∈ before.filterMap (SubscribeUpdate.closing close.slot) :=
    (leads.filterMap _).subset (List.mem_of_getLast? closing)
  have whole := arrives.closings
  rw [List.filterMap_append, List.append_eq_singleton_iff] at whole
  -- The block meta has arrived before, so the last update is a transaction.
  rcases whole with ⟨none, -⟩ | ⟨here, nothing⟩
  · simp [none] at early
  · rw [here, List.mem_singleton] at early
    subst early
    have brings : (last.part decoders found.slot).isSome := by
      refine part_of_concerned arrives.concerns
        (arrives.decodes_of_mem last (by simp) arrives.concerns) ?_
      cases known : last.closing found.slot with
      | none => rfl
      | some other => simp [known] at nothing
    obtain ⟨piece, known⟩ := Option.isSome_iff_exists.mp brings
    have counted := arrives.parts_length
    rw [List.filterMap_append, List.length_append] at counted
    simp only [List.filterMap_cons, known, List.filterMap_nil, List.length_singleton] at counted
    have shorter := (leads.filterMap (SubscribeUpdate.part decoders found.slot)).length_le
    have total := arrives.counted
    omega

/-- Every order of the updates emits one block at the last of them, always the same, and no second one
until a later slot is finalized. -/
theorem run_assembles (decoders : Decoders RawTransaction RawReward)
    (source : StreamSource RawReward)
    (infos : List (SubscribeUpdateTransactionInfo RawTransaction))
    (close : SubscribeUpdateBlockMeta RawReward)
    (before : List (SubscribeUpdate RawTransaction RawReward))
    (last : SubscribeUpdate RawTransaction RawReward)
    (later : List (SubscribeUpdate RawTransaction RawReward))
    (rewards : List Reward) (numPartitions : Option Nat)
    (fresh : source.slots.get close.slot = none)
    (arrives : Arrives decoders infos close before last)
    (decoded : SlotInfo.decodeRewards decoders close.rewards = .ok (rewards, numPartitions))
    (below : (source.run decoders (before ++ [last])).2.Below close.slot)
    (kept : KeepsRecord decoders close.slot source before)
    (keptLater : KeepsRecord decoders close.slot (source.run decoders (before ++ [last])).2 later) :
    (∀ item ∈ (source.run decoders before).1, ¬ IsBlock close.slot item) ∧
      ((source.run decoders before).2.update decoders last).1 =
        some (.ok (.block close.slot (SlotInfo.buildBlock close (built decoders close.slot infos)
          rewards numPartitions source.indexVote))) ∧
      ∀ item ∈ ((source.run decoders (before ++ [last])).2.run decoders later).1,
        ¬ IsBlock close.slot item := by
  have start : source.Collecting close.slot [] none := by
    refine ⟨?_, ?_, ?_, ?_⟩ <;> simp [slotInfo, fresh, SlotInfo.new]
  have wholeRun : (source.run decoders (before ++ [last])).2 =
      ((source.run decoders before).2.update decoders last).2 := by
    rw [run_append]
    rfl
  rw [wholeRun] at below keptLater ⊢
  have belowBefore : (source.run decoders before).2.Below close.slot :=
    fun firstProcessed found =>
      below firstProcessed ((settled_update decoders _ last).firstProcessed _ found)
  obtain ⟨collected, noBlocks⟩ := start.run belowBefore kept
    (fun update member => arrives.decodes_of_mem update (List.mem_append_left _ member))
    (fun part leads => by simpa using arrives.incomplete leads)
  have wholeParts : before.filterMap (SubscribeUpdate.part decoders close.slot) ++
      (last.part decoders close.slot).toList =
        (before ++ [last]).filterMap (SubscribeUpdate.part decoders close.slot) := by
    rw [List.filterMap_append]
    cases known : last.part decoders close.slot <;> simp [known]
  have wholeClosing : (last.closing close.slot).or (closingOf close.slot before none) = some close := by
    have same : closingOf close.slot (before ++ [last]) none = some close := by
      rw [closingOf_eq, arrives.closings]
      rfl
    simpa [closingOf, List.foldl_append] using same
  obtain ⟨emitted, closed⟩ := collected.complete belowBefore arrives.concerns
    (arrives.decodes_of_mem last (by simp) arrives.concerns) wholeClosing
    (by rw [List.nil_append, wholeParts, arrives.parts_length, arrives.counted]) decoded
  refine ⟨noBlocks, ?_, sealed_run closed keptLater⟩
  rw [emitted, List.nil_append, wholeParts, (settled_run decoders source before).indexVote]
  have distinct : (((before ++ [last]).filterMap (SubscribeUpdate.part decoders close.slot)).map
      Prod.fst).Nodup := by
    rw [(arrives.parts.map Prod.fst).nodup_iff, map_fst_built close.slot arrives.decodes]
    exact arrives.distinct
  simp only [SlotInfo.buildBlock, sortTransactions_perm arrives.parts distinct]

/-- These libraries decode a number as a transaction without metadata. -/
def plainDecoders : Decoders Nat Nat where
  keys := ⟨fun signature => BitVec.ofNat 64 signature.value,
    fun address => BitVec.ofNat 64 address.value⟩
  parsePubkey _ := none
  createTxWithMeta raw := .ok ⟨⟨raw⟩, [UInt8.ofNat raw], none⟩
  createReward raw := .ok ⟨"", raw, 0, none, none, none⟩

/-- The block meta of slot 5 has no rewards. -/
def plainMeta (count : Nat) : SubscribeUpdateBlockMeta Nat where
  slot := 5
  blockhash := "b"
  rewards := none
  blockTime := none
  blockHeight := some 1
  parentSlot := 4
  parentBlockhash := "a"
  executedTransactionCount := count

/-- The second transaction and the block meta come before the first transaction. -/
theorem run_assembles_reordered : (((new true : StreamSource Nat).run plainDecoders
    [.slot 3 (some 2) (.ok .createdBank), .transaction 5 (some ⟨false, 1, 8⟩),
      .blockMeta (plainMeta 2)]).2.update plainDecoders (.transaction 5 (some ⟨false, 0, 7⟩))).1 =
    some (.ok (.block 5 (SlotInfo.buildBlock (plainMeta 2)
      (built plainDecoders 5 [⟨false, 0, 7⟩, ⟨false, 1, 8⟩]) [] none true))) := by
  refine (run_assembles plainDecoders (new true) [⟨false, 0, 7⟩, ⟨false, 1, 8⟩] (plainMeta 2)
    [.slot 3 (some 2) (.ok .createdBank), .transaction 5 (some ⟨false, 1, 8⟩),
      .blockMeta (plainMeta 2)] (.transaction 5 (some ⟨false, 0, 7⟩)) [] [] none rfl ?_ rfl ?_ ?_
    trivial).2.1
  · refine ⟨rfl, by decide, fun info _ => ⟨_, rfl⟩, ?_, rfl⟩
    have swapped (early late : List (SubscribeUpdate Nat Nat)) : (early ++ late).Perm (late ++ early) :=
      List.perm_append_comm
    exact swapped [.transaction 5 (some ⟨false, 1, 8⟩), .blockMeta (plainMeta 2)]
      [.transaction 5 (some ⟨false, 0, 7⟩)]
  · intro firstProcessed found
    have same : firstProcessed = 3 := (Option.some.inj found).symm
    rw [same]
    decide
  · exact ⟨id, id, id, trivial⟩

/-- A repeated block meta emits a second block when the record was dropped by a finalized slot. -/
theorem second_block_after_finalized :
    let source := ((new true : StreamSource Nat).run plainDecoders
      ([.slot 3 (some 2) (.ok .createdBank)] ++ [.blockMeta (plainMeta 0)])).2
    Arrives plainDecoders [] (plainMeta 0) [.slot 3 (some 2) (.ok .createdBank)]
        (.blockMeta (plainMeta 0)) ∧
      SlotInfo.decodeRewards plainDecoders (plainMeta 0).rewards = .ok ([], none) ∧
      source.Below 5 ∧
      KeepsRecord plainDecoders 5 (new true) [.slot 3 (some 2) (.ok .createdBank)] ∧
      ¬ ∀ later, ∀ item ∈ (source.run plainDecoders later).1, ¬ IsBlock 5 item := by
  refine ⟨⟨rfl, by decide, by simp, ?_, rfl⟩, rfl, ?_, ⟨id, trivial⟩, fun never => ?_⟩
  · exact List.Perm.refl _
  · intro firstProcessed found
    have same : firstProcessed = 3 := (Option.some.inj found).symm
    omega
  · exact never [.slot 9 (some 8) (.ok .finalized), .blockMeta (plainMeta 0)] _
      (List.mem_cons_of_mem _ List.mem_cons_self) ⟨_, rfl⟩

end StreamSource

end Alpamayo
