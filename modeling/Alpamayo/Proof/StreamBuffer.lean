import Alpamayo.Proof.MemoryEmit
import Alpamayo.Proof.StreamAssembly

/-!
This file shows that the messages of the stream keep the assertions of the chain buffer.
-/

namespace Alpamayo

variable {RawTransaction RawReward : Type} {decoders : Decoders RawTransaction RawReward}

namespace StorageMemory

/-- The writer hands a message to the buffer and takes the confirmed slots. -/
def receive (self : StorageMemory) (message : StreamSourceMessage) :
    Except MemoryPanic StorageMemory := do
  let self ← match message with
    | .block slot block => self.addProcessed slot block
    | .slotStatus slot .dead => self.setDead slot
    | .slotStatus slot .confirmed => self.setConfirmed slot
    | _ => .ok self
  let (_, self) ← self.drain [] self.rounds
  .ok self

def feed (self : StorageMemory) : List StreamSourceMessage → Except MemoryPanic StorageMemory
  | [] => .ok self
  | message :: rest => do
      let self ← self.receive message
      self.feed rest

end StorageMemory

namespace StreamSource

/-- The messages of a run before its first error. -/
def messages : List (Option Item) → List StreamSourceMessage
  | [] => []
  | none :: rest => messages rest
  | some (.ok message) :: rest => message :: messages rest
  | some (.error _) :: _ => []

/-- The filter on the first processed slot lets this status pass. -/
def accepted (self : StreamSource RawReward) :
    SubscribeUpdate RawTransaction RawReward → List (Nat × SlotStatusProto)
  | .slot slot _ (.ok status) =>
      if self.firstProcessed.any fun firstProcessed => firstProcessed < slot then [(slot, status)]
      else []
  | _ => []

/-- The statuses of a run that pass the filter. -/
def acceptedStatuses (decoders : Decoders RawTransaction RawReward)
    (self : StreamSource RawReward) :
    List (SubscribeUpdate RawTransaction RawReward) → List (Nat × SlotStatusProto)
  | [] => []
  | update :: rest =>
      self.accepted update ++ acceptedStatuses decoders (self.update decoders update).2 rest

/-- Accepted confirmations do not go back, a finalized slot was confirmed before, and parents lie
below their slots. -/
structure Orderly (statuses : List (Nat × SlotStatusProto))
    (updates : List (SubscribeUpdate RawTransaction RawReward)) : Prop where
  forward : statuses.Pairwise fun first second =>
    first.2 = .confirmed → second.2 = .confirmed → first.1 ≤ second.1
  confirmed : ∀ before after slot, statuses = before ++ (slot, .finalized) :: after →
    (slot, .confirmed) ∈ before
  parents : ∀ close, .blockMeta close ∈ updates → close.parentSlot < close.slot

variable {source next : StreamSource RawReward} {slot : Nat} {item : Option Item}

/-- The status of the record of a slot. -/
def statusOf (source : StreamSource RawReward) (slot : Nat) : SlotStatusProto :=
  (source.slotInfo slot).status

/-- The block metas of the records name lower parents. -/
def NamesParents (source : StreamSource RawReward) : Prop :=
  ∀ slot, ∀ close ∈ (source.slotInfo slot).blockMeta, close.parentSlot < slot

/-- What a round without an error does to the statuses of the records. -/
inductive Moves (source next : StreamSource RawReward) :
    Option Item → List (Nat × SlotStatusProto) → Prop
  | quiet (statuses : List (Nat × SlotStatusProto))
      (same : ∀ slot, next.statusOf slot = source.statusOf slot)
      (known : ∀ slot, (slot, .confirmed) ∈ statuses → source.statusOf slot = .confirmed)
      (unfinalized : ∀ slot, (slot, .finalized) ∉ statuses) : Moves source next none statuses
  | block (slot : Nat) (block : BlockWithBinary)
      (same : ∀ slot, next.statusOf slot = source.statusOf slot)
      (parent : block.parentSlot < slot) : Moves source next (some (.ok (.block slot block))) []
  | dead (slot : Nat) (positive : 0 < slot) (created : source.statusOf slot = .createdBank)
      (moved : ∀ other, next.statusOf other =
        if other = slot then .dead else source.statusOf other) :
      Moves source next (some (.ok (.slotStatus slot .dead))) [(slot, .dead)]
  | confirmed (slot : Nat) (positive : 0 < slot) (created : source.statusOf slot = .createdBank)
      (moved : ∀ other, next.statusOf other =
        if other = slot then .confirmed else source.statusOf other) :
      Moves source next (some (.ok (.slotStatus slot .confirmed))) [(slot, .confirmed)]
  | finalized (slot : Nat) (kept : ∀ other, slot ≤ other →
        next.statusOf other = source.statusOf other)
      (dropped : ∀ other < slot, next.statusOf other = .createdBank) :
      Moves source next (some (.ok (.slotStatus slot .finalized))) [(slot, .finalized)]

/-- A record that replaces one of the same status changes no status. -/
theorem statusOf_setInfo {info : SlotInfo RawReward} (other : Nat) :
    (source.setInfo slot info).statusOf other =
      if other = slot then info.status else source.statusOf other := by
  unfold statusOf
  rw [slotInfo_setInfo]
  split <;> rfl

theorem statusOf_setInfo_same {info : SlotInfo RawReward}
    (same : info.status = source.statusOf slot) (other : Nat) :
    (source.setInfo slot info).statusOf other = source.statusOf other := by
  rw [statusOf_setInfo]
  split
  case isTrue here => rw [here, same]
  case isFalse => rfl

/-- A finalized slot drops the records below it and keeps the others. -/
theorem statusOf_popWhile (high other : Nat) :
    ({ source with slots := source.slots.popWhile fun entry => entry.1 < high } :
      StreamSource RawReward).statusOf other =
      if other < high then .createdBank else source.statusOf other := by
  simp only [statusOf, slotInfo, SortedMap.get_popWhile_lt]
  split <;> rfl

theorem NamesParents.setInfo (names : source.NamesParents) {info : SlotInfo RawReward}
    (parents : ∀ close ∈ info.blockMeta, close.parentSlot < slot) :
    (source.setInfo slot info).NamesParents := by
  intro other close known
  rw [slotInfo_setInfo] at known
  split at known
  case isTrue here =>
    rw [here]
    exact parents close known
  case isFalse => exact names other close known

theorem NamesParents.popWhile (names : source.NamesParents) (high : Nat) :
    ({ source with slots := source.slots.popWhile fun entry => entry.1 < high } :
      StreamSource RawReward).NamesParents := by
  intro other close known
  simp only [slotInfo, SortedMap.get_popWhile_lt] at known
  split at known
  · cases known
  · exact names other close known

/-- A build keeps the status, and its block has the parent of the block meta. -/
theorem tryBuildBlock_spec (decoders : Decoders RawTransaction RawReward) (info : SlotInfo RawReward) :
    (info.tryBuildBlock decoders).2.status = info.status ∧
      (∀ close ∈ (info.tryBuildBlock decoders).2.blockMeta, close ∈ info.blockMeta) ∧
      ∀ block, (info.tryBuildBlock decoders).1 = some (.ok block) →
        ∃ close ∈ info.blockMeta, block.parentSlot = close.parentSlot := by
  unfold SlotInfo.tryBuildBlock
  split
  · rename_i blockMeta _ found
    split
    · exact ⟨rfl, fun _ known => known, nofun⟩
    · dsimp only
      split
      · exact ⟨rfl, nofun, nofun⟩
      · refine ⟨rfl, nofun, ?_⟩
        intro block built
        cases built
        exact ⟨blockMeta, found, rfl⟩
  · exact ⟨rfl, fun _ known => known, nofun⟩

/-- The build of a record changes no status. -/
theorem build_moves (names : source.NamesParents) {info : SlotInfo RawReward}
    (same : info.status = source.statusOf slot)
    (parents : ∀ close ∈ info.blockMeta, close.parentSlot < slot)
    (alive : ∀ error, (source.build decoders slot info).1 ≠ some (.error error)) :
    Moves source (source.build decoders slot info).2 (source.build decoders slot info).1 [] ∧
      (source.build decoders slot info).2.NamesParents := by
  obtain ⟨status, metas, built⟩ := tryBuildBlock_spec decoders info
  unfold build at alive ⊢
  split
  · exact ⟨.quiet [] (statusOf_setInfo_same same) nofun nofun, names.setInfo parents⟩
  · rename_i open'
    rw [if_neg open'] at alive
    have kept : (source.setInfo slot (info.tryBuildBlock decoders).2).NamesParents :=
      names.setInfo fun close known => parents close (metas close known)
    have statuses (other : Nat) : (source.setInfo slot (info.tryBuildBlock decoders).2).statusOf other =
        source.statusOf other := statusOf_setInfo_same (status.trans same) other
    cases result : (info.tryBuildBlock decoders).1 with
    | none =>
        simp only [result, Option.map_none]
        exact ⟨.quiet [] statuses nofun nofun, kept⟩
    | some outcome =>
        cases outcome with
        | error reason =>
            simp only [result, Option.map_some, Except.map] at alive
            exact (alive reason rfl).elim
        | ok block =>
            simp only [result, Option.map_some, Except.map]
            obtain ⟨close, known, parent⟩ := built block result
            exact ⟨.block slot block statuses (parent ▸ parents close known), kept⟩

/-- An accepted status without an error moves the record of its slot or drops the records below. -/
theorem acceptStatus_moves (names : source.NamesParents) {firstProcessed : Nat}
    {parent : Option Nat} {status : SlotStatusProto} (above : firstProcessed < slot)
    (alive : ∀ error, (source.acceptStatus firstProcessed slot parent status).1 ≠
      some (.error error)) :
    Moves source (source.acceptStatus firstProcessed slot parent status).2
        (source.acceptStatus firstProcessed slot parent status).1 [(slot, status)] ∧
      (source.acceptStatus firstProcessed slot parent status).2.NamesParents := by
  have positive : 0 < slot := by omega
  have own := names slot
  unfold acceptStatus at alive ⊢
  split
  · rename_i finalized
    rw [if_pos finalized] at alive
    subst finalized
    refine ⟨?_, names.popWhile slot⟩
    cases parent with
    | none => exact (alive _ rfl).elim
    | some parent =>
        refine .finalized slot (fun other high => ?_) fun other low => ?_
        · rw [statusOf_popWhile, if_neg (by omega)]
        · rw [statusOf_popWhile, if_pos low]
  · rename_i unfinalized
    rw [if_neg unfinalized] at alive
    dsimp only at alive ⊢
    split
    · rename_i created
      subst created
      rw [if_pos rfl] at alive
      split
      · exact ⟨.quiet _ (statusOf_setInfo_same rfl) (by simp) (by simp), names.setInfo own⟩
      · rename_i stored
        rw [if_neg stored, if_pos above.le] at alive
        exact (alive _ rfl).elim
    · rename_i uncreated
      rw [if_neg uncreated] at alive
      revert alive
      split
      · rename_i current
        exact fun _ => ⟨.dead slot positive current statusOf_setInfo, names.setInfo own⟩
      · rename_i current
        exact fun _ => ⟨.confirmed slot positive current statusOf_setInfo, names.setInfo own⟩
      · rename_i current
        intro alive
        refine ⟨.quiet _ (statusOf_setInfo_same rfl) ?_ (by simp), names.setInfo own⟩
        intro other member
        cases List.mem_singleton.mp member
        exact current
      · exact fun alive => (alive _ rfl).elim

/-- The filter accepts at most the status of the update. -/
theorem mem_accepted {parent : Option Nat} {status : SlotStatusProto}
    {entry : Nat × SlotStatusProto}
    (member : entry ∈ source.accepted
      (.slot slot parent (.ok status) : SubscribeUpdate RawTransaction RawReward)) :
    entry = (slot, status) := by
  simp only [accepted] at member
  split at member
  · exact List.mem_singleton.mp member
  · cases member

/-- The filter on the first processed slot drops a status or hands it on. -/
theorem slotUpdate_moves (names : source.NamesParents) {parent : Option Nat}
    {status : SlotStatusProto}
    (alive : ∀ error, (source.slotUpdate slot parent status).1 ≠ some (.error error)) :
    Moves source (source.slotUpdate slot parent status).2 (source.slotUpdate slot parent status).1
        (if source.firstProcessed.any fun firstProcessed => firstProcessed < slot then
          [(slot, status)] else []) ∧
      (source.slotUpdate slot parent status).2.NamesParents := by
  unfold slotUpdate at alive ⊢
  cases known : source.firstProcessed with
  | none =>
      have dropped : ¬ (none : Option Nat).any (fun firstProcessed => firstProcessed < slot) := by
        simp
      rw [if_neg dropped]
      by_cases created : status = .createdBank
      · simp only [created, and_self, if_true, le_refl]
        exact ⟨.quiet [] (fun _ => rfl) nofun nofun, names⟩
      · simp only [known, created, false_and, if_false]
        exact ⟨.quiet [] (fun _ => rfl) nofun nofun, names⟩
  | some firstProcessed =>
      simp only [known, reduceCtorEq, and_false, if_false, Option.any_some] at alive ⊢
      by_cases low : slot ≤ firstProcessed
      · rw [if_pos low, if_neg (by simpa using low)]
        exact ⟨.quiet [] (fun _ => rfl) nofun nofun, names⟩
      · rw [if_neg low] at alive ⊢
        rw [if_pos (by simpa using low)]
        exact acceptStatus_moves names (Nat.not_le.mp low) alive

/-- An update without an error moves the statuses in one of the five ways. -/
theorem update_moves (names : source.NamesParents)
    {update : SubscribeUpdate RawTransaction RawReward}
    (parents : ∀ close, update = .blockMeta close → close.parentSlot < close.slot)
    (alive : ∀ error, (source.update decoders update).1 ≠ some (.error error)) :
    Moves source (source.update decoders update).2 (source.update decoders update).1
        (source.accepted update) ∧
      (source.update decoders update).2.NamesParents := by
  cases update with
  | slot slot parent status =>
      cases status with
      | error number => exact (alive _ rfl).elim
      | ok status =>
          cases status with
          | processed | firstShredReceived | completed =>
              refine ⟨.quiet _ (fun _ => rfl) ?_ ?_, names⟩ <;> intro other member <;>
                cases mem_accepted member
          | _ => exact slotUpdate_moves names alive
  | transaction slot transaction =>
      cases transaction with
      | none => exact (alive _ rfl).elim
      | some info =>
          simp only [update, transactionUpdate] at alive ⊢
          revert alive
          split
          · exact fun alive => (alive _ rfl).elim
          · exact fun alive => build_moves names rfl (names slot) alive
  | blockMeta close =>
      refine build_moves names rfl ?_ alive
      intro other known
      cases known
      exact parents close rfl
  | ping => exact ⟨.quiet [] (fun _ => rfl) (by simp) (by simp), names⟩
  | unexpected kind => exact (alive _ rfl).elim
  | missing => exact (alive _ rfl).elim
  | failed reason => exact (alive _ rfl).elim

end StreamSource

namespace StorageMemory

/-- A drain does not depend on the calls that its reports keep. -/
theorem drain_calls (calls other : List MemoryCall) (fuel : Nat) (memory : StorageMemory) :
    (memory.drain calls fuel).map Prod.snd = (memory.drain other fuel).map Prod.snd := by
  induction fuel generalizing memory with
  | zero => rfl
  | succ fuel ih =>
      cases popped : memory.popConfirmed with
      | error panic => simp only [drain, popped, bind, Except.bind]
      | ok result =>
          obtain ⟨record, after⟩ := result
          cases record with
          | none => simp only [drain, popped, bind, Except.bind, Except.map]
          | some record =>
              have same := ih after
              simp only [drain, popped, bind, Except.bind]
              cases first : after.drain calls fuel <;> cases second : after.drain other fuel <;>
                rw [first, second] at same <;> simp only [Except.map] at same ⊢ <;> simp at same <;>
                simp [same]

end StorageMemory

section feed

variable {calls : List MemoryCall} {memory : StorageMemory} {slot : Nat}
  {source next : StreamSource RawReward} {statuses accepted : List (Nat × SlotStatusProto)}
  {item : Option StreamSource.Item}

/-- A message that is not one of a finalized slot makes this call. -/
def MemoryCall.message : MemoryCall → StreamSourceMessage
  | .addProcessed slot block => .block slot block
  | .setDead slot => .slotStatus slot .dead
  | .setConfirmed slot => .slotStatus slot .confirmed

/-- The buffer takes the message of a valid call. -/
theorem Settled.receive {call : MemoryCall} (settled : Settled calls memory)
    (valid : MemoryCall.Valid (calls ++ [call])) :
    ∃ last, memory.receive call.message = .ok last ∧ Settled (calls ++ [call]) last := by
  obtain ⟨after, emissions, last, called, drained, advanced⟩ := settled.step valid
  have same := StorageMemory.drain_calls [] (calls ++ [call]) after.rounds after
  rw [drained] at same
  refine ⟨last, ?_, advanced.settled⟩
  cases result : after.drain [] after.rounds with
  | error panic =>
      rw [result] at same
      cases same
  | ok pair =>
      rw [result] at same
      obtain rfl : pair.2 = last := by simpa [Except.map] using same
      cases call <;>
        simp only [StorageMemory.receive, MemoryCall.message, StorageMemory.call] at called ⊢ <;>
        simp only [called, bind, Except.bind, result]

/-- The buffer without a confirmed item has nothing to report. -/
theorem Settled.drain_none (settled : Settled calls memory) :
    memory.drain [] memory.rounds = .ok ([], memory) := by
  simp only [StorageMemory.rounds, StorageMemory.drain, settled.clean.popConfirmed, bind, Except.bind]

/-- A finalized slot leaves the buffer. -/
theorem Settled.receive_finalized (settled : Settled calls memory) (slot : Nat) :
    memory.receive (.slotStatus slot .finalized) = .ok memory := by
  simp only [StorageMemory.receive, bind, Except.bind, settled.drain_none]

/-- A dead mark for a reported slot leaves the buffer. -/
theorem Settled.receive_reported (settled : Settled calls memory) (below : slot < memory.genNextSlot) :
    memory.receive (.slotStatus slot .dead) = .ok memory := by
  have started : memory.started slot = memory.genNextSlot := if_neg (by omega)
  have called : memory.setDead slot = .ok memory := by
    rcases StorageMemory.updateSlot_cases settled.clean.inOrder slot
        (fun item => if item.confirmed then .error .confirmedAsDead else .ok { item with dead := true })
        with ⟨-, updated⟩ | ⟨reached, -⟩
    · rw [started] at updated
      simp only [StorageMemory.setDead, updated, bind, Except.bind]
    · omega
  simp only [StorageMemory.receive, called, bind, Except.bind, settled.drain_none]

/-- A slot has a later confirmation above it. -/
def Passed (accepted : List (Nat × SlotStatusProto)) (slot : Nat) : Prop :=
  ∃ later, slot < later ∧ (later, .confirmed) ∈ accepted

/-- The buffer has taken what the stream accepted: a confirmation is reported and has its record or
a later confirmation above it, and a dead mark has its record or such a confirmation too. -/
structure Tracks (source : StreamSource RawReward) (accepted : List (Nat × SlotStatusProto))
    (calls : List MemoryCall) (memory : StorageMemory) : Prop where
  settled : Settled calls memory
  valid : MemoryCall.Valid calls
  names : source.NamesParents
  marked : ∀ slot, source.statusOf slot = .confirmed → (slot, .confirmed) ∈ accepted
  reported : ∀ slot, (slot, .confirmed) ∈ accepted → slot < memory.genNextSlot ∧
    (source.statusOf slot = .confirmed ∨ Passed accepted slot)
  dead : ∀ slot, .setDead slot ∈ calls → source.statusOf slot = .dead ∨ Passed accepted slot
  confirmed : ∀ slot, .setConfirmed slot ∈ calls → (slot, .confirmed) ∈ accepted

/-- A call that suits the earlier ones keeps them valid. -/
theorem MemoryCall.Valid.snoc {last : MemoryCall} (valid : Valid calls) (positive : 1 ≤ last.slot)
    (parents : ∀ slot block, last = .addProcessed slot block → block.parentSlot < slot)
    (ascending : ∀ low high, .setConfirmed low ∈ calls → last = .setConfirmed high → low < high)
    (apartDead : ∀ slot, last = .setDead slot → .setConfirmed slot ∉ calls)
    (apartConfirmed : ∀ slot, last = .setConfirmed slot → .setDead slot ∉ calls) :
    Valid (calls ++ [last]) where
  positive := by
    intro call member
    rcases List.mem_append.mp member with old | new
    · exact valid.positive call old
    · rwa [List.mem_singleton.mp new]
  parents := by
    intro slot block member
    rcases List.mem_append.mp member with old | new
    · exact valid.parents slot block old
    · exact parents slot block (List.mem_singleton.mp new).symm
  ascending := by
    refine List.pairwise_append.mpr ⟨valid.ascending, List.pairwise_singleton _ _, ?_⟩
    rintro first member second here low high rfl isSecond
    exact ascending low high member ((List.mem_singleton.mp here).symm.trans isSecond)
  apart := by
    intro slot member other
    rcases List.mem_append.mp member with dead | dead <;>
      rcases List.mem_append.mp other with confirmed | confirmed
    · exact valid.apart slot dead confirmed
    · exact apartConfirmed slot (List.mem_singleton.mp confirmed).symm dead
    · exact apartDead slot (List.mem_singleton.mp dead).symm confirmed
    · have both := (List.mem_singleton.mp dead).trans (List.mem_singleton.mp confirmed).symm
      cases both

/-- A call does not move the next slot back. -/
theorem Settled.next_le {last : MemoryCall} {after : StorageMemory} (settled : Settled calls memory)
    (later : Settled (calls ++ [last]) after) (positive : 1 ≤ last.slot) :
    memory.genNextSlot ≤ after.genNextSlot ∧ last.asks ≤ after.genNextSlot := by
  rw [settled.next, later.next, MemoryCall.nextOf_append positive]
  refine ⟨?_, le_max_right _ _⟩
  split
  · omega
  · exact le_max_left _ _

/-- The buffer takes the item of a round. -/
def Takes (memory : StorageMemory) : Option StreamSource.Item → StorageMemory → Prop
  | some (.ok message), after => memory.receive message = .ok after
  | _, after => after = memory

/-- A confirmation moves the record of its slot once. -/
theorem Tracks.confirm (tracks : Tracks source accepted calls memory) (positive : 0 < slot)
    (created : source.statusOf slot = .createdBank)
    (forward : ∀ earlier, (earlier, .confirmed) ∈ accepted → earlier ≤ slot) :
    MemoryCall.Valid (calls ++ [.setConfirmed slot]) := by
  have fresh : (slot, .confirmed) ∉ accepted := by
    intro known
    rcases (tracks.reported slot known).2 with marked | ⟨later, above, member⟩
    · rw [created] at marked
      cases marked
    · have := forward later member
      omega
  refine tracks.valid.snoc positive nofun ?_ nofun ?_
  · rintro low high member ⟨⟩
    have known := tracks.confirmed low member
    have different : low ≠ slot := fun same => fresh (same ▸ known)
    have := forward low known
    omega
  · rintro other ⟨⟩ dead
    rcases tracks.dead slot dead with marked | ⟨later, above, member⟩
    · rw [created] at marked
      cases marked
    · have := forward later member
      omega

theorem Passed.append (passed : Passed accepted slot) :
    Passed (accepted ++ statuses) slot := by
  obtain ⟨later, above, member⟩ := passed
  exact ⟨later, above, List.mem_append_left _ member⟩

/-- A round without a message repeats at most known confirmations. -/
theorem Tracks.quiet (tracks : Tracks source accepted calls memory) (names : next.NamesParents)
    (same : ∀ slot, next.statusOf slot = source.statusOf slot)
    (known : ∀ slot, (slot, .confirmed) ∈ statuses → source.statusOf slot = .confirmed) :
    Tracks next (accepted ++ statuses) calls memory where
  settled := tracks.settled
  valid := tracks.valid
  names := names
  marked slot marked := List.mem_append_left _ (tracks.marked slot (same slot ▸ marked))
  reported slot member := by
    rw [same slot]
    have old : (slot, .confirmed) ∈ accepted :=
      (List.mem_append.mp member).elim id fun new => tracks.marked slot (known slot new)
    exact (tracks.reported slot old).imp_right (Or.imp_right Passed.append)
  dead slot member := by
    rw [same slot]
    exact (tracks.dead slot member).imp_right Passed.append
  confirmed slot member := List.mem_append_left _ (tracks.confirmed slot member)

/-- A block joins the buffer. -/
theorem Tracks.addBlock (tracks : Tracks source accepted calls memory) (names : next.NamesParents)
    {block : BlockWithBinary} (same : ∀ slot, next.statusOf slot = source.statusOf slot)
    (parent : block.parentSlot < slot) :
    ∃ calls after, memory.receive (.block slot block) = .ok after ∧
      Tracks next accepted calls after := by
  have valid : MemoryCall.Valid (calls ++ [.addProcessed slot block]) := by
    refine tracks.valid.snoc (show 1 ≤ slot by omega) ?_ nofun nofun nofun
    rintro slot block ⟨⟩
    exact parent
  obtain ⟨after, received, settled⟩ := tracks.settled.receive valid
  have bound := (tracks.settled.next_le settled (valid.positive _ (by simp))).1
  refine ⟨_, after, received, settled, valid, names, ?_, ?_, ?_, ?_⟩
  · exact fun slot marked => tracks.marked slot (same slot ▸ marked)
  · intro slot member
    rw [same slot]
    exact (tracks.reported slot member).imp_left fun low => low.trans_le bound
  · intro slot member
    rw [same slot]
    exact tracks.dead slot (by simpa using member)
  · exact fun slot member => tracks.confirmed slot (by simpa using member)

/-- The buffer takes a dead mark for a slot that it still waits for and ignores one below. -/
theorem Tracks.takesDead (tracks : Tracks source accepted calls memory) (positive : 0 < slot) :
    ∃ calls' after, memory.receive (.slotStatus slot .dead) = .ok after ∧
      Settled calls' after ∧ MemoryCall.Valid calls' ∧
      memory.genNextSlot ≤ after.genNextSlot ∧
      (∀ other, .setDead other ∈ calls' → .setDead other ∈ calls ∨ other = slot) ∧
      ∀ other, .setConfirmed other ∈ calls' → .setConfirmed other ∈ calls := by
  by_cases below : slot < memory.genNextSlot
  · exact ⟨calls, memory, tracks.settled.receive_reported below, tracks.settled, tracks.valid,
      le_rfl, fun _ => Or.inl, fun _ => id⟩
  · have valid : MemoryCall.Valid (calls ++ [.setDead slot]) := by
      refine tracks.valid.snoc positive nofun nofun ?_ nofun
      rintro other ⟨⟩ confirmed
      exact below (tracks.reported slot (tracks.confirmed slot confirmed)).1
    obtain ⟨after, received, settled⟩ := tracks.settled.receive valid
    have bound := (tracks.settled.next_le settled positive).1
    refine ⟨_, after, received, settled, valid, bound, fun other member => ?_,
      fun other member => by simpa using member⟩
    simpa using member

/-- A dead mark moves the record of its slot. -/
theorem Tracks.markDead (tracks : Tracks source accepted calls memory) (names : next.NamesParents)
    (positive : 0 < slot) (created : source.statusOf slot = .createdBank)
    (moved : ∀ other, next.statusOf other = if other = slot then .dead else source.statusOf other) :
    ∃ calls after, memory.receive (.slotStatus slot .dead) = .ok after ∧
      Tracks next (accepted ++ [(slot, .dead)]) calls after := by
  obtain ⟨calls', after, received, settled, valid, bound, dead, confirmed⟩ := tracks.takesDead positive
  refine ⟨calls', after, received, settled, valid, names, ?_, ?_, ?_, ?_⟩
  · intro other marked
    rw [moved] at marked
    split at marked
    · cases marked
    · exact List.mem_append_left _ (tracks.marked other marked)
  · intro other member
    have old : (other, .confirmed) ∈ accepted := by simpa using member
    obtain ⟨low, marked | passed⟩ := tracks.reported other old
    · refine ⟨low.trans_le bound, Or.inl ?_⟩
      have different : other ≠ slot := by
        rintro rfl
        rw [created] at marked
        cases marked
      rw [moved, if_neg different, marked]
    · exact ⟨low.trans_le bound, Or.inr (Passed.append passed)⟩
  · intro other member
    rw [moved]
    split
    · exact Or.inl rfl
    · rename_i different
      exact (tracks.dead other ((dead other member).resolve_right different)).imp_right Passed.append
  · exact fun other member => List.mem_append_left _ (tracks.confirmed other (confirmed other member))

/-- A confirmation above all earlier ones moves the record of its slot. -/
theorem Tracks.markConfirmed (tracks : Tracks source accepted calls memory)
    (names : next.NamesParents) (positive : 0 < slot) (created : source.statusOf slot = .createdBank)
    (moved : ∀ other, next.statusOf other =
      if other = slot then .confirmed else source.statusOf other)
    (forward : ∀ earlier, (earlier, .confirmed) ∈ accepted → earlier ≤ slot) :
    ∃ calls after, memory.receive (.slotStatus slot .confirmed) = .ok after ∧
      Tracks next (accepted ++ [(slot, .confirmed)]) calls after := by
  have valid := tracks.confirm positive created forward
  obtain ⟨after, received, settled⟩ := tracks.settled.receive valid
  obtain ⟨bound, asked⟩ := tracks.settled.next_le settled positive
  refine ⟨_, after, received, settled, valid, names, ?_, ?_, ?_, ?_⟩
  · intro other marked
    rw [moved] at marked
    split at marked
    · rename_i here
      simp [here]
    · exact List.mem_append_left _ (tracks.marked other marked)
  · intro other member
    rw [moved]
    by_cases here : other = slot
    · rw [if_pos here, here]
      exact ⟨asked, Or.inl rfl⟩
    · rw [if_neg here]
      have old : (other, .confirmed) ∈ accepted := by simpa [here] using member
      obtain ⟨low, known⟩ := tracks.reported other old
      exact ⟨low.trans_le bound, known.imp_right Passed.append⟩
  · intro other member
    have old : .setDead other ∈ calls := by simpa using member
    rw [moved]
    split
    · rename_i here
      rw [here] at old
      exact (valid.apart slot (List.mem_append_left _ old) (by simp)).elim
    · exact (tracks.dead other old).imp_right Passed.append
  · intro other member
    rcases List.mem_append.mp member with old | new
    · exact List.mem_append_left _ (tracks.confirmed other old)
    · cases List.mem_singleton.mp new
      simp

/-- A finalized slot is confirmed, so the slots whose records it drops have a confirmation above. -/
theorem Tracks.finalize (tracks : Tracks source accepted calls memory) (names : next.NamesParents)
    (kept : ∀ other, slot ≤ other → next.statusOf other = source.statusOf other)
    (dropped : ∀ other < slot, next.statusOf other = .createdBank)
    (known : (slot, .confirmed) ∈ accepted) :
    Tracks next (accepted ++ [(slot, .finalized)]) calls memory := by
  have above (other : Nat) (low : other < slot) : Passed (accepted ++ [(slot, .finalized)]) other :=
    ⟨slot, low, List.mem_append_left _ known⟩
  refine ⟨tracks.settled, tracks.valid, names, ?_, ?_, ?_, ?_⟩
  · intro other marked
    by_cases low : other < slot
    · rw [dropped other low] at marked
      cases marked
    · rw [kept other (by omega)] at marked
      exact List.mem_append_left _ (tracks.marked other marked)
  · intro other member
    have old : (other, .confirmed) ∈ accepted := by simpa using member
    obtain ⟨bound, status⟩ := tracks.reported other old
    by_cases low : other < slot
    · exact ⟨bound, Or.inr (above other low)⟩
    · rw [kept other (by omega)]
      exact ⟨bound, status.imp_right Passed.append⟩
  · intro other member
    by_cases low : other < slot
    · exact Or.inr (above other low)
    · rw [kept other (by omega)]
      exact (tracks.dead other member).imp_right Passed.append
  · exact fun other member => List.mem_append_left _ (tracks.confirmed other member)

/-- A round of the stream and its message keep what the buffer has taken. -/
theorem Tracks.step (tracks : Tracks source accepted calls memory)
    (moves : source.Moves next item statuses) (names : next.NamesParents)
    (forward : ∀ slot, (slot, .confirmed) ∈ statuses →
      ∀ earlier, (earlier, .confirmed) ∈ accepted → earlier ≤ slot)
    (confirmed : ∀ slot, (slot, .finalized) ∈ statuses → (slot, .confirmed) ∈ accepted) :
    ∃ calls after, Takes memory item after ∧ Tracks next (accepted ++ statuses) calls after := by
  cases moves with
  | quiet _ same known => exact ⟨calls, memory, rfl, tracks.quiet names same known⟩
  | block slot block same parent =>
      obtain ⟨calls, after, received, tracked⟩ := tracks.addBlock names same parent
      rw [List.append_nil]
      exact ⟨calls, after, received, tracked⟩
  | dead slot positive created moved => exact tracks.markDead names positive created moved
  | confirmed slot positive created moved =>
      exact tracks.markConfirmed names positive created moved (forward slot (by simp))
  | finalized slot kept dropped =>
      exact ⟨calls, memory, tracks.settled.receive_finalized slot,
        tracks.finalize names kept dropped (confirmed slot (by simp))⟩

end feed

namespace StorageMemory

/-- The buffer takes the beginning of what it takes. -/
theorem feed_append (memory : StorageMemory) (first second : List StreamSourceMessage) :
    memory.feed (first ++ second) = (memory.feed first).bind fun after => after.feed second := by
  induction first generalizing memory with
  | nil => rfl
  | cons message rest ih =>
      cases received : memory.receive message with
      | error panic => simp only [List.cons_append, feed, received, bind, Except.bind]
      | ok after => simp only [List.cons_append, feed, received, bind, Except.bind, ih]

end StorageMemory

namespace StreamSource

variable {source : StreamSource RawReward} {memory : StorageMemory} {calls : List MemoryCall}
  {accepted : List (Nat × SlotStatusProto)}

/-- The filter accepts nothing but the one status of the update. -/
theorem accepted_eq_of_mem {update : SubscribeUpdate RawTransaction RawReward}
    {entry : Nat × SlotStatusProto} (member : entry ∈ source.accepted update) :
    source.accepted update = [entry] := by
  cases update with
  | slot slot parent status =>
      cases status with
      | error number => cases member
      | ok status =>
          simp only [StreamSource.accepted] at member ⊢
          split at member
          · rw [List.mem_singleton.mp member, if_pos ‹_›]
          · cases member
  | _ => cases member

/-- The buffer takes every message of an orderly run before the first error. -/
theorem feeds (updates : List (SubscribeUpdate RawTransaction RawReward))
    (tracks : Tracks source accepted calls memory)
    (orderly : Orderly (accepted ++ source.acceptedStatuses decoders updates) updates) :
    ∃ after, memory.feed (messages (source.run decoders updates).1) = .ok after := by
  induction updates generalizing source accepted calls memory with
  | nil => exact ⟨memory, rfl⟩
  | cons update rest ih =>
      have statuses : accepted ++ source.acceptedStatuses decoders (update :: rest) =
          accepted ++ source.accepted update ++
            (source.update decoders update).2.acceptedStatuses decoders rest :=
        (List.append_assoc _ _ _).symm
      rw [statuses] at orderly
      by_cases alive : ∀ error, (source.update decoders update).1 ≠ some (.error error)
      · obtain ⟨moves, names⟩ := update_moves tracks.names (fun close here =>
          orderly.parents close (here ▸ List.mem_cons_self)) alive
        have forward : ∀ slot, (slot, .confirmed) ∈ source.accepted update →
            ∀ earlier, (earlier, .confirmed) ∈ accepted → earlier ≤ slot := by
          intro slot member earlier known
          have ordered := (List.pairwise_append.mp orderly.forward).1
          exact (List.pairwise_append.mp ordered).2.2 _ known _ member rfl rfl
        have confirmed : ∀ slot, (slot, .finalized) ∈ source.accepted update →
            (slot, .confirmed) ∈ accepted := by
          intro slot member
          refine orderly.confirmed accepted
            ((source.update decoders update).2.acceptedStatuses decoders rest) slot ?_
          rw [accepted_eq_of_mem member, List.append_assoc, List.singleton_append]
        obtain ⟨calls, after, taken, tracked⟩ := tracks.step moves names forward confirmed
        obtain ⟨last, fed⟩ := ih tracked ⟨orderly.forward, orderly.confirmed,
          fun close member => orderly.parents close (List.mem_cons_of_mem _ member)⟩
        refine ⟨last, ?_⟩
        cases item : (source.update decoders update).1 with
        | none =>
            rw [item] at taken
            cases taken
            simpa only [run, messages, item] using fed
        | some outcome =>
            cases outcome with
            | error error => exact (alive error item).elim
            | ok message =>
                rw [item] at taken
                have received : memory.receive message = .ok after := taken
                simpa only [run, messages, item, StorageMemory.feed, bind, Except.bind, received]
                  using fed
      · push Not at alive
        obtain ⟨error, item⟩ := alive
        exact ⟨memory, by simp only [run, messages, item, StorageMemory.feed]⟩

/-- The messages of an orderly run, up to any of them before the first error, never make the chain
buffer panic. -/
theorem run_feeds (decoders : Decoders RawTransaction RawReward) (indexVote : Bool)
    (updates : List (SubscribeUpdate RawTransaction RawReward))
    (orderly : Orderly ((new indexVote).acceptedStatuses decoders updates) updates)
    (fed : List StreamSourceMessage)
    (beginning : fed <+: messages ((new indexVote).run decoders updates).1) :
    ∃ memory, StorageMemory.default.feed fed = .ok memory := by
  have tracks : Tracks (new indexVote : StreamSource RawReward) [] [] StorageMemory.default :=
    ⟨settled_default, ⟨by simp, by simp, .nil, by simp⟩, nofun, nofun, nofun, nofun, nofun⟩
  obtain ⟨last, whole⟩ := feeds updates tracks orderly
  obtain ⟨rest, split⟩ := beginning
  rw [← split, StorageMemory.feed_append] at whole
  cases result : StorageMemory.default.feed fed with
  | error panic =>
      rw [result] at whole
      cases whole
  | ok memory => exact ⟨memory, rfl⟩

/-- A fork dies, the chain is confirmed and finalized, and a record is created and dies late. -/
def forkedUpdates : List (SubscribeUpdate Nat Nat) :=
  [.slot 3 (some 2) (.ok .createdBank), .blockMeta (plainMeta 0),
    .slot 5 (some 4) (.ok .createdBank), .slot 6 (some 5) (.ok .createdBank),
    .slot 6 (some 5) (.ok .dead), .slot 5 (some 4) (.ok .confirmed),
    .slot 7 (some 5) (.ok .createdBank), .slot 7 (some 5) (.ok .confirmed),
    .slot 7 (some 5) (.ok .finalized), .slot 5 (some 4) (.ok .createdBank),
    .slot 5 (some 4) (.ok .dead)]

/-- The buffer takes the messages of the forked updates. -/
theorem run_feeds_fork : ∃ memory, StorageMemory.default.feed
    [.block 5 (SlotInfo.buildBlock (plainMeta 0) [] [] none true), .slotStatus 6 .dead,
      .slotStatus 5 .confirmed, .slotStatus 7 .confirmed, .slotStatus 7 .finalized,
      .slotStatus 5 .dead] = .ok memory := by
  refine run_feeds plainDecoders true forkedUpdates ?_ _ (List.prefix_refl _)
  have statuses : (new true : StreamSource Nat).acceptedStatuses plainDecoders forkedUpdates =
      [(5, .createdBank), (6, .createdBank), (6, .dead), (5, .confirmed), (7, .createdBank),
        (7, .confirmed), (7, .finalized), (5, .createdBank), (5, .dead)] := rfl
  rw [statuses]
  refine ⟨by decide, ?_, ?_⟩
  · intro before after slot split
    have whole : before = [(5, .createdBank), (6, .createdBank), (6, .dead), (5, .confirmed),
        (7, .createdBank), (7, .confirmed)] ∧ slot = 7 ∧
        after = [(5, .createdBank), (5, .dead)] := by
      simpa [List.cons_eq_append_iff] using split
    obtain ⟨rfl, rfl, -⟩ := whole
    decide
  · intro close member
    have isMeta : close = plainMeta 0 := by simpa [forkedUpdates] using member
    rw [isMeta]
    decide

end StreamSource

end Alpamayo
