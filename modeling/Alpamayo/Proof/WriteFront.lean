import Alpamayo.Proof.MemoryRounds
import Alpamayo.Proof.StoreFront
import Alpamayo.Storage.Write

/-!
This file proves that the writer stores the confirmed slots in order and loses none of them.
-/

namespace Alpamayo

namespace HttpBlocks

variable {self : HttpBlocks} {slot other : Nat}

@[simp] theorem mem_fetch : other ∈ (self.fetch slot).inprogress ↔
    other = slot ∨ other ∈ self.inprogress := by
  unfold fetch
  split
  · rename_i known
    constructor
    · exact Or.inr
    · rintro (rfl | inside)
      · exact known
      · exact inside
  · simp

@[simp] theorem mem_complete : other ∈ (self.complete slot).inprogress ↔
    other ∈ self.inprogress ∧ other ≠ slot := by
  simp [complete]

end HttpBlocks

namespace WriteState

variable {self : WriteState} {cursor slot : Nat}

/-- The block of the slot is in the queue, or its request runs. -/
def Awaits (self : WriteState) (slot : Nat) : Prop :=
  self.queuedSlotsFront.containsKey slot = true ∨ slot ∈ self.http.inprogress

/-- The pushes follow each other, and each follows the highest stored slot. -/
def PushesInOrder (self : WriteState) : Prop :=
  (self.pushed.IsChain fun first second => second.slot = first.slot + 1) ∧
    ∀ push ∈ self.pushed, ∀ front ∈ push.front, push.slot = front + 1

/-- The cursor stands after the stored slots, and no reported slot from the cursor on is lost. -/
structure FrontKept (cursor : Nat) (writer : WriteState) : Prop where
  pushes : writer.PushesInOrder
  front : ∀ slot ∈ writer.store.blocks.getFrontSlot, cursor = slot + 1
  last : ∀ push ∈ writer.pushed.getLast?, cursor = push.slot + 1
  covered : ∀ returned ∈ writer.returned, ∀ slot, cursor ≤ slot → slot ≤ returned → writer.Awaits slot
  memory : writer.storageMemory.Ordered

/-- The writer stops after pushes in order and never for a wrong slot or an endless loop. -/
structure FrontStopped (reason : WriteStop) (writer : WriteState) : Prop where
  pushes : writer.PushesInOrder
  ends : reason ≠ .endless
  validSlot : ∀ slot expected, reason ≠ .storage (.pushFrontInvalidSlot slot expected)

/-- The catch-up loop keeps its own cursor. -/
def LoopKept (self : WriteState) : Prop :=
  match self.catchup with
  | none => self.FrontKept self.nextConfirmedSlot
  | some catchup => self.FrontKept catchup.nextDatabaseSlot

/-- What the front invariant reads. -/
theorem FrontKept.congr {other : WriteState} (kept : self.FrontKept cursor)
    (pushed : other.pushed = self.pushed)
    (front : other.store.blocks.getFrontSlot = self.store.blocks.getFrontSlot)
    (returned : other.returned = self.returned)
    (awaits : ∀ slot, cursor ≤ slot → self.Awaits slot → other.Awaits slot)
    (memory : other.storageMemory.Ordered) : other.FrontKept cursor where
  pushes := by
    rw [PushesInOrder, pushed]
    exact kept.pushes
  front := by
    rw [front]
    exact kept.front
  last := by
    rw [pushed]
    exact kept.last
  covered := by
    rw [returned]
    exact fun highest member slot above below =>
      awaits slot above (kept.covered highest member slot above below)
  memory := memory

/-- A request for more slots keeps the slots that are waited for. -/
theorem mem_foldl_fetch {known : Nat → Bool} (slots : List Nat) (http : HttpBlocks) :
    slot ∈ (slots.foldl (fun http slot => if known slot then http else http.fetch slot)
        http).inprogress ↔
      slot ∈ http.inprogress ∨ (slot ∈ slots ∧ known slot = false) := by
  induction slots generalizing http with
  | nil => simp
  | cons first slots ih =>
      rw [List.foldl_cons, ih]
      by_cases isKnown : known first = true
      · rw [if_pos isKnown]
        constructor
        · rintro (old | ⟨member, fresh⟩)
          · exact Or.inl old
          · exact Or.inr ⟨List.mem_cons_of_mem _ member, fresh⟩
        · rintro (old | ⟨member, fresh⟩)
          · exact Or.inl old
          · rcases List.mem_cons.mp member with rfl | member
            · rw [isKnown] at fresh
              cases fresh
            · exact Or.inr ⟨member, fresh⟩
      · rw [if_neg isKnown, HttpBlocks.mem_fetch, List.mem_cons]
        rw [Bool.not_eq_true] at isKnown
        constructor
        · rintro ((rfl | old) | ⟨member, fresh⟩)
          · exact Or.inr ⟨Or.inl rfl, isKnown⟩
          · exact Or.inl old
          · exact Or.inr ⟨Or.inr member, fresh⟩
        · rintro (old | ⟨rfl | member, fresh⟩)
          · exact Or.inl (Or.inr old)
          · exact Or.inl (Or.inl rfl)
          · exact Or.inr ⟨member, fresh⟩

/-- The writer waits for every slot of the gap. -/
theorem fetchGap_awaits (highest : Nat) : (self.fetchGap highest).Awaits slot ↔
    self.Awaits slot ∨ (self.nextConfirmedSlot ≤ slot ∧ slot < highest) := by
  have inside : slot ∈ List.range' self.nextConfirmedSlot (highest - self.nextConfirmedSlot) ↔
      self.nextConfirmedSlot ≤ slot ∧ slot < highest := by
    rw [List.mem_range'_1]
    omega
  unfold Awaits fetchGap
  rw [mem_foldl_fetch, inside]
  dsimp only
  cases self.queuedSlotsFront.containsKey slot <;> simp

/-- The writer waits for the slot of a record. -/
theorem queueRecord_awaits (record : MemoryConfirmedBlock) : (self.queueRecord record).Awaits slot ↔
    self.Awaits slot ∨ slot = record.getSlot := by
  cases record with
  | missed number =>
      simp only [queueRecord, Awaits, HttpBlocks.mem_fetch, MemoryConfirmedBlock.getSlot]
      tauto
  | dead number =>
      simp only [queueRecord, Awaits, SortedMap.containsKey_insert, MemoryConfirmedBlock.getSlot]
      tauto
  | block number block =>
      simp only [queueRecord, Awaits, SortedMap.containsKey_insert, MemoryConfirmedBlock.getSlot]
      tauto

/-- A record changes the queue and the requests only. -/
theorem queueRecord_fields (record : MemoryConfirmedBlock) :
    (self.queueRecord record).store = self.store ∧
      (self.queueRecord record).pushed = self.pushed ∧
      (self.queueRecord record).returned = self.returned ∧
      (self.queueRecord record).storageMemory = self.storageMemory ∧
      (self.queueRecord record).catchup = self.catchup ∧
      (self.queueRecord record).nextConfirmedSlot = self.nextConfirmedSlot := by
  cases record <;> exact ⟨rfl, rfl, rfl, rfl, rfl, rfl⟩

/-- Every slot up to the record is waited for once the record is taken. -/
theorem FrontKept.takeRecord (kept : self.FrontKept cursor) (isNext : self.nextConfirmedSlot = cursor)
    (record : MemoryConfirmedBlock) :
    (self.takeRecord record).FrontKept cursor ∧
      (self.takeRecord record).catchup = self.catchup ∧
      (self.takeRecord record).nextConfirmedSlot = cursor ∧
      (self.takeRecord record).storageMemory = self.storageMemory := by
  subst isNext
  unfold WriteState.takeRecord
  dsimp only
  split
  · rename_i old
    refine ⟨⟨kept.pushes, kept.front, kept.last, ?_, kept.memory⟩, rfl, rfl, rfl⟩
    intro returned member slot above below
    rcases List.mem_append.mp member with known | fresh
    · exact kept.covered returned known slot above below
    · rw [List.mem_singleton] at fresh
      omega
  · generalize appended : ({ self with returned := self.returned ++ [record.getSlot] } : WriteState) =
      longer
    obtain ⟨store, pushed, returned, memory, catchup, next⟩ :=
      (longer.fetchGap record.getSlot).queueRecord_fields record
    subst appended
    refine ⟨⟨?_, ?_, ?_, ?_, ?_⟩, catchup, next, memory⟩
    · rw [PushesInOrder, pushed]
      exact kept.pushes
    · rw [store]
      exact kept.front
    · rw [pushed]
      exact kept.last
    · rw [returned]
      intro highest member slot above below
      rw [queueRecord_awaits, fetchGap_awaits]
      rcases List.mem_append.mp member with known | fresh
      · exact Or.inl (Or.inl (kept.covered highest known slot above below))
      · rw [List.mem_singleton.mp fresh] at below
        rcases Nat.lt_or_eq_of_le below with inside | same
        · exact Or.inl (Or.inr ⟨above, inside⟩)
        · exact Or.inr same
    · rw [memory]
      exact kept.memory

/-- The main loop puts an answer from the cursor on into the queue. -/
theorem FrontKept.routeBlock (kept : self.FrontKept self.nextConfirmedSlot) (slot : Nat)
    (block : Option BlockWithBinary) :
    (self.routeBlock slot block).FrontKept self.nextConfirmedSlot ∧
      (self.routeBlock slot block).catchup = self.catchup ∧
      (self.routeBlock slot block).nextConfirmedSlot = self.nextConfirmedSlot := by
  have frame : (self.routeBlock slot block).store = self.store ∧
      (self.routeBlock slot block).pushed = self.pushed ∧
      (self.routeBlock slot block).returned = self.returned ∧
      (self.routeBlock slot block).storageMemory = self.storageMemory ∧
      (self.routeBlock slot block).catchup = self.catchup ∧
      (self.routeBlock slot block).nextConfirmedSlot = self.nextConfirmedSlot ∧
      ∀ other, self.nextConfirmedSlot ≤ other → self.Awaits other →
        (self.routeBlock slot block).Awaits other := by
    unfold WriteState.routeBlock
    dsimp only
    split
    · refine ⟨rfl, rfl, rfl, rfl, rfl, rfl, fun other _ awaited => ?_⟩
      simp only [Awaits, SortedMap.containsKey_insert, HttpBlocks.mem_complete] at awaited ⊢
      tauto
    · have kept : ∀ other, self.nextConfirmedSlot ≤ other → self.Awaits other →
          self.queuedSlotsFront.containsKey other = true ∨
            other ∈ (self.http.complete slot).inprogress := by
        intro other above awaited
        rw [HttpBlocks.mem_complete]
        refine awaited.imp_right fun running => ⟨running, ?_⟩
        omega
      split
      · split
        · exact ⟨rfl, rfl, rfl, rfl, rfl, rfl, kept⟩
        · exact ⟨rfl, rfl, rfl, rfl, rfl, rfl, kept⟩
      · exact ⟨rfl, rfl, rfl, rfl, rfl, rfl, kept⟩
  obtain ⟨store, pushed, returned, memory, catchup, next, awaits⟩ := frame
  exact ⟨kept.congr pushed (by rw [store]) returned awaits (by rw [memory]; exact kept.memory),
    catchup, next⟩

/-- The catch-up puts an answer from its cursor on into the queue. -/
theorem FrontKept.routeCatchup (kept : self.FrontKept cursor) (slot : Nat)
    (block : Option BlockWithBinary) : (self.routeCatchup cursor slot block).FrontKept cursor := by
  unfold WriteState.routeCatchup
  dsimp only
  split
  · refine kept.congr rfl rfl rfl (fun other _ awaited => ?_) kept.memory
    simp only [Awaits, SortedMap.containsKey_insert, HttpBlocks.mem_complete] at awaited ⊢
    tauto
  · refine kept.congr rfl rfl rfl (fun other above awaited => ?_) kept.memory
    simp only [Awaits, HttpBlocks.mem_complete] at awaited ⊢
    refine awaited.imp_right fun running => ⟨running, ?_⟩
    omega

/-- A message to the readers does not touch the ring. -/
theorem FrontKept.send (kept : self.FrontKept cursor) (message : ReadWriteSyncMessage) :
    WriteState.FrontKept cursor { self with
      store := { self.store with blocks := self.store.blocks.send message } } :=
  kept.congr rfl rfl rfl (fun _ _ awaited => awaited) kept.memory

theorem FrontKept.stopped {reason : WriteStop} (kept : self.FrontKept cursor)
    (ends : reason ≠ .endless)
    (validSlot : ∀ slot expected, reason ≠ .storage (.pushFrontInvalidSlot slot expected)) :
    self.FrontStopped reason := ⟨kept.pushes, ends, validSlot⟩

end WriteState

namespace Write

open Command WriteState

variable {self : WriteState} {cursor slot : Nat}

section rules

variable {A : Type} {post : A → WriteState → Prop} {stop : WriteStop → WriteState → Prop}

/-- An operation on the store continues or stops with the new store. -/
theorem wp_onStore {change : WriteState → Except StorageError A × Store}
    (success : ∀ value store, change self = (.ok value, store) → post value { self with store })
    (failure : ∀ error store, change self = (.error error, store) →
      stop (.storage error) { self with store }) :
    wp (onStore change) post stop self := by
  simp only [onStore, wp_bind, wp_get, wp_modify]
  rcases changed : change self with ⟨_ | _, store⟩
  · exact failure _ _ changed
  · exact success _ _ changed

theorem wp_checked {result : Except StorageError A}
    (success : ∀ value, result = .ok value → post value self)
    (failure : ∀ error, result = .error error → stop (.storage error) self) :
    wp (checked result) post stop self := by
  cases result with
  | error error => exact failure error rfl
  | ok value => exact success value rfl

theorem wp_onMemory {change : StorageMemory → Except MemoryPanic StorageMemory}
    {post : Unit → WriteState → Prop}
    (success : ∀ storageMemory, change self.storageMemory = .ok storageMemory →
      post () { self with storageMemory })
    (failure : ∀ panic, stop (.memory panic) self) : wp (onMemory change) post stop self := by
  simp only [onMemory, wp_bind, wp_get]
  cases changed : change self.storageMemory with
  | error panic => exact failure panic
  | ok storageMemory => exact success storageMemory changed

/-- The answer of the node changes nothing but the messages to the readers. -/
theorem wp_loadConfirmedSlot {post : Nat → WriteState → Prop} {slots : NodeSlots}
    (success : ∀ confirmed after, after = self ∨ (∃ message, after = { self with
      store := { self.store with blocks := self.store.blocks.send message } }) →
      post confirmed after)
    (failure : stop .requestFailed self) : wp (loadConfirmedSlot slots) post stop self := by
  unfold loadConfirmedSlot
  split
  · exact failure
  · simp only [wp_bind, wp_get]
    split
    · exact success _ _ (Or.inr ⟨_, rfl⟩)
    · exact success _ _ (Or.inl rfl)

end rules

/-- The arithmetic of the slots stops the writer without an error about a slot. -/
theorem stopped_of_inner {error : StorageError} (kept : self.FrontKept cursor)
    (inner : ¬ error.InvalidFrontSlot) : self.FrontStopped (.storage error) := by
  refine kept.stopped (by simp) ?_
  rintro slot expected ⟨⟩
  exact inner ⟨slot, expected, rfl⟩

/-- A push at the cursor moves the cursor up by one. -/
theorem pushFront_kept (kept : self.FrontKept slot) (block : Option BlockWithBinary)
    (queued : self.queuedSlotsFront.get slot = some block) :
    wp (pushFront slot block) (fun _ after => after.FrontKept (slot + 1) ∧
      after.catchup = self.catchup ∧ after.nextConfirmedSlot = self.nextConfirmedSlot ∧
      after.queuedSlotsFront.size < self.queuedSlotsFront.size) (fun reason after =>
        after.FrontStopped reason) self := by
  have next : ∀ front ∈ self.store.blocks.getFrontSlot, slot = front + 1 := kept.front
  have pushes : (self.pushed ++ [(⟨self.store.blocks.getFrontSlot, slot⟩ : FrontPush)]).IsChain
        (fun first second => second.slot = first.slot + 1) ∧
      ∀ push ∈ self.pushed ++ [(⟨self.store.blocks.getFrontSlot, slot⟩ : FrontPush)],
        ∀ front ∈ push.front, push.slot = front + 1 := by
    constructor
    · refine List.isChain_append.mpr ⟨kept.pushes.1, List.isChain_singleton _, ?_⟩
      rintro last isLast first ⟨⟩
      exact kept.last last isLast
    · intro push member
      rcases List.mem_append.mp member with old | new
      · exact kept.pushes.2 push old
      · rw [List.mem_singleton.mp new]
        exact next
  simp only [pushFront, send, wp_bind, wp_modify]
  refine wp_onStore ?_ ?_
  · intro _ store stored
    refine ⟨⟨pushes, ?_, ?_, ?_, kept.memory⟩, rfl, rfl, SortedMap.size_erase_lt queued⟩
    · rw [Store.pushBlockFront_getFrontSlot stored]
      rintro front ⟨⟩
      rfl
    · dsimp only
      rw [List.getLast?_concat]
      rintro push ⟨⟩
      rfl
    · intro returned member other above below
      have awaited := kept.covered returned member other (by omega) below
      simp only [Awaits, SortedMap.containsKey_erase] at awaited ⊢
      exact awaited.imp_left fun queued => ⟨by omega, queued⟩
  · intro error store failed
    refine ⟨pushes, by simp, ?_⟩
    have avoids := Store.pushBlockFront_avoids
      { self.store with blocks := self.store.blocks.send (.blockConfirmed slot block) }
      (self.turns slot) block next
    rintro bad expected ⟨⟩
    rw [failed] at avoids
    exact avoids _ rfl ⟨bad, expected, rfl⟩

/-- The loop over the queue moves the cursor and loses no slot from it on. -/
theorem pushQueued_kept (kept : self.FrontKept slot) :
    wp (pushQueued slot) (fun next after => after.FrontKept next ∧
      after.catchup = self.catchup ∧ after.nextConfirmedSlot = self.nextConfirmedSlot)
      (fun reason after => after.FrontStopped reason) self := by
  simp only [pushQueued, wp_bind, wp_get]
  refine wp_loop (fun next after => after.FrontKept next ∧ after.catchup = self.catchup ∧
    after.nextConfirmedSlot = self.nextConfirmedSlot) (fun _ after => after.queuedSlotsFront.size)
    ?_ (Nat.lt_succ_self _) ⟨kept, rfl, rfl⟩
  rintro next before ⟨kept, catchup, confirmed⟩
  simp only [pushNext, wp_bind, wp_get]
  cases queued : before.queuedSlotsFront.get next with
  | none => exact ⟨kept, catchup, confirmed⟩
  | some block =>
      simp only [wp_bind]
      refine wp_mono (pushFront_kept kept block queued) ?_ fun _ _ stopped => stopped
      rintro _ after ⟨kept', catchup', confirmed', smaller⟩
      refine wp_checked ?_ ?_
      · intro value known
        rw [addOne_eq_ok known]
        exact ⟨⟨kept', catchup'.trans catchup, confirmed'.trans confirmed⟩, smaller⟩
      · intro error failed
        exact stopped_of_inner kept' ((addOne_avoids next).validFrontSlot error failed)

/-- The main loop has no catch-up running and keeps its cursor. -/
def MainKept (self : WriteState) : Prop :=
  self.catchup = none ∧ self.FrontKept self.nextConfirmedSlot

/-- The part of the state that the front invariant reads. -/
def frontPart (self : WriteState) :=
  (self.store, self.http, self.queuedSlotsFront, self.nextConfirmedSlot, self.storageMemory,
    self.catchup, self.pushed, self.returned)

theorem MainKept.of_frontPart {other : WriteState} (main : MainKept self)
    (same : frontPart other = frontPart self) : MainKept other := by
  simp only [frontPart, Prod.mk.injEq] at same
  obtain ⟨store, http, queued, next, memory, catchup, pushed, returned⟩ := same
  refine ⟨catchup.trans main.1, ?_⟩
  rw [next]
  refine main.2.congr pushed (by rw [store]) returned (fun slot _ awaited => ?_) ?_
  · rwa [Awaits, http, queued]
  · rw [memory]
    exact main.2.memory

theorem MainKept.loopKept (main : MainKept self) : self.LoopKept := by
  rw [LoopKept, main.1]
  exact main.2

/-- Emptying the buffer covers every slot that it reports. -/
theorem takeConfirmed_kept (main : MainKept self) :
    wp takeConfirmed (fun _ after => MainKept after)
      (fun reason after => after.FrontStopped reason) self := by
  simp only [takeConfirmed, wp_bind, wp_get]
  refine wp_loop (fun _ after => MainKept after)
    (fun _ after => after.storageMemory.confirmed + 1 - after.storageMemory.genNextSlot)
    ?_ (by rw [StorageMemory.rounds]; omega) main
  rintro _ before ⟨noCatchup, kept⟩
  simp only [takeNext, wp_bind, wp_get]
  cases popped : before.storageMemory.popConfirmed with
  | error panic => exact kept.stopped (by simp) (by simp)
  | ok result =>
      obtain ⟨_ | record, memory⟩ := result
      · refine ⟨noCatchup, kept.congr rfl rfl rfl (fun _ _ awaited => awaited) ?_⟩
        rw [show memory = before.storageMemory from StorageMemory.eq_of_popConfirmed_none popped]
        exact kept.memory
      · obtain ⟨ordered, confirmed, bound, next⟩ := kept.memory.popConfirmed popped
        have popKept : WriteState.FrontKept before.nextConfirmedSlot
            { before with storageMemory := memory } :=
          kept.congr rfl rfl rfl (fun _ _ awaited => awaited) ordered
        obtain ⟨taken, catchup, cursor, same⟩ := FrontKept.takeRecord popKept rfl record
        refine ⟨⟨catchup.trans noCatchup, ?_⟩, ?_⟩
        · rw [cursor]
          exact taken
        · simp only [same]
          omega

/-- The requests of the backfill add slots in progress. -/
theorem requestBack_kept (backfillUpto : Nat) (main : MainKept self) :
    wp (requestBack backfillUpto) (fun _ after => MainKept after)
      (fun reason after => after.FrontStopped reason) self := by
  simp only [requestBack, wp_bind, wp_get]
  refine wp_loop (fun _ after => MainKept after) (fun next _ => next + 1 - backfillUpto)
    ?_ (by omega) main
  rintro next before ⟨noCatchup, kept⟩
  simp only [requestNextBack, wp_bind, wp_get]
  split
  · rename_i request
    simp only [Bool.and_eq_true, decide_eq_true_eq] at request
    have fetched : WriteState.FrontKept before.nextConfirmedSlot
        { before with http := before.http.fetch next } := by
      refine kept.congr rfl rfl rfl (fun other _ awaited => ?_) kept.memory
      simp only [Awaits, HttpBlocks.mem_fetch] at awaited ⊢
      tauto
    simp only [wp_bind, wp_modify]
    refine wp_checked ?_ ?_
    · intro value known
      have lower := subOne_eq_ok known
      exact ⟨⟨noCatchup, fetched⟩, by omega⟩
    · intro error failed
      exact stopped_of_inner fetched ((subOne_avoids next).validFrontSlot error failed)
  · exact ⟨noCatchup, kept.congr rfl rfl rfl (fun _ _ awaited => awaited) kept.memory⟩

/-- A push at the back leaves the front side as it is. -/
theorem pushBack_kept (slot : Nat) (block : Option BlockWithBinary) (main : MainKept self) :
    wp (pushBack slot block) (fun _ after => MainKept after)
      (fun reason after => after.FrontStopped reason) self := by
  obtain ⟨noCatchup, kept⟩ := main
  simp only [pushBack, wp_bind, wp_get]
  split
  · rename_i borders
    obtain ⟨back, isBack, -⟩ := Option.bind_eq_some_iff.mp borders
    obtain ⟨front, isFront⟩ := StoredBlocksWrite.getFrontSlot_of_getBackSlot isBack
    refine wp_onStore ?_ ?_
    · intro stored store pushed
      refine ⟨noCatchup, kept.congr rfl ?_ rfl (fun _ _ awaited => awaited) kept.memory⟩
      rw [isFront]
      exact Store.pushBlockBack_getFrontSlot isFront pushed
    · intro error store failed
      have avoids := self.store.pushBlockBack_avoids (self.turns slot) slot block
      rw [failed] at avoids
      refine ⟨kept.pushes, by simp, ?_⟩
      rintro bad expected ⟨⟩
      exact avoids _ rfl ⟨bad, expected, rfl⟩
  · exact ⟨noCatchup, kept⟩

/-- The end of a backfill step leaves the front side as it is. -/
theorem storeBack_kept (backfillUpto slot : Nat) (block : Option BlockWithBinary)
    (main : MainKept self) : wp (storeBack backfillUpto slot block) (fun _ after => MainKept after)
      (fun reason after => after.FrontStopped reason) self := by
  simp only [storeBack, wp_bind, wp_modify]
  refine wp_checked ?_ ?_
  · intro previous _
    refine wp_mono (pushBack_kept slot block (main.of_frontPart rfl)) ?_
      fun _ _ stopped => stopped
    intro added after kept
    split
    · exact kept.of_frontPart rfl
    · exact kept
  · intro error failed
    exact ⟨main.2.pushes, by simp,
      (stopped_of_inner main.2 ((subOne_avoids slot).validFrontSlot error failed)).validSlot⟩

/-- The backfill leaves the front side as it is. -/
theorem backfill_kept (main : MainKept self) : wp backfill (fun _ after => MainKept after)
    (fun reason after => after.FrontStopped reason) self := by
  simp only [backfill, wp_bind, wp_get]
  split
  · rename_i backfillUpto slot _ _
    have started : MainKept (if self.nextBackRequestSlot = maxSlot then
        { self with nextBackRequestSlot := slot } else self) := by
      split
      · exact main.of_frontPart rfl
      · exact main
    simp only [continueBackfill, startRequests, wp_bind, wp_modify]
    refine wp_mono (requestBack_kept backfillUpto started) ?_ fun _ _ stopped => stopped
    intro _ after kept
    rw [wp_get]
    split
    · exact kept
    · exact storeBack_kept backfillUpto slot _ kept
  · simp only [startBackfill, wp_modify]
    split
    · exact main
    · split
      · exact main.of_frontPart rfl
      · exact main.of_frontPart rfl
  · exact main

/-- An iteration of the main loop keeps the front invariant. -/
theorem finishIteration_kept (main : MainKept self) :
    wp finishIteration (fun _ after => MainKept after)
      (fun reason after => after.FrontStopped reason) self := by
  simp only [finishIteration, wp_bind, wp_get]
  refine wp_mono (pushQueued_kept main.2) ?_ fun _ _ stopped => stopped
  rintro next after ⟨kept, catchup, -⟩
  rw [wp_modify]
  have moved : MainKept { after with nextConfirmedSlot := next } :=
    ⟨catchup.trans main.1, kept.congr rfl rfl rfl (fun _ _ awaited => awaited) kept.memory⟩
  split
  · exact moved
  · exact backfill_kept moved

theorem finishMessage_kept (main : MainKept self) :
    wp finishMessage (fun _ after => MainKept after)
      (fun reason after => after.FrontStopped reason) self := by
  simp only [finishMessage, wp_bind]
  exact wp_mono (takeConfirmed_kept main) (fun _ _ kept => finishIteration_kept kept)
    fun _ _ stopped => stopped

/-- A stream can start here: the cursor after the stored slots keeps the invariant. -/
structure Startable (writer : WriteState) : Prop where
  noCatchup : writer.catchup = none
  stored : ∀ slot ∈ writer.store.blocks.getFrontSlot, writer.FrontKept (slot + 1)
  empty : writer.store.blocks.getFrontSlot = none → writer.FrontKept writer.nextConfirmedSlot

theorem MainKept.startable (main : MainKept self) : Startable self where
  noCatchup := main.1
  stored := by
    intro slot isFront
    rw [← main.2.front slot isFront]
    exact main.2
  empty := fun _ => main.2

/-- A new buffer has reported nothing. -/
theorem reset_kept (kept : self.FrontKept cursor) : WriteState.FrontKept cursor
    { self with storageMemory := StorageMemory.default, returned := [] } where
  pushes := kept.pushes
  front := kept.front
  last := kept.last
  covered := by simp
  memory := StorageMemory.ordered_default

/-- The start of a stream sets the cursor after the stored slots. -/
theorem start_kept (startable : Startable self) : wp start (fun _ after => MainKept after)
    (fun reason after => after.FrontStopped reason) self := by
  simp only [start, wp_bind, wp_modify, wp_get]
  cases isFront : self.store.blocks.getFrontSlot with
  | none => exact ⟨startable.noCatchup, reset_kept (startable.empty isFront)⟩
  | some slot =>
      have kept := reset_kept (startable.stored slot isFront)
      simp only [wp_bind]
      refine wp_checked ?_ ?_
      · intro next known
        rw [wp_modify, addOne_eq_ok known]
        exact ⟨startable.noCatchup,
          kept.congr rfl rfl rfl (fun _ _ awaited => awaited) kept.memory⟩
      · intro error failed
        exact stopped_of_inner kept ((addOne_avoids slot).validFrontSlot error failed)

/-- The catch-up starts with its cursor after the stored slots. -/
theorem startCatchup_kept (slots : NodeSlots) (kept : self.FrontKept (slot + 1)) :
    wp (startCatchup slots slot) (fun _ after => after.LoopKept)
      (fun reason after => after.FrontStopped reason) self := by
  simp only [startCatchup, wp_bind]
  refine wp_loadConfirmedSlot ?_ (kept.stopped (by simp) (by simp))
  intro confirmed after answered
  have loaded : after.FrontKept (slot + 1) := by
    rcases answered with rfl | ⟨message, rfl⟩
    · exact kept
    · exact kept.send message
  have moved : WriteState.FrontKept (slot + 1) { after with nextConfirmedSlot := confirmed } :=
    loaded.congr rfl rfl rfl (fun _ _ awaited => awaited) loaded.memory
  rw [wp_modify]
  refine wp_checked ?_ ?_
  · intro next known
    rw [addOne_eq_ok known]
    split
    · exact moved.congr rfl rfl rfl (fun _ _ awaited => awaited) moved.memory
    · exact moved.stopped (by simp) (by simp)
  · intro error failed
    exact stopped_of_inner moved ((addOne_avoids slot).validFrontSlot error failed)

theorem catchupRequired_kept (slots : NodeSlots) (startable : Startable self) :
    wp (catchupRequired slots) (fun _ after => after.LoopKept)
      (fun reason after => after.FrontStopped reason) self := by
  simp only [catchupRequired, wp_bind, wp_get]
  cases isFront : self.store.blocks.getFrontSlot with
  | none =>
      exact wp_mono (finishMessage_kept ⟨startable.noCatchup, startable.empty isFront⟩)
        (fun _ _ kept => kept.loopKept) fun _ _ stopped => stopped
  | some slot => exact startCatchup_kept slots (startable.stored slot isFront)

/-- A change of the buffer keeps the front invariant. -/
theorem onMemory_kept {change : StorageMemory → Except MemoryPanic StorageMemory}
    (ordered : ∀ memory after, memory.Ordered → change memory = .ok after → after.Ordered)
    (main : MainKept self) : wp (onMemory change) (fun _ after => MainKept after)
      (fun reason after => after.FrontStopped reason) self := by
  refine wp_onMemory ?_ fun panic => main.2.stopped (by simp) (by simp)
  intro memory changed
  exact ⟨main.1, main.2.congr rfl rfl rfl (fun _ _ awaited => awaited)
    (ordered _ memory main.2.memory changed)⟩

/-- A message to the readers keeps the front invariant. -/
theorem send_kept (message : ReadWriteSyncMessage) (main : MainKept self) :
    wp (send message) (fun _ after => MainKept after)
      (fun reason after => after.FrontStopped reason) self := ⟨main.1, main.2.send message⟩

theorem slotStatus_kept (slot : Nat) (status : StreamSourceSlotStatus) (main : MainKept self) :
    wp (slotStatus slot status) (fun _ after => MainKept after)
      (fun reason after => after.FrontStopped reason) self := by
  cases status with
  | dead =>
      simp only [slotStatus, wp_bind]
      exact wp_mono (onMemory_kept (fun _ _ ordered marked => ordered.setDead marked) main)
        (fun _ _ kept => send_kept _ kept) fun _ _ stopped => stopped
  | confirmed => exact onMemory_kept (fun _ _ ordered marked => ordered.setConfirmed marked) main
  | finalized => exact send_kept _ main

/-- The start of a stream and the request for a catch-up need no invariant of the loop. -/
theorem startMessage_kept (slots : NodeSlots) (startable : Startable self) :
    wp (message .start slots) (fun _ after => after.LoopKept)
      (fun reason after => after.FrontStopped reason) self := by
  simp only [message, wp_bind]
  refine wp_mono (start_kept startable) ?_ fun _ _ stopped => stopped
  exact fun _ _ kept => wp_mono (finishMessage_kept kept) (fun _ _ kept => kept.loopKept)
    fun _ _ stopped => stopped

/-- Every message keeps the front invariant. -/
theorem message_kept (received : StreamSourceMessage) (slots : NodeSlots) (main : MainKept self) :
    wp (message received slots) (fun _ after => after.LoopKept)
      (fun reason after => after.FrontStopped reason) self := by
  have finish {after : WriteState} (kept : MainKept after) :
      wp finishMessage (fun _ after => after.LoopKept)
        (fun reason after => after.FrontStopped reason) after :=
    wp_mono (finishMessage_kept kept) (fun _ _ kept => kept.loopKept) fun _ _ stopped => stopped
  cases received with
  | start => exact startMessage_kept slots main.startable
  | catchupRequired => exact catchupRequired_kept slots main.startable
  | block slot block =>
      simp only [message, wp_bind]
      refine wp_mono (onMemory_kept (fun _ _ ordered added => ordered.addProcessed added) main) ?_
        fun _ _ stopped => stopped
      exact fun _ _ kept => wp_mono (send_kept _ kept) (fun _ _ kept => finish kept)
        fun _ _ stopped => stopped
  | slotStatus slot status =>
      simp only [message, wp_bind]
      exact wp_mono (slotStatus_kept slot status main) (fun _ _ kept => finish kept)
        fun _ _ stopped => stopped

/-- The requests of the catch-up add slots in progress. -/
theorem requestFront_kept (kept : self.FrontKept cursor) :
    wp (requestFront slot) (fun _ after => after.FrontKept cursor)
      (fun reason after => after.FrontStopped reason) self := by
  simp only [requestFront, wp_bind, wp_get]
  refine wp_loop (fun _ after => after.FrontKept cursor ∧
      after.nextConfirmedSlot = self.nextConfirmedSlot)
    (fun next _ => self.nextConfirmedSlot + 1 - next) ?_ (by omega) ⟨kept, rfl⟩
  rintro next before ⟨kept, same⟩
  simp only [requestNextFront, wp_bind, wp_get]
  split
  · rename_i request
    simp only [Bool.and_eq_true, decide_eq_true_eq, same] at request
    have fetched : WriteState.FrontKept cursor { before with http := before.http.fetch next } := by
      refine kept.congr rfl rfl rfl (fun other _ awaited => ?_) kept.memory
      simp only [Awaits, HttpBlocks.mem_fetch] at awaited ⊢
      tauto
    simp only [wp_bind, wp_modify]
    refine wp_checked ?_ ?_
    · intro value known
      have higher := addOne_eq_ok known
      exact ⟨⟨fetched, same⟩, by omega⟩
    · intro error failed
      exact stopped_of_inner fetched ((addOne_avoids next).validFrontSlot error failed)
  · exact kept

theorem reloadConfirmed_kept (reload : Option NodeSlots) (kept : self.FrontKept cursor) :
    wp (reloadConfirmed reload) (fun _ after => after.FrontKept cursor)
      (fun reason after => after.FrontStopped reason) self := by
  cases reload with
  | none => exact kept
  | some slots =>
      simp only [reloadConfirmed, wp_bind]
      refine wp_loadConfirmedSlot ?_ (kept.stopped (by simp) (by simp))
      rintro confirmed after (rfl | ⟨message, rfl⟩)
      · exact kept.congr rfl rfl rfl (fun _ _ awaited => awaited) kept.memory
      · exact (kept.send message).congr rfl rfl rfl (fun _ _ awaited => awaited) kept.memory

/-- A round of the catch-up keeps its cursor or hands it to the main loop. -/
theorem catchupRound_kept (catchup : Catchup) (reload : Option NodeSlots)
    (kept : self.FrontKept catchup.nextDatabaseSlot) :
    wp (catchupRound catchup reload) (fun _ after => after.LoopKept)
      (fun reason after => after.FrontStopped reason) self := by
  simp only [catchupRound, wp_bind]
  refine wp_mono (reloadConfirmed_kept reload kept) ?_ fun _ _ stopped => stopped
  intro _ loaded kept
  refine wp_checked ?_ ?_
  · intro near _
    rw [wp_get]
    split
    · have moved : MainKept { loaded with
          nextConfirmedSlot := catchup.nextDatabaseSlot, catchup := none } :=
        ⟨rfl, kept.congr rfl rfl rfl (fun _ _ awaited => awaited) kept.memory⟩
      simp only [wp_bind, wp_modify]
      exact wp_mono (finishMessage_kept moved) (fun _ _ kept => kept.loopKept)
        fun _ _ stopped => stopped
    · simp only [wp_bind]
      refine wp_mono (requestFront_kept kept) ?_ fun _ _ stopped => stopped
      intro next after kept
      exact kept.congr rfl rfl rfl (fun _ _ awaited => awaited) kept.memory
  · intro error failed
    exact stopped_of_inner kept
      ((Avoids.bind (addOne_avoids _) addOne_avoids).validFrontSlot error failed)

/-- An answer in the catch-up moves its cursor over the blocks that it stores. -/
theorem catchupBlock_kept (catchup : Catchup) (slot : Nat) (block : Option BlockWithBinary)
    (kept : self.FrontKept catchup.nextDatabaseSlot) :
    wp (catchupBlock catchup slot block) (fun _ after => after.LoopKept)
      (fun reason after => after.FrontStopped reason) self := by
  simp only [catchupBlock, wp_bind, wp_modify]
  refine wp_mono (pushQueued_kept (kept.routeCatchup slot block)) ?_ fun _ _ stopped => stopped
  rintro next after ⟨kept, -, -⟩
  exact kept.congr rfl rfl rfl (fun _ _ awaited => awaited) kept.memory

/-- Every event of the main loop keeps the front invariant. -/
theorem mainEvent_kept (event : WriteEvent) (main : MainKept self) :
    wp (mainEvent self event) (fun _ after => after.LoopKept)
      (fun reason after => after.FrontStopped reason) self := by
  have finish {after : WriteState} (kept : MainKept after) :
      wp finishIteration (fun _ after => after.LoopKept)
        (fun reason after => after.FrontStopped reason) after :=
    wp_mono (finishIteration_kept kept) (fun _ _ kept => kept.loopKept) fun _ _ stopped => stopped
  cases event with
  | httpBlock slot block =>
      simp only [mainEvent]
      split
      · simp only [wp_bind, wp_modify]
        obtain ⟨kept, catchup, next⟩ := main.2.routeBlock slot block
        exact finish ⟨catchup.trans main.1, by rwa [next]⟩
      · exact main.loopKept
  | httpFailed slot =>
      simp only [mainEvent]
      split
      · exact main.2.stopped (by simp) (by simp)
      · exact main.loopKept
  | httpClosed slot =>
      simp only [mainEvent]
      split
      · exact main.2.stopped (by simp) (by simp)
      · exact main.loopKept
  | message received slots => exact message_kept received slots main
  | streamClosed => exact main.2.stopped (by simp) (by simp)
  | backSlotReady =>
      simp only [mainEvent]
      split
      · split
        · exact finish main
        · exact main.loopKept
      · exact main.loopKept
  | shutdown => exact main.2.stopped (by simp) (by simp)
  | catchupRound reload => exact main.loopKept

/-- Every event of the catch-up loop keeps the front invariant. -/
theorem catchupEvent_kept {catchup : Catchup} (event : WriteEvent)
    (running : self.catchup = some catchup) (kept : self.FrontKept catchup.nextDatabaseSlot) :
    wp (catchupEvent self catchup event) (fun _ after => after.LoopKept)
      (fun reason after => after.FrontStopped reason) self := by
  have unchanged : self.LoopKept := by
    rw [LoopKept, running]
    exact kept
  cases event with
  | httpBlock slot block =>
      simp only [catchupEvent]
      split
      · exact catchupBlock_kept catchup slot block kept
      · exact unchanged
  | httpFailed slot =>
      simp only [catchupEvent]
      split
      · exact kept.stopped (by simp) (by simp)
      · exact unchanged
  | httpClosed slot =>
      simp only [catchupEvent]
      split
      · exact kept.stopped (by simp) (by simp)
      · exact unchanged
  | catchupRound reload =>
      simp only [catchupEvent]
      split
      · exact unchanged
      · exact catchupRound_kept catchup reload kept
  | message received slots => exact unchanged
  | streamClosed => exact unchanged
  | backSlotReady => exact unchanged
  | shutdown => exact unchanged

/-- Every event keeps the front invariant. -/
theorem step_kept (event : WriteEvent) (kept : self.LoopKept) :
    wp (step event) (fun _ after => after.LoopKept)
      (fun reason after => after.FrontStopped reason) self := by
  simp only [step, wp_bind, wp_get]
  cases running : self.catchup with
  | none =>
      rw [LoopKept, running] at kept
      exact mainEvent_kept event ⟨running, kept⟩
  | some catchup =>
      rw [LoopKept, running] at kept
      exact catchupEvent_kept event running kept

/-- Before the first message the writer has made no request and taken no report. -/
structure Ready (writer : WriteState) : Prop where
  noCatchup : writer.catchup = none
  pushed : writer.pushed = []
  returned : writer.returned = []
  requests : writer.http.inprogress = []
  noBackSlot : writer.nextBackSlot = none
  memory : writer.storageMemory.Ordered

theorem Ready.pushes (ready : Ready self) : self.PushesInOrder := by
  rw [PushesInOrder, ready.pushed]
  simp

theorem Ready.kept (ready : Ready self)
    (front : ∀ slot ∈ self.store.blocks.getFrontSlot, cursor = slot + 1) :
    self.FrontKept cursor where
  pushes := ready.pushes
  front := front
  last := by simp [ready.pushed]
  covered := by simp [ready.returned]
  memory := ready.memory

theorem Ready.startable (ready : Ready self) : Startable self where
  noCatchup := ready.noCatchup
  stored := by
    intro slot isFront
    refine ready.kept ?_
    rw [Option.mem_def.mp isFront]
    rintro _ ⟨⟩
    rfl
  empty := by
    intro noFront
    refine ready.kept ?_
    simp [noFront]

theorem Ready.stopped {reason : WriteStop} (ready : Ready self) (ends : reason ≠ .endless)
    (validSlot : ∀ slot expected, reason ≠ .storage (.pushFrontInvalidSlot slot expected)) :
    self.FrontStopped reason := ⟨ready.pushes, ends, validSlot⟩

/-- The store and the cursor of a ready writer are free. -/
theorem Ready.congr (ready : Ready self) (store : Store) (nextConfirmedSlot : Nat) :
    Ready { self with store, nextConfirmedSlot } :=
  ⟨ready.noCatchup, ready.pushed, ready.returned, ready.requests, ready.noBackSlot, ready.memory⟩

/-- The removal of slots before the loop keeps the writer ready. -/
theorem popSlots_ready {getSlot : StoredBlocksWrite → Option Nat}
    {pop : Store → Except StorageError Unit × Store}
    (avoids : ∀ store, Avoids StorageError.Outer (pop store).1) (count : Nat) (ready : Ready self) :
    wp (popSlots getSlot pop count) (fun _ after => Ready after)
      (fun reason after => after.FrontStopped reason) self := by
  induction count generalizing self with
  | zero => exact ready
  | succ count ih =>
      simp only [popSlots, wp_bind, wp_get]
      split
      · exact ready
      · simp only [wp_bind]
        refine wp_onStore ?_ ?_
        · intro _ store _
          exact ih (ready.congr store self.nextConfirmedSlot)
        · intro error store failed
          have inner := (avoids self.store).validFrontSlot
          rw [failed] at inner
          refine Ready.stopped (ready.congr store self.nextConfirmedSlot) (by simp) ?_
          rintro slot expected ⟨⟩
          exact inner _ rfl ⟨slot, expected, rfl⟩

theorem checkBackfill_ready (firstAvailableBlock : Option Nat) (ready : Ready self) :
    wp (checkBackfill firstAvailableBlock) (fun _ after => Ready after)
      (fun reason after => after.FrontStopped reason) self := by
  simp only [checkBackfill, wp_bind, wp_get]
  split
  · exact ready
  · exact ready.stopped (by simp) (by simp)
  · split
    · exact ready
    · exact ready.stopped (by simp) (by simp)

/-- The writer is ready when its loop begins. -/
theorem prepare_ready (popSlotsBack popSlotsFront firstAvailableBlock : Option Nat)
    (slots : NodeSlots) (ready : Ready self) :
    wp (prepare popSlotsBack popSlotsFront firstAvailableBlock slots) (fun _ after => Ready after)
      (fun reason after => after.FrontStopped reason) self := by
  simp only [prepare, wp_bind]
  refine wp_mono (popSlots_ready (fun store => store.popBlock_avoids .back) _ ready) ?_
    fun _ _ stopped => stopped
  intro _ afterBack ready
  refine wp_mono (popSlots_ready (fun store => store.popBlock_avoids .front) _ ready) ?_
    fun _ _ stopped => stopped
  intro _ afterFront ready
  refine wp_mono (checkBackfill_ready firstAvailableBlock ready) ?_ fun _ _ stopped => stopped
  intro _ afterCheck ready
  refine wp_loadConfirmedSlot ?_ (ready.stopped (by simp) (by simp))
  rintro confirmed after (rfl | ⟨message, rfl⟩)
  · exact ready.congr _ confirmed
  · exact ready.congr _ confirmed

/-- The first message is the start of a stream or the request for a catch-up. -/
def StreamStarts : List WriteEvent → Prop
  | [] => True
  | .message message _ :: _ => message = .start ∨ message = .catchupRequired
  | _ :: events => StreamStarts events

/-- The loop keeps the front invariant from its first message on. -/
theorem runAll_kept (events : List WriteEvent) (kept : self.LoopKept) :
    wp (runAll step events) (fun _ after => after.LoopKept)
      (fun reason after => after.FrontStopped reason) self := by
  induction events generalizing self with
  | nil => exact kept
  | cons event events ih =>
      simp only [runAll, wp_bind]
      exact wp_mono (step_kept event kept) (fun _ _ kept => ih kept) fun _ _ stopped => stopped

/-- Before its first message the writer takes no other event, or it stops. -/
theorem step_ready (event : WriteEvent) (other : ∀ message slots, event ≠ .message message slots)
    (ready : Ready self) : wp (step event) (fun _ after => Ready after)
      (fun reason after => after.FrontStopped reason) self := by
  simp only [step, wp_bind, wp_get, ready.noCatchup]
  cases event with
  | httpBlock slot block =>
      simp only [mainEvent, ready.requests, List.not_mem_nil, if_false, wp_pure]
      exact ready
  | httpFailed slot =>
      simp only [mainEvent, ready.requests, List.not_mem_nil, if_false, wp_pure]
      exact ready
  | httpClosed slot =>
      simp only [mainEvent, ready.requests, List.not_mem_nil, if_false, wp_pure]
      exact ready
  | message message slots => exact absurd rfl (other message slots)
  | streamClosed => exact ready.stopped (by simp) (by simp)
  | backSlotReady =>
      simp only [mainEvent, ready.noBackSlot, wp_pure]
      exact ready
  | shutdown => exact ready.stopped (by simp) (by simp)
  | catchupRound reload => exact ready

/-- The first message starts the loop. -/
theorem step_starts {message : StreamSourceMessage} (slots : NodeSlots)
    (starts : message = .start ∨ message = .catchupRequired) (ready : Ready self) :
    wp (step (.message message slots)) (fun _ after => after.LoopKept)
      (fun reason after => after.FrontStopped reason) self := by
  simp only [step, wp_bind, wp_get, ready.noCatchup, mainEvent]
  rcases starts with rfl | rfl
  · exact startMessage_kept slots ready.startable
  · exact catchupRequired_kept slots ready.startable

/-- The loop keeps the front invariant in every run that begins with a stream. -/
theorem runAll_ready (events : List WriteEvent) (starts : StreamStarts events)
    (ready : Ready self) :
    wp (runAll step events) (fun _ after => Ready after ∨ after.LoopKept)
      (fun reason after => after.FrontStopped reason) self := by
  induction events generalizing self with
  | nil => exact Or.inl ready
  | cons event events ih =>
      simp only [runAll, wp_bind]
      by_cases isMessage : ∃ message slots, event = .message message slots
      · obtain ⟨message, slots, rfl⟩ := isMessage
        refine wp_mono (step_starts slots starts ready) ?_ fun _ _ stopped => stopped
        exact fun _ _ kept => wp_mono (runAll_kept events kept) (fun _ _ kept => Or.inr kept)
          fun _ _ stopped => stopped
      · have other : ∀ message slots, event ≠ .message message slots :=
          fun message slots same => isMessage ⟨message, slots, same⟩
        have later : StreamStarts events := by
          cases event with
          | message message slots => exact absurd rfl (other message slots)
          | _ => exact starts
        exact wp_mono (step_ready event other ready) (fun _ _ ready => ih later ready)
          fun _ _ stopped => stopped

theorem ready_new (store : Store) (turns : Nat → Nat) (concurrency : Nat)
    (backfillUpto : Option Nat) : Ready (WriteState.new store turns concurrency backfillUpto) :=
  ⟨rfl, rfl, rfl, rfl, rfl, StorageMemory.ordered_default⟩

/-- In every run that begins with a stream, the pushes follow each other and the highest stored
slot, no push is refused for its slot, every loop ends, and between two iterations of the main loop
every slot from the cursor up to a reported one is queued or requested. -/
theorem start2_storesInOrder (store : Store) (turns : Nat → Nat) (concurrency : Nat)
    (backfillUpto popSlotsBack popSlotsFront firstAvailableBlock : Option Nat) (slots : NodeSlots)
    (events : List WriteEvent) (starts : StreamStarts events) :
    let outcome := (start2 popSlotsBack popSlotsFront firstAvailableBlock slots events).run.run
      (WriteState.new store turns concurrency backfillUpto)
    (outcome.2.pushed.IsChain fun first second => second.slot = first.slot + 1) ∧
      (∀ push ∈ outcome.2.pushed, ∀ front ∈ push.front, push.slot = front + 1) ∧
      (∀ slot expected, outcome.1 ≠ .error (.storage (.pushFrontInvalidSlot slot expected))) ∧
      outcome.1 ≠ .error .endless ∧
      (outcome.1 = .ok () → outcome.2.catchup = none →
        ∀ returned ∈ outcome.2.returned, ∀ slot, outcome.2.nextConfirmedSlot ≤ slot →
          slot ≤ returned → outcome.2.queuedSlotsFront.containsKey slot = true ∨
            slot ∈ outcome.2.http.inprogress) := by
  intro outcome
  have run : wp (start2 popSlotsBack popSlotsFront firstAvailableBlock slots events)
      (fun _ after => Ready after ∨ after.LoopKept) (fun reason after => after.FrontStopped reason)
      (WriteState.new store turns concurrency backfillUpto) := by
    simp only [start2, wp_bind]
    exact wp_mono (prepare_ready popSlotsBack popSlotsFront firstAvailableBlock slots
      (ready_new store turns concurrency backfillUpto))
      (fun _ _ ready => runAll_ready events starts ready) fun _ _ stopped => stopped
  obtain ⟨onSuccess, onStop⟩ := wp_iff.mp run
  rcases ended : outcome with ⟨reason | _, after⟩
  · obtain ⟨pushes, ends, validSlot⟩ := onStop reason after ended
    exact ⟨pushes.1, pushes.2, fun slot expected same => validSlot slot expected (by cases same; rfl),
      fun same => ends (by cases same; rfl), fun success => (by cases success)⟩
  · rcases onSuccess _ after ended with ready | kept
    · refine ⟨ready.pushes.1, ready.pushes.2, by simp, by simp, fun _ _ => ?_⟩
      simp [ready.returned]
    · obtain ⟨cursor, frontKept, main⟩ : ∃ cursor, after.FrontKept cursor ∧
          (after.catchup = none → cursor = after.nextConfirmedSlot) := by
        rw [LoopKept] at kept
        split at kept
        · exact ⟨_, kept, fun _ => rfl⟩
        · rename_i catchup running
          exact ⟨_, kept, fun none => (by rw [none] at running; cases running)⟩
      refine ⟨frontKept.pushes.1, frontKept.pushes.2, by simp, by simp, ?_⟩
      intro _ noCatchup
      rw [← main noCatchup]
      exact frontKept.covered

/-- This store has one dead slot in a ring of four cells. -/
def oneSlotStore (slot : Nat) : Store where
  db := Rocksdb.empty.slotAdd slot none
  files := ⟨[], HashMap.empty, 0⟩
  disk := fun _ => ⟨0, fun _ => 0⟩
  blocks := ⟨⟨4, fun index => [StoredBlock.newDead slot].getD index.val StoredBlock.newNoexists,
    ⟨0, Nat.zero_lt_succ 3⟩, ⟨0, Nat.zero_lt_succ 3⟩⟩, slot, []⟩

/-- The confirmation of a slot after a gap, and the answer for that slot. -/
def gapEvents : List WriteEvent :=
  [.message .start none, .message (.slotStatus 12 .confirmed) none, .httpBlock 12 none]

def gapOutcome : Except WriteStop Unit × WriteState :=
  (start2 none none none (some (20, 21)) gapEvents).run.run
    (WriteState.new (oneSlotStore 10) (fun _ => 0) 2 none)

/-- The slot of the gap is in progress and the confirmed slot is queued. -/
theorem start2_storesInOrder_gap :
    gapOutcome.2.returned = [12] ∧ gapOutcome.2.nextConfirmedSlot = 11 ∧
      ∀ slot, 11 ≤ slot → slot ≤ 12 → gapOutcome.2.queuedSlotsFront.containsKey slot = true ∨
        slot ∈ gapOutcome.2.http.inprogress := by
  have returned : gapOutcome.2.returned = [12] := by decide +kernel
  have next : gapOutcome.2.nextConfirmedSlot = 11 := by decide +kernel
  have covered := (start2_storesInOrder (oneSlotStore 10) (fun _ => 0) 2 none none none none
    (some (20, 21)) gapEvents (Or.inl rfl)).2.2.2.2
  rw [gapOutcome] at returned next ⊢
  rw [returned, next] at covered ⊢
  exact ⟨rfl, rfl, covered (by decide +kernel) (by decide +kernel) 12 (by simp)⟩

end Write

end Alpamayo
