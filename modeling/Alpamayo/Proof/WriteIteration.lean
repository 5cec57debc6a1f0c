import Alpamayo.Proof.WriteFront

/-!
This file separates the backfill from the rest of an iteration of the writer.
-/

namespace Alpamayo

/-- The readers lose their lowest block with this message alone. -/
def ReadWriteSyncMessage.evicts : ReadWriteSyncMessage → Bool
  | confirmedBlockPopBack => true
  | _ => false

namespace WriteState

/-- The part of the state that belongs to the backfill alone. -/
def backPart (self : WriteState) :=
  (self.queuedSlotsBack, self.nextBackSlot, self.nextBackRequestSlot, self.backfillUpto)

/-- The invariant survives every change that the writer makes for the front. -/
structure FrontClosed (invariant : WriteState → Prop) : Prop where
  same : ∀ {before after : WriteState}, invariant before → after.backPart = before.backPart →
    after.http = before.http → after.store = before.store → invariant after
  fetch : ∀ {before : WriteState} (slot : Nat), invariant before →
    invariant { before with http := before.http.fetch slot }
  send : ∀ {before : WriteState} (message : ReadWriteSyncMessage), message.evicts = false →
    invariant before →
    invariant { before with store := { before.store with blocks := before.store.blocks.send message } }
  push : ∀ {before : WriteState} (turn slot : Nat) (block : Option BlockWithBinary), invariant before →
    invariant { before with store := (before.store.pushBlockFront turn slot block).2 }

variable {invariant : WriteState → Prop} {self : WriteState}

/-- A gap adds requests one after another. -/
theorem FrontClosed.fetchGap (closed : FrontClosed invariant) (known : invariant self)
    (highest : Nat) : invariant (self.fetchGap highest) := by
  unfold WriteState.fetchGap
  generalize List.range' self.nextConfirmedSlot (highest - self.nextConfirmedSlot) = slots
  suffices requests : ∀ http : HttpBlocks, invariant { self with http } →
      invariant { self with http := slots.foldl (fun http slot =>
        if self.queuedSlotsFront.containsKey slot then http else http.fetch slot) http } from
    requests self.http known
  induction slots with
  | nil => exact fun http known => known
  | cons slot slots ih =>
      intro http known
      rw [List.foldl_cons]
      split
      · exact ih http known
      · exact ih _ (closed.fetch slot known)

/-- A report of the buffer only adds requests. -/
theorem FrontClosed.takeRecord (closed : FrontClosed invariant) (known : invariant self)
    (record : MemoryConfirmedBlock) : invariant (self.takeRecord record) := by
  unfold WriteState.takeRecord
  dsimp only
  have returned : invariant { self with returned := self.returned ++ [record.getSlot] } :=
    closed.same known rfl rfl rfl
  split
  · exact returned
  · have gap := closed.fetchGap returned record.getSlot
    cases record with
    | missed slot => exact closed.fetch slot gap
    | dead slot => exact closed.same gap rfl rfl rfl
    | block slot block => exact closed.same gap rfl rfl rfl

end WriteState

namespace Write

open Command WriteState

/-- The backfill follows the rest of an iteration that asks for it. -/
def thenBackfill (front : Write Bool) : Write Unit := do
  if ← front then backfill else pure ()

/-- An iteration before its backfill. -/
def iterationFront : Write Bool := do
  let self ← get
  let next ← pushQueued self.nextConfirmedSlot
  modify fun self => { self with nextConfirmedSlot := next }
  pure !(self.nextConfirmedSlot < next && self.nextBackRequestSlot ≠ maxSlot)

/-- A message before the backfill of its iteration. -/
def messageFront (message : StreamSourceMessage) (slots : NodeSlots) : Write Bool :=
  match message with
  | .start => do
      start
      takeConfirmed
      iterationFront
  | .catchupRequired => do
      let self ← get
      match self.store.blocks.getFrontSlot with
      | none => do
          takeConfirmed
          iterationFront
      | some slot => do
          startCatchup slots slot
          pure false
  | .block slot block => do
      onMemory fun memory => memory.addProcessed slot block
      send (.blockNew slot block)
      takeConfirmed
      iterationFront
  | .slotStatus slot status => do
      slotStatus slot status
      takeConfirmed
      iterationFront

/-- A round of the catch-up before the backfill of its iteration. -/
def catchupRoundFront (catchup : Catchup) (reload : Option NodeSlots) : Write Bool := do
  reloadConfirmed reload
  let near ← checked (addOne catchup.nextDatabaseSlot >>= addOne)
  let self ← get
  if self.nextConfirmedSlot ≤ near then
    modify fun self => { self with nextConfirmedSlot := catchup.nextDatabaseSlot, catchup := none }
    takeConfirmed
    iterationFront
  else
    let nextRequestSlot ← requestFront catchup.nextRequestSlot
    modify fun self => { self with catchup := some { catchup with nextRequestSlot, waiting := true } }
    pure false

/-- An event of the main loop before the backfill of its iteration. -/
def mainFront (self : WriteState) : WriteEvent → Write Bool
  | .httpBlock slot block =>
      if slot ∈ self.http.inprogress then do
        modify fun self => self.routeBlock slot block
        iterationFront
      else pure false
  | .message message slots => messageFront message slots
  | .backSlotReady =>
      match self.nextBackSlot with
      | some slot => if self.queuedSlotsBack.containsKey slot then iterationFront else pure false
      | none => pure false
  | event => do
      mainEvent self event
      pure false

/-- An event of the catch-up loop before the backfill of its iteration. -/
def catchupFront (self : WriteState) (catchup : Catchup) : WriteEvent → Write Bool
  | .catchupRound reload =>
      if catchup.waiting then pure false else catchupRoundFront catchup reload
  | event => do
      catchupEvent self catchup event
      pure false

/-- A step before the backfill of its iteration. -/
def stepFront (event : WriteEvent) : Write Bool := do
  let self ← get
  match self.catchup with
  | none => mainFront self event
  | some catchup => catchupFront self catchup event

section separation

@[simp] theorem thenBackfill_bind {A : Type} (first : Write A) (next : A → Write Bool) :
    thenBackfill (first >>= next) = first >>= fun value => thenBackfill (next value) :=
  bind_assoc _ _ _

@[simp] theorem thenBackfill_pure_false : thenBackfill (pure false) = pure () := by
  simp [thenBackfill]

/-- An iteration that ends before its backfill is the rest alone. -/
theorem thenBackfill_false (first : Write Unit) :
    thenBackfill (do first; pure false) = first := by
  simp only [thenBackfill_bind, thenBackfill_pure_false, bind_pure_unit]

@[simp] theorem thenBackfill_ite {condition : Prop} [Decidable condition] (first second : Write Bool) :
    thenBackfill (if condition then first else second) =
      if condition then thenBackfill first else thenBackfill second := by
  split <;> rfl

theorem finishIteration_eq : thenBackfill iterationFront = finishIteration := by
  simp only [iterationFront, thenBackfill_bind, finishIteration]
  congr 1
  funext self
  congr 1
  funext next
  congr 1
  funext _
  simp only [thenBackfill, pure_bind]
  cases found : decide (self.nextConfirmedSlot < next) && decide (self.nextBackRequestSlot ≠ maxSlot) <;>
    simp

theorem messageFront_eq (received : StreamSourceMessage) (slots : NodeSlots) :
    thenBackfill (messageFront received slots) = message received slots := by
  cases received with
  | start => simp only [messageFront, thenBackfill_bind, finishIteration_eq, message, finishMessage]
  | catchupRequired =>
      simp only [messageFront, thenBackfill_bind, message, catchupRequired]
      congr 1
      funext self
      cases self.store.blocks.getFrontSlot with
      | none => simp only [thenBackfill_bind, finishIteration_eq, finishMessage]
      | some slot => exact thenBackfill_false _
  | block slot block =>
      simp only [messageFront, thenBackfill_bind, finishIteration_eq, message, finishMessage]
  | slotStatus slot status =>
      simp only [messageFront, thenBackfill_bind, finishIteration_eq, message, finishMessage]

theorem catchupRoundFront_eq (catchup : Catchup) (reload : Option NodeSlots) :
    thenBackfill (catchupRoundFront catchup reload) = catchupRound catchup reload := by
  simp only [catchupRoundFront, thenBackfill_bind, thenBackfill_ite, thenBackfill_pure_false,
    finishIteration_eq, catchupRound, finishMessage, bind_pure_unit]

theorem mainFront_eq (self : WriteState) (event : WriteEvent) :
    thenBackfill (mainFront self event) = mainEvent self event := by
  cases event with
  | httpBlock slot block =>
      simp only [mainFront, thenBackfill_bind, thenBackfill_ite, thenBackfill_pure_false,
        finishIteration_eq, mainEvent]
  | message received slots => exact messageFront_eq received slots
  | backSlotReady =>
      simp only [mainFront, mainEvent]
      cases self.nextBackSlot with
      | none => exact thenBackfill_pure_false
      | some slot => simp only [thenBackfill_ite, thenBackfill_pure_false, finishIteration_eq]
  | _ => exact thenBackfill_false _

theorem catchupFront_eq (self : WriteState) (catchup : Catchup) (event : WriteEvent) :
    thenBackfill (catchupFront self catchup event) = catchupEvent self catchup event := by
  cases event with
  | catchupRound reload =>
      simp only [catchupFront, thenBackfill_ite, thenBackfill_pure_false, catchupRoundFront_eq,
        catchupEvent]
  | _ => exact thenBackfill_false _

/-- A step ends with the backfill, and makes it nowhere else. -/
theorem stepFront_eq (event : WriteEvent) : thenBackfill (stepFront event) = step event := by
  simp only [stepFront, step, thenBackfill_bind]
  congr 1
  funext self
  cases self.catchup with
  | none => exact mainFront_eq self event
  | some catchup => exact catchupFront_eq self catchup event

end separation

section closed

variable {invariant : WriteState → Prop}

theorem checked_keeps {A : Type} (result : Except StorageError A) :
    Keeps invariant (checked result) := by
  unfold checked
  split
  · exact keeps_pure _
  · exact keeps_throw _

theorem send_keeps (closed : FrontClosed invariant) {message : ReadWriteSyncMessage}
    (other : message.evicts = false) : Keeps invariant (send message) :=
  keeps_modify fun _ known => closed.send message other known

theorem onMemory_keeps (closed : FrontClosed invariant)
    (change : StorageMemory → Except MemoryPanic StorageMemory) :
    Keeps invariant (onMemory change) := by
  refine keeps_get.bind fun self => ?_
  split
  · exact keeps_modify fun _ known => closed.same known rfl rfl rfl
  · exact keeps_throw _

theorem loadConfirmedSlot_keeps (closed : FrontClosed invariant) (slots : NodeSlots) :
    Keeps invariant (loadConfirmedSlot slots) := by
  unfold loadConfirmedSlot
  split
  · exact keeps_throw _
  · refine keeps_get.bind fun self => ?_
    split
    · exact (send_keeps closed rfl).bind fun _ => keeps_pure _
    · exact keeps_pure _

theorem onStore_keeps {A : Type} {change : WriteState → Except StorageError A × Store}
    (changes : ∀ self, invariant self → invariant { self with store := (change self).2 }) :
    Keeps invariant (onStore change) := by
  intro self known
  simp only [onStore, wp_bind, wp_get, wp_modify]
  split
  · exact changes self known
  · trivial

theorem pushFront_keeps (closed : FrontClosed invariant) (slot : Nat)
    (block : Option BlockWithBinary) : Keeps invariant (pushFront slot block) := by
  refine Keeps.bind (keeps_modify fun _ known => closed.same known rfl rfl rfl) fun _ =>
    (send_keeps closed rfl).bind fun _ => Keeps.bind (keeps_modify fun _ known => ?_) fun _ => ?_
  · exact closed.same known rfl rfl rfl
  · exact onStore_keeps fun self known => closed.push (self.turns slot) slot block known

theorem pushQueued_keeps (closed : FrontClosed invariant) (slot : Nat) :
    Keeps invariant (pushQueued slot) := by
  refine keeps_get.bind fun self => keeps_loop (fun slot => ?_) _ _
  refine keeps_get.bind fun self => ?_
  split
  · exact keeps_pure _
  · exact (pushFront_keeps closed _ _).bind fun _ => (checked_keeps _).bind fun _ => keeps_pure _

theorem takeConfirmed_keeps (closed : FrontClosed invariant) : Keeps invariant takeConfirmed := by
  refine keeps_get.bind fun self => keeps_loop (fun _ => ?_) _ _
  refine keeps_get.bind fun self => ?_
  split
  · exact keeps_throw _
  · exact Keeps.bind (keeps_modify fun _ known => closed.same known rfl rfl rfl) fun _ =>
      keeps_pure _
  · rename_i record memory _
    refine Keeps.bind (keeps_modify fun before known => ?_) fun _ => keeps_pure _
    have popped : invariant { before with storageMemory := memory } := closed.same known rfl rfl rfl
    exact closed.takeRecord popped record

theorem requestFront_keeps (closed : FrontClosed invariant) (slot : Nat) :
    Keeps invariant (requestFront slot) := by
  refine keeps_get.bind fun self => keeps_loop (fun slot => ?_) _ _
  refine keeps_get.bind fun self => Keeps.ite (fun _ => ?_) fun _ => keeps_pure _
  exact Keeps.bind (keeps_modify fun _ known => closed.fetch slot known) fun _ =>
    (checked_keeps _).bind fun _ => keeps_pure _

theorem reloadConfirmed_keeps (closed : FrontClosed invariant) (reload : Option NodeSlots) :
    Keeps invariant (reloadConfirmed reload) := by
  cases reload with
  | none => exact keeps_pure _
  | some slots =>
      exact (loadConfirmedSlot_keeps closed slots).bind fun _ =>
        keeps_modify fun _ known => closed.same known rfl rfl rfl

theorem start_keeps (closed : FrontClosed invariant) : Keeps invariant start := by
  refine Keeps.bind (keeps_modify fun _ known => closed.same known rfl rfl rfl) fun _ =>
    keeps_get.bind fun self => ?_
  split
  · exact keeps_pure _
  · exact (checked_keeps _).bind fun _ => keeps_modify fun _ known => closed.same known rfl rfl rfl

theorem startCatchup_keeps (closed : FrontClosed invariant) (slots : NodeSlots) (slot : Nat) :
    Keeps invariant (startCatchup slots slot) := by
  refine (loadConfirmedSlot_keeps closed slots).bind fun _ =>
    Keeps.bind (keeps_modify fun _ known => closed.same known rfl rfl rfl) fun _ =>
      (checked_keeps _).bind fun _ => Keeps.ite (fun _ => ?_) fun _ => keeps_throw _
  exact keeps_modify fun _ known => closed.same known rfl rfl rfl

theorem slotStatus_keeps (closed : FrontClosed invariant) (slot : Nat)
    (status : StreamSourceSlotStatus) : Keeps invariant (slotStatus slot status) := by
  cases status with
  | dead => exact (onMemory_keeps closed _).bind fun _ => send_keeps closed rfl
  | confirmed => exact onMemory_keeps closed fun memory => memory.setConfirmed slot
  | finalized => exact send_keeps closed rfl

theorem iterationFront_keeps (closed : FrontClosed invariant) : Keeps invariant iterationFront :=
  keeps_get.bind fun _ => (pushQueued_keeps closed _).bind fun _ =>
    Keeps.bind (keeps_modify fun _ known => closed.same known rfl rfl rfl) fun _ => keeps_pure _

/-- The reports of the buffer come before the new blocks. -/
theorem takeIteration_keeps (closed : FrontClosed invariant) :
    Keeps invariant (do takeConfirmed; iterationFront) :=
  (takeConfirmed_keeps closed).bind fun _ => iterationFront_keeps closed

theorem messageFront_keeps (closed : FrontClosed invariant) (received : StreamSourceMessage)
    (slots : NodeSlots) : Keeps invariant (messageFront received slots) := by
  cases received with
  | start => exact (start_keeps closed).bind fun _ => takeIteration_keeps closed
  | catchupRequired =>
      refine keeps_get.bind fun self => ?_
      split
      · exact takeIteration_keeps closed
      · exact (startCatchup_keeps closed _ _).bind fun _ => keeps_pure _
  | block slot block =>
      exact (onMemory_keeps closed _).bind fun _ => (send_keeps closed rfl).bind fun _ =>
        takeIteration_keeps closed
  | slotStatus slot status =>
      exact (slotStatus_keeps closed slot status).bind fun _ => takeIteration_keeps closed

theorem catchupRoundFront_keeps (closed : FrontClosed invariant) (catchup : Catchup)
    (reload : Option NodeSlots) : Keeps invariant (catchupRoundFront catchup reload) := by
  refine (reloadConfirmed_keeps closed reload).bind fun _ => (checked_keeps _).bind fun _ =>
    keeps_get.bind fun _ => Keeps.ite (fun _ => ?_) fun _ => ?_
  · exact Keeps.bind (keeps_modify fun _ known => closed.same known rfl rfl rfl) fun _ =>
      takeIteration_keeps closed
  · exact (requestFront_keeps closed _).bind fun _ =>
      Keeps.bind (keeps_modify fun _ known => closed.same known rfl rfl rfl) fun _ => keeps_pure _

/-- The invariant survives the answer that the event brings, where the writer takes it. -/
def Routes (invariant : WriteState → Prop) (event : WriteEvent) (self : WriteState) : Prop :=
  match event with
  | .httpBlock slot block =>
      match self.catchup with
      | none => invariant (self.routeBlock slot block)
      | some catchup => catchup.waiting = true →
          invariant (self.routeCatchup catchup.nextDatabaseSlot slot block)
  | _ => True

variable {self : WriteState}

theorem mainFront_keeps (closed : FrontClosed invariant) (event : WriteEvent)
    (running : self.catchup = none) (routes : Routes invariant event self) (known : invariant self) :
    wp (mainFront self event) (fun _ after => invariant after) (fun _ _ => True) self := by
  cases event with
  | httpBlock slot block =>
      rw [Routes, running] at routes
      simp only [mainFront]
      split
      · simp only [wp_bind, wp_modify]
        exact iterationFront_keeps closed _ routes
      · exact known
  | httpFailed slot =>
      exact Keeps.bind (Keeps.ite (fun _ => keeps_throw _) fun _ => keeps_pure _)
        (fun _ => keeps_pure _) self known
  | httpClosed slot =>
      exact Keeps.bind (Keeps.ite (fun _ => keeps_throw _) fun _ => keeps_pure _)
        (fun _ => keeps_pure _) self known
  | message received slots => exact messageFront_keeps closed received slots self known
  | streamClosed => trivial
  | backSlotReady =>
      simp only [mainFront]
      split
      · exact Keeps.ite (fun _ => iterationFront_keeps closed) (fun _ => keeps_pure _) self known
      · exact known
  | shutdown => trivial
  | catchupRound reload => exact known

theorem catchupFront_keeps (closed : FrontClosed invariant) {catchup : Catchup} (event : WriteEvent)
    (running : self.catchup = some catchup) (routes : Routes invariant event self)
    (known : invariant self) :
    wp (catchupFront self catchup event) (fun _ after => invariant after) (fun _ _ => True) self := by
  cases event with
  | httpBlock slot block =>
      rw [Routes, running] at routes
      simp only [catchupFront, catchupEvent, wp_bind]
      split
      · rename_i waits
        rw [Bool.and_eq_true] at waits
        simp only [catchupBlock, wp_bind, wp_modify]
        refine wp_mono (pushQueued_keeps closed _ _ (routes waits.1)) ?_ fun _ _ _ => trivial
        exact fun _ _ known => closed.same known rfl rfl rfl
      · exact known
  | httpFailed slot =>
      exact Keeps.bind (Keeps.ite (fun _ => keeps_throw _) fun _ => keeps_pure _)
        (fun _ => keeps_pure _) self known
  | httpClosed slot =>
      exact Keeps.bind (Keeps.ite (fun _ => keeps_throw _) fun _ => keeps_pure _)
        (fun _ => keeps_pure _) self known
  | catchupRound reload =>
      exact Keeps.ite (fun _ => keeps_pure _) (fun _ => catchupRoundFront_keeps closed catchup reload)
        self known
  | message received slots => exact known
  | streamClosed => exact known
  | backSlotReady => exact known
  | shutdown => exact known

/-- Outside of the backfill a step keeps every such invariant. -/
theorem stepFront_keeps (closed : FrontClosed invariant) (event : WriteEvent)
    (routes : Routes invariant event self) (known : invariant self) :
    wp (stepFront event) (fun _ after => invariant after) (fun _ _ => True) self := by
  simp only [stepFront, wp_bind, wp_get]
  cases running : self.catchup with
  | none => exact mainFront_keeps closed event running routes known
  | some catchup => exact catchupFront_keeps closed event running routes known

/-- A step keeps such an invariant when its backfill does. -/
theorem step_keeps (closed : FrontClosed invariant) (back : Keeps invariant backfill)
    (event : WriteEvent) (routes : Routes invariant event self) (known : invariant self) :
    wp (step event) (fun _ after => invariant after) (fun _ _ => True) self := by
  rw [← stepFront_eq, thenBackfill, wp_bind]
  refine wp_mono (stepFront_keeps closed event routes known) ?_ fun _ _ _ => trivial
  intro called middle known
  cases called with
  | false => exact known
  | true => exact back middle known

/-- The preparation changes the store in any way and makes no request. -/
theorem prepare_keeps (closed : FrontClosed invariant)
    (stores : ∀ (self : WriteState) (store : Store), invariant self → invariant { self with store })
    (popSlotsBack popSlotsFront firstAvailableBlock : Option Nat) (slots : NodeSlots) :
    Keeps invariant (prepare popSlotsBack popSlotsFront firstAvailableBlock slots) := by
  have pops {getSlot : StoredBlocksWrite → Option Nat}
      {pop : Store → Except StorageError Unit × Store} (count : Nat) :
      Keeps invariant (popSlots getSlot pop count) := by
    induction count with
    | zero => exact keeps_pure _
    | succ count ih =>
        refine keeps_get.bind fun self => ?_
        split
        · exact keeps_pure _
        · exact (onStore_keeps fun self known => stores self _ known).bind fun _ => ih
  have check : Keeps invariant (checkBackfill firstAvailableBlock) := by
    refine keeps_get.bind fun self => ?_
    split
    · exact keeps_pure _
    · exact keeps_throw _
    · exact Keeps.ite (fun _ => keeps_pure _) fun _ => keeps_throw _
  exact (pops _).bind fun _ => (pops _).bind fun _ => check.bind fun _ =>
    (loadConfirmedSlot_keeps closed slots).bind fun _ =>
      keeps_modify fun _ known => closed.same known rfl rfl rfl

end closed

end Write

end Alpamayo
