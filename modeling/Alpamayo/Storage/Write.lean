import Alpamayo.General.Command
import Alpamayo.Source.Stream
import Alpamayo.Storage.Memory
import Alpamayo.Storage.Rocksdb

/-!
This file models the loop of the writer as a machine that takes one event at a time.
-/

namespace Alpamayo

/-- A slot is in progress exactly while its request runs. -/
structure HttpBlocks where
  concurrency : Nat
  inprogress : List Nat
  deriving DecidableEq

namespace HttpBlocks

def new (concurrency : Nat) : HttpBlocks := ⟨concurrency, []⟩

def isFull (self : HttpBlocks) : Bool := self.concurrency ≤ self.inprogress.length

/-- A slot in progress is not requested again. -/
def fetch (self : HttpBlocks) (slot : Nat) : HttpBlocks :=
  if slot ∈ self.inprogress then self
  else { self with inprogress := slot :: self.inprogress }

/-- The answer to a request ends it. -/
def complete (self : HttpBlocks) (slot : Nat) : HttpBlocks :=
  { self with inprogress := self.inprogress.filter fun other => other ≠ slot }

end HttpBlocks

/-- The blocks of a queue wait for their turn; a skipped slot waits without a block. -/
abbrev QueuedSlots := SortedMap Nat (Option BlockWithBinary)

/-- The catch-up loop has its own cursors and waits for a block in each round. -/
structure Catchup where
  nextRequestSlot : Nat
  nextDatabaseSlot : Nat
  waiting : Bool
  deriving DecidableEq

/-- The history keeps the highest stored slot at a call of `push_block_front`. -/
structure FrontPush where
  front : Option Nat
  slot : Nat
  deriving DecidableEq

/-- The writer owns all of this; `turns` schedules the joined futures of a push, and the last two
fields only record what the writer did. -/
structure WriteState where
  store : Store
  turns : Nat → Nat
  http : HttpBlocks
  queuedSlotsBack : QueuedSlots
  queuedSlotsFront : QueuedSlots
  nextConfirmedSlot : Nat
  storageMemory : StorageMemory
  nextBackSlot : Option Nat
  nextBackRequestSlot : Nat
  backfillUpto : Option Nat
  catchup : Option Catchup
  pushed : List FrontPush
  returned : List Nat

/-- The writer ends with one of these; `endless` stands for a loop that does not end. -/
inductive WriteStop where
  | finished
  | requestFailed
  | blockFailed
  | unavailableBackfill (backfillUpto firstAvailableBlock : Nat)
  | nodeIsOutdated
  | storage (error : StorageError)
  | memory (panic : MemoryPanic)
  | endless
  deriving DecidableEq

/-- This text is the error of the source; the other stops have none of their own. -/
def WriteStop.message : WriteStop → Option String
  | finished => none
  | requestFailed => none
  | blockFailed => some "failed to get confirmed block"
  | unavailableBackfill backfillUpto firstAvailableBlock =>
      some s!"trying to backfill to {backfillUpto} while first available is {firstAvailableBlock}"
  | nodeIsOutdated => some "node is outdated"
  | storage error => some error.message
  | memory panic => some panic.message
  | endless => none

abbrev Write := Command WriteStop WriteState

/-- The node answers with its finalized and its confirmed slot, or the request fails. -/
abbrev NodeSlots := Option (Nat × Nat)

/-- The writer waits for these events; a message brings the answer to the request that it can cause,
and a round of the catch-up brings the answer when two seconds have passed. -/
inductive WriteEvent where
  | httpBlock (slot : Nat) (block : Option BlockWithBinary)
  | httpFailed (slot : Nat)
  | httpClosed (slot : Nat)
  | message (message : StreamSourceMessage) (slots : NodeSlots)
  | streamClosed
  | backSlotReady
  | shutdown
  | catchupRound (reload : Option NodeSlots)
  deriving DecidableEq

namespace WriteState

/-- The writer starts without requests and with empty queues. -/
def new (store : Store) (turns : Nat → Nat) (concurrency : Nat) (backfillUpto : Option Nat) :
    WriteState where
  store
  turns
  http := HttpBlocks.new concurrency
  queuedSlotsBack := SortedMap.empty
  queuedSlotsFront := SortedMap.empty
  nextConfirmedSlot := 0
  storageMemory := StorageMemory.default
  nextBackSlot := none
  nextBackRequestSlot := maxSlot
  backfillUpto
  catchup := none
  pushed := []
  returned := []

/-- The gap before a confirmed slot is requested where the queue has no block. -/
def fetchGap (self : WriteState) (slot : Nat) : WriteState := { self with
  http := (List.range' self.nextConfirmedSlot (slot - self.nextConfirmedSlot)).foldl
    (fun http slot => if self.queuedSlotsFront.containsKey slot then http else http.fetch slot)
    self.http }

/-- A missed slot is requested, and another record goes to the queue. -/
def queueRecord (self : WriteState) : MemoryConfirmedBlock → WriteState
  | .missed slot => { self with http := self.http.fetch slot }
  | .dead slot => { self with queuedSlotsFront := self.queuedSlotsFront.insert slot none }
  | .block slot block =>
      { self with queuedSlotsFront := self.queuedSlotsFront.insert slot (some block) }

/-- A record below the next slot is old. -/
def takeRecord (self : WriteState) (record : MemoryConfirmedBlock) : WriteState :=
  let self := { self with returned := self.returned ++ [record.getSlot] }
  if record.getSlot < self.nextConfirmedSlot then self
  else (self.fetchGap record.getSlot).queueRecord record

/-- The main loop sends an answer to one of the queues, or to none. -/
def routeBlock (self : WriteState) (slot : Nat) (block : Option BlockWithBinary) : WriteState :=
  let self := { self with http := self.http.complete slot }
  if self.nextConfirmedSlot ≤ slot then
    { self with queuedSlotsFront := self.queuedSlotsFront.insert slot block }
  else
    match self.nextBackSlot with
    | some nextBackSlot =>
        if slot ≤ nextBackSlot && self.backfillUpto.isSome then
          { self with queuedSlotsBack := self.queuedSlotsBack.insert slot block }
        else self
    | none => self

/-- The catch-up loop keeps an answer only for the queue of the front. -/
def routeCatchup (self : WriteState) (nextDatabaseSlot slot : Nat)
    (block : Option BlockWithBinary) : WriteState :=
  let self := { self with http := self.http.complete slot }
  if nextDatabaseSlot ≤ slot then
    { self with queuedSlotsFront := self.queuedSlotsFront.insert slot block }
  else self

end WriteState

namespace Write

/-- An operation on the store stops the writer with its error. -/
def onStore {A : Type} (change : WriteState → Except StorageError A × Store) : Write A := do
  let self ← get
  let (result, store) := change self
  modify fun self => { self with store }
  match result with
  | .ok value => pure value
  | .error error => throw (.storage error)

/-- The arithmetic of the slots can leave its range. -/
def checked {A : Type} (result : Except StorageError A) : Write A :=
  match result with
  | .ok value => pure value
  | .error error => throw (.storage error)

/-- The buffer of the stream changes or panics. -/
def onMemory (change : StorageMemory → Except MemoryPanic StorageMemory) : Write Unit := do
  let self ← get
  match change self.storageMemory with
  | .ok storageMemory => modify fun self => { self with storageMemory }
  | .error panic => throw (.memory panic)

def send (message : ReadWriteSyncMessage) : Write Unit :=
  modify fun self => { self with
    store := { self.store with blocks := self.store.blocks.send message } }

/-- The readers learn of a finalized slot that is in the store. -/
def loadConfirmedSlot (slots : NodeSlots) : Write Nat :=
  match slots with
  | none => throw .requestFailed
  | some (finalizedSlot, confirmedSlot) => do
      let self ← get
      if self.store.blocks.firstAvailable ≤ finalizedSlot then send (.slotFinalized finalizedSlot)
      pure confirmedSlot

/-- The queue loses the block before the readers and the store get it. -/
def pushFront (slot : Nat) (block : Option BlockWithBinary) : Write Unit := do
  modify fun self => { self with queuedSlotsFront := self.queuedSlotsFront.erase slot }
  send (.blockConfirmed slot block)
  modify fun self => { self with
    pushed := self.pushed ++ [⟨self.store.blocks.getFrontSlot, slot⟩] }
  onStore fun self => self.store.pushBlockFront (self.turns slot) slot block

/-- One round stores the block at the cursor. -/
def pushNext (slot : Nat) : Write (Option Nat) := do
  let self ← get
  match self.queuedSlotsFront.get slot with
  | none => pure none
  | some block => do
      pushFront slot block
      let next ← checked (addOne slot)
      pure (some next)

/-- The blocks from the cursor on are stored until one is not there. -/
def pushQueued (slot : Nat) : Write Nat := do
  let self ← get
  Command.loop .endless pushNext (self.queuedSlotsFront.size + 1) slot

/-- One round takes a record from the buffer. -/
def takeNext (_ : Unit) : Write (Option Unit) := do
  let self ← get
  match self.storageMemory.popConfirmed with
  | .error panic => throw (.memory panic)
  | .ok (none, storageMemory) => do
      modify fun self => { self with storageMemory }
      pure none
  | .ok (some record, storageMemory) => do
      modify fun self => WriteState.takeRecord { self with storageMemory } record
      pure (some ())

def takeConfirmed : Write Unit := do
  let self ← get
  Command.loop .endless takeNext self.storageMemory.rounds ()

/-- One round requests a block for the catch-up. -/
def requestNextFront (slot : Nat) : Write (Option Nat) := do
  let self ← get
  if slot ≤ self.nextConfirmedSlot && !self.http.isFull then
    modify fun self => { self with http := self.http.fetch slot }
    let next ← checked (addOne slot)
    pure (some next)
  else pure none

def requestFront (slot : Nat) : Write Nat := do
  let self ← get
  Command.loop .endless requestNextFront (self.nextConfirmedSlot + 2) slot

/-- One round requests a block for the backfill. -/
def requestNextBack (backfillUpto slot : Nat) : Write (Option Nat) := do
  let self ← get
  if backfillUpto ≤ slot && !self.http.isFull then
    modify fun self => { self with http := self.http.fetch slot }
    let next ← checked (subOne slot)
    pure (some next)
  else pure none

def requestBack (backfillUpto : Nat) : Write Unit := do
  let self ← get
  let nextBackRequestSlot ← Command.loop .endless (requestNextBack backfillUpto)
    (self.nextBackRequestSlot + 2) self.nextBackRequestSlot
  modify fun self => { self with nextBackRequestSlot }

/-- The slot right before the lowest stored slot. -/
def slotBeforeBack (blocks : StoredBlocksWrite) : Option Nat :=
  blocks.getBackSlot.bind fun slot => if slot = 0 then none else some (slot - 1)

/-- A block that does not border on the ring is not stored. -/
def pushBack (slot : Nat) (block : Option BlockWithBinary) : Write Bool := do
  let self ← get
  if slotBeforeBack self.store.blocks = some slot then
    onStore fun self => self.store.pushBlockBack (self.turns slot) slot block
  else pure false

/-- The backfill ends at its last slot or when the store has no room. -/
def storeBack (backfillUpto slot : Nat) (block : Option BlockWithBinary) : Write Unit := do
  modify fun self => { self with queuedSlotsBack := self.queuedSlotsBack.erase slot }
  let previous ← checked (subOne slot)
  modify fun self => { self with nextBackSlot := some previous }
  let blockAdded ← pushBack slot block
  if !blockAdded || slot = backfillUpto then
    modify fun self => { self with backfillUpto := none, queuedSlotsBack := SortedMap.empty }

/-- The first round with a back slot starts the requests at it. -/
def startRequests (slot : Nat) : Write Unit :=
  modify fun self =>
    if self.nextBackRequestSlot = maxSlot then { self with nextBackRequestSlot := slot } else self

def continueBackfill (backfillUpto slot : Nat) : Write Unit := do
  startRequests slot
  requestBack backfillUpto
  let self ← get
  match self.queuedSlotsBack.get slot with
  | none => pure ()
  | some block => storeBack backfillUpto slot block

/-- The backfill starts below the lowest stored slot. -/
def startBackfill (backfillUpto : Nat) : Write Unit :=
  modify fun self =>
    match slotBeforeBack self.store.blocks with
    | none => self
    | some slot =>
        if backfillUpto < slot then { self with nextBackSlot := some slot }
        else { self with backfillUpto := none }

def backfill : Write Unit := do
  let self ← get
  match self.backfillUpto, self.nextBackSlot with
  | some backfillUpto, some slot => continueBackfill backfillUpto slot
  | some backfillUpto, none => startBackfill backfillUpto
  | none, _ => pure ()

/-- An iteration of the main loop ends with the new blocks and the backfill; new blocks go first
once the backfill has made requests. -/
def finishIteration : Write Unit := do
  let self ← get
  let next ← pushQueued self.nextConfirmedSlot
  modify fun self => { self with nextConfirmedSlot := next }
  if self.nextConfirmedSlot < next && self.nextBackRequestSlot ≠ maxSlot then pure ()
  else backfill

/-- The buffer is emptied after every message. -/
def finishMessage : Write Unit := do
  takeConfirmed
  finishIteration

/-- A new stream starts with an empty buffer after the highest stored slot. -/
def start : Write Unit := do
  modify fun self => { self with storageMemory := StorageMemory.default, returned := [] }
  let self ← get
  match self.store.blocks.getFrontSlot with
  | none => pure ()
  | some slot => do
      let next ← checked (addOne slot)
      modify fun self => { self with nextConfirmedSlot := next }

/-- The catch-up starts after the highest stored slot. -/
def startCatchup (slots : NodeSlots) (slot : Nat) : Write Unit := do
  let confirmed ← loadConfirmedSlot slots
  modify fun self => { self with nextConfirmedSlot := confirmed }
  let next ← checked (addOne slot)
  if next ≤ confirmed then modify fun self => { self with catchup := some ⟨next, next, false⟩ }
  else throw .nodeIsOutdated

/-- A catch-up without stored blocks has nothing to do. -/
def catchupRequired (slots : NodeSlots) : Write Unit := do
  let self ← get
  match self.store.blocks.getFrontSlot with
  | none => finishMessage
  | some slot => startCatchup slots slot

def slotStatus (slot : Nat) : StreamSourceSlotStatus → Write Unit
  | .dead => do
      onMemory fun memory => memory.setDead slot
      send (.blockDead slot)
  | .confirmed => onMemory fun memory => memory.setConfirmed slot
  | .finalized => send (.slotFinalized slot)

def message (message : StreamSourceMessage) (slots : NodeSlots) : Write Unit :=
  match message with
  | .start => do
      start
      finishMessage
  | .catchupRequired => catchupRequired slots
  | .block slot block => do
      onMemory fun memory => memory.addProcessed slot block
      send (.blockNew slot block)
      finishMessage
  | .slotStatus slot status => do
      slotStatus slot status
      finishMessage

/-- The node is asked again when the last answer is too old. -/
def reloadConfirmed (reload : Option NodeSlots) : Write Unit :=
  match reload with
  | none => pure ()
  | some slots => do
      let confirmed ← loadConfirmedSlot slots
      modify fun self => { self with nextConfirmedSlot := confirmed }

/-- A catch-up that comes close to the node ends, and another one requests blocks and waits. -/
def catchupRound (catchup : Catchup) (reload : Option NodeSlots) : Write Unit := do
  reloadConfirmed reload
  let near ← checked (addOne catchup.nextDatabaseSlot >>= addOne)
  let self ← get
  if self.nextConfirmedSlot ≤ near then
    modify fun self => { self with nextConfirmedSlot := catchup.nextDatabaseSlot, catchup := none }
    finishMessage
  else
    let nextRequestSlot ← requestFront catchup.nextRequestSlot
    modify fun self => { self with catchup := some { catchup with nextRequestSlot, waiting := true } }

/-- The answer that the catch-up waited for can complete a sequence of blocks. -/
def catchupBlock (catchup : Catchup) (slot : Nat) (block : Option BlockWithBinary) :
    Write Unit := do
  modify fun self => self.routeCatchup catchup.nextDatabaseSlot slot block
  let nextDatabaseSlot ← pushQueued catchup.nextDatabaseSlot
  modify fun self => { self with catchup := some { catchup with nextDatabaseSlot, waiting := false } }

/-- The select of the main loop. -/
def mainEvent (self : WriteState) : WriteEvent → Write Unit
  | .httpBlock slot block =>
      if slot ∈ self.http.inprogress then do
        modify fun self => self.routeBlock slot block
        finishIteration
      else pure ()
  | .httpFailed slot => if slot ∈ self.http.inprogress then throw .blockFailed else pure ()
  | .httpClosed slot => if slot ∈ self.http.inprogress then throw .finished else pure ()
  | .message message slots => Write.message message slots
  | .streamClosed => throw .finished
  | .backSlotReady =>
      match self.nextBackSlot with
      | some slot => if self.queuedSlotsBack.containsKey slot then finishIteration else pure ()
      | none => pure ()
  | .shutdown => throw .finished
  | .catchupRound _ => pure ()

/-- The catch-up loop takes no messages; it only waits for blocks. -/
def catchupEvent (self : WriteState) (catchup : Catchup) : WriteEvent → Write Unit
  | .httpBlock slot block =>
      if catchup.waiting && slot ∈ self.http.inprogress then catchupBlock catchup slot block
      else pure ()
  | .httpFailed slot =>
      if catchup.waiting && slot ∈ self.http.inprogress then throw .blockFailed else pure ()
  | .httpClosed slot =>
      if catchup.waiting && slot ∈ self.http.inprogress then throw .finished else pure ()
  | .catchupRound reload => if catchup.waiting then pure () else catchupRound catchup reload
  | _ => pure ()

/-- An event that the writer does not wait for stays where it is. -/
def step (event : WriteEvent) : Write Unit := do
  let self ← get
  match self.catchup with
  | none => mainEvent self event
  | some catchup => catchupEvent self catchup event

/-- The loop removes the wanted number of slots from one side. -/
def popSlots (getSlot : StoredBlocksWrite → Option Nat) (pop : Store → Except StorageError Unit × Store) :
    Nat → Write Unit
  | 0 => pure ()
  | count + 1 => do
      let self ← get
      match getSlot self.store.blocks with
      | none => pure ()
      | some _ => do
          onStore fun self => pop self.store
          popSlots getSlot pop count

/-- The node must still have the last slot of the backfill. -/
def checkBackfill (firstAvailableBlock : Option Nat) : Write Unit := do
  let self ← get
  match self.backfillUpto, firstAvailableBlock with
  | none, _ => pure ()
  | some _, none => throw .requestFailed
  | some backfillUpto, some firstAvailableBlock =>
      if firstAvailableBlock ≤ backfillUpto then pure ()
      else throw (.unavailableBackfill backfillUpto firstAvailableBlock)

/-- The writer prepares the store and asks the node for its slots before the loop. -/
def prepare (popSlotsBack popSlotsFront : Option Nat) (firstAvailableBlock : Option Nat)
    (slots : NodeSlots) : Write Unit := do
  popSlots StoredBlocksWrite.getBackSlot Store.popBlockBack (popSlotsBack.getD 0)
  popSlots StoredBlocksWrite.getFrontSlot Store.popBlockFront (popSlotsFront.getD 0)
  checkBackfill firstAvailableBlock
  let confirmed ← loadConfirmedSlot slots
  modify fun self => { self with nextConfirmedSlot := confirmed }

/-- The loop takes the events one after another until the writer stops. -/
def start2 (popSlotsBack popSlotsFront : Option Nat) (firstAvailableBlock : Option Nat)
    (slots : NodeSlots) (events : List WriteEvent) : Write Unit := do
  prepare popSlotsBack popSlotsFront firstAvailableBlock slots
  Command.runAll step events

end Write

end Alpamayo
