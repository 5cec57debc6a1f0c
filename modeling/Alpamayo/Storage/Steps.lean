import Alpamayo.Storage.Rocksdb

/-!
This file splits the operations of the writer into the steps that other threads, or a crash, can see.
-/

namespace Alpamayo

/-- A removal leaves the ring first; then it is announced, and its records and bytes are freed. -/
inductive PopStage where
  | announce
  | remove
  | free
  deriving DecidableEq

/-- A push makes room, writes the block, and records it before it enters the ring. -/
inductive PushStage where
  | room
  | write
  | written (storageId : StorageId) (offset : Nat)
  | refused
  | recorded (cell : StoredBlock)
  deriving DecidableEq

/-- The push under way; `indexed` tells whether its other future has finished. -/
structure Push where
  side : VecSide
  slot : Nat
  block : Option BlockWithBinary
  stage : PushStage
  indexed : Bool
  deriving DecidableEq

/-- The removal under way; a push that evicts a block goes on afterwards. -/
structure Pop where
  side : VecSide
  block : StoredBlock
  stage : PopStage
  resume : Option Push
  deriving DecidableEq

/-- The writer has one task at a time. -/
inductive Task where
  | idle
  | push (push : Push)
  | pop (pop : Pop)
  | publish (side : VecSide)
  | stopped
  deriving DecidableEq

/-- The writer with its task; `stored` lists every cell that entered the ring with the bytes of its
block, and `evicted` tells whether a block was removed from the back. -/
structure Writer where
  store : Store
  task : Task
  stored : List (StoredBlock × Bytes)
  evicted : Bool

/-- The choices of the program and of its threads. -/
inductive WriterEvent where
  | send (message : ReadWriteSyncMessage)
  | popBlock (side : VecSide)
  | pushBlockFront (slot : Nat) (block : Option BlockWithBinary)
  | pushBlockBack (slot : Nat) (block : Option BlockWithBinary)
  | announce
  | remove
  | free
  | evict
  | roomy
  | index
  | tear (chosen : Path → Nat → Bool)
  | write
  | refuse
  | record
  | store
  | publish

/-- A write that is not finished has changed some of its bytes. -/
def Disk.mix (chosen : Path → Nat → Bool) (old new : Disk) : Disk := fun path => {
  len := if chosen path (old path).len then (new path).len else (old path).len
  bytes := fun position =>
    if chosen path position then (new path).bytes position else (old path).bytes position }

namespace ReadWriteSyncMessage

/-- The readers learn of a removal by its side. -/
def popMessage : VecSide → ReadWriteSyncMessage
  | .back => confirmedBlockPopBack
  | .front => confirmedBlockPopFront

/-- The stream and the node report these outside of all pushes and removals. -/
def isReport : ReadWriteSyncMessage → Bool
  | blockNew _ _ | blockDead _ | slotFinalized _ => true
  | _ => false

end ReadWriteSyncMessage

namespace StoredBlocksWrite

/-- The cell and its message come before the first slot is published. -/
def pushCell (self : StoredBlocksWrite) (side : VecSide) (cell : StoredBlock) :
    Option StoredBlocksWrite :=
  match side with
  | .back =>
      if (self.blocks.cells (self.blocks.prev self.blocks.tail)).present then none
      else some { self with
        blocks := self.blocks.pushBack cell
        sent := self.sent ++ [.confirmedBlockPushBack cell] }
  | .front =>
      if (self.blocks.cells (self.blocks.next self.blocks.head)).present then none
      else some { self with
        blocks := self.blocks.pushFront cell
        sent := self.sent ++ [.confirmedBlockPushFront cell] }

end StoredBlocksWrite

namespace Push

/-- The block goes to the file that has room for it. -/
def attempt (self : Push) (store : Store) (block : BlockWithBinary) :
    Except StorageError (Option (StorageId × Nat)) × StorageFilesWrite × Disk :=
  store.files.pushBlock store.disk block.protobuf self.side

/-- The records of the contents are written in parallel with the file. -/
def addIndexes (self : Push) (store : Store) : Option (Store × Push) :=
  match self.block, self.stage, self.indexed with
  | some block, .write, false | some block, .written _ _, false | some block, .refused, false =>
      some ({ store with db := store.db.addIndexes self.slot block }, { self with indexed := true })
  | _, _, _ => none

/-- The slot is recorded once both futures have finished; a dead slot has none. -/
def record (self : Push) (store : Store) : Option (Store × Push) :=
  match self.block, self.stage, self.indexed with
  | none, .write, _ => some (
      { store with db := store.db.slotAdd self.slot none },
      { self with stage := .recorded (StoredBlock.newDead self.slot) })
  | some block, .written storageId offset, true => some (
      { store with db := store.db.slotAdd self.slot (some (block, storageId, offset)) },
      { self with stage := .recorded (StoredBlock.newConfirmed self.slot block.blockTime
        block.blockHeight storageId offset block.protobuf.length) })
  | _, _, _ => none

/-- The bytes of the block; a dead slot has none. -/
def bytes (self : Push) : Bytes :=
  match self.block with
  | some block => block.protobuf
  | none => []

end Push

namespace Writer

/-- A writer starts idle; the stored blocks have the bytes that the disk has at their places. -/
def start (store : Store) (stored : List (StoredBlock × Bytes)) : Writer := ⟨store, .idle, stored, false⟩

/-- The ring loses its cell, and the back side publishes the new first slot. -/
def startPop (self : Writer) (side : VecSide) (resume : Option Push) : Writer :=
  match self.store.popRing side with
  | none => { self with task := .stopped }
  | some (block, blocks) => { self with
      store := { self.store with blocks }
      task := .pop ⟨side, block, .announce, resume⟩
      evicted := self.evicted || side = .back }

/-- A removal inside a push returns to the push. -/
def resume : Option Push → Task
  | none => .idle
  | some push => .push push

/-- The confirmed block is announced before its push is checked. -/
def startFront (self : Writer) (slot : Nat) (block : Option BlockWithBinary) : Writer :=
  let blocks := self.store.blocks.send (.blockConfirmed slot block)
  { self with
    store := { self.store with blocks }
    task := match checkFrontSlot blocks slot >>= fun _ => checkFrontHeight blocks slot block with
      | .error _ => .stopped
      | .ok () => .push ⟨.front, slot, block, .room, false⟩ }

/-- A full ring refuses a block at the back. -/
def startBack (self : Writer) (slot : Nat) (block : Option BlockWithBinary) : Writer :=
  let blocks := self.store.blocks
  { self with task :=
      match checkBackSlot blocks slot >>= fun _ => checkBackHeight blocks slot block with
      | .error _ => .stopped
      | .ok () => if blocks.isFull then .idle else .push ⟨.back, slot, block, .write, false⟩ }

/-- A full ring is evicted once; a block without a place is evicted for again and again. -/
def evict (self : Writer) (push : Push) : Option Writer :=
  match push.side, push.stage, push.block with
  | .front, .room, _ =>
      if self.store.blocks.isFull then
        some (self.startPop .back (some { push with stage := .write }))
      else none
  | .front, .write, some block =>
      match push.attempt self.store block with
      | (.ok none, files, disk) =>
          some (startPop { self with store := { self.store with files, disk } } .back (some push))
      | _ => none
  | _, _, _ => none

/-- The write puts the block into its place or fails. -/
def write (self : Writer) (push : Push) : Option Writer :=
  match push.stage, push.block with
  | .write, some block =>
      match push.attempt self.store block with
      | (.error _, files, disk) =>
          some { self with store := { self.store with files, disk }, task := .stopped }
      | (.ok none, files, disk) =>
          if push.side = .back then
            some { self with
              store := { self.store with files, disk }
              task := .push { push with stage := .refused } }
          else none
      | (.ok (some (storageId, offset)), files, disk) =>
          some { self with
            store := { self.store with files, disk }
            task := .push { push with stage := .written storageId offset } }
  | _, _ => none

/-- A write under way has changed some of the bytes of its place. -/
def tear (self : Writer) (push : Push) (chosen : Path → Nat → Bool) : Option Writer :=
  match push.stage, push.block with
  | .write, some block =>
      match push.attempt self.store block with
      | (.ok (some _), _, disk) =>
          some { self with store := { self.store with disk := Disk.mix chosen self.store.disk disk } }
      | _ => none
  | _, _ => none

/-- The recorded cell enters the ring together with its message. -/
def enter (self : Writer) (push : Push) (cell : StoredBlock) : Writer :=
  match self.store.blocks.pushCell push.side cell with
  | none => { self with task := .stopped }
  | some blocks => { self with
      store := { self.store with blocks }
      task := .publish push.side
      stored := self.stored ++ [(cell, push.bytes)] }

/-- The announced block loses its records. -/
def remove (self : Writer) (pop : Pop) : Writer :=
  match self.store.db.spawnRemoveSlot pop.block.slot pop.block.dead with
  | .error _ => { self with task := .stopped }
  | .ok db => { self with store := { self.store with db }, task := .pop { pop with stage := .free } }

/-- The removed block frees its bytes. -/
def free (self : Writer) (pop : Pop) : Writer :=
  if pop.block.size = 0 then { self with task := resume pop.resume }
  else
    match self.store.files.popBlock pop.block pop.side with
    | (.error _, files) => { self with store := { self.store with files }, task := .stopped }
    | (.ok (), files) => { self with store := { self.store with files }, task := resume pop.resume }

/-- An event is refused when the task of the writer does not wait for it. -/
def step (self : Writer) : WriterEvent → Option Writer
  | .send message =>
      match self.task with
      | .idle =>
          if message.isReport then some { self with
            store := { self.store with blocks := self.store.blocks.send message } }
          else none
      | _ => none
  | .popBlock side =>
      match self.task with
      | .idle => some (self.startPop side none)
      | _ => none
  | .pushBlockFront slot block =>
      match self.task with
      | .idle => some (self.startFront slot block)
      | _ => none
  | .pushBlockBack slot block =>
      match self.task with
      | .idle => some (self.startBack slot block)
      | _ => none
  | .announce =>
      match self.task with
      | .pop ⟨side, block, .announce, resume⟩ => some { self with
          store := { self.store with blocks := self.store.blocks.send (.popMessage side) }
          task := .pop ⟨side, block, .remove, resume⟩ }
      | _ => none
  | .remove =>
      match self.task with
      | .pop ⟨side, block, .remove, resume⟩ => some (self.remove ⟨side, block, .remove, resume⟩)
      | _ => none
  | .free =>
      match self.task with
      | .pop ⟨side, block, .free, resume⟩ => some (self.free ⟨side, block, .free, resume⟩)
      | _ => none
  | .evict =>
      match self.task with
      | .push push => self.evict push
      | _ => none
  | .roomy =>
      match self.task with
      | .push ⟨side, slot, block, .room, indexed⟩ =>
          if self.store.blocks.isFull then none
          else some { self with task := .push ⟨side, slot, block, .write, indexed⟩ }
      | _ => none
  | .index =>
      match self.task with
      | .push push => (push.addIndexes self.store).map fun result =>
          { self with store := result.1, task := .push result.2 }
      | .pop ⟨side, block, stage, some push⟩ => (push.addIndexes self.store).map fun result =>
          { self with store := result.1, task := .pop ⟨side, block, stage, some result.2⟩ }
      | _ => none
  | .tear chosen =>
      match self.task with
      | .push push => self.tear push chosen
      | _ => none
  | .write =>
      match self.task with
      | .push push => self.write push
      | _ => none
  | .refuse =>
      match self.task with
      | .push ⟨_, _, _, .refused, true⟩ => some { self with task := .idle }
      | _ => none
  | .record =>
      match self.task with
      | .push push => (push.record self.store).map fun result =>
          { self with store := result.1, task := .push result.2 }
      | _ => none
  | .store =>
      match self.task with
      | .push ⟨side, slot, block, .recorded cell, indexed⟩ =>
          some (self.enter ⟨side, slot, block, .recorded cell, indexed⟩ cell)
      | _ => none
  | .publish =>
      match self.task with
      | .publish side => some { self with
          store := { self.store with blocks := self.store.blocks.updateTotal side }
          task := .idle }
      | _ => none

end Writer

end Alpamayo
