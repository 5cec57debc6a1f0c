import Alpamayo.Source.Block

/-!
This file models the buffer that turns the stream into a sequence of confirmed slots.
-/

namespace Alpamayo

/-- The buffer reports each slot in one of these forms. -/
inductive MemoryConfirmedBlock where
  | missed (slot : Nat)
  | dead (slot : Nat)
  | block (slot : Nat) (block : BlockWithBinary)
  deriving DecidableEq

namespace MemoryConfirmedBlock

def missedOrDead (slot : Nat) (dead : Bool) : MemoryConfirmedBlock :=
  if dead then .dead slot else .missed slot

def getSlot : MemoryConfirmedBlock → Nat
  | .missed slot => slot
  | .dead slot => slot
  | .block slot _ => slot

end MemoryConfirmedBlock

/-- The buffer knows this about one slot. -/
structure BlockInfo where
  slot : Nat
  block : Option BlockWithBinary
  dead : Bool
  confirmed : Bool
  deriving DecidableEq

def BlockInfo.new (slot : Nat) : BlockInfo := ⟨slot, none, false, false⟩

/-- A confirmed block takes its contents from the slots that its chain passes over. -/
def BlockInfo.clear (info : BlockInfo) : BlockInfo := { info with block := none, dead := true }

/-- The deque has consecutive slots; a zero means that a slot number is not set. -/
structure StorageMemory where
  blocks : List BlockInfo
  confirmed : Nat
  genNextSlot : Nat
  deriving DecidableEq

/-- The buffer panics with one of these; `endless` stands for a walk that does not end. -/
inductive MemoryPanic where
  | confirmedAsDead
  | backwardConfirmed
  | deadAsConfirmed
  | indexOutOfBounds
  | noFront
  | failedToGetNext (genNextSlot firstSlot confirmedSlot : Nat) (block dead : Bool)
  | endless
  deriving DecidableEq

/-- This text is the message of the source. -/
def MemoryPanic.message : MemoryPanic → String
  | confirmedAsDead => "trying to mark confirmed slot as dead"
  | backwardConfirmed => "attempt to backward confirmed"
  | deadAsConfirmed => "trying to mark dead slot as confirmed"
  | indexOutOfBounds => "Out of bounds access"
  | noFront => "existed"
  | failedToGetNext genNextSlot firstSlot confirmedSlot block dead =>
      s!"failed to get next block, gen next slot = {genNextSlot}, first slot = {firstSlot}, confirmed slot = {confirmedSlot}, confirmed block = {block}, confirmed dead = {dead}"
  | endless => ""

namespace StorageMemory

def default : StorageMemory := ⟨[], 0, 0⟩

/-- The deque grows on one side until it has the slot. -/
def growTo (blocks : List BlockInfo) (slot : Nat) : List BlockInfo :=
  match blocks.head?, blocks.getLast? with
  | some first, some last =>
      if slot < first.slot then
        (List.range' slot (first.slot - slot)).map BlockInfo.new ++ blocks
      else if last.slot < slot then
        blocks ++ (List.range' (last.slot + 1) (slot - last.slot)).map BlockInfo.new
      else blocks
  | _, _ => [BlockInfo.new slot]

/-- A slot that was already reported has no place; another slot has its index in the deque. -/
def addSlot (self : StorageMemory) (slot : Nat) : Option Nat × StorageMemory :=
  let self := if self.genNextSlot = 0 then { self with genNextSlot := slot } else self
  if slot < self.genNextSlot then (none, self)
  else
    let blocks := growTo self.blocks slot
    (some (slot - (blocks.head?.map BlockInfo.slot).getD 0), { self with blocks })

/-- The item at the index changes; an index outside the deque is a panic. -/
def updateAt (self : StorageMemory) (index : Nat)
    (change : BlockInfo → Except MemoryPanic BlockInfo) : Except MemoryPanic StorageMemory :=
  match self.blocks[index]? with
  | none => .error .indexOutOfBounds
  | some item => do
      let item ← change item
      .ok { self with blocks := self.blocks.set index item }

/-- The item of a slot changes when the slot was not reported before. -/
def updateSlot (self : StorageMemory) (slot : Nat)
    (change : BlockInfo → Except MemoryPanic BlockInfo) :
    Except MemoryPanic (Bool × StorageMemory) :=
  match self.addSlot slot with
  | (none, self) => .ok (false, self)
  | (some index, self) => do
      let self ← self.updateAt index change
      .ok (true, self)

def addProcessed (self : StorageMemory) (slot : Nat) (block : BlockWithBinary) :
    Except MemoryPanic StorageMemory := do
  let (_, self) ← self.updateSlot slot fun item => .ok { item with block := some block }
  .ok self

def setDead (self : StorageMemory) (slot : Nat) : Except MemoryPanic StorageMemory := do
  let (_, self) ← self.updateSlot slot fun item =>
    if item.confirmed then .error .confirmedAsDead else .ok { item with dead := true }
  .ok self

def setConfirmed (self : StorageMemory) (slot : Nat) : Except MemoryPanic StorageMemory :=
  if ¬ self.confirmed < slot then .error .backwardConfirmed
  else do
    let (accepted, self) ← self.updateSlot slot fun item =>
      if item.dead then .error .deadAsConfirmed else .ok { item with confirmed := true }
    .ok (if accepted then { self with confirmed := slot } else self)

/-- The walk follows the parents until a parent lies before the deque or a block is unknown; a walk
that is longer than the deque visits an item twice and does not end. -/
def confirmedLoop (blocks : List BlockInfo) (firstSlot : Nat) :
    Nat → Nat → Except MemoryPanic (Nat × BlockInfo)
  | 0, _ => .error .endless
  | fuel + 1, confirmedIndex =>
      match blocks[confirmedIndex]? with
      | none => .error .indexOutOfBounds
      | some item =>
          match item.block with
          | some block =>
              if firstSlot ≤ block.parentSlot then
                confirmedLoop blocks firstSlot fuel (block.parentSlot - firstSlot)
              else .ok (confirmedIndex, item)
          | none => .ok (confirmedIndex, item)

/-- The end of the walk decides how the next slot is reported. -/
def nextRecord (self : StorageMemory) (firstSlot confirmedIndex : Nat) (item : BlockInfo) :
    Except MemoryPanic (MemoryConfirmedBlock × List BlockInfo) :=
  let panic : Except MemoryPanic (MemoryConfirmedBlock × List BlockInfo) :=
    .error (.failedToGetNext self.genNextSlot firstSlot item.slot item.block.isSome item.dead)
  match item.block with
  | some block =>
      if self.genNextSlot ≤ block.parentSlot then .ok (.missed self.genNextSlot, self.blocks)
      else if self.genNextSlot < firstSlot then .ok (.dead self.genNextSlot, self.blocks)
      else if self.genNextSlot = firstSlot then
        match (self.blocks.take confirmedIndex).map BlockInfo.clear ++
            self.blocks.drop confirmedIndex with
        | [] => .error .noFront
        | front :: rest => .ok (match front.block with
            | some block => .block front.slot block
            | none => .missedOrDead front.slot front.dead, rest)
      else panic
  | none =>
      if self.genNextSlot < firstSlot then .ok (.missed self.genNextSlot, self.blocks)
      else if self.genNextSlot = firstSlot then
        match self.blocks with
        | [] => .error .noFront
        | front :: rest => .ok (.missedOrDead front.slot front.dead, rest)
      else panic

/-- Each record moves the next slot up by one. -/
def popConfirmed (self : StorageMemory) :
    Except MemoryPanic (Option MemoryConfirmedBlock × StorageMemory) :=
  if self.confirmed = 0 ∨ self.genNextSlot = 0 then .ok (none, self)
  else
    match self.blocks.head?, self.blocks.findIdx? BlockInfo.confirmed with
    | some first, some index => do
        let (index, item) ← confirmedLoop self.blocks first.slot (self.blocks.length + 1) index
        let (record, blocks) ← self.nextRecord first.slot index item
        .ok (some record, { self with blocks, genNextSlot := self.genNextSlot + 1 })
    | _, _ => .ok (none, self)

/-- No round can report a slot above the confirmed one. -/
def rounds (self : StorageMemory) : Nat := self.confirmed + 2

end StorageMemory

end Alpamayo
