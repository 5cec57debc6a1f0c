import Alpamayo.General.CyclicWindow
import Alpamayo.Storage.Startup
import Mathlib.Logic.Relation

/-!
This file models a process that can end between any two steps of its writer and that starts again over
the database and the files that it has left.
-/

namespace Alpamayo

/-- A block of this length goes to this offset of the file at its side. -/
def StorageFile.placeOf (file : StorageFile) (side : VecSide) (len : Nat) : Nat :=
  match side with
  | .back => file.backOffset len
  | .front => file.frontOffset len

namespace Writer

/-- The write of the push under way goes to this extent of this file. -/
def writePlace (self : Writer) : Option (StorageFile × CyclicWindow.Extent) :=
  match self.task with
  | .push push =>
      match push.stage, push.block with
      | .write, some block =>
          match (self.store.files.getFileIndexForNewBlock block.protobuf.length).1 with
          | .ok (some index) => self.store.files.files[index]?.map fun file =>
              (file, ⟨file.placeOf push.side block.protobuf.length, block.protobuf.length⟩)
          | _ => none
      | _, _ => none
  | _ => none

/-- The live records of a file. -/
def recordsOf (self : Writer) (id : StorageId) : List (Nat × SlotBasicIndexValue) :=
  self.store.db.slotBasicIndex.entries.filter fun entry =>
    !entry.2.dead && entry.2.storageId = id

/-- A write begins and ends inside its file, and it writes bytes at equal cursors only in a file without
live records. -/
def WritesInside (self : Writer) : WriterEvent → Prop
  | .write | .tear _ => ∀ place ∈ self.writePlace,
      place.2.offset < place.1.size ∧ place.2.offset + place.2.size ≤ place.1.size ∧
        (place.2.size ≠ 0 → place.1.head = place.1.tail → self.recordsOf place.1.id = [])
  | _ => True

/-- A write does not touch the extent of a live record. -/
def WritesApart (self : Writer) : WriterEvent → Prop
  | .write | .tear _ => ∀ place ∈ self.writePlace, ∀ entry ∈ self.recordsOf place.1.id,
      place.2.Disjoint ⟨entry.2.offset, entry.2.size⟩
  | _ => True

instance decidableWritesInside (self : Writer) :
    (event : WriterEvent) → Decidable (self.WritesInside event)
  | .write | .tear _ => by
      unfold WritesInside
      infer_instance
  | .send _ | .popBlock _ | .pushBlockFront _ _ | .pushBlockBack _ _ | .announce | .remove | .free
  | .evict | .roomy | .index | .refuse | .record | .store | .publish => isTrue trivial

instance decidableWritesApart (self : Writer) :
    (event : WriterEvent) → Decidable (self.WritesApart event)
  | .write | .tear _ => by
      unfold WritesApart
      infer_instance
  | .send _ | .popBlock _ | .pushBlockFront _ _ | .pushBlockBack _ _ | .announce | .remove | .free
  | .evict | .roomy | .index | .refuse | .record | .store | .publish => isTrue trivial

end Writer

/-- A slot has 64 bits. -/
def WriterEvent.InRange : WriterEvent → Prop
  | .pushBlockFront slot _ | .pushBlockBack slot _ => slot ≤ maxSlot
  | _ => True

instance : (event : WriterEvent) → Decidable event.InRange
  | .pushBlockFront slot _ | .pushBlockBack slot _ => inferInstanceAs (Decidable (slot ≤ maxSlot))
  | .send _ | .popBlock _ | .announce | .remove | .free | .evict | .roomy | .index | .tear _ | .write
  | .refuse | .record | .store | .publish => isTrue trivial

/-- The writer of the process; `recorded` only keeps, for each slot, the bytes of the block that was
recorded for it last. -/
structure Process where
  writer : Writer
  recorded : Nat → Bytes

namespace Process

/-- A record notes the bytes of its push. -/
def note (self : Process) : WriterEvent → Nat → Bytes
  | .record =>
      match self.writer.task with
      | .push push => Function.update self.recorded push.slot push.bytes
      | _ => self.recorded
  | _ => self.recorded

/-- A process begins with a startup. -/
def start (startup : Startup) : Process := ⟨startup.writer, fun _ => []⟩

/-- The startup has the configuration of the first one and finds what the writer has left. -/
structure Reopens (startup first : Startup) (writer : Writer) : Prop where
  configs : startup.configs = first.configs
  max : startup.max = first.max
  db : startup.db = writer.store.db
  disk : startup.disk = writer.store.disk

/-- The process takes a step of its writer, or it ends and starts again. -/
inductive Step (first : Startup) (allowed : Writer → WriterEvent → Prop) (self : Process) :
    Process → Prop where
  | takes (event : WriterEvent) (after : Writer) (permitted : allowed self.writer event)
      (stepped : self.writer.step event = some after) : Step first allowed self ⟨after, self.note event⟩
  | restarts (startup : Startup) (reopens : Reopens startup first self.writer) :
      Step first allowed self ⟨startup.writer, self.recorded⟩

/-- The process reaches a state by steps and restarts. -/
def Reaches (first : Startup) (allowed : Writer → WriterEvent → Prop) : Process → Prop :=
  Relation.ReflTransGen (Step first allowed) (start first)

end Process

end Alpamayo
