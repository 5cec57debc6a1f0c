import Alpamayo.General.HashMap
import Alpamayo.Storage.BlocksRead

/-!
This file models the storage files on the disk and the readers' access to them.
-/

namespace Alpamayo

/-- A file has a length and one byte at each position below it. -/
structure DiskFile where
  len : Nat
  bytes : Nat → UInt8

/-- The disk maps each path to its file; a new file is empty. -/
def Disk := Path → DiskFile

/-- The write replaces the bytes of one range and extends the file when necessary. -/
def DiskFile.writeAllAt (file : DiskFile) (buffer : Bytes) (offset : Nat) : DiskFile where
  len := max file.len (offset + buffer.length)
  bytes position :=
    if offset ≤ position ∧ position < offset + buffer.length then buffer.getD (position - offset) 0
    else file.bytes position

/-- The read fails when the file ends before the range. -/
def DiskFile.readExactAt (file : DiskFile) (offset size : Nat) : Option Bytes :=
  if offset + size ≤ file.len then some ((List.range size).map fun index => file.bytes (offset + index))
  else none

/-- The bytes of a range, whether the file has them or not. -/
def DiskFile.bytesAt (file : DiskFile) (offset size : Nat) : Bytes :=
  (List.range size).map fun index => file.bytes (offset + index)

/-- The write changes the file of one path. -/
def Disk.writeAllAt (disk : Disk) (path : Path) (buffer : Bytes) (offset : Nat) : Disk :=
  Function.update disk path ((disk path).writeAllAt buffer offset)

@[simp] theorem Disk.writeAllAt_self (disk : Disk) (path : Path) (buffer : Bytes) (offset : Nat) :
    disk.writeAllAt path buffer offset path = (disk path).writeAllAt buffer offset :=
  Function.update_self _ _ _

/-- A write keeps the other files. -/
theorem Disk.writeAllAt_of_ne (disk : Disk) {path other : Path} (buffer : Bytes) (offset : Nat)
    (different : other ≠ path) : disk.writeAllAt path buffer offset other = disk other :=
  Function.update_of_ne different _ _

/-- A range reads back the buffer that was written to it. -/
theorem DiskFile.readExactAt_writeAllAt (file : DiskFile) (buffer : Bytes) (offset : Nat) :
    (file.writeAllAt buffer offset).readExactAt offset buffer.length = some buffer := by
  rw [readExactAt, if_pos (by simp [writeAllAt])]
  congr 1
  apply List.ext_getElem
  · simp
  · intro index lower upper
    simp [writeAllAt, upper]

/-- A write to a disjoint range does not change a read. -/
theorem DiskFile.readExactAt_writeAllAt_of_disjoint (file : DiskFile) (buffer : Bytes)
    {offset place size : Nat} {content : Bytes}
    (apart : place + size ≤ offset ∨ offset + buffer.length ≤ place ∨ size = 0 ∨ buffer.length = 0)
    (before : file.readExactAt place size = some content) :
    (file.writeAllAt buffer offset).readExactAt place size = some content := by
  rw [readExactAt] at before ⊢
  split at before
  · rename_i inside
    rw [if_pos (by simp only [writeAllAt]; omega), ← before]
    congr 1
    apply List.map_congr_left
    intro index member
    have bound := List.mem_range.mp member
    simp only [writeAllAt]
    rw [if_neg (by omega)]
  · cases before

/-- The writer sends its path list and its id map to the readers. -/
structure StorageFilesSyncInit where
  filesPaths : List Path
  id2file : HashMap StorageId Nat

/-- A reader keeps one open file for each path. -/
structure StorageFilesRead where
  files : List Path
  id2file : HashMap StorageId Nat

/-- A file read fails without a file or at the end of the file. -/
inductive ReadFileError where
  | noFile (storageId : StorageId)
  | unexpectedEof
  deriving DecidableEq

/-- This text is the error of the source. -/
def ReadFileError.message : ReadFileError → String
  | noFile storageId => s!"failed to get file for id#{storageId}"
  | unexpectedEof => "failed to fill whole buffer"

namespace StorageFilesRead

/-- Each path is opened in the order of the list. -/
def openAll (config : StorageFilesSyncInit) : StorageFilesRead := ⟨config.filesPaths, config.id2file⟩

/-- The id map selects the file of a storage id. -/
def fileOf (self : StorageFilesRead) (storageId : StorageId) : Option Path :=
  (self.id2file.get storageId).bind fun index => self.files[index]?

def read (self : StorageFilesRead) (disk : Disk) (storageId : StorageId) (offset size : Nat) :
    Except ReadFileError Bytes :=
  match self.fileOf storageId with
  | none => .error (.noFile storageId)
  | some path =>
      match (disk path).readExactAt offset size with
      | some buffer => .ok buffer
      | none => .error .unexpectedEof

/-- A read takes some time: each byte comes from the disk of its own moment. -/
inductive Reads (self : StorageFilesRead) (moments : Nat → Disk) (storageId : StorageId)
    (offset size : Nat) : Except ReadFileError Bytes → Prop where
  | noFile (missing : self.fileOf storageId = none) :
      Reads self moments storageId offset size (.error (.noFile storageId))
  | unexpectedEof (path : Path) (index : Nat) (found : self.fileOf storageId = some path)
      (inside : index < size) (ends : (moments index path).len ≤ offset + index) :
      Reads self moments storageId offset size (.error .unexpectedEof)
  | bytes (path : Path) (found : self.fileOf storageId = some path)
      (long : ∀ index < size, offset + index < (moments index path).len) :
      Reads self moments storageId offset size
        (.ok ((List.range size).map fun index => (moments index path).bytes (offset + index)))

end StorageFilesRead

end Alpamayo
