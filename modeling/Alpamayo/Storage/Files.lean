import Alpamayo.Storage.Blocks

/-!
This file models the writer's storage files and their space allocator.
-/

namespace Alpamayo

/-- The configuration names the path and the size of one file. -/
structure ConfigStorageFile where
  id : StorageId
  path : Path
  size : Nat
  newBlocks : Bool := true
  deriving DecidableEq, Repr

/-- The blocks of a file lie from its tail to its head and can wrap at its end. -/
structure StorageFile where
  id : StorageId
  file : Path
  tail : Nat
  head : Nat
  size : Nat
  newBlocks : Bool
  deriving DecidableEq, Repr

namespace StorageFile

/-- Equal cursors count as an empty file. -/
def freeSpace (self : StorageFile) : Nat :=
  if self.head < self.tail then self.tail - self.head
  else max self.tail (self.size - self.head)

/-- The tail wraps to the end of the file when the buffer does not fit below it. -/
def backOffset (self : StorageFile) (len : Nat) : Nat :=
  if len ≤ self.tail then self.tail - len else self.size - len

/-- The head wraps to the start of the file when the buffer does not fit above it. -/
def frontOffset (self : StorageFile) (len : Nat) : Nat :=
  if self.tail < self.head ∧ self.size - self.head < len then 0 else self.head

/-- The tail moves to the offset of the new block. -/
def writeBack (self : StorageFile) (disk : Disk) (buffer : Bytes) :
    Except StorageError Nat × StorageFile × Disk :=
  let len := buffer.length
  if self.freeSpace < len then (.error .notEnoughSpace, self, disk)
  else
    let tail := self.backOffset len
    (.ok tail, { self with tail }, disk.writeAllAt self.file buffer tail)

/-- The bytes are written before the new head is checked. -/
def writeFront (self : StorageFile) (disk : Disk) (buffer : Bytes) :
    Except StorageError Nat × StorageFile × Disk :=
  let len := buffer.length
  if self.freeSpace < len then (.error .notEnoughSpace, self, disk)
  else
    let offset := self.frontOffset len
    let head := offset + len
    let self' := { self with head }
    let disk' := disk.writeAllAt self.file buffer offset
    if head ≤ self.size then (.ok offset, self', disk')
    else (.error (.headOverflow head self.size), self', disk')

/-- The side selects the end of the live range that grows. -/
def writeSide (self : StorageFile) (disk : Disk) (buffer : Bytes) :
    VecSide → Except StorageError Nat × StorageFile × Disk
  | .back => self.writeBack disk buffer
  | .front => self.writeFront disk buffer

/-- The removed block gives the new cursor; both cursors are checked after the change. -/
def popBlock (self : StorageFile) (block : StoredBlock) (side : VecSide) :
    Except StorageError Unit × StorageFile :=
  let self' := match side with
    | .back => { self with tail := (block.offset + block.size) % self.size }
    | .front => { self with head := block.offset }
  if ¬ self'.head < self'.size then (.error (.headOverflow self'.head self'.size), self')
  else if ¬ self'.tail ≤ self'.size then (.error (.tailOverflow self'.tail self'.size), self')
  else (.ok (), self')

end StorageFile

/-- The next new block goes to the file at `nextFile` or to a later one. -/
structure StorageFilesWrite where
  files : List StorageFile
  id2file : HashMap StorageId Nat
  nextFile : Nat

namespace StorageFilesWrite

/-- A new file is filled with zeros; an existing file must have the configured size. -/
def openFile (config : ConfigStorageFile) (disk : Disk) : Except StorageError StorageFile × Disk :=
  let opened : StorageFile := {
    id := config.id
    file := config.path
    tail := 0
    head := 0
    size := config.size
    newBlocks := config.newBlocks }
  let fileSize := (disk config.path).len
  if fileSize = 0 then (.ok opened, Function.update disk config.path ⟨config.size, fun _ => 0⟩)
  else if config.size ≠ fileSize then
    (.error (.invalidFileSize config.path fileSize config.size), disk)
  else (.ok opened, disk)

/-- The files are opened in the order of the configuration. -/
def openFiles : List ConfigStorageFile → Disk → Except StorageError (List StorageFile) × Disk
  | [], disk => (.ok [], disk)
  | config :: rest, disk =>
      match openFile config disk with
      | (.error error, disk) => (.error error, disk)
      | (.ok file, disk) =>
          match openFiles rest disk with
          | (.error error, disk) => (.error error, disk)
          | (.ok files, disk) => (.ok (file :: files), disk)

/-- Each id maps to the position of its file in the sorted list. -/
def idMap (files : List StorageFile) : HashMap StorageId Nat :=
  files.zipIdx.foldl (fun map entry => map.insert entry.1.id entry.2) HashMap.empty

/-- The stored blocks give the cursors of a file. -/
def restoreCursors (file : StorageFile) (boundaries : Option StorageBlocksBoundaries) :
    Except StorageError StorageFile :=
  match boundaries with
  | none => .ok file
  | some boundaries =>
      let tail := boundaries.tail.getD 0
      let head := boundaries.head.getD 0
      if ¬ tail < file.size then .error (.invalidTail file.id)
      else if ¬ head ≤ file.size then .error (.invalidHead file.id)
      else .ok { file with tail, head }

/-- Only the file that its id selects takes the boundaries of the id. -/
def restoreAll (id2file : HashMap StorageId Nat)
    (boundaries : HashMap StorageId StorageBlocksBoundaries) :
    List (StorageFile × Nat) → Except StorageError (List StorageFile)
  | [] => .ok []
  | (file, index) :: rest =>
      match restoreCursors file
        (if id2file.get file.id = some index then boundaries.get file.id else none) with
      | .error error => .error error
      | .ok file =>
          match restoreAll id2file boundaries rest with
          | .error error => .error error
          | .ok files => .ok (file :: files)

/-- Every stored id must have a configured file. -/
def storageMissed (files : List StorageFile)
    (boundaries : HashMap StorageId StorageBlocksBoundaries) : Bool :=
  (List.range 256).any fun id =>
    boundaries.containsKey (UInt8.ofNat id) && !files.any fun file => file.id = UInt8.ofNat id

/-- The readers receive the paths in the order of the configuration and the map of the sorted files. -/
def openAll (configs : List ConfigStorageFile) (blocks : StoredBlocksWrite) (disk : Disk) :
    Except StorageError (StorageFilesWrite × StorageFilesSyncInit) × Disk :=
  let filesPaths := configs.map fun config => config.path
  match openFiles configs disk with
  | (.error error, disk) => (.error error, disk)
  | (.ok files, disk) =>
      let files := files.mergeSort fun first second => first.id ≤ second.id
      let id2file := idMap files
      let boundaries := blocks.getStoredBoundaries
      match restoreAll id2file boundaries files.zipIdx with
      | .error error => (.error error, disk)
      | .ok files =>
          if storageMissed files boundaries then (.error .fileStorageIsMissed, disk)
          else (.ok (⟨files, id2file, 0⟩, ⟨filesPaths, id2file⟩), disk)

/-- The search starts at `nextFile` and visits each file at most once. -/
def fileIndexLoop (files : List StorageFile) (size currentIndex : Nat) :
    Nat → Nat → Except StorageError (Option Nat) × Nat
  | 0, nextFile => (.ok none, nextFile)
  | fuel + 1, index =>
      let nextFile := (index + 1) % files.length
      match files[index]? with
      | none => (.error (.panicked "index out of bounds"), nextFile)
      | some file =>
          if file.newBlocks && size ≤ file.freeSpace then (.ok (some index), nextFile)
          else if nextFile = currentIndex then (.ok none, nextFile)
          else fileIndexLoop files size currentIndex fuel nextFile

/-- An empty file list panics in the source because of the remainder. -/
def getFileIndexForNewBlock (self : StorageFilesWrite) (size : Nat) :
    Except StorageError (Option Nat) × StorageFilesWrite :=
  if self.files.length = 0 then
    (.error (.panicked "attempt to calculate the remainder with a divisor of zero"), self)
  else
    let (result, nextFile) :=
      fileIndexLoop self.files size self.nextFile self.files.length self.nextFile
    (result, { self with nextFile })

/-- A missing place is an answer and not an error. -/
def pushBlock (self : StorageFilesWrite) (disk : Disk) (buffer : Bytes) (side : VecSide) :
    Except StorageError (Option (StorageId × Nat)) × StorageFilesWrite × Disk :=
  match self.getFileIndexForNewBlock buffer.length with
  | (.error error, self) => (.error error, self, disk)
  | (.ok none, self) => (.ok none, self, disk)
  | (.ok (some index), self) =>
      match self.files[index]? with
      | none => (.error (.panicked "index out of bounds"), self, disk)
      | some file =>
          let (result, file', disk) := file.writeSide disk buffer side
          let self := { self with files := self.files.set index file' }
          match result with
          | .error error => (.error error, self, disk)
          | .ok offset => (.ok (some (file.id, offset)), self, disk)

def pushBlockBack (self : StorageFilesWrite) (disk : Disk) (buffer : Bytes) :
    Except StorageError (Option (StorageId × Nat)) × StorageFilesWrite × Disk :=
  self.pushBlock disk buffer .back

def pushBlockFront (self : StorageFilesWrite) (disk : Disk) (buffer : Bytes) :
    Except StorageError (Option (StorageId × Nat)) × StorageFilesWrite × Disk :=
  self.pushBlock disk buffer .front

/-- The storage id of the block selects the file whose cursor moves. -/
def popBlock (self : StorageFilesWrite) (block : StoredBlock) (side : VecSide) :
    Except StorageError Unit × StorageFilesWrite :=
  match self.id2file.get block.storageId with
  | none => (.error (.unknownStorageId block.storageId), self)
  | some fileIndex =>
      match self.files[fileIndex]? with
      | none => (.error (.panicked "index out of bounds"), self)
      | some file =>
          let (result, file') := file.popBlock block side
          (result, { self with files := self.files.set fileIndex file' })

def popBlockBack (self : StorageFilesWrite) (block : StoredBlock) :
    Except StorageError Unit × StorageFilesWrite := self.popBlock block .back

def popBlockFront (self : StorageFilesWrite) (block : StoredBlock) :
    Except StorageError Unit × StorageFilesWrite := self.popBlock block .front

end StorageFilesWrite

end Alpamayo
