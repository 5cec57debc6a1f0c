import Alpamayo.Storage.Read
import Alpamayo.Storage.Steps

/-!
This file models how the storage is opened before the writer and the readers start.
-/

namespace Alpamayo

/-- The recorded slots are loaded into the ring, and the configured files are opened for them. -/
structure Startup where
  db : Rocksdb
  max : Nat
  configs : List ConfigStorageFile
  disk : Disk
  list : List StoredBlock
  blocks : StoredBlocksWrite
  files : StorageFilesWrite
  init : StorageFilesSyncInit
  opened : Disk
  loaded : db.spawnSlots = .ok list
  placed : StoredBlocksWrite.new list max = .ok blocks
  success : StorageFilesWrite.openAll configs blocks disk = (.ok (files, init), opened)

namespace Startup

/-- The readers open their files from the initial message. -/
def reading (self : Startup) : StorageFilesRead := StorageFilesRead.openAll self.init

/-- The readers copy the ring from the initial message. -/
def reader (self : Startup) (recentBlocks : List (Nat × BlockWithBinary)) : Reader :=
  Reader.init self.blocks.toRead recentBlocks

/-- The bytes of a recorded block are those that its file has at its place. -/
def bytesOf (self : Startup) (cell : StoredBlock) : Bytes :=
  match self.reading.fileOf cell.storageId with
  | some path => (self.opened path).bytesAt cell.offset cell.size
  | none => []

/-- The writer starts with the recorded blocks. -/
def writer (self : Startup) : Writer :=
  Writer.start ⟨self.db, self.files, self.opened, self.blocks⟩
    (self.list.map fun cell => (cell, self.bytesOf cell))

end Startup

end Alpamayo
