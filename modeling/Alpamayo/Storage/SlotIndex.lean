import Alpamayo.General.Buf
import Alpamayo.Storage.Rocksdb

/-!
This file models the bytes of the two records of a slot.
-/

namespace Alpamayo

/-- A signed number is written in its 64-bit two's complement. -/
def castU64 (value : Int) : Nat := (value % 18446744073709551616).toNat

/-- The upper half of the 64-bit numbers is negative. -/
def castI64 (value : Nat) : Int :=
  if value < 9223372036854775808 then value else (value : Int) - 18446744073709551616

namespace SlotBasicIndexValueFlags

def dead : UInt8 := 1

def blockTime : UInt8 := 2

def blockHeight : UInt8 := 4

/-- The flags that are known. -/
def all : UInt8 := dead ||| blockTime ||| blockHeight

end SlotBasicIndexValueFlags

namespace SlotBasicIndexValue

/-- The flags tell which optional fields follow. -/
def flags (self : SlotBasicIndexValue) : UInt8 :=
  (if self.dead then SlotBasicIndexValueFlags.dead else 0) |||
    (if self.blockTime.isSome then SlotBasicIndexValueFlags.blockTime else 0) |||
    (if self.blockHeight.isSome then SlotBasicIndexValueFlags.blockHeight else 0)

/-- A dead slot has only its flag. -/
def encode (self : SlotBasicIndexValue) : Bytes :=
  if self.dead then Wire.encodeVarint SlotBasicIndexValueFlags.dead.toNat
  else
    Wire.encodeVarint self.flags.toNat ++
      ((self.blockTime.map castU64).elim [] Wire.encodeVarint ++
        (self.blockHeight.elim [] Wire.encodeVarint ++
          (Wire.encodeVarint self.storageId.toNat ++
            (Wire.encodeVarint self.offset ++ Wire.encodeVarint self.size))))

/-- The machine type of a storage id has eight bits. -/
def toStorageId (value : Nat) : Except Buf.Fault StorageId :=
  if value < 256 then .ok (UInt8.ofNat value) else .error (.failed "failed to convert storage id")

/-- The fields of a live slot follow its flags; the bytes after them are left. -/
def decodeLive (flags : UInt8) (slice : Bytes) : Except Buf.Fault SlotBasicIndexValue := do
  let (blockTime, slice) ← Buf.optionalVarint
    (Buf.contains flags SlotBasicIndexValueFlags.blockTime) "failed to read block time" slice
  let (blockHeight, slice) ← Buf.optionalVarint
    (Buf.contains flags SlotBasicIndexValueFlags.blockHeight) "failed to read block_height" slice
  let (storageId, slice) ← Buf.decodeVarint "failed to read storage id" slice
  let storageId ← toStorageId storageId
  let (offset, slice) ← Buf.decodeVarint "failed to read offset" slice
  let (size, _) ← Buf.decodeVarint "failed to read size" slice
  .ok ⟨false, blockTime.map castI64, blockHeight, storageId, offset, size⟩

/-- The flags are read as one byte. -/
def decode (slice : Bytes) : Except Buf.Fault SlotBasicIndexValue := do
  let (bits, slice) ← Buf.tryGetU8 "failed to read flags" slice
  let flags ← Buf.fromBits SlotBasicIndexValueFlags.all "invalid flags" bits
  if Buf.contains flags SlotBasicIndexValueFlags.dead then .ok { dead := true }
  else decodeLive flags slice

end SlotBasicIndexValue

/-- The eight bytes of a hash. -/
def HashedKey.toBytes (key : HashedKey) : Bytes := Buf.bigEndian 8 key.toNat

/-- The hash that the bytes spell. -/
def HashedKey.ofBytes (bytes : Bytes) : HashedKey := BitVec.ofNat 64 (Buf.ofBigEndian bytes)

namespace SlotExtraIndexValue

/-- Both lists have their number of hashes before them. -/
def encode (self : SlotExtraIndexValue) : Bytes :=
  Wire.encodeVarint self.transactions.length ++ (self.transactions.flatMap HashedKey.toBytes ++
    (Wire.encodeVarint self.sfa.length ++ self.sfa.flatMap HashedKey.toBytes))

/-- The loop reads the hash at its index until so many are read. -/
def readHashes (slice : Bytes) : Nat → Nat → Except Buf.Fault (List HashedKey)
  | 0, _ => .ok []
  | count + 1, i => do
      let hash ← Buf.range (i * 8) ((i + 1) * 8) slice
      let hashes ← readHashes slice count (i + 1)
      .ok (HashedKey.ofBytes hash :: hashes)

/-- A list is read up to the capacity of its vector, which is the number before it. -/
def decodeHashes (context : String) (slice : Bytes) : Except Buf.Fault (List HashedKey × Bytes) := do
  let (capacity, slice) ← Buf.decodeVarint context slice
  Buf.withCapacity 8 capacity
  let hashes ← readHashes slice capacity 0
  let slice ← Buf.advance (hashes.length * 8) slice
  .ok (hashes, slice)

/-- No bytes may be left. -/
def decode (slice : Bytes) : Except Buf.Fault SlotExtraIndexValue := do
  let (transactions, slice) ← decodeHashes "failed to read transactions size" slice
  let (sfa, slice) ← decodeHashes "failed to read sfa size" slice
  Buf.ensure slice.isEmpty s!"invalid slice len, left: {slice.length}"
  .ok ⟨transactions, sfa⟩

end SlotExtraIndexValue

end Alpamayo
