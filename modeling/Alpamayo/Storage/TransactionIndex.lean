import Alpamayo.General.Wire
import Alpamayo.Storage.Rocksdb

/-!
This file models the bytes of a record of the transaction index.
-/

namespace Alpamayo

/-- The bytes of an error come from `bincode`. -/
structure ErrorCodec where
  serialize : TransactionError → Bytes
  deserialize : Bytes → Except String TransactionError

/-- A number that cannot be read stops the reader with the text. -/
def decodeVarintContext (context : String) (slice : Bytes) : Except String (Nat × Bytes) :=
  (Wire.decodeVarint slice).elim (.error context) .ok

/-- The machine type of an index has 32 bits. -/
def toIndex (value : Nat) : Nat := value % 4294967296

namespace TransactionIndexValue

/-- These three numbers stand in every format. -/
def encodePlace (slot offset size : Nat) : Bytes :=
  Wire.encodeVarint slot ++ Wire.encodeVarint offset ++ Wire.encodeVarint size

/-- An error has its length before it, and no error takes no bytes. -/
def encodeErr (codec : ErrorCodec) (err : Option TransactionError) : Bytes :=
  err.elim [] fun err =>
    let data := codec.serialize err
    Wire.encodeVarint data.length ++ data

def encode (self : TransactionIndexValue) (codec : ErrorCodec) : Bytes :=
  encodePlace self.slot self.offset self.size ++ encodeErr codec self.err ++
    Wire.encodeVarint self.index

/-- The bytes after the length of the error hold the error, and the index unless the record is older
than the index. -/
def decodeErr (codec : ErrorCodec) (decodeError : Bool) (errSize : Nat) (slice : Bytes) :
    Except String (Option TransactionError × Nat) := do
  let err ← if decodeError then
      ((codec.deserialize (slice.take errSize)).mapError fun _ => "failed to decode err").map some
    else .ok none
  let slice := slice.drop errSize
  if slice.isEmpty then .ok (err, 0)
  else
    let (index, _) ← decodeVarintContext "failed to decode index" slice
    .ok (err, toIndex index)

/-- A number that cannot be the length of an error is the index itself. -/
def decodeTail (codec : ErrorCodec) (decodeError : Bool) (slice : Bytes) :
    Except String (Option TransactionError × Nat) :=
  if slice.isEmpty then .ok (none, 0)
  else do
    let (a, slice) ← decodeVarintContext "failed to decode err size" slice
    if a = 0 || slice.length < a then .ok (none, toIndex a)
    else decodeErr codec decodeError a slice

def decode (codec : ErrorCodec) (slice : Bytes) (decodeError : Bool) :
    Except String TransactionIndexValue := do
  let (slot, slice) ← decodeVarintContext "failed to decode slot" slice
  let (offset, slice) ← decodeVarintContext "failed to decode offset" slice
  let (size, slice) ← decodeVarintContext "failed to decode size" slice
  let (err, index) ← decodeTail codec decodeError slice
  .ok ⟨slot, offset, size, err, index⟩

end TransactionIndexValue

end Alpamayo
