import Alpamayo.Storage.TransactionIndex
import Alpamayo.General.Buf

/-!
This file models the bytes of a row of the address index.
-/

namespace Alpamayo

/-- The 64 bytes of a signature. -/
def Signature.toBytes (signature : Signature) : Bytes := Buf.bigEndian 64 signature.value

def Signature.ofBytes (bytes : Bytes) : Signature := ⟨Buf.ofBigEndian bytes⟩

namespace SfaIndexValueFlags

def err : UInt8 := 1

def memo : UInt8 := 2

def transactionIndex : UInt8 := 4

def tokenOwner : UInt8 := 8

def tokenBalanceChanged : UInt8 := 16

/-- The flags that are known. -/
def all : UInt8 := err ||| memo ||| transactionIndex ||| tokenOwner ||| tokenBalanceChanged

end SfaIndexValueFlags

namespace SfaIndexValue

/-- The flags of an entry; those of the older layout have no transaction index. -/
def flags (indexed : Bool) (sig : SignatureStatus) : UInt8 :=
  (if sig.err.isSome then SfaIndexValueFlags.err else 0) |||
    (if sig.memo.isSome then SfaIndexValueFlags.memo else 0) |||
    (if indexed then SfaIndexValueFlags.transactionIndex else 0) |||
    (if sig.isTokenOwner then SfaIndexValueFlags.tokenOwner else 0) |||
    (if sig.tokenBalanceChanged then SfaIndexValueFlags.tokenBalanceChanged else 0)

/-- Optional bytes have their length before them. -/
def encodeSized (data : Option Bytes) : Bytes :=
  data.elim [] fun data => Wire.encodeVarint data.length ++ data

/-- The bytes of a text. -/
def memoBytes (memo : String) : Bytes := memo.toUTF8.toList

/-- The flags and the signature are always there. -/
def encodeEntry (codec : ErrorCodec) (indexed : Bool) (sig : SignatureStatus) : Bytes :=
  flags indexed sig :: (sig.signature.toBytes ++
    ((if indexed then Buf.bigEndian 4 sig.transactionIndex else []) ++
      (encodeSized (sig.err.map codec.serialize) ++ encodeSized (sig.memo.map memoBytes))))

/-- The entries follow each other without a count. -/
def encode (codec : ErrorCodec) (signatures : List SignatureStatus) : Bytes :=
  signatures.flatMap (encodeEntry codec true)

/-- The rows were written without the transaction index before. -/
def encodeOlder (codec : ErrorCodec) (signatures : List SignatureStatus) : Bytes :=
  signatures.flatMap (encodeEntry codec false)

/-- An entry of the older layout has the index zero. -/
def decodeIndex (present : Bool) (slice : Bytes) : Except Buf.Fault (Nat × Bytes) :=
  if present then
    (Buf.tryCopyToSlice "failed to read transaction_index" 4 slice).map fun read =>
      (Buf.ofBigEndian read.1, read.2)
  else .ok (0, slice)

/-- The length of the bytes is checked before they are read. -/
def decodeSized {A : Type} (present : Bool) (name : String) (read : Bytes → Except Buf.Fault A)
    (slice : Bytes) : Except Buf.Fault (Option A × Bytes) :=
  if present then do
    let (size, slice) ← Buf.decodeVarint s!"failed to decode {name} size" slice
    Buf.ensure (size ≤ slice.length) s!"not enough bytes for {name}"
    let data ← Buf.range 0 size slice
    let value ← read data
    let slice ← Buf.advance size slice
    .ok (some value, slice)
  else .ok (none, slice)

def readErr (codec : ErrorCodec) (data : Bytes) : Except Buf.Fault TransactionError :=
  match codec.deserialize data with
  | .ok err => .ok err
  | .error _ => .error (.failed "failed to decode err")

def readMemo (data : Bytes) : Except Buf.Fault String :=
  match String.fromUTF8? data.toByteArray with
  | some memo => .ok memo
  | none => .error (.failed "expect utf8 memo")

/-- The parts of an entry after its flags. -/
def decodeEntry (codec : ErrorCodec) (flags : UInt8) (slice : Bytes) :
    Except Buf.Fault (SignatureStatus × Bytes) := do
  let (signature, slice) ← Buf.tryCopyToSlice "failed to read signature" 64 slice
  let (transactionIndex, slice) ←
    decodeIndex (Buf.contains flags SfaIndexValueFlags.transactionIndex) slice
  let (err, slice) ←
    decodeSized (Buf.contains flags SfaIndexValueFlags.err) "err" (readErr codec) slice
  let (memo, slice) ← decodeSized (Buf.contains flags SfaIndexValueFlags.memo) "memo" readMemo slice
  .ok ({
    signature := Signature.ofBytes signature
    err
    memo
    transactionIndex
    isTokenOwner := Buf.contains flags SfaIndexValueFlags.tokenOwner
    tokenBalanceChanged := Buf.contains flags SfaIndexValueFlags.tokenBalanceChanged }, slice)

/-- An empty rest has no further entry. -/
def decode (codec : ErrorCodec) (slice : Bytes) :
    Except Buf.Fault (Option SignatureStatus × Bytes) :=
  if slice.isEmpty then .ok (none, slice)
  else do
    let (bits, slice) ← Buf.tryGetU8 "failed to read flags" slice
    let flags ← Buf.fromBits SfaIndexValueFlags.all "invalid flags" bits
    (decodeEntry codec flags slice).map fun read => (some read.1, read.2)

/-- A row is read entry by entry until there is no further one; the rounds bound the loop. -/
def decodeRow (codec : ErrorCodec) :
    Nat → Bytes → Option (Except Buf.Fault (List SignatureStatus × Bytes))
  | 0, _ => none
  | rounds + 1, slice =>
      match decode codec slice with
      | .error fault => some (.error fault)
      | .ok (none, slice) => some (.ok ([], slice))
      | .ok (some sig, slice) => (decodeRow codec rounds slice).map fun row =>
          row.map fun read => (sig :: read.1, read.2)

end SfaIndexValue

end Alpamayo
