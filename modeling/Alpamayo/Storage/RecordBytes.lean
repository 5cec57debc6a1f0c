import Alpamayo.Storage.InflationReward
import Alpamayo.Storage.SfaIndex
import Alpamayo.Storage.SlotIndex

/-!
This file models the record decoders with the slices and the bytes that must exist.
-/

namespace Alpamayo

namespace TransactionIndexValue

/-- The error is sliced only if it is decoded. -/
def errBytes (codec : ErrorCodec) (decodeError : Bool) (errSize : Nat) (slice : Bytes) :
    Except Buf.Fault (Option TransactionError) :=
  if decodeError then do
    let data ← Buf.range 0 errSize slice
    (SfaIndexValue.readErr codec data).map some
  else .ok none

/-- The index follows the error unless the record is older than the index. -/
def indexBytes (slice : Bytes) : Except Buf.Fault Nat :=
  if slice.isEmpty then .ok 0
  else (Buf.decodeVarint "failed to decode index" slice).map fun read => toIndex read.1

/-- A number that cannot be the length of an error is the index itself. -/
def tailBytes (codec : ErrorCodec) (decodeError : Bool) (slice : Bytes) :
    Except Buf.Fault (Option TransactionError × Nat) :=
  if slice.isEmpty then .ok (none, 0)
  else do
    let (a, slice) ← Buf.decodeVarint "failed to decode err size" slice
    if a = 0 || slice.length < a then .ok (none, toIndex a)
    else do
      let err ← errBytes codec decodeError a slice
      let slice ← Buf.advance a slice
      (indexBytes slice).map fun index => (err, index)

def decodeBytes (codec : ErrorCodec) (slice : Bytes) (decodeError : Bool) :
    Except Buf.Fault TransactionIndexValue := do
  let (slot, slice) ← Buf.decodeVarint "failed to decode slot" slice
  let (offset, slice) ← Buf.decodeVarint "failed to decode offset" slice
  let (size, slice) ← Buf.decodeVarint "failed to decode size" slice
  let (err, index) ← tailBytes codec decodeError slice
  .ok ⟨slot, offset, size, err, index⟩

end TransactionIndexValue

/-- An array of 32 bytes is made of so many bytes only. -/
def toHash (bytes : Bytes) : Except Buf.Fault Hash :=
  if length : bytes.length = 32 then .ok ⟨bytes, length⟩
  else .error (.panicked "TryFromSliceError(())")

/-- The length of the rest is checked before the hash is sliced. -/
def hashBytes (context : String) (slice : Bytes) : Except Buf.Fault (Hash × Bytes) := do
  Buf.ensure (32 ≤ slice.length) context
  let bytes ← Buf.range 0 32 slice
  let hash ← toHash bytes
  let slice ← Buf.advance 32 slice
  .ok (hash, slice)

namespace InflationRewardBaseValue

/-- The length of the rest is checked before the bits are sliced. -/
def partitionBytes (len : Nat) (slice : Bytes) : Except Buf.Fault (List Bool) := do
  Buf.ensure (len ≤ slice.length) "not enough bytes for partitions"
  (Buf.range 0 len slice).map Bits.unpack

/-- The fields after the flags. -/
def fieldBytes (flags : UInt8) (slice : Bytes) : Except Buf.Fault InflationRewardBaseValue := do
  let (slot, slice) ← Buf.decodeVarint "failed to decode slot" slice
  let (blockHeight, slice) ←
    Buf.optionalVarint (0 < flags &&& 1) "failed to decode block height" slice
  let (previousBlockhash, slice) ← hashBytes "not enough bytes for previous blockhash" slice
  let (numRewardPartitions, slice) ←
    Buf.optionalVarint (0 < flags &&& 2) "failed to decode num reward partitions" slice
  let (len, slice) ← Buf.decodeVarint "failed to decode partitions len" slice
  let partitions ← partitionBytes len slice
  .ok ⟨slot, blockHeight, previousBlockhash, numRewardPartitions, partitions⟩

def decodeBytes (slice : Bytes) : Except Buf.Fault InflationRewardBaseValue := do
  Buf.ensure (1 ≤ slice.length) "not enough bytes for flags"
  let flags ← Buf.index 0 slice
  let slice ← Buf.advance 1 slice
  fieldBytes flags slice

end InflationRewardBaseValue

namespace RpcInflationReward

/-- Every rest of more than one byte is indexed up to its third byte. -/
def commissionBytes (slice : Bytes) : Except Buf.Fault (Option UInt8 × Option UInt16) :=
  match slice.length with
  | 0 => .ok (none, none)
  | 1 => do
      let commission ← Buf.index 0 slice
      .ok (some commission, none)
  | _ => do
      let commission ← Buf.index 0 slice
      let low ← Buf.index 1 slice
      let high ← Buf.index 2 slice
      .ok (some commission, some (UInt16.ofNat (low.toNat + 256 * high.toNat)))

def decodeBytes (slice : Bytes) : Except Buf.Fault RpcInflationReward := do
  let (epoch, slice) ← Buf.decodeVarint "failed to decode epoch" slice
  let (effectiveSlot, slice) ← Buf.decodeVarint "failed to decode effective_slot" slice
  let (amount, slice) ← Buf.decodeVarint "failed to decode amount" slice
  let (postBalance, slice) ← Buf.decodeVarint "failed to decode post_balance" slice
  let (commission, commissionBps) ← commissionBytes slice
  .ok ⟨epoch, effectiveSlot, amount, postBalance, commission, commissionBps⟩

end RpcInflationReward

/-- The six records that are decoded. -/
inductive RecordKind where
  | slotBasic
  | slotExtra
  | transaction (decodeError : Bool)
  | sfa
  | inflationRewardBase
  | inflationRewardAddress

/-- The decoder of a kind of record. -/
def RecordKind.decode (codec : ErrorCodec) (slice : Bytes) : RecordKind → Except Buf.Fault Unit
  | slotBasic => (SlotBasicIndexValue.decode slice).map fun _ => ()
  | slotExtra => (SlotExtraIndexValue.decode slice).map fun _ => ()
  | transaction decodeError =>
      (TransactionIndexValue.decodeBytes codec slice decodeError).map fun _ => ()
  | sfa => (SfaIndexValue.decode codec slice).map fun _ => ()
  | inflationRewardBase => (InflationRewardBaseValue.decodeBytes slice).map fun _ => ()
  | inflationRewardAddress => (RpcInflationReward.decodeBytes slice).map fun _ => ()

end Alpamayo
