import Alpamayo.General.CodedMap
import Alpamayo.Storage.ReadStatuses
import Alpamayo.Storage.ReadTransactionsForAddress
import Alpamayo.Storage.RecordBytes

/-!
This file models the database with the bytes of its rows.
-/

namespace Alpamayo

/-- A column family lists its rows in the order of their keys. -/
abbrev ColumnFamily := SortedMap ByteKey Bytes

/-- The key of a slot in both of its column families. -/
def slotKey (slot : Nat) : ByteKey := ⟨Buf.bigEndian 8 slot⟩

/-- This decodes the key of `SlotBasicIndex`. -/
def slotOfKey (key : ByteKey) : Except Buf.Fault Nat :=
  if key.bytes.length = 8 then .ok (Buf.ofBigEndian key.bytes) else .error (.failed "invalid slice size")

/-- The key of a transaction is the hash of its signature. -/
def HashedKey.toKey (key : HashedKey) : ByteKey := ⟨key.toBytes⟩

namespace SfaKey

/-- The sixteen bytes of a key of the address index. -/
def toKey (key : SfaKey) : ByteKey :=
  ⟨Buf.bigEndian 8 (ofLex key).1 ++ Buf.bigEndian 8 (ofLex key).2⟩

/-- This decodes the key of `SfaIndex`; the hash stays in its bytes. -/
def decode (key : ByteKey) : Except Buf.Fault (Bytes × Nat) :=
  if key.bytes.length = 16 then .ok (key.bytes.take 8, Buf.ofBigEndian (key.bytes.drop 8))
  else .error (.failed s!"invalid key length: {key.bytes.length}")

end SfaKey

/-- An error of the storage stops the program or has its text. -/
def StorageError.toFault : StorageError → Buf.Fault
  | panicked reason => .panicked reason
  | error => .failed error.message

namespace SfaIndexValue

variable {codec : ErrorCodec}

theorem length_decodeSized {A : Type} {present : Bool} {name : String}
    {read : Bytes → Except Buf.Fault A} {slice : Bytes} {found : Option A × Bytes}
    (decoded : decodeSized present name read slice = .ok found) :
    found.2.length ≤ slice.length := by
  unfold decodeSized at decoded
  split at decoded
  · obtain ⟨⟨size, rest⟩, sized, decoded⟩ := Buf.bind_eq_ok.mp decoded
    obtain ⟨-, -, decoded⟩ := Buf.bind_eq_ok.mp decoded
    obtain ⟨data, -, decoded⟩ := Buf.bind_eq_ok.mp decoded
    obtain ⟨value, -, decoded⟩ := Buf.bind_eq_ok.mp decoded
    obtain ⟨after, advanced, decoded⟩ := Buf.bind_eq_ok.mp decoded
    rw [← Except.ok.inj decoded]
    have first := Wire.length_decodeVarint (Buf.decodeVarint_eq_ok_iff.mp sized)
    have second := Buf.length_advance advanced
    exact Nat.le_trans second first
  · rw [← Except.ok.inj decoded]

theorem length_decodeIndex {present : Bool} {slice : Bytes} {found : Nat × Bytes}
    (decoded : decodeIndex present slice = .ok found) : found.2.length ≤ slice.length := by
  unfold decodeIndex at decoded
  split at decoded
  · obtain ⟨read, copied, rfl⟩ := Buf.map_eq_ok.mp decoded
    exact Buf.length_tryCopyToSlice copied
  · rw [← Except.ok.inj decoded]

/-- Every entry takes some bytes. -/
theorem length_decode {slice rest : Bytes} {sig : SignatureStatus}
    (decoded : decode codec slice = .ok (some sig, rest)) : rest.length < slice.length := by
  unfold decode at decoded
  split at decoded
  · cases decoded
  · obtain ⟨⟨bits, afterBits⟩, read, decoded⟩ := Buf.bind_eq_ok.mp decoded
    obtain ⟨flags, -, decoded⟩ := Buf.bind_eq_ok.mp decoded
    obtain ⟨⟨found, last⟩, entry, same⟩ := Buf.map_eq_ok.mp decoded
    obtain ⟨⟨signature, first⟩, copied, entry⟩ := Buf.bind_eq_ok.mp entry
    obtain ⟨⟨index, second⟩, indexed, entry⟩ := Buf.bind_eq_ok.mp entry
    obtain ⟨⟨err, third⟩, failed, entry⟩ := Buf.bind_eq_ok.mp entry
    obtain ⟨⟨memo, fourth⟩, noted, entry⟩ := Buf.bind_eq_ok.mp entry
    have start := Buf.length_tryGetU8 read
    have one := Buf.length_tryCopyToSlice copied
    have two := length_decodeIndex indexed
    have three := length_decodeSized failed
    have four := length_decodeSized noted
    have isLast : last = fourth := (Prod.mk.inj (Except.ok.inj entry)).2.symm
    have isRest : last = rest := (Prod.mk.inj same).2
    rw [← isRest, isLast]
    calc
      fourth.length ≤ third.length := four
      _ ≤ second.length := three
      _ ≤ first.length := two
      _ ≤ afterBits.length := one
      _ < slice.length := start

/-- The loop decodes all entries of a row. -/
def decodeEntries (codec : ErrorCodec) (slice : Bytes) : Except Buf.Fault (List SignatureStatus) :=
  match decoded : decode codec slice with
  | .error fault => .error fault
  | .ok (none, _) => .ok []
  | .ok (some sig, rest) =>
      have _shorter := length_decode decoded
      (decodeEntries codec rest).map fun entries => sig :: entries
  termination_by slice.length

/-- The loop decodes the entries of a row up to the signature. -/
def findPosition (codec : ErrorCodec) (signature : Signature) (slice : Bytes) :
    Except Buf.Fault (Option Nat) :=
  match decoded : decode codec slice with
  | .error fault => .error fault
  | .ok (none, _) => .ok none
  | .ok (some sig, rest) =>
      have _shorter := length_decode decoded
      if sig.signature = signature then .ok (some sig.transactionIndex)
      else findPosition codec signature rest
  termination_by slice.length

/-- The loop decodes the entries of a row until the scan is finished. -/
def scanEntries (codec : ErrorCodec) (stop : Signature) (capacity : Nat)
    (record : SignatureStatus → RpcConfirmedTransactionStatusWithSignature) (slice : Bytes)
    (scan : SfaScan) : Except Buf.Fault SfaScan :=
  match decoded : decode codec slice with
  | .error fault => .error fault
  | .ok (none, _) => .ok scan
  | .ok (some sig, rest) =>
      have _shorter := length_decode decoded
      match scan.before with
      | some signature =>
          scanEntries codec stop capacity record rest
            (if sig.signature = signature then { scan with before := none } else scan)
      | none =>
          let scan := scan.take stop capacity (record sig)
          if scan.finished then .ok scan else scanEntries codec stop capacity record rest scan
  termination_by slice.length

end SfaIndexValue

/-- The requests to the thread that writes the stored blocks. -/
inductive WriteRequest where
  | addIndexes (slot : Nat) (block : BlockWithBinary)
  | slotAdd (slot : Nat) (data : Option (BlockWithBinary × StorageId × Nat))
  | slotRemove (slot : Nat) (dead : Bool)

namespace Rocksdb

def write (self : Rocksdb) : WriteRequest → Except StorageError Rocksdb
  | .addIndexes slot block => .ok (self.addIndexes slot block)
  | .slotAdd slot data => .ok (self.slotAdd slot data)
  | .slotRemove slot dead => self.spawnRemoveSlot slot dead

/-- The thread answers every request; a request that fails writes nothing. -/
def run (self : Rocksdb) : List WriteRequest → List (Except StorageError Unit) × Rocksdb
  | [] => ([], self)
  | request :: rest =>
      match self.write request with
      | .ok next => (.ok () :: (next.run rest).1, (next.run rest).2)
      | .error error => (.error error :: (self.run rest).1, (self.run rest).2)

end Rocksdb

/-- The column families of the stored blocks. -/
structure RocksdbRows where
  slotBasicIndex : ColumnFamily
  slotExtraIndex : ColumnFamily
  transactionIndex : ColumnFamily
  sfaIndex : ColumnFamily

namespace RocksdbRows

def empty : RocksdbRows := ⟨.empty, .empty, .empty, .empty⟩

/-- The request `WriteRequest::AddIndexes` writes one batch. -/
def addIndexes (self : RocksdbRows) (codec : ErrorCodec) (slot : Nat) (block : BlockWithBinary) :
    RocksdbRows := { self with
  slotExtraIndex := self.slotExtraIndex.insert (slotKey slot) (SlotExtraIndexValue.encode {
    transactions := block.txsOffset.map fun tx => tx.key
    sfa := block.sfa.map fun entry => entry.2.addressHash })
  transactionIndex := block.txsOffset.foldl (fun rows tx => rows.insert tx.key.toKey
    (TransactionIndexValue.encode ⟨slot, tx.offset, tx.size, tx.err, tx.index⟩ codec))
    self.transactionIndex
  sfaIndex := block.sfa.foldl (fun rows entry => rows.insert entry.2.key.toKey
    (SfaIndexValue.encode codec entry.2.signatures)) self.sfaIndex }

/-- The request `WriteRequest::SlotAdd` writes one row. -/
def slotAdd (self : RocksdbRows) (slot : Nat) (data : Option (BlockWithBinary × StorageId × Nat)) :
    RocksdbRows := { self with
  slotBasicIndex := self.slotBasicIndex.insert (slotKey slot) (SlotBasicIndexValue.encode (
    match data with
    | some (block, storageId, offset) => {
        dead := false
        blockTime := block.blockTime
        blockHeight := block.blockHeight
        storageId
        offset
        size := block.protobuf.length }
    | none => { dead := true })) }

/-- The request `WriteRequest::SlotRemove` reads the extra row of a live slot and writes one batch. -/
def spawnRemoveSlot (self : RocksdbRows) (slot : Nat) (dead : Bool) :
    Except Buf.Fault RocksdbRows :=
  let basic := self.slotBasicIndex.erase (slotKey slot)
  if dead then .ok { self with slotBasicIndex := basic }
  else
    match self.slotExtraIndex.get (slotKey slot) with
    | none => .error (StorageError.existedSlotNotFound slot).toFault
    | some value => do
        let block ← SlotExtraIndexValue.decode value
        .ok {
          slotBasicIndex := basic
          slotExtraIndex := self.slotExtraIndex.erase (slotKey slot)
          transactionIndex := block.transactions.foldl (fun rows hash => rows.erase hash.toKey)
            self.transactionIndex
          sfaIndex := block.sfa.foldl (fun rows hash => rows.erase (SfaKey.concat hash slot).toKey)
            self.sfaIndex }

def write (self : RocksdbRows) (codec : ErrorCodec) :
    WriteRequest → Except Buf.Fault RocksdbRows
  | .addIndexes slot block => .ok (self.addIndexes codec slot block)
  | .slotAdd slot data => .ok (self.slotAdd slot data)
  | .slotRemove slot dead => self.spawnRemoveSlot slot dead

/-- The thread answers every request; a request that fails writes nothing. -/
def run (self : RocksdbRows) (codec : ErrorCodec) :
    List WriteRequest → List (Except Buf.Fault Unit) × RocksdbRows
  | [] => ([], self)
  | request :: rest =>
      match self.write codec request with
      | .ok next => (.ok () :: (next.run codec rest).1, (next.run codec rest).2)
      | .error fault => (.error fault :: (self.run codec rest).1, (self.run codec rest).2)

/-- The loop over the rows of the slots; each row is decoded before its slot is checked. -/
def slotsLoop (currentSlot : Option Nat) : List (ByteKey × Bytes) →
    Except Buf.Fault (List StoredBlock)
  | [] => .ok []
  | (key, value) :: rest => do
      let slot ← slotOfKey key
      let value ← SlotBasicIndexValue.decode value
      (Rocksdb.checkHole currentSlot slot).mapError StorageError.toFault
      let slots ← slotsLoop (some slot) rest
      .ok (Rocksdb.storedBlockOf slot value :: slots)

def spawnSlots (self : RocksdbRows) : Except Buf.Fault (List StoredBlock) :=
  slotsLoop none self.slotBasicIndex.entries

/-- The request `ReadRequest::Transaction` does not decode the error of the transaction. -/
def spawnTransaction (self : RocksdbRows) (codec : ErrorCodec) (keys : HashedKeys)
    (signature : Signature) : Except Buf.Fault (Option TransactionIndexValue) :=
  match self.transactionIndex.get (keys.signatureKey signature).toKey with
  | some slice => (TransactionIndexValue.decodeBytes codec slice false).map some
  | none => .ok none

/-- A row that cannot be decoded ends the loop over the signatures. -/
def spawnSignatureStatuses (self : RocksdbRows) (codec : ErrorCodec) (keys : HashedKeys) :
    List Signature → Except Buf.Fault (List (Signature × TransactionIndexValue))
  | [] => .ok []
  | signature :: rest =>
      match self.transactionIndex.get (keys.signatureKey signature).toKey with
      | none => self.spawnSignatureStatuses codec keys rest
      | some slice => do
          let value ← TransactionIndexValue.decodeBytes codec slice true
          let values ← self.spawnSignatureStatuses codec keys rest
          .ok ((signature, value) :: values)

def spawnSfaPosition (self : RocksdbRows) (codec : ErrorCodec) (keys : HashedKeys)
    (address : Pubkey) (slot : Nat) (signature : Signature) : Except Buf.Fault (Option Nat) :=
  match self.sfaIndex.get (SfaKey.concat (keys.addressHash address) slot).toKey with
  | none => .ok none
  | some value => SfaIndexValue.findPosition codec signature value

/-- The loop reads the rows of the address until another address comes. -/
def signaturesLoop (codec : ErrorCodec) (addressHash : HashedKey) (stop : Signature)
    (capacity : Nat) : List (ByteKey × Bytes) → SfaScan → Except Buf.Fault SfaScan
  | [], scan => .ok scan
  | (key, value) :: rest, scan => do
      let (itemAddressHash, slot) ← SfaKey.decode key
      if itemAddressHash ≠ addressHash.toBytes then .ok scan
      else
        let scan ← SfaIndexValue.scanEntries codec stop capacity (indexRecord slot) value scan
        if scan.finished then .ok scan
        else signaturesLoop codec addressHash stop capacity rest scan

/-- The iterator goes down from the row of the slot. -/
def spawnSignatiresForAddress (self : RocksdbRows) (codec : ErrorCodec) (keys : HashedKeys)
    (address : Pubkey) (slot : Nat) (before : Option Signature) (stop : Signature) (capacity : Nat)
    (signatures : List RpcConfirmedTransactionStatusWithSignature) :
    Except Buf.Fault (List RpcConfirmedTransactionStatusWithSignature × Bool) := do
  let addressHash := keys.addressHash address
  let rows := (self.sfaIndex.entries.filter fun row =>
    row.1 ≤ (SfaKey.concat addressHash slot).toKey).reverse
  let scan ← signaturesLoop codec addressHash stop capacity rows ⟨before, signatures, false⟩
  .ok (scan.signatures, scan.finished)

/-- A row is decoded as a whole before its entries are taken. -/
def transactionsLoop (codec : ErrorCodec) (addressHash : HashedKey) (desc : Bool)
    (stopSlot : Option Nat) (capacity : Nat) :
    List (ByteKey × Bytes) → TfaScan → Except Buf.Fault TfaScan
  | [], scan => .ok scan
  | (key, value) :: rest, scan => do
      let (itemAddressHash, itemSlot) ← SfaKey.decode key
      if itemAddressHash ≠ addressHash.toBytes then .ok scan
      else if outOfRange desc stopSlot itemSlot then .ok scan
      else
        let entries ← SfaIndexValue.decodeEntries codec value
        let scan := scan.takeRow desc capacity (indexRecord itemSlot)
          (if desc then entries else entries.reverse)
        if scan.finished then transactionsLoop codec addressHash desc stopSlot capacity rest scan
        else .ok scan

/-- The iterator goes down or up from the row of the slot. -/
def rowsFrom (self : RocksdbRows) (addressHash : HashedKey) (slot : Nat) (desc : Bool) :
    List (ByteKey × Bytes) :=
  if desc then (self.sfaIndex.entries.filter fun row =>
    row.1 ≤ (SfaKey.concat addressHash slot).toKey).reverse
  else self.sfaIndex.entries.filter fun row => (SfaKey.concat addressHash slot).toKey ≤ row.1

def spawnTransactionsForAddress (self : RocksdbRows) (codec : ErrorCodec) (keys : HashedKeys)
    (address : Pubkey) (slot : Nat) (desc : Bool) (cursorTransactionIndex stopSlot : Option Nat)
    (capacity : Nat) (entries : List TfaEntry) : Except Buf.Fault (List TfaEntry × Bool) := do
  let addressHash := keys.addressHash address
  let scan ← transactionsLoop codec addressHash desc stopSlot capacity
    (self.rowsFrom addressHash slot desc) ⟨cursorTransactionIndex, entries, true⟩
  .ok (scan.entries, scan.finished)

end RocksdbRows

end Alpamayo
