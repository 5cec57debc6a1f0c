import Alpamayo.Proof.RecordFaults
import Alpamayo.Proof.SfaRecords
import Alpamayo.Proof.SlotRecords
import Alpamayo.Storage.RocksdbRows

/-!
This file proves that the database with the bytes of its rows answers like the one with the records.
-/

namespace Alpamayo

namespace SfaIndexValue

variable {codec : ErrorCodec} {slice rest : Bytes} {sig : SignatureStatus}

theorem decodeEntries_nil : decodeEntries codec [] = .ok [] := by
  rw [decodeEntries]
  rfl

theorem decodeEntries_cons (read : decode codec slice = .ok (some sig, rest)) :
    decodeEntries codec slice = (decodeEntries codec rest).map fun entries => sig :: entries := by
  rw [decodeEntries]
  split
  · rename_i fault failed
    rw [read] at failed
    cases failed
  · rename_i last ended
    rw [read] at ended
    cases ended
  · rename_i other after decoded
    rw [read] at decoded
    cases decoded
    rfl

/-- The entries of a row come back. -/
theorem decodeEntries_encode {signatures : List SignatureStatus}
    (fits : ∀ sig ∈ signatures, Fits codec sig) :
    decodeEntries codec (encode codec signatures) = .ok signatures := by
  induction signatures with
  | nil => exact decodeEntries_nil
  | cons sig signatures ih =>
      have read : decode codec (encode codec (sig :: signatures)) =
          .ok (some sig, encode codec signatures) :=
        decode_encodeEntry (fits sig List.mem_cons_self) (encode codec signatures)
      rw [decodeEntries_cons read, ih fun other member => fits other (List.mem_cons_of_mem _ member)]
      rfl

theorem findPosition_cons {signature : Signature} (read : decode codec slice = .ok (some sig, rest)) :
    findPosition codec signature slice =
      if sig.signature = signature then .ok (some sig.transactionIndex)
      else findPosition codec signature rest := by
  rw [findPosition]
  split
  · rename_i fault failed
    rw [read] at failed
    cases failed
  · rename_i last ended
    rw [read] at ended
    cases ended
  · rename_i other after decoded
    rw [read] at decoded
    cases decoded
    rfl

/-- The first entry of the signature has the position. -/
theorem findPosition_encode {signature : Signature} {signatures : List SignatureStatus}
    (fits : ∀ sig ∈ signatures, Fits codec sig) :
    findPosition codec signature (encode codec signatures) =
      .ok ((signatures.find? fun item => item.signature = signature).map fun item =>
        item.transactionIndex) := by
  induction signatures with
  | nil =>
      rw [findPosition]
      rfl
  | cons sig signatures ih =>
      have read : decode codec (encode codec (sig :: signatures)) =
          .ok (some sig, encode codec signatures) :=
        decode_encodeEntry (fits sig List.mem_cons_self) (encode codec signatures)
      rw [findPosition_cons read]
      by_cases same : sig.signature = signature
      · simp [same]
      · rw [if_neg same, ih fun other member => fits other (List.mem_cons_of_mem _ member)]
        simp [same]

theorem scanEntries_cons {stop : Signature} {capacity : Nat}
    {record : SignatureStatus → RpcConfirmedTransactionStatusWithSignature} {scan : SfaScan}
    (read : decode codec slice = .ok (some sig, rest)) :
    scanEntries codec stop capacity record slice scan = scan.before.elim
      (if (scan.take stop capacity (record sig)).finished then
        .ok (scan.take stop capacity (record sig))
      else scanEntries codec stop capacity record rest (scan.take stop capacity (record sig)))
      fun signature => scanEntries codec stop capacity record rest
        (if sig.signature = signature then { scan with before := none } else scan) := by
  rw [scanEntries]
  split
  · rename_i fault failed
    rw [read] at failed
    cases failed
  · rename_i last ended
    rw [read] at ended
    cases ended
  · rename_i other after decoded
    rw [read] at decoded
    cases decoded
    cases scan.before with
    | none => rfl
    | some signature => rfl

/-- The scan of the bytes is the scan of the entries. -/
theorem scanEntries_encode {stop : Signature} {capacity : Nat}
    {record : SignatureStatus → RpcConfirmedTransactionStatusWithSignature}
    {signatures : List SignatureStatus} (fits : ∀ sig ∈ signatures, Fits codec sig)
    (scan : SfaScan) :
    scanEntries codec stop capacity record (encode codec signatures) scan =
      .ok (scan.takeRow stop capacity record signatures) := by
  induction signatures generalizing scan with
  | nil =>
      rw [scanEntries]
      rfl
  | cons sig signatures ih =>
      have read : decode codec (encode codec (sig :: signatures)) =
          .ok (some sig, encode codec signatures) :=
        decode_encodeEntry (fits sig List.mem_cons_self) (encode codec signatures)
      have later := ih fun other member => fits other (List.mem_cons_of_mem _ member)
      rw [scanEntries_cons read, SfaScan.takeRow]
      cases scan.before with
      | some signature => exact later _
      | none =>
          rw [Option.elim_none]
          dsimp only
          split
          · rfl
          · exact later _

end SfaIndexValue

/-- Two numbers with the same bytes are equal. -/
theorem bigEndian_inj {count first second : Nat} (fits : first < 256 ^ count)
    (otherFits : second < 256 ^ count) :
    Buf.bigEndian count first = Buf.bigEndian count second ↔ first = second := by
  constructor
  · intro same
    rw [← Buf.ofBigEndian_bigEndian fits, same, Buf.ofBigEndian_bigEndian otherFits]
  · intro same
    rw [same]

theorem HashedKey.toNat_lt (key : HashedKey) : key.toNat < 256 ^ 8 := key.isLt

theorem HashedKey.toKey_injective : Function.Injective HashedKey.toKey := by
  intro first second same
  have bytes : first.toBytes = second.toBytes := ByteKey.mk.inj same
  exact BitVec.eq_of_toNat_eq ((bigEndian_inj first.toNat_lt second.toNat_lt).mp bytes)

theorem slotKey_lt {low high : Nat} (fits : high < 256 ^ 8) (less : low < high) :
    slotKey low < slotKey high := ByteKey.bigEndian_lt less fits

theorem slotOfKey_slotKey {slot : Nat} (fits : slot < 256 ^ 8) : slotOfKey (slotKey slot) = .ok slot := by
  have length : (slotKey slot).bytes.length = 8 := Buf.length_bigEndian 8 slot
  rw [slotOfKey, if_pos length]
  exact congrArg Except.ok (Buf.ofBigEndian_bigEndian fits)

namespace SfaKey

/-- Both parts of the key have eight bytes. -/
def Fits (key : SfaKey) : Prop := (ofLex key).1 < 256 ^ 8 ∧ (ofLex key).2 < 256 ^ 8

theorem concat_fits (hash : HashedKey) {slot : Nat} (fits : slot < 256 ^ 8) :
    (concat hash slot).Fits := ⟨hash.toNat_lt, fits⟩

/-- The bytes of the hash come before those of the slot. -/
theorem toKey_lt {low high : SfaKey} (fits : high.Fits) (less : low < high) :
    low.toKey < high.toKey := by
  rcases Prod.Lex.lt_iff.mp less with hash | ⟨same, slot⟩
  · apply ByteKey.append_lt_append (ByteKey.bigEndian_lt hash fits.1)
    rw [Buf.length_bigEndian, Buf.length_bigEndian]
  · unfold toKey
    rw [same]
    exact ByteKey.append_lt_append_left (ByteKey.bigEndian_lt slot fits.2) _

theorem decode_toKey {key : SfaKey} (fits : key.Fits) :
    decode key.toKey = .ok (Buf.bigEndian 8 (ofLex key).1, (ofLex key).2) := by
  have hash : (Buf.bigEndian 8 (ofLex key).1).length = 8 := Buf.length_bigEndian _ _
  have length : key.toKey.bytes.length = 16 := by
    rw [toKey, List.length_append, hash, Buf.length_bigEndian]
  have front : key.toKey.bytes.take 8 = Buf.bigEndian 8 (ofLex key).1 := by
    rw [toKey, List.take_left' hash]
  have back : key.toKey.bytes.drop 8 = Buf.bigEndian 8 (ofLex key).2 := by
    rw [toKey, List.drop_left' hash]
  rw [decode, if_pos length, front, back, Buf.ofBigEndian_bigEndian fits.2]

/-- The hash of a key is compared by its bytes. -/
theorem hash_eq_iff {key : SfaKey} (fits : key.Fits) (hash : HashedKey) :
    Buf.bigEndian 8 (ofLex key).1 = hash.toBytes ↔ (ofLex key).1 = hash.toNat :=
  bigEndian_inj fits.1 hash.toNat_lt

end SfaKey

namespace RocksdbRows

/-- A dead record has only its flag. -/
def basicCode : MapCode Nat SlotBasicIndexValue ByteKey Bytes where
  KeyFits slot := slot < 256 ^ 8
  ValueFits value := value.Fits ∧ (value.dead = true → value = { dead := true })
  key := slotKey
  value := SlotBasicIndexValue.encode
  key_lt _ fits less := slotKey_lt fits less

def extraCode : MapCode Nat SlotExtraIndexValue ByteKey Bytes where
  KeyFits slot := slot < 256 ^ 8
  ValueFits := SlotExtraIndexValue.Fits
  key := slotKey
  value := SlotExtraIndexValue.encode
  key_lt _ fits less := slotKey_lt fits less

def transactionCode (codec : ErrorCodec) : HashCode HashedKey TransactionIndexValue ByteKey Bytes where
  ValueFits value := value.Fits codec
  key := HashedKey.toKey
  value record := record.encode codec
  key_injective := HashedKey.toKey_injective

def sfaCode (codec : ErrorCodec) : MapCode SfaKey (List SignatureStatus) ByteKey Bytes where
  KeyFits := SfaKey.Fits
  ValueFits signatures := ∀ sig ∈ signatures, SfaIndexValue.Fits codec sig
  key := SfaKey.toKey
  value := SfaIndexValue.encode codec
  key_lt _ fits less := SfaKey.toKey_lt fits less

variable {codec : ErrorCodec} {db : Rocksdb} {rows : RocksdbRows}

/-- The rows are the bytes of the records. -/
structure Codes (codec : ErrorCodec) (db : Rocksdb) (rows : RocksdbRows) : Prop where
  basic : basicCode.Codes db.slotBasicIndex rows.slotBasicIndex
  extra : extraCode.Codes db.slotExtraIndex rows.slotExtraIndex
  transaction : (transactionCode codec).Codes db.transactionIndex rows.transactionIndex
  sfa : (sfaCode codec).Codes db.sfaIndex rows.sfaIndex

theorem codes_empty : Codes codec .empty .empty :=
  ⟨MapCode.codes_empty, MapCode.codes_empty, HashCode.codes_empty, MapCode.codes_empty⟩

end RocksdbRows

/-- The numbers of a request have their machine types, its lists fit into memory, and its errors can
be read. -/
inductive WriteRequest.Fits (codec : ErrorCodec) : WriteRequest → Prop where
  | addIndexes {slot : Nat} {block : BlockWithBinary} (slotFits : slot < 256 ^ 8)
      (transactions : 8 * block.txsOffset.length ≤ 9223372036854775807)
      (addresses : 8 * block.sfa.length ≤ 9223372036854775807)
      (records : ∀ tx ∈ block.txsOffset,
        TransactionIndexValue.Fits codec ⟨slot, tx.offset, tx.size, tx.err, tx.index⟩)
      (keys : ∀ entry ∈ block.sfa, entry.2.key.Fits)
      (statuses : ∀ entry ∈ block.sfa, ∀ sig ∈ entry.2.signatures, SfaIndexValue.Fits codec sig) :
      Fits codec (.addIndexes slot block)
  | slotAdd {slot : Nat} {data : Option (BlockWithBinary × StorageId × Nat)}
      (slotFits : slot < 256 ^ 8)
      (record : ∀ value ∈ data, SlotBasicIndexValue.Fits
        ⟨false, value.1.blockTime, value.1.blockHeight, value.2.1, value.2.2, value.1.protobuf.length⟩) :
      Fits codec (.slotAdd slot data)
  | slotRemove {slot : Nat} {dead : Bool} (slotFits : slot < 256 ^ 8) :
      Fits codec (.slotRemove slot dead)

namespace RocksdbRows

variable {codec : ErrorCodec} {db : Rocksdb} {rows : RocksdbRows}

theorem Codes.addIndexes (codes : Codes codec db rows) {slot : Nat} {block : BlockWithBinary}
    (fits : WriteRequest.Fits codec (.addIndexes slot block)) :
    Codes codec (db.addIndexes slot block) (rows.addIndexes codec slot block) := by
  cases fits with
  | addIndexes slotFits transactions addresses records keys statuses =>
      constructor
      · exact codes.basic
      · refine codes.extra.insert slotFits ⟨?_, ?_⟩
        · rw [List.length_map]
          exact transactions
        · rw [List.length_map]
          exact addresses
      · exact codes.transaction.foldl_insert block.txsOffset (fun tx => tx.key)
          (fun tx => (⟨slot, tx.offset, tx.size, tx.err, tx.index⟩ : TransactionIndexValue)) records
      · exact codes.sfa.foldl_insert block.sfa (fun entry => entry.2.key)
          (fun entry => entry.2.signatures) keys statuses

theorem Codes.slotAdd (codes : Codes codec db rows) {slot : Nat}
    {data : Option (BlockWithBinary × StorageId × Nat)}
    (fits : WriteRequest.Fits codec (.slotAdd slot data)) :
    Codes codec (db.slotAdd slot data) (rows.slotAdd slot data) := by
  cases fits with
  | slotAdd slotFits record =>
      constructor
      · apply codes.basic.insert slotFits
        cases data with
        | none => exact ⟨⟨by rintro _ ⟨⟩, by rintro _ ⟨⟩, by decide, by decide⟩, fun _ => rfl⟩
        | some value => exact ⟨record value rfl, by rintro ⟨⟩⟩
      · exact codes.extra
      · exact codes.transaction
      · exact codes.sfa

/-- A removal of the bytes is the removal of the records, with the same failure. -/
theorem Codes.removeSlot (codes : Codes codec db rows) {slot : Nat} {dead : Bool}
    (slotFits : slot < 256 ^ 8) :
    (∃ next after, db.spawnRemoveSlot slot dead = .ok next ∧
      rows.spawnRemoveSlot slot dead = .ok after ∧ Codes codec next after) ∨
    ∃ error, db.spawnRemoveSlot slot dead = .error error ∧
      rows.spawnRemoveSlot slot dead = .error error.toFault := by
  have basic : basicCode.Codes (db.slotBasicIndex.erase slot)
      (rows.slotBasicIndex.erase (slotKey slot)) := codes.basic.erase slotFits
  have lookup : rows.slotExtraIndex.get (slotKey slot) =
      (db.slotExtraIndex.get slot).map SlotExtraIndexValue.encode := codes.extra.get slotFits
  unfold Rocksdb.spawnRemoveSlot spawnRemoveSlot
  cases dead with
  | true => exact Or.inl ⟨_, _, rfl, rfl, basic, codes.extra, codes.transaction, codes.sfa⟩
  | false =>
      cases found : db.slotExtraIndex.get slot with
      | none =>
          rw [found] at lookup
          simp only [lookup]
          exact Or.inr ⟨_, rfl, rfl⟩
      | some block =>
          rw [found] at lookup
          have decoded : SlotExtraIndexValue.decode block.encode = .ok block :=
            SlotExtraIndexValue.decode_encode (codes.extra.fits_of_get found)
          let after : RocksdbRows := {
            slotBasicIndex := rows.slotBasicIndex.erase (slotKey slot)
            slotExtraIndex := rows.slotExtraIndex.erase (slotKey slot)
            transactionIndex := block.transactions.foldl (fun rows hash => rows.erase hash.toKey)
              rows.transactionIndex
            sfaIndex := block.sfa.foldl (fun rows hash => rows.erase (SfaKey.concat hash slot).toKey)
              rows.sfaIndex }
          refine Or.inl ⟨_, after, rfl, ?_, ?_⟩
          · rw [lookup]
            show (SlotExtraIndexValue.decode block.encode >>= _) = _
            rw [decoded]
            rfl
          · exact ⟨basic, codes.extra.erase slotFits, codes.transaction.foldl_remove block.transactions,
              codes.sfa.foldl_erase block.sfa (fun hash => SfaKey.concat hash slot) fun hash _ =>
                SfaKey.concat_fits hash slotFits⟩

/-- The outcome of a request is the same. -/
theorem Codes.write (codes : Codes codec db rows) {request : WriteRequest}
    (fits : request.Fits codec) :
    (∃ next after, db.write request = .ok next ∧ rows.write codec request = .ok after ∧
      Codes codec next after) ∨
    ∃ error, db.write request = .error error ∧
      rows.write codec request = .error error.toFault := by
  cases fits with
  | addIndexes slotFits transactions addresses records keys statuses =>
      exact Or.inl ⟨_, _, rfl, rfl,
        codes.addIndexes (.addIndexes slotFits transactions addresses records keys statuses)⟩
  | slotAdd slotFits record => exact Or.inl ⟨_, _, rfl, rfl, codes.slotAdd (.slotAdd slotFits record)⟩
  | slotRemove slotFits => exact codes.removeSlot slotFits

/-- A run over the bytes has the results of the run over the records. -/
theorem Codes.run (codes : Codes codec db rows) {requests : List WriteRequest}
    (fits : ∀ request ∈ requests, request.Fits codec) :
    (rows.run codec requests).1 =
        (db.run requests).1.map (fun result => result.mapError StorageError.toFault) ∧
      Codes codec (db.run requests).2 (rows.run codec requests).2 := by
  induction requests generalizing db rows with
  | nil => exact ⟨rfl, codes⟩
  | cons request rest ih =>
      have later : ∀ request ∈ rest, request.Fits codec := fun other member =>
        fits other (List.mem_cons_of_mem _ member)
      rcases codes.write (fits request List.mem_cons_self) with
        ⟨next, after, wrote, wroteRows, same⟩ | ⟨error, failed, failedRows⟩
      · obtain ⟨results, last⟩ := ih same later
        simp only [Rocksdb.run, RocksdbRows.run, wrote, wroteRows, List.map_cons]
        exact ⟨congrArg _ results, last⟩
      · obtain ⟨results, last⟩ := ih codes later
        simp only [Rocksdb.run, RocksdbRows.run, failed, failedRows, List.map_cons]
        exact ⟨congrArg _ results, last⟩

/-- The loop over the slots decodes its rows without a failure. -/
theorem slotsLoop_codes {entries : List (Nat × SlotBasicIndexValue)} (currentSlot : Option Nat)
    (keys : ∀ entry ∈ entries, basicCode.KeyFits entry.1)
    (values : ∀ entry ∈ entries, basicCode.ValueFits entry.2) :
    slotsLoop currentSlot (entries.map basicCode.entry) =
      (Rocksdb.spawnSlotsLoop currentSlot entries).mapError StorageError.toFault := by
  induction entries generalizing currentSlot with
  | nil => rfl
  | cons entry rest ih =>
      obtain ⟨slot, value⟩ := entry
      have slotFits : slot < 256 ^ 8 := keys _ List.mem_cons_self
      have valueFits := values _ List.mem_cons_self
      have later := ih (some slot) (fun other member => keys other (List.mem_cons_of_mem _ member))
        fun other member => values other (List.mem_cons_of_mem _ member)
      show (slotOfKey (slotKey slot) >>= fun slot => SlotBasicIndexValue.decode value.encode >>= _) = _
      rw [slotOfKey_slotKey slotFits]
      show (SlotBasicIndexValue.decode value.encode >>= _) = _
      rw [SlotBasicIndexValue.decode_encode valueFits.1 valueFits.2]
      show ((Rocksdb.checkHole currentSlot slot).mapError StorageError.toFault >>= fun _ =>
        slotsLoop (some slot) (rest.map basicCode.entry) >>= _) = _
      rw [later, Rocksdb.spawnSlotsLoop]
      cases Rocksdb.checkHole currentSlot slot with
      | error error => rfl
      | ok _ =>
          show ((Rocksdb.spawnSlotsLoop (some slot) rest).mapError StorageError.toFault >>= _) =
            (Rocksdb.spawnSlotsLoop (some slot) rest >>= _).mapError _
          cases Rocksdb.spawnSlotsLoop (some slot) rest with
          | error error => rfl
          | ok slots => rfl

section scans

variable {addressHash : HashedKey} {capacity : Nat} {entries : List (SfaKey × List SignatureStatus)}

/-- The scan of the rows of an address is the scan of its records. -/
theorem signaturesLoop_codes {stop : Signature} (scan : SfaScan)
    (keys : ∀ entry ∈ entries, (sfaCode codec).KeyFits entry.1)
    (values : ∀ entry ∈ entries, (sfaCode codec).ValueFits entry.2) :
    signaturesLoop codec addressHash stop capacity (entries.map (sfaCode codec).entry) scan =
      .ok (Rocksdb.signaturesLoop addressHash stop capacity entries scan) := by
  induction entries generalizing scan with
  | nil => rfl
  | cons entry rest ih =>
      obtain ⟨key, value⟩ := entry
      have keyFits : key.Fits := keys _ List.mem_cons_self
      have later := fun scan => ih scan (fun other member => keys other (List.mem_cons_of_mem _ member))
        fun other member => values other (List.mem_cons_of_mem _ member)
      show (SfaKey.decode key.toKey >>= _) = _
      rw [SfaKey.decode_toKey keyFits, Rocksdb.signaturesLoop]
      show (if Buf.bigEndian 8 (ofLex key).1 ≠ addressHash.toBytes then _ else _) = _
      by_cases same : (ofLex key).1 = addressHash.toNat
      · rw [if_neg (not_not.mpr ((SfaKey.hash_eq_iff keyFits addressHash).mpr same)),
          if_neg (not_not.mpr same)]
        show (SfaIndexValue.scanEntries codec stop capacity (indexRecord (ofLex key).2)
          (SfaIndexValue.encode codec value) scan >>= _) = _
        rw [SfaIndexValue.scanEntries_encode (values _ List.mem_cons_self)]
        show (if (scan.takeRow stop capacity (indexRecord (ofLex key).2) value).finished then _
          else _) = _
        rw [later]
        split
        · rename_i finished
          rw [if_pos finished]
        · rename_i more
          rw [if_neg more]
      · rw [if_pos fun equal => same ((SfaKey.hash_eq_iff keyFits addressHash).mp equal), if_pos same]

/-- The same for a scan in both directions. -/
theorem transactionsLoop_codes {desc : Bool} {stopSlot : Option Nat} (scan : TfaScan)
    (keys : ∀ entry ∈ entries, (sfaCode codec).KeyFits entry.1)
    (values : ∀ entry ∈ entries, (sfaCode codec).ValueFits entry.2) :
    transactionsLoop codec addressHash desc stopSlot capacity (entries.map (sfaCode codec).entry)
        scan =
      .ok (Rocksdb.transactionsLoop addressHash desc stopSlot capacity entries scan) := by
  induction entries generalizing scan with
  | nil => rfl
  | cons entry rest ih =>
      obtain ⟨key, value⟩ := entry
      have keyFits : key.Fits := keys _ List.mem_cons_self
      have later := fun scan => ih scan (fun other member => keys other (List.mem_cons_of_mem _ member))
        fun other member => values other (List.mem_cons_of_mem _ member)
      show (SfaKey.decode key.toKey >>= _) = _
      rw [SfaKey.decode_toKey keyFits, Rocksdb.transactionsLoop]
      show (if Buf.bigEndian 8 (ofLex key).1 ≠ addressHash.toBytes then _ else _) = _
      by_cases same : (ofLex key).1 = addressHash.toNat
      · rw [if_neg (not_not.mpr ((SfaKey.hash_eq_iff keyFits addressHash).mpr same)),
          if_neg (not_not.mpr same)]
        by_cases beyond : outOfRange desc stopSlot (ofLex key).2 = true
        · rw [if_pos beyond, if_pos beyond]
        · rw [if_neg beyond, if_neg beyond]
          show (SfaIndexValue.decodeEntries codec (SfaIndexValue.encode codec value) >>= _) = _
          rw [SfaIndexValue.decodeEntries_encode (values _ List.mem_cons_self)]
          show (if (scan.takeRow desc capacity (indexRecord (ofLex key).2)
            (if desc then value else value.reverse)).finished then _ else _) = _
          rw [later]
          by_cases more : (scan.takeRow desc capacity (indexRecord (ofLex key).2)
              (if desc then value else value.reverse)).finished = true
          · exact (if_pos more).trans (congrArg Except.ok (if_pos more).symm)
          · exact (if_neg more).trans (congrArg Except.ok (if_neg more).symm)
      · rw [if_pos fun equal => same ((SfaKey.hash_eq_iff keyFits addressHash).mp equal), if_pos same]

end scans

/-- The reads of the bytes have the answers of the reads of the records. -/
structure Answers (codec : ErrorCodec) (db : Rocksdb) (rows : RocksdbRows) : Prop where
  slots : rows.spawnSlots = db.spawnSlots.mapError StorageError.toFault
  transaction : ∀ keys signature, rows.spawnTransaction codec keys signature =
    .ok ((db.transactionIndex.get (keys.signatureKey signature)).map fun record =>
      { record with err := none })
  statuses : ∀ keys signatures, rows.spawnSignatureStatuses codec keys signatures =
    Buf.checked (Alpamayo.spawnSignatureStatuses db.transactionRows keys signatures)
  position : ∀ keys address slot signature, slot < 256 ^ 8 →
    rows.spawnSfaPosition codec keys address slot signature =
      .ok (db.spawnSfaPosition keys address slot signature)
  signatures : ∀ keys address slot before stop capacity records, slot < 256 ^ 8 →
    rows.spawnSignatiresForAddress codec keys address slot before stop capacity records =
      .ok (db.spawnSignatiresForAddress keys address slot before stop capacity records)
  transactions : ∀ keys address slot desc cursor stopSlot capacity entries, slot < 256 ^ 8 →
    rows.spawnTransactionsForAddress codec keys address slot desc cursor stopSlot capacity entries =
      .ok (db.spawnTransactionsForAddress keys address slot desc cursor stopSlot capacity entries)

theorem Codes.transaction_get (codes : Codes codec db rows) (key : HashedKey) :
    rows.transactionIndex.get key.toKey =
      (db.transactionIndex.get key).map fun record => record.encode codec :=
  codes.transaction.get key

/-- A record of a transaction comes back, with or without its error. -/
theorem decodeBytes_encode {record : TransactionIndexValue} (fits : record.Fits codec)
    (decodeError : Bool) :
    TransactionIndexValue.decodeBytes codec (record.encode codec) decodeError =
      .ok { record with err := if decodeError then record.err else none } := by
  rw [TransactionIndexValue.decodeBytes_eq, TransactionIndexValue.encode, List.append_assoc,
    TransactionIndexValue.decode_encodePlace fits.slot fits.offset fits.size,
    TransactionIndexValue.decodeTail_encode fits.err fits.index]
  cases decodeError with
  | true => rfl
  | false => rfl

theorem Codes.statuses (codes : Codes codec db rows) (keys : HashedKeys)
    (signatures : List Signature) : rows.spawnSignatureStatuses codec keys signatures =
      Buf.checked (Alpamayo.spawnSignatureStatuses db.transactionRows keys signatures) := by
  induction signatures with
  | nil => rfl
  | cons signature rest ih =>
      have lookup := codes.transaction_get (keys.signatureKey signature)
      have row : db.transactionRows.get (keys.signatureKey signature) =
        (db.transactionIndex.get (keys.signatureKey signature)).map .ok := rfl
      rw [RocksdbRows.spawnSignatureStatuses, Alpamayo.spawnSignatureStatuses]
      cases found : db.transactionIndex.get (keys.signatureKey signature) with
      | none =>
          rw [found] at lookup row
          simp only [lookup, row, Option.map_none]
          exact ih
      | some record =>
          rw [found] at lookup row
          simp only [lookup, row, Option.map_some]
          have fits := codes.transaction.values _ _ found
          rw [decodeBytes_encode fits true, ih]
          cases Alpamayo.spawnSignatureStatuses db.transactionRows keys rest with
          | error error => rfl
          | ok values => rfl

/-- The iterator meets the bytes of the same records. -/
theorem Codes.rowsFrom (codes : Codes codec db rows) (addressHash : HashedKey) {slot : Nat}
    (fits : slot < 256 ^ 8) (desc : Bool) :
    rows.rowsFrom addressHash slot desc =
        (db.rowsFrom addressHash slot desc).map (sfaCode codec).entry ∧
      ∀ entry ∈ db.rowsFrom addressHash slot desc, entry ∈ db.sfaIndex.entries := by
  have keyFits : (sfaCode codec).KeyFits (SfaKey.concat addressHash slot) :=
    SfaKey.concat_fits addressHash fits
  unfold RocksdbRows.rowsFrom Rocksdb.rowsFrom
  cases desc with
  | true =>
      rw [if_pos rfl, if_pos rfl, List.map_reverse]
      constructor
      · exact congrArg List.reverse (codes.sfa.upTo keyFits)
      · intro entry member
        exact List.mem_of_mem_filter (List.mem_reverse.mp member)
  | false =>
      rw [if_neg Bool.false_ne_true, if_neg Bool.false_ne_true]
      constructor
      · exact codes.sfa.onFrom keyFits
      · intro entry member
        exact List.mem_of_mem_filter member

/-- Rows that are the bytes of the records answer like them. -/
theorem Codes.answers (codes : Codes codec db rows) : Answers codec db rows where
  slots := by
    unfold spawnSlots
    rw [codes.basic.entries]
    exact slotsLoop_codes none codes.basic.keys codes.basic.values
  transaction keys signature := by
    unfold spawnTransaction
    rw [codes.transaction_get]
    cases found : db.transactionIndex.get (keys.signatureKey signature) with
    | none => rfl
    | some record =>
        show (TransactionIndexValue.decodeBytes codec (record.encode codec) false).map some = _
        rw [decodeBytes_encode (codes.transaction.values _ _ found)]
        rfl
  statuses := codes.statuses
  position keys address slot signature fits := by
    have lookup : rows.sfaIndex.get (SfaKey.concat (keys.addressHash address) slot).toKey =
        (db.sfaIndex.get (SfaKey.concat (keys.addressHash address) slot)).map
          (SfaIndexValue.encode codec) := codes.sfa.get (SfaKey.concat_fits _ fits)
    unfold spawnSfaPosition Rocksdb.spawnSfaPosition
    rw [lookup]
    cases found : db.sfaIndex.get (SfaKey.concat (keys.addressHash address) slot) with
    | none => rfl
    | some value => exact SfaIndexValue.findPosition_encode (codes.sfa.fits_of_get found)
  signatures keys address slot before stop capacity records fits := by
    obtain ⟨isRows, known⟩ := codes.rowsFrom (keys.addressHash address) fits true
    show (signaturesLoop codec (keys.addressHash address) stop capacity
      (rows.rowsFrom (keys.addressHash address) slot true) _ >>= _) = _
    rw [isRows, signaturesLoop_codes]
    · rfl
    · intro entry member
      exact codes.sfa.keys entry (known entry member)
    · intro entry member
      exact codes.sfa.values entry (known entry member)
  transactions keys address slot desc cursor stopSlot capacity entries fits := by
    obtain ⟨isRows, known⟩ := codes.rowsFrom (keys.addressHash address) fits desc
    show (transactionsLoop codec (keys.addressHash address) desc stopSlot capacity
      (rows.rowsFrom (keys.addressHash address) slot desc) _ >>= _) = _
    rw [isRows, transactionsLoop_codes]
    · rfl
    · intro entry member
      exact codes.sfa.keys entry (known entry member)
    · intro entry member
      exact codes.sfa.values entry (known entry member)

/-- The column families hold exactly the encoded records: a key of a slot or of an address has its bytes
from the highest on, the bytes have the order of the keys, and the removal lists of a slot can be read. -/
structure Holds (codec : ErrorCodec) (db : Rocksdb) (rows : RocksdbRows) : Prop where
  basic : rows.slotBasicIndex.entries = db.slotBasicIndex.entries.map fun entry =>
    (slotKey entry.1, entry.2.encode)
  extra : rows.slotExtraIndex.entries = db.slotExtraIndex.entries.map fun entry =>
    (slotKey entry.1, entry.2.encode)
  transaction : ∀ key bytes, rows.transactionIndex.get key = some bytes ↔ ∃ hash record,
    db.transactionIndex.get hash = some record ∧ key = hash.toKey ∧ bytes = record.encode codec
  sfa : rows.sfaIndex.entries = db.sfaIndex.entries.map fun entry =>
    (entry.1.toKey, SfaIndexValue.encode codec entry.2)
  slotOrder : ∀ low high, low ∈ db.slotBasicIndex.entries.map Prod.fst →
    high ∈ db.slotBasicIndex.entries.map Prod.fst → (slotKey low < slotKey high ↔ low < high)
  sfaOrder : ∀ low high, low ∈ db.sfaIndex.entries.map Prod.fst →
    high ∈ db.sfaIndex.entries.map Prod.fst → (low.toKey < high.toKey ↔ low < high)
  removal : ∀ slot value, db.slotExtraIndex.get slot = some value →
    ∃ bytes, rows.slotExtraIndex.get (slotKey slot) = some bytes ∧
      SlotExtraIndexValue.decode bytes = .ok value

/-- Rows that are the bytes of the records hold exactly them. -/
theorem Codes.holds (codes : Codes codec db rows) : Holds codec db rows where
  basic := codes.basic.entries
  extra := codes.extra.entries
  transaction _ _ := codes.transaction.get_iff
  sfa := codes.sfa.entries
  slotOrder low high isLow isHigh := by
    obtain ⟨first, member, rfl⟩ := List.mem_map.mp isLow
    obtain ⟨second, member', rfl⟩ := List.mem_map.mp isHigh
    exact basicCode.key_lt_iff (codes.basic.keys first member) (codes.basic.keys second member')
  sfaOrder low high isLow isHigh := by
    obtain ⟨first, member, rfl⟩ := List.mem_map.mp isLow
    obtain ⟨second, member', rfl⟩ := List.mem_map.mp isHigh
    exact (sfaCode codec).key_lt_iff (codes.sfa.keys first member) (codes.sfa.keys second member')
  removal slot value found := by
    have fits := codes.extra.keys (slot, value) (SortedMap.get_eq_some_iff.mp found)
    have lookup : rows.slotExtraIndex.get (slotKey slot) = _ := codes.extra.get fits
    rw [found] at lookup
    exact ⟨_, lookup, SlotExtraIndexValue.decode_encode (codes.extra.fits_of_get found)⟩

/-- After any requests the database of rows has given the results of the database of records, it holds
exactly the encoded records, and its reads give the same answers. -/
theorem run_answers {requests : List WriteRequest}
    (fits : ∀ request ∈ requests, request.Fits codec) :
    (RocksdbRows.empty.run codec requests).1 =
        (Rocksdb.empty.run requests).1.map (fun result => result.mapError StorageError.toFault) ∧
      Holds codec (Rocksdb.empty.run requests).2 (RocksdbRows.empty.run codec requests).2 ∧
      Answers codec (Rocksdb.empty.run requests).2 (RocksdbRows.empty.run codec requests).2 := by
  obtain ⟨results, codes⟩ := codes_empty.run fits
  exact ⟨results, codes.holds, codes.answers⟩

/-- A block with one failed transaction of one address. -/
def oneTransaction : BlockWithBinary where
  blockhash := "hash"
  parentSlot := 6
  blockTime := some (-3)
  blockHeight := some 5
  protobuf := [1, 2, 3]
  txsOffset := [⟨9, 0, 3, some [8], 300⟩]
  transactions := []
  sfa := [(⟨4⟩, ⟨SfaKey.concat 11 7, 11, [⟨⟨2⟩, some [8], some "paid", 300, true, false⟩]⟩)]

/-- Slot 7 is stored with its block and slot 8 is stored dead; the removal of slot 6 fails. -/
def twoSlots : List WriteRequest :=
  [.addIndexes 7 oneTransaction, .slotAdd 7 (some (oneTransaction, 1, 0)), .slotAdd 8 none,
    .slotRemove 6 false]

theorem twoSlots_fits :
    ∀ request ∈ twoSlots, request.Fits TransactionIndexValue.plainErrors := by
  have removes : WriteRequest.Fits TransactionIndexValue.plainErrors (.slotRemove 6 false) :=
    .slotRemove (by decide)
  have dies : WriteRequest.Fits TransactionIndexValue.plainErrors (.slotAdd 8 none) :=
    .slotAdd (by decide) (by rintro _ ⟨⟩)
  have adds : WriteRequest.Fits TransactionIndexValue.plainErrors
      (.slotAdd 7 (some (oneTransaction, 1, 0))) := by
    refine .slotAdd (by decide) ?_
    rintro _ ⟨⟩
    exact ⟨by rintro _ ⟨⟩; exact ⟨by decide, by decide⟩, by rintro _ ⟨⟩; decide, by decide, by decide⟩
  have indexes : WriteRequest.Fits TransactionIndexValue.plainErrors
      (.addIndexes 7 oneTransaction) := by
    refine .addIndexes (by decide) (by decide) (by decide) ?_ ?_ ?_
    · intro tx member
      rw [List.mem_singleton.mp member]
      refine ⟨by decide, by decide, by decide, ?_, by decide⟩
      rintro _ ⟨⟩
      exact ⟨by decide, by decide, rfl⟩
    · intro entry member
      rw [List.mem_singleton.mp member]
      exact ⟨by decide, by decide⟩
    · intro entry member sig known
      rw [List.mem_singleton.mp member] at known
      rw [List.mem_singleton.mp known]
      refine ⟨by decide, by decide, ?_, ?_, ?_⟩
      · rintro _ ⟨⟩
        decide
      · rintro _ ⟨⟩
        rfl
      · rintro _ ⟨⟩
        decide
  intro request member
  simp only [twoSlots, List.mem_cons, List.not_mem_nil, or_false] at member
  rcases member with rfl | rfl | rfl | rfl
  · exact indexes
  · exact adds
  · exact dies
  · exact removes

/-- The rows of slot 7 answer the lookup of its transaction and the scan of its address. -/
theorem run_answers_twoSlots :
    (RocksdbRows.empty.run TransactionIndexValue.plainErrors twoSlots).1 =
        [.ok (), .ok (), .ok (), .error (.failed "existed slot 6 not found")] ∧
      (RocksdbRows.empty.run TransactionIndexValue.plainErrors twoSlots).2.slotBasicIndex.entries.map
        Prod.fst = [⟨[0, 0, 0, 0, 0, 0, 0, 7]⟩, ⟨[0, 0, 0, 0, 0, 0, 0, 8]⟩] ∧
      (RocksdbRows.empty.run TransactionIndexValue.plainErrors twoSlots).2.spawnTransaction
        TransactionIndexValue.plainErrors ⟨fun _ => 9, fun _ => 11⟩ ⟨2⟩ =
          .ok (some ⟨7, 0, 3, none, 300⟩) ∧
      (RocksdbRows.empty.run TransactionIndexValue.plainErrors twoSlots).2.spawnSfaPosition
        TransactionIndexValue.plainErrors ⟨fun _ => 9, fun _ => 11⟩ ⟨4⟩ 7 ⟨2⟩ = .ok (some 300) := by
  obtain ⟨results, holds, answers⟩ := run_answers twoSlots_fits
  refine ⟨results, ?_, ?_, ?_⟩
  · rw [holds.basic]
    decide +kernel
  · rw [answers.transaction]
    decide +kernel
  · rw [answers.position _ _ _ _ (by decide)]
    decide +kernel

end RocksdbRows

end Alpamayo
