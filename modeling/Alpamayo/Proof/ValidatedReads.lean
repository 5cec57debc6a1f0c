import Alpamayo.Proof.StoredBytes
import Alpamayo.Proof.WriterChain
import Alpamayo.Rpc.Transaction
import Alpamayo.Storage.Startup

/-!
This file shows when the last check of a handler makes the bytes of a slow file read those of the block.
-/

namespace Alpamayo

variable {contents : List StoredBlock}

/-- A range has as many bytes as its size. -/
theorem DiskFile.length_of_bytesAt {file : DiskFile} {offset size : Nat} {bytes : Bytes}
    (same : file.bytesAt offset size = bytes) : bytes.length = size := by
  rw [← same, bytesAt, List.length_map, List.length_range]

/-- A read of a part of a range whose bytes stay the same returns that part. -/
theorem StorageFilesRead.Reads.slice {reading : StorageFilesRead} {moments : Nat → Disk}
    {storageId : StorageId} {base length offset size : Nat} {path : Path} {content bytes : Bytes}
    (reads : reading.Reads moments storageId (base + offset) size (.ok bytes))
    (found : reading.fileOf storageId = some path) (inside : offset + size ≤ length)
    (same : ∀ index < size, (moments index path).bytesAt base length = content) :
    bytes = (content.drop offset).take size := by
  cases reads with
  | bytes path' found' long =>
      rw [found] at found'
      cases found'
      have measured : 0 < size → content.length = length :=
        fun positive => DiskFile.length_of_bytesAt (same 0 positive)
      apply List.ext_getElem
      · rw [List.length_map, List.length_range, List.length_take, List.length_drop]
        omega
      · intro index low high
        rw [List.length_map, List.length_range] at low
        have known := same index low
        rw [List.getElem_map, List.getElem_range, List.getElem_take, List.getElem_drop]
        have whole : offset + index < content.length := by
          have := measured (by omega)
          omega
        rw [List.getElem_of_eq known.symm whole]
        simp [DiskFile.bytesAt, Nat.add_assoc]

namespace Writer

variable {first resolved checked : Writer} {start reader : Reader} {moments : Nat → Writer}
  {reading : StorageFilesRead} {slot : Nat} {location : StoredBlock}

/-- The reader that takes the request in the state `resolved` has applied some part of the messages;
each byte is read at its own moment, and the last check comes after all of them. -/
structure LaggingRead (allowed : Writer → WriterEvent → Prop) (first : Writer) (start : Reader)
    (resolved checked : Writer) (reader : Reader) (moments : Nat → Writer) : Prop where
  started : Run allowed first resolved
  replica : ∃ messages, messages <+: resolved.store.blocks.sent ∧
    start.updates messages = .ok reader
  before : ∀ index, Run allowed resolved (moments index)
  later : ∀ index, Run allowed (moments index) checked

/-- The slot has these bytes in the store and no others. -/
def Stores (writer : Writer) (slot : Nat) (bytes : Bytes) : Prop :=
  (∃ cell, (cell, bytes) ∈ writer.stored ∧ cell.slot = slot) ∧
    ∀ entry ∈ writer.stored, entry.1.slot = slot → entry.2 = bytes

/-- An entry gives the only bytes of its slot. -/
theorem Keeps.stores {writer : Writer} (keeps : writer.Keeps reading contents)
    {entry : StoredBlock × Bytes} (member : entry ∈ writer.stored) :
    writer.Stores entry.1.slot entry.2 := by
  refine ⟨⟨entry.1, member, rfl⟩, fun other inside same => ?_⟩
  rw [List.inj_on_of_nodup_map keeps.distinct inside member same]

/-- A location that the reader finds is that of a stored block. -/
theorem LaggingRead.located (lagging : LaggingRead SparesStored first start resolved checked reader moments)
    (keeps : first.Keeps reading contents) (idle : first.task = .idle)
    (silent : first.store.blocks.sent = []) (copy : start.blocks = first.store.blocks.toRead)
    (found : reader.blocks.getBlockLocation slot = .found location) :
    ∃ bytes, (location, bytes) ∈ resolved.stored ∧ location.slot = slot ∧ location.dead = false := by
  obtain ⟨messages, part, updated⟩ := lagging.replica
  obtain ⟨point, started, reaches, known, settled⟩ :=
    (lagging.started.replayed keeps.spans idle silent copy).earlier messages part
  obtain ⟨next, updated', follows⟩ := (started.replayed keeps.spans idle silent copy).replay
  rw [known, updated] at updated'
  cases updated'
  have same := follows.blocks
  rw [settled] at same
  change reader.blocks = _ at same
  rw [same] at found
  obtain ⟨rest, kept, -⟩ := started.keeps keeps
  obtain ⟨member, isSlot, live⟩ := kept.spans.ring.mem_of_getBlockLocation found
  obtain ⟨bytes, stored⟩ := kept.known location member
  obtain ⟨_, -, retained⟩ := reaches.keeps kept
  exact ⟨bytes, retained.stored _ stored, isSlot, live⟩

/-- When the last check passes, the located block had its bytes at every moment of the read. -/
theorem LaggingRead.intact (lagging : LaggingRead SparesStored first start resolved checked reader moments)
    (keeps : first.Keeps reading contents) {bytes : Bytes} (stored : (location, bytes) ∈ resolved.stored)
    (live : location.dead = false) (small : location.slot ≤ maxSlot)
    (valid : checked.store.blocks.firstAvailable < location.slot) {path : Path}
    (found : reading.fileOf location.storageId = some path) (index : Nat) :
    ((moments index).store.disk path).bytesAt location.offset location.size = bytes := by
  obtain ⟨rest, kept, -⟩ := lagging.started.keeps keeps
  obtain ⟨middle, during, earlier⟩ := (lagging.before index).keeps kept
  obtain ⟨last, final, later⟩ := (lagging.later index).keeps during
  have member := earlier.stored _ stored
  have remains : location ∈ last := by
    by_contra outside
    have published := final.published _ (later.stored _ member) outside small
    dsimp only at published
    omega
  exact during.bytes _ member (later.gone _ member remains) live path found

/-- The bytes of the located block are the stored ones of its slot. -/
theorem LaggingRead.stores (lagging : LaggingRead SparesStored first start resolved checked reader moments)
    (keeps : first.Keeps reading contents) {bytes : Bytes}
    (stored : (location, bytes) ∈ resolved.stored) :
    (location, bytes) ∈ checked.stored ∧ checked.Stores location.slot bytes := by
  obtain ⟨rest, kept, -⟩ := lagging.started.keeps keeps
  obtain ⟨middle, during, earlier⟩ := (lagging.before 0).keeps kept
  obtain ⟨last, final, later⟩ := (lagging.later 0).keeps during
  have member := later.stored _ (earlier.stored _ stored)
  exact ⟨member, final.stores member⟩

end Writer

/-- The recorded blocks have the bytes of their files when the storage is opened. -/
theorem Startup.keeps (startup : Startup) (opens : startup.reading.Opens startup.files) :
    startup.writer.Keeps startup.reading startup.list := by
  have spans : startup.writer.Spans startup.list :=
    Writer.spans_start startup.loaded startup.placed
  have members : ∀ entry ∈ startup.writer.stored,
      entry.1 ∈ startup.list ∧ entry.2 = startup.bytesOf entry.1 := by
    intro entry member
    obtain ⟨cell, inside, rfl⟩ := List.mem_map.mp member
    exact ⟨inside, rfl⟩
  refine ⟨spans, opens, by rintro _ ⟨⟩, ?_, ?_, ?_, ?_, ?_, ?_, by rintro _ ⟨⟩, by rintro _ ⟨⟩⟩
  · exact fun cell member => ⟨_, List.mem_map.mpr ⟨cell, member, rfl⟩⟩
  · intro entry member inside live path found
    rw [(members entry member).2, bytesOf, found]
    rfl
  · exact fun entry member outside => absurd (members entry member).1 outside
  · exact fun entry member outside => absurd (members entry member).1 outside
  · exact fun evicted entry member => (members entry member).1
  · change ((startup.list.map _).map _).Nodup
    rw [List.map_map]
    apply List.pairwise_iff_getElem.mpr
    intro low high lowInside highInside less
    rw [List.getElem_map, List.getElem_map]
    exact spans.ring.consecutive.slot_ne (List.getElem?_eq_getElem _)
      (List.getElem?_eq_getElem _) less

/-- One of the two calls serves the bytes as the block of the slot. -/
def ServesBlock (slot : Nat) (result : ReadResultBlock) (firstAvailable : Nat) (bytes : Bytes) :
    Prop :=
  (∃ (request : RpcRequestBlock) (upstream : Bool) (confirmed finalized firstBefore : Nat),
      request.slot = slot ∧
        request.process upstream confirmed finalized firstBefore result firstAvailable =
          .work bytes) ∨
    ∃ (request : HttpRequestBlock) (upstream : Bool) (confirmed firstBefore : Nat),
      request.slot = slot ∧
        request.processBlock upstream confirmed firstBefore result firstAvailable = .body bytes

/-- A call serves only what was read, and only above the first available slot. -/
theorem ServesBlock.checked {slot firstAvailable : Nat} {result : ReadResultBlock} {bytes : Bytes}
    (serves : ServesBlock slot result firstAvailable bytes) :
    result = .block bytes ∧ firstAvailable < slot := by
  obtain ⟨request, upstream, confirmed, finalized, firstBefore, rfl, served⟩ |
    ⟨request, upstream, confirmed, firstBefore, rfl, served⟩ := serves
  · exact RpcRequestBlock.process_work served
  · exact HttpRequestBlock.processBlock_body served

/-- One of the two calls serves the bytes as a transaction of the slot. -/
def ServesTransaction (result : ReadResultTransaction) (firstAvailable slot : Nat) (bytes : Bytes) :
    Prop :=
  (∃ (request : RpcRequestTransaction) (upstream : Bool) (finalized : Nat)
      (blockTime : Option UnixTimestamp) (index : Nat),
      request.process upstream result finalized firstAvailable = .work slot blockTime bytes index) ∨
    ∃ (request : HttpRequestTransaction) (upstream : Bool),
      request.processTransaction upstream result firstAvailable = .body slot bytes

/-- A call serves only what was read, and only above the first available slot. -/
theorem ServesTransaction.checked {result : ReadResultTransaction} {firstAvailable slot : Nat}
    {bytes : Bytes} (serves : ServesTransaction result firstAvailable slot bytes) :
    (∃ blockTime index, result = .transaction slot blockTime bytes index) ∧
      firstAvailable < slot := by
  obtain ⟨request, upstream, finalized, blockTime, index, served⟩ | ⟨request, upstream, served⟩ :=
    serves
  · obtain ⟨same, valid⟩ := RpcRequestTransaction.process_work served
    exact ⟨⟨blockTime, index, same⟩, valid⟩
  · exact HttpRequestTransaction.processTransaction_body served

/-- A request for a block that needs a file has found its location. -/
theorem Reader.found_of_processBlock {reader : Reader} {expired : Bool} {slot : Nat}
    {location : StoredBlock} (read : reader.processBlock expired slot = .read location) :
    reader.blocks.getBlockLocation slot = .found location := by
  unfold processBlock at read
  split at read
  · cases read
  · split at read
    · cases read
    · cases read
    · unfold locateBlock at read
      split at read <;> cases read
      assumption

/-- A request for a transaction that needs a file has found its location. -/
theorem Reader.found_of_processTransaction2 {reader : Reader} {expired : Bool}
    {index : TransactionIndexValue} {location : StoredBlock}
    (read : reader.processTransaction2 expired index = .read location) :
    reader.blocks.getBlockLocation index.slot = .found location := by
  unfold processTransaction2 at read
  split at read
  · cases read
  · split at read <;> cases read
    assumption

/-- Only the bytes of a finished read make an answer with bytes. -/
theorem finishBlock_eq_block {result : Except ReadFileError Bytes} {bytes : Bytes}
    (finished : finishBlock (some result) = .block bytes) : result = .ok bytes := by
  cases result <;> cases finished
  rfl

/-- Only the bytes of a finished read make an answer with bytes. -/
theorem finishTransaction_eq_transaction {index : TransactionIndexValue} {location : StoredBlock}
    {result : Except ReadFileError Bytes} {slot place : Nat} {blockTime : Option UnixTimestamp}
    {bytes : Bytes} (finished : finishTransaction index location (some result) =
      .transaction slot blockTime bytes place) : result = .ok bytes ∧ slot = index.slot := by
  cases result <;> cases finished
  exact ⟨rfl, rfl⟩

/-- Once the readers open the writer's files and the slots at the front ascend, a handler whose last
check passes serves the bytes that the store has for the slot, or the part of them that is the
transaction. -/
theorem Writer.run_servesStored (startup : Startup) (opens : startup.reading.Opens startup.files)
    (recentBlocks : List (Nat × BlockWithBinary)) (resolved checked : Writer) (reader : Reader)
    (moments : Nat → Writer) (lagging : LaggingRead SparesStored startup.writer
      (startup.reader recentBlocks) resolved checked reader moments)
    (expired : Bool) (location : StoredBlock) (result : Except ReadFileError Bytes) (bytes : Bytes) :
    (∀ slot, slot ≤ maxSlot → reader.processBlock expired slot = .read location →
      startup.reading.Reads (fun index => (moments index).store.disk) location.storageId
        location.offset location.size result →
      ServesBlock slot (finishBlock (some result)) checked.store.blocks.firstAvailable bytes →
      checked.Stores slot bytes) ∧
    ∀ (keys : HashedKeys) (parsePubkey : String → Option Pubkey) (chain : Chain keys parsePubkey)
      (looked : Writer) (signature : Signature) (index : TransactionIndexValue) (slot : Nat),
      chain.Covers startup.writer → Run chain.Permits startup.writer looked →
      Run chain.Permits startup.writer checked →
      looked.store.db.transactionIndex.get (keys.signatureKey signature) = some index →
      index.slot ≤ maxSlot → reader.processTransaction2 expired index = .read location →
      startup.reading.Reads (fun index => (moments index).store.disk) location.storageId
        (location.offset + index.offset) index.size result →
      ServesTransaction (finishTransaction index location (some result))
        checked.store.blocks.firstAvailable slot bytes →
      ∃ content tx, checked.Stores slot content ∧ tx ∈ chain.transactions slot ∧
        tx.key = keys.signatureKey signature ∧ tx.protobuf = bytes ∧
        (content.drop index.offset).take index.size = bytes := by
  have keeps := startup.keeps opens
  have silent : startup.blocks.sent = [] := (StoredBlocksWrite.new_fields startup.placed).1
  constructor
  · intro slot small read reads serves
    obtain ⟨finished, valid⟩ := serves.checked
    obtain rfl := finishBlock_eq_block finished
    obtain ⟨content, stored, rfl, live⟩ :=
      lagging.located keeps rfl silent rfl (Reader.found_of_processBlock read)
    cases id reads with
    | bytes path found long =>
        have intact := lagging.intact keeps stored live small valid found
        have measured := DiskFile.length_of_bytesAt (intact 0)
        have start : startup.reading.Reads (fun index => (moments index).store.disk)
            location.storageId (location.offset + 0) location.size _ := reads
        have whole := start.slice found (Nat.zero_add _).le fun index _ => intact index
        rw [List.drop_zero, List.take_of_length_le measured.le] at whole
        rw [whole]
        exact (lagging.stores keeps stored).2
  · intro keys parsePubkey chain looked signature index slot covers looks checks record small read
      reads serves
    obtain ⟨⟨blockTime, place, finished⟩, valid⟩ := serves.checked
    obtain ⟨rfl, rfl⟩ := finishTransaction_eq_transaction finished
    obtain ⟨content, stored, isSlot, live⟩ :=
      lagging.located keeps rfl silent rfl (Reader.found_of_processTransaction2 read)
    rw [← isSlot] at small valid
    obtain ⟨member, known⟩ := lagging.stores keeps stored
    obtain ⟨block, tx, isBlock, inside, key, range, slice⟩ :=
      ((covers.run keeps.spans looks).records _ _ record).selects
    obtain ⟨block', isBlock', rfl⟩ := (covers.run keeps.spans checks).stored _ member live
    rw [isSlot, isBlock] at isBlock'
    cases isBlock'
    cases id reads with
    | bytes path found long =>
        have intact := lagging.intact keeps stored live small valid found
        have measured := DiskFile.length_of_bytesAt (intact 0)
        have part := StorageFilesRead.Reads.slice reads found (by omega) fun index _ => intact index
        rw [part, ← isSlot]
        refine ⟨block.protobuf, tx, known, ?_, key, slice.symm, rfl⟩
        rw [isSlot]
        exact inside

/-- A reader without an error has applied the messages. -/
theorem Reader.updates_of_toOption {reader next : Reader} {messages : List ReadWriteSyncMessage}
    (updated : (reader.updates messages).toOption = some next) : reader.updates messages = .ok next := by
  cases result : reader.updates messages with
  | error error =>
      rw [result] at updated
      cases updated
  | ok other =>
      rw [result] at updated
      cases updated
      rfl

/-- An empty store with a ring of two cells has one file. -/
def Startup.oneFile (fileSize : Nat) (positive : 0 < fileSize) : Startup where
  db := Rocksdb.empty
  max := 2
  configs := [⟨0, "a", fileSize, true⟩]
  disk := fun _ => ⟨fileSize, fun _ => 0⟩
  list := []
  blocks := (Writer.emptyStore 2 fileSize (by decide)).blocks
  files := (Writer.emptyStore 2 fileSize (by decide)).files
  init := ⟨["a"], HashMap.empty.insert 0 0⟩
  opened := fun _ => ⟨fileSize, fun _ => 0⟩
  loaded := rfl
  placed := rfl
  success := by
    have fresh : (Writer.emptyStore 2 fileSize (by decide)).blocks.getStoredBoundaries =
        HashMap.empty := rfl
    simp [StorageFilesWrite.openAll, StorageFilesWrite.openFiles, StorageFilesWrite.openFile, fresh,
      StorageFilesWrite.restoreAll_empty, StorageFilesWrite.storageMissed_empty,
      StorageFilesWrite.idMap, positive.ne']
    all_goals rfl

/-- The readers of one file open it as the writer does. -/
theorem Startup.oneFile_opens (fileSize : Nat) (positive : 0 < fileSize) :
    (oneFile fileSize positive).reading.Opens (oneFile fileSize positive).files := by
  have distinct : ((oneFile fileSize positive).configs.map ConfigStorageFile.id).Nodup :=
    List.nodup_singleton _
  refine opens_openAll distinct ?_ (oneFile fileSize positive).success
  change [_] = List.map _ (List.mergeSort [_] _)
  rw [List.mergeSort_singleton]
  rfl

/-- An empty store with a ring of three cells has one file. -/
def Startup.threeCells : Startup where
  db := Rocksdb.empty
  max := 3
  configs := [⟨0, "a", 20, true⟩]
  disk := fun _ => ⟨20, fun _ => 0⟩
  list := []
  blocks := (Writer.emptyStore 3 20 (by decide)).blocks
  files := (Writer.emptyStore 3 20 (by decide)).files
  init := ⟨["a"], HashMap.empty.insert 0 0⟩
  opened := fun _ => ⟨20, fun _ => 0⟩
  loaded := rfl
  placed := rfl
  success := by
    have fresh : (Writer.emptyStore 3 20 (by decide)).blocks.getStoredBoundaries =
        HashMap.empty := rfl
    simp [StorageFilesWrite.openAll, StorageFilesWrite.openFiles, StorageFilesWrite.openFile, fresh,
      StorageFilesWrite.restoreAll_empty, StorageFilesWrite.storageMissed_empty,
      StorageFilesWrite.idMap]
    rfl

/-- The readers open the file as the writer does. -/
theorem Startup.threeCells_opens : threeCells.reading.Opens threeCells.files := by
  refine opens_openAll (by decide) ?_ threeCells.success
  change [_] = List.map _ (List.mergeSort [_] _)
  rw [List.mergeSort_singleton]
  rfl

/-- The newer of two blocks is served with its bytes, and its transaction with its own. -/
theorem Writer.run_servesStored_second : ∃ checked : Writer,
    Run SparesStored (Startup.oneFile 20 (by decide)).writer checked ∧
      checked.Stores 6 (Chain.plainChainBlock 6).protobuf ∧
      ∃ content tx, checked.Stores 6 content ∧ tx ∈ Chain.plainChain.transactions 6 ∧
        tx.key = 6 ∧ tx.protobuf = [6, 9] ∧ (content.drop 2).take 2 = [6, 9] := by
  let startup := Startup.oneFile 20 (by decide)
  let events := storeFront 5 (Chain.plainChainBlock 5) ++ storeFront 6 (Chain.plainChainBlock 6)
  let location := StoredBlock.newConfirmed 6 none (some 6) 0 8 8
  have taken : (startup.writer.takeAll events).map (fun state =>
      (state.store.blocks.firstAvailable,
        state.store.db.transactionIndex.get (Chain.lowKeys.signatureKey ⟨6⟩),
        ((startup.reader []).updates state.store.blocks.sent).toOption.map fun reader =>
          (reader.processBlock false 6, reader.processTransaction2 false ⟨6, 2, 2, none, 0⟩))) =
      some (5, some ⟨6, 2, 2, none, 0⟩, some (.read location, .read location)) := by
    decide +kernel
  have written : (startup.writer.takeAll events).map (fun state => ((state.store.disk "a").len,
      (state.store.disk "a").bytesAt 8 8, (state.store.disk "a").bytesAt 10 2)) =
      some (20, (Chain.plainChainBlock 6).protobuf, [6, 9]) := by
    decide +kernel
  obtain ⟨checked, taken, known⟩ := Option.map_eq_some_iff.mp taken
  rw [taken, Option.map_some, Option.some_inj] at written
  simp only [Prod.mk.injEq] at known written
  obtain ⟨published, record, answers⟩ := known
  obtain ⟨long, blockBytes, transactionBytes⟩ := written
  obtain ⟨reader, updated, answers⟩ := Option.map_eq_some_iff.mp answers
  obtain ⟨readBlock, readTransaction⟩ := Prod.mk.inj answers
  have updated : (startup.reader []).updates checked.store.blocks.sent = .ok reader :=
    Reader.updates_of_toOption updated
  have run : Run SparesStored startup.writer checked := run_of_takeAll (by decide +kernel) taken
  have onChain : Run Chain.plainChain.Permits startup.writer checked :=
    run_of_takeAll (by decide +kernel) taken
  have serves := run_servesStored startup (Startup.oneFile_opens 20 (by decide)) [] checked checked
    reader (fun _ => checked)
    ⟨run, ⟨_, List.prefix_refl _, updated⟩, fun _ => .refl, fun _ => .refl⟩ false location
  have covers : Chain.plainChain.Covers startup.writer :=
    ⟨by rintro _ ⟨⟩, by rintro _ _ ⟨⟩, by rintro _ _ ⟨⟩, by rintro _ ⟨⟩⟩
  have reads : ∀ offset size, offset + size ≤ 20 → startup.reading.Reads (fun _ => checked.store.disk) 0
      offset size (.ok ((checked.store.disk "a").bytesAt offset size)) := by
    intro offset size inside
    exact .bytes "a" rfl fun index bound => by omega
  have readsBlock := reads 8 8 (by decide)
  have readsTransaction := reads 10 2 (by decide)
  rw [blockBytes] at readsBlock
  rw [transactionBytes] at readsTransaction
  refine ⟨checked, run, ?_, ?_⟩
  · refine (serves (.ok (Chain.plainChainBlock 6).protobuf) _).1 6 (by decide) readBlock readsBlock ?_
    refine Or.inr ⟨⟨false, 6⟩, false, 6, 5, rfl, ?_⟩
    rw [published]
    rfl
  · refine (serves (.ok [6, 9]) _).2 _ _ Chain.plainChain checked ⟨6⟩ ⟨6, 2, 2, none, 0⟩ 6 covers onChain
      onChain record (by decide) readTransaction readsTransaction ?_
    refine Or.inr ⟨⟨false, ⟨6⟩⟩, false, ?_⟩
    rw [published]
    rfl

/-- Two files are configured with the higher id first. -/
def Startup.misordered : Startup where
  db := Rocksdb.empty
  max := 2
  configs := [⟨1, "b", 10, true⟩, ⟨0, "a", 10, true⟩]
  disk := fun _ => ⟨10, fun _ => 0⟩
  list := []
  blocks := (Writer.emptyStore 2 10 (by decide)).blocks
  files := ⟨[⟨0, "a", 0, 0, 10, true⟩, ⟨1, "b", 0, 0, 10, true⟩],
    (HashMap.empty.insert 0 0).insert 1 1, 0⟩
  init := ⟨["b", "a"], (HashMap.empty.insert 0 0).insert 1 1⟩
  opened := fun _ => ⟨10, fun _ => 0⟩
  loaded := rfl
  placed := rfl
  success := by
    have fresh : (Writer.emptyStore 2 10 (by decide)).blocks.getStoredBoundaries =
        HashMap.empty := rfl
    simp [StorageFilesWrite.openAll, StorageFilesWrite.openFiles, StorageFilesWrite.openFile, fresh,
      StorageFilesWrite.restoreAll_empty, StorageFilesWrite.storageMissed_empty,
      StorageFilesWrite.idMap, List.mergeSort, List.MergeSort.Internal.splitInTwo]

namespace Writer

/-- With files in another order than their ids the check passes for the bytes of another block. -/
theorem servesStored_false : ¬ ∀ (startup : Startup) (recentBlocks : List (Nat × BlockWithBinary))
    (resolved checked : Writer) (reader : Reader) (moments : Nat → Writer),
    (startup.configs.map ConfigStorageFile.id).Nodup →
    LaggingRead SparesStored startup.writer (startup.reader recentBlocks) resolved checked reader
      moments →
    ∀ (expired : Bool) (location : StoredBlock) (result : Except ReadFileError Bytes)
      (bytes : Bytes) (slot : Nat), slot ≤ maxSlot → reader.processBlock expired slot = .read location →
      startup.reading.Reads (fun index => (moments index).store.disk) location.storageId
        location.offset location.size result →
      ServesBlock slot (finishBlock (some result)) checked.store.blocks.firstAvailable bytes →
      checked.Stores slot bytes := by
  intro always
  let events := storeFront 5 (plainBlock 4 [1, 2]) ++ storeFront 6 (plainBlock 5 [3, 4])
  have taken : (Startup.misordered.writer.takeAll events).map (fun state =>
      (state.store.blocks.firstAvailable,
        ((Startup.misordered.reader []).updates state.store.blocks.sent).toOption.map fun reader =>
          reader.processBlock false 6)) =
      some (5, some (.read (.newConfirmed 6 (some 7) (some 5) 1 0 2))) := by
    decide +kernel
  have written : (Startup.misordered.writer.takeAll events).map (fun state =>
      ((state.store.disk "a").len, (state.store.disk "a").bytesAt 0 2,
        state.stored.map fun entry => (entry.1.slot, entry.2))) =
      some (10, [1, 2], [(5, [1, 2]), (6, [3, 4])]) := by
    decide +kernel
  obtain ⟨checked, taken, known⟩ := Option.map_eq_some_iff.mp taken
  rw [taken, Option.map_some, Option.some_inj] at written
  simp only [Prod.mk.injEq] at known written
  obtain ⟨published, answers⟩ := known
  obtain ⟨long, bytes, stored⟩ := written
  obtain ⟨reader, updated, read⟩ := Option.map_eq_some_iff.mp answers
  have run : Run SparesStored Startup.misordered.writer checked :=
    run_of_takeAll (by decide +kernel) taken
  have reads : Startup.misordered.reading.Reads (fun _ => checked.store.disk) 1 0 2
      (.ok ((checked.store.disk "a").bytesAt 0 2)) := .bytes "a" rfl fun index bound => by omega
  rw [bytes] at reads
  have wrong := always Startup.misordered [] checked checked reader (fun _ => checked) (by decide)
    ⟨run, ⟨_, List.prefix_refl _, Reader.updates_of_toOption updated⟩, fun _ => .refl, fun _ => .refl⟩
    false _ (.ok [1, 2]) [1, 2] 6 (by decide) read reads
    (Or.inr ⟨⟨false, 6⟩, false, 6, 5, rfl, by rw [published]; rfl⟩)
  -- The store has the bytes 3 and 4 for the slot.
  have member : (6, [3, 4]) ∈ checked.stored.map fun entry => (entry.1.slot, entry.2) := by
    rw [stored]
    simp
  obtain ⟨entry, inside, same⟩ := List.mem_map.mp member
  obtain ⟨isSlot, content⟩ := Prod.mk.inj same
  rw [wrong.2 entry inside isSlot] at content
  cases content

/-- The permitted events without the condition on the slots at the front. -/
def SparesAnySlot (self : Writer) : WriterEvent → Prop
  | .pushBlockFront _ _ => True
  | event => self.SparesStored event

instance decidableSparesAnySlot (self : Writer) : (event : WriterEvent) →
    Decidable (self.SparesAnySlot event)
  | .pushBlockFront _ _ => isTrue trivial
  | .popBlock side => inferInstanceAs (Decidable (self.SparesStored (.popBlock side)))
  | .pushBlockBack slot block =>
      inferInstanceAs (Decidable (self.SparesStored (.pushBlockBack slot block)))
  | .write | .tear _ => inferInstanceAs (Decidable self.SparesLive)
  | .send _ | .announce | .remove | .free | .evict | .roomy | .index | .refuse | .record | .store
  | .publish => isTrue trivial

/-- These events store one block at the front of a full ring. -/
def storeFull (slot : Nat) (block : BlockWithBinary) : List WriterEvent :=
  [.pushBlockFront slot (some block), .evict, .announce, .remove, .free, .index, .write, .record,
    .store, .publish]

/-- These events remove one block at the back. -/
def removeBack : List WriterEvent := [.popBlock .back, .announce, .remove, .free]

/-- Once the ring was emptied, lower slots at the front make the check pass for a removed block. -/
theorem servesStored_descending : ¬ ∀ (startup : Startup)
    (recentBlocks : List (Nat × BlockWithBinary)) (resolved checked : Writer) (reader : Reader)
    (moments : Nat → Writer), startup.reading.Opens startup.files →
    LaggingRead SparesAnySlot startup.writer (startup.reader recentBlocks) resolved checked reader
      moments →
    ∀ (expired : Bool) (location : StoredBlock) (result : Except ReadFileError Bytes)
      (bytes : Bytes) (slot : Nat), slot ≤ maxSlot → reader.processBlock expired slot = .read location →
      startup.reading.Reads (fun index => (moments index).store.disk) location.storageId
        location.offset location.size result →
      ServesBlock slot (finishBlock (some result)) checked.store.blocks.firstAvailable bytes →
      checked.Stores slot bytes := by
  intro always
  let startup := Startup.oneFile 6 (by decide)
  let before := storeFront 9 (plainBlock 1 [9, 9]) ++ storeFront 10 (plainBlock 2 [1, 1])
  let later := removeBack ++ removeBack ++ storeFront 5 (plainBlock 3 [5, 5]) ++
    storeFront 6 (plainBlock 4 [6, 6]) ++ storeFull 7 (plainBlock 5 [7, 7])
  have taken : (startup.writer.takeAll before).map (fun state =>
      (((startup.reader []).updates state.store.blocks.sent).toOption.map fun reader =>
          reader.processBlock false 10, (state.takeAll later).map fun next =>
        (next.store.blocks.firstAvailable, (next.store.disk "a").len,
          (next.store.disk "a").bytesAt 2 2))) =
      some (some (.read (.newConfirmed 10 (some 7) (some 2) 0 2 2)), some (6, 6, [7, 7])) := by
    decide +kernel
  have permitted : (startup.writer.takeAll before).map (fun state =>
      (decide (state.Permits SparesAnySlot later), (state.takeAll later).map fun next =>
        next.stored.map fun entry => (entry.1.slot, entry.2))) =
      some (true, some [(9, [9, 9]), (10, [1, 1]), (5, [5, 5]), (6, [6, 6]), (7, [7, 7])]) := by
    decide +kernel
  obtain ⟨resolved, taken, known⟩ := Option.map_eq_some_iff.mp taken
  rw [taken, Option.map_some, Option.some_inj] at permitted
  obtain ⟨answers, known⟩ := Prod.mk.inj known
  obtain ⟨permitted, stored⟩ := Prod.mk.inj permitted
  obtain ⟨reader, updated, read⟩ := Option.map_eq_some_iff.mp answers
  obtain ⟨checked, continued, known⟩ := Option.map_eq_some_iff.mp known
  rw [continued, Option.map_some, Option.some_inj] at stored
  simp only [Prod.mk.injEq] at known
  obtain ⟨published, long, bytes⟩ := known
  have started : Run SparesAnySlot startup.writer resolved := run_of_takeAll (by decide +kernel) taken
  have reached : Run SparesAnySlot resolved checked :=
    run_of_takeAll (of_decide_eq_true permitted) continued
  have reads : startup.reading.Reads (fun _ => checked.store.disk) 0 2 2
      (.ok ((checked.store.disk "a").bytesAt 2 2)) := .bytes "a" rfl fun index bound => by omega
  rw [bytes] at reads
  have wrong := always startup [] resolved checked reader (fun _ => checked)
    (Startup.oneFile_opens 6 (by decide))
    ⟨started, ⟨_, List.prefix_refl _, Reader.updates_of_toOption updated⟩, fun _ => reached,
      fun _ => .refl⟩
    false _ (.ok [7, 7]) [7, 7] 10 (by decide) read reads
    (Or.inr ⟨⟨false, 10⟩, false, 10, 9, rfl, by rw [published]; rfl⟩)
  have member : (10, [1, 1]) ∈ checked.stored.map fun entry => (entry.1.slot, entry.2) := by
    rw [stored]
    simp
  obtain ⟨entry, inside, same⟩ := List.mem_map.mp member
  obtain ⟨isSlot, content⟩ := Prod.mk.inj same
  rw [wrong.2 entry inside isSlot] at content
  cases content

end Writer

end Alpamayo
