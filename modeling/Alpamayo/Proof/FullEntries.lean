import Alpamayo.Proof.TransactionFilters
import Alpamayo.Proof.ValidatedReads

/-!
This file shows when a full entry of `getTransactionsForAddress` has the bytes of its transaction.
-/

namespace Alpamayo

namespace Reader

/-- The block in process was announced, or the reader started with it. -/
theorem inProcess_of_updates {start reader : Reader} {messages : List ReadWriteSyncMessage}
    (updated : start.updates messages = .ok reader) {slot : Nat} {block : Option BlockWithBinary}
    (known : reader.confirmedInProcess = some (slot, block)) :
    start.confirmedInProcess = some (slot, block) ∨ .blockConfirmed slot block ∈ messages := by
  induction messages generalizing start with
  | nil =>
      cases updated
      exact Or.inl known
  | cons message rest ih =>
      cases applied : start.update message with
      | error error =>
          rw [updates, applied] at updated
          cases updated
      | ok next =>
          rw [updates, applied] at updated
          obtain before | later := ih updated
          · cases message with
            | init blocks files recentBlocks => cases applied
            | blockConfirmed slot' block' =>
                cases applied
                cases before
                exact Or.inr List.mem_cons_self
            | confirmedBlockPushFront cell =>
                change start.pushFront cell = _ at applied
                unfold pushFront at applied
                split at applied
                · cases applied
                · split at applied <;> cases applied
                  cases before
            | _ =>
                cases applied
                exact Or.inl before
          · exact Or.inr (List.mem_cons_of_mem message later)

/-- A transaction that is answered from the block in process is one of that block. -/
theorem inProcess_of_processTransaction {reader : Reader} {expired : Bool} {signature : Signature}
    {slot place : Nat} {blockTime : Option UnixTimestamp} {bytes : Bytes}
    (answered : reader.processTransaction expired signature =
      some (.transaction slot blockTime bytes place)) :
    ∃ block found, reader.confirmedInProcess = some (slot, some block) ∧
      block.getTransaction signature = some found ∧ found.protobuf = bytes := by
  unfold processTransaction at answered
  split at answered
  · cases answered
  · unfold inProcessTransaction at answered
    split at answered
    · rename_i block known
      obtain ⟨found, lookup, same⟩ := Option.map_eq_some_iff.mp answered
      cases same
      exact ⟨block, found, known, lookup, rfl⟩
    · cases answered

/-- A request that is passed on is not answered from the block in process. -/
theorem inProcessTransaction_of_none {reader : Reader} {expired : Bool} {signature : Signature}
    (passed : reader.processTransaction expired signature = none) :
    reader.inProcessTransaction signature = none := by
  unfold processTransaction at passed
  split at passed
  · cases passed
  · exact passed

end Reader

/-- An answer with bytes comes from the block in process or from a finished file read. -/
theorem answerTransaction_cases {first second : Reader} {expired expiredLater : Bool}
    {signature : Signature} {lookup : Option (Option TransactionIndexValue)}
    {file : TransactionIndexValue → StoredBlock → Option (Except ReadFileError Bytes)}
    {slot place : Nat} {blockTime : Option UnixTimestamp} {bytes : Bytes}
    (answered : answerTransaction first expired signature lookup second expiredLater file =
      .transaction slot blockTime bytes place) :
    first.processTransaction expired signature = some (.transaction slot blockTime bytes place) ∨
      first.inProcessTransaction signature = none ∧
        ∃ index location, lookup = some (some index) ∧
          second.processTransaction2 expiredLater index = .read location ∧
          file index location = some (.ok bytes) ∧ slot = index.slot := by
  unfold answerTransaction at answered
  split at answered
  · rename_i result known
    rw [known, answered]
    exact Or.inl rfl
  · rename_i passed
    have unanswered := Reader.inProcessTransaction_of_none passed
    split at answered
    · rename_i result known
      cases lookup with
      | none =>
          cases known
          cases answered
      | some found =>
          cases found <;> cases known
          cases answered
    · rename_i index known
      have isIndex : lookup = some (some index) := by
        rcases lookup with _ | _ | found <;> cases known
        rfl
      split at answered
      · rename_i result ended
        unfold Reader.processTransaction2 at ended
        split at ended
        · cases ended
          cases answered
        · split at ended <;> cases ended <;> cases answered
      · rename_i location read
        cases result : file index location with
        | none =>
            rw [result] at answered
            cases answered
        | some outcome =>
            rw [result] at answered
            obtain ⟨rfl, same⟩ := finishTransaction_eq_transaction answered
            exact Or.inr ⟨unanswered, index, location, isIndex, read, result, same⟩

namespace Writer

variable {self after first resolved checked : Writer} {start reader : Reader}
  {moments : Nat → Writer} {allowed wider : Writer → WriterEvent → Prop}

/-- A wider condition allows the same runs. -/
theorem Run.mono (implies : ∀ state event, allowed state event → wider state event)
    (run : Run allowed self after) : Run wider self after := by
  induction run with
  | refl => exact .refl
  | tail _ stepped ih =>
      obtain ⟨event, permitted, next⟩ := stepped
      exact ih.tail ⟨event, implies _ event permitted, next⟩

/-- A wider condition allows the same reads. -/
theorem LaggingRead.mono (implies : ∀ state event, allowed state event → wider state event)
    (lagging : LaggingRead allowed first start resolved checked reader moments) :
    LaggingRead wider first start resolved checked reader moments where
  started := lagging.started.mono implies
  replica := lagging.replica
  before := fun index => (lagging.before index).mono implies
  later := fun index => (lagging.later index).mono implies

end Writer

/-- The writer and the readers during one request for a transaction: `first` takes the request, the
record is looked up, `second` takes the second request, and the bytes are read before the last state. -/
structure TransactionFetch (allowed : Writer → WriterEvent → Prop) (startup : Startup)
    (recentBlocks : List (Nat × BlockWithBinary)) (keys : HashedKeys) (signature : Signature) where
  taken : Writer
  looked : Writer
  resolved : Writer
  checked : Writer
  moments : Nat → Writer
  first : Reader
  second : Reader
  expired : Bool
  expiredLater : Bool
  lookup : Option (Option TransactionIndexValue)
  file : TransactionIndexValue → StoredBlock → Option (Except ReadFileError Bytes)
  takes : Writer.Run allowed startup.writer taken
  replica : ∃ messages, messages <+: taken.store.blocks.sent ∧
    (startup.reader recentBlocks).updates messages = .ok first
  looks : Writer.Run allowed taken looked
  record : lookup = none ∨
    lookup = some (looked.store.db.transactionIndex.get (keys.signatureKey signature))
  resolves : Writer.Run allowed looked resolved
  lagging : Writer.LaggingRead allowed startup.writer (startup.reader recentBlocks) resolved checked
    second moments
  reads : ∀ index location result, file index location = some result →
    startup.reading.Reads (fun moment => (moments moment).store.disk) location.storageId
      (location.offset + index.offset) index.size result

namespace TransactionFetch

variable {allowed : Writer → WriterEvent → Prop} {startup : Startup}
  {recentBlocks : List (Nat × BlockWithBinary)} {keys : HashedKeys} {signature : Signature}

/-- The answer to the request. -/
def answer (fetch : TransactionFetch allowed startup recentBlocks keys signature) :
    ReadResultTransaction :=
  answerTransaction fetch.first fetch.expired signature fetch.lookup fetch.second
    fetch.expiredLater fetch.file

/-- The file has the bytes of the located block at every moment of the read. -/
def NotRewritten (fetch : TransactionFetch allowed startup recentBlocks keys signature)
    (location : StoredBlock) : Prop :=
  ∀ bytes path, (location, bytes) ∈ fetch.resolved.stored →
    startup.reading.fileOf location.storageId = some path → ∀ moment,
      ((fetch.moments moment).store.disk path).bytesAt location.offset location.size = bytes

/-- A block that is read from a file is above the first available slot after the read, or its place was
not written again before. -/
def Retained (fetch : TransactionFetch allowed startup recentBlocks keys signature) : Prop :=
  fetch.first.inProcessTransaction signature = none → ∀ index location,
    fetch.lookup = some (some index) →
    fetch.second.processTransaction2 fetch.expiredLater index = .read location →
    fetch.checked.store.blocks.firstAvailable < index.slot ∨ fetch.NotRewritten location

end TransactionFetch

namespace Chain

variable {keys : HashedKeys} {parsePubkey : String → Option Pubkey}

/-- No other transaction has the key of the signature. -/
def Distinguishes (chain : Chain keys parsePubkey) (signature : Signature) : Prop :=
  ∀ slot, ∀ tx ∈ chain.transactions slot, tx.key = keys.signatureKey signature →
    tx.signature = signature

/-- The writer spares the stored blocks and pushes those of the chain. -/
def Allows (chain : Chain keys parsePubkey) (writer : Writer) (event : WriterEvent) : Prop :=
  writer.SparesStored event ∧ chain.Permits writer event

instance decidableAllows (chain : Chain keys parsePubkey) (writer : Writer) (event : WriterEvent) :
    Decidable (chain.Allows writer event) :=
  inferInstanceAs (Decidable (_ ∧ _))

end Chain

namespace TransactionFetch

variable {startup : Startup} {recentBlocks : List (Nat × BlockWithBinary)} {keys : HashedKeys}
  {parsePubkey : String → Option Pubkey} {chain : Chain keys parsePubkey} {signature : Signature}
  {slot place : Nat} {blockTime : Option UnixTimestamp} {bytes : Bytes}

/-- A transaction from the block in process is that of the signature. -/
theorem inProcess_sound (fetch : TransactionFetch chain.Allows startup recentBlocks keys signature)
    (opens : startup.reading.Opens startup.files) (covers : chain.Covers startup.writer)
    (answered : fetch.first.processTransaction fetch.expired signature =
      some (.transaction slot blockTime bytes place)) :
    ∃ tx ∈ chain.transactions slot, tx.signature = signature ∧ tx.protobuf = bytes := by
  have spans := (startup.keeps opens).spans
  obtain ⟨block, found, known, lookup, rfl⟩ := Reader.inProcess_of_processTransaction answered
  obtain ⟨messages, part, updated⟩ := fetch.replica
  obtain atStart | announced := Reader.inProcess_of_updates updated known
  · cases atStart
  · have isBlock : some block = chain.block slot :=
      (covers.run spans (fetch.takes.mono fun _ _ => And.right)).announced slot _
        (part.subset announced)
    exact (chain.built slot block isBlock.symm).getTransaction lookup

/-- A transaction from a file is that of the signature once its block is retained. -/
theorem file_sound (fetch : TransactionFetch chain.Allows startup recentBlocks keys signature)
    (opens : startup.reading.Opens startup.files) (covers : chain.Covers startup.writer)
    (small : ∀ slot block, chain.block slot = some block → slot ≤ maxSlot)
    (distinct : chain.Distinguishes signature) {index : TransactionIndexValue} {location : StoredBlock}
    (retained : fetch.checked.store.blocks.firstAvailable < index.slot ∨ fetch.NotRewritten location)
    (found : fetch.lookup = some (some index))
    (located : fetch.second.processTransaction2 fetch.expiredLater index = .read location)
    (read : fetch.file index location = some (.ok bytes)) :
    ∃ tx ∈ chain.transactions index.slot, tx.signature = signature ∧ tx.protobuf = bytes := by
  have keeps := startup.keeps opens
  have silent : startup.blocks.sent = [] := (StoredBlocksWrite.new_fields startup.placed).1
  have lagging := fetch.lagging.mono fun _ _ permitted => And.left permitted
  -- The record selects a transaction of the chain with the key of the signature.
  have record : fetch.looked.store.db.transactionIndex.get (keys.signatureKey signature) =
      some index := by
    obtain missing | known := fetch.record
    · rw [missing] at found
      cases found
    · rw [known] at found
      exact Option.some.inj found
  have looks : Writer.Run chain.Permits startup.writer fetch.looked :=
    (fetch.takes.mono fun _ _ => And.right).trans (fetch.looks.mono fun _ _ => And.right)
  obtain ⟨block, tx, isBlock, inside, key, range, slice⟩ :=
    ((covers.run keeps.spans looks).records _ _ record).selects
  -- The located block is that of the record, and its bytes stay until the read ends.
  obtain ⟨content, stored, isSlot, live⟩ :=
    lagging.located keeps rfl silent rfl (Reader.found_of_processTransaction2 located)
  have resolved : Writer.Run chain.Permits startup.writer fetch.resolved :=
    fetch.lagging.started.mono fun _ _ => And.right
  obtain ⟨block', isBlock', rfl⟩ := (covers.run keeps.spans resolved).stored _ stored live
  rw [isSlot, isBlock] at isBlock'
  cases isBlock'
  rw [← isSlot] at retained
  have reads := fetch.reads index location _ read
  refine ⟨tx, inside, distinct index.slot tx inside key, ?_⟩
  cases id reads with
  | bytes path opened long =>
      have intact : ∀ moment, ((fetch.moments moment).store.disk path).bytesAt location.offset
          location.size = block.protobuf := by
        obtain valid | unwritten := retained
        · exact lagging.intact keeps stored live (isSlot ▸ small _ _ isBlock) valid opened
        · exact unwritten _ path stored opened
      have measured := DiskFile.length_of_bytesAt (intact 0)
      rw [StorageFilesRead.Reads.slice reads opened (by omega) fun moment _ => intact moment]
      exact slice.symm

/-- The answered bytes are those of the transaction with the signature. -/
theorem answer_sound (fetch : TransactionFetch chain.Allows startup recentBlocks keys signature)
    (opens : startup.reading.Opens startup.files) (covers : chain.Covers startup.writer)
    (small : ∀ slot block, chain.block slot = some block → slot ≤ maxSlot)
    (distinct : chain.Distinguishes signature) (retained : fetch.Retained)
    (answered : fetch.answer = .transaction slot blockTime bytes place) :
    ∃ tx ∈ chain.transactions slot, tx.signature = signature ∧ tx.protobuf = bytes := by
  unfold answer at answered
  obtain inProcess | ⟨unknown, index, location, found, located, read, rfl⟩ :=
    answerTransaction_cases answered
  · exact fetch.inProcess_sound opens covers inProcess
  · exact fetch.file_sound opens covers small distinct 
      (retained unknown index location found located) found located read

end TransactionFetch

namespace RpcRequestTransactionsForAddress

variable {Decoded Encoded EncodeError : Type} {request : RpcRequestTransactionsForAddress}
  {positions : Option GtfaSignaturePositionFilter} {state : GtfaState} {reads : GtfaReads}
  {codec : TransactionCodec Decoded Encoded EncodeError} {signatureText : Signature → String}
  {keys : HashedKeys} {parsePubkey : String → Option Pubkey} {chain : Chain keys parsePubkey}

/-- A scan of the address index lists the entry. -/
def Listed (reads : GtfaReads) (entry : TfaEntry) : Prop :=
  ∃ read entries finished, reads.transactions read = .transactions entries finished ∧
    entry ∈ entries

/-- The full entry encodes a transaction of the chain that has the signature. -/
def CarriesTransaction (codec : TransactionCodec Decoded Encoded EncodeError)
    (chain : Chain keys parsePubkey) (signature : Signature) (full : GtfaFullEntry Encoded) : Prop :=
  ∃ slot, ∃ tx ∈ chain.transactions slot, tx.signature = signature ∧
    ∃ decoded, codec.decode tx.protobuf = .ok decoded ∧
      codec.encode ⟨slot, decoded, full.blockTime, full.transactionIndex.getD 0⟩ =
        .ok full.transaction

/-- The item is built from a listed entry. -/
def BuiltFromListed (request : RpcRequestTransactionsForAddress) (reads : GtfaReads)
    (codec : TransactionCodec Decoded Encoded EncodeError) (signatureText : Signature → String)
    (item : GtfaEntry Encoded) : Prop :=
  ∃ entry, Listed reads entry ∧ request.buildEntry reads codec signatureText entry = .ok item

/-- A pass keeps only entries of its batch. -/
theorem takeBatch_pending {collected : Nat} {entries : List TfaEntry} {batch : GtfaBatch} :
    (request.takeBatch positions collected entries batch).pending ⊆ batch.pending ++ entries := by
  induction entries generalizing batch with
  | nil => exact List.subset_append_left _ _
  | cons entry rest ih =>
      rw [takeBatch]
      split
      · have moved : (batch.pending ++ [entry]) ++ rest = batch.pending ++ entry :: rest :=
          (List.append_cons _ _ _).symm
        dsimp only
        split
        · intro kept member
          rw [← moved]
          exact List.mem_append_left rest member
        · intro kept member
          rw [← moved]
          exact ih member
      · intro kept member
        obtain before | later := List.mem_append.mp (ih member)
        · exact List.mem_append_left _ before
        · exact List.mem_append_right _ (List.mem_cons_of_mem entry later)

/-- Every item of an answer is on the page before or is built from a listed entry. -/
theorem processLoop_listed {rounds : Nat} {page : GtfaLoop Encoded} {data : List (GtfaEntry Encoded)}
    {token : Option String} (answer : request.processLoop state reads codec signatureText positions
      rounds page = some (.success data token)) :
    ∀ item ∈ data, item ∈ page.data ∨ request.BuiltFromListed reads codec signatureText item := by
  induction rounds generalizing page with
  | zero => cases answer
  | succ rounds ih =>
      rw [processLoop] at answer
      simp only at answer
      split at answer
      · cases answer
        intro item member
        exact Or.inl member
      · split at answer
        · cases answer
        · cases answer
        · rename_i entries finished known
          split at answer
          · cases answer
          · cases answer
          · rename_i built done
            have onPage : ∀ item ∈ page.data ++ built, item ∈ page.data ∨
                request.BuiltFromListed reads codec signatureText item := by
              intro item member
              obtain earlier | later := List.mem_append.mp member
              · exact Or.inl earlier
              · obtain ⟨entry, pending, same⟩ := buildAll_sound done item later
                have listed : entry ∈ entries := by simpa using takeBatch_pending pending
                exact Or.inr ⟨entry, ⟨_, entries, finished, known, listed⟩, same⟩
            split at answer
            · cases answer
              exact onPage
            · intro item member
              obtain earlier | later := ih answer item member
              · exact onPage item earlier
              · exact Or.inr later

/-- Every item of an answer is built from a listed entry. -/
theorem process_listed {rounds : Nat} {data : List (GtfaEntry Encoded)} {token : Option String}
    (answer : request.process state reads codec signatureText rounds =
      some (.success data token)) :
    ∀ item ∈ data, request.BuiltFromListed reads codec signatureText item := by
  unfold process at answer
  split at answer
  · rename_i stopped
    cases answer
    rw [resolvePositions_stops data token stopped]
    intro item member
    cases member
  · intro item member
    obtain before | built := processLoop_listed answer item member
    · cases before
    · exact built

/-- A full entry encodes the bytes that were fetched for its signature. -/
theorem buildEntry_full {entry : TfaEntry} {full : GtfaFullEntry Encoded}
    (built : request.buildEntry reads codec signatureText entry = .ok (.full full)) :
    ∃ slot blockTime bytes place decoded,
      reads.transaction entry.signature.signature = .transaction slot blockTime bytes place ∧
        codec.decode bytes = .ok decoded ∧
        codec.encode ⟨slot, decoded, full.blockTime, full.transactionIndex.getD 0⟩ =
          .ok full.transaction := by
  unfold buildEntry at built
  split at built
  · cases built
  · unfold buildFullEntry at built
    cases fetched : reads.transaction entry.signature.signature with
    | timeout | notFound | readError error =>
        rw [fetched] at built
        cases built
    | transaction slot blockTime bytes place =>
        rw [fetched] at built
        simp only [fetchTransaction] at built
        cases decodes : codec.decode bytes with
        | error error =>
            rw [decodes] at built
            cases built
        | ok decoded =>
            rw [decodes] at built
            cases encodes : codec.encode ⟨slot, decoded, blockTime.or entry.signature.blockTime,
              (some entry.transactionIndex).getD 0⟩ with
            | error error =>
                simp only [encodes] at built
                cases built
            | ok transaction =>
                simp only [encodes] at built
                cases built
                exact ⟨slot, blockTime, bytes, place, decoded, rfl, decodes, encodes⟩

/-- Once the readers open the writer's files, the slots at the front ascend, and no two transactions
share the key of a listed signature, a full entry carries the listed transaction whenever the block
is still retained after its read or its place was not written again before. -/
theorem process_carriesListed (startup : Startup) (opens : startup.reading.Opens startup.files)
    (recentBlocks : List (Nat × BlockWithBinary)) (keys : HashedKeys)
    (parsePubkey : String → Option Pubkey) (chain : Chain keys parsePubkey)
    (covers : chain.Covers startup.writer)
    (small : ∀ slot block, chain.block slot = some block → slot ≤ maxSlot)
    (reads : GtfaReads) (fetches : (signature : Signature) →
      TransactionFetch chain.Allows startup recentBlocks keys signature)
    (answers : ∀ signature, reads.transaction signature = (fetches signature).answer)
    (distinct : ∀ entry, Listed reads entry → chain.Distinguishes entry.signature.signature)
    (retained : ∀ entry, Listed reads entry → (fetches entry.signature.signature).Retained)
    (request : RpcRequestTransactionsForAddress) (state : GtfaState)
    (codec : TransactionCodec Decoded Encoded EncodeError) (signatureText : Signature → String)
    (rounds : Nat) (data : List (GtfaEntry Encoded)) (token : Option String)
    (answered : request.process state reads codec signatureText rounds =
      some (.success data token)) :
    ∀ full, .full full ∈ data → ∃ entry, Listed reads entry ∧
      CarriesTransaction codec chain entry.signature.signature full := by
  intro full member
  obtain ⟨entry, listed, built⟩ := process_listed answered _ member
  refine ⟨entry, listed, ?_⟩
  obtain ⟨slot, blockTime, bytes, place, decoded, fetched, decodes, encodes⟩ := buildEntry_full built
  rw [answers] at fetched
  obtain ⟨tx, inside, isSignature, rfl⟩ := (fetches entry.signature.signature).answer_sound opens covers
    small (distinct entry listed) (retained entry listed) fetched
  exact ⟨slot, tx, inside, isSignature, decoded, decodes, encodes⟩

end RpcRequestTransactionsForAddress

namespace TransactionFetch

variable {allowed : Writer → WriterEvent → Prop} {startup : Startup}
  {recentBlocks : List (Nat × BlockWithBinary)} {keys : HashedKeys} {resolved checked : Writer}
  {reader : Reader} {index : TransactionIndexValue} {location : StoredBlock} {bytes : Bytes}

/-- One reader takes both requests in one state, and the bytes are read in a later one. -/
def steady (started : Writer.Run allowed startup.writer resolved)
    (replica : (startup.reader recentBlocks).updates resolved.store.blocks.sent = .ok reader)
    (later : Writer.Run allowed resolved checked)
    (reads : startup.reading.Reads (fun _ => checked.store.disk) location.storageId
      (location.offset + index.offset) index.size (.ok bytes)) (signature : Signature) :
    TransactionFetch allowed startup recentBlocks keys signature where
  taken := resolved
  looked := resolved
  resolved
  checked
  moments := fun _ => checked
  first := reader
  second := reader
  expired := false
  expiredLater := false
  lookup := some (resolved.store.db.transactionIndex.get (keys.signatureKey signature))
  file := fun other place => if other = index ∧ place = location then some (.ok bytes) else none
  takes := started
  replica := ⟨_, List.prefix_refl _, replica⟩
  looks := .refl
  record := Or.inr rfl
  resolves := .refl
  lagging := ⟨started, ⟨_, List.prefix_refl _, replica⟩, fun _ => later, fun _ => .refl⟩
  reads := by
    intro other place result known
    obtain ⟨⟨rfl, rfl⟩, same⟩ := Option.ite_none_right_eq_some.mp known
    cases same
    exact reads

/-- The fetch of the signature of the record has the bytes that were read. -/
theorem steady_answer {started : Writer.Run allowed startup.writer resolved}
    {replica : (startup.reader recentBlocks).updates resolved.store.blocks.sent = .ok reader}
    {later : Writer.Run allowed resolved checked}
    {reads : startup.reading.Reads (fun _ => checked.store.disk) location.storageId
      (location.offset + index.offset) index.size (.ok bytes)} {signature : Signature}
    (passed : reader.processTransaction false signature = none)
    (record : resolved.store.db.transactionIndex.get (keys.signatureKey signature) = some index)
    (located : reader.processTransaction2 false index = .read location) :
    (steady started replica later reads signature :
      TransactionFetch allowed startup recentBlocks keys signature).answer =
      .transaction index.slot location.blockTime bytes index.index := by
  unfold answer answerTransaction
  simp only [steady, passed, record, finishTransactionIndex, located, and_self, if_true,
    finishTransaction]

end TransactionFetch

/-- The blocks of the first slots of the plain chain. -/
def Chain.shortChain : Chain Chain.lowKeys fun _ => none where
  block := fun slot => if slot ≤ 7 then plainChain.block slot else none
  transactions := fun slot => if slot ≤ 7 then plainChain.transactions slot else []
  built := by
    intro slot found known
    split at known
    · rename_i low
      rw [if_pos low]
      exact plainChain.built slot found known
    · cases known

/-- A transaction of the short chain is the one of its slot. -/
theorem Chain.shortChain_transactions {slot : Nat} {tx : BuiltTransaction}
    (inside : tx ∈ shortChain.transactions slot) :
    slot ≤ 7 ∧ tx = plainTransaction slot [UInt8.ofNat slot, 9] := by
  change tx ∈ ite _ _ _ at inside
  split at inside
  · exact ⟨‹_›, List.mem_singleton.mp inside⟩
  · cases inside

/-- A slot of the short chain is low. -/
theorem Chain.shortChain_block {slot : Nat} {block : BlockWithBinary}
    (known : shortChain.block slot = some block) : slot ≤ maxSlot := by
  change ite _ _ _ = _ at known
  split at known
  · exact Nat.le_trans ‹_› (by decide)
  · cases known

/-- The first signatures have keys of their own in the short chain. -/
theorem Chain.shortChain_distinguishes {signature : Nat} (low : signature ≤ 7) :
    shortChain.Distinguishes ⟨signature⟩ := by
  intro slot tx inside same
  obtain ⟨bound, rfl⟩ := shortChain_transactions inside
  rw [← ofNat_inj_of_le bound low same]
  rfl

/-- An empty storage holds nothing of another chain. -/
theorem Chain.shortChain_covers (fileSize : Nat) (positive : 0 < fileSize) :
    shortChain.Covers (Startup.oneFile fileSize positive).writer :=
  ⟨by rintro _ ⟨⟩, by rintro _ _ ⟨⟩, by rintro _ _ ⟨⟩, by rintro _ ⟨⟩⟩

namespace RpcRequestTransactionsForAddress

/-- The request for one full entry. -/
def fullRequest : RpcRequestTransactionsForAddress := { pagedRequest with
  transactionDetails := .full }

/-- The entry of the plain transaction. -/
def listedEntry (signature : Nat) : TfaEntry :=
  ⟨⟨⟨signature⟩, signature, none, none, none, some .finalized, some 0⟩, 0, 0⟩

/-- The bytes are their own decoding and encoding. -/
def bytesCodec : TransactionCodec Bytes Bytes Unit := ⟨.ok, fun tx => .ok tx.txWithMeta⟩

/-- The address has one transaction. -/
def scannedReads (signature : Nat) (transaction : Signature → ReadResultTransaction) : GtfaReads :=
  ⟨fun _ => .transactions [listedEntry signature] true, fun _ _ => .position none, transaction⟩

/-- The call answers with the bytes that were fetched for the entry. -/
theorem fullRequest_process {signature slot place : Nat} {blockTime : Option UnixTimestamp}
    {bytes : Bytes} {transaction : Signature → ReadResultTransaction}
    (known : transaction ⟨signature⟩ = .transaction slot blockTime bytes place) :
    fullRequest.process pagedState (scannedReads signature transaction) bytesCodec (fun _ => "") 2 =
      some (.success [.full ⟨signature, some 0, blockTime.or none, bytes⟩]
        (some (GtfaCursor.encode ⟨signature, 0⟩))) := by
  have built : buildAll ([listedEntry signature].map (fullRequest.buildEntry
      (scannedReads signature transaction) bytesCodec fun _ => "")) =
      .ok [.full ⟨signature, some 0, blockTime.or none, bytes⟩] := by
    simp [buildEntry, fullRequest, scannedReads, listedEntry, known, buildFullEntry, fetchTransaction,
      bytesCodec]
    rfl
  have taken : fullRequest.takeBatch none 0 [listedEntry signature] ⟨none, none, [], false⟩ =
      ⟨some (signature, 0), some ⟨signature, 0⟩, [listedEntry signature], true⟩ := by
    have accepted : fullRequest.accepts none (listedEntry signature) = true := by
      simp [accepts, tokenOk, fullRequest, pagedRequest, listedEntry]
    rw [takeBatch, accepted]
    rfl
  rw [process]
  have unfilled : fullRequest.limit - 0 = 1 := rfl
  exact (processLoop_step unfilled (by decide) rfl taken built).trans rfl

/-- The newer of two blocks is retained, and its entry carries its transaction. -/
theorem process_carriesListed_second : ∃ (reads : GtfaReads) (token : Option String),
    fullRequest.process pagedState reads bytesCodec (fun _ => "") 2 =
      some (.success [.full ⟨6, some 0, none, [6, 9]⟩] token) ∧
    ∃ entry, Listed reads entry ∧ CarriesTransaction bytesCodec Chain.shortChain
      entry.signature.signature ⟨6, some 0, none, [6, 9]⟩ := by
  let startup := Startup.oneFile 20 (by decide)
  let events := Writer.storeFront 5 (Chain.plainChainBlock 5) ++
    Writer.storeFront 6 (Chain.plainChainBlock 6)
  let location := StoredBlock.newConfirmed 6 none (some 6) 0 8 8
  let index : TransactionIndexValue := ⟨6, 2, 2, none, 0⟩
  have stored : (startup.writer.takeAll events).map (fun state =>
      (state.store.db.transactionIndex.get (Chain.lowKeys.signatureKey ⟨6⟩),
        ((startup.reader []).updates state.store.blocks.sent).toOption.map fun reader =>
          (reader.processTransaction false ⟨6⟩, reader.processTransaction2 false index))) =
      some (some index, some (none, .read location)) := by
    decide +kernel
  have written : (startup.writer.takeAll events).map (fun state =>
      (state.store.blocks.firstAvailable, (state.store.disk "a").len,
        (state.store.disk "a").bytesAt 10 2)) = some (5, 20, [6, 9]) := by
    decide +kernel
  obtain ⟨checked, taken, known⟩ := Option.map_eq_some_iff.mp stored
  rw [taken, Option.map_some, Option.some_inj] at written
  simp only [Prod.mk.injEq] at written
  obtain ⟨published, long, bytes⟩ := written
  obtain ⟨record, answers⟩ := Prod.mk.inj known
  obtain ⟨reader, updated, answers⟩ := Option.map_eq_some_iff.mp answers
  obtain ⟨passed, located⟩ := Prod.mk.inj answers
  have run : Writer.Run Chain.shortChain.Allows startup.writer checked :=
    Writer.run_of_takeAll (by decide +kernel) taken
  have readBytes : startup.reading.Reads (fun _ => checked.store.disk) location.storageId
      (location.offset + index.offset) index.size
      (.ok ((checked.store.disk "a").bytesAt 10 2)) := by
    refine .bytes "a" rfl fun place bound => ?_
    change place < 2 at bound
    change 10 + place < (checked.store.disk "a").len
    omega
  rw [bytes] at readBytes
  let fetches : (signature : Signature) →
      TransactionFetch Chain.shortChain.Allows startup [] Chain.lowKeys signature :=
    TransactionFetch.steady run (Reader.updates_of_toOption updated) .refl readBytes
  let reads := scannedReads 6 fun signature => (fetches signature).answer
  have listedOnly : ∀ entry, Listed reads entry → entry = listedEntry 6 := by
    rintro entry ⟨read, entries, finished, scanned, member⟩
    cases scanned
    exact List.mem_singleton.mp member
  have answered : fullRequest.process pagedState reads bytesCodec (fun _ => "") 2 = _ :=
    fullRequest_process (TransactionFetch.steady_answer passed record located)
  refine ⟨reads, _, answered, ?_⟩
  refine process_carriesListed startup (Startup.oneFile_opens 20 (by decide)) [] Chain.lowKeys
    (fun _ => none) Chain.shortChain (Chain.shortChain_covers 20 (by decide))
    (fun _ _ known => Chain.shortChain_block known) reads fetches (fun _ => rfl) ?_ ?_ fullRequest
    pagedState bytesCodec (fun _ => "") 2 _ _ answered _ List.mem_cons_self
  · intro entry listed
    rw [listedOnly entry listed]
    exact Chain.shortChain_distinguishes (by decide)
  · intro entry listed _ other place found
    rw [listedOnly entry listed] at found
    obtain rfl : index = other := Option.some.inj (record.symm.trans (Option.some.inj found))
    intro located
    left
    change checked.store.blocks.firstAvailable < 6
    omega

/-- The place of the older block is written again before its bytes are read, and its entry carries
another transaction. -/
theorem carriesListed_false : ¬ ∀ (startup : Startup) (_ : startup.reading.Opens startup.files)
    (recentBlocks : List (Nat × BlockWithBinary)) (keys : HashedKeys)
    (parsePubkey : String → Option Pubkey) (chain : Chain keys parsePubkey)
    (_ : chain.Covers startup.writer)
    (_ : ∀ slot block, chain.block slot = some block → slot ≤ maxSlot)
    (reads : GtfaReads) (fetches : (signature : Signature) →
      TransactionFetch chain.Allows startup recentBlocks keys signature)
    (_ : ∀ signature, reads.transaction signature = (fetches signature).answer)
    (_ : ∀ entry, Listed reads entry → chain.Distinguishes entry.signature.signature)
    (request : RpcRequestTransactionsForAddress) (state : GtfaState)
    (codec : TransactionCodec Bytes Bytes Unit) (signatureText : Signature → String)
    (rounds : Nat) (data : List (GtfaEntry Bytes)) (token : Option String)
    (_ : request.process state reads codec signatureText rounds = some (.success data token)),
    ∀ full, .full full ∈ data → ∃ entry, Listed reads entry ∧
      CarriesTransaction codec chain entry.signature.signature full := by
  intro carries
  let startup := Startup.oneFile 20 (by decide)
  let before := Writer.storeFront 5 (Chain.plainChainBlock 5) ++
    Writer.storeFront 6 (Chain.plainChainBlock 6)
  let later := Writer.storeFull 7 (Chain.plainChainBlock 7)
  let location := StoredBlock.newConfirmed 5 none (some 5) 0 0 8
  let index : TransactionIndexValue := ⟨5, 2, 2, none, 0⟩
  have stored : (startup.writer.takeAll before).map (fun state =>
      (state.store.db.transactionIndex.get (Chain.lowKeys.signatureKey ⟨5⟩),
        ((startup.reader []).updates state.store.blocks.sent).toOption.map fun reader =>
          (reader.processTransaction false ⟨5⟩, reader.processTransaction2 false index))) =
      some (some index, some (none, .read location)) := by
    decide +kernel
  have permitted : (startup.writer.takeAll before).map (fun state =>
      (decide (state.Permits Chain.shortChain.Allows later), (state.takeAll later).map fun next =>
        ((next.store.disk "a").len, (next.store.disk "a").bytesAt 2 2))) =
      some (true, some (20, [7, 9])) := by
    decide +kernel
  obtain ⟨resolved, taken, known⟩ := Option.map_eq_some_iff.mp stored
  rw [taken, Option.map_some, Option.some_inj] at permitted
  obtain ⟨permitted, rewritten⟩ := Prod.mk.inj permitted
  obtain ⟨record, answers⟩ := Prod.mk.inj known
  obtain ⟨reader, updated, answers⟩ := Option.map_eq_some_iff.mp answers
  obtain ⟨passed, located⟩ := Prod.mk.inj answers
  obtain ⟨checked, continued, outcome⟩ := Option.map_eq_some_iff.mp rewritten
  obtain ⟨long, bytes⟩ := Prod.mk.inj outcome
  have started : Writer.Run Chain.shortChain.Allows startup.writer resolved :=
    Writer.run_of_takeAll (by decide +kernel) taken
  have reached : Writer.Run Chain.shortChain.Allows resolved checked :=
    Writer.run_of_takeAll (of_decide_eq_true permitted) continued
  have readBytes : startup.reading.Reads (fun _ => checked.store.disk) location.storageId
      (location.offset + index.offset) index.size
      (.ok ((checked.store.disk "a").bytesAt 2 2)) := by
    refine .bytes "a" rfl fun place bound => ?_
    change place < 2 at bound
    change 2 + place < (checked.store.disk "a").len
    omega
  rw [bytes] at readBytes
  let fetches : (signature : Signature) →
      TransactionFetch Chain.shortChain.Allows startup [] Chain.lowKeys signature :=
    TransactionFetch.steady started (Reader.updates_of_toOption updated) reached readBytes
  let reads := scannedReads 5 fun signature => (fetches signature).answer
  have listedOnly : ∀ entry, Listed reads entry → entry = listedEntry 5 := by
    rintro entry ⟨read, entries, finished, scanned, member⟩
    cases scanned
    exact List.mem_singleton.mp member
  have answered : fullRequest.process pagedState reads bytesCodec (fun _ => "") 2 = _ :=
    fullRequest_process (TransactionFetch.steady_answer passed record located)
  have distinct : ∀ entry, Listed reads entry →
      Chain.shortChain.Distinguishes entry.signature.signature := by
    intro entry listed
    rw [listedOnly entry listed]
    exact Chain.shortChain_distinguishes (by decide)
  obtain ⟨entry, listed, slot, tx, inside, isSignature, decoded, decodes, encodes⟩ :=
    carries startup (Startup.oneFile_opens 20 (by decide)) [] Chain.lowKeys (fun _ => none)
      Chain.shortChain (Chain.shortChain_covers 20 (by decide))
      (fun _ _ known => Chain.shortChain_block known) reads fetches (fun _ => rfl) distinct fullRequest
      pagedState bytesCodec (fun _ => "") 2 _ _ answered _ List.mem_cons_self
  -- The transaction of the listed signature has the bytes 5 and 9.
  obtain ⟨-, rfl⟩ := Chain.shortChain_transactions inside
  rw [listedOnly entry listed] at isSignature
  obtain rfl : slot = 5 := congrArg Signature.value isSignature
  cases decodes
  cases encodes

end RpcRequestTransactionsForAddress

end Alpamayo
