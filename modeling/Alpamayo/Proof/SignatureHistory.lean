import Alpamayo.Proof.BlocksListing
import Alpamayo.Proof.SignatureScan
import Alpamayo.Rpc.SignaturesForAddress

/-!
This file proves when the stitched signatures of an address are one query over its whole history.
-/

namespace Alpamayo

/-- An entry of the history of an address; the confirmation status changes with time and is no part
of it. -/
structure HistoryEntry where
  signature : Signature
  slot : Nat
  err : Option TransactionError
  memo : Option String
  blockTime : Option UnixTimestamp
  transactionIndex : Option Nat
  deriving DecidableEq

/-- The entry that a record shows. -/
def RpcConfirmedTransactionStatusWithSignature.entry
    (self : RpcConfirmedTransactionStatusWithSignature) : HistoryEntry where
  signature := self.signature
  slot := self.slot
  err := self.err
  memo := self.memo
  blockTime := self.blockTime
  transactionIndex := self.transactionIndex

/-- The history of an address has the newest entries first and each signature once. -/
structure History where
  entries : List HistoryEntry
  newestFirst : entries.Pairwise fun first second => second.slot ≤ first.slot
  distinct : (entries.map HistoryEntry.signature).Nodup

namespace History

/-- The history up to a slot. -/
def upToSlot (self : History) (slot : Nat) : History where
  entries := self.entries.filter fun entry => entry.slot ≤ slot
  newestFirst := self.newestFirst.filter _
  distinct := self.distinct.sublist (List.filter_sublist.map _)

/-- The query drops everything up to one signature, stops before another, and takes the limit. -/
def query (self : History) (before last : Option Signature) (limit : Nat) : List HistoryEntry :=
  Pages.page HistoryEntry.signature self.entries before last limit

end History

namespace Reader

/-- The commitment decides the highest slot of an answer. -/
def tip (self : Reader) (commitment : CommitmentLevel) : Nat :=
  if commitment = .confirmed then self.storageProcessed.confirmedSlot
  else self.storageProcessed.finalizedSlot

/-- The confirmed block that is not stored yet, with its statuses of the address. -/
def inProcessStatuses (self : Reader) (commitment : CommitmentLevel) (address : Pubkey) :
    Option (Nat × BlockWithBinary × List SignatureStatus) :=
  if commitment = .confirmed then
    match self.confirmedInProcess with
    | some (slot, some block) => (block.getSfa address).map fun sfa => (slot, block, sfa.signatures)
    | _ => none
  else none

/-- The index is read from this slot downwards. -/
def highestSlot (self : Reader) (commitment : CommitmentLevel) (address : Pubkey) : Nat :=
  if (self.inProcessStatuses commitment address).isSome then self.tip commitment - 1
  else self.tip commitment

/-- The block time that the ring has for a slot. -/
def storedTime (self : Reader) (slot : Nat) : Option UnixTimestamp :=
  match self.blocks.getBlockLocation slot with
  | .found location => location.blockTime
  | _ => none

/-- The record with the block time of the ring. -/
def timed (self : Reader) (record : RpcConfirmedTransactionStatusWithSignature) :
    RpcConfirmedTransactionStatusWithSignature :=
  if record.blockTime.isSome then record
  else { record with
    blockTime := self.storedTime record.slot
    confirmationStatus := some
      (if record.slot ≤ self.storageProcessed.finalizedSlot then .finalized else .confirmed) }

variable {reader : Reader} {records rest : List RpcConfirmedTransactionStatusWithSignature}
  {finished : Bool}

@[simp] theorem timed_entry_signature (self : Reader)
    (record : RpcConfirmedTransactionStatusWithSignature) :
    (self.timed record).entry.signature = record.signature := by
  rw [timed]
  split
  · rfl
  · rfl

/-- Records with a time or a place in the ring stay in the answer. -/
theorem addBlockTimes_kept (kept : ∀ record ∈ records, record.blockTime.isSome = true ∨
      ∃ location, reader.blocks.getBlockLocation record.slot = .found location) :
    reader.addBlockTimes records finished = .ok (records.map reader.timed, finished) := by
  induction records with
  | nil => rfl
  | cons record records ih =>
      have one : reader.addBlockTime record = .ok (some (reader.timed record)) := by
        rw [addBlockTime, timed]
        split
        · rfl
        · rename_i missing
          obtain ⟨location, found⟩ := (kept record List.mem_cons_self).resolve_left missing
          simp only [found, storedTime]
      rw [addBlockTimes, one, List.map_cons]
      simp only [bind, Except.bind, ih fun other member => kept other (List.mem_cons_of_mem _ member)]

/-- Records without a time whose block is not in the ring are dropped, and the answer is then open. -/
theorem addBlockTimes_dropped (missing : ∀ record ∈ records, record.blockTime = none ∧
      (reader.blocks.getBlockLocation record.slot = .removed ∨
        reader.blocks.getBlockLocation record.slot = .notAvailable)) :
    reader.addBlockTimes (records ++ rest) finished =
      reader.addBlockTimes rest (if records = [] then finished else false) := by
  induction records generalizing finished with
  | nil => rfl
  | cons record records ih =>
      obtain ⟨timeless, location⟩ := missing record List.mem_cons_self
      have one : reader.addBlockTime record = .ok none := by
        rw [addBlockTime, timeless]
        rcases location with removed | notAvailable
        · simp [removed]
        · simp [notAvailable]
      rw [List.cons_append, addBlockTimes, one]
      simp only [bind, Except.bind]
      rw [ih fun other member => missing other (List.mem_cons_of_mem _ member)]
      simp

/-- The three stages over the records of the block in process and those of the index. -/
def scanRecords (self : Reader) (stop : Signature) (limit : Nat)
    (blockRecords indexRecords : List RpcConfirmedTransactionStatusWithSignature) :
    ReadResultSignaturesForAddress :=
  let scan := SfaScan.takeAll stop limit blockRecords ⟨none, [], false⟩
  if scan.finished then .signatures scan.signatures true none
  else
    let scan := SfaScan.takeAll stop limit indexRecords ⟨none, scan.signatures, false⟩
    self.thirdStage false scan.signatures scan.finished

section scan

variable {stop : Signature} {limit : Nat}
  {blockRecords indexRecords : List RpcConfirmedTransactionStatusWithSignature}

/-- A scan that does not end in the block in process collects all its records. -/
theorem takeAll_running (short : blockRecords.length < limit)
    (absent : ∀ record ∈ blockRecords, record.signature ≠ stop) :
    SfaScan.takeAll stop limit blockRecords ⟨none, [], false⟩ = ⟨none, blockRecords, false⟩ := by
  have unfinished : ¬ (limit ≤ blockRecords.length ∨
      ∃ record ∈ blockRecords, record.signature = stop) := by
    rintro (long | ⟨record, member, isStop⟩)
    · omega
    · exact absent record member isStop
  rw [SfaScan.takeAll_eq (Nat.zero_lt_of_lt short), Pages.upTo_eq_self]
  · simp only [List.nil_append, List.length_nil, Nat.sub_zero, decide_eq_false unfinished]
    rw [List.take_of_length_le short.le]
  · intro record member isStop
    exact absent record member (Option.some_inj.mp isStop)

/-- The stages collect the records of both sources when the last stage keeps those of the first one
or is not reached. -/
theorem scanRecords_kept (positive : 1 ≤ limit)
    (kept : (limit ≤ blockRecords.length ∨ ∃ record ∈ blockRecords, record.signature = stop) ∨
      ∀ record ∈ blockRecords, record.blockTime.isSome = true)
    (shown : ∀ record ∈ blockRecords, (reader.timed record).entry = record.entry)
    (located : ∀ record ∈ indexRecords,
      ∃ location, reader.blocks.getBlockLocation record.slot = .found location) :
    ∃ signatures, reader.scanRecords stop limit blockRecords indexRecords = .signatures signatures
        (decide (limit ≤ (blockRecords ++ indexRecords).length ∨
          ∃ record ∈ blockRecords ++ indexRecords, record.signature = stop)) none ∧
      signatures.map (fun record => record.entry) =
        ((Pages.upTo (fun record => record.signature) (blockRecords ++ indexRecords)
          (some stop)).take limit).map fun record => (reader.timed record).entry := by
  by_cases ended : limit ≤ blockRecords.length ∨ ∃ record ∈ blockRecords, record.signature = stop
  · have finished : limit ≤ (blockRecords ++ indexRecords).length ∨
        ∃ record ∈ blockRecords ++ indexRecords, record.signature = stop := by
      rcases ended with long | ⟨record, member, isStop⟩
      · exact Or.inl (by simp; omega)
      · exact Or.inr ⟨record, List.mem_append_left _ member, isStop⟩
    refine ⟨(Pages.upTo (fun record => record.signature) blockRecords (some stop)).take limit, ?_, ?_⟩
    · rw [scanRecords, SfaScan.takeAll_eq (by exact positive)]
      simp only [List.length_nil, Nat.sub_zero, decide_eq_true ended, List.nil_append, ↓reduceIte,
        decide_eq_true finished]
    · rw [← (Pages.take_upTo_eq_iff (Or.inl rfl) ended).mpr (Or.inl rfl)]
      apply List.map_congr_left
      intro record member
      exact (shown record ((Pages.upTo_sublist _).subset (List.mem_of_mem_take member))).symm
  · have timed := kept.resolve_left ended
    obtain ⟨short, absent⟩ := not_or.mp ended
    rw [Nat.not_le] at short
    have differ : ∀ record ∈ blockRecords, record.signature ≠ stop :=
      fun record member isStop => absent ⟨record, member, isStop⟩
    have page : (Pages.upTo (fun record => record.signature) (blockRecords ++ indexRecords)
        (some stop)).take limit = blockRecords ++ (Pages.upTo (fun record => record.signature)
          indexRecords (some stop)).take (limit - blockRecords.length) :=
      Pages.take_upTo_append
        (fun record member isStop => differ record member (Option.some_inj.mp isStop)) short.le
    refine ⟨(blockRecords ++ (Pages.upTo (fun record => record.signature) indexRecords
      (some stop)).take (limit - blockRecords.length)).map reader.timed, ?_, ?_⟩
    · rw [scanRecords, takeAll_running short differ]
      simp only [Bool.false_eq_true, ↓reduceIte]
      rw [SfaScan.takeAll_eq short, thirdStage, if_neg Bool.false_ne_true, addBlockTimes_kept]
      · have sameEnd : (limit - blockRecords.length ≤ indexRecords.length ∨
              ∃ record ∈ indexRecords, record.signature = stop) ↔
            (limit ≤ (blockRecords ++ indexRecords).length ∨
              ∃ record ∈ blockRecords ++ indexRecords, record.signature = stop) := by
          refine or_congr (by rw [List.length_append]; omega) ?_
          constructor
          · rintro ⟨record, member, isStop⟩
            exact ⟨record, List.mem_append_right _ member, isStop⟩
          · rintro ⟨record, member, isStop⟩
            rcases List.mem_append.mp member with member | member
            · exact absurd isStop (differ record member)
            · exact ⟨record, member, isStop⟩
        simp only [sameEnd]
      · intro record member
        rcases List.mem_append.mp member with member | member
        · exact Or.inl (timed record member)
        · exact Or.inr (located record
            ((Pages.upTo_sublist _).subset (List.mem_of_mem_take member)))
    · rw [page, List.map_map]
      rfl

/-- Records without a time in the block in process are lost, and the answer is open. -/
theorem scanRecords_lost (nonempty : blockRecords ≠ []) (short : blockRecords.length < limit)
    (absent : ∀ record ∈ blockRecords, record.signature ≠ stop)
    (missing : ∀ record ∈ blockRecords, record.blockTime = none ∧
      (reader.blocks.getBlockLocation record.slot = .removed ∨
        reader.blocks.getBlockLocation record.slot = .notAvailable))
    (located : ∀ record ∈ indexRecords,
      ∃ location, reader.blocks.getBlockLocation record.slot = .found location) :
    reader.scanRecords stop limit blockRecords indexRecords = .signatures
      (((Pages.upTo (fun record => record.signature) indexRecords (some stop)).take
        (limit - blockRecords.length)).map reader.timed) false none := by
  rw [scanRecords, takeAll_running short absent]
  simp only [Bool.false_eq_true, ↓reduceIte]
  rw [SfaScan.takeAll_eq short, thirdStage, if_neg Bool.false_ne_true,
    addBlockTimes_dropped missing, if_neg nonempty, addBlockTimes_kept]
  intro record member
  exact Or.inr (located record ((Pages.upTo_sublist _).subset (List.mem_of_mem_take member)))

end scan

/-- Without a deadline the second stage scans the records of the index. -/
theorem secondStage_eq {db : Rocksdb} {keys : HashedKeys} {expired : Nat → Bool} {address : Pubkey}
    {slot : Nat} {before : Option Signature} {stop : Signature} {limit : Nat}
    (timely : ∀ stage, expired stage = false) :
    reader.secondStage db keys expired address slot before stop limit records =
      reader.thirdStage false
        (SfaScan.takeAll stop limit (db.indexRecords (keys.addressHash address) slot)
          ⟨before, records, false⟩).signatures
        (SfaScan.takeAll stop limit (db.indexRecords (keys.addressHash address) slot)
          ⟨before, records, false⟩).finished := by
  rw [secondStage, timely 2, timely 3, if_neg Bool.false_ne_true, Rocksdb.spawnSignatiresForAddress]
  simp only
  rw [Rocksdb.signaturesLoop_eq _ rfl]
  rfl

/-- The records of the block in process. -/
def inProcessRecords (self : Reader) (commitment : CommitmentLevel) (address : Pubkey) :
    List RpcConfirmedTransactionStatusWithSignature :=
  match self.inProcessStatuses commitment address with
  | some (slot, block, statuses) => statuses.map (inProcessRecord slot block)
  | none => []

/-- The first stage by the block in process. -/
theorem firstStage_eq (commitment : CommitmentLevel) (address : Pubkey) (before : Option Signature)
    (stop : Signature) (limit : Nat) :
    reader.firstStage commitment address before stop limit =
      match reader.inProcessStatuses commitment address with
      | some (slot, block, statuses) =>
          let skipped := skipStatuses statuses before
          let scan := SfaScan.takeAll stop limit (skipped.1.map (inProcessRecord slot block))
            ⟨none, [], false⟩
          if scan.finished then .finished scan.signatures
          else .open (reader.highestSlot commitment address) skipped.2 scan.signatures
      | none => .open (reader.highestSlot commitment address) before [] := by
  rw [firstStage, highestSlot, tip, inProcessStatuses]
  by_cases confirmed : commitment = .confirmed
  · simp only [confirmed, ↓reduceIte]
    cases reader.confirmedInProcess with
    | none => rfl
    | some running =>
        obtain ⟨slot, block⟩ := running
        cases block with
        | none => rfl
        | some block =>
            cases found : block.getSfa address with
            | none =>
                simp only [found, Option.map_none, Option.isSome_none, Bool.false_eq_true, ↓reduceIte]
            | some sfa =>
                simp only [found, Option.map_some, Option.isSome_some, ↓reduceIte]
                rw [SfaScan.takeRow_eq fun _ => rfl]
  · simp only [confirmed, ↓reduceIte, Option.isSome_none, Bool.false_eq_true]

/-- The statuses after a known signature are left, and nothing is to be skipped any more. -/
theorem skipStatuses_known {statuses : List SignatureStatus} {before : Option Signature}
    (known : ∀ signature, before = some signature →
      ∃ item ∈ statuses, item.signature = signature) :
    skipStatuses statuses before =
      (Pages.after (fun item => item.signature) statuses before, none) := by
  cases before with
  | none => rfl
  | some signature =>
      rw [skipStatuses]
      cases found : statuses.findIdx? fun item => item.signature = signature with
      | none =>
          obtain ⟨item, member, same⟩ := known signature rfl
          have differs := List.findIdx?_eq_none_iff.mp found item member
          simp [same] at differs
      | some index =>
          simp only
          rw [Pages.drop_findIdx found]

/-- Without the signature nothing of the block is left. -/
theorem skipStatuses_unknown {statuses : List SignatureStatus} {signature : Signature}
    (other : ∀ item ∈ statuses, item.signature ≠ signature) :
    skipStatuses statuses (some signature) = ([], some signature) := by
  have missing : statuses.findIdx? (fun item => item.signature = signature) = none := by
    rw [List.findIdx?_eq_none_iff]
    intro item member
    simpa using other item member
  simp only [skipStatuses, missing]

/-- The first stage scans the rest of the block in process when it has the signature to skip to. -/
theorem firstStage_known {commitment : CommitmentLevel} {address : Pubkey}
    {before : Option Signature} {stop : Signature} {limit : Nat}
    (known : ∀ signature, before = some signature →
      ∃ record ∈ reader.inProcessRecords commitment address, record.signature = signature) :
    reader.firstStage commitment address before stop limit =
      let scan := SfaScan.takeAll stop limit (Pages.after (fun record => record.signature)
        (reader.inProcessRecords commitment address) before) ⟨none, [], false⟩
      if scan.finished then .finished scan.signatures
      else .open (reader.highestSlot commitment address) none scan.signatures := by
  rw [firstStage_eq]
  unfold inProcessRecords at known ⊢
  cases isRunning : reader.inProcessStatuses commitment address with
  | none =>
      rw [isRunning] at known
      cases before with
      | none => rfl
      | some signature =>
          obtain ⟨record, member, -⟩ := known signature rfl
          cases member
  | some running =>
      obtain ⟨slot, block, statuses⟩ := running
      rw [isRunning] at known
      have listed : ∀ signature, before = some signature →
          ∃ item ∈ statuses, item.signature = signature := by
        intro signature isBefore
        obtain ⟨record, member, same⟩ := known signature isBefore
        obtain ⟨item, inBlock, rfl⟩ := List.mem_map.mp member
        exact ⟨item, inBlock, same⟩
      simp only
      rw [skipStatuses_known listed, Pages.after_map]
      rfl

/-- The first stage leaves an unknown signature to the index. -/
theorem firstStage_unknown {commitment : CommitmentLevel} {address : Pubkey}
    {signature stop : Signature} {limit : Nat}
    (other : ∀ record ∈ reader.inProcessRecords commitment address, record.signature ≠ signature) :
    reader.firstStage commitment address (some signature) stop limit =
      .open (reader.highestSlot commitment address) (some signature) [] := by
  rw [firstStage_eq]
  unfold inProcessRecords at other
  cases isRunning : reader.inProcessStatuses commitment address with
  | none => rfl
  | some running =>
      obtain ⟨slot, block, statuses⟩ := running
      rw [isRunning] at other
      simp only
      rw [skipStatuses_unknown]
      · rfl
      · exact fun item member => other _ (List.mem_map_of_mem member)

section stages

variable {db : Rocksdb} {keys : HashedKeys} {expired : Nat → Bool} {commitment : CommitmentLevel}
  {address : Pubkey} {before last : Option Signature} {signature : Signature} {limit : Nat}

/-- Without a signature to skip to, or with one in the block in process, the stages scan the rest of
that block and the whole index. -/
theorem processSignaturesForAddress_known (timely : ∀ stage, expired stage = false)
    (known : ∀ signature, before = some signature →
      ∃ record ∈ reader.inProcessRecords commitment address, record.signature = signature) :
    reader.processSignaturesForAddress db keys expired commitment address before last limit =
      reader.scanRecords (last.getD Signature.default) limit
        (Pages.after (fun record => record.signature)
          (reader.inProcessRecords commitment address) before)
        (db.indexRecords (keys.addressHash address) (reader.highestSlot commitment address)) := by
  rw [processSignaturesForAddress, timely 1, if_neg Bool.false_ne_true]
  simp only
  rw [firstStage_known known, scanRecords]
  simp only
  cases SfaScan.takeAll (last.getD Signature.default) limit _ ⟨none, [], false⟩ with
  | mk _ signatures finished =>
      cases finished with
      | true => rfl
      | false =>
          simp only [Bool.false_eq_true, ↓reduceIte]
          rw [secondStage_eq timely]

/-- A signature that the index has starts the scan at its own slot. -/
theorem processSignaturesForAddress_indexed {index : TransactionIndexValue}
    (timely : ∀ stage, expired stage = false)
    (other : ∀ record ∈ reader.inProcessRecords commitment address, record.signature ≠ signature)
    (found : db.transactionIndex.get (keys.signatureKey signature) = some index)
    (inside : index.slot ≤ reader.highestSlot commitment address)
    (known : ∃ record ∈ db.indexRecords (keys.addressHash address) index.slot,
      record.signature = signature) :
    reader.processSignaturesForAddress db keys expired commitment address (some signature) last
        limit =
      reader.scanRecords (last.getD Signature.default) limit []
        (Pages.after (fun record => record.signature)
          (db.indexRecords (keys.addressHash address) index.slot) (some signature)) := by
  rw [processSignaturesForAddress, timely 1, if_neg Bool.false_ne_true]
  simp only
  rw [firstStage_unknown other]
  simp only [found, inside, ↓reduceIte]
  rw [secondStage_eq timely, SfaScan.takeAll_skip known]
  rfl

/-- A signature that the index does not have is left to the upstream. -/
theorem processSignaturesForAddress_unknown (timely : ∀ stage, expired stage = false)
    (other : ∀ record ∈ reader.inProcessRecords commitment address, record.signature ≠ signature)
    (missing : db.transactionIndex.get (keys.signatureKey signature) = none) :
    reader.processSignaturesForAddress db keys expired commitment address (some signature) last
      limit = .signatures [] false (some signature) := by
  rw [processSignaturesForAddress, timely 1, if_neg Bool.false_ne_true]
  simp only
  rw [firstStage_unknown other]
  simp only [missing]

end stages

end Reader

/-- The upstream answers every query over the history. -/
def UpstreamSignatures.AnswersOver (upstream : UpstreamSignatures) (history : History) : Prop :=
  ∀ before last limit, ∃ records, upstream before last limit = .ok records ∧
    records.map (fun record => record.entry) = history.query before last limit

namespace RpcRequestSignaturesForAddress

section upstream

variable {request : RpcRequestSignaturesForAddress} {upstream : UpstreamSignatures}
  {history : History} {signatures : List RpcConfirmedTransactionStatusWithSignature}
  {skipped lost known rest : List HistoryEntry}

/-- An open answer goes on with the history after its last entry. -/
theorem continueUpstream_open (signatures : List RpcConfirmedTransactionStatusWithSignature)
    (before : Option Signature) (enabled : request.upstreamDisabled = false)
    (short : signatures.length < request.limit) (answers : upstream.AnswersOver history) :
    ∃ list, request.continueUpstream (some upstream) signatures false before = .success list ∧
      list.map (fun record => record.entry) = signatures.map (fun record => record.entry) ++
        history.query (((signatures.map fun record => record.entry).getLast?.map
          HistoryEntry.signature).or before) request.last (request.limit - signatures.length) := by
  have room : 0 < request.limit - signatures.length := by omega
  obtain ⟨more, answered, isMore⟩ := answers (((signatures.map fun record => record.entry).getLast?.map
    HistoryEntry.signature).or before) request.last (request.limit - signatures.length)
  refine ⟨signatures ++ more, ?_, ?_⟩
  · rw [List.getLast?_map] at answered
    rw [continueUpstream]
    cases final : signatures.getLast? with
    | none =>
        rw [final] at answered
        simp only [enabled, room, Bool.not_false, Bool.and_self, decide_true, ↓reduceIte,
          fetchUpstream]
        rw [show upstream before request.last _ = .ok more from answered]
    | some record =>
        rw [final] at answered
        simp only [enabled, room, Bool.not_false, Bool.and_self, decide_true, ↓reduceIte,
          fetchUpstream]
        rw [show upstream (some record.signature) request.last _ = .ok more from answered]
  · rw [List.map_append, isMore]

/-- A request without a last signature stops at the default one. -/
theorem last_cases (request : RpcRequestSignaturesForAddress) :
    request.last = some (request.last.getD Signature.default) ∨ request.last = none := by
  cases request.last with
  | none => exact Or.inr rfl
  | some last => exact Or.inl rfl

/-- The default signature only matters without a last signature. -/
theorem last_or_iff (request : RpcRequestSignaturesForAddress) (list : List HistoryEntry) :
    (request.last = some (request.last.getD Signature.default) ∨
        ∀ entry ∈ list, entry.signature ≠ request.last.getD Signature.default) ↔
      (request.last.isSome = true ∨ ∀ entry ∈ list, entry.signature ≠ Signature.default) := by
  cases request.last with
  | none => simp
  | some last => simp

/-- The local entries and the upstream make the query exactly if the default signature does not end
the answer and there is an entry to continue after or nothing to skip. -/
theorem continueUpstream_iff {finished : Bool} (enabled : request.upstreamDisabled = false)
    (positive : 1 ≤ request.limit) (answers : upstream.AnswersOver history)
    (whole : history.entries = skipped ++ (known ++ rest))
    (shown : signatures.map (fun record => record.entry) = (Pages.upTo HistoryEntry.signature known
      (some (request.last.getD Signature.default))).take request.limit)
    (ends : finished = true ↔ request.limit ≤ known.length ∨
      ∃ entry ∈ known, entry.signature = request.last.getD Signature.default) :
    ∃ list, request.continueUpstream (some upstream) signatures finished none = .success list ∧
      (list.map (fun record => record.entry) = (Pages.upTo HistoryEntry.signature (known ++ rest)
          request.last).take request.limit ↔
        (request.last.isSome = true ∨
          ∀ entry ∈ known.take request.limit, entry.signature ≠ Signature.default) ∧
        (known ≠ [] ∨ skipped = [] ∨ (known ++ rest = [] ∧
          history.entries.head?.map HistoryEntry.signature = request.last))) := by
  rw [← last_or_iff]
  cases finished with
  | true =>
      have complete := ends.mp rfl
      have nonempty : known ≠ [] := by
        rintro rfl
        rcases complete with long | ⟨entry, member, -⟩
        · exact absurd positive (by simpa using long)
        · cases member
      refine ⟨signatures, by simp [continueUpstream], ?_⟩
      rw [shown, Pages.take_upTo_eq_iff request.last_cases complete]
      exact (and_iff_left (Or.inl nonempty)).symm
  | false =>
      obtain ⟨short, missing⟩ := not_or.mp (mt ends.mpr Bool.false_ne_true)
      rw [Nat.not_le] at short
      have absent : ∀ entry ∈ known, entry.signature ≠ request.last.getD Signature.default :=
        fun entry member isStop => missing ⟨entry, member, isStop⟩
      rw [Pages.upTo_eq_self fun entry member isStop =>
        absent entry member (Option.some_inj.mp isStop), List.take_of_length_le short.le] at shown
      have sameLength : signatures.length = known.length := by
        rw [← shown, List.length_map]
      have room : signatures.length < request.limit := by omega
      obtain ⟨list, continued, isList⟩ := continueUpstream_open signatures none enabled room
        answers
      refine ⟨list, continued, ?_⟩
      rw [isList, shown, sameLength, Option.or_none, History.query, whole,
        Pages.continue_eq_iff positive request.last_cases (by rw [← whole]; exact history.distinct)
          short absent]
      refine (and_iff_right (Or.inr fun entry member => ?_)).symm
      exact absent entry (List.mem_of_mem_take member)

/-- A local answer without the first entries is continued to the query only when no known entry
follows before the end and nothing is skipped. -/
theorem continueUpstream_lost_iff (enabled : request.upstreamDisabled = false)
    (answers : upstream.AnswersOver history)
    (whole : history.entries = skipped ++ (lost ++ (known ++ rest)))
    (nonempty : lost ≠ []) (short : lost.length < request.limit)
    (absent : ∀ entry ∈ lost, entry.signature ≠ request.last.getD Signature.default)
    (shown : signatures.map (fun record => record.entry) = (Pages.upTo HistoryEntry.signature known
      (some (request.last.getD Signature.default))).take (request.limit - lost.length)) :
    ∃ list, request.continueUpstream (some upstream) signatures false none = .success list ∧
      (list.map (fun record => record.entry) = (Pages.upTo HistoryEntry.signature
          (lost ++ (known ++ rest)) request.last).take request.limit ↔
        (∀ entry ∈ known.head?, entry.signature = request.last.getD Signature.default) ∧
          skipped = []) := by
  have some : 0 < lost.length := List.length_pos_of_ne_nil nonempty
  have sameLength : signatures.length = (signatures.map fun record => record.entry).length := by
    rw [List.length_map]
  have room : signatures.length < request.limit := by
    rw [sameLength, shown]
    exact (List.length_take_le _ _).trans_lt (by omega)
  obtain ⟨list, continued, isList⟩ := continueUpstream_open signatures none enabled room
    answers
  refine ⟨list, continued, ?_⟩
  rw [isList, sameLength, Option.or_none, History.query, whole]
  exact Pages.continue_lost_eq_iff request.last_cases nonempty short absent
    (by rw [← whole]; exact history.distinct) _ shown

end upstream

end RpcRequestSignaturesForAddress

end Alpamayo
