import Alpamayo.Proof.SignatureHistory

/-!
This file proves when the signatures of an address from the storage and the upstream are one query.
-/

namespace Alpamayo

namespace Reader

/-- The storage has exactly the entries of the history from the lowest stored slot on. -/
structure Stores (reader : Reader) (db : Rocksdb) (keys : HashedKeys) (commitment : CommitmentLevel)
    (address : Pubkey) (history : History) (lowest : Nat) : Prop where
  rows : ∀ slot ≤ reader.highestSlot commitment address,
    ((db.sfaIndex.get (SfaKey.concat (keys.addressHash address) slot)).getD []).map
        (fun item => (reader.timed (indexRecord slot item)).entry) =
      history.entries.filter fun entry => lowest ≤ entry.slot ∧ entry.slot = slot
  located : ∀ entry ∈ history.entries, lowest ≤ entry.slot →
    entry.slot ≤ reader.highestSlot commitment address →
      ∃ location, reader.blocks.getBlockLocation entry.slot = .found location
  signatures : ∀ entry ∈ history.entries, entry.slot ≤ reader.highestSlot commitment address →
    (db.transactionIndex.get (keys.signatureKey entry.signature)).map (fun index => index.slot) =
      if lowest ≤ entry.slot then some entry.slot else none
  inProcess : ∀ slot block statuses,
    reader.inProcessStatuses commitment address = some (slot, block, statuses) →
      0 < slot ∧ lowest ≤ slot ∧
        statuses.map (fun item => (inProcessRecord slot block item).entry) =
          history.entries.filter fun entry => entry.slot = slot

section storage

variable {reader : Reader} {db : Rocksdb} {keys : HashedKeys} {commitment : CommitmentLevel}
  {address : Pubkey} {history : History} {lowest slot : Nat} {block : BlockWithBinary}
  {statuses : List SignatureStatus}

/-- A block in process is not in the ring of a reachable reader, and its slot is the tip. -/
theorem Reachable.inProcessStatuses (reachable : reader.Reachable)
    (running : reader.inProcessStatuses commitment address = some (slot, block, statuses)) :
    reader.tip commitment = slot ∧ (reader.blocks.getBlockLocation slot = .removed ∨
      reader.blocks.getBlockLocation slot = .notAvailable) := by
  obtain ⟨contents, consistent⟩ := reachable.consistent
  rw [Reader.inProcessStatuses] at running
  split at running
  · rename_i confirmed
    split at running
    · rename_i known stored isRunning
      obtain ⟨sfa, -, same⟩ := Option.map_eq_some_iff.mp running
      cases same
      obtain ⟨isConfirmed, next⟩ := consistent.inProcess slot (some block) isRunning
      refine ⟨by rw [tip, if_pos confirmed, isConfirmed], ?_⟩
      rw [StoredBlocksRead.getBlockLocation]
      simp only
      split
      · exact Or.inl rfl
      · rename_i tailPresent
        refine Or.inr (if_pos ?_)
        cases present : (reader.blocks.blocks.cells reader.blocks.blocks.head).present with
        | false => rfl
        | true =>
            obtain ⟨before, last, rfl⟩ := consistent.exists_last present
            have isLast : (before ++ [last]).getLast? = some last := List.getLast?_concat
            rw [consistent.headCell_of_last isLast, next last isLast]
            simp
    · cases running
  · cases running

/-- A record of a block that is not in the ring keeps its own time. -/
theorem timed_entry {record : RpcConfirmedTransactionStatusWithSignature}
    (outside : reader.blocks.getBlockLocation record.slot = .removed ∨
      reader.blocks.getBlockLocation record.slot = .notAvailable) :
    (reader.timed record).entry = record.entry := by
  rw [timed]
  split
  · rfl
  · rename_i timeless
    have unknown : reader.storedTime record.slot = none := by
      rcases outside with removed | notAvailable
      · rw [storedTime, removed]
      · rw [storedTime, notAvailable]
    rw [Bool.not_eq_true, Option.isSome_eq_false_iff, Option.isNone_iff_eq_none] at timeless
    simp only [RpcConfirmedTransactionStatusWithSignature.entry, timeless, unknown]

/-- The entries of the block in process. -/
def inProcessEntries (self : Reader) (commitment : CommitmentLevel) (address : Pubkey) :
    List HistoryEntry := (self.inProcessRecords commitment address).map fun record => record.entry

/-- The entries of the history that the index has up to a slot. -/
def indexEntries (history : History) (lowest slot : Nat) : List HistoryEntry :=
  (history.entries.filter fun entry => lowest ≤ entry.slot).filter fun entry => entry.slot ≤ slot

/-- The entries of the history below the storage. -/
def upstreamEntries (history : History) (lowest slot : Nat) : List HistoryEntry :=
  history.entries.filter fun entry => entry.slot ≤ slot ∧ entry.slot < lowest

/-- The records of the index are the stored entries up to the slot. -/
theorem Stores.indexRecords (stores : reader.Stores db keys commitment address history lowest)
    (inside : slot ≤ reader.highestSlot commitment address) :
    (db.indexRecords (keys.addressHash address) slot).map
      (fun record => (reader.timed record).entry) = indexEntries history lowest slot := by
  apply Rocksdb.indexRecords_map (history.newestFirst.filter _)
  intro rowSlot lower
  rw [stores.rows rowSlot (lower.trans inside), List.filter_filter]
  apply List.filter_congr
  intro entry _
  rw [Bool.and_comm, Bool.decide_and]

/-- The records of the index have their place in the ring. -/
theorem Stores.indexRecords_located
    (stores : reader.Stores db keys commitment address history lowest)
    (inside : slot ≤ reader.highestSlot commitment address) {record}
    (member : record ∈ db.indexRecords (keys.addressHash address) slot) :
    ∃ location, reader.blocks.getBlockLocation record.slot = .found location := by
  have listed : (reader.timed record).entry ∈ indexEntries history lowest slot := by
    rw [← stores.indexRecords inside]
    exact List.mem_map_of_mem member
  have sameSlot : (reader.timed record).entry.slot = record.slot := by
    rw [timed]
    split
    · rfl
    · rfl
  rw [indexEntries, List.mem_filter, List.mem_filter, sameSlot] at listed
  obtain ⟨⟨known, stored⟩, upper⟩ := listed
  have located := stores.located _ known (by simpa [sameSlot] using stored)
    (by rw [sameSlot]; exact (of_decide_eq_true upper).trans inside)
  rwa [sameSlot] at located

/-- The history up to the tip is the block in process, the index, and the rest upstream. -/
theorem Stores.split (stores : reader.Stores db keys commitment address history lowest)
    (reachable : reader.Reachable) :
    (history.upToSlot (reader.tip commitment)).entries =
      reader.inProcessEntries commitment address ++
        (indexEntries history lowest (reader.highestSlot commitment address) ++
          upstreamEntries history lowest (reader.highestSlot commitment address)) := by
  have below (bound : Nat) : indexEntries history lowest bound ++
      upstreamEntries history lowest bound = history.entries.filter fun entry => entry.slot ≤ bound := by
    rw [← Pages.filter_append_filter history.newestFirst _ lowest, indexEntries, upstreamEntries,
      List.filter_filter]
    simp only [Bool.decide_and]
  rw [below, History.upToSlot, inProcessEntries, inProcessRecords, highestSlot]
  cases isRunning : reader.inProcessStatuses commitment address with
  | none => simp
  | some running =>
      obtain ⟨slot, block, statuses⟩ := running
      obtain ⟨isTip, -⟩ := reachable.inProcessStatuses isRunning
      obtain ⟨positive, -, entries⟩ := stores.inProcess slot block statuses isRunning
      simp only [Option.isSome_some, ↓reduceIte, List.map_map]
      rw [show statuses.map ((fun record => record.entry) ∘ inProcessRecord slot block) =
        history.entries.filter fun entry => entry.slot = slot from entries, isTip,
        ← Pages.filter_append_filter history.newestFirst _ slot]
      congr 1
      · apply List.filter_congr
        intro entry _
        rw [← Bool.decide_and, decide_eq_decide]
        omega
      · apply List.filter_congr
        intro entry _
        rw [← Bool.decide_and, decide_eq_decide]
        omega

/-- The entries above the tip come before the others. -/
theorem tip_split (history : History) (bound : Nat) :
    history.entries = (history.entries.filter fun entry => bound < entry.slot) ++
      (history.upToSlot bound).entries := by
  have split := Pages.filter_append_filter history.newestFirst (fun _ => true) (bound + 1)
  rw [List.filter_eq_self.mpr fun _ _ => rfl] at split
  conv_lhs => rw [← split]
  simp only [Bool.true_and, Nat.lt_succ_iff, Nat.succ_le_iff, History.upToSlot]

end storage

end Reader

namespace RpcRequestSignaturesForAddress

/-- The signature at which the scans of the storage stop. -/
def stop (self : RpcRequestSignaturesForAddress) : Signature := self.last.getD Signature.default

/-- The entries of the history up to the tip from which the request takes its page. -/
def wanted (self : RpcRequestSignaturesForAddress) (reader : Reader) (history : History) :
    List HistoryEntry :=
  Pages.after HistoryEntry.signature (history.upToSlot (reader.tip self.commitment)).entries
    self.before

/-- The wanted entries of a block in process without a time are lost when they neither fill the
answer nor end it. -/
def Loses (self : RpcRequestSignaturesForAddress) (part : List HistoryEntry) : Prop :=
  (∃ entry ∈ part, entry.blockTime = none) ∧ part.length < self.limit ∧
    ∀ entry ∈ part, entry.signature ≠ self.stop

/-- The parts of the wanted entries in the block in process, in the index, and below the storage make
the answer under this condition. -/
def PartsStitch (self : RpcRequestSignaturesForAddress) (history : History)
    (blockPart indexPart rest : List HistoryEntry) : Prop :=
  (self.Loses blockPart → (∀ entry ∈ indexPart.head?, entry.signature = self.stop) ∧
    blockPart ++ (indexPart ++ rest) = history.entries) ∧
  (¬ self.Loses blockPart →
    (self.last.isSome = true ∨
      ∀ entry ∈ (blockPart ++ indexPart).take self.limit, entry.signature ≠ Signature.default) ∧
    (blockPart ++ indexPart ≠ [] ∨ blockPart ++ (indexPart ++ rest) = history.entries ∨
      (blockPart ++ (indexPart ++ rest) = [] ∧
        history.entries.head?.map HistoryEntry.signature = self.last)))

instance (self : RpcRequestSignaturesForAddress) (part : List HistoryEntry) :
    Decidable (self.Loses part) := inferInstanceAs (Decidable (_ ∧ _))

instance (self : RpcRequestSignaturesForAddress) (history : History)
    (blockPart indexPart rest : List HistoryEntry) :
    Decidable (self.PartsStitch history blockPart indexPart rest) :=
  inferInstanceAs (Decidable (_ ∧ _))

section process

variable {request : RpcRequestSignaturesForAddress} {reader : Reader} {db : Rocksdb}
  {keys : HashedKeys} {expired : Nat → Bool} {upstream : UpstreamSignatures} {history : History}
  {lowest : Nat} {skipped rest : List HistoryEntry}
  {blockRecords indexRecords : List RpcConfirmedTransactionStatusWithSignature}

/-- A request whose stages scan two lists of records is answered as by the whole history exactly
under the condition. -/
theorem process_iff_of_scan (enabled : request.upstreamDisabled = false)
    (positive : 1 ≤ request.limit) (answers : upstream.AnswersOver history)
    (scanned : reader.processSignaturesForAddress db keys expired request.commitment request.address
      request.before request.last request.limit =
        reader.scanRecords request.stop request.limit blockRecords indexRecords)
    (uniform : (∀ record ∈ blockRecords, record.blockTime.isSome = true) ∨
      ∀ record ∈ blockRecords, record.blockTime = none)
    (outside : ∀ record ∈ blockRecords,
      reader.blocks.getBlockLocation record.slot = .removed ∨
        reader.blocks.getBlockLocation record.slot = .notAvailable)
    (located : ∀ record ∈ indexRecords,
      ∃ location, reader.blocks.getBlockLocation record.slot = .found location)
    (blockPart indexPart : List HistoryEntry)
    (isBlockPart : blockRecords.map (fun record => record.entry) = blockPart)
    (isIndexPart : indexRecords.map (fun record => (reader.timed record).entry) = indexPart)
    (whole : history.entries = skipped ++ (blockPart ++ (indexPart ++ rest))) :
    ∃ list, request.process reader db keys expired (some upstream) = .success list ∧
      (list.map (fun record => record.entry) = (Pages.upTo HistoryEntry.signature
          (blockPart ++ (indexPart ++ rest)) request.last).take request.limit ↔
        request.PartsStitch history blockPart indexPart rest) := by
  have nothing : skipped = [] ↔ blockPart ++ (indexPart ++ rest) = history.entries := by
    rw [whole]
    exact (List.self_eq_append_left).symm
  have shown : ∀ record ∈ blockRecords, (reader.timed record).entry = record.entry :=
    fun record member => Reader.timed_entry (outside record member)
  rw [process, scanned]
  have image : (blockRecords ++ indexRecords).map (fun record => (reader.timed record).entry) =
      blockPart ++ indexPart := by
    rw [List.map_append, isIndexPart, ← isBlockPart, List.map_congr_left shown]
  by_cases loses : request.Loses blockPart
  · obtain ⟨⟨entry, isEntry, isTimeless⟩, short, absent⟩ := id loses
    have nonempty : blockPart ≠ [] := List.ne_nil_of_mem isEntry
    have timeless : ∀ record ∈ blockRecords, record.blockTime = none := by
      rw [← isBlockPart] at isEntry
      obtain ⟨record, member, rfl⟩ := List.mem_map.mp isEntry
      refine uniform.resolve_left fun timed => ?_
      have isSome := timed record member
      rw [show record.blockTime = none from isTimeless] at isSome
      cases isSome
    have sameLength : blockRecords.length = blockPart.length := by
      rw [← isBlockPart, List.length_map]
    rw [Reader.scanRecords_lost (fun empty => nonempty (by rw [← isBlockPart, empty]; rfl))
      (by omega) (fun record member => absent record.entry (by
        rw [← isBlockPart]
        exact List.mem_map_of_mem member))
      (fun record member => ⟨timeless record member, outside record member⟩) located]
    have isPage : (((Pages.upTo (fun record => record.signature) indexRecords
        (some request.stop)).take (request.limit - blockRecords.length)).map reader.timed).map
          (fun record => record.entry) = (Pages.upTo HistoryEntry.signature indexPart
            (some (request.last.getD Signature.default))).take
              (request.limit - blockPart.length) := by
      rw [← isIndexPart, Pages.upTo_map, ← sameLength, List.map_map, List.map_take]
      simp only [Reader.timed_entry_signature]
      rfl
    obtain ⟨list, continued, correct⟩ := continueUpstream_lost_iff enabled answers whole nonempty
      short absent isPage
    refine ⟨list, continued, correct.trans ?_⟩
    rw [nothing]
    exact ⟨fun condition => ⟨fun _ => condition, fun kept => absurd loses kept⟩,
      fun condition => condition.1 loses⟩
  · have kept : (request.limit ≤ blockRecords.length ∨
          ∃ record ∈ blockRecords, record.signature = request.stop) ∨
        ∀ record ∈ blockRecords, record.blockTime.isSome = true := by
      by_contra neither
      obtain ⟨running, timeless⟩ := not_or.mp neither
      obtain ⟨short, absent⟩ := not_or.mp running
      have some := uniform.resolve_left timeless
      simp only [not_forall] at timeless
      obtain ⟨record, member, -⟩ := timeless
      refine loses ⟨⟨record.entry, ?_, some record member⟩, ?_, ?_⟩
      · rw [← isBlockPart]
        exact List.mem_map_of_mem member
      · rw [← isBlockPart, List.length_map]
        omega
      · rw [← isBlockPart]
        intro entry isEntry isStop
        obtain ⟨other, inBlock, rfl⟩ := List.mem_map.mp isEntry
        exact absent ⟨other, inBlock, isStop⟩
    obtain ⟨signatures, isScan, isShown⟩ := Reader.scanRecords_kept positive kept shown located
    have wholeParts : history.entries = skipped ++ ((blockPart ++ indexPart) ++ rest) := by
      rw [whole, List.append_assoc]
    have isPage : signatures.map (fun record => record.entry) =
        (Pages.upTo HistoryEntry.signature (blockPart ++ indexPart)
          (some (request.last.getD Signature.default))).take request.limit := by
      rw [isShown, ← image, Pages.upTo_map, List.map_take]
      simp only [Reader.timed_entry_signature]
      rfl
    have isEnd : decide (request.limit ≤ (blockRecords ++ indexRecords).length ∨
          ∃ record ∈ blockRecords ++ indexRecords, record.signature = request.stop) = true ↔
        request.limit ≤ (blockPart ++ indexPart).length ∨
          ∃ entry ∈ blockPart ++ indexPart,
            entry.signature = request.last.getD Signature.default := by
      rw [← image, decide_eq_true_iff, List.length_map]
      refine or_congr Iff.rfl ⟨?_, ?_⟩
      · rintro ⟨record, member, isStop⟩
        refine ⟨_, List.mem_map_of_mem member, ?_⟩
        rw [Reader.timed_entry_signature, isStop]
        rfl
      · rintro ⟨entry, member, isStop⟩
        obtain ⟨record, isRecord, rfl⟩ := List.mem_map.mp member
        rw [Reader.timed_entry_signature] at isStop
        exact ⟨record, isRecord, isStop⟩
    obtain ⟨list, continued, correct⟩ := continueUpstream_iff enabled positive answers wholeParts
      isPage isEnd
    rw [isScan]
    refine ⟨list, continued, ?_⟩
    rw [List.append_assoc, nothing] at correct
    rw [correct]
    exact ⟨fun condition => ⟨fun lost => absurd lost loses, fun _ => condition⟩,
      fun condition => condition.2 loses⟩

/-- The three parts of the wanted entries are told apart by their slots. -/
theorem filter_parts {highest : Nat} {blockPart indexPart rest : List HistoryEntry}
    (block : ∀ entry ∈ blockPart, highest < entry.slot)
    (index : ∀ entry ∈ indexPart, lowest ≤ entry.slot ∧ entry.slot ≤ highest)
    (below : ∀ entry ∈ rest, entry.slot ≤ highest ∧ entry.slot < lowest) :
    (blockPart ++ (indexPart ++ rest)).filter (fun entry => highest < entry.slot) = blockPart ∧
    (blockPart ++ (indexPart ++ rest)).filter
      (fun entry => lowest ≤ entry.slot ∧ entry.slot ≤ highest) = indexPart ∧
    (blockPart ++ (indexPart ++ rest)).filter
      (fun entry => entry.slot ≤ highest ∧ entry.slot < lowest) = rest := by
  have all {test : HistoryEntry → Bool} {list : List HistoryEntry}
      (passes : ∀ entry ∈ list, test entry = true) : list.filter test = list :=
    List.filter_eq_self.mpr passes
  have no {test : HistoryEntry → Bool} {list : List HistoryEntry}
      (fails : ∀ entry ∈ list, test entry = false) : list.filter test = [] :=
    List.filter_eq_nil_iff.mpr fun entry member passes => by simp [fails entry member] at passes
  simp only [List.filter_append]
  refine ⟨?_, ?_, ?_⟩
  · rw [all fun entry member => decide_eq_true (block entry member),
      no fun entry member => decide_eq_false (by have := index entry member; omega),
      no fun entry member => decide_eq_false (by have := below entry member; omega)]
    simp
  · rw [no fun entry member => decide_eq_false (by have := block entry member; omega),
      all fun entry member => decide_eq_true (index entry member),
      no fun entry member => decide_eq_false (by have := below entry member; omega)]
    simp
  · rw [no fun entry member => decide_eq_false (by have := block entry member; omega),
      no fun entry member => decide_eq_false (by have := index entry member; omega),
      all fun entry member => decide_eq_true (below entry member)]
    simp

end process

/-- This is the exact condition for a correct answer: the entry to start after lies below the storage,
or the wanted entries in the block in process, in the index, and below the storage are put together
without a slip. -/
def Stitches (self : RpcRequestSignaturesForAddress) (reader : Reader) (history : History)
    (lowest : Nat) : Prop :=
  let highest := reader.highestSlot self.commitment self.address
  let wanted := self.wanted reader history
  (∃ entry ∈ history.entries, self.before = some entry.signature ∧ entry.slot < lowest) ∨
    self.PartsStitch history (wanted.filter fun entry => highest < entry.slot)
      (wanted.filter fun entry => lowest ≤ entry.slot ∧ entry.slot ≤ highest)
      (wanted.filter fun entry => entry.slot ≤ highest ∧ entry.slot < lowest)

section exactness

variable {request : RpcRequestSignaturesForAddress} {reader : Reader} {db : Rocksdb}
  {keys : HashedKeys} {expired : Nat → Bool} {upstream : UpstreamSignatures} {history : History}
  {lowest : Nat}

/-- The entries of the block in process lie above the slot from which the index is read. -/
theorem inProcessRecords_spec {commitment : CommitmentLevel} {address : Pubkey}
    (reachable : reader.Reachable)
    (stores : reader.Stores db keys commitment address history lowest) :
    ∃ time, ∀ record ∈ reader.inProcessRecords commitment address,
      record.blockTime = time ∧ lowest ≤ record.slot ∧
      reader.highestSlot commitment address < record.slot ∧
      (reader.blocks.getBlockLocation record.slot = .removed ∨
        reader.blocks.getBlockLocation record.slot = .notAvailable) := by
  unfold Reader.inProcessRecords Reader.highestSlot
  cases isRunning : reader.inProcessStatuses commitment address with
  | none => exact ⟨none, fun record member => by cases member⟩
  | some running =>
      obtain ⟨slot, block, statuses⟩ := running
      obtain ⟨isTip, outside⟩ := reachable.inProcessStatuses isRunning
      obtain ⟨positive, stored, -⟩ := stores.inProcess slot block statuses isRunning
      refine ⟨block.blockTime, fun record member => ?_⟩
      obtain ⟨item, -, rfl⟩ := List.mem_map.mp member
      refine ⟨rfl, stored, ?_, outside⟩
      show reader.tip commitment - 1 < slot
      omega

/-- The index part lies in the storage, and the rest below it. -/
theorem mem_indexEntries {highest : Nat} {entry : HistoryEntry} :
    entry ∈ Reader.indexEntries history lowest highest ↔
      entry ∈ history.entries ∧ lowest ≤ entry.slot ∧ entry.slot ≤ highest := by
  simp only [Reader.indexEntries, List.mem_filter, decide_eq_true_eq, and_assoc]

theorem mem_upstreamEntries {highest : Nat} {entry : HistoryEntry} :
    entry ∈ Reader.upstreamEntries history lowest highest ↔
      entry ∈ history.entries ∧ entry.slot ≤ highest ∧ entry.slot < lowest := by
  simp only [Reader.upstreamEntries, List.mem_filter, decide_eq_true_eq]

/-- The wanted entries end the history. -/
theorem wanted_suffix (request : RpcRequestSignaturesForAddress) (reader : Reader)
    (history : History) : ∃ skipped, history.entries = skipped ++ request.wanted reader history := by
  obtain ⟨skipped, split⟩ := Pages.after_suffix HistoryEntry.signature
    (history.upToSlot (reader.tip request.commitment)).entries request.before
  refine ⟨(history.entries.filter fun entry => reader.tip request.commitment < entry.slot) ++
    skipped, ?_⟩
  conv_lhs => rw [Reader.tip_split history (reader.tip request.commitment), ← split]
  rw [List.append_assoc]
  rfl

/-- Two entries of a history with one signature are the same. -/
theorem entry_unique {first second : HistoryEntry} (firstMember : first ∈ history.entries)
    (secondMember : second ∈ history.entries) (same : first.signature = second.signature) :
    first = second := List.inj_on_of_nodup_map history.distinct firstMember secondMember same

/-- A scan of parts that are the wanted entries gives the exact condition. -/
theorem process_iff_of_parts (reachable : reader.Reachable)
    (stores : reader.Stores db keys request.commitment request.address history lowest)
    (enabled : request.upstreamDisabled = false) (positive : 1 ≤ request.limit)
    (answers : upstream.AnswersOver history)
    {blockRecords indexRecords : List RpcConfirmedTransactionStatusWithSignature}
    (scanned : reader.processSignaturesForAddress db keys expired request.commitment request.address
      request.before request.last request.limit =
        reader.scanRecords request.stop request.limit blockRecords indexRecords)
    (inBlock : ∀ record ∈ blockRecords,
      record ∈ reader.inProcessRecords request.commitment request.address)
    {slot : Nat} (inside : slot ≤ reader.highestSlot request.commitment request.address)
    (inIndex : ∀ record ∈ indexRecords,
      record ∈ db.indexRecords (keys.addressHash request.address) slot)
    {indexPart : List HistoryEntry}
    (isIndexPart : indexRecords.map (fun record => (reader.timed record).entry) = indexPart)
    (isWanted : request.wanted reader history = blockRecords.map (fun record => record.entry) ++
      (indexPart ++ Reader.upstreamEntries history lowest
        (reader.highestSlot request.commitment request.address)))
    (stored : ∀ entry ∈ history.entries, request.before = some entry.signature →
      lowest ≤ entry.slot) :
    ∃ list, request.process reader db keys expired (some upstream) = .success list ∧
      (list.map (fun record => record.entry) =
          (history.upToSlot (reader.tip request.commitment)).query request.before request.last
            request.limit ↔ request.Stitches reader history lowest) := by
  obtain ⟨skipped, whole⟩ := request.wanted_suffix reader history
  obtain ⟨time, inProcess⟩ := inProcessRecords_spec reachable stores
  have uniform : (∀ record ∈ blockRecords, record.blockTime.isSome = true) ∨
      ∀ record ∈ blockRecords, record.blockTime = none := by
    cases isTime : time with
    | none =>
        refine Or.inr fun record member => ?_
        rw [(inProcess record (inBlock record member)).1, isTime]
    | some known =>
        refine Or.inl fun record member => ?_
        rw [(inProcess record (inBlock record member)).1, isTime]
        rfl
  have isIndexEntry : ∀ entry ∈ indexPart, lowest ≤ entry.slot ∧
      entry.slot ≤ reader.highestSlot request.commitment request.address := by
    intro entry member
    rw [← isIndexPart] at member
    obtain ⟨record, isRecord, rfl⟩ := List.mem_map.mp member
    have listed := List.mem_map_of_mem (f := fun record => (reader.timed record).entry)
      (inIndex record isRecord)
    rw [stores.indexRecords inside] at listed
    obtain ⟨-, low, high⟩ := mem_indexEntries.mp listed
    exact ⟨low, high.trans inside⟩
  have isBlockEntry : ∀ entry ∈ blockRecords.map (fun record => record.entry),
      reader.highestSlot request.commitment request.address < entry.slot := by
    intro entry member
    obtain ⟨record, isRecord, rfl⟩ := List.mem_map.mp member
    exact (inProcess record (inBlock record isRecord)).2.2.1
  rw [isWanted] at whole
  obtain ⟨list, processed, correct⟩ := process_iff_of_scan enabled positive answers scanned uniform
    (fun record member => (inProcess record (inBlock record member)).2.2.2)
    (fun record member => stores.indexRecords_located inside (inIndex record member))
    _ indexPart rfl isIndexPart whole
  refine ⟨list, processed, ?_⟩
  have isQuery : (history.upToSlot (reader.tip request.commitment)).query request.before request.last
      request.limit = (Pages.upTo HistoryEntry.signature
        (blockRecords.map (fun record => record.entry) ++ (indexPart ++
          Reader.upstreamEntries history lowest (reader.highestSlot request.commitment
            request.address))) request.last).take request.limit := by
    rw [← isWanted]
    rfl
  rw [isQuery, correct, Stitches]
  obtain ⟨isBlock, isIndex, isRest⟩ := filter_parts isBlockEntry isIndexEntry
    fun entry member => (mem_upstreamEntries.mp member).2
  rw [isWanted, isBlock, isIndex, isRest]
  refine (or_iff_right ?_).symm
  rintro ⟨entry, member, isBefore, low⟩
  exact absurd (stored entry member isBefore) (by omega)

/-- Nothing is left to skip in the index when the block in process has the entry to start after. -/
theorem process_iff_of_inProcess (reachable : reader.Reachable)
    (timely : ∀ stage, expired stage = false)
    (stores : reader.Stores db keys request.commitment request.address history lowest)
    (enabled : request.upstreamDisabled = false) (positive : 1 ≤ request.limit)
    (answers : upstream.AnswersOver history)
    (inBlock : ∀ signature, request.before = some signature → ∃ record ∈
      reader.inProcessRecords request.commitment request.address, record.signature = signature) :
    ∃ list, request.process reader db keys expired (some upstream) = .success list ∧
      (list.map (fun record => record.entry) =
          (history.upToSlot (reader.tip request.commitment)).query request.before request.last
            request.limit ↔ request.Stitches reader history lowest) := by
  have split := stores.split reachable
  refine process_iff_of_parts reachable stores enabled positive answers
    (Reader.processSignaturesForAddress_known timely inBlock)
    (fun record member => (Pages.after_suffix _ _ _).subset member) (Nat.le_refl _)
    (fun _ member => member) (stores.indexRecords (Nat.le_refl _)) ?_ ?_
  · rw [wanted, split]
    cases isBefore : request.before with
    | none => rfl
    | some signature =>
        obtain ⟨record, isRecord, same⟩ := inBlock signature isBefore
        have known : ∃ entry ∈ reader.inProcessEntries request.commitment request.address,
            entry.signature = signature := ⟨record.entry, List.mem_map_of_mem isRecord, same⟩
        rw [Pages.after_append_of_mem known, Reader.inProcessEntries, Pages.after_map]
        rfl
  · intro entry member isBefore
    obtain ⟨record, isRecord, same⟩ := inBlock entry.signature isBefore
    obtain ⟨time, inProcess⟩ := inProcessRecords_spec reachable stores
    have listed : record.entry ∈ (history.upToSlot (reader.tip request.commitment)).entries := by
      rw [split]
      exact List.mem_append_left _ (List.mem_map_of_mem isRecord)
    rw [← entry_unique (List.mem_of_mem_filter listed) member same]
    exact (inProcess record isRecord).2.1

/-- The entries of the index after an entry are found from its own slot on. -/
theorem after_indexEntries {entry : HistoryEntry} {highest : Nat}
    (member : entry ∈ history.entries) (inside : entry.slot ≤ highest) :
    Pages.after HistoryEntry.signature (Reader.indexEntries history lowest highest)
        (some entry.signature) =
      Pages.after HistoryEntry.signature (Reader.indexEntries history lowest entry.slot)
        (some entry.signature) := by
  have split : Reader.indexEntries history lowest highest =
      ((history.entries.filter fun other => lowest ≤ other.slot).filter fun other =>
        decide (other.slot ≤ highest) && decide (entry.slot + 1 ≤ other.slot)) ++
        Reader.indexEntries history lowest entry.slot := by
    rw [Reader.indexEntries, Reader.indexEntries, ← Pages.filter_append_filter
      (history.newestFirst.filter _) (fun other => decide (other.slot ≤ highest)) (entry.slot + 1)]
    congr 1
    apply List.filter_congr
    intro other _
    rw [← Bool.decide_and, decide_eq_decide]
    omega
  rw [split, Pages.after_append]
  intro other isOther same
  rw [List.mem_filter] at isOther
  have equal := entry_unique (List.mem_of_mem_filter isOther.1) member same
  rw [equal, Bool.and_eq_true, decide_eq_true_eq, decide_eq_true_eq] at isOther
  omega

/-- The index is read from the slot of the entry to start after. -/
theorem process_iff_of_indexed (reachable : reader.Reachable)
    (timely : ∀ stage, expired stage = false)
    (stores : reader.Stores db keys request.commitment request.address history lowest)
    (enabled : request.upstreamDisabled = false) (positive : 1 ≤ request.limit)
    (answers : upstream.AnswersOver history) {entry : HistoryEntry}
    (isBefore : request.before = some entry.signature) (member : entry ∈ history.entries)
    (stored : lowest ≤ entry.slot)
    (inside : entry.slot ≤ reader.highestSlot request.commitment request.address)
    (other : ∀ record ∈ reader.inProcessRecords request.commitment request.address,
      record.signature ≠ entry.signature) :
    ∃ list, request.process reader db keys expired (some upstream) = .success list ∧
      (list.map (fun record => record.entry) =
          (history.upToSlot (reader.tip request.commitment)).query request.before request.last
            request.limit ↔ request.Stitches reader history lowest) := by
  have isIndexed := stores.signatures entry member inside
  rw [if_pos stored, Option.map_eq_some_iff] at isIndexed
  obtain ⟨index, found, sameSlot⟩ := isIndexed
  have listed : entry ∈ Reader.indexEntries history lowest index.slot :=
    mem_indexEntries.mpr ⟨member, stored, sameSlot.ge⟩
  rw [← sameSlot] at inside
  have known : ∃ record ∈ db.indexRecords (keys.addressHash request.address) index.slot,
      record.signature = entry.signature := by
    rw [← stores.indexRecords inside] at listed
    obtain ⟨record, isRecord, same⟩ := List.mem_map.mp listed
    refine ⟨record, isRecord, ?_⟩
    rw [← same, Reader.timed_entry_signature]
  have scanned : reader.processSignaturesForAddress db keys expired request.commitment
      request.address request.before request.last request.limit =
        reader.scanRecords request.stop request.limit []
          (Pages.after (fun record => record.signature) (db.indexRecords
            (keys.addressHash request.address) index.slot) (some entry.signature)) := by
    rw [isBefore]
    exact Reader.processSignaturesForAddress_indexed timely other found inside known
  refine process_iff_of_parts reachable stores enabled positive answers scanned
    (fun record member => by cases member) inside
    (fun record member => (Pages.after_suffix _ _ _).subset member) rfl ?_ ?_
  · have foreign : ∀ shown ∈ reader.inProcessEntries request.commitment request.address,
        shown.signature ≠ entry.signature := by
      intro shown isShown
      obtain ⟨record, isRecord, rfl⟩ := List.mem_map.mp isShown
      exact other record isRecord
    have inIndex : ∃ other ∈ Reader.indexEntries history lowest
        (reader.highestSlot request.commitment request.address),
          other.signature = entry.signature :=
      ⟨entry, mem_indexEntries.mpr ⟨member, stored, by omega⟩, rfl⟩
    rw [wanted, stores.split reachable, isBefore, Pages.after_append foreign,
      Pages.after_append_of_mem inIndex, after_indexEntries member (by omega), ← sameSlot,
      ← stores.indexRecords inside, Pages.after_map]
    simp only [Reader.timed_entry_signature, List.map_nil, List.nil_append]
  · intro first isFirst same
    rw [isBefore, Option.some_inj] at same
    rw [← entry_unique member isFirst same]
    exact stored

/-- An entry below the storage leaves the whole answer to the upstream. -/
theorem process_of_below (timely : ∀ stage, expired stage = false)
    (stores : reader.Stores db keys request.commitment request.address history lowest)
    (enabled : request.upstreamDisabled = false) (positive : 1 ≤ request.limit)
    (answers : upstream.AnswersOver history) {entry : HistoryEntry}
    (isBefore : request.before = some entry.signature) (member : entry ∈ history.entries)
    (low : entry.slot < lowest)
    (inside : entry.slot ≤ reader.highestSlot request.commitment request.address)
    (belowTip : entry.slot ≤ reader.tip request.commitment)
    (other : ∀ record ∈ reader.inProcessRecords request.commitment request.address,
      record.signature ≠ entry.signature) :
    ∃ list, request.process reader db keys expired (some upstream) = .success list ∧
      list.map (fun record => record.entry) =
        (history.upToSlot (reader.tip request.commitment)).query request.before request.last
          request.limit := by
  have isMissing := stores.signatures entry member inside
  rw [if_neg (by omega), Option.map_eq_none_iff] at isMissing
  obtain ⟨list, continued, isList⟩ := continueUpstream_open [] (some entry.signature)
    enabled positive answers
  refine ⟨list, ?_, ?_⟩
  · rw [process, isBefore, Reader.processSignaturesForAddress_unknown timely other isMissing]
    exact continued
  · rw [isList, isBefore]
    show history.query (some entry.signature) request.last (request.limit - 0) = _
    rw [Nat.sub_zero, History.query, History.query, Pages.page, Pages.page]
    congr 2
    conv_lhs => rw [Reader.tip_split history (reader.tip request.commitment)]
    rw [Pages.after_append]
    intro above isAbove same
    have equal := entry_unique (List.mem_of_mem_filter isAbove) member same
    rw [List.mem_filter, equal, decide_eq_true_eq] at isAbove
    omega

/-- The answer over the local storage and the upstream is one query over the history up to the tip
exactly under the condition. -/
theorem process_query_iff (request : RpcRequestSignaturesForAddress) (reader : Reader) (db : Rocksdb)
    (keys : HashedKeys) (expired : Nat → Bool) (upstream : UpstreamSignatures) (history : History)
    (lowest : Nat) (asked : Option Nat) (maximum : Nat)
    (reachable : reader.Reachable) (timely : ∀ stage, expired stage = false)
    (stores : reader.Stores db keys request.commitment request.address history lowest)
    (enabled : request.upstreamDisabled = false) (answers : upstream.AnswersOver history)
    (accepted : verifyLimit asked maximum = .ok request.limit)
    (occurs : ∀ signature, request.before = some signature → ∃ entry ∈ history.entries,
      entry.signature = signature ∧ entry.slot ≤ reader.tip request.commitment) :
    ∃ list, request.process reader db keys expired (some upstream) = .success list ∧
      (list.map (fun record => record.entry) =
          (history.upToSlot (reader.tip request.commitment)).query request.before request.last
            request.limit ↔ request.Stitches reader history lowest) := by
  have positive := verifyLimit_pos accepted
  by_cases inBlock : ∀ signature, request.before = some signature → ∃ record ∈
      reader.inProcessRecords request.commitment request.address, record.signature = signature
  · exact process_iff_of_inProcess reachable timely stores enabled positive answers inBlock
  · simp only [not_forall, not_exists, not_and] at inBlock
    obtain ⟨signature, isBefore, other⟩ := inBlock
    obtain ⟨entry, member, rfl, belowTip⟩ := occurs signature isBefore
    have listed : entry ∈ (history.upToSlot (reader.tip request.commitment)).entries :=
      List.mem_filter.mpr ⟨member, decide_eq_true belowTip⟩
    rw [stores.split reachable, List.mem_append, List.mem_append] at listed
    rcases listed with inProcess | inIndex | under
    · obtain ⟨record, isRecord, same⟩ := List.mem_map.mp inProcess
      exact absurd (congrArg HistoryEntry.signature same) (other record isRecord)
    · obtain ⟨-, stored, inside⟩ := mem_indexEntries.mp inIndex
      exact process_iff_of_indexed reachable timely stores enabled positive answers isBefore member
        stored inside other
    · obtain ⟨-, inside, low⟩ := mem_upstreamEntries.mp under
      obtain ⟨list, processed, isQuery⟩ := process_of_below timely stores enabled positive answers
        isBefore member low inside belowTip other
      exact ⟨list, processed, iff_of_true isQuery (Or.inl ⟨entry, member, isBefore, low⟩)⟩

end exactness

/-- The record that an upstream shows for an entry. -/
def upstreamRecord (entry : HistoryEntry) : RpcConfirmedTransactionStatusWithSignature where
  signature := entry.signature
  slot := entry.slot
  err := entry.err
  memo := entry.memo
  blockTime := entry.blockTime
  confirmationStatus := some .finalized
  transactionIndex := entry.transactionIndex

/-- An address with one stored entry and one older entry. -/
def shortHistory : History where
  entries := [⟨⟨1⟩, 10, none, none, none, some 0⟩, ⟨⟨2⟩, 5, none, none, none, some 0⟩]
  newestFirst := by decide
  distinct := by decide

def historyUpstream : UpstreamSignatures := fun before last limit =>
  .ok ((shortHistory.query before last limit).map upstreamRecord)

/-- The hash takes the low bytes. -/
def lowKeys : HashedKeys := ⟨fun signature => signature.value, fun address => address.value⟩

/-- The database of four slots with the index records of the stored entry. -/
def indexedDb : Rocksdb := { Reader.fullDb with
  transactionIndex := HashMap.empty.insert (lowKeys.signatureKey ⟨1⟩) ⟨10, 0, 1, none, 0⟩
  sfaIndex := SortedMap.empty.insert (SfaKey.concat (lowKeys.addressHash ⟨7⟩) 10)
    [⟨⟨1⟩, none, none, 0, false, false⟩] }

theorem historyUpstream_answersOver : historyUpstream.AnswersOver shortHistory := by
  intro before last limit
  refine ⟨_, rfl, ?_⟩
  rw [List.map_map]
  exact List.map_id _

theorem indexedDb_stores :
    Reader.fullReader.Stores indexedDb lowKeys .confirmed ⟨7⟩ shortHistory 10 where
  rows := by decide +kernel
  located := by
    intro entry member stored _
    simp only [shortHistory, List.mem_cons, List.not_mem_nil, or_false] at member
    rcases member with rfl | rfl
    · exact ⟨_, rfl⟩
    · exact absurd stored (by decide)
  signatures := by decide +kernel
  inProcess := by
    intro slot block statuses running
    cases running

/-- The first page of the address is the one of the whole history. -/
theorem process_query_iff_first :
    ∃ list, RpcRequestSignaturesForAddress.process ⟨false, .confirmed, ⟨7⟩, none, none, 5⟩
        Reader.fullReader indexedDb lowKeys (fun _ => false) (some historyUpstream) =
          .success list ∧
      list.map (fun record => record.entry) = shortHistory.entries := by
  obtain ⟨list, processed, correct⟩ := process_query_iff ⟨false, .confirmed, ⟨7⟩, none, none, 5⟩
    Reader.fullReader indexedDb lowKeys (fun _ => false) historyUpstream shortHistory 10 (some 5) 1000
    Reader.fullReader_reachable (fun _ => rfl) indexedDb_stores rfl historyUpstream_answersOver rfl
    (fun signature given => by cases given)
  refine ⟨list, processed, (correct.mpr (Or.inr ?_)).trans (by decide +kernel)⟩
  decide +kernel

/-- The page after the last stored entry starts again with the newest one. -/
theorem process_query_false :
    Reader.fullReader.Reachable ∧
    Reader.fullReader.Stores indexedDb lowKeys .confirmed ⟨7⟩ shortHistory 10 ∧
    historyUpstream.AnswersOver shortHistory ∧
    RpcRequestSignaturesForAddress.process ⟨false, .confirmed, ⟨7⟩, some ⟨1⟩, none, 5⟩
        Reader.fullReader indexedDb lowKeys (fun _ => false) (some historyUpstream) =
          .success (shortHistory.entries.map upstreamRecord) ∧
    (shortHistory.entries.map upstreamRecord).map (fun record => record.entry) ≠
      (shortHistory.upToSlot (Reader.fullReader.tip .confirmed)).query (some ⟨1⟩) none 5 := by
  refine ⟨Reader.fullReader_reachable, indexedDb_stores, historyUpstream_answersOver, ?_, ?_⟩
  · decide +kernel
  · decide +kernel

end RpcRequestSignaturesForAddress

end Alpamayo
