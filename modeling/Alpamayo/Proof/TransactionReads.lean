import Alpamayo.Proof.CursorResume
import Alpamayo.Rpc.TransactionsForAddress

/-!
This file proves what one read of the transactions of an address returns.
-/

namespace Alpamayo

namespace Reader

variable {reader : Reader} {db : Rocksdb} {keys : HashedKeys} {expired : Nat → Bool}
  {request : ReadRequestTransactionsForAddress} {entry : TfaEntry}
  {entries before later : List TfaEntry}

/-- The block of the slot is stored and alive. -/
def Live (reader : Reader) (slot : Nat) : Prop :=
  ∃ location, reader.blocks.getBlockLocation slot = .found location

/-- The entry with the block time that the last stage adds. -/
def timedEntry (reader : Reader) (entry : TfaEntry) : TfaEntry :=
  match reader.addBlockTime entry.signature with
  | .ok (some signature) => { entry with signature }
  | _ => entry

/-- The record of the index gets the time of its block. -/
theorem addBlockTime_live (live : reader.Live entry.signature.slot) :
    reader.addBlockTime entry.signature = .ok (some (reader.timedEntry entry).signature) := by
  obtain ⟨location, found⟩ := live
  rw [timedEntry]
  cases known : entry.signature.blockTime with
  | some time => simp [addBlockTime, known]
  | none => simp [addBlockTime, known, found]

@[simp] theorem timedEntry_transactionIndex (reader : Reader) (entry : TfaEntry) :
    (reader.timedEntry entry).transactionIndex = entry.transactionIndex := by
  rw [timedEntry]
  split <;> rfl

theorem timedEntry_eq (live : reader.Live entry.signature.slot) :
    { entry with signature := (reader.timedEntry entry).signature } = reader.timedEntry entry := by
  have added := addBlockTime_live live
  conv_rhs => rw [timedEntry, added]

/-- The slot does not change. -/
@[simp] theorem timedEntry_slot (reader : Reader) (entry : TfaEntry) :
    (reader.timedEntry entry).signature.slot = entry.signature.slot := by
  rw [timedEntry]
  split
  · rename_i signature added
    unfold addBlockTime at added
    split at added
    · cases added
      rfl
    · split at added
      all_goals cases added
      rfl
  · rfl

@[simp] theorem timedEntry_position (reader : Reader) (entry : TfaEntry) :
    (reader.timedEntry entry).position = entry.position := by
  rw [TfaEntry.position, TfaEntry.position, timedEntry_slot, timedEntry_transactionIndex]

/-- Every entry of a live slot gets its time. -/
theorem addTfaBlockTimes_live (live : ∀ entry ∈ entries, reader.Live entry.signature.slot)
    (finished : Bool) :
    reader.addTfaBlockTimes entries finished = .ok (entries.map reader.timedEntry, finished) := by
  induction entries with
  | nil => rfl
  | cons entry rest ih =>
      rw [List.forall_mem_cons] at live
      rw [addTfaBlockTimes, addBlockTime_live live.1, ih live.2]
      change Except.ok _ = _
      rw [List.map_cons, timedEntry_eq live.1]

/-- The entries of the range that a request without a cursor reads. -/
def rangeEntries (reader : Reader) (db : Rocksdb) (keys : HashedKeys)
    (request : ReadRequestTransactionsForAddress) : List TfaEntry :=
  let range := reader.scanRange { request with cursor := none }
  db.scanned (keys.addressHash request.address) request.desc range.1 range.2

/-- The storage does not change, no block is in process, and every row of the address lists the
transactions of a live slot by falling indices. -/
structure Settled (reader : Reader) (db : Rocksdb) (addressHash : HashedKey) : Prop where
  idle : ∀ slot block, reader.confirmedInProcess ≠ some (slot, some block)
  falls : db.IndicesFall addressHash
  live : ∀ row ∈ db.sfaIndex.entries, (ofLex row.1).1 = addressHash.toNat →
    reader.Live (ofLex row.1).2

theorem Settled.tfaInProcess (settled : reader.Settled db (keys.addressHash request.address))
    (slot : Nat) : reader.tfaInProcess request slot = none := by
  rw [Reader.tfaInProcess]
  split
  · split
    · rename_i inProcessSlot block known
      exact absurd known (settled.idle inProcessSlot block)
    · rfl
  · rfl

theorem mem_scanOrder {addressHash : HashedKey} {desc : Bool}
    (member : entry ∈ db.scanOrder addressHash desc) :
    ∃ row ∈ db.sfaIndex.entries, (ofLex row.1).1 = addressHash.toNat ∧
      entry ∈ TfaEntry.ofRow desc row := by
  rw [Rocksdb.scanOrder_eq, List.mem_flatMap] at member
  obtain ⟨row, inside, listed⟩ := member
  cases desc with
  | true =>
      obtain ⟨stored, same⟩ := List.mem_filter.mp (List.mem_reverse.mp inside)
      exact ⟨row, stored, by simpa using same, listed⟩
  | false =>
      obtain ⟨stored, same⟩ := List.mem_filter.mp inside
      exact ⟨row, stored, by simpa using same, listed⟩

theorem Settled.liveEntry {addressHash : HashedKey} (settled : reader.Settled db addressHash)
    {desc : Bool} (member : entry ∈ db.scanOrder addressHash desc) :
    reader.Live entry.signature.slot := by
  obtain ⟨row, stored, same, listed⟩ := mem_scanOrder member
  have slot : entry.signature.slot = (ofLex row.1).2 := (Rocksdb.mem_ofRow listed).1
  rw [slot]
  exact settled.live row stored same

/-- The cursor of an entry in the range is followed by the entries behind it. -/
theorem entriesAfter_eq {addressHash : HashedKey} {desc : Bool} {start : Nat}
    {stopSlot : Option Nat} (falls : db.IndicesFall addressHash)
    (split : db.scanned addressHash desc start stopSlot = before ++ entry :: later) :
    db.entriesAfter addressHash desc stopSlot entry.position = later := by
  have ordered : (before ++ entry :: later).Pairwise
      fun first second => follows desc second.position first.position = true := by
    rw [← split]
    exact Rocksdb.scanned_ordered falls
  have inside : entry ∈ db.scanned addressHash desc start stopSlot := by
    rw [split]
    simp
  have reached := Rocksdb.scanned_reaches db addressHash desc start stopSlot entry inside
  have restricted : db.entriesAfter addressHash desc stopSlot entry.position =
      following desc entry.position (db.scanned addressHash desc start stopSlot) := by
    rw [following, Rocksdb.scanned, Rocksdb.entriesAfter, List.filter_filter]
    apply List.filter_congr
    intro other _
    cases after : follows desc other.position entry.position with
    | false => rfl
    | true =>
        have further : reaches desc start other.position.1 = true :=
          reaches_trans (reaches_of_follows after) reached
        simp [further]
  rw [restricted, split, following_append ordered]

/-- The second stage returns the entries that the scan does not hide. -/
theorem transactionsForAddress2_eq
    (settled : reader.Settled db (keys.addressHash request.address))
    (onTime : ∀ stage, expired stage = false) (positive : 0 < request.limit) {slot : Nat}
    {stopSlot : Option Nat} (visible : TfaScan.visible request.desc (request.cursor.map Prod.snd)
      (db.scanned (keys.addressHash request.address) request.desc slot stopSlot) = later) :
    reader.transactionsForAddress2 db keys expired request slot stopSlot [] =
      .transactions ((later.take request.limit).map reader.timedEntry)
        (decide (later.length < request.limit)) := by
  have live : ∀ entry ∈ later.take request.limit, reader.Live entry.signature.slot := by
    intro entry member
    have seen := List.mem_of_mem_take member
    rw [← visible] at seen
    exact settled.liveEntry (List.mem_filter.mp ((TfaScan.visible_sublist _ _).subset seen)).1
  rw [transactionsForAddress2, onTime 2, if_neg (by decide),
    Rocksdb.spawnTransactionsForAddress_eq _ _ _ _ _ _ _ positive, visible]
  simp only [List.nil_append, List.length_nil, Nat.sub_zero, onTime 3, Bool.false_eq_true,
    ↓reduceIte, addTfaBlockTimes_live live]

/-- A cursor only replaces the slot at which the scan starts. -/
theorem scanRange_cursor (reader : Reader) {cursor : Nat × Nat}
    (known : request.cursor = some cursor) :
    reader.scanRange request = (cursor.1, (reader.scanRange { request with cursor := none }).2) := by
  rw [scanRange, scanRange, known]
  cases request.desc <;> rfl

/-- A read returns the next entries of the range, and it is finished when they do not fill the
page. -/
theorem processTransactionsForAddress_eq
    (settled : reader.Settled db (keys.addressHash request.address))
    (onTime : ∀ stage, expired stage = false) (positive : 0 < request.limit)
    (split : reader.rangeEntries db keys request = before ++ later)
    (cursor : request.cursor = before.getLast?.map TfaEntry.position) :
    reader.processTransactionsForAddress db keys expired request =
      .transactions ((later.take request.limit).map reader.timedEntry)
        (decide (later.length < request.limit)) := by
  rw [processTransactionsForAddress, onTime 1, if_neg (by decide)]
  simp only [settled.tfaInProcess]
  apply transactionsForAddress2_eq settled onTime positive
  obtain rfl | ⟨init, entry, rfl⟩ := List.eq_nil_or_concat' before
  · have same : { request with cursor := none } = request := by
      rw [List.getLast?_nil, Option.map_none] at cursor
      rw [← cursor]
    rw [rangeEntries, same, List.nil_append] at split
    rw [cursor, List.getLast?_nil, Option.map_none, Option.map_none, TfaScan.visible_none, split]
  · rw [List.getLast?_concat, Option.map_some] at cursor
    rw [rangeEntries, List.append_assoc, List.singleton_append] at split
    have inside : entry ∈ db.scanOrder (keys.addressHash request.address) request.desc := by
      have listed : entry ∈ init ++ entry :: later := by simp
      rw [← split] at listed
      exact (List.mem_filter.mp listed).1
    rw [scanRange_cursor reader cursor, cursor, Option.map_some]
    have present : ∃ other ∈ db.scanOrder (keys.addressHash request.address) request.desc,
        other.position = (entry.position.1, entry.position.2) := ⟨entry, inside, rfl⟩
    simp only
    rw [Rocksdb.visible_scanned settled.falls present]
    exact (Rocksdb.following_scanned _ _ _ _ entry.position).trans
      (entriesAfter_eq settled.falls split)

end Reader

end Alpamayo
