import Alpamayo.General.Pages
import Alpamayo.Storage.ReadTransactionsForAddress

/-!
This file proves what a scan over the transactions of an address collects.
-/

namespace Alpamayo

namespace TfaEntry

/-- The slot comes before the index in the slot. -/
def position (entry : TfaEntry) : Nat × Nat := (entry.signature.slot, entry.transactionIndex)

/-- The entries of one row in the order of the scan. -/
def ofRow (desc : Bool) (row : SfaKey × List SignatureStatus) : List TfaEntry :=
  (if desc then row.2 else row.2.reverse).map (TfaEntry.new (indexRecord (ofLex row.1).2))

end TfaEntry

/-- The first position comes strictly after the second one in the order of the scan. -/
def follows (desc : Bool) (position cursor : Nat × Nat) : Bool :=
  if desc then position.1 < cursor.1 || (position.1 = cursor.1 && position.2 < cursor.2)
  else cursor.1 < position.1 || (position.1 = cursor.1 && cursor.2 < position.2)

/-- The slot is not before the first one of the scan. -/
def reaches (desc : Bool) (start slot : Nat) : Bool := if desc then slot ≤ start else start ≤ slot

namespace TfaScan

variable {desc : Bool} {capacity : Nat} {self : TfaScan} {first second entries collected : List TfaEntry}

/-- The scan of entries that are already made. -/
def takeAll (desc : Bool) (capacity : Nat) : List TfaEntry → TfaScan → TfaScan
  | [], self => self
  | entry :: rest, self =>
      if self.skips desc entry.transactionIndex then
        takeAll desc capacity rest (self.skip entry.transactionIndex)
      else
        let self := self.push capacity entry
        if self.finished then takeAll desc capacity rest self else self

/-- The scan of a row is the scan of its entries. -/
theorem takeRow_eq (record : SignatureStatus → RpcConfirmedTransactionStatusWithSignature)
    (items : List SignatureStatus) : takeRow desc capacity record items self =
      takeAll desc capacity (items.map (TfaEntry.new record)) self := by
  induction items generalizing self with
  | nil => rfl
  | cons item items ih =>
      rw [List.map_cons, takeRow, takeAll]
      simp only [ih]
      rfl

theorem skip_finished (index : Nat) : (self.skip index).finished = self.finished := by
  rw [skip]
  split <;> rfl

/-- A scan of two parts stops in the first one or goes on with the second one. -/
theorem takeAll_append (running : self.finished = true) :
    takeAll desc capacity (first ++ second) self =
      if (takeAll desc capacity first self).finished then
        takeAll desc capacity second (takeAll desc capacity first self)
      else takeAll desc capacity first self := by
  induction first generalizing self with
  | nil => simp [takeAll, running]
  | cons entry first ih =>
      rw [List.cons_append, takeAll, takeAll]
      split
      · exact ih (by rw [skip_finished, running])
      · simp only
        cases more : (self.push capacity entry).finished with
        | true =>
            simp only [↓reduceIte]
            exact ih more
        | false => simp [more]

/-- The entries that a scan does not skip. -/
def visible (desc : Bool) : Option Nat → List TfaEntry → List TfaEntry
  | _, [] => []
  | cursor, entry :: rest =>
      if cursor.any fun index => skipsIndex desc index entry.transactionIndex then
        visible desc (if cursor = some entry.transactionIndex then none else cursor) rest
      else entry :: visible desc cursor rest

@[simp] theorem visible_none (entries : List TfaEntry) : visible desc none entries = entries := by
  induction entries with
  | nil => rfl
  | cons entry rest ih => rw [visible, Option.any_none, if_neg (by decide), ih]

theorem visible_sublist (cursor : Option Nat) (entries : List TfaEntry) :
    (visible desc cursor entries).Sublist entries := by
  induction entries generalizing cursor with
  | nil => exact List.Sublist.refl []
  | cons entry rest ih =>
      rw [visible]
      split
      · exact (ih _).cons entry
      · exact (ih _).cons_cons entry

/-- An entry that is not skipped fills the page or leaves room for the rest. -/
theorem takeAll_push {cursor : Option Nat} {entry : TfaEntry} {rest : List TfaEntry}
    (taken : (cursor.any fun index => skipsIndex desc index entry.transactionIndex) = false) :
    takeAll desc capacity (entry :: rest) ⟨cursor, collected, true⟩ =
      if collected.length + 1 = capacity then ⟨cursor, collected ++ [entry], false⟩
      else takeAll desc capacity rest ⟨cursor, collected ++ [entry], true⟩ := by
  have notSkipped : (⟨cursor, collected, true⟩ : TfaScan).skips desc entry.transactionIndex = false :=
    taken
  rw [takeAll, notSkipped]
  by_cases full : collected.length + 1 = capacity
  · simp [push, full]
  · simp [push, full]

/-- The scan collects the entries that it does not skip as long as there is room, and it is finished
when they do not fill the page. -/
theorem takeAll_eq {cursor : Option Nat} (room : collected.length < capacity) :
    (takeAll desc capacity entries ⟨cursor, collected, true⟩).entries =
        collected ++ (visible desc cursor entries).take (capacity - collected.length) ∧
      (takeAll desc capacity entries ⟨cursor, collected, true⟩).finished =
        decide ((visible desc cursor entries).length < capacity - collected.length) := by
  induction entries generalizing cursor collected with
  | nil =>
      have unfilled : 0 < capacity - collected.length := by omega
      simp [takeAll, visible, unfilled]
  | cons entry rest ih =>
      cases skipped : cursor.any fun index => skipsIndex desc index entry.transactionIndex with
      | true =>
          have isSkipped : (⟨cursor, collected, true⟩ : TfaScan).skips desc
              entry.transactionIndex = true := skipped
          have next : (⟨cursor, collected, true⟩ : TfaScan).skip entry.transactionIndex =
              ⟨if cursor = some entry.transactionIndex then none else cursor, collected, true⟩ := by
            rw [skip]
            split <;> rfl
          rw [takeAll, if_pos isSkipped, next, visible, if_pos skipped]
          exact ih room
      | false =>
          rw [takeAll_push skipped, visible, skipped]
          by_cases full : collected.length + 1 = capacity
          · have one : capacity - collected.length = 1 := by omega
            simp [full, one]
          · have less : capacity - collected.length =
                capacity - (collected ++ [entry]).length + 1 := by
              rw [List.length_append, List.length_singleton]
              omega
            have more : (collected ++ [entry]).length < capacity := by
              rw [List.length_append, List.length_singleton]
              omega
            rw [if_neg full, (ih more).1, (ih more).2, less]
            simp

end TfaScan

namespace Rocksdb

variable {db : Rocksdb} {addressHash : HashedKey} {desc : Bool} {stopSlot : Option Nat} {slot : Nat}

/-- The entries of the rows that the loop reads. -/
def loopEntries (addressHash : HashedKey) (desc : Bool) (stopSlot : Option Nat)
    (rows : List (SfaKey × List SignatureStatus)) : List TfaEntry :=
  (rows.takeWhile fun row => (ofLex row.1).1 = addressHash.toNat &&
    !outOfRange desc stopSlot (ofLex row.1).2).flatMap (TfaEntry.ofRow desc)

/-- The loop is the scan of these entries. -/
theorem transactionsLoop_eq {capacity : Nat} (rows : List (SfaKey × List SignatureStatus))
    {scan : TfaScan} (running : scan.finished = true) :
    transactionsLoop addressHash desc stopSlot capacity rows scan =
      scan.takeAll desc capacity (loopEntries addressHash desc stopSlot rows) := by
  induction rows generalizing scan with
  | nil => rfl
  | cons row rows ih =>
      obtain ⟨key, value⟩ := row
      rw [transactionsLoop, loopEntries]
      split
      · rename_i other
        rw [List.takeWhile_cons_of_neg (by simpa using fun same => absurd same other)]
        rfl
      · split
        · rename_i outside
          rw [List.takeWhile_cons_of_neg (by simp [outside])]
          rfl
        · rename_i same inside
          rw [List.takeWhile_cons_of_pos (by simpa [inside] using same), List.flatMap_cons,
            TfaScan.takeAll_append running, TfaScan.takeRow_eq]
          change (if (scan.takeAll desc capacity (TfaEntry.ofRow desc (key, value))).finished then _
            else _) = _
          cases more : (scan.takeAll desc capacity (TfaEntry.ofRow desc (key, value))).finished with
          | true => exact ih more
          | false => rfl

/-- The entries of an address, the newest one first. -/
def newestFirst (self : Rocksdb) (addressHash : HashedKey) : List TfaEntry :=
  (self.sfaIndex.entries.filter fun row => (ofLex row.1).1 = addressHash.toNat).reverse.flatMap
    (TfaEntry.ofRow true)

/-- The entries of an address in the order of the scan. -/
def scanOrder (self : Rocksdb) (addressHash : HashedKey) (desc : Bool) : List TfaEntry :=
  if desc then self.newestFirst addressHash else (self.newestFirst addressHash).reverse

/-- The rows of an address in the order of the scan. -/
def scanRows (self : Rocksdb) (addressHash : HashedKey) (desc : Bool) :
    List (SfaKey × List SignatureStatus) :=
  let rows := self.sfaIndex.entries.filter fun row => (ofLex row.1).1 = addressHash.toNat
  if desc then rows.reverse else rows

theorem scanOrder_eq (db : Rocksdb) (addressHash : HashedKey) (desc : Bool) :
    db.scanOrder addressHash desc = (db.scanRows addressHash desc).flatMap (TfaEntry.ofRow desc) := by
  cases desc with
  | true => rfl
  | false =>
      rw [scanOrder, if_neg (by decide), newestFirst, List.reverse_flatMap, List.reverse_reverse]
      apply List.flatMap_congr
      intro row member
      simp [TfaEntry.ofRow]

theorem mem_ofRow {row : SfaKey × List SignatureStatus} {entry : TfaEntry}
    (member : entry ∈ TfaEntry.ofRow desc row) : entry.position.1 = (ofLex row.1).2 ∧
      ∃ item ∈ row.2, entry = TfaEntry.new (indexRecord (ofLex row.1).2) item := by
  obtain ⟨item, inside, rfl⟩ := List.mem_map.mp member
  refine ⟨rfl, item, ?_, rfl⟩
  cases desc with
  | true => exact inside
  | false => exact List.mem_reverse.mp inside

/-- A test of the slots can be made on the rows or on their entries. -/
theorem flatMap_filter_slot (rows : List (SfaKey × List SignatureStatus)) (test : Nat → Bool) :
    (rows.filter fun row => test (ofLex row.1).2).flatMap (TfaEntry.ofRow desc) =
      (rows.flatMap (TfaEntry.ofRow desc)).filter fun entry => test entry.position.1 := by
  induction rows with
  | nil => rfl
  | cons row rows ih =>
      rw [List.flatMap_cons, List.filter_append, ← ih]
      cases kept : test (ofLex row.1).2 with
      | true =>
          have all : (TfaEntry.ofRow desc row).filter (fun entry => test entry.position.1) =
              TfaEntry.ofRow desc row := by
            rw [List.filter_eq_self]
            intro entry member
            rw [(mem_ofRow member).1, kept]
          rw [List.filter_cons_of_pos (by simpa using kept), List.flatMap_cons, all]
      | false =>
          have none : (TfaEntry.ofRow desc row).filter (fun entry => test entry.position.1) = [] := by
            rw [List.filter_eq_nil_iff]
            intro entry member
            rw [(mem_ofRow member).1, kept]
            decide
          rw [List.filter_cons_of_neg (by simp [kept]), none, List.nil_append]

/-- The rows of the iterator come in the order of the scan. -/
theorem rowsFrom_ordered (db : Rocksdb) (addressHash : HashedKey) (slot : Nat) (desc : Bool) :
    (db.rowsFrom addressHash slot desc).Pairwise fun first second =>
      if desc then second.1 < first.1 else first.1 < second.1 := by
  cases desc with
  | true =>
      rw [rowsFrom, if_pos rfl, List.pairwise_reverse]
      exact db.sfaIndex.sorted.filter _
  | false => exact db.sfaIndex.sorted.filter _

/-- A row of the iterator is an entry of the index on the side of the first one. -/
theorem mem_rowsFrom {row : SfaKey × List SignatureStatus} :
    row ∈ db.rowsFrom addressHash slot desc ↔ row ∈ db.sfaIndex.entries ∧
      if desc then row.1 ≤ SfaKey.concat addressHash slot
      else SfaKey.concat addressHash slot ≤ row.1 := by
  cases desc <;> simp [rowsFrom]

/-- The loop stops at the first row that it does not want, and there are no wanted ones after it. -/
theorem takeWhile_rowsFrom (db : Rocksdb) (addressHash : HashedKey) (slot : Nat) (desc : Bool)
    (stopSlot : Option Nat) :
    (db.rowsFrom addressHash slot desc).takeWhile (fun row =>
      (ofLex row.1).1 = addressHash.toNat && !outOfRange desc stopSlot (ofLex row.1).2) =
    (db.rowsFrom addressHash slot desc).filter fun row =>
      (ofLex row.1).1 = addressHash.toNat && !outOfRange desc stopSlot (ofLex row.1).2 := by
  apply Pages.takeWhile_eq_filter
  refine (rowsFrom_ordered db addressHash slot desc).imp_of_mem ?_
  intro first second firstMember _ less wanted
  have side := (mem_rowsFrom.mp firstMember).2
  simp only [Bool.and_eq_true, decide_eq_true_eq, Bool.not_eq_true'] at wanted ⊢
  cases desc with
  | true =>
      have lower := Prod.Lex.lt_iff.mp less
      have upper := Prod.Lex.le_iff.mp side
      simp only [SfaKey.concat, ofLex_toLex] at upper
      have same : (ofLex first.1).1 = addressHash.toNat := by omega
      refine ⟨same, ?_⟩
      cases stopSlot with
      | none => rfl
      | some stop =>
          simp only [outOfRange, Option.any_some, ↓reduceIte, decide_eq_false_iff_not] at wanted ⊢
          omega
  | false =>
      have upper := Prod.Lex.lt_iff.mp less
      have lower := Prod.Lex.le_iff.mp side
      simp only [SfaKey.concat, ofLex_toLex] at lower
      have same : (ofLex first.1).1 = addressHash.toNat := by omega
      refine ⟨same, ?_⟩
      cases stopSlot with
      | none => rfl
      | some stop =>
          simp only [outOfRange, Option.any_some, Bool.false_eq_true, ↓reduceIte,
            decide_eq_false_iff_not] at wanted ⊢
          omega

/-- The keys of one address are ordered by their slots. -/
theorem le_concat_iff {key : SfaKey} (same : (ofLex key).1 = addressHash.toNat) :
    key ≤ SfaKey.concat addressHash slot ↔ (ofLex key).2 ≤ slot := by
  rw [Prod.Lex.le_iff, SfaKey.concat, ofLex_toLex, same]
  simp

theorem concat_le_iff {key : SfaKey} (same : (ofLex key).1 = addressHash.toNat) :
    SfaKey.concat addressHash slot ≤ key ↔ slot ≤ (ofLex key).2 := by
  rw [Prod.Lex.le_iff, SfaKey.concat, ofLex_toLex, same]
  simp

/-- The loop reads the entries of the address on the side of the first slot and up to the last one. -/
theorem loopEntries_eq (db : Rocksdb) (addressHash : HashedKey) (slot : Nat) (desc : Bool)
    (stopSlot : Option Nat) :
    loopEntries addressHash desc stopSlot (db.rowsFrom addressHash slot desc) =
      (db.scanOrder addressHash desc).filter fun entry =>
        reaches desc slot entry.position.1 && !outOfRange desc stopSlot entry.position.1 := by
  rw [loopEntries, takeWhile_rowsFrom, scanOrder_eq,
    ← flatMap_filter_slot _ fun other => reaches desc slot other && !outOfRange desc stopSlot other]
  congr 1
  cases desc with
  | true =>
      simp only [rowsFrom, scanRows, ↓reduceIte, List.filter_reverse, List.filter_filter]
      congr 1
      apply List.filter_congr
      intro row _
      by_cases same : (ofLex row.1).1 = addressHash.toNat
      · simp [same, reaches, le_concat_iff same, Bool.and_comm]
      · simp [same]
  | false =>
      simp only [rowsFrom, scanRows, Bool.false_eq_true, ↓reduceIte, List.filter_filter]
      apply List.filter_congr
      intro row _
      by_cases same : (ofLex row.1).1 = addressHash.toNat
      · simp [same, reaches, concat_le_iff same, Bool.and_comm]
      · simp [same]

/-- The entries that a scan from the slot meets up to its last slot. -/
def scanned (self : Rocksdb) (addressHash : HashedKey) (desc : Bool) (slot : Nat)
    (stopSlot : Option Nat) : List TfaEntry :=
  (self.scanOrder addressHash desc).filter fun entry =>
    reaches desc slot entry.position.1 && !outOfRange desc stopSlot entry.position.1

/-- The scan of the index collects what it does not skip as long as there is room. -/
theorem spawnTransactionsForAddress_eq (db : Rocksdb) (keys : HashedKeys) (address : Pubkey)
    (slot : Nat) (desc : Bool) (cursor stopSlot : Option Nat) {capacity : Nat}
    {collected : List TfaEntry} (room : collected.length < capacity) :
    db.spawnTransactionsForAddress keys address slot desc cursor stopSlot capacity collected =
      (collected ++ (TfaScan.visible desc cursor
          (db.scanned (keys.addressHash address) desc slot stopSlot)).take
            (capacity - collected.length),
        decide ((TfaScan.visible desc cursor
          (db.scanned (keys.addressHash address) desc slot stopSlot)).length <
            capacity - collected.length)) := by
  have scan : transactionsLoop (keys.addressHash address) desc stopSlot capacity
      (db.rowsFrom (keys.addressHash address) slot desc) ⟨cursor, collected, true⟩ =
        TfaScan.takeAll desc capacity (db.scanned (keys.addressHash address) desc slot stopSlot)
          ⟨cursor, collected, true⟩ := by
    rw [transactionsLoop_eq _ rfl, loopEntries_eq, scanned]
  rw [spawnTransactionsForAddress, scan, (TfaScan.takeAll_eq room).1, (TfaScan.takeAll_eq room).2]

/-- Every row of the address lists the newest transaction first. -/
def IndicesFall (self : Rocksdb) (addressHash : HashedKey) : Prop :=
  ∀ row ∈ self.sfaIndex.entries, (ofLex row.1).1 = addressHash.toNat →
    row.2.Pairwise fun first second => second.transactionIndex < first.transactionIndex

theorem newestFirst_ordered (falls : db.IndicesFall addressHash) :
    (db.newestFirst addressHash).Pairwise fun first second =>
      follows true second.position first.position := by
  rw [newestFirst, List.pairwise_flatMap]
  constructor
  · intro row member
    have inside := List.mem_filter.mp (List.mem_reverse.mp member)
    rw [TfaEntry.ofRow, if_pos rfl, List.pairwise_map]
    refine (falls row inside.1 (by simpa using inside.2)).imp ?_
    intro first second less
    simp [follows, TfaEntry.position, TfaEntry.new, indexRecord, less]
  · rw [List.pairwise_reverse]
    refine (db.sfaIndex.sorted.filter _).imp_of_mem ?_
    intro first second firstMember secondMember less entry member other otherMember
    have firstHash := (List.mem_filter.mp firstMember).2
    have secondHash := (List.mem_filter.mp secondMember).2
    simp only [decide_eq_true_eq] at firstHash secondHash
    have order := Prod.Lex.lt_iff.mp less
    rw [follows, if_pos rfl, (mem_ofRow member).1, (mem_ofRow otherMember).1]
    simp only [Bool.or_eq_true, decide_eq_true_eq]
    omega

theorem follows_false (position cursor : Nat × Nat) :
    follows false position cursor = follows true cursor position := by
  simp [follows, eq_comm]

/-- The entries of the scan come strictly one after another. -/
theorem scanOrder_ordered (falls : db.IndicesFall addressHash) (desc : Bool) :
    (db.scanOrder addressHash desc).Pairwise fun first second =>
      follows desc second.position first.position := by
  cases desc with
  | true => exact newestFirst_ordered falls
  | false =>
      rw [scanOrder, if_neg (by decide), List.pairwise_reverse]
      refine (newestFirst_ordered falls).imp ?_
      intro first second less
      rw [follows_false, less]

theorem scanned_ordered (falls : db.IndicesFall addressHash) :
    (db.scanned addressHash desc slot stopSlot).Pairwise fun first second =>
      follows desc second.position first.position :=
  (scanOrder_ordered falls desc).filter _

end Rocksdb

/-- Only a first descending read of the confirmed commitment sees the block in process, from its own
slot on. -/
theorem Reader.tfaInProcess_eq_some {reader : Reader} {read : ReadRequestTransactionsForAddress}
    {start slot : Nat} {block : BlockWithBinary} {statuses : List SignatureStatus} :
    reader.tfaInProcess read start = some (slot, block, statuses) ↔
      (read.desc = true ∧ read.cursor = none ∧ read.commitment = .confirmed) ∧
      reader.confirmedInProcess = some (slot, some block) ∧ slot ≤ start ∧
      ∃ sfa, block.getSfa read.address = some sfa ∧ sfa.signatures = statuses := by
  rw [tfaInProcess]
  constructor
  · intro seen
    split at seen
    · rename_i first
      simp only [Bool.and_eq_true, Option.isNone_iff_eq_none, decide_eq_true_eq] at first
      split at seen
      · rename_i inProcess
        split at seen
        · rename_i below
          obtain ⟨sfa, known, same⟩ := Option.map_eq_some_iff.mp seen
          cases same
          exact ⟨⟨first.1.1, first.1.2, first.2⟩, inProcess, below, sfa, known, rfl⟩
        · cases seen
      · cases seen
    · cases seen
  · rintro ⟨⟨desc, first, confirmed⟩, inProcess, below, sfa, known, rfl⟩
    rw [if_pos (by simp [desc, first, confirmed]), inProcess]
    simp only
    rw [if_pos below, known, Option.map_some]

end Alpamayo
