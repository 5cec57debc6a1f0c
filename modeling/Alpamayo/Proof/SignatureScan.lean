import Alpamayo.General.Pages
import Alpamayo.Storage.ReadSignatures

/-!
This file proves what the scans over the statuses of an address collect.
-/

namespace Alpamayo

namespace SfaScan

variable {stop : Signature} {capacity : Nat} {self : SfaScan}
  {records first second collected : List RpcConfirmedTransactionStatusWithSignature}

/-- The scan of records that are already made. -/
def takeAll (stop : Signature) (capacity : Nat) :
    List RpcConfirmedTransactionStatusWithSignature → SfaScan → SfaScan
  | [], self => self
  | record :: rest, self =>
      match self.before with
      | some signature =>
          takeAll stop capacity rest
            (if record.signature = signature then { self with before := none } else self)
      | none =>
          let self := self.take stop capacity record
          if self.finished then self else takeAll stop capacity rest self

/-- The scan of a row is the scan of its records. -/
theorem takeRow_eq {record : SignatureStatus → RpcConfirmedTransactionStatusWithSignature}
    (named : ∀ item, (record item).signature = item.signature) (items : List SignatureStatus) :
    takeRow stop capacity record items self = takeAll stop capacity (items.map record) self := by
  induction items generalizing self with
  | nil => rfl
  | cons item items ih =>
      rw [List.map_cons, takeRow, takeAll, named item]
      cases self.before with
      | none => simp only [ih]
      | some signature => simp only [ih]

/-- A scan of two parts stops in the first one or goes on with the second one. -/
theorem takeAll_append (running : self.finished = false) :
    takeAll stop capacity (first ++ second) self =
      if (takeAll stop capacity first self).finished then takeAll stop capacity first self
      else takeAll stop capacity second (takeAll stop capacity first self) := by
  induction first generalizing self with
  | nil => simp [takeAll, running]
  | cons record first ih =>
      rw [List.cons_append, takeAll, takeAll]
      cases known : self.before with
      | some signature =>
          simp only
          apply ih
          split
          · exact running
          · exact running
      | none =>
          simp only
          cases stopped : (self.take stop capacity record).finished with
          | true => simp [stopped]
          | false =>
              simp only [Bool.false_eq_true, ↓reduceIte]
              exact ih stopped

/-- A scan with a signature to skip to collects from the record after it. -/
theorem takeAll_skip {signature : Signature}
    (known : ∃ record ∈ records, record.signature = signature) :
    takeAll stop capacity records ⟨some signature, collected, false⟩ =
      takeAll stop capacity (Pages.after (fun record => record.signature) records (some signature))
        ⟨none, collected, false⟩ := by
  induction records with
  | nil => simp at known
  | cons record records ih =>
      rw [takeAll]
      simp only
      by_cases same : record.signature = signature
      · rw [if_pos same, ← same, Pages.after_cons]
      · rw [if_neg same, ih (by simpa [same] using known), Pages.after_cons_of_ne same]

/-- One record of a scan without a signature to skip to. -/
theorem takeAll_cons (record : RpcConfirmedTransactionStatusWithSignature) :
    takeAll stop capacity (record :: records) ⟨none, collected, false⟩ =
      if record.signature = stop then ⟨none, collected, true⟩
      else if collected.length + 1 = capacity then ⟨none, collected ++ [record], true⟩
      else takeAll stop capacity records ⟨none, collected ++ [record], false⟩ := by
  rw [takeAll]
  simp only [take]
  by_cases stops : record.signature = stop
  · simp [stops]
  · by_cases full : collected.length + 1 = capacity
    · simp [stops, full]
    · simp [stops, full]

/-- The scan collects the records before the last signature as long as there is room, and it is
finished by the last signature or by the capacity. -/
theorem takeAll_eq (room : collected.length < capacity) :
    takeAll stop capacity records ⟨none, collected, false⟩ =
      ⟨none, collected ++ (Pages.upTo (fun record => record.signature) records (some stop)).take
          (capacity - collected.length),
        decide (capacity - collected.length ≤ records.length ∨
          ∃ record ∈ records, record.signature = stop)⟩ := by
  induction records generalizing collected with
  | nil =>
      have unfinished : ¬ capacity - collected.length ≤ 0 := by omega
      simp [takeAll, Pages.upTo, unfinished]
  | cons record records ih =>
      rw [takeAll_cons, Pages.upTo]
      split
      · rename_i stops
        rw [List.takeWhile_cons_of_neg (by simpa using stops)]
        simp [stops]
      · rename_i different
        rw [List.takeWhile_cons_of_pos (by simpa using different)]
        split
        · rename_i full
          rw [show capacity - collected.length = 1 by omega]
          simp
        · rename_i more
          have less : capacity - collected.length =
              capacity - (collected ++ [record]).length + 1 := by
            rw [List.length_append, List.length_singleton]
            omega
          rw [ih (by simp; omega), less, List.take_succ_cons]
          simp [Pages.upTo, different]

end SfaScan

namespace Rocksdb

/-- The records of the rows that come before another address. -/
def rowRecords (addressHash : HashedKey) (rows : List (SfaKey × List SignatureStatus)) :
    List RpcConfirmedTransactionStatusWithSignature :=
  (rows.takeWhile fun row => (ofLex row.1).1 = addressHash.toNat).flatMap fun row =>
    row.2.map (indexRecord (ofLex row.1).2)

/-- The loop is the scan of these records. -/
theorem signaturesLoop_eq {addressHash : HashedKey} {stop : Signature} {capacity : Nat}
    (rows : List (SfaKey × List SignatureStatus)) {scan : SfaScan}
    (running : scan.finished = false) :
    signaturesLoop addressHash stop capacity rows scan =
      scan.takeAll stop capacity (rowRecords addressHash rows) := by
  induction rows generalizing scan with
  | nil => rfl
  | cons row rows ih =>
      obtain ⟨key, value⟩ := row
      rw [signaturesLoop, rowRecords]
      split
      · rename_i other
        rw [List.takeWhile_cons_of_neg (by simpa using other)]
        rfl
      · rename_i same
        rw [List.takeWhile_cons_of_pos (by simpa using same), List.flatMap_cons,
          SfaScan.takeAll_append running, SfaScan.takeRow_eq (fun _ => rfl)]
        simp only
        split
        · rfl
        · rename_i running
          exact ih (by simpa using running)

/-- The records of an address from a slot downwards. -/
def indexRecords (self : Rocksdb) (addressHash : HashedKey) (slot : Nat) :
    List RpcConfirmedTransactionStatusWithSignature :=
  rowRecords addressHash (self.sfaIndex.entries.filter fun entry =>
    entry.1 ≤ SfaKey.concat addressHash slot).reverse

/-- The rows of an address from a slot downwards. -/
def addressRows (self : Rocksdb) (addressHash : HashedKey) (slot : Nat) :
    List (SfaKey × List SignatureStatus) :=
  (self.sfaIndex.entries.filter fun entry => entry.1 ≤ SfaKey.concat addressHash slot).reverse.filter
    fun row => (ofLex row.1).1 = addressHash.toNat

variable {db : Rocksdb} {addressHash : HashedKey} {slot : Nat}

/-- A row of the address is an entry of the index at a slot up to the given one. -/
theorem mem_addressRows {row : SfaKey × List SignatureStatus} :
    row ∈ db.addressRows addressHash slot ↔ row ∈ db.sfaIndex.entries ∧
      ∃ rowSlot ≤ slot, row.1 = SfaKey.concat addressHash rowSlot := by
  obtain ⟨key, value⟩ := row
  simp only [addressRows, List.mem_filter, List.mem_reverse, decide_eq_true_eq, and_assoc]
  refine and_congr_right fun _ => ?_
  constructor
  · rintro ⟨below, same⟩
    refine ⟨(ofLex key).2, ?_, ?_⟩
    · rcases Prod.Lex.le_iff.mp below with lower | ⟨-, lower⟩
      · exact absurd same (Nat.ne_of_lt lower)
      · exact lower
    · rw [SfaKey.concat, ← same]
      rfl
  · rintro ⟨rowSlot, lower, rfl⟩
    refine ⟨?_, rfl⟩
    rw [SfaKey.concat, SfaKey.concat, Prod.Lex.toLex_le_toLex]
    exact Or.inr ⟨rfl, lower⟩

/-- The rows of the index come in the order of falling keys. -/
theorem rows_descend (db : Rocksdb) (test : SfaKey × List SignatureStatus → Bool) :
    (db.sfaIndex.entries.filter test).reverse.Pairwise fun first second => second.1 < first.1 := by
  rw [List.pairwise_reverse]
  exact db.sfaIndex.sorted.filter _

/-- The loop reads all rows of the address, since they come before those of lower hashes. -/
theorem indexRecords_eq (db : Rocksdb) (addressHash : HashedKey) (slot : Nat) :
    db.indexRecords addressHash slot = (db.addressRows addressHash slot).flatMap fun row =>
      row.2.map (indexRecord (ofLex row.1).2) := by
  rw [indexRecords, rowRecords, Pages.takeWhile_eq_filter]
  · rfl
  · refine (rows_descend db _).imp_of_mem ?_
    intro first second firstMember _ less isAddress
    simp only [List.mem_reverse, List.mem_filter, decide_eq_true_eq] at firstMember isAddress ⊢
    have upper : (ofLex first.1).1 ≤ addressHash.toNat := by
      rcases Prod.Lex.le_iff.mp firstMember.2 with lower | ⟨same, -⟩
      · exact lower.le
      · exact same.le
    have lower : (ofLex second.1).1 ≤ (ofLex first.1).1 := by
      rcases Prod.Lex.lt_iff.mp less with lower | ⟨same, -⟩
      · exact lower.le
      · exact same.le
    omega

/-- The slots of the rows fall. -/
theorem addressRows_descend (db : Rocksdb) (addressHash : HashedKey) (slot : Nat) :
    ((db.addressRows addressHash slot).map fun row => (ofLex row.1).2).Pairwise (· > ·) := by
  rw [List.pairwise_map]
  refine ((rows_descend db _).filter _).imp_of_mem ?_
  intro first second firstMember secondMember less
  obtain ⟨-, firstSlot, -, isFirst⟩ := mem_addressRows.mp firstMember
  obtain ⟨-, secondSlot, -, isSecond⟩ := mem_addressRows.mp secondMember
  rw [isFirst, isSecond] at less ⊢
  rw [SfaKey.concat, SfaKey.concat, Prod.Lex.toLex_lt_toLex] at less
  rcases less with less | ⟨-, less⟩
  · exact absurd rfl (Nat.ne_of_lt less)
  · exact less

/-- When every row has the elements of its slot, the records are the elements up to the slot. -/
theorem indexRecords_map {B : Type} {image : RpcConfirmedTransactionStatusWithSignature → B}
    {key : B → Nat} {list : List B} (falls : list.Pairwise fun first second => key second ≤ key first)
    (rows : ∀ rowSlot ≤ slot,
      ((db.sfaIndex.get (SfaKey.concat addressHash rowSlot)).getD []).map
        (fun item => image (indexRecord rowSlot item)) =
          list.filter fun element => key element = rowSlot) :
    (db.indexRecords addressHash slot).map image =
      list.filter fun element => key element ≤ slot := by
  have perRow : ∀ row ∈ db.addressRows addressHash slot,
      (row.2.map (indexRecord (ofLex row.1).2)).map image =
        list.filter fun element => key element = (ofLex row.1).2 := by
    intro row member
    obtain ⟨stored, rowSlot, lower, isRow⟩ := mem_addressRows.mp member
    have found : db.sfaIndex.get (SfaKey.concat addressHash rowSlot) = some row.2 := by
      rw [← isRow]
      exact SortedMap.get_eq_some_iff.mpr stored
    have same := rows rowSlot lower
    rw [found] at same
    rw [isRow, List.map_map]
    exact same
  have byKeys : (db.indexRecords addressHash slot).map image =
      list.filter fun element => decide
        (key element ∈ (db.addressRows addressHash slot).map fun row => (ofLex row.1).2) := by
    rw [← Pages.flatMap_filter_eq falls (addressRows_descend db addressHash slot), indexRecords_eq,
      List.map_flatMap, List.flatMap_map]
    exact List.flatMap_congr perRow
  rw [byKeys]
  apply List.filter_congr
  intro element member
  rw [decide_eq_decide, List.mem_map]
  constructor
  · rintro ⟨row, isRow, same⟩
    obtain ⟨-, rowSlot, lower, isKey⟩ := mem_addressRows.mp isRow
    rw [← same, isKey]
    exact lower
  · intro lower
    have listed : element ∈ list.filter fun other => key other = key element := by simp [member]
    rw [← rows (key element) lower] at listed
    cases found : db.sfaIndex.get (SfaKey.concat addressHash (key element)) with
    | none =>
        rw [found] at listed
        cases listed
    | some value =>
        refine ⟨(_, value), mem_addressRows.mpr ⟨SortedMap.get_eq_some_iff.mp found, _, lower, rfl⟩, ?_⟩
        rfl

end Rocksdb

end Alpamayo
