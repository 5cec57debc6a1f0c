import Alpamayo.Source.Transaction
import Mathlib.Data.List.Forall2

/-!
This file shows that the recorded offsets of a block select the encodings of its transactions.
-/

namespace Alpamayo

/-- The record describes the transaction, whose encoding lies at its place in the bytes. -/
structure BlockTransactionOffset.Selects (record : BlockTransactionOffset) (bytes : Bytes)
    (tx : BuiltTransaction) : Prop where
  key : record.key = tx.key
  err : record.err = tx.err
  index : record.index = tx.index
  inside : record.offset + record.size ≤ bytes.length
  slice : (bytes.drop record.offset).take record.size = tx.protobuf

/-- More bytes after the encoding do not move it. -/
theorem BlockTransactionOffset.Selects.append {record : BlockTransactionOffset} {bytes : Bytes}
    {tx : BuiltTransaction} (selects : record.Selects bytes tx) (more : Bytes) :
    record.Selects (bytes ++ more) tx where
  key := selects.key
  err := selects.err
  index := selects.index
  inside := by
    have inside := selects.inside
    rw [List.length_append]
    omega
  slice := by
    have inside := selects.inside
    rw [List.drop_append_of_le_length (by omega),
      List.take_append_of_le_length (by rw [List.length_drop]; omega), selects.slice]

namespace ConfirmedBlockProtoRef

/-- The loop keeps the buffer, and its records select the encodings of the transactions in order. -/
theorem encodeTransactions_selects (buf : Bytes) (transactions : List BuiltTransaction) :
    buf <+: (encodeTransactions buf transactions).1 ∧
      List.Forall₂ (fun record tx => record.Selects (encodeTransactions buf transactions).1 tx)
        (encodeTransactions buf transactions).2 transactions := by
  induction transactions generalizing buf with
  | nil => exact ⟨List.prefix_refl buf, .nil⟩
  | cons tx rest ih =>
      let start := buf ++ Wire.encodeKey 4 .lengthDelimited ++ Wire.encodeVarint tx.protobuf.length
      obtain ⟨kept, selects⟩ := ih (start ++ tx.protobuf)
      have first : (⟨tx.key, start.length, tx.protobuf.length, tx.err, tx.index⟩ :
          BlockTransactionOffset).Selects (start ++ tx.protobuf) tx :=
        ⟨rfl, rfl, rfl, by simp, by simp⟩
      refine ⟨List.IsPrefix.trans ?_ kept, .cons ?_ selects⟩
      · exact (List.prefix_append _ _).trans ((List.prefix_append _ _).trans (List.prefix_append _ _))
      · obtain ⟨more, same⟩ := kept
        change BlockTransactionOffset.Selects _ (encodeTransactions (start ++ tx.protobuf) rest).1 tx
        rw [← same]
        exact first.append more

/-- The records of the whole buffer select the encodings of the transactions in order. -/
theorem encodeWithTxOffsets_selects (self : ConfirmedBlockProtoRef) :
    List.Forall₂ (fun record tx => record.Selects self.encodeWithTxOffsets.1 tx)
      self.encodeWithTxOffsets.2 self.transactions := by
  refine (encodeTransactions_selects self.header self.transactions).2.imp ?_
  intro record tx selects
  exact selects.append self.footer

end ConfirmedBlockProtoRef

namespace BlockWithBinary

/-- A listed transaction is one of those that were inserted. -/
theorem mem_insertTransaction {transactions : List TransactionWithBinary}
    {tx other : TransactionWithBinary} (member : other ∈ insertTransaction transactions tx) :
    other ∈ transactions ∨ other = tx := by
  unfold insertTransaction at member
  split at member
  · obtain ⟨old, inside, rfl⟩ := List.mem_map.mp member
    split
    · exact Or.inr rfl
    · exact Or.inl inside
  · simpa using member

/-- The listing has only transactions of the list that it was made from. -/
theorem mem_foldl_insertTransaction {more transactions : List TransactionWithBinary}
    {other : TransactionWithBinary} (member : other ∈ more.foldl insertTransaction transactions) :
    other ∈ transactions ∨ other ∈ more := by
  induction more generalizing transactions with
  | nil => exact Or.inl member
  | cons tx rest ih =>
      obtain inside | inside := ih member
      · obtain old | rfl := mem_insertTransaction inside
        · exact Or.inl old
        · exact Or.inr List.mem_cons_self
      · exact Or.inr (List.mem_cons_of_mem tx inside)

/-- The block was built for its slot from these transactions. -/
structure BuiltFrom (keys : HashedKeys) (parsePubkey : String → Option Pubkey) (slot : Nat)
    (block : BlockWithBinary) (transactions : List BuiltTransaction) : Prop where
  built : ∀ tx ∈ transactions, ∃ decoded isVote index,
    tx = BuiltTransaction.new keys parsePubkey slot decoded isVote index
  block : ∃ previousBlockhash blockhash parentSlot all rewards numPartitions blockTime blockHeight
      indexVote,
    transactions = (if indexVote then all else all.filter fun tx => !tx.isVote) ∧
      block = new previousBlockhash blockhash parentSlot all rewards numPartitions blockTime
        blockHeight indexVote

section builtFrom

variable {keys : HashedKeys} {parsePubkey : String → Option Pubkey} {slot : Nat}
  {block : BlockWithBinary} {transactions : List BuiltTransaction}

/-- The records of a block select the encodings of its transactions. -/
theorem BuiltFrom.selects (built : block.BuiltFrom keys parsePubkey slot transactions) :
    List.Forall₂ (fun record tx => record.Selects block.protobuf tx) block.txsOffset
      transactions := by
  obtain ⟨previousBlockhash, blockhash, parentSlot, all, rewards, numPartitions, blockTime,
    blockHeight, indexVote, rfl, rfl⟩ := built.block
  exact ConfirmedBlockProtoRef.encodeWithTxOffsets_selects _

/-- The key of a transaction is the hash of its signature. -/
theorem BuiltFrom.key (built : block.BuiltFrom keys parsePubkey slot transactions)
    {tx : BuiltTransaction} (member : tx ∈ transactions) : tx.key = keys.signatureKey tx.signature := by
  obtain ⟨decoded, isVote, index, rfl⟩ := built.built tx member
  rfl

/-- Each record belongs to a transaction. -/
theorem BuiltFrom.selected (built : block.BuiltFrom keys parsePubkey slot transactions)
    {record : BlockTransactionOffset} (member : record ∈ block.txsOffset) :
    ∃ tx ∈ transactions, record.Selects block.protobuf tx := by
  obtain ⟨index, inside, rfl⟩ := List.getElem_of_mem member
  have inside' : index < transactions.length := built.selects.length_eq ▸ inside
  exact ⟨_, List.getElem_mem inside', built.selects.get inside inside'⟩

/-- The lookup of a signature finds one of the transactions. -/
theorem BuiltFrom.getTransaction (built : block.BuiltFrom keys parsePubkey slot transactions)
    {signature : Signature} {found : TransactionWithBinary}
    (lookup : block.getTransaction signature = some found) :
    ∃ tx ∈ transactions, tx.signature = signature ∧ tx.protobuf = found.protobuf := by
  obtain ⟨previousBlockhash, blockhash, parentSlot, all, rewards, numPartitions, blockTime,
    blockHeight, indexVote, rfl, rfl⟩ := built.block
  have same : found.signature = signature := by simpa using List.find?_some lookup
  obtain absent | member := mem_foldl_insertTransaction (List.mem_of_find?_eq_some lookup)
  · cases absent
  · obtain ⟨tx, inside, rfl⟩ := List.mem_map.mp member
    exact ⟨tx, inside, same, rfl⟩

end builtFrom

end BlockWithBinary

end Alpamayo
