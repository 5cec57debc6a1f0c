import Alpamayo.Proof.AddressRows
import Alpamayo.Proof.WriterChain
import Mathlib.Data.List.Find

/-!
This file shows that the index records of the database are those of a set of blocks.
-/

namespace Alpamayo

namespace BlockWithBinary

/-- The extra record of the slot. -/
def extraValue (block : BlockWithBinary) : SlotExtraIndexValue where
  transactions := block.txsOffset.map fun tx => tx.key
  sfa := block.sfa.map fun entry => entry.2.addressHash

/-- The last record of a key is the one that the database keeps. -/
def recordOf (block : BlockWithBinary) (key : HashedKey) : Option BlockTransactionOffset :=
  block.txsOffset.reverse.find? fun record => record.key = key

/-- The statuses that the database keeps at an address key. -/
def statusesAt (block : BlockWithBinary) (key : SfaKey) : Option (List SignatureStatus) :=
  (block.sfa.reverse.find? fun entry => entry.2.key = key).map fun entry => entry.2.signatures

/-- The address keys of the block are those of the slot. -/
def RowsOf (block : BlockWithBinary) (slot : Nat) : Prop :=
  ∀ entry ∈ block.sfa, entry.2.key = SfaKey.concat entry.2.addressHash slot

variable {block : BlockWithBinary} {slot : Nat}

/-- A listed key is that of a record. -/
theorem mem_extraValue {key : HashedKey} :
    key ∈ block.extraValue.transactions ↔ block.recordOf key ≠ none := by
  rw [extraValue, recordOf, Ne, List.find?_eq_none]
  simp only [List.mem_map, List.mem_reverse, decide_eq_true_eq, not_forall, not_not]
  constructor
  · rintro ⟨record, member, same⟩
    exact ⟨record, member, same⟩
  · rintro ⟨record, member, same⟩
    exact ⟨record, member, same⟩

/-- A row of the slot is found at a key of the slot. -/
theorem RowsOf.statusesAt (rows : block.RowsOf slot) {key : SfaKey} {statuses : List SignatureStatus}
    (found : block.statusesAt key = some statuses) :
    ∃ hash ∈ block.extraValue.sfa, key = SfaKey.concat hash slot := by
  obtain ⟨entry, selected, -⟩ := Option.map_eq_some_iff.mp found
  have member := List.mem_reverse.mp (List.mem_of_find?_eq_some selected)
  have same : entry.2.key = key := by simpa using List.find?_some selected
  exact ⟨_, List.mem_map_of_mem member, same.symm.trans (rows entry member)⟩

end BlockWithBinary

/-- The slot is a part of the key. -/
theorem SfaKey.concat_inj {first second : HashedKey} {slot other : Nat} :
    SfaKey.concat first slot = SfaKey.concat second other ↔ first = second ∧ slot = other := by
  unfold SfaKey.concat
  rw [toLex_inj, Prod.mk.injEq, BitVec.toNat_inj]

namespace Rocksdb

/-- The three families of index records are those of the blocks, and no two blocks share a key. -/
structure Describes (db : Rocksdb) (live : Nat → Option BlockWithBinary) : Prop where
  extra : ∀ slot, db.slotExtraIndex.get slot = (live slot).map BlockWithBinary.extraValue
  transactions : ∀ key index, db.transactionIndex.get key = some index ↔
    ∃ block record, live index.slot = some block ∧ block.recordOf key = some record ∧
      record.value index.slot = index
  sfa : ∀ key statuses, db.sfaIndex.get key = some statuses ↔
    ∃ slot block, live slot = some block ∧ block.statusesAt key = some statuses
  rows : ∀ slot block, live slot = some block → block.RowsOf slot
  apart : ∀ first second one other, first ≠ second → live first = some one →
    live second = some other → ∀ key, one.recordOf key ≠ none → other.recordOf key = none

variable {db after : Rocksdb} {live : Nat → Option BlockWithBinary} {slot : Nat}
  {block : BlockWithBinary}

/-- An empty database describes no block. -/
theorem describes_empty : empty.Describes fun _ => none where
  extra := fun _ => rfl
  transactions := by
    intro key index
    constructor
    · rintro ⟨⟩
    · rintro ⟨_, _, ⟨⟩, -⟩
  sfa := by
    intro key statuses
    constructor
    · rintro ⟨⟩
    · rintro ⟨_, _, ⟨⟩, -⟩
  rows := by rintro _ _ ⟨⟩
  apart := by rintro _ _ _ _ _ ⟨⟩

/-- The records are in these three families only. -/
theorem Describes.congr (describes : db.Describes live)
    (extra : after.slotExtraIndex = db.slotExtraIndex)
    (transactions : after.transactionIndex = db.transactionIndex)
    (sfa : after.sfaIndex = db.sfaIndex) : after.Describes live where
  extra := by
    rw [extra]
    exact describes.extra
  transactions := by
    rw [transactions]
    exact describes.transactions
  sfa := by
    rw [sfa]
    exact describes.sfa
  rows := describes.rows
  apart := describes.apart

/-- The records of a new block are added to those of the others. -/
theorem Describes.addIndexes (describes : db.Describes live) (fresh : live slot = none)
    (rows : block.RowsOf slot) (apart : ∀ other found, live other = some found → ∀ key,
      block.recordOf key ≠ none → found.recordOf key = none) :
    (db.addIndexes slot block).Describes (Function.update live slot (some block)) where
  extra := by
    intro other
    simp only [Rocksdb.addIndexes, SortedMap.get_insert, Function.update_apply]
    split
    · rfl
    · exact describes.extra other
  transactions := by
    intro key index
    simp only [Rocksdb.addIndexes, HashMap.get_foldl_insert]
    change ((block.recordOf key).map _).or _ = _ ↔ _
    cases selected : block.recordOf key with
    | none =>
        rw [Option.map_none, Option.none_or, describes.transactions]
        constructor
        · rintro ⟨other, record, known, isRecord, same⟩
          have different : index.slot ≠ slot := by
            rintro rfl
            rw [fresh] at known
            cases known
          exact ⟨other, record, by rw [Function.update_of_ne different, known], isRecord, same⟩
        · rintro ⟨other, record, known, isRecord, same⟩
          rw [Function.update_apply] at known
          split at known
          · cases known
            rw [selected] at isRecord
            cases isRecord
          · exact ⟨other, record, known, isRecord, same⟩
    | some record =>
        rw [Option.map_some, Option.some_or, Option.some_inj]
        constructor
        · rintro rfl
          exact ⟨block, record, Function.update_self _ _ _, selected, rfl⟩
        · rintro ⟨other, found, known, isRecord, same⟩
          rw [Function.update_apply] at known
          split at known
          · rename_i here
            cases known
            rw [selected] at isRecord
            cases isRecord
            rw [← same, here]
            rfl
          · have none := apart _ _ known key (by rw [selected]; rintro ⟨⟩)
            rw [none] at isRecord
            cases isRecord
  sfa := by
    intro key statuses
    simp only [Rocksdb.addIndexes, SortedMap.get_foldl_insert]
    change (block.statusesAt key).or _ = _ ↔ _
    cases selected : block.statusesAt key with
    | none =>
        rw [Option.none_or, describes.sfa]
        constructor
        · rintro ⟨place, other, known, found⟩
          have different : place ≠ slot := by
            rintro rfl
            rw [fresh] at known
            cases known
          exact ⟨place, other, by rw [Function.update_of_ne different, known], found⟩
        · rintro ⟨place, other, known, found⟩
          rw [Function.update_apply] at known
          split at known
          · cases known
            rw [selected] at found
            cases found
          · exact ⟨place, other, known, found⟩
    | some first =>
        rw [Option.some_or, Option.some_inj]
        constructor
        · rintro rfl
          exact ⟨slot, block, Function.update_self _ _ _, selected⟩
        · rintro ⟨place, other, known, found⟩
          rw [Function.update_apply] at known
          split at known
          · cases known
            rw [selected] at found
            exact Option.some.inj found
          · rename_i different
            obtain ⟨hash, -, same⟩ := rows.statusesAt selected
            obtain ⟨hash', -, same'⟩ := (describes.rows place other known).statusesAt found
            exact absurd (SfaKey.concat_inj.mp (same'.symm.trans same)).2 different
  rows := by
    intro place other known
    rw [Function.update_apply] at known
    split at known
    · rename_i here
      cases known
      rw [here]
      exact rows
    · exact describes.rows place other known
  apart := by
    intro first second one other different known known' key isKey
    rw [Function.update_apply] at known known'
    split at known
    · rename_i here
      rw [if_neg (by rintro rfl; exact different here)] at known'
      cases known
      exact apart second other known' key isKey
    · split at known'
      · cases known'
        by_contra shared
        exact isKey (apart first one known key shared)
      · exact describes.apart first second one other different known known' key isKey

/-- The removal of a block takes its records away. -/
theorem Describes.remove (describes : db.Describes live) (known : live slot = some block)
    (removed : db.spawnRemoveSlot slot false = .ok after) :
    after.Describes (Function.update live slot none) := by
  have extra := describes.extra slot
  rw [known, Option.map_some] at extra
  simp only [spawnRemoveSlot, extra, Bool.false_eq_true, if_false] at removed
  cases removed
  have others : ∀ other found, Function.update live slot none other = some found →
      other ≠ slot ∧ live other = some found := by
    intro other found stays
    rw [Function.update_apply] at stays
    split at stays
    · cases stays
    · exact ⟨‹_›, stays⟩
  constructor
  · intro other
    simp only [SortedMap.get_erase, Function.update_apply]
    split
    · rfl
    · exact describes.extra other
  · intro key index
    simp only [HashMap.get_foldl_remove]
    split
    · rename_i listed
      refine iff_of_false (by rintro ⟨⟩) ?_
      rintro ⟨other, record, stays, isRecord, -⟩
      obtain ⟨different, stored⟩ := others _ _ stays
      have none := describes.apart slot index.slot block other different.symm known stored key
        (BlockWithBinary.mem_extraValue.mp listed)
      rw [none] at isRecord
      cases isRecord
    · rename_i unlisted
      rw [describes.transactions]
      constructor
      · rintro ⟨other, record, stored, isRecord, same⟩
        refine ⟨other, record, ?_, isRecord, same⟩
        rw [Function.update_of_ne ?_, stored]
        rintro here
        rw [here, known] at stored
        cases stored
        exact unlisted (BlockWithBinary.mem_extraValue.mpr (by rw [isRecord]; rintro ⟨⟩))
      · rintro ⟨other, record, stays, isRecord, same⟩
        exact ⟨other, record, (others _ _ stays).2, isRecord, same⟩
  · intro key statuses
    simp only [SortedMap.get_foldl_erase]
    split
    · rename_i listed
      refine iff_of_false (by rintro ⟨⟩) ?_
      rintro ⟨place, other, stays, found⟩
      obtain ⟨different, stored⟩ := others _ _ stays
      obtain ⟨hash, -, same⟩ := List.mem_map.mp listed
      obtain ⟨hash', -, same'⟩ := (describes.rows place other stored).statusesAt found
      exact different (SfaKey.concat_inj.mp (same'.symm.trans same.symm)).2
    · rename_i unlisted
      rw [describes.sfa]
      constructor
      · rintro ⟨place, other, stored, found⟩
        refine ⟨place, other, ?_, found⟩
        rw [Function.update_of_ne ?_, stored]
        rintro rfl
        rw [known] at stored
        cases stored
        obtain ⟨hash, inside, same⟩ := (describes.rows place block known).statusesAt found
        exact unlisted (List.mem_map.mpr ⟨hash, inside, same.symm⟩)
      · rintro ⟨place, other, stays, found⟩
        exact ⟨place, other, (others _ _ stays).2, found⟩
  · intro other found stays
    exact describes.rows other found (others _ _ stays).2
  · intro first second one other different stays stays' key isKey
    exact describes.apart first second one other different (others _ _ stays).2
      (others _ _ stays').2 key isKey

end Rocksdb

/-- Lists that agree in a test find entries that belong together. -/
theorem find?_forall₂ {A B : Type} {relates : A → B → Prop} (test : A → Bool) (other : B → Bool)
    (agree : ∀ first second, relates first second → test first = other second) {firsts : List A}
    {seconds : List B} (all : List.Forall₂ relates firsts seconds) :
    (firsts.find? test = none ∧ seconds.find? other = none) ∨
      ∃ first second, firsts.find? test = some first ∧ seconds.find? other = some second ∧
        relates first second := by
  induction all with
  | nil => exact Or.inl ⟨rfl, rfl⟩
  | @cons first second firsts seconds relates rest ih =>
      rw [List.find?_cons, List.find?_cons, agree first second relates]
      cases other second with
      | true => exact Or.inr ⟨first, second, rfl, rfl, relates⟩
      | false => exact ih

namespace BlockWithBinary

variable {keys : HashedKeys} {parsePubkey : String → Option Pubkey} {slot : Nat}
  {block : BlockWithBinary} {transactions : List BuiltTransaction}

/-- An inserted transaction is the one that is found for its signature. -/
theorem find?_insertTransaction (list : List TransactionWithBinary) (tx : TransactionWithBinary)
    (signature : Signature) :
    (insertTransaction list tx).find? (fun other => other.signature = signature) =
      if tx.signature = signature then some tx
      else list.find? fun other => other.signature = signature := by
  unfold insertTransaction
  split
  · rename_i known
    induction list with
    | nil => simp at known
    | cons first rest ih =>
        rw [List.map_cons, List.find?_cons, List.find?_cons]
        by_cases here : first.signature = tx.signature
        · rw [if_pos here]
          by_cases same : tx.signature = signature
          · simp [same]
          · simp only [same, here, if_false, decide_false]
            by_cases later : (rest.any fun other => other.signature = tx.signature) = true
            · rw [ih later, if_neg same]
            · have kept : rest.map (fun other => if other.signature = tx.signature then tx else other) =
                  rest := by
                rw [List.any_eq_true, not_exists] at later
                conv => rhs; rw [← List.map_id rest]
                apply List.map_congr_left
                intro other member
                rw [if_neg fun equal => later other ⟨member, by simpa using equal⟩]
                rfl
              rw [kept]
        · rw [if_neg here]
          have later : (rest.any fun other => other.signature = tx.signature) = true := by
            simpa [List.any_cons, here] using known
          rw [ih later]
          by_cases same : tx.signature = signature
          · have other : ¬ first.signature = signature := fun equal => here (equal.trans same.symm)
            simp [same, other]
          · simp [same]
  · rename_i fresh
    rw [List.find?_append]
    by_cases same : tx.signature = signature
    · have none : list.find? (fun other => other.signature = signature) = none := by
        rw [List.find?_eq_none]
        intro other member equal
        apply fresh
        rw [List.any_eq_true]
        exact ⟨other, member, by simpa [same] using equal⟩
      simp [same, none]
    · simp [same]

/-- The listing keeps the last transaction of a signature. -/
theorem find?_foldl_insertTransaction (more list : List TransactionWithBinary)
    (signature : Signature) :
    (more.foldl insertTransaction list).find? (fun other => other.signature = signature) =
      (more.reverse.find? fun other => other.signature = signature).or
        (list.find? fun other => other.signature = signature) := by
  induction more generalizing list with
  | nil => simp
  | cons tx rest ih =>
      rw [List.foldl_cons, ih, find?_insertTransaction, List.reverse_cons, List.find?_append]
      cases rest.reverse.find? fun other => other.signature = signature with
      | some found => simp
      | none => by_cases same : tx.signature = signature <;> simp [same]

/-- The lookup of a signature finds the last of its transactions. -/
theorem BuiltFrom.getTransaction_eq (built : block.BuiltFrom keys parsePubkey slot transactions)
    (signature : Signature) : block.getTransaction signature =
      (transactions.reverse.find? fun tx => tx.signature = signature).map
        BuiltTransaction.toTransactionWithBinary := by
  obtain ⟨previousBlockhash, blockhash, parentSlot, all, rewards, numPartitions, blockTime,
    blockHeight, indexVote, rfl, rfl⟩ := built.block
  change (List.foldl insertTransaction [] (List.map _ _)).find? _ = _
  rw [find?_foldl_insertTransaction, List.find?_nil, Option.or_none, ← List.map_reverse,
    List.find?_map]
  rfl

/-- A transaction of the block is found. -/
theorem BuiltFrom.getTransaction_ne_none (built : block.BuiltFrom keys parsePubkey slot transactions)
    {tx : BuiltTransaction} (member : tx ∈ transactions) :
    block.getTransaction tx.signature ≠ none := by
  rw [built.getTransaction_eq, Ne, Option.map_eq_none_iff, List.find?_eq_none]
  intro none
  exact none tx (List.mem_reverse.mpr member) (by simp)

/-- A key with a record is that of a transaction. -/
theorem BuiltFrom.exists_of_recordOf (built : block.BuiltFrom keys parsePubkey slot transactions)
    {key : HashedKey} (isKey : block.recordOf key ≠ none) :
    ∃ tx ∈ transactions, keys.signatureKey tx.signature = key := by
  obtain ⟨record, found⟩ := Option.ne_none_iff_exists'.mp isKey
  have member := List.mem_reverse.mp (List.mem_of_find?_eq_some found)
  obtain ⟨tx, inside, selects⟩ := built.selected member
  have same : record.key = key := by simpa using List.find?_some found
  exact ⟨tx, inside, by rw [← built.key inside, ← selects.key, same]⟩

variable {signatures : Set Signature} {signature : Signature}

/-- Where the keys tell the signatures apart, the record of a signature selects the transaction that is
found for it. -/
theorem BuiltFrom.record_cases (built : block.BuiltFrom keys parsePubkey slot transactions)
    (injective : Set.InjOn keys.signatureKey signatures)
    (within : ∀ tx ∈ transactions, tx.signature ∈ signatures) (member : signature ∈ signatures) :
    (block.recordOf (keys.signatureKey signature) = none ∧ block.getTransaction signature = none) ∨
      ∃ record found, block.recordOf (keys.signatureKey signature) = some record ∧
        block.getTransaction signature = some found ∧
        record.offset + record.size ≤ block.protobuf.length ∧
        (block.protobuf.drop record.offset).take record.size = found.protobuf := by
  have sameTest : transactions.reverse.find? (fun tx => tx.key = keys.signatureKey signature) =
      transactions.reverse.find? fun tx => tx.signature = signature := by
    apply List.find?_congr
    intro tx inside
    have listed := List.mem_reverse.mp inside
    rw [built.key listed]
    exact decide_eq_decide.mpr ⟨fun same => injective (within tx listed) member same,
      fun same => congrArg keys.signatureKey same⟩
  have pairs : List.Forall₂ (fun record tx => record.Selects block.protobuf tx)
      block.txsOffset.reverse transactions.reverse := List.rel_reverse built.selects
  have found := find?_forall₂ (fun record => decide (record.key = keys.signatureKey signature))
    (fun tx => decide (tx.key = keys.signatureKey signature))
    (fun record tx selects => by rw [selects.key]) pairs
  rw [sameTest] at found
  rw [built.getTransaction_eq]
  obtain ⟨none, none'⟩ | ⟨record, tx, isRecord, isTx, selects⟩ := found
  · exact Or.inl ⟨none, by rw [none']; rfl⟩
  · exact Or.inr ⟨record, _, isRecord, by rw [isTx]; rfl, selects.inside, selects.slice⟩

/-- Blocks without a common signature have no common key. -/
theorem BuiltFrom.apart {other : BlockWithBinary} {place : Nat} {others : List BuiltTransaction}
    (built : block.BuiltFrom keys parsePubkey slot transactions)
    (built' : other.BuiltFrom keys parsePubkey place others)
    (injective : Set.InjOn keys.signatureKey signatures)
    (within : ∀ tx ∈ transactions, tx.signature ∈ signatures)
    (within' : ∀ tx ∈ others, tx.signature ∈ signatures)
    (fresh : ∀ signature, block.getTransaction signature ≠ none →
      other.getTransaction signature = none) (key : HashedKey) (isKey : block.recordOf key ≠ none) :
    other.recordOf key = none := by
  by_contra shared
  obtain ⟨tx, inside, same⟩ := built.exists_of_recordOf isKey
  obtain ⟨tx', inside', same'⟩ := built'.exists_of_recordOf shared
  have equal := injective (within tx inside) (within' tx' inside') (same.trans same'.symm)
  have missing := fresh tx.signature (built.getTransaction_ne_none inside)
  rw [equal] at missing
  exact built'.getTransaction_ne_none inside' missing

section rows

variable {parse : String → Option Pubkey} {make : Pubkey → Bool → SignatureForAddress}

/-- The entry has the key and the hash of its address. -/
def Keyed (keys : HashedKeys) (slot : Nat) (entry : SignatureForAddress) : Prop :=
  entry.key = SfaKey.concat (keys.addressHash entry.address) slot ∧
    entry.addressHash = keys.addressHash entry.address

/-- Every entry of a token owner is made for an address. -/
theorem mem_ownersSfa {directKeys : List Pubkey} {changed owners seenOwners : List String}
    {entry : SignatureForAddress} (member : entry ∈ BuiltTransaction.ownersSfa parse make directKeys
      changed seenOwners owners) : ∃ address flag, entry = make address flag := by
  induction owners generalizing seenOwners with
  | nil => cases member
  | cons owner rest ih =>
      rw [BuiltTransaction.ownersSfa] at member
      split at member
      · exact ih member
      · dsimp only at member
        split at member
        · exact ih member
        · split at member
          · exact ih member
          · obtain here | later := List.mem_cons.mp member
            · exact ⟨_, _, here⟩
            · exact ih later

/-- The entries of a built transaction have their keys. -/
theorem keyed_new (tx : TransactionWithStatusMeta) (isVote : Option Bool) (index : Nat) :
    ∀ entry ∈ (BuiltTransaction.new keys parsePubkey slot tx isVote index).sfa,
      Keyed keys slot entry := by
  intro entry member
  unfold BuiltTransaction.new at member
  dsimp only at member
  split at member
  · cases member
  · obtain direct | owner := List.mem_append.mp member
    · obtain ⟨address, -, rfl⟩ := List.mem_map.mp direct
      exact ⟨rfl, rfl⟩
    · obtain ⟨address, flag, rfl⟩ := mem_ownersSfa owner
      exact ⟨rfl, rfl⟩

/-- The rows of entries with their keys have those keys. -/
theorem keyed_rowsOf {entries : List SignatureForAddress}
    (keyed : ∀ entry ∈ entries, Keyed keys slot entry) : ∀ row ∈ rowsOf entries,
      row.2.key = SfaKey.concat (keys.addressHash row.1) slot ∧
        row.2.addressHash = keys.addressHash row.1 := by
  induction entries using List.reverseRecOn with
  | nil =>
      intro row member
      cases member
  | append_singleton entries entry ih =>
      have before := ih fun other member => keyed other (List.mem_append_left _ member)
      intro row member
      rw [rowsOf_append, mergeSfa] at member
      split at member
      · obtain ⟨old, inside, rfl⟩ := List.mem_map.mp member
        split
        · exact before old inside
        · exact before old inside
      · obtain old | new := List.mem_append.mp member
        · exact before row old
        · rw [List.mem_singleton.mp new]
          exact keyed entry (List.mem_append_right _ (List.mem_singleton_self entry))

/-- The rows of a block have their keys, and their addresses are distinct. -/
theorem BuiltFrom.keyed (built : block.BuiltFrom keys parsePubkey slot transactions) :
    (∀ row ∈ block.sfa, row.2.key = SfaKey.concat (keys.addressHash row.1) slot ∧
      row.2.addressHash = keys.addressHash row.1) ∧ (block.sfa.map Prod.fst).Nodup := by
  have made : block.sfa = rowsOf (transactions.reverse.flatMap fun tx => tx.sfa) := by
    obtain ⟨previousBlockhash, blockhash, parentSlot, all, rewards, numPartitions, blockTime,
      blockHeight, indexVote, rfl, rfl⟩ := built.block
    rfl
  rw [made]
  refine ⟨keyed_rowsOf fun entry member => ?_, nodup_rowsOf _⟩
  obtain ⟨tx, inside, listed⟩ := List.mem_flatMap.mp member
  obtain ⟨decoded, isVote, index, rfl⟩ := built.built tx (List.mem_reverse.mp inside)
  exact keyed_new decoded isVote index entry listed

/-- The address keys of a block are those of its slot. -/
theorem BuiltFrom.rowsOf (built : block.BuiltFrom keys parsePubkey slot transactions) :
    block.RowsOf slot := by
  intro row member
  obtain ⟨key, hash⟩ := built.keyed.1 row member
  rw [key, hash]

/-- Where the hashes tell the addresses apart, the key of an address has the row of the address. -/
theorem BuiltFrom.statusesAt_eq (built : block.BuiltFrom keys parsePubkey slot transactions)
    {addresses : Set Pubkey} (injective : Set.InjOn keys.addressHash addresses)
    (within : ∀ row ∈ block.sfa, row.1 ∈ addresses) {address : Pubkey} (member : address ∈ addresses) :
    block.statusesAt (SfaKey.concat (keys.addressHash address) slot) =
      (block.getSfa address).map SignaturesForAddress.signatures := by
  obtain ⟨keyed, nodup⟩ := built.keyed
  have isKey : ∀ row ∈ block.sfa, row.2.key = SfaKey.concat (keys.addressHash address) slot →
      row.1 = address := by
    intro row inside same
    rw [(keyed row inside).1, SfaKey.concat_inj] at same
    exact injective (within row inside) member same.1
  unfold statusesAt getSfa
  cases found : block.sfa.lookup address with
  | none =>
      rw [List.find?_eq_none.mpr]
      · rfl
      · intro row inside same
        have here := isKey row (List.mem_reverse.mp inside) (by simpa using same)
        have differs := List.lookup_eq_none_iff.mp found row (List.mem_reverse.mp inside)
        simp [here] at differs
  | some row =>
      obtain ⟨before, later, listed, -⟩ := List.lookup_eq_some_iff.mp found
      have inside : (address, row) ∈ block.sfa := by simp [listed]
      cases selected : block.sfa.reverse.find?
          fun entry => entry.2.key = SfaKey.concat (keys.addressHash address) slot with
      | none =>
          have differs := List.find?_eq_none.mp selected _ (List.mem_reverse.mpr inside)
          exact absurd (keyed _ inside).1 (by simpa using differs)
      | some entry =>
          have listed := List.mem_reverse.mp (List.mem_of_find?_eq_some selected)
          have here := isKey entry listed (by simpa using List.find?_some selected)
          rw [List.inj_on_of_nodup_map nodup listed inside here]
          rfl

end rows

end BlockWithBinary

end Alpamayo
