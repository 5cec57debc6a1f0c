import Alpamayo.Source.Transaction
import Mathlib.Data.List.Forall2
import Mathlib.Data.List.Induction

/-!
This file shows that the address rows of a block list its transactions exactly.
-/

namespace Alpamayo

variable {parsePubkey : String → Option Pubkey} {address : Pubkey}

namespace VersionedTransactionWithStatusMeta

def preBalances (self : VersionedTransactionWithStatusMeta) : List TransactionTokenBalance :=
  self.preTokenBalances.getD []

def postBalances (self : VersionedTransactionWithStatusMeta) : List TransactionTokenBalance :=
  self.postTokenBalances.getD []

/-- The balances of the address: those before and after the transaction. -/
def balancesOf (parsePubkey : String → Option Pubkey) (self : VersionedTransactionWithStatusMeta)
    (address : Pubkey) : List TransactionTokenBalance :=
  (self.preBalances ++ self.postBalances).filter fun balance => parsePubkey balance.owner = some address

/-- The amount of some balance of the address differs before and after the transaction. -/
def BalanceChanged (parsePubkey : String → Option Pubkey) (self : VersionedTransactionWithStatusMeta)
    (address : Pubkey) : Prop :=
  ∃ balance ∈ self.balancesOf parsePubkey address,
    BuiltTransaction.amountOf self.preBalances balance.accountIndex ≠
      BuiltTransaction.amountOf self.postBalances balance.accountIndex

end VersionedTransactionWithStatusMeta

/-- A transaction as the node sends it: the account keys of its message, its place in the block, and
whether the node calls it a vote. -/
structure SourceTransaction where
  tx : TransactionWithStatusMeta
  messageKeys : List Pubkey
  isVote : Option Bool
  index : Nat

namespace SourceTransaction

/-- The metadata adds the loaded addresses to the keys of the message. -/
def accountKeys (self : SourceTransaction) : List Pubkey :=
  self.tx.complete.elim self.messageKeys fun complete => complete.accountKeys

/-- The address is an account key or owns a token balance. -/
def mentions (parsePubkey : String → Option Pubkey) (address : Pubkey) (self : SourceTransaction) :
    Bool :=
  self.accountKeys.contains address ||
    self.tx.complete.any fun complete => !(complete.balancesOf parsePubkey address).isEmpty

/-- The transaction comes with metadata and mentions the address. -/
def records (parsePubkey : String → Option Pubkey) (address : Pubkey) (self : SourceTransaction) :
    Bool :=
  self.tx.complete.isSome && self.mentions parsePubkey address

/-- The transaction that the storage builds. -/
def build (keys : HashedKeys) (parsePubkey : String → Option Pubkey) (slot : Nat)
    (self : SourceTransaction) : BuiltTransaction :=
  BuiltTransaction.new keys parsePubkey slot self.tx self.isVote self.index

/-- Only votes are left out, and only when they are not indexed. -/
def kept (keys : HashedKeys) (parsePubkey : String → Option Pubkey) (slot : Nat) (indexVote : Bool)
    (transactions : List SourceTransaction) : List SourceTransaction :=
  if indexVote then transactions
  else transactions.filter fun input => !(input.build keys parsePubkey slot).isVote

/-- The status has the signature, place, error, and memo of the transaction. It is that of a token owner
exactly if the address is no account key, and then it tells whether a balance of the owner changed. -/
structure Describes (parsePubkey : String → Option Pubkey) (address : Pubkey)
    (input : SourceTransaction) (status : SignatureStatus) : Prop where
  signature : status.signature = input.tx.signature
  index : status.transactionIndex = input.index
  err : status.err = input.tx.complete.bind fun complete => complete.err
  memo : status.memo = input.tx.complete.bind fun complete => complete.memo
  owner : status.isTokenOwner = true ↔ address ∉ input.accountKeys
  changed : status.isTokenOwner = true → (status.tokenBalanceChanged = true ↔
    ∃ complete, input.tx.complete = some complete ∧ complete.BalanceChanged parsePubkey address)

end SourceTransaction

namespace BlockWithBinary

/-- The statuses that the block has for the address. -/
def statusesOf (block : BlockWithBinary) (address : Pubkey) : List SignatureStatus :=
  ((block.getSfa address).map SignaturesForAddress.signatures).getD []

/-- The block has one row for each address that a transaction concerns and no other rows; a row has
exactly one status for each such transaction, the newest first. -/
structure ListsAddresses (parsePubkey : String → Option Pubkey)
    (concerns : Pubkey → SourceTransaction → Bool) (transactions : List SourceTransaction)
    (block : BlockWithBinary) : Prop where
  oneRow : (block.sfa.map Prod.fst).Nodup
  rows : ∀ address, (block.getSfa address).isSome = true ↔
    ∃ input ∈ transactions, concerns address input = true
  statuses : ∀ address, List.Forall₂ (SourceTransaction.Describes parsePubkey address)
    (transactions.filter (concerns address)).reverse (block.statusesOf address)
  descends : ∀ address, (block.statusesOf address).Pairwise fun newer older =>
    older.transactionIndex < newer.transactionIndex

end BlockWithBinary

section owners

variable {make : Pubkey → Bool → SignatureForAddress} {directKeys : List Pubkey}
  {changed : List String}

namespace BuiltTransaction

/-- No entry is made for an address without an owner text. -/
theorem ownersSfa_filter_of_forall (places : ∀ address flag, (make address flag).address = address)
    (owners seenOwners : List String) (absent : ∀ owner ∈ owners, parsePubkey owner ≠ some address) :
    (ownersSfa parsePubkey make directKeys changed seenOwners owners).filter
      (fun entry => entry.address = address) = [] := by
  induction owners generalizing seenOwners with
  | nil => rfl
  | cons owner rest ih =>
      obtain ⟨differs, absent⟩ := List.forall_mem_cons.mp absent
      rw [ownersSfa]
      split
      · exact ih _ absent
      · cases parsed : parsePubkey owner with
        | none => exact ih _ absent
        | some ownerPubkey =>
            have other : ownerPubkey ≠ address := by
              rintro rfl
              exact differs parsed
            simp only
            split
            · exact ih _ absent
            · rw [List.filter_cons_of_neg (by simpa [places] using other)]
              exact ih _ absent

/-- One entry is made for the owner text of an address that is no account key. -/
theorem ownersSfa_filter (places : ∀ address flag, (make address flag).address = address)
    (canonical : ∀ first second, parsePubkey first = some address →
      parsePubkey second = some address → first = second)
    {text : String} (parsed : parsePubkey text = some address) (owners seenOwners : List String) :
    (ownersSfa parsePubkey make directKeys changed seenOwners owners).filter
        (fun entry => entry.address = address) =
      if address ∉ directKeys ∧ text ∈ owners ∧ text ∉ seenOwners then
        [make address (text ∈ changed)] else [] := by
  induction owners generalizing seenOwners with
  | nil => simp [ownersSfa]
  | cons owner rest ih =>
      rw [ownersSfa]
      by_cases seen : owner ∈ seenOwners
      · rw [if_pos seen, ih]
        apply if_congr _ rfl rfl
        have later (unseen : text ∉ seenOwners) : text ≠ owner := fun same => unseen (same ▸ seen)
        rw [List.mem_cons]
        tauto
      · rw [if_neg seen]
        by_cases same : owner = text
        · subst same
          have rest_nil : (ownersSfa parsePubkey make directKeys changed (owner :: seenOwners)
              rest).filter (fun entry => entry.address = address) = [] := by
            rw [ih, if_neg]
            simp
          simp only [parsed]
          by_cases direct : address ∈ directKeys
          · rw [if_pos direct, rest_nil, if_neg (by simp [direct])]
          · rw [if_neg direct, List.filter_cons_of_pos (by simp [places]), rest_nil,
              if_pos ⟨direct, List.mem_cons_self, seen⟩]
        · have unchanged : (ownersSfa parsePubkey make directKeys changed (owner :: seenOwners)
              rest).filter (fun entry => entry.address = address) =
              if address ∉ directKeys ∧ text ∈ owner :: rest ∧ text ∉ seenOwners then
                [make address (text ∈ changed)] else [] := by
            rw [ih]
            apply if_congr _ rfl rfl
            have apart : text ≠ owner := fun equal => same equal.symm
            simp [apart]
          cases other : parsePubkey owner with
          | none => exact unchanged
          | some ownerPubkey =>
              have differs : ownerPubkey ≠ address := by
                rintro rfl
                exact same (canonical owner text other parsed)
              simp only
              split
              · exact unchanged
              · rw [List.filter_cons_of_neg (by simpa [places] using differs)]
                exact unchanged

end BuiltTransaction

end owners

section transaction

variable {keys : HashedKeys} {slot : Nat} {input : SourceTransaction}

/-- A list without duplicates has an element at most once. -/
theorem filter_map_address {make : Pubkey → SignatureForAddress}
    (places : ∀ address, (make address).address = address) {addresses : List Pubkey}
    (nodup : addresses.Nodup) (address : Pubkey) :
    (addresses.map make).filter (fun entry => entry.address = address) =
      if address ∈ addresses then [make address] else [] := by
  have single : addresses.filter (fun other => other = address) =
      if address ∈ addresses then [address] else [] := by
    rw [List.filter_eq, List.Nodup.count nodup]
    split <;> rfl
  rw [List.filter_map]
  have test : ((fun entry : SignatureForAddress => decide (entry.address = address)) ∘ make) =
      fun other => decide (other = address) := by
    funext other
    simp [places]
  rw [test, single]
  split <;> rfl

/-- The texts of the owners of changed balances. -/
theorem mem_ownerBalanceChanged {before later : List TransactionTokenBalance} {text : String} :
    text ∈ BuiltTransaction.ownerBalanceChanged before later ↔
      ∃ balance ∈ before ++ later, balance.owner = text ∧
        BuiltTransaction.amountOf before balance.accountIndex ≠
          BuiltTransaction.amountOf later balance.accountIndex := by
  simp only [BuiltTransaction.ownerBalanceChanged, List.mem_map, List.mem_filter, decide_eq_true_eq]
  constructor
  · rintro ⟨balance, ⟨member, differs⟩, same⟩
    exact ⟨balance, member, same, differs⟩
  · rintro ⟨balance, member, same, differs⟩
    exact ⟨balance, ⟨member, differs⟩, same⟩

/-- A transaction with metadata mentions its account keys and the owners of its balances. -/
theorem mentions_iff {complete : VersionedTransactionWithStatusMeta}
    (metadata : input.tx.complete = some complete) :
    input.mentions parsePubkey address = true ↔ address ∈ complete.accountKeys ∨
      ∃ balance ∈ complete.preBalances ++ complete.postBalances,
        parsePubkey balance.owner = some address := by
  unfold SourceTransaction.mentions SourceTransaction.accountKeys
  rw [metadata]
  simp only [Option.elim_some, Option.any_some, Bool.or_eq_true, List.contains_iff_mem,
    Bool.not_eq_true', VersionedTransactionWithStatusMeta.balancesOf]
  apply or_congr_right
  rw [← Bool.not_eq_true, List.isEmpty_iff, List.filter_eq_nil_iff]
  simp

/-- The text of an owner is in the set of changed owners exactly if a balance of it changed. -/
theorem balanceChanged_iff {complete : VersionedTransactionWithStatusMeta} {text : String}
    (canonical : ∀ first second, parsePubkey first = some address →
      parsePubkey second = some address → first = second)
    (parsed : parsePubkey text = some address) :
    text ∈ BuiltTransaction.ownerBalanceChanged complete.preBalances complete.postBalances ↔
      complete.BalanceChanged parsePubkey address := by
  rw [mem_ownerBalanceChanged]
  constructor
  · rintro ⟨balance, member, rfl, differs⟩
    exact ⟨balance, List.mem_filter.mpr ⟨member, decide_eq_true parsed⟩, differs⟩
  · rintro ⟨balance, member, differs⟩
    obtain ⟨inside, owned⟩ := List.mem_filter.mp member
    exact ⟨balance, inside, canonical _ _ (of_decide_eq_true owned) parsed, differs⟩

/-- The entries of a transaction with metadata: its account keys, then its token owners. -/
theorem build_sfa {complete : VersionedTransactionWithStatusMeta}
    (metadata : input.tx.complete = some complete) :
    (input.build keys parsePubkey slot).sfa =
      complete.accountKeys.map (fun address => SignatureForAddress.new keys slot address
        input.tx.signature complete.err complete.memo input.index) ++
      BuiltTransaction.ownersSfa parsePubkey (fun address => SignatureForAddress.newTokenOwner keys
        slot address input.tx.signature complete.err complete.memo input.index) complete.accountKeys
        (BuiltTransaction.ownerBalanceChanged complete.preBalances complete.postBalances) []
        ((complete.preBalances ++ complete.postBalances).map fun balance => balance.owner) := by
  simp only [SourceTransaction.build, BuiltTransaction.new, metadata]
  rfl

/-- A transaction has one entry for each address that it records, whose status describes it, and no
entry for another address. -/
theorem build_filter (keys : HashedKeys) (slot : Nat)
    (canonical : ∀ first second, parsePubkey first = some address →
      parsePubkey second = some address → first = second)
    (distinct : input.accountKeys.Nodup) :
    (input.records parsePubkey address = false ∧
      ((input.build keys parsePubkey slot).sfa.filter fun entry => entry.address = address) = []) ∨
    (input.records parsePubkey address = true ∧ ∃ entry : SignatureForAddress,
      input.Describes parsePubkey address entry.status ∧
      ((input.build keys parsePubkey slot).sfa.filter fun entry => entry.address = address) =
        [entry]) := by
  cases metadata : input.tx.complete with
  | none =>
      refine Or.inl ⟨by simp [SourceTransaction.records, metadata], ?_⟩
      simp [SourceTransaction.build, BuiltTransaction.new, metadata]
  | some complete =>
      have keysEq : input.accountKeys = complete.accountKeys := by
        rw [SourceTransaction.accountKeys, metadata]
        rfl
      have recorded : input.records parsePubkey address = true ↔ address ∈ complete.accountKeys ∨
          ∃ balance ∈ complete.preBalances ++ complete.postBalances,
            parsePubkey balance.owner = some address := by
        rw [← mentions_iff metadata, SourceTransaction.records, metadata]
        simp
      have err : complete.err = input.tx.complete.bind fun complete => complete.err := by
        rw [metadata]
        rfl
      have memo : complete.memo = input.tx.complete.bind fun complete => complete.memo := by
        rw [metadata]
        rfl
      rw [keysEq] at distinct
      rw [build_sfa metadata, List.filter_append, filter_map_address (fun _ => rfl) distinct]
      by_cases owned : ∃ balance ∈ complete.preBalances ++ complete.postBalances,
          parsePubkey balance.owner = some address
      · obtain ⟨balance, member, parsed⟩ := owned
        rw [BuiltTransaction.ownersSfa_filter (fun _ _ => rfl) canonical parsed]
        refine Or.inr ⟨recorded.mpr (Or.inr ⟨balance, member, parsed⟩), ?_⟩
        by_cases direct : address ∈ complete.accountKeys
        · rw [if_pos direct, if_neg (by simp [direct])]
          refine ⟨_, ⟨rfl, rfl, ?_, ?_, ?_, ?_⟩, rfl⟩
          · exact err
          · exact memo
          · simp [SignatureForAddress.status, SignatureForAddress.new, keysEq, direct]
          · rintro ⟨⟩
        · have listed : balance.owner ∈
              (complete.preBalances ++ complete.postBalances).map fun balance => balance.owner :=
            List.mem_map_of_mem member
          rw [if_neg direct, if_pos ⟨direct, listed, List.not_mem_nil⟩]
          refine ⟨_, ⟨rfl, rfl, ?_, ?_, ?_, ?_⟩, rfl⟩
          · exact err
          · exact memo
          · simp [SignatureForAddress.status, SignatureForAddress.newTokenOwner, keysEq, direct]
          · intro _
            simp only [SignatureForAddress.status, SignatureForAddress.newTokenOwner,
              decide_eq_true_eq, balanceChanged_iff canonical parsed, metadata, Option.some.injEq,
              exists_eq_left']
      · have absent : ∀ owner ∈ (complete.preBalances ++ complete.postBalances).map
            (fun balance => balance.owner), parsePubkey owner ≠ some address := by
          intro owner listed parsed
          obtain ⟨balance, member, rfl⟩ := List.mem_map.mp listed
          exact owned ⟨balance, member, parsed⟩
        rw [BuiltTransaction.ownersSfa_filter_of_forall (fun _ _ => rfl) _ _ absent]
        by_cases direct : address ∈ complete.accountKeys
        · rw [if_pos direct]
          refine Or.inr ⟨recorded.mpr (Or.inl direct), _, ⟨rfl, rfl, ?_, ?_, ?_, ?_⟩, rfl⟩
          · exact err
          · exact memo
          · simp [SignatureForAddress.status, SignatureForAddress.new, keysEq, direct]
          · rintro ⟨⟩
        · rw [if_neg direct]
          refine Or.inl ⟨?_, rfl⟩
          rw [← Bool.not_eq_true, recorded, not_or]
          exact ⟨direct, owned⟩

end transaction

section rows

namespace BlockWithBinary

/-- A change of the rows of one address changes the lookup of that address only. -/
theorem lookup_map_row (rows : List (Pubkey × SignaturesForAddress)) (place : Pubkey)
    (change : SignaturesForAddress → SignaturesForAddress) (address : Pubkey) :
    (rows.map fun entry => if entry.1 = place then (entry.1, change entry.2) else entry).lookup address =
      (rows.lookup address).map (if address = place then change else id) := by
  induction rows with
  | nil => rfl
  | cons entry rest ih =>
      obtain ⟨key, row⟩ := entry
      rw [List.map_cons]
      by_cases found : address = key
      · subst found
        by_cases here : address = place <;> simp [here]
      · have missed : (address == key) = false := by simpa using found
        by_cases here : key = place
        · rw [if_pos here]
          simp only [List.lookup_cons, missed, ih]
        · rw [if_neg here]
          simp only [List.lookup_cons, missed, ih]

/-- The entry goes into the row of its address. -/
theorem lookup_mergeSfa (rows : List (Pubkey × SignaturesForAddress)) (entry : SignatureForAddress)
    (address : Pubkey) :
    (mergeSfa rows entry).lookup address = if address = entry.address then
      some (((rows.lookup address).map fun row => row.merge entry).getD
        (SignaturesForAddress.new entry)) else rows.lookup address := by
  unfold mergeSfa
  cases found : rows.lookup entry.address with
  | some row =>
      rw [Option.isSome_some, if_pos rfl, lookup_map_row rows entry.address fun row => row.merge entry]
      by_cases same : address = entry.address
      · subst same
        simp [found]
      · simp [same]
  | none =>
      rw [if_neg (by simp), List.lookup_append]
      by_cases same : address = entry.address
      · subst same
        simp [found]
      · have missed : (address == entry.address) = false := by simpa using same
        simp [same, List.lookup_cons, missed]

/-- The entry keeps the addresses of the rows apart. -/
theorem nodup_mergeSfa {rows : List (Pubkey × SignaturesForAddress)}
    (nodup : (rows.map Prod.fst).Nodup) (entry : SignatureForAddress) :
    ((mergeSfa rows entry).map Prod.fst).Nodup := by
  unfold mergeSfa
  split
  · have same : (rows.map fun row => if row.1 = entry.address then (row.1, row.2.merge entry)
        else row).map Prod.fst = rows.map Prod.fst := by
      rw [List.map_map]
      apply List.map_congr_left
      intro row _
      simp only [Function.comp]
      split <;> rfl
    rwa [same]
  · rename_i missing
    rw [Bool.not_eq_true, Option.isSome_eq_false_iff, Option.isNone_iff_eq_none,
      List.lookup_eq_none_iff] at missing
    rw [List.map_append, List.nodup_append]
    refine ⟨nodup, by simp, ?_⟩
    intro place known other single same
    obtain ⟨row, member, rfl⟩ := List.mem_map.mp known
    rw [List.map_singleton, List.mem_singleton] at single
    have differs := missing row member
    rw [same, single] at differs
    simp at differs

/-- The rows that a list of entries gives. -/
def rowsOf (entries : List SignatureForAddress) : List (Pubkey × SignaturesForAddress) :=
  entries.foldl mergeSfa []

theorem rowsOf_append (entries : List SignatureForAddress) (entry : SignatureForAddress) :
    rowsOf (entries ++ [entry]) = mergeSfa (rowsOf entries) entry := by
  simp [rowsOf]

theorem nodup_rowsOf (entries : List SignatureForAddress) :
    ((rowsOf entries).map Prod.fst).Nodup := by
  induction entries using List.reverseRecOn with
  | nil => exact List.nodup_nil
  | append_singleton entries entry ih =>
      rw [rowsOf_append]
      exact nodup_mergeSfa ih entry

/-- A row has the statuses of the entries of its address in their order. -/
theorem lookup_rowsOf (entries : List SignatureForAddress) (address : Pubkey) :
    (((rowsOf entries).lookup address).map SignaturesForAddress.signatures) =
      if (entries.filter fun entry => entry.address = address) = [] then none
      else some ((entries.filter fun entry => entry.address = address).map
        SignatureForAddress.status) := by
  induction entries using List.reverseRecOn with
  | nil => rfl
  | append_singleton entries entry ih =>
      rw [rowsOf_append, lookup_mergeSfa, List.filter_append]
      by_cases same : address = entry.address
      · subst same
        rw [if_pos rfl, List.filter_cons_of_pos (by simp), List.filter_nil, if_neg (by simp)]
        cases found : (rowsOf entries).lookup entry.address with
        | none =>
            rw [found, Option.map_none] at ih
            split at ih
            · rename_i empty
              rw [empty]
              rfl
            · cases ih
        | some row =>
            rw [found, Option.map_some] at ih
            split at ih
            · cases ih
            · simp [SignaturesForAddress.merge, Option.some.inj ih]
      · rw [if_neg same, List.filter_cons_of_neg (by simpa using fun equal => same equal.symm),
          List.filter_nil, List.append_nil, ih]

section block

variable {keys : HashedKeys} {slot : Nat}

/-- The entries of the address belong one by one to the transactions that record it. -/
theorem entries_describe (keys : HashedKeys) (slot : Nat)
    (canonical : ∀ first second address, parsePubkey first = some address →
      parsePubkey second = some address → first = second)
    (address : Pubkey) {inputs : List SourceTransaction}
    (distinct : ∀ input ∈ inputs, input.accountKeys.Nodup) :
    List.Forall₂ (SourceTransaction.Describes parsePubkey address)
      (inputs.filter (SourceTransaction.records parsePubkey address))
      (((inputs.flatMap fun input => (input.build keys parsePubkey slot).sfa).filter fun entry =>
        entry.address = address).map SignatureForAddress.status) := by
  induction inputs with
  | nil => exact List.Forall₂.nil
  | cons input rest ih =>
      obtain ⟨nodup, distinct⟩ := List.forall_mem_cons.mp distinct
      rw [List.flatMap_cons, List.filter_append, List.map_append]
      obtain ⟨recorded, none⟩ | ⟨recorded, entry, describes, one⟩ :=
        build_filter keys slot (fun first second => canonical first second address) nodup
      · rw [none, List.filter_cons_of_neg (by simp [recorded])]
        exact ih distinct
      · rw [one, List.filter_cons_of_pos recorded]
        exact List.Forall₂.cons describes (ih distinct)

/-- The rows of a block come from its kept transactions, the newest first. -/
theorem new_sfa (keys : HashedKeys) (parsePubkey : String → Option Pubkey) (slot : Nat)
    (previousBlockhash blockhash : String) (parentSlot : Nat)
    (inputs : List SourceTransaction) (rewards : List Reward) (numPartitions : Option Nat)
    (blockTime : Option UnixTimestamp) (blockHeight : Option Nat) (indexVote : Bool) :
    (new previousBlockhash blockhash parentSlot
      (inputs.map fun input => input.build keys parsePubkey slot) rewards numPartitions blockTime
      blockHeight indexVote).sfa =
      rowsOf ((SourceTransaction.kept keys parsePubkey slot indexVote inputs).reverse.flatMap
        fun input => (input.build keys parsePubkey slot).sfa) := by
  unfold SourceTransaction.kept
  cases indexVote with
  | true => simp [new, rowsOf, ← List.map_reverse, List.flatMap_map]
  | false => simp [new, rowsOf, List.filter_map, Function.comp_def, ← List.map_reverse,
      List.flatMap_map]

/-- The kept transactions are some of the block's in their order. -/
theorem kept_sublist (keys : HashedKeys) (parsePubkey : String → Option Pubkey) (slot : Nat)
    (indexVote : Bool) (inputs : List SourceTransaction) :
    (SourceTransaction.kept keys parsePubkey slot indexVote inputs).Sublist inputs := by
  unfold SourceTransaction.kept
  split
  · exact List.Sublist.refl _
  · exact List.filter_sublist

variable {block : BlockWithBinary} {entries : List SignatureForAddress}

/-- The statuses of an address are those of its entries. -/
theorem statusesOf_eq (sfa : block.sfa = rowsOf entries) (address : Pubkey) :
    block.statusesOf address = (entries.filter fun entry => entry.address = address).map
      SignatureForAddress.status := by
  unfold statusesOf getSfa
  rw [sfa, lookup_rowsOf]
  split
  · rename_i empty
    rw [empty]
    rfl
  · rfl

/-- An address has a row exactly if it has a status. -/
theorem isSome_getSfa_iff (sfa : block.sfa = rowsOf entries) (address : Pubkey) :
    (block.getSfa address).isSome = true ↔ block.statusesOf address ≠ [] := by
  have row := lookup_rowsOf entries address
  rw [statusesOf_eq sfa, getSfa, sfa, ← Option.isSome_map (f := SignaturesForAddress.signatures), row]
  split
  · rename_i empty
    rw [empty]
    simp
  · rename_i nonempty
    exact iff_of_true rfl fun empty => nonempty (List.map_eq_nil_iff.mp empty)

/-- Statuses that describe ascending transactions from the last one on descend. -/
theorem descends_of_describes {inputs : List SourceTransaction} {statuses : List SignatureStatus}
    {address : Pubkey} (ascending : inputs.Pairwise fun first second => first.index < second.index)
    (matched : List.Forall₂ (SourceTransaction.Describes parsePubkey address) inputs.reverse statuses) :
    statuses.Pairwise fun newer older => older.transactionIndex < newer.transactionIndex := by
  have places : statuses.map SignatureStatus.transactionIndex =
      inputs.reverse.map SourceTransaction.index := by
    symm
    rw [← List.forall₂_eq_eq_eq, List.forall₂_map_left_iff, List.forall₂_map_right_iff]
    exact matched.imp fun _ _ describes => describes.index.symm
  rw [← List.pairwise_map (f := SignatureStatus.transactionIndex) (R := fun newer older => older < newer),
    places, List.map_reverse, List.pairwise_reverse, List.pairwise_map]
  exact ascending

/-- A block has exactly one status, the newest first, for each kept transaction with metadata that
mentions the address, and it has no other rows. -/
theorem new_listsAddresses (keys : HashedKeys) (parsePubkey : String → Option Pubkey)
    (canonical : ∀ first second address, parsePubkey first = some address →
      parsePubkey second = some address → first = second)
    (slot : Nat) (inputs : List SourceTransaction)
    (ascending : inputs.Pairwise fun first second => first.index < second.index)
    (distinct : ∀ input ∈ inputs, input.accountKeys.Nodup)
    (previousBlockhash blockhash : String) (parentSlot : Nat) (rewards : List Reward)
    (numPartitions : Option Nat) (blockTime : Option UnixTimestamp) (blockHeight : Option Nat)
    (indexVote : Bool) :
    ListsAddresses parsePubkey (SourceTransaction.records parsePubkey)
      (SourceTransaction.kept keys parsePubkey slot indexVote inputs)
      (new previousBlockhash blockhash parentSlot
        (inputs.map fun input => input.build keys parsePubkey slot) rewards numPartitions blockTime
        blockHeight indexVote) := by
  have part := kept_sublist keys parsePubkey slot indexVote inputs
  have sfa := new_sfa keys parsePubkey slot previousBlockhash blockhash parentSlot inputs rewards
    numPartitions blockTime blockHeight indexVote
  generalize SourceTransaction.kept keys parsePubkey slot indexVote inputs = kept at part sfa
  generalize new previousBlockhash blockhash parentSlot _ rewards numPartitions blockTime blockHeight
    indexVote = block at sfa
  have matched (address : Pubkey) : List.Forall₂ (SourceTransaction.Describes parsePubkey address)
      (kept.filter (SourceTransaction.records parsePubkey address)).reverse
      (block.statusesOf address) := by
    rw [statusesOf_eq sfa, ← List.filter_reverse]
    apply entries_describe keys slot canonical
    exact fun input member => distinct input (part.subset (List.mem_reverse.mp member))
  constructor
  · rw [sfa]
    exact nodup_rowsOf _
  · intro address
    rw [isSome_getSfa_iff sfa, ← List.length_pos_iff, ← (matched address).length_eq,
      List.length_reverse, List.length_pos_iff_exists_mem]
    simp only [List.mem_filter]
  · exact matched
  · intro address
    exact descends_of_describes ((ascending.sublist part).sublist List.filter_sublist) (matched address)

/-- Keys that keep the numbers of signatures and addresses. -/
def plainKeys : HashedKeys where
  signatureKey signature := BitVec.ofNat 64 signature.value
  addressHash address := BitVec.ofNat 64 address.value

/-- This text spells the address of zero bytes. -/
def zeroAddress : String := "11111111111111111111111111111111"

def parseZero (text : String) : Option Pubkey := if text = zeroAddress then some ⟨0⟩ else none

/-- The zero address owns a balance that the first transaction changes; the second one comes without
metadata. -/
def sampleInputs : List SourceTransaction :=
  [⟨⟨⟨5⟩, [1], some ⟨[⟨1⟩, ⟨2⟩], none, none, some [⟨1, zeroAddress, "5"⟩], some [⟨1, zeroAddress, "7"⟩],
      false⟩⟩, [⟨1⟩, ⟨2⟩], none, 0⟩,
    ⟨⟨⟨6⟩, [2], none⟩, [⟨1⟩], none, 1⟩]

def sampleBlock : BlockWithBinary :=
  new "" "" 0 (sampleInputs.map fun input => input.build plainKeys parseZero 9) [] none none none true

/-- The rows of a block with a token owner and a transaction without metadata. -/
theorem new_listsAddresses_owner : sampleBlock.ListsAddresses parseZero
    (SourceTransaction.records parseZero)
    (SourceTransaction.kept plainKeys parseZero 9 true sampleInputs) := by
  apply new_listsAddresses plainKeys parseZero _ 9 sampleInputs (by decide) (by decide)
  intro first second address parsed again
  unfold parseZero at parsed again
  split at parsed
  · split at again
    · rename_i isZero alsoZero
      rw [isZero, alsoZero]
    · cases again
  · cases parsed

/-- The block has no status for the account key of a transaction without metadata. -/
theorem new_listsAddresses_false : ¬ sampleBlock.ListsAddresses parseZero
    (SourceTransaction.mentions parseZero)
    (SourceTransaction.kept plainKeys parseZero 9 true sampleInputs) := by
  intro lists
  have counts := (lists.statuses ⟨1⟩).length_eq
  revert counts
  decide +kernel

end block

end BlockWithBinary

end rows

end Alpamayo
