import Alpamayo.Proof.IndexedStore

/-!
This file shows that the three index families describe exactly the live blocks, and that a record leads to
the bytes of its transaction.
-/

namespace Alpamayo

namespace Store

variable {contents : List StoredBlock} {involved : Involved} {reading : StorageFilesRead}
  {pushed live : Nat → Option BlockWithBinary} {self : Store} {slot : Nat} {added : BlockWithBinary}

/-- The index records are those of the live blocks, and the record of a signature leads to the bytes of
its transaction. -/
structure IndexesExactly (store : Store) (involved : Involved) (reading : StorageFilesRead)
    (pushed : Nat → Option BlockWithBinary) : Prop where
  signature : ∀ signature ∈ involved.signatures,
    (store.db.transactionIndex.get (involved.keys.signatureKey signature)).isSome = true ↔
      ∃ slot block, store.Live pushed slot block ∧ block.getTransaction signature ≠ none
  transaction : ∀ signature ∈ involved.signatures, ∀ index,
    store.db.transactionIndex.get (involved.keys.signatureKey signature) = some index →
      ∃ block found location, store.Live pushed index.slot block ∧
        block.getTransaction signature = some found ∧
        store.blocks.toRead.getBlockLocation index.slot = .found location ∧
        reading.read store.disk location.storageId (location.offset + index.offset) index.size =
          .ok found.protobuf
  address : ∀ address ∈ involved.addresses, ∀ slot statuses,
    store.db.sfaIndex.get (SfaKey.concat (involved.keys.addressHash address) slot) = some statuses ↔
      ∃ block row, store.Live pushed slot block ∧ block.getSfa address = some row ∧
        row.signatures = statuses
  extra : ∀ slot, (store.db.slotExtraIndex.get slot).isSome = true ↔
    ∃ index, (store.blocks.blocks.cells index).isLive = true ∧
      (store.blocks.blocks.cells index).slot = slot

/-- A live block is found at its slot. -/
theorem Indexed.location (indexed : Indexed involved reading pushed none live self contents)
    (known : live slot = some added) : ∃ location,
      self.blocks.toRead.getBlockLocation slot = .found location ∧
        location.size = added.protobuf.length ∧
        reading.read self.disk location.storageId location.offset location.size =
          .ok added.protobuf := by
  obtain ⟨-, isPending | ⟨cell, inside, rfl, alive⟩⟩ := indexed.only slot added known
  · cases isPending
  · obtain ⟨block, isLive, size, read⟩ := indexed.stored cell inside alive
    rw [known] at isLive
    cases isLive
    exact ⟨cell, indexed.spans.found_iff.mpr ⟨inside, alive, rfl⟩, size, read⟩

/-- The record of a signature leads to the bytes of its transaction in a live block. -/
theorem Indexed.transaction (indexed : Indexed involved reading pushed none live self contents)
    {signature : Signature} (member : signature ∈ involved.signatures) {index : TransactionIndexValue}
    (found : self.db.transactionIndex.get (involved.keys.signatureKey signature) = some index) :
    ∃ block tx location, self.Live pushed index.slot block ∧
      block.getTransaction signature = some tx ∧
      self.blocks.toRead.getBlockLocation index.slot = .found location ∧
      reading.read self.disk location.storageId (location.offset + index.offset) index.size =
        .ok tx.protobuf := by
  obtain ⟨block, record, known, isRecord, isIndex⟩ := (indexed.describes.transactions _ _).mp found
  obtain ⟨transactions, built, within, -⟩ := indexed.built _ _ known
  obtain ⟨location, isLocation, size, read⟩ := indexed.location known
  obtain ⟨missing, -⟩ | ⟨other, tx, isOther, isTx, inside, slice⟩ :=
    built.record_cases involved.signatureKeys within member
  · rw [missing] at isRecord
    cases isRecord
  · rw [isRecord] at isOther
    cases isOther
    refine ⟨block, tx, location, indexed.live_iff.mp known, isTx, isLocation, ?_⟩
    rw [← slice]
    have offset : index.offset = record.offset := by rw [← isIndex]; rfl
    have length : index.size = record.size := by rw [← isIndex]; rfl
    rw [offset, length]
    exact StorageFilesRead.read_slice read (by omega)

/-- A signature has a record exactly if it is in a live block. -/
theorem Indexed.signature_iff (indexed : Indexed involved reading pushed none live self contents)
    {signature : Signature} (member : signature ∈ involved.signatures) :
    (self.db.transactionIndex.get (involved.keys.signatureKey signature)).isSome = true ↔
      ∃ slot block, self.Live pushed slot block ∧ block.getTransaction signature ≠ none := by
  constructor
  · intro isSome
    obtain ⟨index, found⟩ := Option.isSome_iff_exists.mp isSome
    obtain ⟨block, tx, -, isLive, isTx, -⟩ := indexed.transaction member found
    exact ⟨index.slot, block, isLive, by rw [isTx]; rintro ⟨⟩⟩
  · rintro ⟨slot, block, isLive, contained⟩
    have known := indexed.live_iff.mpr isLive
    obtain ⟨transactions, built, within, -⟩ := indexed.built _ _ known
    obtain ⟨-, missing⟩ | ⟨record, tx, isRecord, -⟩ :=
      built.record_cases involved.signatureKeys within member
    · exact absurd missing contained
    · have found := (indexed.describes.transactions _ (record.value slot)).mpr
        ⟨block, record, known, isRecord, rfl⟩
      rw [found]
      rfl

/-- The statuses of an address at a slot are those of the live block. -/
theorem Indexed.address_iff (indexed : Indexed involved reading pushed none live self contents)
    {address : Pubkey} (member : address ∈ involved.addresses) (statuses : List SignatureStatus) :
    self.db.sfaIndex.get (SfaKey.concat (involved.keys.addressHash address) slot) = some statuses ↔
      ∃ block row, self.Live pushed slot block ∧ block.getSfa address = some row ∧
        row.signatures = statuses := by
  rw [indexed.describes.sfa]
  constructor
  · rintro ⟨place, block, known, found⟩
    obtain ⟨transactions, built, -, within⟩ := indexed.built _ _ known
    obtain ⟨hash, -, same⟩ := built.rowsOf.statusesAt found
    obtain ⟨-, rfl⟩ := SfaKey.concat_inj.mp same
    rw [built.statusesAt_eq involved.addressHashes within member] at found
    obtain ⟨row, isRow, isStatuses⟩ := Option.map_eq_some_iff.mp found
    exact ⟨block, row, indexed.live_iff.mp known, isRow, isStatuses⟩
  · rintro ⟨block, row, isLive, isRow, rfl⟩
    have known := indexed.live_iff.mpr isLive
    obtain ⟨transactions, built, -, within⟩ := indexed.built _ _ known
    refine ⟨slot, block, known, ?_⟩
    rw [built.statusesAt_eq involved.addressHashes within member, isRow]
    rfl

/-- The slots with extra records are those of the live cells. -/
theorem Indexed.extra_iff (indexed : Indexed involved reading pushed none live self contents) :
    (self.db.slotExtraIndex.get slot).isSome = true ↔
      ∃ index, (self.blocks.blocks.cells index).isLive = true ∧
        (self.blocks.blocks.cells index).slot = slot := by
  rw [indexed.describes.extra, Option.isSome_map]
  constructor
  · intro isSome
    obtain ⟨block, known⟩ := Option.isSome_iff_exists.mp isSome
    exact (indexed.live_iff.mp known).2
  · rintro ⟨index, alive, rfl⟩
    rw [StoredBlock.isLive, Bool.and_eq_true, Bool.not_eq_true'] at alive
    have inside := (indexed.spans.mem_iff alive.1).mpr ⟨index, rfl⟩
    obtain ⟨block, known, -⟩ := indexed.stored _ inside alive.2
    rw [known]
    rfl

/-- From an empty database whose readers open the files of the writer, the index records are those of the
live blocks after every run whose pushes spare the signatures of the blocks they have yet to remove. -/
theorem stores_indexesExactly (startup : Startup) (empty : startup.db = Rocksdb.empty)
    (opens : startup.reading.Opens startup.files) (involved : Involved) (store : Store)
    (pushed : Nat → Option BlockWithBinary)
    (stores : Stores involved SparesSignatures startup.store store pushed) :
    store.IndexesExactly involved startup.reading pushed := by
  obtain ⟨live, contents, indexed⟩ := stores.indexed (indexed_startup startup empty opens)
  exact {
    signature := fun signature member => indexed.signature_iff member
    transaction := fun signature member index found => indexed.transaction member found
    address := fun address member slot statuses => indexed.address_iff member statuses
    extra := fun slot => indexed.extra_iff }

end Store

/-- The first signatures and addresses have keys of their own. -/
def lowInvolved : Involved where
  keys := Chain.lowKeys
  parsePubkey := fun _ => none
  signatures := {signature | signature.value ≤ 7}
  addresses := {address | address.value ≤ 7}
  signatureKeys := fun _ low _ low' same => congrArg Signature.mk (Chain.ofNat_inj_of_le low low' same)
  addressHashes := fun _ low _ low' same => congrArg Pubkey.mk (Chain.ofNat_inj_of_le low low' same)

/-- A block of one transaction has its signature only. -/
theorem BlockWithBinary.BuiltFrom.signature_eq {keys : HashedKeys}
    {parsePubkey : String → Option Pubkey} {slot : Nat} {block : BlockWithBinary}
    {transaction : BuiltTransaction} {signature : Signature}
    (built : block.BuiltFrom keys parsePubkey slot [transaction])
    (contained : block.getTransaction signature ≠ none) : signature = transaction.signature := by
  by_contra other
  apply contained
  rw [built.getTransaction_eq, Option.map_eq_none_iff, List.find?_eq_none]
  intro tx member same
  rw [List.mem_singleton.mp (List.mem_reverse.mp member)] at same
  exact other (of_decide_eq_true same).symm

/-- A block of the plain chain has one transaction and one address. -/
theorem lowInvolved_built {slot : Nat} (low : slot ≤ 7) :
    lowInvolved.Built slot (Chain.plainChainBlock slot) := by
  refine ⟨_, Chain.plainChain.built slot (Chain.plainChainBlock slot) rfl, ?_, ?_⟩
  · intro tx member
    rw [List.mem_singleton.mp member]
    exact low
  · intro row member
    rw [List.mem_singleton.mp member]
    exact Nat.le_of_ble_eq_true rfl

/-- The transaction of slot 5 once more, in another slot. -/
def repeatedTransaction (slot : Nat) : BuiltTransaction :=
  BuiltTransaction.new Chain.lowKeys (fun _ => none) slot
    ⟨⟨5⟩, [5], some ⟨[⟨1⟩], none, none, none, none, false⟩⟩ (some false) 0

/-- The block of a slot has the transaction of slot 5. -/
def repeatedBlock (slot : Nat) : BlockWithBinary :=
  BlockWithBinary.new "" "" 0 [repeatedTransaction slot] [] none none (some slot) true

/-- The block is built from its transaction. -/
theorem repeatedBlock_builtFrom (slot : Nat) :
    (repeatedBlock slot).BuiltFrom Chain.lowKeys (fun _ => none) slot [repeatedTransaction slot] := by
  refine ⟨fun tx member => ?_, _, _, _, _, _, _, _, _, true, rfl, rfl⟩
  rw [List.mem_singleton.mp member]
  exact ⟨_, _, _, rfl⟩

/-- The block has one transaction and one address. -/
theorem lowInvolved_repeated (slot : Nat) : lowInvolved.Built slot (repeatedBlock slot) := by
  refine ⟨_, repeatedBlock_builtFrom slot, ?_, ?_⟩
  · intro tx member
    rw [List.mem_singleton.mp member]
    exact show 5 ≤ 7 by decide
  · intro row member
    rw [List.mem_singleton.mp member]
    exact Nat.le_of_ble_eq_true rfl

namespace Store

/-- Live blocks in places of their own do not overlap. -/
theorem liveDisjoint_of_cells {store : Store} (apart : ∀ first second,
    (store.blocks.blocks.cells first).isLive = true →
    (store.blocks.blocks.cells second).isLive = true →
    (store.blocks.blocks.cells first).slot ≠ (store.blocks.blocks.cells second).slot →
    (store.blocks.blocks.cells first).extent.Disjoint (store.blocks.blocks.cells second).extent) :
    store.LiveDisjoint :=
  fun first second alive alive' different _ _ _ => apart first second alive alive' different

/-- Each pushed block has at most the signature of its slot. -/
def OneSignature (signatureOf : Nat → Signature) (pushed : Nat → Option BlockWithBinary) : Prop :=
  ∀ slot block, pushed slot = some block → ∀ signature, block.getTransaction signature ≠ none →
    signature = signatureOf slot

variable {pushed : Nat → Option BlockWithBinary} {self : Store} {slot : Nat} {added : BlockWithBinary}
  {signatureOf : Nat → Signature}

/-- A push adds the signature of its slot. -/
theorem OneSignature.push (one : OneSignature signatureOf pushed)
    (only : ∀ signature, added.getTransaction signature ≠ none → signature = signatureOf slot) :
    OneSignature signatureOf (Function.update pushed slot (some added)) := by
  intro other block known signature contained
  rw [Function.update_apply] at known
  split at known
  · rename_i here
    cases known
    rw [here]
    exact only signature contained
  · exact one other block known signature contained

/-- Live slots with signatures of their own share none. -/
theorem OneSignature.unshared (one : OneSignature signatureOf pushed)
    (apart : ∀ first second, (self.blocks.blocks.cells first).isLive = true →
      (self.blocks.blocks.cells second).isLive = true →
      (self.blocks.blocks.cells first).slot ≠ (self.blocks.blocks.cells second).slot →
      signatureOf (self.blocks.blocks.cells first).slot ≠
        signatureOf (self.blocks.blocks.cells second).slot) :
    self.Unshared pushed := by
  rintro _ _ block found different ⟨known, first, alive, rfl⟩ ⟨known', second, alive', rfl⟩
    signature contained
  by_contra shared
  have same := one _ block known signature contained
  exact apart first second alive alive' different (same.symm.trans (one _ found known' signature shared))

/-- A block spares the live slots with other signatures. -/
theorem OneSignature.spares (one : OneSignature signatureOf pushed) {turn : Nat}
    (only : ∀ signature, added.getTransaction signature ≠ none → signature = signatureOf slot)
    (apart : ∀ index, (self.blocks.blocks.cells index).isLive = true →
      (self.blocks.blocks.cells self.blocks.blocks.tail).slot + self.removedFirst turn ≤
        (self.blocks.blocks.cells index).slot →
      signatureOf slot ≠ signatureOf (self.blocks.blocks.cells index).slot) :
    self.Spares pushed turn added := by
  rintro _ found ⟨known, index, alive, rfl⟩ remains signature contained
  by_contra shared
  have same := only signature contained
  exact apart index alive remains (same.symm.trans (one _ found known signature shared))

/-- Slot 7 has the signature of slot 5 again. -/
def repeatedSignature (slot : Nat) : Signature := if slot = 7 then ⟨5⟩ else ⟨slot⟩

/-- The block of a slot below 7 has the signature of its slot. -/
theorem plainChainBlock_signature {slot : Nat} (low : slot < 7) {signature : Signature}
    (contained : (Chain.plainChainBlock slot).getTransaction signature ≠ none) :
    signature = repeatedSignature slot := by
  have built := Chain.plainChain.built slot (Chain.plainChainBlock slot) rfl
  rw [built.signature_eq contained, repeatedSignature, if_neg low.ne]
  rfl

/-- The first push from an empty store stores the block of slot 5. -/
theorem stores_first {allowed : Store → (Nat → Option BlockWithBinary) → StoreCall → Prop}
    {startup : Startup}
    (permitted : allowed startup.store (fun _ => none)
      (.pushBlockFront 0 5 (some (Chain.plainChainBlock 5))))
    (success : (startup.store.pushBlockFront 0 5 (some (Chain.plainChainBlock 5))).1 = .ok ())
    (unshared : (startup.store.pushBlockFront 0 5 (some (Chain.plainChainBlock 5))).2.Unshared
      (Function.update (fun _ => none) 5 (some (Chain.plainChainBlock 5))))
    (disjoint : (startup.store.pushBlockFront 0 5 (some (Chain.plainChainBlock 5))).2.LiveDisjoint) :
    Stores lowInvolved allowed startup.store
      (startup.store.pushBlockFront 0 5 (some (Chain.plainChainBlock 5))).2
      (Function.update (fun _ => none) 5 (some (Chain.plainChainBlock 5))) :=
  Stores.start.call (.pushBlockFront 0 5 (some (Chain.plainChainBlock 5))) permitted
    (by rintro added ⟨⟩; exact lowInvolved_built (by decide)) (Prod.ext success rfl) unshared disjoint

/-- A first block spares all signatures. -/
theorem sparesSignatures_first (store : Store) (turn slot : Nat) (block : Option BlockWithBinary) :
    store.SparesSignatures (fun _ => none) (.pushBlockFront turn slot block) := by
  rintro added - other found ⟨⟨⟩, -⟩

/-- The block of slot 5 has the signature of its slot. -/
theorem first_oneSignature : OneSignature repeatedSignature
    (Function.update (fun _ => none) 5 (some (Chain.plainChainBlock 5))) :=
  OneSignature.push (by rintro _ _ ⟨⟩) fun _ => plainChainBlock_signature (by decide)

/-- The store with the blocks of two slots, in a file without room for a third one. -/
def twoBlocks : Store :=
  ((Startup.threeCells.store.pushBlockFront 0 5 (some (Chain.plainChainBlock 5))).2.pushBlockFront 0 6
    (some (Chain.plainChainBlock 6))).2

/-- The blocks of slots 5 and 6. -/
def twoPushed : Nat → Option BlockWithBinary :=
  Function.update (Function.update (fun _ => none) 5 (some (Chain.plainChainBlock 5))) 6
    (some (Chain.plainChainBlock 6))

/-- Slots 5 and 6 have signatures of their own. -/
theorem twoPushed_oneSignature : OneSignature repeatedSignature twoPushed :=
  first_oneSignature.push fun _ => plainChainBlock_signature (by decide)

/-- Two pushes store the blocks of slots 5 and 6. -/
theorem stores_two {allowed : Store → (Nat → Option BlockWithBinary) → StoreCall → Prop}
    (permitted : ∀ store pushed call, store.SparesSignatures pushed call → allowed store pushed call) :
    Stores lowInvolved allowed Startup.threeCells.store twoBlocks twoPushed := by
  have one : Stores lowInvolved allowed Startup.threeCells.store _ _ :=
    stores_first (permitted _ _ _ (sparesSignatures_first _ _ _ _)) (by decide +kernel)
      (first_oneSignature.unshared (by decide +kernel)) (liveDisjoint_of_cells (by decide +kernel))
  exact one.call (.pushBlockFront 0 6 (some (Chain.plainChainBlock 6)))
    (permitted _ _ _ (by
      rintro added ⟨⟩
      exact first_oneSignature.spares (fun _ => plainChainBlock_signature (show 6 < 7 by decide))
        (by decide +kernel)))
    (by rintro added ⟨⟩; exact lowInvolved_built (by decide))
    (Prod.ext (by decide +kernel) rfl) (twoPushed_oneSignature.unshared (by decide +kernel))
    (liveDisjoint_of_cells (by decide +kernel))

/-- The block of slot 7 has the signature of slot 5. -/
theorem repeatedBlock_signature {signature : Signature}
    (contained : (repeatedBlock 7).getTransaction signature ≠ none) :
    signature = repeatedSignature 7 :=
  (repeatedBlock_builtFrom 7).signature_eq contained

/-- The blocks of slots 6 and 7 have signatures of their own. -/
theorem repeated_oneSignature : OneSignature repeatedSignature
    (Function.update twoPushed 7 (some (repeatedBlock 7))) :=
  twoPushed_oneSignature.push fun _ => repeatedBlock_signature

/-- The block of slot 7 has its index records after the block of slot 5 with its signature is removed. -/
theorem stores_indexesExactly_repeated :
    ((twoBlocks.pushBlockFront 1 7 (some (repeatedBlock 7))).2.db.transactionIndex.get
      (lowInvolved.keys.signatureKey ⟨5⟩)).isSome = true := by
  have stores : Stores lowInvolved SparesSignatures Startup.threeCells.store
      (twoBlocks.pushBlockFront 1 7 (some (repeatedBlock 7))).2
      (Function.update twoPushed 7 (some (repeatedBlock 7))) :=
    (stores_two fun _ _ _ spares => spares).call (.pushBlockFront 1 7 (some (repeatedBlock 7)))
      (by
        rintro added ⟨⟩
        exact twoPushed_oneSignature.spares (fun _ => repeatedBlock_signature) (by decide +kernel))
      (by rintro added ⟨⟩; exact lowInvolved_repeated 7)
      (Prod.ext (by decide +kernel) rfl) (repeated_oneSignature.unshared (by decide +kernel))
      (liveDisjoint_of_cells (by decide +kernel))
  have indexes := stores_indexesExactly Startup.threeCells rfl Startup.threeCells_opens lowInvolved _ _
    stores
  exact (indexes.signature ⟨5⟩ (show 5 ≤ 7 by decide)).mpr
    ⟨7, repeatedBlock 7, ⟨Function.update_self _ _ _, by decide +kernel⟩, by decide +kernel⟩

/-- With files in another order than their ids the record of a signature leads to the bytes of another
file; and a removed block takes the record of a signature along that the pushed block shares. -/
theorem indexesExactly_false :
    (¬ ∀ (startup : Startup) (involved : Involved) (store : Store)
      (pushed : Nat → Option BlockWithBinary), startup.db = Rocksdb.empty →
      (startup.configs.map ConfigStorageFile.id).Nodup →
      Stores involved SparesSignatures startup.store store pushed →
      store.IndexesExactly involved startup.reading pushed) ∧
    ¬ ∀ (startup : Startup) (involved : Involved) (store : Store)
      (pushed : Nat → Option BlockWithBinary), startup.db = Rocksdb.empty →
      startup.reading.Opens startup.files →
      Stores involved (fun _ _ _ => True) startup.store store pushed →
      store.IndexesExactly involved startup.reading pushed := by
  constructor
  · intro always
    let startup := Startup.misordered
    let next := startup.store.pushBlockFront 0 5 (some (Chain.plainChainBlock 5))
    have stores : Stores lowInvolved SparesSignatures startup.store next.2 _ :=
      stores_first (sparesSignatures_first _ _ _ _) (by decide +kernel)
        (first_oneSignature.unshared (by decide +kernel)) (liveDisjoint_of_cells (by decide +kernel))
    have indexes := always startup lowInvolved next.2 _ rfl (by decide) stores
    have record : next.2.db.transactionIndex.get (lowInvolved.keys.signatureKey ⟨5⟩) =
        some ⟨5, 2, 2, none, 0⟩ := by
      decide +kernel
    obtain ⟨block, found, location, ⟨known, -⟩, isFound, isLocation, read⟩ :=
      indexes.transaction ⟨5⟩ (show 5 ≤ 7 by decide) _ record
    change Function.update (fun _ => none) 5 (some (Chain.plainChainBlock 5)) 5 = some block at known
    rw [Function.update_self] at known
    cases known
    have bytes : ((Chain.plainChainBlock 5).getTransaction ⟨5⟩).map TransactionWithBinary.protobuf =
        some [5, 9] := by
      decide +kernel
    rw [isFound, Option.map_some, Option.some_inj] at bytes
    have place : next.2.blocks.toRead.getBlockLocation 5 =
        .found (.newConfirmed 5 none (some 5) 0 0 8) := by
      decide +kernel
    rw [place] at isLocation
    cases isLocation
    have answer : (startup.reading.read next.2.disk 0 2 2).toOption = some [0, 0] := by
      decide +kernel
    change startup.reading.read next.2.disk 0 2 2 = .ok found.protobuf at read
    rw [read, bytes] at answer
    cases answer
  · -- The records of slot 7 are written before slot 5 is removed with the record of its signature.
    intro always
    have stores : Stores lowInvolved (fun _ _ _ => True) Startup.threeCells.store
        (twoBlocks.pushBlockFront 0 7 (some (repeatedBlock 7))).2
        (Function.update twoPushed 7 (some (repeatedBlock 7))) :=
      (stores_two fun _ _ _ _ => trivial).call (.pushBlockFront 0 7 (some (repeatedBlock 7))) trivial
        (by rintro added ⟨⟩; exact lowInvolved_repeated 7)
        (Prod.ext (by decide +kernel) rfl) (repeated_oneSignature.unshared (by decide +kernel))
        (liveDisjoint_of_cells (by decide +kernel))
    have indexes := always Startup.threeCells lowInvolved _ _ rfl Startup.threeCells_opens stores
    have recorded := (indexes.signature ⟨5⟩ (show 5 ≤ 7 by decide)).mpr
      ⟨7, repeatedBlock 7, ⟨Function.update_self _ _ _, by decide +kernel⟩, by decide +kernel⟩
    have missing : (twoBlocks.pushBlockFront 0 7 (some (repeatedBlock 7))).2.db.transactionIndex.get
        (lowInvolved.keys.signatureKey ⟨5⟩) = none := by
      decide +kernel
    rw [missing] at recorded
    cases recorded

end Store

end Alpamayo
