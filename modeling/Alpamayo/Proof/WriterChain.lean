import Alpamayo.Proof.BlockEncoding
import Alpamayo.Proof.WriterRing

/-!
This file follows the records of the transactions when each pushed block is the block of the chain.
-/

namespace Alpamayo

/-- The chain has at most one block for each slot, and each block was built for its slot. -/
structure Chain (keys : HashedKeys) (parsePubkey : String → Option Pubkey) where
  block : Nat → Option BlockWithBinary
  transactions : Nat → List BuiltTransaction
  built : ∀ slot found, block slot = some found →
    found.BuiltFrom keys parsePubkey slot (transactions slot)

/-- The index record of a transaction. -/
def BlockTransactionOffset.value (record : BlockTransactionOffset) (slot : Nat) :
    TransactionIndexValue := ⟨slot, record.offset, record.size, record.err, record.index⟩

namespace Rocksdb

variable {self after : Rocksdb} {slot : Nat} {block : BlockWithBinary} {key : HashedKey}
  {index : TransactionIndexValue}

/-- An index record is an old one or one of the added block. -/
theorem get_addIndexes (found : (self.addIndexes slot block).transactionIndex.get key = some index) :
    self.transactionIndex.get key = some index ∨
      ∃ record ∈ block.txsOffset, record.key = key ∧ record.value slot = index := by
  simp only [addIndexes, HashMap.get_foldl_insert] at found
  cases selected : block.txsOffset.reverse.find? fun record => record.key = key with
  | none =>
      rw [selected] at found
      exact Or.inl found
  | some record =>
      rw [selected] at found
      refine Or.inr ⟨record, ?_, by simpa using List.find?_some selected, Option.some.inj found⟩
      exact List.mem_reverse.mp (List.mem_of_find?_eq_some selected)

/-- A removal adds no index record. -/
theorem get_spawnRemoveSlot {dead : Bool} (removed : self.spawnRemoveSlot slot dead = .ok after)
    (found : after.transactionIndex.get key = some index) :
    self.transactionIndex.get key = some index := by
  unfold spawnRemoveSlot at removed
  dsimp only at removed
  split at removed
  · cases removed
    exact found
  · split at removed
    · cases removed
    · cases removed
      rw [HashMap.get_foldl_remove] at found
      split at found
      · cases found
      · exact found

end Rocksdb

namespace Writer

variable {self after : Writer} {event : WriterEvent}

/-- A step changes the database in one of these ways. -/
inductive DbChange (self after : Writer) : Prop where
  | same (db : after.store.db = self.store.db)
  | indexed (push : Push) (block : BlockWithBinary) (known : push ∈ self.task.underWay)
      (isBlock : push.block = some block)
      (db : after.store.db = self.store.db.addIndexes push.slot block)
  | recorded (push : Push) (data : Option (BlockWithBinary × StorageId × Nat))
      (known : self.task = .push push)
      (db : after.store.db = self.store.db.slotAdd push.slot data)
  | removed (pop : Pop) (known : self.task = .pop pop) (stage : pop.stage = .remove)
      (removed : self.store.db.spawnRemoveSlot pop.block.slot pop.block.dead = .ok after.store.db)

/-- Only four steps change the database. -/
theorem Change.db (change : Change self event after) : DbChange self after := by
  cases change with
  | remove side block push db known removed => exact .removed _ known rfl removed
  | index push next store known indexed =>
      obtain ⟨added, isBlock, -, -, rfl, -⟩ := Push.addIndexes_eq indexed
      exact .indexed push added (by rw [known]; rfl) isBlock rfl
  | indexDuring side block stage push next store known indexed =>
      obtain ⟨added, isBlock, -, -, rfl, -⟩ := Push.addIndexes_eq indexed
      exact .indexed push added (by rw [known]; rfl) isBlock rfl
  | recordDead push known stage noBlock => exact .recorded push none known rfl
  | record push block storageId offset known stage isBlock indexed =>
      exact .recorded push (some (block, storageId, offset)) known rfl
  | _ => exact .same rfl

end Writer

namespace Chain

variable {keys : HashedKeys} {parsePubkey : String → Option Pubkey} (chain : Chain keys parsePubkey)

/-- The index record is that of a transaction of the chain. -/
def Records (key : HashedKey) (index : TransactionIndexValue) : Prop :=
  ∃ block, chain.block index.slot = some block ∧
    ∃ record ∈ block.txsOffset, record.key = key ∧ record.value index.slot = index

/-- The range of an index record holds the encoding of its transaction. -/
theorem Records.selects {chain : Chain keys parsePubkey} {key : HashedKey}
    {index : TransactionIndexValue} (records : chain.Records key index) :
    ∃ block tx, chain.block index.slot = some block ∧ tx ∈ chain.transactions index.slot ∧
      tx.key = key ∧ index.offset + index.size ≤ block.protobuf.length ∧
      (block.protobuf.drop index.offset).take index.size = tx.protobuf := by
  obtain ⟨block, isBlock, record, member, rfl, same⟩ := records
  obtain ⟨tx, inside, selects⟩ := (chain.built _ _ isBlock).selected member
  rw [← same]
  exact ⟨block, tx, isBlock, inside, selects.key.symm, selects.inside, selects.slice⟩

/-- Each push is one of the block of the chain. -/
def Permits (_writer : Writer) : WriterEvent → Prop
  | .pushBlockFront slot block | .pushBlockBack slot block => block = chain.block slot
  | _ => True

/-- The push is one of the block of the chain, and only a block makes a live cell. -/
structure Pushes (push : Push) : Prop where
  block : push.block = chain.block push.slot
  live : ∀ cell, push.stage = .recorded cell → cell.dead = false →
    ∃ block, push.block = some block

/-- The stored bytes, the index records and the announced blocks are those of the chain. -/
structure Covers (writer : Writer) : Prop where
  stored : ∀ entry ∈ writer.stored, entry.1.dead = false →
    ∃ block, chain.block entry.1.slot = some block ∧ entry.2 = block.protobuf
  records : ∀ key index, writer.store.db.transactionIndex.get key = some index →
    chain.Records key index
  announced : ∀ slot block, .blockConfirmed slot block ∈ writer.store.blocks.sent →
    block = chain.block slot
  pushes : ∀ push ∈ writer.task.underWay, chain.Pushes push

variable {chain} {self after : Writer} {event : WriterEvent} {contents : List StoredBlock}

/-- The pushes under way stay those of the chain. -/
theorem Covers.pushes_change (covers : chain.Covers self) (permitted : chain.Permits self event)
    (change : Writer.Change self event after) :
    ∀ push ∈ after.task.underWay, chain.Pushes push := by
  intro next member
  cases change.underWay member with
  | front slot block cause isNext checked | back slot block cause isNext checked ring evicted =>
      rw [cause] at permitted
      rw [isNext]
      exact ⟨permitted, by rintro _ ⟨⟩⟩
  | goesOn push known side slot block cell same =>
      obtain ⟨before, live⟩ := covers.pushes push known
      rw [← slot, ← block] at before
      refine ⟨before, fun recorded stage alive => ?_⟩
      obtain old | new := cell recorded stage
      · rw [block]
        exact live recorded old alive
      · cases isBlock : next.block with
        | none =>
            rw [isBlock] at new
            cases new
            cases alive
        | some added => exact ⟨added, rfl⟩

/-- The index records stay those of the chain. -/
theorem Covers.records_change (covers : chain.Covers self) (change : Writer.Change self event after)
    (key : HashedKey) (index : TransactionIndexValue)
    (found : after.store.db.transactionIndex.get key = some index) : chain.Records key index := by
  cases change.db with
  | same db =>
      rw [db] at found
      exact covers.records key index found
  | indexed push block known isBlock db =>
      rw [db] at found
      obtain old | ⟨record, member, sameKey, same⟩ := Rocksdb.get_addIndexes found
      · exact covers.records key index old
      · have slot : index.slot = push.slot := by
          rw [← same]
          rfl
        refine ⟨block, ?_, record, member, sameKey, by rw [slot, same]⟩
        rw [slot, ← (covers.pushes push known).block, isBlock]
  | recorded push data known db =>
      rw [db] at found
      exact covers.records key index found
  | removed pop known stage removed =>
      exact covers.records key index (Rocksdb.get_spawnRemoveSlot removed found)

/-- Every announced block stays that of the chain. -/
theorem Covers.announced_change (covers : chain.Covers self) (permitted : chain.Permits self event)
    (spans : self.Spans contents) (change : Writer.Change self event after) (slot : Nat)
    (block : Option BlockWithBinary)
    (member : .blockConfirmed slot block ∈ after.store.blocks.sent) : block = chain.block slot := by
  have announced := covers.announced slot block
  cases change.ring with
  | other ring firstAvailable stored evicted before done sends =>
      cases sends with
      | nothing sent =>
          rw [sent] at member
          exact announced member
      | report message report sent settled =>
          rw [sent, List.mem_append, List.mem_singleton] at member
          obtain member | rfl := member
          · exact announced member
          · cases report
      | removal side sent settled =>
          rw [sent, List.mem_append, List.mem_singleton] at member
          obtain member | same := member
          · exact announced member
          · cases side <;> cases same
      | confirmed slot' block' cause sent settled =>
          rw [sent, List.mem_append, List.mem_singleton] at member
          obtain member | same := member
          · exact announced member
          · cases same
            rw [cause] at permitted
            exact permitted
  | popped side block' popped stored evicted before done cause =>
      rw [spans.sent_popRing popped] at member
      exact announced member
  | pushed push cell known stage pushed stored evicted task cause =>
      obtain sent | sent := StoredBlocksWrite.pushCell_sent pushed
      · rw [sent] at member
        exact announced (by simpa using member)
      · rw [sent] at member
        exact announced (by simpa using member)
  | published side known blocks stored evicted done =>
      rw [blocks, StoredBlocksWrite.updateTotal_sent] at member
      exact announced member

/-- Every permitted change keeps to the chain. -/
theorem Covers.change (covers : chain.Covers self) (permitted : chain.Permits self event)
    (spans : self.Spans contents) (change : Writer.Change self event after) : chain.Covers after where
  stored := by
    intro entry member live
    cases change.ring with
    | other ring firstAvailable stored evicted before done sends =>
        rw [stored] at member
        exact covers.stored entry member live
    | popped side block popped stored evicted before done cause =>
        rw [stored] at member
        exact covers.stored entry member live
    | pushed push cell known stage pushed stored evicted task cause =>
        rw [stored, List.mem_append, List.mem_singleton] at member
        obtain member | rfl := member
        · exact covers.stored entry member live
        · have pushes := covers.pushes push (by rw [known]; rfl)
          obtain ⟨block, isBlock⟩ := pushes.live cell stage live
          rw [((spans.pushFits known).cell cell stage).2, ← pushes.block]
          exact ⟨block, isBlock, by simp only [Push.bytes, isBlock]⟩
    | published side known blocks stored evicted done =>
        rw [stored] at member
        exact covers.stored entry member live
  records := covers.records_change change
  announced := covers.announced_change permitted spans change
  pushes := covers.pushes_change permitted change

/-- Every permitted run keeps to the chain. -/
theorem Covers.run (covers : chain.Covers self) (spans : self.Spans contents)
    (run : Writer.Run chain.Permits self after) : chain.Covers after := by
  refine (run.invariant (fun state => (∃ rest, state.Spans rest) ∧ chain.Covers state)
    ⟨⟨contents, spans⟩, covers⟩ ?_).2
  intro before event next ⟨⟨rest, known⟩, kept⟩ permitted change
  exact ⟨known.change change, kept.change permitted known change⟩

instance decidablePermits (chain : Chain keys parsePubkey) (writer : Writer) :
    (event : WriterEvent) → Decidable (chain.Permits writer event)
  | .pushBlockFront slot block | .pushBlockBack slot block =>
      inferInstanceAs (Decidable (block = chain.block slot))
  | .send _ | .popBlock _ | .announce | .remove | .free | .evict | .roomy | .index | .tear _ | .write
  | .refuse | .record | .store | .publish => isTrue trivial

/-- These keys are the lowest bits. -/
def lowKeys : HashedKeys :=
  ⟨fun signature => BitVec.ofNat 64 signature.value, fun address => BitVec.ofNat 64 address.value⟩

/-- The lowest bits tell small numbers apart. -/
theorem ofNat_inj_of_le {first second : Nat} (low : first ≤ 7) (low' : second ≤ 7)
    (same : BitVec.ofNat 64 first = BitVec.ofNat 64 second) : first = second := by
  have numbers := congrArg BitVec.toNat same
  rw [BitVec.toNat_ofNat, BitVec.toNat_ofNat, Nat.mod_eq_of_lt (by omega),
    Nat.mod_eq_of_lt (by omega)] at numbers
  exact numbers

/-- A transaction of one account has the slot as its signature. -/
def plainTransaction (slot : Nat) (protobuf : Bytes) : BuiltTransaction :=
  BuiltTransaction.new lowKeys (fun _ => none) slot
    ⟨⟨slot⟩, protobuf, some ⟨[⟨1⟩], none, none, none, none, false⟩⟩ (some false) 0

/-- Each slot has a block with one transaction. -/
def plainChain : Chain lowKeys fun _ => none where
  block := fun slot => some (BlockWithBinary.new "" "" 0 [plainTransaction slot [UInt8.ofNat slot, 9]]
    [] none none (some slot) true)
  transactions := fun slot => [plainTransaction slot [UInt8.ofNat slot, 9]]
  built := by
    rintro slot found ⟨⟩
    refine ⟨fun tx member => ?_, _, _, _, _, _, _, _, _, true, rfl, rfl⟩
    rw [List.mem_singleton.mp member]
    exact ⟨_, _, _, rfl⟩

/-- The block of a slot, for the events that store it. -/
def plainChainBlock (slot : Nat) : BlockWithBinary := (plainChain.block slot).getD
  (Writer.plainBlock 0 [])

end Chain

end Alpamayo
