import Alpamayo.Proof.FilesReadBack
import Alpamayo.Proof.WriterChain

/-!
This file shows when a refused push at the back leaves the store as it was.
-/

namespace Alpamayo

namespace Rocksdb

variable {db : Rocksdb} {slot : Nat} {block : BlockWithBinary}

/-- The database has the records that belong to the contents of the block. -/
structure Holds (db : Rocksdb) (slot : Nat) (block : BlockWithBinary) : Prop where
  extra : db.slotExtraIndex.get slot = some {
    transactions := block.txsOffset.map fun tx => tx.key
    sfa := block.sfa.map fun entry => entry.2.addressHash }
  transactions : ∀ key tx, block.txsOffset.reverse.find? (fun tx => tx.key = key) = some tx →
    db.transactionIndex.get key = some (tx.value slot)
  addresses : ∀ key entry, block.sfa.reverse.find? (fun entry => entry.2.key = key) = some entry →
    db.sfaIndex.get key = some entry.2.signatures

/-- The batch changes nothing exactly if the database has its records already. -/
theorem addIndexes_eq_self_iff : db.addIndexes slot block = db ↔ db.Holds slot block := by
  constructor
  · intro same
    refine ⟨?_, ?_, ?_⟩
    · exact SortedMap.insert_eq_self_iff.mp (congrArg slotExtraIndex same)
    · exact (HashMap.foldl_insert_eq_self_iff _ _ _ _).mp (congrArg transactionIndex same)
    · exact (SortedMap.foldl_insert_eq_self_iff _ _ _ _).mp (congrArg sfaIndex same)
  · intro holds
    have extra := SortedMap.insert_eq_self_iff.mpr holds.extra
    have transactions := (HashMap.foldl_insert_eq_self_iff _ _ _ _).mpr holds.transactions
    have addresses := (SortedMap.foldl_insert_eq_self_iff _ _ _ _).mpr holds.addresses
    unfold addIndexes
    rw [extra, addresses]
    exact congrArg (fun index => { db with transactionIndex := index }) transactions

end Rocksdb

namespace Store

variable {store after : Store} {turn slot : Nat} {block : Option BlockWithBinary}

/-- The ring, the cursors of the files, and the database are the same. -/
structure SameContents (before after : Store) : Prop where
  blocks : after.blocks = before.blocks
  files : after.files.files = before.files.files
  db : after.db = before.db

/-- A step that answers true does not answer false. -/
theorem map_true_ne {A : Type} (result : Except StorageError A) :
    result.map (fun _ => true) ≠ .ok false := by
  cases result <;> simp [Except.map]

/-- A push at the back is refused by a full ring or by the files after its records are stored. -/
theorem pushBlockBack_refused (refused : store.pushBlockBack turn slot block = (.ok false, after)) :
    (store.blocks.isFull = true ∧ after = store) ∨
      ∃ content, block = some content ∧ store.blocks.isFull = false ∧
        after.blocks = store.blocks ∧ after.files.files = store.files.files ∧
        after.db = store.db.addIndexes slot content := by
  unfold pushBlockBack at refused
  split at refused
  · cases refused
  · split at refused
    · cases refused
      exact Or.inl ⟨‹_›, rfl⟩
    · rename_i room
      cases block with
      | none => exact (map_true_ne _ (Prod.mk.inj refused).1).elim
      | some content =>
          dsimp only at refused
          split at refused
          · cases refused
          · rename_i files disk placed
            cases refused
            obtain ⟨same, -, -⟩ := StorageFilesWrite.pushBlock_none placed
            exact Or.inr ⟨content, rfl, by simpa using room, rfl, same, rfl⟩
          · exact (map_true_ne _ (Prod.mk.inj refused).1).elim

/-- A refused push at the back leaves the store as it was exactly if the ring was full or the
database had the records of the block already. -/
theorem pushBlockBack_refused_iff (store after : Store) (turn slot : Nat)
    (block : Option BlockWithBinary)
    (refused : store.pushBlockBack turn slot block = (.ok false, after)) :
    store.SameContents after ↔
      store.blocks.isFull = true ∨ ∃ content, block = some content ∧ store.db.Holds slot content := by
  obtain ⟨full, same⟩ | ⟨content, rfl, room, blocks, files, db⟩ := pushBlockBack_refused refused
  · rw [same]
    exact ⟨fun _ => Or.inl full, fun _ => ⟨rfl, rfl, rfl⟩⟩
  · constructor
    · intro same
      exact Or.inr ⟨content, rfl, Rocksdb.addIndexes_eq_self_iff.mp (db.symm.trans same.db)⟩
    · rintro (full | ⟨_, known, holds⟩)
      · rw [room] at full
        cases full
      · cases known
        exact ⟨blocks, files, db.trans (Rocksdb.addIndexes_eq_self_iff.mpr holds)⟩

/-- A ring of four cells and a file of ten bytes have the block of slot 6. -/
def nearlyFull : Store :=
  ((Writer.emptyStore 4 10 (by decide)).pushBlockFront 0 6 (some (Chain.plainChainBlock 6))).2

/-- The file has no room for the block of slot 5. -/
def nearlyFullPush : Except StorageError Bool × Store :=
  nearlyFull.pushBlockBack 0 5 (some (Chain.plainChainBlock 5))

theorem nearlyFull_refused : nearlyFullPush.1 = .ok false := by decide +kernel

/-- The refused push of slot 5 changes the store because its records are new. -/
theorem pushBlockBack_refused_iff_file : ¬ nearlyFull.SameContents nearlyFullPush.2 := by
  rw [pushBlockBack_refused_iff nearlyFull nearlyFullPush.2 0 5 (some (Chain.plainChainBlock 5))
    (Prod.ext nearlyFull_refused rfl)]
  rintro (full | ⟨content, known, holds⟩)
  · revert full
    decide +kernel
  · obtain rfl := Option.some.inj known
    have extra := congrArg Option.isSome holds.extra
    revert extra
    decide +kernel

/-- A push into an empty store succeeds, and the push that is refused after it leaves the record of
its slot in the database. -/
theorem pushBlockBack_refused_false :
    ((Writer.emptyStore 4 10 (by decide)).pushBlockFront 0 6 (some (Chain.plainChainBlock 6))).1 =
        .ok () ∧
      nearlyFullPush.1 = .ok false ∧ ¬ nearlyFull.SameContents nearlyFullPush.2 := by
  refine ⟨by decide +kernel, nearlyFull_refused, fun same => ?_⟩
  have keys := congrArg (fun db => db.slotExtraIndex.containsKey 5) same.db
  revert keys
  decide +kernel

end Store

end Alpamayo
