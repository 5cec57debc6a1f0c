import Alpamayo.Proof.BlockIndexes
import Alpamayo.Proof.SlotLookup
import Alpamayo.Proof.StoreFront
import Alpamayo.Proof.StoreRoom

/-!
This file shows that every call keeps the index records those of the live blocks of the ring, and keeps
their bytes.
-/

namespace Alpamayo

open CyclicWindow

variable {contents rest : List StoredBlock} {block cell : StoredBlock}

namespace StoredBlocksWrite

variable {self after : StoredBlocksWrite} {result : Unit}

/-- A successful push at the front puts its cell last. -/
theorem Spans.pushed_front (spans : self.Spans contents) (present : cell.present = true)
    (slot : ∀ last ∈ contents.getLast?, cell.slot = last.slot + 1)
    (success : self.pushBlockFront2 cell = (.ok result, after)) :
    after.Spans (contents ++ [cell]) := by
  have free : (self.blocks.cells (self.blocks.next self.blocks.head)).present = false := by
    by_contra taken
    rw [Bool.not_eq_false] at taken
    simp only [StoredBlocksWrite.pushBlockFront2, taken, if_true] at success
    cases success
  have pushed := spans.pushBlockFront2 present slot (spans.frontFree_iff.mp free)
  rw [success] at pushed
  exact pushed.2

/-- A successful push at the back puts its cell first. -/
theorem Spans.pushed_back (spans : self.Spans contents) (present : cell.present = true)
    (slot : ∀ first ∈ contents.head?, first.slot = cell.slot + 1)
    (success : self.pushBlockBack2 cell = (.ok result, after)) : after.Spans (cell :: contents) := by
  have free : (self.blocks.cells (self.blocks.prev self.blocks.tail)).present = false := by
    by_contra taken
    rw [Bool.not_eq_false] at taken
    simp only [StoredBlocksWrite.pushBlockBack2, taken, if_true] at success
    cases success
  have pushed := spans.pushBlockBack2 present slot (spans.backFree_iff.mp free)
  rw [success] at pushed
  exact pushed.2

end StoredBlocksWrite

/-- Files with the same names are opened in the same way. -/
theorem StorageFilesRead.Opens.of_names {reading : StorageFilesRead}
    {before after : StorageFilesWrite} (opens : reading.Opens before)
    (names : after.files.map StorageFile.name = before.files.map StorageFile.name) :
    reading.Opens after := by
  intro id path
  rw [names]
  exact opens id path

/-- A placed buffer lies at its place in the file that the readers open for it. -/
theorem StorageFilesRead.Opens.placed {reading : StorageFilesRead} {files after : StorageFilesWrite}
    {disk disk' : Disk} {buffer : Bytes} {side : VecSide} {storageId : StorageId} {offset : Nat}
    (opens : reading.Opens files)
    (success : files.pushBlock disk buffer side = (.ok (some (storageId, offset)), after, disk')) :
    ∃ path, reading.fileOf storageId = some path ∧ disk' = disk.writeAllAt path buffer offset := by
  obtain ⟨file, inside, rfl, written⟩ := StorageFilesWrite.pushBlock_placed success
  exact ⟨file.file, (opens file.id file.file).mpr (List.mem_map.mpr ⟨file, inside, rfl⟩), written⟩

/-- A part of a range is read once the range is. -/
theorem StorageFilesRead.read_slice {reading : StorageFilesRead} {disk : Disk} {storageId : StorageId}
    {offset size start length : Nat} {bytes : Bytes}
    (whole : reading.read disk storageId offset size = .ok bytes) (inside : start + length ≤ size) :
    reading.read disk storageId (offset + start) length = .ok ((bytes.drop start).take length) := by
  unfold StorageFilesRead.read at whole ⊢
  split at whole
  · cases whole
  · rename_i path found
    unfold DiskFile.readExactAt at whole ⊢
    split at whole
    · rename_i bytes' known
      split at known
      · cases known
        cases whole
        rw [if_pos (by omega)]
        apply congrArg Except.ok
        apply List.ext_getElem
        · simp
          omega
        · intro index low high
          simp [Nat.add_assoc]
      · cases known
    · cases whole

/-- A write beside a range does not change what is read from it. -/
theorem StorageFilesRead.read_writeAllAt {reading : StorageFilesRead} {disk : Disk}
    {storageId : StorageId} {offset size place : Nat} {bytes buffer : Bytes} {path : Path}
    (read : reading.read disk storageId offset size = .ok bytes)
    (apart : reading.fileOf storageId = some path →
      Extent.Disjoint ⟨offset, size⟩ ⟨place, buffer.length⟩) :
    reading.read (disk.writeAllAt path buffer place) storageId offset size = .ok bytes := by
  unfold StorageFilesRead.read at read ⊢
  split at read
  · cases read
  · rename_i other found
    split at read
    · rename_i bytes' known
      cases read
      by_cases same : other = path
      · subst same
        rw [Disk.writeAllAt_self,
          DiskFile.readExactAt_writeAllAt_of_disjoint _ buffer (apart found) known]
      · rw [Disk.writeAllAt_of_ne _ _ _ same, known]
    · cases read

/-- The hashes tell the signatures and the addresses that occur apart. -/
structure Involved where
  keys : HashedKeys
  parsePubkey : String → Option Pubkey
  signatures : Set Signature
  addresses : Set Pubkey
  signatureKeys : Set.InjOn keys.signatureKey signatures
  addressHashes : Set.InjOn keys.addressHash addresses

/-- The block was built for the slot, and only signatures and addresses that occur are in it. -/
def Involved.Built (involved : Involved) (slot : Nat) (block : BlockWithBinary) : Prop :=
  ∃ transactions, block.BuiltFrom involved.keys involved.parsePubkey slot transactions ∧
    (∀ tx ∈ transactions, tx.signature ∈ involved.signatures) ∧
    ∀ row ∈ block.sfa, row.1 ∈ involved.addresses

/-- No signature is in both blocks. -/
def BlockWithBinary.Apart (first second : BlockWithBinary) : Prop :=
  ∀ signature, first.getTransaction signature ≠ none → second.getTransaction signature = none

namespace Store

/-- The places of two live blocks in one file do not overlap. -/
def LiveDisjoint (store : Store) : Prop :=
  ∀ first second, (store.blocks.blocks.cells first).isLive = true →
    (store.blocks.blocks.cells second).isLive = true →
    (store.blocks.blocks.cells first).slot ≠ (store.blocks.blocks.cells second).slot →
    ∀ path, ((store.blocks.blocks.cells first).storageId, path) ∈
        store.files.files.map StorageFile.name →
      ((store.blocks.blocks.cells second).storageId, path) ∈
        store.files.files.map StorageFile.name →
      (store.blocks.blocks.cells first).extent.Disjoint (store.blocks.blocks.cells second).extent

/-- The index records are those of the live blocks of the ring, and of the pending one; each live block
is read back from its place. -/
structure Indexed (involved : Involved) (reading : StorageFilesRead)
    (pushed : Nat → Option BlockWithBinary) (pending : Option Nat)
    (live : Nat → Option BlockWithBinary) (store : Store) (contents : List StoredBlock) : Prop where
  spans : store.blocks.Spans contents
  describes : store.db.Describes live
  opens : reading.Opens store.files
  built : ∀ slot block, live slot = some block → involved.Built slot block
  only : ∀ slot block, live slot = some block → pushed slot = some block ∧
    (pending = some slot ∨ ∃ cell ∈ contents, cell.slot = slot ∧ cell.dead = false)
  stored : ∀ cell ∈ contents, cell.dead = false → ∃ block, live cell.slot = some block ∧
    cell.size = block.protobuf.length ∧
    reading.read store.disk cell.storageId cell.offset cell.size = .ok block.protobuf

variable {involved : Involved} {reading : StorageFilesRead}
  {pushed : Nat → Option BlockWithBinary} {pending : Option Nat}
  {live : Nat → Option BlockWithBinary} {self after : Store} {slot : Nat}
  {added : BlockWithBinary} {side : VecSide} {blocks : StoredBlocksWrite}

/-- A removed block takes its index records along. -/
theorem Indexed.removed (indexed : Indexed involved reading pushed pending live self contents)
    (ring : self.popRing side = some (block, blocks)) (member : block ∈ contents)
    (spans : blocks.Spans rest)
    (split : ∀ other, other ∈ contents → other = block ∨ other ∈ rest)
    (part : ∀ other ∈ rest, other ∈ contents ∧ other.slot ≠ block.slot)
    (apart : pending ≠ some block.slot) (success : self.popBlock side = (.ok (), after)) :
    Indexed involved reading pushed pending (Function.update live block.slot none) after rest ∧
      after.disk = self.disk := by
  have kept : ∀ slot found, Function.update live block.slot none slot = some found →
      slot ≠ block.slot ∧ live slot = some found := by
    intro slot found stays
    rw [Function.update_apply] at stays
    split at stays
    · cases stays
    · exact ⟨‹_›, stays⟩
  -- A dead block has no index records.
  have described : ∀ db, self.db.spawnRemoveSlot block.slot block.dead = .ok db →
      db.Describes (Function.update live block.slot none) := by
    intro db removed
    cases dead : block.dead with
    | false =>
        obtain ⟨found, known, -, -⟩ := indexed.stored block member dead
        rw [dead] at removed
        exact indexed.describes.remove known removed
    | true =>
        rw [dead] at removed
        cases removed
        have absent : live block.slot = none := by
          by_contra known
          obtain ⟨found, known⟩ := Option.ne_none_iff_exists'.mp known
          obtain ⟨-, isPending | ⟨cell, inside, same, alive⟩⟩ := indexed.only _ _ known
          · exact apart isPending
          · obtain rfl | later := split cell inside
            · rw [dead] at alive
              cases alive
            · exact (part cell later).2 same
        rw [← absent, Function.update_eq_self]
        exact indexed.describes.congr rfl rfl rfl
  have rest' : ∀ next : Store, next.blocks.Spans rest → next.disk = self.disk →
      next.db.Describes (Function.update live block.slot none) → reading.Opens next.files →
      Indexed involved reading pushed pending (Function.update live block.slot none) next rest := by
    intro next nextSpans disk describes opens
    refine ⟨nextSpans, describes, opens, fun slot found stays => indexed.built slot found
      (kept slot found stays).2, ?_, ?_⟩
    · intro slot found stays
      obtain ⟨different, known⟩ := kept slot found stays
      obtain ⟨isPushed, isPending | ⟨cell, inside, same, alive⟩⟩ := indexed.only slot found known
      · exact ⟨isPushed, Or.inl isPending⟩
      · obtain rfl | later := split cell inside
        · exact absurd same.symm different
        · exact ⟨isPushed, Or.inr ⟨cell, later, same, alive⟩⟩
    · intro cell inside alive
      obtain ⟨before, different⟩ := part cell inside
      obtain ⟨found, known, size, read⟩ := indexed.stored cell before alive
      rw [disk]
      exact ⟨found, by rw [Function.update_of_ne different, known], size, read⟩
  unfold Store.popBlock at success
  simp only [ring] at success
  split at success
  · cases success
  · rename_i db removed
    split at success
    · cases success
      exact ⟨rest' _ ⟨spans.represents, spans.consecutive⟩ rfl (described db removed) indexed.opens,
        rfl⟩
    · have names := self.files.popBlock_names block side
      cases side <;>
        · simp only at success
          obtain ⟨-, rfl⟩ := Prod.mk.inj success
          exact ⟨rest' _ ⟨spans.represents, spans.consecutive⟩ rfl (described db removed)
            (indexed.opens.of_names names.1), rfl⟩

/-- The removal of the oldest block keeps the records of the others. -/
theorem Indexed.popBlockBack (indexed : Indexed involved reading pushed pending live self contents)
    (apart : ∀ cell ∈ contents, pending ≠ some cell.slot)
    (success : self.popBlockBack = (.ok (), after)) :
    ∃ block rest, contents = block :: rest ∧ after.disk = self.disk ∧
      Indexed involved reading pushed pending (Function.update live block.slot none) after rest := by
  cases ring : self.popRing .back with
  | none =>
      unfold Store.popBlockBack Store.popBlock at success
      simp only [ring] at success
      cases success
  | some found =>
      obtain ⟨block, blocks⟩ := found
      obtain ⟨rest, rfl, spans, -⟩ := indexed.spans.popBlockBack ring
      obtain ⟨kept, disk⟩ := indexed.removed ring List.mem_cons_self spans
        (fun other member => List.mem_cons.mp member)
        (fun other member => ⟨List.mem_cons_of_mem _ member,
          (indexed.spans.consecutive.head_lt member).ne'⟩)
        (apart block List.mem_cons_self) success
      exact ⟨block, rest, rfl, disk, kept⟩

/-- The removal of the newest block keeps the records of the others. -/
theorem Indexed.popBlockFront (indexed : Indexed involved reading pushed pending live self contents)
    (apart : ∀ cell ∈ contents, pending ≠ some cell.slot)
    (success : self.popBlockFront = (.ok (), after)) :
    ∃ block rest, contents = rest ++ [block] ∧
      Indexed involved reading pushed pending (Function.update live block.slot none) after rest := by
  cases ring : self.popRing .front with
  | none =>
      unfold Store.popBlockFront Store.popBlock at success
      simp only [ring] at success
      cases success
  | some found =>
      obtain ⟨block, blocks⟩ := found
      obtain ⟨rest, rfl, spans, -⟩ := indexed.spans.popBlockFront ring
      have member : block ∈ rest ++ [block] := List.mem_append_right _ (List.mem_singleton_self block)
      obtain ⟨kept, -⟩ := indexed.removed ring member spans
        (fun other member => (List.mem_append.mp member).symm.imp_left List.mem_singleton.mp)
        (fun other member => ⟨List.mem_append_left _ member,
          (indexed.spans.consecutive.lt_last member).ne⟩)
        (apart block member) success
      exact ⟨block, rest, rfl, kept⟩

/-- A slot outside of the ring has no index records while no push is pending. -/
theorem Indexed.fresh (indexed : Indexed involved reading pushed none live self contents)
    (outside : ∀ cell ∈ contents, cell.slot ≠ slot) : live slot = none := by
  by_contra known
  obtain ⟨found, known⟩ := Option.ne_none_iff_exists'.mp known
  obtain ⟨-, isPending | ⟨cell, inside, same, -⟩⟩ := indexed.only slot found known
  · cases isPending
  · exact outside cell inside same

/-- The block that a slot outside of the ring gets next does not matter yet. -/
theorem Indexed.push (indexed : Indexed involved reading pushed none live self contents)
    (outside : ∀ cell ∈ contents, cell.slot ≠ slot) (next : Option BlockWithBinary) :
    Indexed involved reading (Function.update pushed slot next) none live self contents where
  spans := indexed.spans
  describes := indexed.describes
  opens := indexed.opens
  built := indexed.built
  only := by
    intro place found known
    have different : place ≠ slot := by
      rintro rfl
      rw [indexed.fresh outside] at known
      cases known
    rw [Function.update_of_ne different]
    exact indexed.only place found known
  stored := indexed.stored

/-- The index records of the pending block are added. -/
theorem Indexed.addIndexes (indexed : Indexed involved reading pushed none live self contents)
    (outside : ∀ cell ∈ contents, cell.slot ≠ slot) (known : pushed slot = some added)
    (built : involved.Built slot added)
    (apart : ∀ other found, live other = some found → added.Apart found) :
    Indexed involved reading pushed (some slot) (Function.update live slot (some added))
      { self with db := self.db.addIndexes slot added } contents where
  spans := indexed.spans
  describes := by
    obtain ⟨transactions, isBuilt, within, -⟩ := built
    refine indexed.describes.addIndexes (indexed.fresh outside) isBuilt.rowsOf ?_
    intro other found isLive
    obtain ⟨others, isBuilt', within', -⟩ := indexed.built other found isLive
    exact isBuilt.apart isBuilt' involved.signatureKeys within within' (apart other found isLive)
  opens := indexed.opens
  built := by
    intro place found isLive
    rw [Function.update_apply] at isLive
    split at isLive
    · rename_i here
      cases isLive
      rw [here]
      exact built
    · exact indexed.built place found isLive
  only := by
    intro place found isLive
    rw [Function.update_apply] at isLive
    split at isLive
    · rename_i here
      cases isLive
      rw [here]
      exact ⟨known, Or.inl rfl⟩
    · obtain ⟨isPushed, isPending | inside⟩ := indexed.only place found isLive
      · cases isPending
      · exact ⟨isPushed, Or.inr inside⟩
  stored := by
    intro cell inside alive
    obtain ⟨found, isLive, size, read⟩ := indexed.stored cell inside alive
    exact ⟨found, by rw [Function.update_of_ne (outside cell inside), isLive], size, read⟩

/-- The search position of the files does not matter. -/
theorem Indexed.of_files {files : StorageFilesWrite}
    (indexed : Indexed involved reading pushed pending live self contents)
    (names : files.files.map StorageFile.name = self.files.files.map StorageFile.name) :
    Indexed involved reading pushed pending live { self with files } contents where
  spans := indexed.spans
  describes := indexed.describes
  opens := indexed.opens.of_names names
  built := indexed.built
  only := indexed.only
  stored := indexed.stored

/-- The index records of the pending block are written exactly if its turn has come. -/
inductive Waits (added : BlockWithBinary) (slot : Nat) :
    Option Nat → Option Nat → (Nat → Option BlockWithBinary) → Prop
  | written {live : Nat → Option BlockWithBinary} (known : live slot = some added) :
      Waits added slot none (some slot) live
  | waiting {live : Nat → Option BlockWithBinary} (turn : Nat) : Waits added slot (some turn) none live

/-- The turn of the index records comes at most once. -/
theorem Indexed.takeTurn {turn : Option Nat}
    (indexed : Indexed involved reading pushed pending live self contents)
    (waits : Waits added slot turn pending live)
    (outside : ∀ cell ∈ contents, cell.slot ≠ slot) (known : pushed slot = some added)
    (built : involved.Built slot added)
    (apart : turn = some 0 → ∀ cell ∈ contents, cell.dead = false →
      ∀ found, live cell.slot = some found → added.Apart found) :
    ∃ pending' live', Indexed involved reading pushed pending' live' (self.takeTurn slot added turn).1
        contents ∧ Waits added slot (self.takeTurn slot added turn).2 pending' live' ∧
      (self.takeTurn slot added turn).1.files = self.files ∧
      (self.takeTurn slot added turn).1.disk = self.disk ∧
      ∀ other, other ≠ slot → live' other = live other := by
  cases waits with
  | written isLive => exact ⟨_, live, indexed, .written isLive, rfl, rfl, fun _ _ => rfl⟩
  | waiting turn =>
      cases turn with
      | zero =>
          refine ⟨_, _, indexed.addIndexes outside known built ?_, .written (Function.update_self _ _ _),
            rfl, rfl, fun other different => Function.update_of_ne different _ _⟩
          intro other found isLive
          obtain ⟨-, isPending | ⟨cell, inside, rfl, alive⟩⟩ := indexed.only other found isLive
          · cases isPending
          · exact apart rfl cell inside alive found isLive
      | succ turn => exact ⟨_, live, indexed, .waiting turn, rfl, rfl, fun _ _ => rfl⟩

/-- The removal of another slot does not change whose turn it is. -/
theorem Waits.remove {turn : Option Nat} {other : Nat} (waits : Waits added slot turn pending live)
    (different : other ≠ slot) : Waits added slot turn pending (Function.update live other none) := by
  cases waits with
  | written known => exact .written (by rw [Function.update_of_ne different.symm, known])
  | waiting turn => exact .waiting turn

/-- The pending slot is that of the push. -/
theorem Waits.pending_ne {turn : Option Nat} (waits : Waits added slot turn pending live)
    (outside : ∀ cell ∈ contents, cell.slot ≠ slot) :
    ∀ cell ∈ contents, pending ≠ some cell.slot := by
  intro cell inside
  cases waits with
  | written known => exact fun same => outside cell inside (Option.some.inj same).symm
  | waiting turn => rintro ⟨⟩

/-- The turn comes one round nearer. -/
theorem takeTurn_next {position : Nat} {turn : Option Nat}
    (next : (self.takeTurn slot added turn).2 = some position) : turn = some (position + 1) := by
  match turn with
  | none => cases next
  | some 0 => cases next
  | some (turn + 1) =>
      cases next
      rfl

/-- The loop keeps the records of the blocks that it leaves, adds those of its block, and places the
block in a file; the block may share signatures with the blocks that are gone when its turn comes. -/
theorem Indexed.placeFront {fuel : Nat} {turn : Option Nat} {place : StorageId × Nat}
    (indexed : Indexed involved reading pushed pending live self contents)
    (waits : Waits added slot turn pending live)
    (outside : ∀ cell ∈ contents, cell.slot ≠ slot) (known : pushed slot = some added)
    (built : involved.Built slot added)
    (spares : ∀ position, turn = some position → ∀ cell ∈ contents.drop position, cell.dead = false →
      ∀ found, live cell.slot = some found → added.Apart found)
    (unshared : ∀ rest, rest <:+ contents → after.blocks.Spans rest → ∀ cell ∈ rest,
      cell.dead = false → ∀ found, live cell.slot = some found → added.Apart found)
    (success : self.placeFront slot added fuel turn = (.ok place, after)) :
    ∃ rest live' path, rest <:+ contents ∧
      Indexed involved reading pushed (some slot) live' { after with disk := self.disk } rest ∧
      live' slot = some added ∧ reading.fileOf place.1 = some path ∧
      after.disk = self.disk.writeAllAt path added.protobuf place.2 := by
  induction fuel generalizing self contents turn pending live with
  | zero => cases success
  | succ fuel ih =>
      obtain ⟨pending', live', indexed', waits', files, disk, others⟩ :=
        indexed.takeTurn waits outside known built (spares 0)
      simp only [Store.placeFront] at success
      have nearer : ∀ position, (self.takeTurn slot added turn).2 = some position →
          turn = some (position + 1) := fun position => takeTurn_next
      generalize self.takeTurn slot added turn = turned at success indexed' waits' files disk nearer
      obtain ⟨self', turn'⟩ := turned
      dsimp only at success indexed' waits' files disk nearer
      have names := self'.files.pushBlock_names self'.disk added.protobuf .front
      generalize written : self'.files.pushBlockFront self'.disk added.protobuf = outcome at success
      obtain ⟨error | _ | ⟨storageId, offset⟩, files', disk'⟩ := outcome
      · cases success
      · -- No file has room, and the oldest block is removed.
        rw [show self'.files.pushBlock self'.disk added.protobuf .front = _ from written] at names
        obtain ⟨-, -, rfl⟩ := StorageFilesWrite.pushBlock_none written
        dsimp only at success
        cases popped : Store.popBlockBack { self' with files := files' } with
        | mk result next =>
            rw [popped] at success
            cases result with
            | error error => cases success
            | ok value =>
                obtain ⟨block, rest, rfl, disk', kept⟩ := (indexed'.of_files names.1).popBlockBack
                  (waits'.pending_ne outside) popped
                have different := outside block List.mem_cons_self
                have before : ∀ cell ∈ rest, ∀ found, Function.update live' block.slot none cell.slot =
                    some found → live cell.slot = some found := by
                  intro cell inside found isLive
                  rw [Function.update_apply] at isLive
                  split at isLive
                  · cases isLive
                  · rw [← others _ (outside cell (List.mem_cons_of_mem _ inside))]
                    exact isLive
                obtain ⟨last, live'', path, suffix, final, isLive, found, placed⟩ := ih kept
                  (waits'.remove different)
                  (fun cell inside => outside cell (List.mem_cons_of_mem _ inside))
                  (fun position isTurn cell inside alive found isLive =>
                    spares (position + 1) (nearer position isTurn) cell inside alive found
                      (before cell (List.drop_subset _ _ inside) found isLive))
                  (fun last suffix spans cell inside alive found isLive =>
                    unshared last (suffix.trans (List.suffix_cons block rest)) spans cell inside alive
                      found (before cell (suffix.subset inside) found isLive))
                  success
                dsimp only at disk'
                rw [disk', disk] at final placed
                exact ⟨last, live'', path, suffix.trans (List.suffix_cons block rest), final, isLive,
                  found, placed⟩
      · rw [show self'.files.pushBlock self'.disk added.protobuf .front = _ from written] at names
        obtain ⟨path, found, rfl⟩ := indexed'.opens.placed written
        have kept := indexed'.of_files names.1
        cases waits' with
        | written isLive =>
            cases success
            refine ⟨contents, live', path, List.suffix_rfl, ?_, isLive, found, by rw [← disk]⟩
            rw [← disk]
            exact kept
        | waiting turn =>
            cases success
            -- Every block that is left stays in the ring.
            have later : ∀ other found, live' other = some found → added.Apart found := by
              intro other found isLive
              obtain ⟨-, isPending | ⟨cell, inside, rfl, alive⟩⟩ := indexed'.only other found isLive
              · cases isPending
              · rw [others _ (outside cell inside)] at isLive
                exact unshared contents List.suffix_rfl indexed'.spans cell inside alive found isLive
            have final := kept.addIndexes outside known built later
            refine ⟨contents, Function.update live' slot (some added), path, List.suffix_rfl, ?_,
              Function.update_self _ _ _, found, by rw [← disk]⟩
            rw [← disk]
            exact final

/-- Two live blocks of the ring in one file do not overlap. -/
theorem LiveDisjoint.apart (disjoint : self.LiveDisjoint) (spans : self.blocks.Spans contents)
    (opens : reading.Opens self.files) {first second : StoredBlock} {path : Path}
    (inside : first ∈ contents) (inside' : second ∈ contents)
    (alive : first.dead = false) (alive' : second.dead = false) (different : first.slot ≠ second.slot)
    (found : reading.fileOf first.storageId = some path)
    (found' : reading.fileOf second.storageId = some path) :
    first.extent.Disjoint second.extent := by
  have present := spans.consecutive.present first inside
  have present' := spans.consecutive.present second inside'
  obtain ⟨index, rfl⟩ := (spans.mem_iff present).mp inside
  obtain ⟨other, rfl⟩ := (spans.mem_iff present').mp inside'
  refine disjoint index other ?_ ?_ different path ((opens _ _).mp found) ((opens _ _).mp found')
  · rw [StoredBlock.isLive, present, alive]
    rfl
  · rw [StoredBlock.isLive, present', alive']
    rfl

/-- The pending block enters the ring with its bytes on the disk. -/
theorem Indexed.entered {entered : List StoredBlock} {storageId : StorageId} {offset : Nat}
    {path : Path} {blockTime : Option UnixTimestamp} {blockHeight : Option Nat}
    (indexed : Indexed involved reading pushed (some slot) live self contents)
    (known : live slot = some added) (found : reading.fileOf storageId = some path)
    (isCell : cell = .newConfirmed slot blockTime blockHeight storageId offset added.protobuf.length)
    (outside : ∀ other ∈ contents, other.slot ≠ slot) (spans : after.blocks.Spans entered)
    (members : ∀ other, other ∈ entered ↔ other = cell ∨ other ∈ contents)
    (data : Option (BlockWithBinary × StorageId × Nat)) (db : after.db = self.db.slotAdd slot data)
    (files : after.files = self.files)
    (disk : after.disk = self.disk.writeAllAt path added.protobuf offset)
    (disjoint : after.LiveDisjoint) :
    Indexed involved reading pushed none live after entered where
  spans := spans
  describes := by
    rw [db]
    exact indexed.describes.congr rfl rfl rfl
  opens := by
    rw [files]
    exact indexed.opens
  built := indexed.built
  only := by
    intro place block isLive
    obtain ⟨isPushed, isPending | ⟨other, inside, same, alive⟩⟩ := indexed.only place block isLive
    · refine ⟨isPushed, Or.inr ⟨cell, (members cell).mpr (Or.inl rfl), ?_, ?_⟩⟩
      · rw [isCell]
        exact Option.some.inj isPending
      · rw [isCell]
        rfl
    · exact ⟨isPushed, Or.inr ⟨other, (members other).mpr (Or.inr inside), same, alive⟩⟩
  stored := by
    intro other inside alive
    rw [disk]
    obtain rfl | old := (members other).mp inside
    · rw [isCell]
      refine ⟨added, known, rfl, ?_⟩
      unfold StorageFilesRead.read
      simp only [StoredBlock.newConfirmed, found, Disk.writeAllAt_self,
        DiskFile.readExactAt_writeAllAt]
    · obtain ⟨block, isLive, size, read⟩ := indexed.stored other old alive
      refine ⟨block, isLive, size, StorageFilesRead.read_writeAllAt read fun same => ?_⟩
      have new : cell ∈ entered := (members cell).mpr (Or.inl rfl)
      have opens : reading.Opens after.files := by
        rw [files]
        exact indexed.opens
      have apart := disjoint.apart spans opens inside new alive (by rw [isCell]; rfl)
        (by rw [isCell]; exact outside other old) same (by rw [isCell]; exact found)
      rw [isCell] at apart
      exact apart

/-- A dead slot enters the ring without index records. -/
theorem Indexed.enteredDead {entered : List StoredBlock}
    (indexed : Indexed involved reading pushed none live self contents)
    (spans : after.blocks.Spans entered)
    (members : ∀ other, other ∈ entered ↔ other = .newDead slot ∨ other ∈ contents)
    (data : Option (BlockWithBinary × StorageId × Nat)) (db : after.db = self.db.slotAdd slot data)
    (files : after.files = self.files) (disk : after.disk = self.disk) :
    Indexed involved reading pushed none live after entered where
  spans := spans
  describes := by
    rw [db]
    exact indexed.describes.congr rfl rfl rfl
  opens := by
    rw [files]
    exact indexed.opens
  built := indexed.built
  only := by
    intro place block isLive
    obtain ⟨isPushed, isPending | ⟨other, inside, known⟩⟩ := indexed.only place block isLive
    · cases isPending
    · exact ⟨isPushed, Or.inr ⟨other, (members other).mpr (Or.inr inside), known⟩⟩
  stored := by
    intro other inside alive
    rw [disk]
    obtain rfl | old := (members other).mp inside
    · cases alive
    · exact indexed.stored other old alive

/-- The block was pushed last for the slot, and the ring has the slot alive. -/
def Live (store : Store) (pushed : Nat → Option BlockWithBinary) (slot : Nat)
    (block : BlockWithBinary) : Prop :=
  pushed slot = some block ∧ ∃ index, (store.blocks.blocks.cells index).isLive = true ∧
    (store.blocks.blocks.cells index).slot = slot

/-- No signature is in two live blocks. -/
def Unshared (store : Store) (pushed : Nat → Option BlockWithBinary) : Prop :=
  ∀ first second block found, first ≠ second → store.Live pushed first block →
    store.Live pushed second found → block.Apart found

/-- The block of a live cell is live. -/
theorem live_of_mem (spans : self.blocks.Spans contents) (inside : cell ∈ contents)
    (alive : cell.dead = false) (isPushed : pushed cell.slot = some added) :
    self.Live pushed cell.slot added := by
  have present := spans.consecutive.present cell inside
  obtain ⟨index, rfl⟩ := (spans.mem_iff present).mp inside
  refine ⟨isPushed, index, ?_, rfl⟩
  rw [StoredBlock.isLive, present, alive]
  rfl

/-- The pushed block shares no signature with the live blocks of the other slots. -/
theorem Unshared.apart {pushedCell : StoredBlock} {found : BlockWithBinary}
    (unshared : self.Unshared (Function.update pushed slot (some added)))
    (spans : self.blocks.Spans contents) (entered : pushedCell ∈ contents)
    (isSlot : pushedCell.slot = slot) (isAlive : pushedCell.dead = false) (inside : cell ∈ contents)
    (alive : cell.dead = false) (different : cell.slot ≠ slot) (isPushed : pushed cell.slot = some found) :
    added.Apart found := by
  subst isSlot
  have new := live_of_mem spans entered isAlive (Function.update_self pushedCell.slot (some added) pushed)
  have old := live_of_mem spans inside alive
    ((Function.update_of_ne different (some added) pushed).trans isPushed)
  exact unshared _ _ added found different.symm new old

/-- While no push is pending the index records are those of the live blocks. -/
theorem Indexed.live_iff (indexed : Indexed involved reading pushed none live self contents) :
    live slot = some added ↔ self.Live pushed slot added := by
  constructor
  · intro known
    obtain ⟨isPushed, isPending | ⟨cell, inside, rfl, alive⟩⟩ := indexed.only slot added known
    · cases isPending
    · exact live_of_mem indexed.spans inside alive isPushed
  · rintro ⟨isPushed, index, alive, rfl⟩
    rw [StoredBlock.isLive, Bool.and_eq_true, Bool.not_eq_true'] at alive
    have inside := (indexed.spans.mem_iff alive.1).mpr ⟨index, rfl⟩
    obtain ⟨block, known, -⟩ := indexed.stored _ inside alive.2
    rw [known, ← isPushed, (indexed.only _ _ known).1]

/-- The slots that a push at the front has removed before the turn of its index records: one in a full
ring, and one in each round that found no room in the files. -/
def removedFirst (self : Store) (turn : Nat) : Nat :=
  (if self.blocks.isFull then 1 else 0) + turn

/-- The block shares no signature with a live block whose slot is still there when the turn of its index
records comes. -/
def Spares (self : Store) (pushed : Nat → Option BlockWithBinary) (turn : Nat)
    (added : BlockWithBinary) : Prop :=
  ∀ other found, self.Live pushed other found →
    (self.blocks.blocks.cells self.blocks.blocks.tail).slot + self.removedFirst turn ≤ other →
    added.Apart found

/-- A block behind the first ones has a slot behind theirs. -/
theorem tail_add_le (spans : self.blocks.Spans contents) {count : Nat}
    (inside : cell ∈ contents.drop count) :
    (self.blocks.blocks.cells self.blocks.blocks.tail).slot + count ≤ cell.slot := by
  obtain ⟨index, within, rfl⟩ := List.getElem_of_mem inside
  rw [List.length_drop] at within
  have behind := spans.consecutive.slot_getElem (show count + index < contents.length by omega)
  rw [List.getElem_drop, spans.represents.tailCell, behind,
    List.getD_eq_getElem _ _ (show 0 < contents.length by omega)]
  omega

/-- A full ring loses its oldest block with its records. -/
theorem Indexed.makeRoom (indexed : Indexed involved reading pushed none live self contents)
    (success : (if self.blocks.isFull then self.popBlockBack else (.ok (), self)) = (.ok (), after)) :
    ∃ live', Indexed involved reading pushed none live' after (contents.drop (self.removedFirst 0)) := by
  unfold removedFirst
  split at success
  · rename_i full
    obtain ⟨block, rest, rfl, -, kept⟩ := indexed.popBlockBack (by rintro _ _ ⟨⟩) success
    rw [if_pos full]
    exact ⟨_, kept⟩
  · rename_i notFull
    cases success
    rw [if_neg notFull]
    exact ⟨live, indexed⟩

/-- A stored block at the front has its index records. -/
theorem Indexed.pushFrontBlock {turn : Nat}
    (indexed : Indexed involved reading pushed none live self contents)
    (next : ∀ last ∈ contents.getLast?, slot = last.slot + 1) (built : involved.Built slot added)
    (spares : ∀ cell ∈ contents.drop turn, cell.dead = false → ∀ found, live cell.slot = some found →
      added.Apart found)
    (unshared : after.Unshared (Function.update pushed slot (some added)))
    (success : self.pushFrontBlock turn slot added = (.ok (), after)) (disjoint : after.LiveDisjoint) :
    ∃ live' rest, Indexed involved reading (Function.update pushed slot (some added)) none live' after
      rest := by
  have outside : ∀ other ∈ contents, other.slot ≠ slot := fun other member =>
    (indexed.spans.consecutive.lt_next next member).ne
  unfold Store.pushFrontBlock at success
  cases placed : self.placeFront slot added (self.blocks.blocks.size + 1) (some turn) with
  | mk result middle =>
      rw [placed] at success
      cases result with
      | error error => cases success
      | ok place =>
          obtain ⟨storageId, offset⟩ := place
          unfold Store.pushFrontStored StoredBlocksWrite.pushBlockFrontConfirmed at success
          obtain ⟨stored, rfl⟩ := Prod.mk.inj success
          -- The blocks that are left share the ring with the pushed one.
          have apart : ∀ rest, rest <:+ contents → middle.blocks.Spans rest → ∀ cell ∈ rest,
              cell.dead = false → ∀ found, live cell.slot = some found → added.Apart found := by
            intro rest suffix spans cell inside alive found known
            have entered := spans.pushed_front rfl
              (fun last isLast => next last (mem_getLast?_of_suffix suffix isLast))
              (Prod.ext stored rfl)
            exact unshared.apart entered (List.mem_append_right _ (List.mem_singleton_self _)) rfl rfl
              (List.mem_append_left _ inside) alive (outside cell (suffix.subset inside))
              (indexed.only _ _ known).1
          obtain ⟨rest, live', path, suffix, kept, known, found, disk⟩ :=
            (indexed.push outside (some added)).placeFront (.waiting turn) outside
              (Function.update_self _ _ _) built (by rintro _ ⟨⟩; exact spares) apart placed
          have spans := kept.spans.pushed_front rfl
            (fun last isLast => next last (mem_getLast?_of_suffix suffix isLast)) (Prod.ext stored rfl)
          exact ⟨live', _, kept.entered known found rfl
            (fun other member => outside other (suffix.subset member)) spans
            (fun other => by rw [List.mem_append, List.mem_singleton, or_comm])
            (some (added, storageId, offset)) rfl rfl disk disjoint⟩

/-- A successful push at the front keeps the index records those of the live blocks. -/
theorem Indexed.pushBlockFront {turn : Nat} {next : Option BlockWithBinary}
    (indexed : Indexed involved reading pushed none live self contents)
    (built : ∀ block ∈ next, involved.Built slot block)
    (spares : ∀ block ∈ next, self.Spares pushed turn block)
    (unshared : after.Unshared (Function.update pushed slot next))
    (success : self.pushBlockFront turn slot next = (.ok (), after)) (disjoint : after.LiveDisjoint) :
    ∃ live' rest, Indexed involved reading (Function.update pushed slot next) none live' after rest := by
  unfold Store.pushBlockFront at success
  split at success
  · cases success
  · rename_i accepted
    obtain ⟨_, slotAccepted, -⟩ := bind_eq_ok accepted
    have follows := indexed.spans.checkFrontSlot slotAccepted
    split at success
    · cases success
    · rename_i middle made
      obtain ⟨live', kept⟩ := indexed.makeRoom made
      have suffix := List.drop_suffix (self.removedFirst 0) contents
      have follows' : ∀ last ∈ (contents.drop (self.removedFirst 0)).getLast?, slot = last.slot + 1 :=
        fun last isLast => follows last (mem_getLast?_of_suffix suffix isLast)
      cases next with
      | none =>
          unfold Store.pushFrontDead StoredBlocksWrite.pushBlockFrontDead at success
          obtain ⟨stored, rfl⟩ := Prod.mk.inj success
          have spans := kept.spans.pushed_front rfl follows' (Prod.ext stored rfl)
          have outside : ∀ other ∈ contents.drop (self.removedFirst 0), other.slot ≠ slot :=
            fun other member => (kept.spans.consecutive.lt_next follows' member).ne
          exact ⟨live', _, (kept.push outside none).enteredDead spans
            (fun other => by rw [List.mem_append, List.mem_singleton, or_comm]) none rfl rfl rfl⟩
      | some added =>
          refine kept.pushFrontBlock follows' (built added rfl) ?_ unshared success disjoint
          intro cell inside alive found known
          rw [List.drop_drop] at inside
          refine spares added rfl cell.slot found ?_ (tail_add_le indexed.spans inside)
          exact live_of_mem indexed.spans (List.drop_subset _ _ inside) alive
            (kept.only _ _ known).1

/-- A successful push at the back keeps the index records those of the live blocks. -/
theorem Indexed.pushBlockBack {turn : Nat} {next : Option BlockWithBinary}
    (indexed : Indexed involved reading pushed none live self contents)
    (built : ∀ block ∈ next, involved.Built slot block)
    (unshared : after.Unshared (Function.update pushed slot next))
    (success : self.pushBlockBack turn slot next = (.ok true, after)) (disjoint : after.LiveDisjoint) :
    ∃ live' rest, Indexed involved reading (Function.update pushed slot next) none live' after rest := by
  unfold Store.pushBlockBack at success
  split at success
  · cases success
  · rename_i accepted
    obtain ⟨_, slotAccepted, -⟩ := bind_eq_ok accepted
    have follows := indexed.spans.checkBackSlot slotAccepted
    have outside : ∀ other ∈ contents, other.slot ≠ slot := fun other member =>
      (indexed.spans.consecutive.next_lt follows member).ne'
    split at success
    · cases success
    · cases next with
      | none =>
          unfold Store.pushBackDead StoredBlocksWrite.pushBlockBackDead at success
          obtain ⟨stored, rfl⟩ := Prod.mk.inj success
          have stored := ok_of_map stored
          have spans := indexed.spans.pushed_back rfl follows (Prod.ext stored rfl)
          exact ⟨live, _, (indexed.push outside none).enteredDead spans
            (fun other => List.mem_cons) none rfl rfl rfl⟩
      | some added =>
          have names := self.files.pushBlock_names self.disk added.protobuf .back
          dsimp only at success
          generalize written : self.files.pushBlockBack self.disk added.protobuf = outcome at success
          obtain ⟨error | _ | ⟨storageId, offset⟩, files, disk⟩ := outcome
          · cases success
          · cases success
          · rw [show self.files.pushBlock self.disk added.protobuf .back = _ from written] at names
            obtain ⟨path, found, rfl⟩ := indexed.opens.placed written
            unfold Store.pushBackStored StoredBlocksWrite.pushBlockBackConfirmed at success
            obtain ⟨stored, rfl⟩ := Prod.mk.inj success
            have stored := ok_of_map stored
            have spans := indexed.spans.pushed_back rfl follows (Prod.ext stored rfl)
            have apart : ∀ other found, live other = some found → added.Apart found := by
              intro other found known
              obtain ⟨isPushed, isPending | ⟨cell, inside, rfl, alive⟩⟩ := indexed.only other found known
              · cases isPending
              · exact unshared.apart spans List.mem_cons_self rfl rfl (List.mem_cons_of_mem _ inside)
                  alive (outside cell inside) isPushed
            have kept := (indexed.push outside (some added)).addIndexes outside
              (Function.update_self _ _ _) (built added rfl) apart
            exact ⟨_, _, (kept.of_files names.1).entered (Function.update_self _ _ _) found rfl outside
              spans (fun other => List.mem_cons) (some (added, storageId, offset)) rfl rfl rfl disjoint⟩

end Store

/-- The block of a push is the last one of its slot. -/
def StoreCall.record (pushed : Nat → Option BlockWithBinary) : StoreCall → Nat → Option BlockWithBinary
  | .pushBlockFront _ slot block | .pushBlockBack _ slot block => Function.update pushed slot block
  | .popBlockFront | .popBlockBack => pushed

namespace Store

/-- The call stores its block or removes one. -/
def Succeeds (self after : Store) : StoreCall → Prop
  | .pushBlockFront turn slot block => self.pushBlockFront turn slot block = (.ok (), after)
  | .pushBlockBack turn slot block => self.pushBlockBack turn slot block = (.ok true, after)
  | .popBlockFront => self.popBlockFront = (.ok (), after)
  | .popBlockBack => self.popBlockBack = (.ok (), after)

/-- A pushed block was built for its slot. -/
def BuildsFor (involved : Involved) : StoreCall → Prop
  | .pushBlockFront _ slot block | .pushBlockBack _ slot block =>
      ∀ added ∈ block, involved.Built slot added
  | .popBlockFront | .popBlockBack => True

/-- A block that is pushed at the front spares the signatures of the live blocks that are still there
when the turn of its index records comes. -/
def SparesSignatures (self : Store) (pushed : Nat → Option BlockWithBinary) : StoreCall → Prop
  | .pushBlockFront turn _ block => ∀ added ∈ block, self.Spares pushed turn added
  | .pushBlockBack _ _ _ | .popBlockFront | .popBlockBack => True

/-- The permitted calls lead from the first store to this one, with the block that was pushed last for each
slot; no two live blocks share a signature, and no write goes to the place of a live block. -/
inductive Stores (involved : Involved)
    (allowed : Store → (Nat → Option BlockWithBinary) → StoreCall → Prop) (first : Store) :
    Store → (Nat → Option BlockWithBinary) → Prop
  | start : Stores involved allowed first first fun _ => none
  | call {store after : Store} {pushed : Nat → Option BlockWithBinary}
      (stores : Stores involved allowed first store pushed) (call : StoreCall)
      (permitted : allowed store pushed call) (built : BuildsFor involved call)
      (succeeds : store.Succeeds after call) (unshared : after.Unshared (call.record pushed))
      (disjoint : after.LiveDisjoint) : Stores involved allowed first after (call.record pushed)

/-- Every successful call keeps the index records those of the live blocks. -/
theorem Indexed.call {call : StoreCall}
    (indexed : Indexed involved reading pushed none live self contents)
    (spares : self.SparesSignatures pushed call) (built : BuildsFor involved call)
    (succeeds : self.Succeeds after call) (unshared : after.Unshared (call.record pushed))
    (disjoint : after.LiveDisjoint) :
    ∃ live' rest, Indexed involved reading (call.record pushed) none live' after rest := by
  cases call with
  | pushBlockFront turn slot block =>
      exact indexed.pushBlockFront built spares unshared succeeds disjoint
  | pushBlockBack turn slot block =>
      exact indexed.pushBlockBack built unshared succeeds disjoint
  | popBlockFront =>
      obtain ⟨block, rest, -, kept⟩ := indexed.popBlockFront (by rintro _ _ ⟨⟩) succeeds
      exact ⟨_, rest, kept⟩
  | popBlockBack =>
      obtain ⟨block, rest, -, -, kept⟩ := indexed.popBlockBack (by rintro _ _ ⟨⟩) succeeds
      exact ⟨_, rest, kept⟩

/-- The index records stay those of the live blocks through a whole run. -/
theorem Stores.indexed {first : Store} (stores : Stores involved SparesSignatures first self pushed)
    (indexed : Indexed involved reading (fun _ => none) none live first contents) :
    ∃ live' rest, Indexed involved reading pushed none live' self rest := by
  induction stores with
  | start => exact ⟨live, contents, indexed⟩
  | call stores call spares built succeeds unshared disjoint ih =>
      obtain ⟨live', rest, kept⟩ := ih
      exact kept.call spares built succeeds unshared disjoint

/-- A storage over an empty database has no index records. -/
theorem indexed_startup (startup : Startup) (empty : startup.db = Rocksdb.empty)
    (opens : startup.reading.Opens startup.files) :
    Indexed involved startup.reading (fun _ => none) none (fun _ => none) startup.store [] where
  spans := by
    have isList : startup.list = [] := by
      have loaded := startup.loaded
      rw [empty] at loaded
      exact (Except.ok.inj loaded).symm
    have recorded : startup.db.Recorded := by
      rw [empty]
      intro slot value found
      cases found
    rw [← isList]
    exact (startup.ready recorded).spans
  describes := by
    change startup.db.Describes _
    rw [empty]
    exact Rocksdb.describes_empty
  opens := opens
  built := by rintro _ _ ⟨⟩
  only := by rintro _ _ ⟨⟩
  stored := by rintro _ ⟨⟩

end Store

end Alpamayo
