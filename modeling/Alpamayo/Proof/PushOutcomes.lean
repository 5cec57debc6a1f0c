import Alpamayo.Proof.StoredHeights

/-!
This file shows when a push stores its block or refuses it without a change of the ring and without a
panic.
-/

namespace Alpamayo

/-- A panic of the source is one of the errors. -/
def StorageError.IsPanic : StorageError → Prop
  | panicked _ => True
  | _ => False

/-- The result is no panic of the source. -/
abbrev AvoidsPanic {A : Type} (result : Except StorageError A) : Prop :=
  Avoids StorageError.IsPanic result

theorem addOne_avoidsPanic {value : Nat} (fits : value < maxSlot) : AvoidsPanic (addOne value) := by
  rw [addOne, if_pos fits]
  exact avoids_ok _

theorem subOne_avoidsPanic {value : Nat} (fits : 0 < value) : AvoidsPanic (subOne value) := by
  rw [subOne, if_pos fits]
  exact avoids_ok _

section checks

variable {self : StoredBlocksWrite} {contents : List StoredBlock} {added : Option BlockWithBinary}

/-- The check of a slot at the front panics only above the last slot. -/
theorem checkFrontSlot_avoidsPanic (slot : Nat)
    (slotFits : ∀ front ∈ self.getFrontSlot, front < maxSlot) :
    AvoidsPanic (checkFrontSlot self slot) := by
  unfold checkFrontSlot
  cases known : self.getFrontSlot with
  | none => exact avoids_ok _
  | some front =>
      refine (addOne_avoidsPanic (slotFits front known)).bind fun next => ?_
      split <;> simp [StorageError.IsPanic]

/-- The check of a height at the front asks for a height that every live block has. -/
theorem checkFrontHeight_avoidsPanic (slot : Nat) (spans : self.Spans contents)
    (heighted : ∀ block ∈ contents, block.isLive = true → block.blockHeight.isSome = true)
    (carries : ∀ block ∈ added, block.blockHeight.isSome = true)
    (heightFits : added.isSome = true →
      ∀ front, self.getFrontHeight = .ok (some front) → front.2 < maxSlot) :
    AvoidsPanic (checkFrontHeight self slot added) := by
  unfold checkFrontHeight
  have found := spans.getFrontHeight heighted
  generalize ((contents.filter StoredBlock.isLive).getLast?.bind fun block =>
    block.blockHeight.map fun height => (block.slot, height)) = front at found
  rw [found]
  cases front with
  | none => exact avoids_ok _
  | some front =>
      cases added with
      | none => exact avoids_ok _
      | some block =>
          obtain ⟨_, _, _, blockHeight, _, _, _, _⟩ := block
          obtain ⟨height, rfl⟩ : ∃ height, blockHeight = some height :=
            Option.isSome_iff_exists.mp (carries _ rfl)
          change AvoidsPanic (addOne front.2 >>= _)
          refine (addOne_avoidsPanic (heightFits rfl front found)).bind fun next => ?_
          split <;> simp [StorageError.IsPanic]

/-- The check of a slot at the back panics only below slot zero. -/
theorem checkBackSlot_avoidsPanic (slot : Nat) (slotFits : ∀ back ∈ self.getBackSlot, 0 < back) :
    AvoidsPanic (checkBackSlot self slot) := by
  unfold checkBackSlot
  cases known : self.getBackSlot with
  | none => exact avoids_ok _
  | some back =>
      refine (subOne_avoidsPanic (slotFits back known)).bind fun next => ?_
      split <;> simp [StorageError.IsPanic]

/-- The check of a height at the back asks for a height that every live block has. -/
theorem checkBackHeight_avoidsPanic (slot : Nat) (spans : self.Spans contents)
    (heighted : ∀ block ∈ contents, block.isLive = true → block.blockHeight.isSome = true)
    (carries : ∀ block ∈ added, block.blockHeight.isSome = true)
    (heightFits : ∀ block ∈ added, ∀ back, self.getBackHeight = .ok (some back) →
      ∀ height ∈ block.blockHeight, height < maxSlot) :
    AvoidsPanic (checkBackHeight self slot added) := by
  unfold checkBackHeight
  have found := spans.getBackHeight heighted
  generalize ((contents.filter StoredBlock.isLive).head?.bind fun block =>
    block.blockHeight.map fun height => (block.slot, height)) = back at found
  rw [found]
  cases back with
  | none => exact avoids_ok _
  | some back =>
      cases added with
      | none => exact avoids_ok _
      | some block =>
          obtain ⟨_, _, _, blockHeight, _, _, _, _⟩ := block
          obtain ⟨height, rfl⟩ : ∃ height, blockHeight = some height :=
            Option.isSome_iff_exists.mp (carries _ rfl)
          change AvoidsPanic (addOne height >>= _)
          refine (addOne_avoidsPanic (heightFits _ rfl back found height rfl)).bind
            fun next => ?_
          split <;> simp [StorageError.IsPanic]

end checks

theorem StorageFile.writeSide_avoidsPanic (self : StorageFile) (disk : Disk) (buffer : Bytes)
    (side : VecSide) : AvoidsPanic (self.writeSide disk buffer side).1 := by
  cases side with
  | back =>
      simp only [writeSide, writeBack]
      split <;> simp [StorageError.IsPanic]
  | front =>
      simp only [writeSide, writeFront]
      split
      · simp [StorageError.IsPanic]
      · split <;> simp [StorageError.IsPanic]

/-- Sound files have the file that the search selects. -/
theorem StorageFilesWrite.Sound.pushBlock_avoidsPanic {self : StorageFilesWrite} (sound : self.Sound)
    (nonempty : self.files ≠ []) (disk : Disk) (buffer : Bytes) (side : VecSide) :
    AvoidsPanic (self.pushBlock disk buffer side).1 := by
  unfold StorageFilesWrite.pushBlock
  obtain ⟨index, file, chosen, place, -⟩ | ⟨searched, -⟩ :=
    StorageFilesWrite.getFileIndexForNewBlock_cases (sound.start nonempty) buffer.length
  · obtain ⟨frame, -⟩ := StorageFilesWrite.getFileIndexForNewBlock_frame self buffer.length
    generalize self.getFileIndexForNewBlock buffer.length = found at chosen frame
    obtain ⟨result, after⟩ := found
    cases chosen
    dsimp only at frame ⊢
    rw [frame, place]
    have written := file.writeSide_avoidsPanic disk buffer side
    dsimp only
    split
    · rename_i failed
      rw [failed] at written
      simpa using written
    · exact avoids_ok _
  · rw [searched]
    exact avoids_ok _

/-- A live cell has a height, and a dead slot is above zero. -/
structure StoredBlock.Walkable (block : StoredBlock) : Prop where
  heighted : block.isLive = true → block.blockHeight.isSome = true
  above : block.present = true → block.dead = true → 0 < block.slot

theorem StoredBlock.walkable_newNoexists : StoredBlock.newNoexists.Walkable where
  heighted := by rintro ⟨⟩
  above := by rintro ⟨⟩

/-- A block has a height, and a dead slot is above zero. -/
def CarriesHeight (slot : Nat) : Option BlockWithBinary → Prop
  | none => 0 < slot
  | some block => block.blockHeight.isSome = true

/-- A push at the front carries a height unless its slot is refused. -/
def CarriesFront (blocks : StoredBlocksWrite) (slot : Nat) (pushed : Option BlockWithBinary) : Prop :=
  checkFrontSlot blocks slot = .ok () → CarriesHeight slot pushed

/-- A push at the back carries a height unless its slot is refused. -/
def CarriesBack (blocks : StoredBlocksWrite) (slot : Nat) (pushed : Option BlockWithBinary) : Prop :=
  checkBackSlot blocks slot = .ok () → CarriesHeight slot pushed

theorem CarriesHeight.of_mem {slot : Nat} {pushed : Option BlockWithBinary}
    (carries : CarriesHeight slot pushed) : ∀ block ∈ pushed, block.blockHeight.isSome = true := by
  rintro block rfl
  exact carries

theorem CarriesHeight.pushable {slot : Nat} {pushed : Option BlockWithBinary}
    (carries : CarriesHeight slot pushed) : Pushable StoredBlock.Walkable slot pushed := by
  rintro _ (_ | ⟨block, storageId, offset⟩)
  · exact ⟨by rintro ⟨⟩, fun _ _ => carries⟩
  · exact ⟨fun _ => carries, by rintro - ⟨⟩⟩

namespace StoredBlocksWrite

variable {self : StoredBlocksWrite} {slot : Nat} {cell : StoredBlock}
  {pushed : Option BlockWithBinary}

/-- Every live cell has a height. -/
def Heighted (self : StoredBlocksWrite) : Prop :=
  ∀ index, (self.blocks.cells index).isLive = true →
    (self.blocks.cells index).blockHeight.isSome = true

/-- A cell of the ring records the pushed block. -/
def Contains (self : StoredBlocksWrite) (slot : Nat) (pushed : Option BlockWithBinary) : Prop :=
  ∃ index, CellOf slot pushed (self.blocks.cells index)

/-- A push at the front that succeeds stores its cell. -/
theorem contains_pushBlockFront2 (known : CellOf slot pushed cell)
    (success : (self.pushBlockFront2 cell).1 = .ok ()) :
    (self.pushBlockFront2 cell).2.Contains slot pushed := by
  simp only [pushBlockFront2] at success ⊢
  split at success
  · cases success
  · rename_i free
    have stored : (self.blocks.pushFront cell).cells (self.blocks.next self.blocks.head) = cell :=
      Function.update_self _ _ _
    rw [if_neg free, Contains, updateTotal_blocks]
    refine ⟨self.blocks.next self.blocks.head, ?_⟩
    dsimp only
    rw [stored]
    exact known

/-- A push at the back that succeeds stores its cell. -/
theorem contains_pushBlockBack2 (known : CellOf slot pushed cell)
    (success : (self.pushBlockBack2 cell).1 = .ok ()) :
    (self.pushBlockBack2 cell).2.Contains slot pushed := by
  simp only [pushBlockBack2] at success ⊢
  split at success
  · cases success
  · rename_i free
    have stored : (self.blocks.pushBack cell).cells (self.blocks.prev self.blocks.tail) = cell :=
      Function.update_self _ _ _
    rw [if_neg free, Contains, updateTotal_blocks]
    refine ⟨self.blocks.prev self.blocks.tail, ?_⟩
    dsimp only
    rw [stored]
    exact known

end StoredBlocksWrite

namespace Store

variable {self after : Store} {contents : List StoredBlock} {slot turn : Nat}
  {pushed : Option BlockWithBinary}

/-- A push is refused with the same ring, or it stores its block in a ring of live cells with
heights; it does not panic. -/
def PushOutcome (before : Store) (slot : Nat) (pushed : Option BlockWithBinary) :
    Except StorageError Bool → Store → Prop
  | .error error, after => ¬ error.IsPanic ∧ after.blocks = before.blocks
  | .ok false, after => after.blocks = before.blocks
  | .ok true, after => after.blocks.Contains slot pushed ∧ after.blocks.Heighted

/-- A push at the front evicts nothing, or the evictions make room for its block. -/
def RoomyFront (store : Store) (contents : List StoredBlock) : Option BlockWithBinary → Prop
  | none => store.blocks.isFull = true → ∀ oldest ∈ contents.head?, store.files.Removable oldest
  | some block => (∃ count, store.files.FindsRoom contents block.protobuf.length
      (if store.blocks.isFull then 1 else 0) count) ∨ contents = [] ∧ store.files.files ≠ [] ∨
    store.blocks.isFull = false ∧ ∃ file ∈ store.files.files, file.Takes block.protobuf.length

/-- The push at the front carries a height, its arithmetic does not overflow, and it evicts no block in
vain. -/
structure FrontMeets (store : Store) (slot : Nat) (pushed : Option BlockWithBinary) : Prop where
  slotFits : ∀ front ∈ store.blocks.getFrontSlot, front < maxSlot
  carries : CarriesFront store.blocks slot pushed
  heightFits : checkFrontSlot store.blocks slot = .ok () → pushed.isSome = true →
    ∀ front, store.blocks.getFrontHeight = .ok (some front) → front.2 < maxSlot
  room : (checkFrontSlot store.blocks slot >>= fun _ =>
      checkFrontHeight store.blocks slot pushed) = .ok () →
    ∀ contents, store.blocks.Spans contents → store.RoomyFront contents pushed

/-- The push at the back carries a height, its arithmetic does not overflow, and it has a file. -/
structure BackMeets (store : Store) (slot : Nat) (pushed : Option BlockWithBinary) : Prop where
  slotFits : ∀ back ∈ store.blocks.getBackSlot, 0 < back
  carries : CarriesBack store.blocks slot pushed
  heightFits : checkBackSlot store.blocks slot = .ok () → ∀ block ∈ pushed,
    ∀ back, store.blocks.getBackHeight = .ok (some back) →
      ∀ height ∈ block.blockHeight, height < maxSlot
  file : (checkBackSlot store.blocks slot >>= fun _ =>
      checkBackHeight store.blocks slot pushed) = .ok () →
    store.blocks.isFull = false → pushed.isSome = true → store.files.files ≠ []

/-- The checks of a push at the front do not panic. -/
theorem FrontMeets.checks_avoidPanic (meets : self.FrontMeets slot pushed)
    (spans : self.blocks.Spans contents)
    (heighted : ∀ block ∈ contents, block.isLive = true → block.blockHeight.isSome = true) :
    AvoidsPanic (checkFrontSlot self.blocks slot >>= fun _ =>
      checkFrontHeight self.blocks slot pushed) := by
  have calm := checkFrontSlot_avoidsPanic slot meets.slotFits
  cases accepted : checkFrontSlot self.blocks slot with
  | error error =>
      rw [accepted] at calm
      exact calm
  | ok _ =>
      exact checkFrontHeight_avoidsPanic slot spans heighted (meets.carries accepted).of_mem
        (meets.heightFits accepted)

/-- The checks of a push at the back do not panic. -/
theorem BackMeets.checks_avoidPanic (meets : self.BackMeets slot pushed)
    (spans : self.blocks.Spans contents)
    (heighted : ∀ block ∈ contents, block.isLive = true → block.blockHeight.isSome = true) :
    AvoidsPanic (checkBackSlot self.blocks slot >>= fun _ =>
      checkBackHeight self.blocks slot pushed) := by
  have calm := checkBackSlot_avoidsPanic slot meets.slotFits
  cases accepted : checkBackSlot self.blocks slot with
  | error error =>
      rw [accepted] at calm
      exact calm
  | ok _ =>
      exact checkBackHeight_avoidsPanic slot spans heighted (meets.carries accepted).of_mem
        (meets.heightFits accepted)

/-- A push at the front that succeeds leaves its block in the ring. -/
theorem contains_pushBlockFront (success : self.pushBlockFront turn slot pushed = (.ok (), after)) :
    after.blocks.Contains slot pushed := by
  unfold Store.pushBlockFront at success
  split at success
  · cases success
  · generalize (if self.blocks.isFull then self.popBlockBack else (.ok (), self)) = made at success
    obtain ⟨failed | _, middle⟩ := made
    · cases success
    · cases pushed with
      | none =>
          obtain ⟨stored, rfl⟩ := Prod.mk.inj success
          exact StoredBlocksWrite.contains_pushBlockFront2 .dead stored
      | some added =>
          dsimp only at success
          unfold Store.pushFrontBlock at success
          split at success
          · cases success
          · rename_i storageId offset placed _
            obtain ⟨stored, rfl⟩ := Prod.mk.inj success
            exact StoredBlocksWrite.contains_pushBlockFront2 (.live added storageId offset) stored

theorem Every.heighted (every : self.Every StoredBlock.Walkable) : self.blocks.Heighted :=
  fun index => (every.cells index).heighted

/-- A block of the contents is a cell of the ring. -/
theorem Every.mem (every : self.Every StoredBlock.Walkable) (spans : self.blocks.Spans contents) :
    ∀ block ∈ contents, block.Walkable := by
  intro block member
  obtain ⟨index, rfl⟩ := (spans.mem_iff (spans.consecutive.present block member)).mp member
  exact every.cells index

/-- A push at the front that succeeds has the wanted outcome. -/
theorem pushBlockFront_stored (every : self.Every StoredBlock.Walkable)
    (carries : CarriesHeight slot pushed)
    (success : self.pushBlockFront turn slot pushed = (.ok (), after)) :
    PushOutcome self slot pushed ((self.pushBlockFront turn slot pushed).1.map fun _ => true)
      (self.pushBlockFront turn slot pushed).2 := by
  have kept : (self.pushBlockFront turn slot pushed).2.Every StoredBlock.Walkable :=
    every.pushBlockFront StoredBlock.walkable_newNoexists carries.pushable
  have contains := contains_pushBlockFront success
  rw [success] at kept ⊢
  exact ⟨contains, kept.heighted⟩

/-- A ring with room stores a dead slot. -/
theorem Ready.exists_pushFrontDead (ready : self.Ready contents)
    (next : ∀ last ∈ contents.getLast?, slot = last.slot + 1)
    (room : contents.length < self.blocks.blocks.size) :
    ∃ after, self.pushFrontDead slot = (.ok (), after) := by
  obtain ⟨stored, -⟩ := ready.spans.pushBlockFront2
    (show (StoredBlock.newDead slot).present = true from rfl) next room
  exact ⟨_, Prod.ext stored rfl⟩

/-- A dead slot that passes the checks is stored if a full ring can lose its oldest block. -/
theorem Ready.exists_pushBlockFront_none (turn : Nat) (ready : self.Ready contents)
    (checked : (checkFrontSlot self.blocks slot >>= fun _ =>
      checkFrontHeight self.blocks slot none) = .ok ())
    (room : self.RoomyFront contents none) :
    ∃ after, self.pushBlockFront turn slot none = (.ok (), after) := by
  obtain ⟨_, slotAccepted, -⟩ := bind_eq_ok checked
  have next := ready.spans.checkFrontSlot slotAccepted
  unfold Store.pushBlockFront
  rw [checked]
  dsimp only
  cases full : self.blocks.isFull with
  | false =>
      rw [if_neg Bool.false_ne_true]
      exact ready.exists_pushFrontDead next (ready.spans.room_of_not_full full)
  | true =>
      have length := ready.spans.isFull_iff.mp full
      cases contents with
      | nil => exact absurd length self.blocks.blocks.size_pos.ne
      | cons oldest rest =>
          obtain ⟨after, popped, kept, -, -, size, -⟩ := ready.popBlockBack (room full oldest rfl)
          rw [if_pos rfl, popped]
          refine kept.exists_pushFrontDead
            (fun last isLast => next last (mem_getLast?_of_suffix (List.suffix_cons oldest rest) isLast)) ?_
          rw [size, ← length]
          exact Nat.lt_succ_self _

/-- The turn of the records leaves the place for the block as it is. -/
theorem takeTurn_place (self : Store) (slot : Nat) (added : BlockWithBinary) (pending : Option Nat) :
    (self.takeTurn slot added pending).1.files = self.files ∧
      (self.takeTurn slot added pending).1.disk = self.disk := by
  rcases pending with _ | _ | turn <;> exact ⟨rfl, rfl⟩

/-- A block whose first write fails leaves the ring as it is. -/
theorem pushFrontBlock_failed (turn slot : Nat) {added : BlockWithBinary} {error : StorageError}
    (failed : (self.files.pushBlockFront self.disk added.protobuf).1 = .error error) :
    (self.pushFrontBlock turn slot added).1 = .error error ∧
      (self.pushFrontBlock turn slot added).2.blocks = self.blocks := by
  unfold Store.pushFrontBlock Store.placeFront
  obtain ⟨files, disk⟩ := takeTurn_place self slot added (some turn)
  have blocks := takeTurn_blocks self slot added (some turn)
  generalize self.takeTurn slot added (some turn) = taken at files disk blocks ⊢
  obtain ⟨indexed, pending⟩ := taken
  dsimp only at files disk blocks ⊢
  rw [files, disk]
  generalize self.files.pushBlockFront self.disk added.protobuf = written at failed ⊢
  obtain ⟨result, files', disk'⟩ := written
  cases failed
  exact ⟨rfl, blocks⟩

/-- An empty ring has no block to remove for a block without a place. -/
theorem Ready.pushFrontBlock_unplaced (ready : self.Ready []) (turn slot : Nat)
    {added : BlockWithBinary}
    (refused : self.files.pushBlockFront self.disk added.protobuf = (.ok none, self.files, self.disk)) :
    (self.pushFrontBlock turn slot added).1 = .error .noBlocksToRemove ∧
      (self.pushFrontBlock turn slot added).2.blocks = self.blocks := by
  unfold Store.pushFrontBlock Store.placeFront
  obtain ⟨files, disk⟩ := takeTurn_place self slot added (some turn)
  have blocks := takeTurn_blocks self slot added (some turn)
  have turned := (ready.takeTurn slot added (some turn)).1
  generalize self.takeTurn slot added (some turn) = taken at files disk blocks turned ⊢
  obtain ⟨indexed, pending⟩ := taken
  dsimp only at files disk blocks turned ⊢
  rw [files, disk, refused]
  have same : { indexed with files := self.files, disk := self.disk } = indexed := by
    rw [← files, ← disk]
  dsimp only
  rw [same, turned.popBlockBack_nil]
  exact ⟨rfl, blocks⟩

/-- A block for which a ring with room evicts nothing is stored or refused. -/
theorem Ready.pushFrontBlock_outcome (ready : self.Ready contents) {added : BlockWithBinary}
    (turn slot : Nat) (finds : ¬ self.files.HasRoom added.protobuf.length)
    (kept : contents = [] ∧ self.files.files ≠ [] ∨
      ∃ file ∈ self.files.files, file.Takes added.protobuf.length) :
    ∃ error, (self.pushFrontBlock turn slot added).1 = .error error ∧ ¬ error.IsPanic ∧
      (self.pushFrontBlock turn slot added).2.blocks = self.blocks := by
  have nonempty : self.files.files ≠ [] := by
    obtain ⟨-, nonempty⟩ | ⟨file, member, -⟩ := kept
    · exact nonempty
    · exact List.ne_nil_of_mem member
  obtain ⟨-, refused, written⟩ | ⟨room, -⟩ | ⟨-, ⟨error, failed⟩, -⟩ :=
    ready.sound.pushBlockFront_cases self.disk added.protobuf
  · obtain ⟨rfl, -⟩ | ⟨file, member, takes⟩ := kept
    · obtain ⟨result, same⟩ := ready.pushFrontBlock_unplaced turn slot written
      exact ⟨_, result, id, same⟩
    · exact absurd takes (refused file member)
  · exact absurd room finds
  · obtain ⟨result, same⟩ := pushFrontBlock_failed turn slot failed
    exact ⟨error, result, ready.sound.pushBlock_avoidsPanic nonempty self.disk added.protobuf .front
      error failed, same⟩

/-- A push at the front that meets the conditions has the wanted outcome. -/
theorem Ready.pushBlockFront_outcome (ready : self.Ready contents)
    (every : self.Every StoredBlock.Walkable) (meets : self.FrontMeets slot pushed) (turn : Nat) :
    PushOutcome self slot pushed ((self.pushBlockFront turn slot pushed).1.map fun _ => true)
      (self.pushBlockFront turn slot pushed).2 := by
  have heighted : ∀ block ∈ contents, block.isLive = true → block.blockHeight.isSome = true :=
    fun block member => (every.mem ready.spans block member).heighted
  cases checked : (checkFrontSlot self.blocks slot >>= fun _ =>
      checkFrontHeight self.blocks slot pushed) with
  | error error =>
      have refused : self.pushBlockFront turn slot pushed = (.error error, self) := by
        unfold Store.pushBlockFront
        rw [checked]
      rw [refused]
      exact ⟨meets.checks_avoidPanic ready.spans heighted error checked, rfl⟩
  | ok accepted =>
      obtain ⟨_, slotAccepted, -⟩ := bind_eq_ok checked
      have carries := meets.carries slotAccepted
      have room := meets.room checked contents ready.spans
      cases pushed with
      | none =>
          obtain ⟨after, success⟩ := ready.exists_pushBlockFront_none turn checked room
          exact pushBlockFront_stored every carries success
      | some added =>
          by_cases finds : ∃ count, self.files.FindsRoom contents added.protobuf.length
              (if self.blocks.isFull then 1 else 0) count
          · obtain ⟨after, success⟩ := (ready.pushBlockFront_some checked).1.mpr finds
            exact pushBlockFront_stored every carries success
          · have full : self.blocks.isFull = false := by
              obtain found | ⟨rfl, -⟩ | ⟨full, -⟩ := room
              · exact absurd found finds
              · cases same : self.blocks.isFull with
                | false => rfl
                | true => exact absurd (ready.spans.isFull_iff.mp same) self.blocks.blocks.size_pos.ne
              · exact full
            rw [full] at finds
            have roomless : ¬ self.files.HasRoom added.protobuf.length := fun room =>
              finds ⟨0, StorageFilesWrite.findsRoom_zero_iff.mpr ⟨rfl, room⟩⟩
            have kept : contents = [] ∧ self.files.files ≠ [] ∨
                ∃ file ∈ self.files.files, file.Takes added.protobuf.length := by
              obtain found | empty | ⟨-, takes⟩ := room
              · rw [full] at found
                exact absurd found finds
              · exact Or.inl empty
              · exact Or.inr takes
            obtain ⟨error, result, calm, same⟩ := ready.pushFrontBlock_outcome turn slot roomless kept
            have whole : self.pushBlockFront turn slot (some added) =
                self.pushFrontBlock turn slot added := by
              unfold Store.pushBlockFront
              rw [checked, full]
              rfl
            rw [whole, result]
            exact ⟨calm, same⟩

/-- A block that passes the checks of a ring with room fails in the files, finds no place in them, or
enters the ring. -/
theorem pushBlockBack_cases {block : BlockWithBinary} (turn : Nat)
    (checked : (checkBackSlot self.blocks slot >>= fun _ =>
      checkBackHeight self.blocks slot (some block)) = .ok ())
    (full : self.blocks.isFull = false) :
    (∃ error after, self.pushBlockBack turn slot (some block) = (.error error, after) ∧
      after.blocks = self.blocks ∧
      (self.files.pushBlockBack self.disk block.protobuf).1 = .error error) ∨
    (∃ after, self.pushBlockBack turn slot (some block) = (.ok false, after) ∧
      after.blocks = self.blocks) ∨
    ∃ storageId offset middle, middle.blocks = self.blocks ∧
      self.pushBlockBack turn slot (some block) = Store.pushBackStored middle slot block storageId
        offset := by
  unfold Store.pushBlockBack
  rw [checked, full]
  dsimp only
  rw [if_neg Bool.false_ne_true]
  generalize self.files.pushBlockBack self.disk block.protobuf = written
  rcases written with ⟨error | _ | ⟨storageId, offset⟩, files, disk⟩
  · exact Or.inl ⟨error, _, rfl, rfl, rfl⟩
  · exact Or.inr (Or.inl ⟨_, rfl, rfl⟩)
  · exact Or.inr (Or.inr ⟨storageId, offset,
      { self with files, disk, db := self.db.addIndexes slot block }, rfl, rfl⟩)

/-- A push at the back that stores its block has the wanted outcome. -/
theorem pushBlockBack_stored (every : self.Every StoredBlock.Walkable)
    (carries : CarriesHeight slot pushed) (contains : after.blocks.Contains slot pushed)
    (pushes : self.pushBlockBack turn slot pushed = (.ok true, after)) :
    PushOutcome self slot pushed (self.pushBlockBack turn slot pushed).1
      (self.pushBlockBack turn slot pushed).2 := by
  have kept : (self.pushBlockBack turn slot pushed).2.Every StoredBlock.Walkable :=
    every.pushBlockBack carries.pushable
  rw [pushes] at kept ⊢
  exact ⟨contains, kept.heighted⟩

/-- A push at the back that meets the conditions has the wanted outcome. -/
theorem Ready.pushBlockBack_outcome (ready : self.Ready contents)
    (every : self.Every StoredBlock.Walkable) (meets : self.BackMeets slot pushed) (turn : Nat) :
    PushOutcome self slot pushed (self.pushBlockBack turn slot pushed).1
      (self.pushBlockBack turn slot pushed).2 := by
  have heighted : ∀ block ∈ contents, block.isLive = true → block.blockHeight.isSome = true :=
    fun block member => (every.mem ready.spans block member).heighted
  cases checked : (checkBackSlot self.blocks slot >>= fun _ =>
      checkBackHeight self.blocks slot pushed) with
  | error error =>
      have refused : self.pushBlockBack turn slot pushed = (.error error, self) := by
        unfold Store.pushBlockBack
        rw [checked]
      rw [refused]
      exact ⟨meets.checks_avoidPanic ready.spans heighted error checked, rfl⟩
  | ok accepted =>
      obtain ⟨_, slotAccepted, -⟩ := bind_eq_ok checked
      have carries := meets.carries slotAccepted
      have next := ready.spans.checkBackSlot slotAccepted
      cases full : self.blocks.isFull with
      | true =>
          have refused : self.pushBlockBack turn slot pushed = (.ok false, self) := by
            unfold Store.pushBlockBack
            rw [checked, full]
            rfl
          rw [refused]
          exact rfl
      | false =>
          have room := ready.spans.room_of_not_full full
          cases pushed with
          | none =>
              obtain ⟨stored, -⟩ := ready.spans.pushBlockBack2
                (show (StoredBlock.newDead slot).present = true from rfl) next room
              have pushes : self.pushBlockBack turn slot none =
                  (.ok true, (self.pushBackDead slot).2) := by
                unfold Store.pushBlockBack
                rw [checked, full]
                exact Prod.ext (congrArg (Except.map fun _ => true) stored) rfl
              have contains : (self.pushBackDead slot).2.blocks.Contains slot none :=
                StoredBlocksWrite.contains_pushBlockBack2 .dead stored
              exact pushBlockBack_stored every carries contains pushes
          | some block =>
              have calmWrite := ready.sound.pushBlock_avoidsPanic (meets.file checked full rfl)
                self.disk block.protobuf .back
              obtain ⟨error, after, refused, same, failed⟩ | ⟨after, refused, same⟩ |
                  ⟨storageId, offset, middle, same, entered⟩ := pushBlockBack_cases turn checked full
              · rw [refused]
                exact ⟨calmWrite error failed, same⟩
              · rw [refused]
                exact same
              · obtain ⟨stored, -⟩ := ready.spans.pushBlockBack2
                  (show (StoredBlock.newConfirmed slot block.blockTime block.blockHeight storageId offset
                    block.protobuf.length).present = true from rfl) next room
                rw [← same] at stored
                have contains : (middle.pushBackStored slot block storageId offset).2.blocks.Contains slot
                    (some block) :=
                  StoredBlocksWrite.contains_pushBlockBack2 (.live block storageId offset) stored
                refine pushBlockBack_stored every carries contains (entered.trans ?_)
                exact Prod.ext (congrArg (Except.map fun _ => true) stored) rfl

end Store

end Alpamayo
