import Alpamayo.General.CyclicWindow
import Alpamayo.Storage.Files

/-!
This file follows the live blocks of one storage file through its writes and removals.
-/

namespace Alpamayo

open CyclicWindow

/-- The extent of a block is its range in the file. -/
def StoredBlock.extent (block : StoredBlock) : Extent := ⟨block.offset, block.size⟩

/-- The state lists the live blocks of the file by ascending slot. -/
structure FileState where
  file : StorageFile
  disk : Disk
  live : List StoredBlock

/-- A new file has both cursors at zero and no blocks. -/
def FileState.empty (id : StorageId) (path : Path) (size : Nat) (newBlocks : Bool) (disk : Disk) :
    FileState := ⟨⟨id, path, 0, 0, size, newBlocks⟩, disk, []⟩

/-- The allocator has four operations; a write names the slot, time and height of its block. -/
inductive FileOp where
  | writeFront (slot : Nat) (blockTime : Option UnixTimestamp) (blockHeight : Option Nat)
      (buffer : Bytes)
  | writeBack (slot : Nat) (blockTime : Option UnixTimestamp) (blockHeight : Option Nat)
      (buffer : Bytes)
  | popBack
  | popFront

namespace FileState

/-- A successful operation gives the next state; a failed operation gives none. -/
def step (state : FileState) : FileOp → Option FileState
  | .writeFront slot blockTime blockHeight buffer =>
      if state.live.all fun block => block.slot < slot then
        match state.file.writeFront state.disk buffer with
        | (.ok offset, file, disk) => some ⟨file, disk, state.live ++
            [.newConfirmed slot blockTime blockHeight state.file.id offset buffer.length]⟩
        | (.error _, _) => none
      else none
  | .writeBack slot blockTime blockHeight buffer =>
      if state.live.all fun block => slot < block.slot then
        match state.file.writeBack state.disk buffer with
        | (.ok offset, file, disk) => some ⟨file, disk,
            .newConfirmed slot blockTime blockHeight state.file.id offset buffer.length ::
              state.live⟩
        | (.error _, _) => none
      else none
  | .popBack =>
      match state.live.head? with
      | none => none
      | some block =>
          match state.file.popBlock block .back with
          | (.ok _, file) => some { state with file, live := state.live.tail }
          | (.error _, _) => none
  | .popFront =>
      match state.live.getLast? with
      | none => none
      | some block =>
          match state.file.popBlock block .front with
          | (.ok _, file) => some { state with file, live := state.live.dropLast }
          | (.error _, _) => none

/-- A run performs each operation in the state that the earlier operations reach. -/
def run : FileState → List FileOp → Option FileState
  | state, [] => some state
  | state, op :: ops => (state.step op).bind fun next => run next ops

/-- No two live blocks of the file share a byte. -/
def LiveDisjoint (state : FileState) : Prop :=
  (state.live.map StoredBlock.extent).Pairwise Extent.Disjoint

instance (state : FileState) : Decidable state.LiveDisjoint :=
  inferInstanceAs (Decidable (List.Pairwise _ _))

/-- Bytes are written at equal cursors only while no block is live. -/
def Guard (state : FileState) : FileOp → Prop
  | .writeFront _ _ _ buffer | .writeBack _ _ _ buffer =>
      buffer ≠ [] → state.file.head = state.file.tail → state.live = []
  | .popBack | .popFront => True

/-- Each operation of the run meets the guard in the state before it. -/
def GuardedRun : FileState → List FileOp → Prop
  | _, [] => True
  | state, op :: ops => state.Guard op ∧
      match state.step op with
      | some next => GuardedRun next ops
      | none => True

instance (state : FileState) (op : FileOp) : Decidable (state.Guard op) := by
  cases op <;> unfold Guard <;> infer_instance

instance decidableGuardedRun : (state : FileState) → (ops : List FileOp) →
    Decidable (state.GuardedRun ops)
  | _, [] => isTrue trivial
  | state, op :: ops =>
      match stepped : state.step op with
      | some next =>
          have := decidableGuardedRun next ops
          decidable_of_iff (state.Guard op ∧ next.GuardedRun ops) (by rw [GuardedRun, stepped])
      | none => decidable_of_iff (state.Guard op) (by rw [GuardedRun, stepped, and_true])

end FileState

/-- The live extents ascend from the tail to the head inside one turn of the file. -/
def StorageFile.Placed (file : StorageFile) (extents : List Extent) : Prop :=
  file.head ≤ file.size ∧ (file.tail = 0 ∨ file.tail < file.size) ∧
    ∃ tailTurns headTurns : Int,
      Chain file.size (file.tail + tailTurns * file.size) (file.head + headTurns * file.size)
        extents ∧
      (file.head : Int) + headTurns * file.size ≤ file.tail + tailTurns * file.size + file.size

namespace StorageFile

variable {file file' : StorageFile} {disk disk' : Disk} {buffer : Bytes} {offset : Nat}
  {extents : List Extent}

/-- A new file places no extents. -/
theorem placed_empty (id : StorageId) (path : Path) (size : Nat) (newBlocks : Bool) :
    Placed ⟨id, path, 0, 0, size, newBlocks⟩ [] :=
  ⟨Nat.zero_le _, Or.inl rfl, 0, 0, by simp [Chain], by simp⟩

/-- A file without live extents can restart its window at equal cursors. -/
theorem placed_restart (equal : file.head = file.tail) :
    Chain file.size (file.tail + 0 * file.size) (file.head + 0 * file.size) [] ∧
      (file.head : Int) + 0 * file.size ≤ file.tail + 0 * file.size + file.size := by
  simp only [Chain]
  omega

/-- A successful front write has room and stays inside the file. -/
theorem writeFront_ok (written : file.writeFront disk buffer = (.ok offset, file', disk')) :
    buffer.length ≤ file.freeSpace ∧
      offset = file.frontOffset buffer.length ∧
      offset + buffer.length ≤ file.size ∧ file' = { file with head := offset + buffer.length } ∧
      disk' = disk.writeAllAt file.file buffer offset := by
  unfold writeFront at written
  dsimp only at written
  split at written
  · cases written
  · split at written
    · cases written
      refine ⟨by omega, rfl, ‹_›, rfl, rfl⟩
    · cases written

/-- A successful back write has room and moves the tail to its block. -/
theorem writeBack_ok (written : file.writeBack disk buffer = (.ok offset, file', disk')) :
    buffer.length ≤ file.freeSpace ∧
      offset = file.backOffset buffer.length ∧
      file' = { file with tail := offset } ∧ disk' = disk.writeAllAt file.file buffer offset := by
  unfold writeBack at written
  dsimp only at written
  split at written
  · cases written
  · cases written
    exact ⟨by omega, rfl, rfl, rfl⟩

/-- A new extent above the head that stays in the window extends the placement. -/
theorem Placed.extendFront (turns : Int) {tailTurns head : Int} {len : Nat}
    (tailBound : file.tail = 0 ∨ file.tail < file.size)
    (chain : Chain file.size (file.tail + tailTurns * file.size) head extents)
    (inside : offset + len ≤ file.size) (above : head ≤ offset + turns * file.size)
    (window : (offset : Int) + turns * file.size + len ≤
      file.tail + tailTurns * file.size + file.size) :
    Placed { file with head := offset + len } (extents ++ [⟨offset, len⟩]) := by
  have extended := Chain.append ⟨offset, len⟩ turns inside chain above
  refine ⟨inside, tailBound, tailTurns, turns, ?_, ?_⟩
  · simpa only [Nat.cast_add, add_right_comm] using extended
  · push_cast
    omega

/-- A new extent below the tail that stays in the window extends the placement. -/
theorem Placed.extendBack (turns : Int) {headTurns tail : Int} {len : Nat}
    (headBound : file.head ≤ file.size) (tailBound : offset = 0 ∨ offset < file.size)
    (chain : Chain file.size tail (file.head + headTurns * file.size) extents)
    (inside : offset + len ≤ file.size) (below : (offset : Int) + turns * file.size + len ≤ tail)
    (window : (file.head : Int) + headTurns * file.size ≤
      offset + turns * file.size + file.size) :
    Placed { file with tail := offset } (⟨offset, len⟩ :: extents) :=
  ⟨headBound, tailBound, turns, headTurns, Chain.cons ⟨offset, len⟩ turns inside below chain, window⟩

/-- A guarded front write keeps the extents placed. -/
theorem Placed.writeFront (placed : file.Placed extents)
    (guarded : buffer ≠ [] → file.head = file.tail → extents = [])
    (written : file.writeFront disk buffer = (.ok offset, file', disk')) :
    file'.Placed (extents ++ [⟨offset, buffer.length⟩]) := by
  obtain ⟨room, place, inside, rfl, -⟩ := writeFront_ok written
  obtain ⟨headBound, tailBound, tailTurns, headTurns, chain, window⟩ := placed
  have ordered := chain.le
  unfold StorageFile.frontOffset at place
  unfold StorageFile.freeSpace at room
  rcases lt_trichotomy file.head file.tail with behind | equal | ahead
  · -- The head already wrapped, so the free range ends at the tail.
    have turn := turn_of_lt behind (by omega) ordered window
    rw [if_neg (by omega)] at place
    rw [if_pos behind] at room
    subst place
    exact Placed.extendFront _ tailBound chain inside le_rfl (by omega)
  · -- Equal cursors hide a full file, and the guard excludes it.
    rw [if_neg (by omega)] at place
    subst place
    by_cases empty : buffer = []
    · subst empty
      exact Placed.extendFront _ tailBound chain inside le_rfl (by simpa using window)
    · obtain rfl := guarded empty equal
      obtain ⟨restart, -⟩ := placed_restart equal
      exact Placed.extendFront _ tailBound restart inside le_rfl (by omega)
  · rw [if_neg (by omega)] at room
    by_cases full : file.tail = 0 ∧ file.head = file.size
    · have none : buffer.length = 0 := by omega
      rw [if_neg (by omega)] at place
      subst place
      exact Placed.extendFront _ tailBound chain inside le_rfl (by omega)
    · have turn := turn_of_gt ahead headBound full ordered window
      by_cases wraps : file.size - file.head < buffer.length
      · -- The head skips the rest of the file and starts the next turn.
        rw [if_pos ⟨ahead, wraps⟩] at place
        subst place
        refine Placed.extendFront (headTurns + 1) tailBound chain inside ?_ ?_ <;>
          rw [Int.add_mul] <;> omega
      · rw [if_neg (by omega)] at place
        subst place
        exact Placed.extendFront _ tailBound chain inside le_rfl (by omega)

/-- A guarded back write keeps the extents placed. -/
theorem Placed.writeBack (placed : file.Placed extents)
    (guarded : buffer ≠ [] → file.head = file.tail → extents = [])
    (written : file.writeBack disk buffer = (.ok offset, file', disk')) :
    file'.Placed (⟨offset, buffer.length⟩ :: extents) := by
  obtain ⟨room, place, rfl, -⟩ := writeBack_ok written
  obtain ⟨headBound, tailBound, tailTurns, headTurns, chain, window⟩ := placed
  have ordered := chain.le
  unfold StorageFile.backOffset at place
  unfold StorageFile.freeSpace at room
  rcases lt_trichotomy file.head file.tail with behind | equal | ahead
  · have turn := turn_of_lt behind (by omega) ordered window
    rw [if_pos behind] at room
    rw [if_pos (by omega)] at place
    exact Placed.extendBack tailTurns headBound (by omega) chain (by omega) (by omega)
      (by omega)
  · -- Equal cursors hide a full file, and the guard excludes it.
    by_cases empty : buffer = []
    · have none : buffer.length = 0 := by simp [empty]
      rw [if_pos (by omega)] at place
      exact Placed.extendBack tailTurns headBound (by omega) chain (by omega) (by omega) (by omega)
    · obtain rfl := guarded empty equal
      obtain ⟨restart, -⟩ := placed_restart equal
      rw [if_neg (by omega)] at room
      split at place
      · exact Placed.extendBack 0 headBound (by omega) restart (by omega) (by omega)
          (by omega)
      · exact Placed.extendBack (-1) headBound (by omega) restart (by omega) (by omega)
          (by omega)
  · rw [if_neg (by omega)] at room
    by_cases full : file.tail = 0 ∧ file.head = file.size
    · have none : buffer.length = 0 := by omega
      rw [if_pos (by omega)] at place
      exact Placed.extendBack tailTurns headBound (by omega) chain (by omega) (by omega)
        (by omega)
    · have turn := turn_of_gt ahead headBound full ordered window
      split at place
      · exact Placed.extendBack tailTurns headBound (by omega) chain (by omega)
          (by omega) (by omega)
      · -- The tail skips the start of the file and ends the turn before.
        refine Placed.extendBack (tailTurns - 1) headBound (by omega) chain (by omega)
          ?_ ?_ <;> rw [Int.sub_mul] <;> omega

/-- A successful removal at the back moves the tail behind the removed block. -/
theorem popBlock_back_ok {block : StoredBlock} {result : Unit}
    (popped : file.popBlock block .back = (.ok result, file')) :
    file' = { file with tail := (block.offset + block.size) % file.size } ∧
      file.head < file.size := by
  unfold popBlock at popped
  dsimp only at popped
  split at popped
  · cases popped
  · split at popped
    · cases popped
    · cases popped
      exact ⟨rfl, by omega⟩

/-- A successful removal at the front moves the head to the removed block. -/
theorem popBlock_front_ok {block : StoredBlock} {result : Unit}
    (popped : file.popBlock block .front = (.ok result, file')) :
    file' = { file with head := block.offset } ∧ block.offset < file.size := by
  unfold popBlock at popped
  dsimp only at popped
  split at popped
  · cases popped
  · split at popped
    · cases popped
    · cases popped
      exact ⟨rfl, by omega⟩

/-- A removal at the back keeps the other extents placed. -/
theorem Placed.popBack {block : StoredBlock} {result : Unit}
    (placed : file.Placed (block.extent :: extents))
    (popped : file.popBlock block .back = (.ok result, file')) : file'.Placed extents := by
  obtain ⟨rfl, headBound⟩ := popBlock_back_ok popped
  obtain ⟨-, -, tailTurns, headTurns, chain, window⟩ := placed
  obtain ⟨position, turns, above, place, inside, rest⟩ := chain
  simp only [StoredBlock.extent] at place inside rest
  refine ⟨headBound.le, Or.inr (Nat.mod_lt _ (by omega)), ?_⟩
  -- A block that ends with the file moves the tail to the start of the next turn.
  have finish : ∃ nextTurns : Int, ((block.offset + block.size) % file.size : Nat) +
      nextTurns * file.size = position + block.size := by
    rcases inside.lt_or_eq with short | exact'
    · exact ⟨turns, by rw [Nat.mod_eq_of_lt short, place]; push_cast; omega⟩
    · refine ⟨turns + 1, ?_⟩
      rw [exact', Nat.mod_self, Int.add_mul, place]
      omega
  obtain ⟨nextTurns, finish⟩ := finish
  refine ⟨nextTurns, headTurns, ?_, ?_⟩ <;> dsimp only <;> rw [finish]
  · exact rest
  · omega

/-- A removal at the front keeps the other extents placed. -/
theorem Placed.popFront {block : StoredBlock} {result : Unit}
    (placed : file.Placed (extents ++ [block.extent]))
    (popped : file.popBlock block .front = (.ok result, file')) : file'.Placed extents := by
  obtain ⟨rfl, headBound⟩ := popBlock_front_ok popped
  obtain ⟨-, tailBound, tailTurns, headTurns, chain, window⟩ := placed
  obtain ⟨turns, shorter, bound⟩ := chain.dropLast
  simp only [StoredBlock.extent] at shorter bound
  exact ⟨headBound.le, tailBound, tailTurns, turns, shorter, by dsimp only; omega⟩

/-- Placed extents share no byte. -/
theorem Placed.pairwise_disjoint (placed : file.Placed extents) :
    extents.Pairwise Extent.Disjoint := by
  obtain ⟨-, -, tailTurns, headTurns, chain, window⟩ := placed
  exact chain.pairwise_disjoint window

end StorageFile

namespace FileState

variable {state next : FileState}

/-- The allocator invariant places the live blocks of the state. -/
def Valid (state : FileState) : Prop := state.file.Placed (state.live.map StoredBlock.extent)

/-- Every guarded operation keeps the live blocks placed. -/
theorem step_valid {op : FileOp} (valid : state.Valid) (guarded : state.Guard op)
    (stepped : state.step op = some next) : next.Valid := by
  cases op with
  | writeFront slot blockTime blockHeight buffer =>
      simp only [step] at stepped
      split at stepped <;> [skip; cases stepped]
      split at stepped <;> [cases stepped; cases stepped]
      rename_i written
      have placed := valid.writeFront (fun nonempty equal => by
        rw [guarded nonempty equal, List.map_nil]) written
      rw [Valid, List.map_append]
      exact placed
  | writeBack slot blockTime blockHeight buffer =>
      simp only [step] at stepped
      split at stepped <;> [skip; cases stepped]
      split at stepped <;> [cases stepped; cases stepped]
      rename_i written
      exact valid.writeBack (fun nonempty equal => by
        rw [guarded nonempty equal, List.map_nil]) written
  | popBack =>
      obtain ⟨file, disk, live⟩ := state
      simp only [step] at stepped
      rcases live with _ | ⟨block, rest⟩ <;> [cases stepped; skip]
      simp only [List.head?_cons, List.tail_cons] at stepped
      split at stepped <;> [cases stepped; cases stepped]
      rename_i popped
      exact StorageFile.Placed.popBack valid popped
  | popFront =>
      obtain ⟨file, disk, live⟩ := state
      simp only [step] at stepped
      rcases live.eq_nil_or_concat with rfl | ⟨rest, block, rfl⟩ <;> [cases stepped; skip]
      simp only [List.concat_eq_append, List.getLast?_concat, List.dropLast_concat] at stepped
      split at stepped <;> [cases stepped; cases stepped]
      rename_i popped
      simp only [Valid, List.concat_eq_append, List.map_append, List.map_singleton] at valid
      exact StorageFile.Placed.popFront valid popped

/-- Every guarded run keeps the live blocks placed. -/
theorem run_valid {ops : List FileOp} (valid : state.Valid) (guarded : state.GuardedRun ops)
    (ran : state.run ops = some next) : next.Valid := by
  induction ops generalizing state with
  | nil =>
      cases ran
      exact valid
  | cons op ops ih =>
      obtain ⟨middle, stepped, rest⟩ := Option.bind_eq_some_iff.mp ran
      rw [GuardedRun, stepped] at guarded
      exact ih (step_valid valid guarded.1 stepped) guarded.2 rest

/-- A placed state has disjoint live blocks. -/
theorem Valid.liveDisjoint (valid : state.Valid) : state.LiveDisjoint :=
  StorageFile.Placed.pairwise_disjoint valid

/-- A run from an empty file never overlaps two live blocks when no bytes are written at equal
cursors over a live block. -/
theorem guardedRun_liveDisjoint (id : StorageId) (path : Path) (size : Nat) (newBlocks : Bool)
    (disk : Disk) (ops : List FileOp) (reached : FileState)
    (ran : (empty id path size newBlocks disk).run ops = some reached)
    (guarded : (empty id path size newBlocks disk).GuardedRun ops) : reached.LiveDisjoint := by
  have valid : (empty id path size newBlocks disk).Valid :=
    StorageFile.placed_empty id path size newBlocks
  exact (run_valid valid guarded ran).liveDisjoint

/-- These operations wrap a file of ten bytes at both ends. -/
def wrapOps : List FileOp :=
  [.writeFront 5 none (some 5) [1, 1, 1, 1], .writeFront 6 none (some 6) [2, 2, 2, 2, 2],
    .popBack, .writeFront 7 none (some 7) [3, 3, 3], .popFront, .writeBack 4 none (some 4) [4, 4]]

theorem guardedRun_liveDisjoint_ten :
    ((empty 0 "blocks" 10 true fun _ => ⟨10, fun _ => 0⟩).run wrapOps).isSome = true ∧
      ∀ reached, (empty 0 "blocks" 10 true fun _ => ⟨10, fun _ => 0⟩).run wrapOps = some reached →
        reached.LiveDisjoint :=
  ⟨by decide, fun reached ran =>
    guardedRun_liveDisjoint 0 "blocks" 10 true _ wrapOps reached ran (by decide)⟩

/-- A file of ten bytes that fills up exactly takes its cursors for an empty file and overwrites
the block at its tail. -/
theorem run_liveDisjoint_false : ¬ ∀ (id : StorageId) (path : Path) (size : Nat) (newBlocks : Bool)
    (disk : Disk) (ops : List FileOp) (reached : FileState),
    (empty id path size newBlocks disk).run ops = some reached → reached.LiveDisjoint := by
  intro always
  have overlap := always 0 "blocks" 10 true (fun _ => ⟨10, fun _ => 0⟩)
    [.writeFront 1 none (some 1) [1, 1, 1, 1], .writeFront 2 none (some 2) [2, 2, 2, 2, 2],
      .popBack, .writeFront 3 none (some 3) [3, 3, 3, 3],
      .writeFront 4 none (some 4) [4, 4, 4, 4, 4, 4]] _ rfl
  revert overlap
  decide

end FileState

end Alpamayo
