import Alpamayo.Proof.FileExtents

/-!
This file shows when the free space that a storage file advertises can be written.
-/

namespace Alpamayo

namespace StorageFile

variable {file after : StorageFile} {disk : Disk} {buffer : Bytes} {side : VecSide}

/-- The write of the buffer succeeds inside the file and changes no byte past its end. -/
def WritesInside (file : StorageFile) (disk : Disk) (buffer : Bytes) (side : VecSide) : Prop :=
  ∃ offset after disk', file.writeSide disk buffer side = (.ok offset, after, disk') ∧
    offset + buffer.length ≤ file.size ∧
    ∀ position, file.size ≤ position →
      (disk' file.file).bytes position = (disk file.file).bytes position

/-- Both cursors lie in the file. -/
structure Bounded (file : StorageFile) : Prop where
  tail : file.tail ≤ file.size
  head : file.head ≤ file.size

/-- The free space never exceeds the file. -/
theorem Bounded.freeSpace_le (bounded : file.Bounded) : file.freeSpace ≤ file.size := by
  obtain ⟨tail, head⟩ := bounded
  unfold freeSpace
  split <;> omega

/-- A write inside the file keeps the bytes past its end. -/
theorem bytes_writeAllAt {offset position : Nat} (inside : offset + buffer.length ≤ file.size)
    (past : file.size ≤ position) :
    (disk.writeAllAt file.file buffer offset file.file).bytes position =
      (disk file.file).bytes position := by
  rw [Disk.writeAllAt_self]
  exact if_neg (by omega)

/-- The free space can always be written at the back. -/
theorem writesInside_back (bounded : file.Bounded) (free : buffer.length ≤ file.freeSpace) :
    file.WritesInside disk buffer .back := by
  have within := free.trans bounded.freeSpace_le
  have inside : file.backOffset buffer.length + buffer.length ≤ file.size := by
    have tail := bounded.tail
    unfold backOffset
    split <;> omega
  have wrote : file.writeSide disk buffer .back = (.ok (file.backOffset buffer.length),
      { file with tail := file.backOffset buffer.length },
      disk.writeAllAt file.file buffer (file.backOffset buffer.length)) := by
    simp only [writeSide, writeBack, if_neg (Nat.not_lt.mpr free)]
  exact ⟨_, _, _, wrote, inside, fun position past => bytes_writeAllAt inside past⟩

/-- The free space can be written at the front unless equal cursors hide that it lies below them. -/
theorem writesInside_front_iff (disk : Disk) (bounded : file.Bounded)
    (free : buffer.length ≤ file.freeSpace) :
    file.WritesInside disk buffer .front ↔
      (file.head = file.tail → file.head + buffer.length ≤ file.size) := by
  have wrote : file.writeSide disk buffer .front =
      (if file.frontOffset buffer.length + buffer.length ≤ file.size then
        .ok (file.frontOffset buffer.length)
      else .error (.headOverflow (file.frontOffset buffer.length + buffer.length) file.size),
        { file with head := file.frontOffset buffer.length + buffer.length },
        disk.writeAllAt file.file buffer (file.frontOffset buffer.length)) := by
    simp only [writeSide, writeFront, if_neg (Nat.not_lt.mpr free)]
    split <;> rfl
  constructor
  · rintro ⟨offset, after, disk', written, inside, -⟩ equal
    rw [wrote] at written
    split at written
    · rename_i fits
      have start : file.frontOffset buffer.length = file.head := if_neg (by omega)
      rwa [start] at fits
    · cases written
  · intro fits
    have inside : file.frontOffset buffer.length + buffer.length ≤ file.size := by
      obtain ⟨tail, head⟩ := bounded
      unfold frontOffset
      unfold freeSpace at free
      split at free <;> split <;> omega
    rw [if_pos inside] at wrote
    exact ⟨_, _, _, wrote, inside, fun position past => bytes_writeAllAt inside past⟩

/-- A successful write leaves the cursors in the file. -/
theorem Bounded.writeSide {offset : Nat} {disk' : Disk} (bounded : file.Bounded) (side : VecSide)
    (written : file.writeSide disk buffer side = (.ok offset, after, disk')) :
    after.Bounded ∧ after.size = file.size := by
  cases side with
  | back =>
      obtain ⟨free, place, rfl, -⟩ := writeBack_ok written
      have tail := bounded.tail
      refine ⟨⟨?_, bounded.head⟩, rfl⟩
      dsimp only
      rw [place]
      unfold backOffset
      split <;> omega
  | front =>
      obtain ⟨-, -, inside, rfl, -⟩ := writeFront_ok written
      exact ⟨⟨bounded.tail, inside⟩, rfl⟩

/-- A successful removal leaves the cursors in the file. -/
theorem Bounded.popBlock {block : StoredBlock} {result : Unit} (bounded : file.Bounded)
    (popped : file.popBlock block side = (.ok result, after)) :
    after.Bounded ∧ after.size = file.size := by
  cases side with
  | back =>
      obtain ⟨rfl, head⟩ := popBlock_back_ok popped
      exact ⟨⟨(Nat.mod_lt _ (by omega)).le, bounded.head⟩, rfl⟩
  | front =>
      obtain ⟨rfl, head⟩ := popBlock_front_ok popped
      exact ⟨⟨bounded.tail, head.le⟩, rfl⟩

end StorageFile

namespace FileState

variable {state next : FileState}

/-- Every operation leaves the cursors in the file. -/
theorem step_bounded {op : FileOp} (bounded : state.file.Bounded)
    (stepped : state.step op = some next) : next.file.Bounded := by
  cases op with
  | writeFront slot blockTime blockHeight buffer =>
      simp only [step] at stepped
      split at stepped
      · split at stepped
        · rename_i written
          cases stepped
          exact (bounded.writeSide .front written).1
        · cases stepped
      · cases stepped
  | writeBack slot blockTime blockHeight buffer =>
      simp only [step] at stepped
      split at stepped
      · split at stepped
        · rename_i written
          cases stepped
          exact (bounded.writeSide .back written).1
        · cases stepped
      · cases stepped
  | popBack | popFront =>
      simp only [step] at stepped
      split at stepped
      · cases stepped
      · split at stepped
        · rename_i popped
          cases stepped
          exact (bounded.popBlock popped).1
        · cases stepped

/-- Every run leaves the cursors in the file. -/
theorem run_bounded {ops : List FileOp} (bounded : state.file.Bounded)
    (ran : state.run ops = some next) : next.file.Bounded := by
  induction ops generalizing state with
  | nil =>
      cases ran
      exact bounded
  | cons op ops ih =>
      obtain ⟨middle, stepped, rest⟩ := Option.bind_eq_some_iff.mp ran
      exact ih (step_bounded bounded stepped) rest

/-- In every reachable state the free space can be written at both ends exactly if the bytes fit
above the cursors whenever these are equal. -/
theorem run_writesInside_iff (id : StorageId) (path : Path) (size : Nat) (newBlocks : Bool)
    (disk : Disk) (ops : List FileOp) (reached : FileState)
    (ran : (empty id path size newBlocks disk).run ops = some reached) (buffer : Bytes)
    (free : buffer.length ≤ reached.file.freeSpace) :
    (∀ side, reached.file.WritesInside reached.disk buffer side) ↔
      (reached.file.head = reached.file.tail →
        reached.file.head + buffer.length ≤ reached.file.size) := by
  have start : (empty id path size newBlocks disk).file.Bounded := ⟨Nat.zero_le _, Nat.zero_le _⟩
  have bounded := run_bounded start ran
  rw [← StorageFile.writesInside_front_iff reached.disk bounded free]
  constructor
  · exact fun inside => inside .front
  · intro inside side
    cases side with
    | back => exact StorageFile.writesInside_back bounded free
    | front => exact inside

/-- After the operations that wrap the file of ten bytes its two free bytes can be written. -/
theorem run_writesInside_iff_ten : ∃ reached,
    (empty 0 "blocks" 10 true fun _ => ⟨10, fun _ => 0⟩).run wrapOps = some reached ∧
      reached.file.freeSpace = 2 ∧ ∀ side, reached.file.WritesInside reached.disk [7, 7] side := by
  refine ⟨_, rfl, by decide, ?_⟩
  exact (run_writesInside_iff 0 "blocks" 10 true _ wrapOps _ rfl [7, 7] (by decide)).mpr (by decide)

/-- A drained file of ten bytes has both cursors at eight; it advertises eight bytes and writes five
of them past its end. -/
theorem run_writesInside_false : ¬ ∀ (id : StorageId) (path : Path) (size : Nat) (newBlocks : Bool)
    (disk : Disk) (ops : List FileOp) (reached : FileState),
    (empty id path size newBlocks disk).run ops = some reached → ∀ buffer : Bytes,
      1 ≤ buffer.length → buffer.length ≤ reached.file.freeSpace →
        ∀ side, reached.file.WritesInside reached.disk buffer side := by
  intro always
  obtain ⟨offset, after, disk', written, -⟩ := always 0 "blocks" 10 true (fun _ => ⟨10, fun _ => 0⟩)
    [.writeFront 1 none (some 1) [1, 1, 1, 1, 1, 1, 1, 1], .popBack] _ rfl [2, 2, 2, 2, 2]
    (by decide) (by decide) .front
  have failed : false = true := congrArg (fun result => result.1.isOk) written
  cases failed

end FileState

end Alpamayo
