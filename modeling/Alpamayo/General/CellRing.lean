import Mathlib.Data.List.GetD
import Mathlib.Tactic.Common

/-!
This file develops a ring of cells and the bounded deque that it represents.
-/

/-- A ring has a fixed number of cells and two cursors that stand on cells. -/
structure CellRing (A : Type) where
  size : Nat
  cells : Fin size → A
  tail : Fin size
  head : Fin size

namespace CellRing

variable {A : Type} {absent value : A} {ring : CellRing A} {contents rest : List A}

/-- A cursor on a cell shows that the ring has a cell. -/
theorem size_pos (ring : CellRing A) : 0 < ring.size := ring.tail.pos

/-- The last cell lies inside a ring with a cell. -/
theorem last_lt {size : Nat} (positive : 0 < size) : size - 1 < size := Nat.sub_one_lt (Nat.ne_of_gt positive)

/-- The next index wraps at the end of the ring. -/
def next (ring : CellRing A) (index : Fin ring.size) : Fin ring.size :=
  ⟨(index.val + 1) % ring.size, Nat.mod_lt _ ring.size_pos⟩

/-- The previous index wraps at the start of the ring. -/
def prev (ring : CellRing A) (index : Fin ring.size) : Fin ring.size :=
  ⟨if index.val = 0 then ring.size - 1 else index.val - 1, by
    have := index.isLt
    split <;> omega⟩

/-- This index stands the given number of cells after the tail. -/
def offset (ring : CellRing A) (count : Nat) : Fin ring.size :=
  ⟨(ring.tail.val + count) % ring.size, Nat.mod_lt _ ring.size_pos⟩

/-- This many cells lie between the tail and the index. -/
def distance (ring : CellRing A) (index : Fin ring.size) : Nat :=
  (index.val + (ring.size - ring.tail.val)) % ring.size

/-- This function stores one cell. -/
def write (ring : CellRing A) (index : Fin ring.size) (value : A) : Fin ring.size → A :=
  Function.update ring.cells index value

/-- The new cell goes after the head. -/
def pushFront (ring : CellRing A) (value : A) : CellRing A :=
  { ring with cells := ring.write (ring.next ring.head) value, head := ring.next ring.head }

/-- The new cell goes before the tail. -/
def pushBack (ring : CellRing A) (value : A) : CellRing A :=
  { ring with cells := ring.write (ring.prev ring.tail) value, tail := ring.prev ring.tail }

/-- The tail cell becomes absent and the tail moves up. -/
def popBack (absent : A) (ring : CellRing A) : CellRing A :=
  { ring with cells := ring.write ring.tail absent, tail := ring.next ring.tail }

/-- The head cell becomes absent and the head moves down. -/
def popFront (absent : A) (ring : CellRing A) : CellRing A :=
  { ring with cells := ring.write ring.head absent, head := ring.prev ring.head }

/-- One conditional subtraction replaces the remainder below twice the size. -/
theorem mod_eq_ite {value size : Nat} (bound : value < 2 * size) :
    value % size = if value < size then value else value - size := by
  split
  · exact Nat.mod_eq_of_lt ‹_›
  · rw [Nat.mod_eq_sub_mod (by omega), Nat.mod_eq_of_lt (by omega)]

theorem next_val (ring : CellRing A) (index : Fin ring.size) :
    (ring.next index).val = if index.val + 1 < ring.size then index.val + 1 else 0 := by
  have inside := index.isLt
  simp only [next]
  rw [mod_eq_ite (by omega)]
  split <;> omega

theorem prev_val (ring : CellRing A) (index : Fin ring.size) :
    (ring.prev index).val = if index.val = 0 then ring.size - 1 else index.val - 1 := rfl

theorem offset_val (ring : CellRing A) {count : Nat} (bound : count ≤ ring.size) :
    (ring.offset count).val = if ring.tail.val + count < ring.size then ring.tail.val + count
      else ring.tail.val + count - ring.size := by
  have inside := ring.tail.isLt
  simp only [offset]
  rw [mod_eq_ite (by omega)]

/-- The first offset is the tail. -/
@[simp] theorem offset_zero (ring : CellRing A) : ring.offset 0 = ring.tail := by
  apply Fin.ext
  rw [ring.offset_val (Nat.zero_le _)]
  have inside := ring.tail.isLt
  split <;> omega

/-- Moving past the last cell returns to the tail. -/
theorem offset_size (ring : CellRing A) : ring.offset ring.size = ring.tail := by
  apply Fin.ext
  rw [ring.offset_val (Nat.le_refl _)]
  have inside := ring.tail.isLt
  split <;> omega

/-- The next index of an offset is the following offset. -/
theorem next_offset (ring : CellRing A) {count : Nat} (bound : count < ring.size) :
    ring.next (ring.offset count) = ring.offset (count + 1) := by
  apply Fin.ext
  rw [ring.next_val, ring.offset_val (by omega), ring.offset_val (by omega)]
  have inside := ring.tail.isLt
  split <;> split <;> split <;> omega

/-- The previous index of a later offset is the offset before it. -/
theorem prev_offset (ring : CellRing A) {count : Nat} (bound : count < ring.size) :
    ring.prev (ring.offset (count + 1)) = ring.offset count := by
  apply Fin.ext
  rw [ring.prev_val, ring.offset_val (by omega), ring.offset_val (by omega)]
  have inside := ring.tail.isLt
  split <;> split <;> split <;> omega

/-- Going up and then down returns to the same index. -/
@[simp] theorem prev_next (ring : CellRing A) (index : Fin ring.size) :
    ring.prev (ring.next index) = index := by
  apply Fin.ext
  rw [ring.prev_val, ring.next_val]
  have inside := index.isLt
  split <;> split <;> omega

/-- Going down and then up returns to the same index. -/
@[simp] theorem next_prev (ring : CellRing A) (index : Fin ring.size) :
    ring.next (ring.prev index) = index := by
  apply Fin.ext
  rw [ring.next_val, ring.prev_val]
  have inside := index.isLt
  split <;> split <;> omega

/-- Different offsets below the size stand on different cells. -/
theorem offset_injective (ring : CellRing A) {first second : Nat} (firstBound : first < ring.size)
    (secondBound : second < ring.size) (equal : ring.offset first = ring.offset second) :
    first = second := by
  have values := congrArg Fin.val equal
  rw [ring.offset_val (Nat.le_of_lt firstBound), ring.offset_val (Nat.le_of_lt secondBound)] at values
  have inside := ring.tail.isLt
  split at values <;> split at values <;> omega

theorem distance_lt (ring : CellRing A) (index : Fin ring.size) : ring.distance index < ring.size :=
  Nat.mod_lt _ ring.size_pos

/-- Every cell stands at its distance from the tail. -/
theorem offset_distance (ring : CellRing A) (index : Fin ring.size) :
    ring.offset (ring.distance index) = index := by
  have tailInside := ring.tail.isLt
  have inside := index.isLt
  apply Fin.ext
  rw [ring.offset_val (Nat.le_of_lt (ring.distance_lt index)), distance, mod_eq_ite (by omega)]
  split <;> split <;> omega

theorem distance_offset (ring : CellRing A) {count : Nat} (bound : count < ring.size) :
    ring.distance (ring.offset count) = count :=
  ring.offset_injective (ring.distance_lt _) bound (ring.offset_distance _)

/-- Every cell is some offset from the tail. -/
theorem exists_offset (ring : CellRing A) (index : Fin ring.size) :
    ∃ count < ring.size, ring.offset count = index :=
  ⟨ring.distance index, ring.distance_lt index, ring.offset_distance index⟩

/-- The ring holds the contents from its tail on and is absent everywhere else. -/
structure Represents (absent : A) (ring : CellRing A) (contents : List A) : Prop where
  fits : contents.length ≤ ring.size
  cell : ∀ count < ring.size, ring.cells (ring.offset count) = contents.getD count absent
  ends : ring.next ring.head = ring.offset contents.length

/-- The tail cell holds the first value. -/
theorem Represents.tailCell (represents : Represents absent ring contents) :
    ring.cells ring.tail = contents.getD 0 absent := by
  simpa using represents.cell 0 ring.size_pos

/-- The head of a nonempty ring stands on the last value. -/
theorem Represents.head_eq (represents : Represents absent ring contents)
    (nonempty : 0 < contents.length) : ring.head = ring.offset (contents.length - 1) := by
  have fits := represents.fits
  rw [← ring.prev_next ring.head, represents.ends]
  conv_lhs => rw [show contents.length = contents.length - 1 + 1 by omega]
  exact ring.prev_offset (by omega)

/-- The head cell holds the last value. -/
theorem Represents.headCell (represents : Represents absent ring contents) :
    ring.cells ring.head = contents.getLastD absent := by
  rcases contents.eq_nil_or_concat with rfl | ⟨rest, last, rfl⟩
  · have positive := ring.size_pos
    have atEnd : ring.head = ring.offset (ring.size - 1) := by
      rw [← ring.prev_next ring.head, represents.ends]
      rw [List.length_nil, offset_zero, ← ring.offset_size]
      conv_lhs => rw [show ring.size = ring.size - 1 + 1 by omega]
      exact ring.prev_offset (by omega)
    rw [atEnd, represents.cell _ (by omega)]
    simp
  · have fits := represents.fits
    simp only [List.concat_eq_append, List.length_append, List.length_singleton] at fits
    rw [represents.head_eq (by simp), represents.cell _ (by simp; omega)]
    simp

/-- The cell after the head is absent until the ring is full. -/
theorem Represents.nextCell (represents : Represents absent ring contents) :
    ring.cells (ring.next ring.head) =
      if contents.length = ring.size then contents.getD 0 absent else absent := by
  have fits := represents.fits
  rw [represents.ends]
  split
  · rename_i full
    rw [full, ring.offset_size, represents.tailCell]
  · rw [represents.cell _ (by omega)]
    simp

/-- A push at the front appends one value. -/
theorem Represents.pushFront (represents : Represents absent ring contents)
    (room : contents.length < ring.size) :
    Represents absent (ring.pushFront value) (contents ++ [value]) := by
  refine ⟨by rw [List.length_append]; exact room, ?_, ?_⟩
  · intro count bound
    change Function.update ring.cells (ring.next ring.head) value (ring.offset count) = _
    rw [represents.ends]
    by_cases last : count = contents.length
    · subst last
      simp
    · rw [Function.update_of_ne (fun equal => last (ring.offset_injective bound room equal)),
        represents.cell count bound]
      simp only [List.getD_eq_getElem?_getD, List.getElem?_append, List.getElem?_singleton]
      split
      · rfl
      · rw [List.getElem?_eq_none (by omega), if_neg (by omega)]
  · change ring.next (ring.next ring.head) = ring.offset (contents ++ [value]).length
    rw [represents.ends, ring.next_offset room]
    simp

/-- A push at the back prepends one value. -/
theorem Represents.pushBack (represents : Represents absent ring contents)
    (room : contents.length < ring.size) :
    Represents absent (ring.pushBack value) (value :: contents) := by
  have shift (count : Nat) (bound : count < ring.size) :
      (ring.pushBack value).offset (count + 1) = ring.offset count := by
    apply Fin.ext
    rw [(ring.pushBack value).offset_val (show count + 1 ≤ ring.size by omega),
      ring.offset_val (by omega)]
    change (if (ring.prev ring.tail).val + (count + 1) < ring.size then _ else _) = _
    have inside := ring.tail.isLt
    have before := ring.prev_val ring.tail
    change (if (ring.prev ring.tail).val + (count + 1) < ring.size
      then (ring.prev ring.tail).val + (count + 1)
      else (ring.prev ring.tail).val + (count + 1) - ring.size) = _
    split at before <;> split <;> split <;> omega
  refine ⟨room, ?_, ?_⟩
  · intro count bound
    change count < ring.size at bound
    cases count with
    | zero =>
        change Function.update ring.cells (ring.prev ring.tail) value
          ((ring.pushBack value).offset 0) = _
        rw [offset_zero]
        exact Function.update_self _ _ _
    | succ count =>
        rw [shift count (by omega)]
        change Function.update ring.cells (ring.prev ring.tail) value (ring.offset count) = _
        rw [Function.update_of_ne, represents.cell count (by omega)]
        · simp
        · intro equal
          have last : ring.offset (count + 1) = ring.offset ring.size := by
            rw [← ring.next_offset (by omega), equal, ring.next_prev, ring.offset_size]
          rw [ring.offset_size, ← ring.offset_zero] at last
          have := ring.offset_injective bound ring.size_pos last
          omega
  · change ring.next ring.head = (ring.pushBack value).offset (contents.length + 1)
    rw [represents.ends, shift _ room]

/-- A pop at the back removes the first value. -/
theorem Represents.popBack (represents : Represents absent ring (value :: contents)) :
    Represents absent (ring.popBack absent) contents := by
  have fits := represents.fits
  simp only [List.length_cons] at fits
  have shift (count : Nat) (bound : count < ring.size) :
      (ring.popBack absent).offset count = ring.offset (count + 1) := by
    apply Fin.ext
    rw [(ring.popBack absent).offset_val (show count ≤ ring.size by omega),
      ring.offset_val (by omega)]
    have inside := ring.tail.isLt
    have after := ring.next_val ring.tail
    change (if (ring.next ring.tail).val + count < ring.size
      then (ring.next ring.tail).val + count
      else (ring.next ring.tail).val + count - ring.size) = _
    split at after <;> split <;> split <;> omega
  refine ⟨by change contents.length ≤ ring.size; omega, ?_, ?_⟩
  · intro count bound
    change count < ring.size at bound
    rw [shift count bound]
    change Function.update ring.cells ring.tail absent (ring.offset (count + 1)) = _
    by_cases last : count + 1 = ring.size
    · rw [last, ring.offset_size, Function.update_self,
        List.getD_eq_default _ _ (by omega)]
    · rw [Function.update_of_ne, represents.cell (count + 1) (by omega)]
      · simp
      · intro equal
        rw [← ring.offset_zero] at equal
        have := ring.offset_injective (show count + 1 < ring.size by omega) ring.size_pos equal
        omega
  · change ring.next ring.head = (ring.popBack absent).offset contents.length
    rw [represents.ends, shift _ (by omega), List.length_cons]

/-- A pop at the front removes the last value. -/
theorem Represents.popFront (represents : Represents absent ring (contents ++ [value])) :
    Represents absent (ring.popFront absent) contents := by
  have fits := represents.fits
  simp only [List.length_append, List.length_singleton] at fits
  have last : ring.head = ring.offset contents.length := by
    simpa using represents.head_eq (by simp)
  refine ⟨by change contents.length ≤ ring.size; omega, ?_, ?_⟩
  · intro count bound
    change count < ring.size at bound
    change Function.update ring.cells ring.head absent (ring.offset count) = _
    by_cases here : count = contents.length
    · subst here
      rw [last, Function.update_self, List.getD_eq_default _ _ (Nat.le_refl _)]
    · rw [Function.update_of_ne, represents.cell count bound]
      · simp only [List.getD_eq_getElem?_getD, List.getElem?_append, List.getElem?_singleton]
        split
        · rfl
        · rw [List.getElem?_eq_none (by omega), if_neg (by omega)]
      · intro equal
        rw [last] at equal
        exact here (ring.offset_injective bound (by omega) equal)
  · change ring.next (ring.prev ring.head) = ring.offset contents.length
    rw [ring.next_prev, last]

/-- This loop reads upwards until a cell passes the filter or the head is read. -/
def walkUp (ring : CellRing A) (filter : A → Bool) : Nat → Fin ring.size → Option A
  | 0, _ => none
  | fuel + 1, index =>
      if filter (ring.cells index) then some (ring.cells index)
      else if index = ring.head then none
      else walkUp ring filter fuel (ring.next index)

/-- This loop reads downwards until a cell passes the filter or the tail is read. -/
def walkDown (ring : CellRing A) (filter : A → Bool) : Nat → Fin ring.size → Option A
  | 0, _ => none
  | fuel + 1, index =>
      if filter (ring.cells index) then some (ring.cells index)
      else if index = ring.tail then none
      else walkDown ring filter fuel (ring.prev index)

/-- The upward walk finds the first matching value of the remaining contents. -/
theorem Represents.walkUp (represents : Represents absent ring contents) (filter : A → Bool)
    {count fuel : Nat} (inside : count < contents.length) (enough : contents.length ≤ count + fuel) :
    ring.walkUp filter fuel (ring.offset count) = (contents.drop count).find? filter := by
  have fits := represents.fits
  induction fuel generalizing count with
  | zero => omega
  | succ fuel ih =>
      have value : ring.cells (ring.offset count) = contents[count] := by
        rw [represents.cell count (by omega), List.getD_eq_getElem _ _ inside]
      rw [CellRing.walkUp, value, List.drop_eq_getElem_cons inside, List.find?_cons]
      by_cases found : filter contents[count]
      · simp [found]
      · simp only [found, Bool.false_eq_true, if_false]
        rw [represents.head_eq (by omega)]
        by_cases last : count + 1 = contents.length
        · rw [if_pos (by rw [← last]; rfl), List.drop_of_length_le (by omega)]
          rfl
        · rw [if_neg, ring.next_offset (by omega), ih (by omega) (by omega)]
          intro equal
          have := ring.offset_injective (by omega) (by omega) equal
          omega

/-- The downward walk finds the last matching value of the contents below its start. -/
theorem Represents.walkDown (represents : Represents absent ring contents) (filter : A → Bool)
    {count fuel : Nat} (inside : count < contents.length) (enough : count < fuel) :
    ring.walkDown filter fuel (ring.offset count) =
      (contents.take (count + 1)).reverse.find? filter := by
  have fits := represents.fits
  induction fuel generalizing count with
  | zero => omega
  | succ fuel ih =>
      have value : ring.cells (ring.offset count) = contents[count] := by
        rw [represents.cell count (by omega), List.getD_eq_getElem _ _ inside]
      rw [CellRing.walkDown, value, List.take_succ_eq_append_getElem inside, List.reverse_append,
        List.reverse_singleton, List.singleton_append, List.find?_cons]
      by_cases found : filter contents[count]
      · simp [found]
      · simp only [found, Bool.false_eq_true, if_false]
        cases count with
        | zero => simp
        | succ count =>
            rw [if_neg, ring.prev_offset (by omega), ih (by omega) (by omega)]
            intro equal
            rw [← ring.offset_zero] at equal
            have := ring.offset_injective (by omega) ring.size_pos equal
            omega

/-- The downward walk finds nothing when no cell passes the filter. -/
theorem walkDown_eq_none (ring : CellRing A) (filter : A → Bool)
    (nothing : ∀ index, filter (ring.cells index) = false) (fuel : Nat) (index : Fin ring.size) :
    ring.walkDown filter fuel index = none := by
  induction fuel generalizing index with
  | zero => rfl
  | succ fuel ih => simp [CellRing.walkDown, nothing, ih]

/-- The walk down from the head finds the last matching value of the contents. -/
theorem Represents.walkDown_head (represents : Represents absent ring contents) (filter : A → Bool)
    (unmatched : filter absent = false) :
    ring.walkDown filter ring.size ring.head = contents.reverse.find? filter := by
  have fits := represents.fits
  by_cases nonempty : 0 < contents.length
  · rw [represents.head_eq nonempty, represents.walkDown filter (by omega) (by omega),
      List.take_of_length_le (by omega)]
  · have nil : contents = [] := List.length_eq_zero_iff.mp (by omega)
    subst nil
    apply walkDown_eq_none
    intro index
    obtain ⟨count, bound, rfl⟩ := ring.exists_offset index
    rw [represents.cell count bound]
    simpa using unmatched

/-- The walk up from the tail finds the first matching value of nonempty contents. -/
theorem Represents.walkUp_tail (represents : Represents absent ring contents) (filter : A → Bool)
    (nonempty : 0 < contents.length) :
    ring.walkUp filter ring.size ring.tail = contents.find? filter := by
  have fits := represents.fits
  rw [← ring.offset_zero, represents.walkUp filter nonempty (by omega), List.drop_zero]

/-- Every cell has the property. -/
def Every (holds : A → Prop) (ring : CellRing A) : Prop := ∀ index, holds (ring.cells index)

section every

variable {holds : A → Prop}

/-- A stored cell changes no other one. -/
theorem Every.write (every : ring.Every holds) (index : Fin ring.size) (known : holds value) :
    ∀ other, holds (ring.write index value other) := by
  intro other
  rw [CellRing.write, Function.update_apply]
  split
  · exact known
  · exact every other

theorem Every.pushFront (every : ring.Every holds) (known : holds value) :
    (ring.pushFront value).Every holds :=
  every.write _ known

theorem Every.pushBack (every : ring.Every holds) (known : holds value) :
    (ring.pushBack value).Every holds :=
  every.write _ known

theorem Every.popBack (every : ring.Every holds) (known : holds absent) :
    (ring.popBack absent).Every holds :=
  every.write _ known

theorem Every.popFront (every : ring.Every holds) (known : holds absent) :
    (ring.popFront absent).Every holds :=
  every.write _ known

/-- The cells of a ring are its contents or absent. -/
theorem Represents.every {contents : List A} (represents : Represents absent ring contents)
    (known : holds absent) (members : ∀ value ∈ contents, holds value) : ring.Every holds := by
  intro index
  obtain ⟨count, bound, rfl⟩ := ring.exists_offset index
  rw [represents.cell count bound]
  by_cases inside : count < contents.length
  · rw [List.getD_eq_getElem _ _ inside]
    exact members _ (List.getElem_mem inside)
  · rw [List.getD_eq_default _ _ (by omega)]
    exact known

end every

end CellRing
