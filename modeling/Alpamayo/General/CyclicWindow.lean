import Mathlib.Data.List.Chain
import Mathlib.Tactic.Linarith
import Mathlib.Tactic.Ring
import Mathlib.Data.Int.ModEq

/-!
This file places the extents of a circular buffer on an unrolled integer line.
-/

namespace CyclicWindow

/-- An extent is one contiguous range of a buffer. -/
structure Extent where
  offset : Nat
  size : Nat
  deriving DecidableEq, Repr

/-- Two extents are disjoint when no position lies in both. -/
def Extent.Disjoint (first second : Extent) : Prop :=
  first.offset + first.size ≤ second.offset ∨ second.offset + second.size ≤ first.offset ∨
    first.size = 0 ∨ second.size = 0

instance (first second : Extent) : Decidable (first.Disjoint second) :=
  inferInstanceAs (Decidable (_ ∨ _))

/-- A disjoint pair shares no position. -/
theorem Extent.disjoint_iff (first second : Extent) :
    first.Disjoint second ↔ ∀ position,
      first.offset ≤ position → position < first.offset + first.size →
        second.offset ≤ position → ¬ position < second.offset + second.size := by
  constructor
  · intro disjoint position lower upper lower' upper'
    unfold Extent.Disjoint at disjoint
    omega
  · intro separate
    unfold Extent.Disjoint
    by_contra overlapping
    have shared := separate (max first.offset second.offset)
    omega

theorem Extent.Disjoint.symm {first second : Extent} (disjoint : first.Disjoint second) :
    second.Disjoint first := by
  unfold Extent.Disjoint at disjoint ⊢
  omega

/-- Each extent has an unrolled position, and the positions ascend from `tail` to `head`. -/
def Chain (capacity : Nat) : Int → Int → List Extent → Prop
  | tail, head, [] => tail ≤ head
  | tail, head, extent :: rest =>
      ∃ position turns : Int, tail ≤ position ∧ position = extent.offset + turns * capacity ∧
        extent.offset + extent.size ≤ capacity ∧ Chain capacity (position + extent.size) head rest

variable {capacity : Nat} {tail head : Int} {extents : List Extent}

/-- A chain never moves backwards. -/
theorem Chain.le (chain : Chain capacity tail head extents) : tail ≤ head := by
  induction extents generalizing tail with
  | nil => exact chain
  | cons extent rest ih =>
      obtain ⟨position, turns, above, -, -, tailChain⟩ := chain
      have final := ih tailChain
      omega

/-- A chain keeps its extents when its lower end moves down. -/
theorem Chain.lower {lowerTail : Int} (chain : Chain capacity tail head extents)
    (below : lowerTail ≤ tail) : Chain capacity lowerTail head extents := by
  cases extents with
  | nil => exact below.trans chain
  | cons extent rest =>
      obtain ⟨position, turns, above, placed, inside, tailChain⟩ := chain
      exact ⟨position, turns, below.trans above, placed, inside, tailChain⟩

/-- A new extent below the lower end extends the chain at its back. -/
theorem Chain.cons (extent : Extent) (turns : Int)
    (inside : extent.offset + extent.size ≤ capacity)
    (below : (extent.offset : Int) + turns * capacity + extent.size ≤ tail)
    (chain : Chain capacity tail head extents) :
    Chain capacity (extent.offset + turns * capacity) head (extent :: extents) :=
  ⟨_, turns, le_rfl, rfl, inside, chain.lower below⟩

/-- A new extent above the upper end extends the chain at its front. -/
theorem Chain.append (extent : Extent) (turns : Int)
    (inside : extent.offset + extent.size ≤ capacity) (chain : Chain capacity tail head extents)
    (above : head ≤ extent.offset + turns * capacity) :
    Chain capacity tail (extent.offset + turns * capacity + extent.size) (extents ++ [extent]) := by
  induction extents generalizing tail with
  | nil => exact ⟨_, turns, le_trans chain above, rfl, inside, le_rfl⟩
  | cons first rest ih =>
      obtain ⟨position, firstTurns, lower, placed, firstInside, tailChain⟩ := chain
      exact ⟨position, firstTurns, lower, placed, firstInside, ih tailChain⟩

/-- Removing the last extent moves the upper end to its position. -/
theorem Chain.dropLast {extent : Extent}
    (chain : Chain capacity tail head (extents ++ [extent])) :
    ∃ turns : Int, Chain capacity tail (extent.offset + turns * capacity) extents ∧
      (extent.offset : Int) + turns * capacity + extent.size ≤ head := by
  induction extents generalizing tail with
  | nil =>
      obtain ⟨position, turns, lower, placed, inside, final⟩ := chain
      subst placed
      exact ⟨turns, lower, final⟩
  | cons first rest ih =>
      obtain ⟨position, firstTurns, lower, placed, firstInside, tailChain⟩ := chain
      obtain ⟨turns, shorter, bound⟩ := ih tailChain
      exact ⟨turns, ⟨position, firstTurns, lower, placed, firstInside, shorter⟩, bound⟩

/-- Every extent of a chain lies between the two ends of the chain. -/
theorem Chain.mem (chain : Chain capacity tail head extents) {extent : Extent}
    (member : extent ∈ extents) :
    ∃ turns : Int, tail ≤ extent.offset + turns * capacity ∧
      (extent.offset : Int) + turns * capacity + extent.size ≤ head := by
  induction extents generalizing tail with
  | nil => cases member
  | cons first rest ih =>
      obtain ⟨position, turns, lower, placed, inside, tailChain⟩ := chain
      rcases List.mem_cons.mp member with rfl | member
      · have final := tailChain.le
        exact ⟨turns, by omega, by omega⟩
      · obtain ⟨turns', lower', upper'⟩ := ih tailChain member
        exact ⟨turns', by omega, upper'⟩

/-- A multiple of the capacity that is smaller than the capacity is zero. -/
theorem turns_eq_zero {turns : Int} (lower : -(capacity : Int) < turns * capacity)
    (upper : turns * capacity < capacity) : turns = 0 := by
  rcases lt_trichotomy turns 0 with negative | zero | positive
  · have product : turns * capacity ≤ (-1) * capacity :=
      mul_le_mul_of_nonneg_right (by omega) (by omega)
    omega
  · exact zero
  · have product : 1 * (capacity : Int) ≤ turns * capacity :=
      mul_le_mul_of_nonneg_right (by omega) (by omega)
    omega

/-- Two extents in one window of the capacity are disjoint in the buffer. -/
theorem disjoint_of_window {first second : Extent} {turns turns' : Int}
    (ordered : (first.offset : Int) + turns * capacity + first.size ≤
      second.offset + turns' * capacity)
    (window : (second.offset : Int) + turns' * capacity + second.size ≤
      first.offset + turns * capacity + capacity) :
    first.Disjoint second := by
  rw [Extent.disjoint_iff]
  intro position lower upper lower' upper'
  -- Equal positions differ by whole turns, and the window admits less than one turn.
  have same : turns' - turns = 0 := by
    apply @turns_eq_zero capacity <;> rw [Int.sub_mul] <;> omega
  have equal : turns' = turns := by omega
  subst equal
  omega

/-- A chain inside one window of the capacity has pairwise disjoint extents. -/
theorem Chain.pairwise_disjoint (chain : Chain capacity tail head extents)
    (window : head ≤ tail + capacity) : extents.Pairwise Extent.Disjoint := by
  induction extents generalizing tail with
  | nil => exact List.Pairwise.nil
  | cons first rest ih =>
      obtain ⟨position, turns, lower, placed, inside, tailChain⟩ := chain
      refine List.Pairwise.cons ?_ (ih tailChain (by omega))
      intro second member
      obtain ⟨turns', lower', upper'⟩ := tailChain.mem member
      have ordered : (first.offset : Int) + turns * capacity + first.size ≤
          second.offset + turns' * capacity := by omega
      exact disjoint_of_window ordered (by omega)

/-- An upper cursor below the lower cursor stands one turn ahead of it. -/
theorem turn_of_lt {lowCursor highCursor : Nat} {lowTurns highTurns : Int}
    (behind : highCursor < lowCursor) (bounded : lowCursor < capacity)
    (ordered : (lowCursor : Int) + lowTurns * capacity ≤ highCursor + highTurns * capacity)
    (window : (highCursor : Int) + highTurns * capacity ≤
      lowCursor + lowTurns * capacity + capacity) :
    (highTurns * capacity : Int) = lowTurns * capacity + capacity := by
  have same : highTurns - lowTurns - 1 = 0 := by
    apply @turns_eq_zero capacity <;> rw [Int.sub_mul, Int.sub_mul] <;> omega
  have equal : highTurns = lowTurns + 1 := by omega
  rw [equal, Int.add_mul]
  omega

/-- An upper cursor above the lower cursor stands on the same turn. -/
theorem turn_of_gt {lowCursor highCursor : Nat} {lowTurns highTurns : Int}
    (ahead : lowCursor < highCursor) (bounded : highCursor ≤ capacity)
    (separate : ¬ (lowCursor = 0 ∧ highCursor = capacity))
    (ordered : (lowCursor : Int) + lowTurns * capacity ≤ highCursor + highTurns * capacity)
    (window : (highCursor : Int) + highTurns * capacity ≤
      lowCursor + lowTurns * capacity + capacity) :
    (highTurns * capacity : Int) = lowTurns * capacity := by
  have same : highTurns - lowTurns = 0 := by
    apply @turns_eq_zero capacity <;> rw [Int.sub_mul] <;> omega
  have equal : highTurns = lowTurns := by omega
  rw [equal]

/-- A part of the extents has a chain between the same ends. -/
theorem Chain.sublist {part : List Extent} (chain : Chain capacity tail head extents)
    (sublist : part.Sublist extents) : Chain capacity tail head part := by
  induction sublist generalizing tail with
  | slnil => exact chain
  | cons extent _ ih =>
      obtain ⟨position, turns, lower, placed, inside, rest⟩ := chain
      exact ih (rest.lower (by omega))
  | cons_cons extent _ ih =>
      obtain ⟨position, turns, lower, placed, inside, rest⟩ := chain
      exact ⟨position, turns, lower, placed, inside, ih rest⟩

/-- The upper end of a chain can move to the end of its last extent. -/
theorem Chain.lowerHead {rest : List Extent} {last : Extent}
    (chain : Chain capacity tail head (rest ++ [last])) :
    ∃ turns : Int, Chain capacity tail (last.offset + turns * capacity + last.size) (rest ++ [last]) ∧
      last.offset + turns * capacity + last.size ≤ head := by
  induction rest generalizing tail with
  | nil =>
      obtain ⟨position, turns, lower, rfl, inside, final⟩ := chain
      exact ⟨turns, ⟨_, turns, lower, rfl, inside, le_rfl⟩, final⟩
  | cons first rest ih =>
      obtain ⟨position, firstTurns, lower, placed, inside, later⟩ := chain
      obtain ⟨turns, shorter, bound⟩ := ih later
      exact ⟨turns, ⟨position, firstTurns, lower, placed, inside, shorter⟩, bound⟩

/-- The lower end of a chain can move to its first extent. -/
theorem Chain.raiseTail {rest : List Extent} {first : Extent}
    (chain : Chain capacity tail head (first :: rest)) :
    ∃ turns : Int, Chain capacity (first.offset + turns * capacity) head (first :: rest) ∧
      tail ≤ first.offset + turns * capacity := by
  obtain ⟨position, turns, lower, rfl, inside, later⟩ := chain
  exact ⟨turns, ⟨_, turns, le_rfl, rfl, inside, later⟩, lower⟩

/-- Extents ascend when each one begins after the end of the one before it. -/
def Ascends (extents : List Extent) : Prop :=
  extents.IsChain fun low high => low.offset + low.size ≤ high.offset

/-- A position in one turn of the buffer has this number of turns. -/
theorem turns_unique {offset : Nat} {turns turns' position : Int} (bounded : offset < capacity)
    (placed : position = offset + turns * capacity) (lower : turns' * capacity ≤ position)
    (upper : position < (turns' + 1) * capacity) : turns = turns' := by
  have same : turns - turns' = 0 := by
    rw [Int.add_mul] at upper
    apply @turns_eq_zero capacity <;> rw [Int.sub_mul] <;> omega
  omega

/-- A chain in one turn of the buffer ascends. -/
theorem Chain.ascends (turns : Int) (chain : Chain capacity tail head extents)
    (starts : ∀ extent ∈ extents, extent.offset < capacity) (above : turns * capacity ≤ tail)
    (below : head < (turns + 1) * capacity) :
    Ascends extents ∧ ∀ first ∈ extents.head?, tail ≤ first.offset + turns * capacity := by
  induction extents generalizing tail with
  | nil => exact ⟨.nil, by rintro _ ⟨⟩⟩
  | cons first rest ih =>
      obtain ⟨position, own, lower, placed, inside, later⟩ := chain
      have ends := later.le
      have same : own = turns := turns_unique (starts first List.mem_cons_self) placed
        (above.trans lower) (by omega)
      subst same
      obtain ⟨ascends, next⟩ := ih later
        (fun extent member => starts extent (List.mem_cons_of_mem _ member)) (by omega)
      refine ⟨List.isChain_cons.mpr ⟨fun second isSecond => ?_, ascends⟩, ?_⟩
      · have bound := next second isSecond
        omega
      · rintro _ ⟨⟩
        omega

/-- A chain in two turns of the buffer ascends twice. -/
theorem Chain.ascends_twice (turns : Int) (chain : Chain capacity tail head extents)
    (starts : ∀ extent ∈ extents, extent.offset < capacity) (above : turns * capacity ≤ tail)
    (below : head < (turns + 2) * capacity) :
    ∃ low high, extents = low ++ high ∧ Ascends low ∧ Ascends high ∧
      ∀ first ∈ low.head?, tail ≤ first.offset + turns * capacity := by
  induction extents generalizing tail with
  | nil => exact ⟨[], [], rfl, .nil, .nil, by rintro _ ⟨⟩⟩
  | cons first rest ih =>
      have starts' : ∀ extent ∈ rest, extent.offset < capacity :=
        fun extent member => starts extent (List.mem_cons_of_mem _ member)
      obtain ⟨position, own, lower, placed, inside, later⟩ := chain
      have ends := later.le
      by_cases wrapped : (turns + 1) * capacity ≤ position
      · -- Everything from here on lies in the second turn.
        have whole : Chain capacity position head (first :: rest) :=
          ⟨position, own, le_rfl, placed, inside, later⟩
        have turned : head < (turns + 1 + 1) * capacity := by
          rwa [show turns + 1 + 1 = turns + 2 by omega]
        exact ⟨[], first :: rest, rfl, .nil, (whole.ascends _ starts wrapped turned).1,
          by rintro _ ⟨⟩⟩
      · have same : own = turns := turns_unique (starts first List.mem_cons_self) placed
          (above.trans lower) (by omega)
        subst same
        obtain ⟨low, high, rfl, ascends, ascends', next⟩ := ih later starts' (by omega)
        refine ⟨first :: low, high, rfl, List.isChain_cons.mpr ⟨fun second isSecond => ?_, ascends⟩,
          ascends', ?_⟩
        · have bound := next second isSecond
          omega
        · rintro _ ⟨⟩
          omega

end CyclicWindow
