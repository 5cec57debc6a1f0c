import Mathlib.Data.List.Sort
import Mathlib.Order.Defs.LinearOrder

/-!
This file describes the element of a sorted list at a place by counts over the unsorted list.
-/

/-- At most `place` elements are smaller than the value, and more elements are not larger. -/
structure IsRanked {A : Type} [LinearOrder A] (list : List A) (place : Nat) (value : A) : Prop where
  smaller : list.countP (fun other => decide (other < value)) ≤ place
  notLarger : place < list.countP (fun other => decide (other ≤ value))

namespace IsRanked

variable {A : Type} [LinearOrder A] {list : List A} {place : Nat} {value other : A}

/-- The order of the list does not matter. -/
theorem perm {permuted : List A} (same : list.Perm permuted) :
    IsRanked list place value ↔ IsRanked permuted place value := by
  constructor
  · intro ranked
    exact ⟨same.countP_eq _ ▸ ranked.smaller, same.countP_eq _ ▸ ranked.notLarger⟩
  · intro ranked
    exact ⟨same.countP_eq _ ▸ ranked.smaller, same.countP_eq _ ▸ ranked.notLarger⟩

/-- A larger place has no smaller value. -/
theorem mono {later : Nat} (ranked : IsRanked list place value)
    (rankedLater : IsRanked list later other) (order : place ≤ later) : value ≤ other := by
  by_contra smaller
  have all : list.countP (fun element => decide (element ≤ other)) ≤
      list.countP (fun element => decide (element < value)) := by
    apply List.countP_mono_left
    intro element _ below
    rw [decide_eq_true_eq] at below ⊢
    exact lt_of_le_of_lt below (not_le.mp smaller)
  have few := ranked.smaller
  have many := rankedLater.notLarger
  omega

/-- A place has at most one value. -/
theorem unique (ranked : IsRanked list place value) (rankedOther : IsRanked list place other) :
    value = other :=
  le_antisymm (ranked.mono rankedOther le_rfl) (rankedOther.mono ranked le_rfl)

/-- The element of a sorted list at a place has this rank. -/
theorem of_sorted (sorted : list.Pairwise (· ≤ ·)) (known : list[place]? = some value) :
    IsRanked list place value := by
  obtain ⟨inside, isValue⟩ := List.getElem?_eq_some_iff.mp known
  have split : list = list.take place ++ value :: list.drop (place + 1) := by
    rw [← isValue, List.getElem_cons_drop, List.take_append_drop]
  have length : (list.take place).length = place := List.length_take_of_le inside.le
  rw [split] at sorted ⊢
  rw [List.pairwise_append, List.pairwise_cons] at sorted
  obtain ⟨-, ⟨above, -⟩, below⟩ := sorted
  constructor
  · have none_above : (value :: list.drop (place + 1)).countP
        (fun element => decide (element < value)) = 0 := by
      rw [List.countP_eq_zero]
      intro element member
      rw [decide_eq_true_eq, not_lt]
      rcases List.mem_cons.mp member with same | later
      · exact same.ge
      · exact above element later
    rw [List.countP_append, none_above, Nat.add_zero]
    exact (List.countP_le_length).trans length.le
  · have all_below : (list.take place).countP (fun element => decide (element ≤ value)) = place := by
      rw [List.countP_eq_length.mpr, length]
      intro element member
      rw [decide_eq_true_eq]
      exact below element member value List.mem_cons_self
    rw [List.countP_append, all_below, List.countP_cons_of_pos (by simp)]
    omega

/-- The sorted list has a value at a place exactly if the value has this rank. -/
theorem getElem?_insertionSort_iff :
    (list.insertionSort (· ≤ ·))[place]? = some value ↔ IsRanked list place value := by
  have ranked : ∀ found, (list.insertionSort (· ≤ ·))[place]? = some found →
      IsRanked list place found := by
    intro found known
    exact (perm (list.perm_insertionSort (· ≤ ·))).mp
      (of_sorted (list.pairwise_insertionSort (· ≤ ·)) known)
  constructor
  · exact ranked value
  · intro isRanked
    cases known : (list.insertionSort (· ≤ ·))[place]? with
    | some found => rw [(ranked found known).unique isRanked]
    | none =>
        have outside := List.getElem?_eq_none_iff.mp known
        rw [List.length_insertionSort] at outside
        have count := isRanked.notLarger
        have bound : list.countP (fun element => decide (element ≤ value)) ≤ list.length :=
          List.countP_le_length
        omega

end IsRanked
