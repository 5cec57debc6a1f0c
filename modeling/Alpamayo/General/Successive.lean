import Mathlib.Data.List.Chain
import Mathlib.Tactic.Common

/-!
This file develops lists whose keys are successive numbers.
-/

/-- A replacement with the same image keeps the images of the list. -/
theorem map_set_eq_map {A B : Type} (name : A → B) {list : List A} {index : Nat} {old value : A}
    (place : list[index]? = some old) (same : name value = name old) :
    (list.set index value).map name = list.map name := by
  rw [List.map_set, same]
  apply List.ext_getElem?
  intro other
  rw [List.getElem?_set]
  split
  · rename_i here
    subst here
    rw [List.getElem?_map, place]
    simp [(List.getElem?_eq_some_iff.mp place).1]
  · rfl

namespace Successive

variable {A : Type} {key : A → Nat} {list : List A} {first second : A}

/-- The key of an element is its distance from the first key. -/
theorem getElem_eq_add (chain : list.IsChain fun low high => key high = key low + 1) {index : Nat}
    (inside : index < list.length) : key list[index] = key list[0] + index := by
  induction index with
  | zero => rfl
  | succ index ih =>
      have step := List.isChain_iff_getElem.mp chain index inside
      rw [step, ih (by omega)]
      omega

/-- An element is the only one with its key. -/
theorem eq_of_key_eq (chain : list.IsChain fun low high => key high = key low + 1)
    (firstMember : first ∈ list) (secondMember : second ∈ list) (same : key first = key second) :
    first = second := by
  obtain ⟨place, inside, rfl⟩ := List.getElem_of_mem firstMember
  obtain ⟨place', inside', rfl⟩ := List.getElem_of_mem secondMember
  rw [getElem_eq_add chain inside, getElem_eq_add chain inside'] at same
  have equal : place = place' := by omega
  subst equal
  rfl

/-- Every number from the first key to the key of an element is a key. -/
theorem getElem?_of_key (chain : list.IsChain fun low high => key high = key low + 1)
    (firstMember : list.head? = some first) (member : second ∈ list) {number : Nat}
    (above : key first ≤ number) (below : number ≤ key second) :
    ∃ element, list[number - key first]? = some element ∧ key element = number := by
  obtain ⟨place, inside, rfl⟩ := List.getElem_of_mem member
  rw [getElem_eq_add chain inside] at below
  have start : key first = key list[0] := by
    rw [List.head?_eq_getElem?, List.getElem?_eq_getElem (by omega)] at firstMember
    rw [Option.some_inj.mp firstMember]
  have bound : number - key first < list.length := by omega
  refine ⟨list[number - key first], List.getElem?_eq_getElem bound, ?_⟩
  rw [getElem_eq_add chain bound]
  omega

/-- The first key is the smallest one. -/
theorem head_le (chain : list.IsChain fun low high => key high = key low + 1)
    (firstMember : list.head? = some first) (member : second ∈ list) : key first ≤ key second := by
  obtain ⟨place, inside, rfl⟩ := List.getElem_of_mem member
  rw [List.head?_eq_getElem?, List.getElem?_eq_getElem (by omega)] at firstMember
  rw [getElem_eq_add chain inside, ← Option.some_inj.mp firstMember]
  omega

/-- The first key is below the keys of the rest. -/
theorem lt_of_mem_tail (chain : (first :: list).IsChain fun low high => key high = key low + 1)
    (member : second ∈ list) : key first < key second := by
  obtain ⟨place, inside, rfl⟩ := List.getElem_of_mem member
  have distance := getElem_eq_add chain (show place + 1 < (first :: list).length by simpa using inside)
  simp only [List.getElem_cons_succ, List.getElem_cons_zero] at distance
  omega

/-- The keys ascend. -/
theorem pairwise_lt (chain : list.IsChain fun low high => key high = key low + 1) :
    list.Pairwise fun low high => key low < key high := by
  induction list with
  | nil => exact .nil
  | cons first list ih =>
      exact .cons (fun _ member => lt_of_mem_tail chain member) (ih chain.tail)

/-- The last key is the largest one. -/
theorem le_getLast (chain : list.IsChain fun low high => key high = key low + 1)
    (lastMember : list.getLast? = some first) (member : second ∈ list) : key second ≤ key first := by
  obtain ⟨place, inside, rfl⟩ := List.getElem_of_mem member
  rw [List.getLast?_eq_getElem?, List.getElem?_eq_getElem (by omega)] at lastMember
  have last := getElem_eq_add chain (show list.length - 1 < list.length by omega)
  rw [← Option.some_inj.mp lastMember, getElem_eq_add chain inside, last]
  omega

/-- A replacement with the same key is the only change of the members. -/
theorem mem_set_iff (chain : list.IsChain fun low high => key high = key low + 1) {index : Nat}
    {old value element : A} (place : list[index]? = some old) (same : key value = key old) :
    element ∈ list.set index value ↔ element = value ∨ (element ∈ list ∧ key element ≠ key old) := by
  obtain ⟨bound, isOld⟩ := List.getElem?_eq_some_iff.mp place
  constructor
  · intro member
    obtain ⟨other, inside, isElement⟩ := List.getElem_of_mem member
    rw [List.getElem_set] at isElement
    split at isElement
    · exact Or.inl isElement.symm
    · rename_i different
      rw [List.length_set] at inside
      refine Or.inr ⟨isElement ▸ List.getElem_mem inside, ?_⟩
      rw [← isElement, ← isOld, getElem_eq_add chain inside, getElem_eq_add chain bound]
      omega
  · rintro (rfl | ⟨member, different⟩)
    · exact List.mem_set bound _
    · obtain ⟨other, inside, rfl⟩ := List.getElem_of_mem member
      refine List.mem_iff_getElem?.mpr ⟨other, ?_⟩
      rw [List.getElem?_set_ne, List.getElem?_eq_getElem inside]
      rintro rfl
      exact different (by rw [isOld])

/-- A replacement with the same key keeps the chain. -/
theorem isChain_set (chain : list.IsChain fun low high => key high = key low + 1) {index : Nat}
    {old value : A} (place : list[index]? = some old) (same : key value = key old) :
    (list.set index value).IsChain fun low high => key high = key low + 1 := by
  have mapped := (List.isChain_map key (R := fun low high => high = low + 1)).mpr chain
  rw [← map_set_eq_map key place same] at mapped
  exact (List.isChain_map key).mp mapped

/-- Successive numbers below the first key extend the chain. -/
theorem isChain_range'_append {make : Nat → A} (makes : ∀ number, key (make number) = number)
    (chain : list.IsChain fun low high => key high = key low + 1)
    (firstMember : list.head? = some first) {start : Nat} (below : start ≤ key first) :
    ((List.range' start (key first - start)).map make ++ list).IsChain
      fun low high => key high = key low + 1 := by
  rw [List.isChain_append]
  refine ⟨?_, chain, ?_⟩
  · rw [List.isChain_map]
    simp only [makes]
    rw [List.isChain_iff_getElem]
    intro index inside
    simp
    omega
  · intro last isLast first' isFirst
    rw [firstMember] at isFirst
    cases isFirst
    rw [List.getLast?_map, List.getLast?_range'] at isLast
    split at isLast
    · cases isLast
    · cases isLast
      rw [makes]
      omega

/-- Successive numbers above the last key extend the chain. -/
theorem isChain_append_range' {make : Nat → A} (makes : ∀ number, key (make number) = number)
    (chain : list.IsChain fun low high => key high = key low + 1)
    (lastMember : list.getLast? = some first) (count : Nat) :
    (list ++ (List.range' (key first + 1) count).map make).IsChain
      fun low high => key high = key low + 1 := by
  rw [List.isChain_append]
  refine ⟨chain, ?_, ?_⟩
  · rw [List.isChain_map]
    simp only [makes]
    rw [List.isChain_iff_getElem]
    intro index inside
    simp
    omega
  · intro last isLast next isNext
    rw [lastMember] at isLast
    cases isLast
    rw [List.head?_map, List.head?_range'] at isNext
    split at isNext
    · cases isNext
    · cases isNext
      rw [makes]

/-- The elements from a number on are those that remain after the distance to it. -/
theorem drop_eq_filter (chain : list.IsChain fun low high => key high = key low + 1)
    (firstMember : list.head? = some first) {number : Nat} (above : key first ≤ number) :
    list.drop (number - key first) = list.filter fun element => number ≤ key element := by
  induction list generalizing first with
  | nil => cases firstMember
  | cons head rest ih =>
      cases firstMember
      rcases Nat.eq_or_lt_of_le above with same | below
      · rw [← same, Nat.sub_self, List.drop_zero, List.filter_eq_self.mpr]
        intro element member
        have lowest := head_le chain rfl member
        simpa using lowest
      · rw [show number - key head = number - (key head + 1) + 1 by omega, List.drop_succ_cons,
          List.filter_cons_of_neg (by simpa using below)]
        cases rest with
        | nil => simp
        | cons next others =>
            have step := (List.isChain_cons_cons.mp chain).1
            rw [← step]
            exact ih chain.tail rfl (by omega)

end Successive
