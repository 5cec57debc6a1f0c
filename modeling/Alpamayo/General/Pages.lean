import Mathlib.Data.List.Nodup
import Mathlib.Data.List.TakeWhile
import Mathlib.Order.Basic
import Mathlib.Tactic.Common

/-!
This file develops the pages of a list whose elements have names and fall by a key.
-/

namespace Pages

section descending

variable {A : Type} {list : List A}

/-- A test that fails from some element on keeps the elements before it. -/
theorem takeWhile_eq_filter {test : A → Bool}
    (falls : list.Pairwise fun first second => test second = true → test first = true) :
    list.takeWhile test = list.filter test := by
  induction list with
  | nil => rfl
  | cons first rest ih =>
      obtain ⟨earlier, falls⟩ := List.pairwise_cons.mp falls
      by_cases passes : test first = true
      · rw [List.takeWhile_cons_of_pos passes, List.filter_cons_of_pos passes, ih falls]
      · rw [List.takeWhile_cons_of_neg passes, List.filter_cons_of_neg passes, eq_comm,
          List.filter_eq_nil_iff]
        exact fun other member later => passes (earlier other member later)

variable {key : A → Nat}

/-- A list with falling keys splits at a bound. -/
theorem filter_append_filter (falls : list.Pairwise fun first second => key second ≤ key first)
    (test : A → Bool) (bound : Nat) :
    (list.filter fun element => test element && decide (bound ≤ key element)) ++
      (list.filter fun element => test element && decide (key element < bound)) =
        list.filter test := by
  induction list with
  | nil => rfl
  | cons first rest ih =>
      obtain ⟨below, falls⟩ := List.pairwise_cons.mp falls
      rcases Nat.lt_or_ge (key first) bound with low | high
      · have none : ((first :: rest).filter fun element =>
            test element && decide (bound ≤ key element)) = [] := by
          rw [List.filter_eq_nil_iff]
          intro element member
          have lower : key element ≤ key first := by
            rcases List.mem_cons.mp member with rfl | later
            · exact le_rfl
            · exact below element later
          simp only [Bool.and_eq_true, decide_eq_true_eq, not_and]
          omega
        rw [none, List.nil_append]
        apply List.filter_congr
        intro element member
        have lower : key element < bound := by
          rcases List.mem_cons.mp member with rfl | later
          · exact low
          · exact (below element later).trans_lt low
        simp [lower]
      · rw [List.filter_cons, List.filter_cons, List.filter_cons, ← ih falls]
        have notLow : ¬ key first < bound := by omega
        cases test first <;> simp [high, notLow]

/-- The elements of falling keys, one key after another, are the elements with these keys. -/
theorem flatMap_filter_eq (falls : list.Pairwise fun first second => key second ≤ key first)
    {keys : List Nat} (descends : keys.Pairwise (· > ·)) :
    keys.flatMap (fun number => list.filter fun element => key element = number) =
      list.filter fun element => decide (key element ∈ keys) := by
  induction keys with
  | nil => simp
  | cons first keys ih =>
      obtain ⟨below, descends⟩ := List.pairwise_cons.mp descends
      rw [List.flatMap_cons, ih descends, ← filter_append_filter falls
        (fun element => decide (key element ∈ first :: keys)) first]
      congr 1
      · apply List.filter_congr
        intro element _
        rw [Bool.eq_iff_iff]
        simp only [decide_eq_true_eq, Bool.and_eq_true, List.mem_cons]
        constructor
        · rintro rfl
          exact ⟨Or.inl rfl, le_rfl⟩
        · rintro ⟨same | later, above⟩
          · exact same
          · have := below _ later
            omega
      · apply List.filter_congr
        intro element _
        rw [Bool.eq_iff_iff]
        simp only [decide_eq_true_eq, Bool.and_eq_true, List.mem_cons]
        constructor
        · intro later
          exact ⟨Or.inr later, below _ later⟩
        · rintro ⟨same | later, above⟩
          · omega
          · exact later

end descending

variable {A N : Type} [DecidableEq N] {name : A → N} {part rest list : List A}

/-- The elements after the one with the name. -/
def after (name : A → N) (list : List A) : Option N → List A
  | none => list
  | some before => (list.dropWhile fun element => name element ≠ before).tail

/-- The elements before the one with the name. -/
def upTo (name : A → N) (list : List A) (last : Option N) : List A :=
  list.takeWhile fun element => some (name element) ≠ last

/-- A page starts after one name, ends before another, and has a bounded length. -/
def page (name : A → N) (list : List A) (before last : Option N) (limit : Nat) : List A :=
  (upTo name (after name list before) last).take limit

/-- The search for a name passes a part without it. -/
theorem after_append {before : N} (missing : ∀ element ∈ part, name element ≠ before) :
    after name (part ++ rest) (some before) = after name rest (some before) := by
  rw [after, after, List.dropWhile_append_of_pos]
  intro element member
  simpa using missing element member

/-- The elements after a name follow the element with the name. -/
theorem after_cons {element : A} : after name (element :: rest) (some (name element)) = rest := by
  simp [after]

/-- An element with another name is passed. -/
theorem after_cons_of_ne {element : A} {before : N} (other : name element ≠ before) :
    after name (element :: rest) (some before) = after name rest (some before) := by
  rw [after, after, List.dropWhile_cons_of_pos (by simpa using other)]

/-- The last element of a list has nothing after it. -/
theorem after_concat {element : A} (missing : ∀ other ∈ part, name other ≠ name element) :
    after name (part ++ element :: rest) (some (name element)) = rest := by
  rw [after_append missing, after_cons]

/-- The rest comes after the elements of the part that follow the name. -/
theorem after_append_of_mem {before : N} (known : ∃ element ∈ part, name element = before) :
    after name (part ++ rest) (some before) = after name part (some before) ++ rest := by
  induction part with
  | nil => simp at known
  | cons element part ih =>
      by_cases same : name element = before
      · rw [← same, List.cons_append, after_cons, after_cons]
      · have later : ∃ element ∈ part, name element = before := by simpa [same] using known
        rw [List.cons_append, after_cons_of_ne same, after_cons_of_ne same, ih later]

/-- The elements after a name end the list. -/
theorem after_suffix (name : A → N) (list : List A) (before : Option N) :
    after name list before <:+ list := by
  cases before with
  | none => exact List.suffix_refl list
  | some before => exact (List.tail_suffix _).trans (List.dropWhile_suffix _)

/-- The end of a page can lie after a part without its name. -/
theorem upTo_append {last : Option N} (missing : ∀ element ∈ part, some (name element) ≠ last) :
    upTo name (part ++ rest) last = part ++ upTo name rest last := by
  rw [upTo, List.takeWhile_append_of_pos]
  · rfl
  · intro element member
    simpa using missing element member

/-- A part with the end of the page is all that matters. -/
theorem upTo_append_of_mem {last : Option N} {element : A} (member : element ∈ part)
    (isLast : some (name element) = last) : upTo name (part ++ rest) last = upTo name part last := by
  induction part with
  | nil => cases member
  | cons first part ih =>
      unfold upTo at ih ⊢
      rw [List.cons_append]
      by_cases ends : some (name first) = last
      · rw [List.takeWhile_cons_of_neg (by simpa using ends),
          List.takeWhile_cons_of_neg (by simpa using ends)]
      · rw [List.takeWhile_cons_of_pos (by simpa using ends),
          List.takeWhile_cons_of_pos (by simpa using ends)]
        rcases List.mem_cons.mp member with rfl | later
        · exact absurd isLast ends
        · rw [ih later]

/-- A page without an end has the whole list. -/
@[simp] theorem upTo_none : upTo name list none = list := by
  rw [upTo, List.takeWhile_eq_self_iff]
  simp

/-- A list without the name is before it. -/
theorem upTo_eq_self {last : Option N} (missing : ∀ element ∈ list, some (name element) ≠ last) :
    upTo name list last = list := by
  rw [upTo, List.takeWhile_eq_self_iff]
  intro element member
  simpa using missing element member

theorem upTo_sublist (last : Option N) : (upTo name list last).Sublist list :=
  List.takeWhile_sublist _

/-- A part that does not fill the page is continued by the page of the rest. -/
theorem take_upTo_append {last : Option N} {limit : Nat}
    (missing : ∀ element ∈ part, some (name element) ≠ last) (short : part.length ≤ limit) :
    (upTo name (part ++ rest) last).take limit =
      part ++ (upTo name rest last).take (limit - part.length) := by
  rw [upTo_append missing, List.take_append, List.take_of_length_le short]

/-- A part that fills the page is the page. -/
theorem take_upTo_append_of_le {last : Option N} {limit : Nat}
    (full : limit ≤ (upTo name part last).length) :
    (upTo name (part ++ rest) last).take limit = (upTo name part last).take limit := by
  by_cases ends : ∃ element ∈ part, some (name element) = last
  · obtain ⟨element, member, isLast⟩ := ends
    rw [upTo_append_of_mem member isLast]
  · have missing : ∀ element ∈ part, some (name element) ≠ last :=
      fun element member isLast => ends ⟨element, member, isLast⟩
    rw [upTo_eq_self missing] at full ⊢
    rw [upTo_append missing, List.take_append_of_le_length full]

/-- A page from the start of the whole list is the page of its rest only when nothing is skipped or
both pages are empty. -/
theorem take_upTo_suffix_iff {last : Option N} {limit : Nat} (positive : 1 ≤ limit)
    (distinct : ((part ++ rest).map name).Nodup) :
    (upTo name (part ++ rest) last).take limit = (upTo name rest last).take limit ↔
      part = [] ∨ (rest = [] ∧ (part ++ rest).head?.map name = last) := by
  cases part with
  | nil => simp
  | cons first part =>
      rw [List.cons_append, List.map_cons, List.nodup_cons] at distinct
      have absent : ∀ element ∈ rest, name element ≠ name first := by
        intro element member same
        refine distinct.1 (List.mem_map.mpr ⟨element, ?_, same⟩)
        exact List.mem_append_right _ member
      obtain ⟨limit, rfl⟩ := Nat.exists_eq_succ_of_ne_zero (show limit ≠ 0 by omega)
      rw [List.cons_append]
      simp only [reduceCtorEq, false_or, List.head?_cons, Option.map_some]
      by_cases ends : some (name first) = last
      · have start : upTo name (first :: (part ++ rest)) last = [] := by
          rw [upTo, List.takeWhile_cons_of_neg (by simpa using ends)]
        rw [start, List.take_nil]
        constructor
        · intro nothing
          refine ⟨?_, ends⟩
          cases rest with
          | nil => rfl
          | cons second rest =>
              have different : some (name second) ≠ last := by
                rw [← ends]
                exact fun same => absent second List.mem_cons_self (Option.some_inj.mp same)
              rw [upTo, List.takeWhile_cons_of_pos (by simpa using different),
                List.take_succ_cons] at nothing
              cases nothing
        · rintro ⟨rfl, -⟩
          simp [upTo]
      · have start : upTo name (first :: (part ++ rest)) last =
            first :: upTo name (part ++ rest) last := by
          rw [upTo, List.takeWhile_cons_of_pos (by simpa using ends)]
          rfl
        rw [start, List.take_succ_cons]
        constructor
        · intro same
          have listed : first ∈ (upTo name rest last).take (limit + 1) := by
            rw [← same]
            exact List.mem_cons_self
          have member := (upTo_sublist last).subset (List.mem_of_mem_take listed)
          exact absurd rfl (absent first member)
        · rintro ⟨-, isLast⟩
          exact absurd isLast ends

/-- The position of the name gives the elements after it. -/
theorem drop_findIdx {before : N} {index : Nat}
    (found : list.findIdx? (fun element => name element = before) = some index) :
    list.drop (index + 1) = after name list (some before) := by
  induction list generalizing index with
  | nil => cases found
  | cons element list ih =>
      rw [List.findIdx?_cons] at found
      by_cases same : name element = before
      · rw [← same, after_cons]
        simp only [same, decide_true, ↓reduceIte, Option.some.injEq] at found
        rw [← found]
        rfl
      · simp only [same, decide_false, Bool.false_eq_true, ↓reduceIte, Option.map_eq_some_iff]
          at found
        obtain ⟨place, inRest, rfl⟩ := found
        rw [List.drop_succ_cons, ih inRest, after_cons_of_ne same]

/-- The elements after a name keep their images. -/
theorem after_map {B : Type} (image : B → A) (list : List B) (before : Option N) :
    after name (list.map image) before =
      (after (fun element => name (image element)) list before).map image := by
  cases before with
  | none => rfl
  | some before =>
      rw [after, after, List.dropWhile_map, List.map_tail]
      rfl

/-- The elements before a name keep their images. -/
theorem upTo_map {B : Type} (image : B → A) (list : List B) (last : Option N) :
    upTo name (list.map image) last =
      (upTo (fun element => name (image element)) list last).map image := by
  rw [upTo, upTo, List.takeWhile_map]
  rfl

/-- A page ends before a name that the end does not have. -/
theorem name_ne_of_mem_upTo {element : A} {stop : N}
    (member : element ∈ upTo name list (some stop)) : name element ≠ stop := by
  have passes := List.mem_takeWhile_imp member
  simpa using passes

/-- A known part that reaches the end or the limit is the page unless the end is no real one. -/
theorem take_upTo_eq_iff {last : Option N} {stop : N} {limit : Nat}
    (named : last = some stop ∨ last = none)
    (complete : limit ≤ part.length ∨ ∃ element ∈ part, name element = stop) :
    (upTo name part (some stop)).take limit = (upTo name (part ++ rest) last).take limit ↔
      last = some stop ∨ ∀ element ∈ part.take limit, name element ≠ stop := by
  rcases named with rfl | rfl
  · refine iff_of_true ?_ (Or.inl rfl)
    by_cases ends : ∃ element ∈ part, name element = stop
    · obtain ⟨element, member, isLast⟩ := ends
      rw [upTo_append_of_mem member (by rw [isLast])]
    · have missing : ∀ element ∈ part, some (name element) ≠ some stop :=
        fun element member same => ends ⟨element, member, Option.some_inj.mp same⟩
      rw [take_upTo_append_of_le]
      rw [upTo_eq_self missing]
      exact complete.resolve_right ends
  · simp only [reduceCtorEq, false_or, upTo_none]
    constructor
    · intro same element member isStop
      have listed : element ∈ (upTo name part (some stop)).take limit := by
        rw [same, List.take_append]
        exact List.mem_append_left _ member
      exact name_ne_of_mem_upTo (List.mem_of_mem_take listed) isStop
    · intro absent
      have long : limit ≤ part.length := by
        rcases complete with long | ⟨element, member, isStop⟩
        · exact long
        · by_contra short
          rw [List.take_of_length_le (by omega)] at absent
          exact absent element member isStop
      rw [List.take_append_of_le_length long]
      have split : upTo name part (some stop) =
          part.take limit ++ upTo name (part.drop limit) (some stop) := by
        conv_lhs => rw [← List.take_append_drop limit part]
        refine upTo_append fun element member same => ?_
        exact absent element member (Option.some_inj.mp same)
      rw [split, List.take_append_of_le_length (by simp [long]), List.take_take, Nat.min_self]

/-- A known part that is not yet a page is continued by the page of the whole list after it. -/
theorem continue_eq {last : Option N} {limit : Nat} {skipped : List A} (known : part ≠ [])
    (distinct : ((skipped ++ (part ++ rest)).map name).Nodup)
    (missing : ∀ element ∈ part, some (name element) ≠ last) (short : part.length ≤ limit) :
    part ++ page name (skipped ++ (part ++ rest)) (part.getLast?.map name) last
      (limit - part.length) = (upTo name (part ++ rest) last).take limit := by
  rw [take_upTo_append missing short, page]
  obtain ⟨first, final, rfl⟩ := (List.eq_nil_or_concat' part).resolve_left known
  have shape : skipped ++ (first ++ [final] ++ rest) = (skipped ++ first) ++ final :: rest := by simp
  rw [shape] at distinct ⊢
  rw [List.getLast?_concat, Option.map_some, after_concat]
  intro other member same
  rw [List.map_append, List.map_cons, List.nodup_append] at distinct
  exact distinct.2.2 _ (List.mem_map_of_mem member) _ List.mem_cons_self same

/-- A known part and the rest of the whole list make the page exactly if the end is a real one or
does not come early, and the part has an element to continue after or nothing is skipped. -/
theorem continue_eq_iff {last : Option N} {stop : N} {limit : Nat} {skipped : List A}
    (positive : 1 ≤ limit) (named : last = some stop ∨ last = none)
    (distinct : ((skipped ++ (part ++ rest)).map name).Nodup)
    (short : part.length < limit) (absent : ∀ element ∈ part, name element ≠ stop) :
    part ++ page name (skipped ++ (part ++ rest)) (part.getLast?.map name) last
        (limit - part.length) = (upTo name (part ++ rest) last).take limit ↔
      part ≠ [] ∨ skipped = [] ∨
        (part ++ rest = [] ∧ (skipped ++ (part ++ rest)).head?.map name = last) := by
  by_cases known : part = []
  · subst known
    simp only [List.nil_append, List.getLast?_nil, Option.map_none, List.length_nil, Nat.sub_zero,
      ne_eq, not_true_eq_false, false_or] at distinct ⊢
    exact take_upTo_suffix_iff positive distinct
  · refine iff_of_true (continue_eq known distinct ?_ (by omega)) (Or.inl known)
    rintro element member same
    rcases named with rfl | rfl
    · exact absent element member (Option.some_inj.mp same)
    · cases same

/-- A page without its first part is the whole page only when nothing known follows the part before
the end and nothing is skipped. -/
theorem continue_lost_eq_iff {last : Option N} {stop : N} {limit : Nat} {skipped lost : List A}
    (named : last = some stop ∨ last = none) (nonempty : lost ≠ []) (short : lost.length < limit)
    (absent : ∀ element ∈ lost, name element ≠ stop)
    (distinct : ((skipped ++ (lost ++ (part ++ rest))).map name).Nodup)
    (shown : List A) (isShown : shown = (upTo name part (some stop)).take (limit - lost.length)) :
    shown ++ page name (skipped ++ (lost ++ (part ++ rest))) (shown.getLast?.map name) last
        (limit - shown.length) = (upTo name (lost ++ (part ++ rest)) last).take limit ↔
      (∀ element ∈ part.head?, name element = stop) ∧ skipped = [] := by
  obtain ⟨first, lost, rfl⟩ := List.exists_cons_of_ne_nil nonempty
  have starts : some (name first) ≠ last := by
    rcases named with rfl | rfl
    · exact fun same => absent first List.mem_cons_self (Option.some_inj.mp same)
    · simp
  by_cases ended : ∀ element ∈ part.head?, name element = stop
  · have nothing : shown = [] := by
      rw [isShown]
      cases part with
      | nil => simp [upTo]
      | cons second part =>
          have isStop := ended second rfl
          rw [upTo, List.takeWhile_cons_of_neg (by simpa using isStop), List.take_nil]
    rw [nothing, List.nil_append, List.getLast?_nil, Option.map_none, List.length_nil, Nat.sub_zero,
      page, after, take_upTo_suffix_iff (by omega) distinct]
    constructor
    · rintro (whole | ⟨empty, -⟩)
      · exact ⟨ended, whole⟩
      · cases empty
    · exact fun condition => Or.inl condition.2
  · refine iff_of_false ?_ fun condition => ended condition.1
    cases part with
    | nil => simp at ended
    | cons second part =>
        have continues : name second ≠ stop := by simpa using ended
        obtain ⟨room, isRoom⟩ := Nat.exists_eq_succ_of_ne_zero
          (show limit - (first :: lost).length ≠ 0 by omega)
        rw [upTo, List.takeWhile_cons_of_pos (by simpa using continues), isRoom,
          List.take_succ_cons] at isShown
        obtain ⟨more, isMore⟩ := Nat.exists_eq_succ_of_ne_zero (show limit ≠ 0 by omega)
        rw [isShown, isMore, List.cons_append, List.cons_append, upTo,
          List.takeWhile_cons_of_pos (by simpa using starts), List.take_succ_cons]
        rintro same
        have head := (List.cons.inj same).1
        rw [head, List.map_append, List.nodup_append] at distinct
        simp at distinct

end Pages
