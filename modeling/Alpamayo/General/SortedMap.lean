import Mathlib.Data.List.Sort
import Mathlib.Data.List.TakeWhile
import Mathlib.Order.Lattice
import Mathlib.Tactic.Common

/-!
This file develops a finite map whose entries are listed by ascending key.
-/

/-- The entries ascend strictly by key. -/
structure SortedMap (K V : Type) [LinearOrder K] where
  entries : List (K × V)
  sorted : entries.Pairwise fun first second => first.1 < second.1

namespace SortedMap

variable {K V : Type} [LinearOrder K] {map : SortedMap K V} {key other bound : K} {value : V}

instance [DecidableEq V] : DecidableEq (SortedMap K V) := fun first second =>
  decidable_of_iff (first.entries = second.entries) (by
    cases first
    cases second
    simp)

/-- The empty map has no entries. -/
def empty : SortedMap K V := ⟨[], List.Pairwise.nil⟩

/-- The lookup returns the value of a key. -/
def get (map : SortedMap K V) (key : K) : Option V := map.entries.lookup key

/-- The test reports whether the map has the key. -/
def containsKey (map : SortedMap K V) (key : K) : Bool := (map.get key).isSome

/-- The size counts the entries. -/
def size (map : SortedMap K V) : Nat := map.entries.length

/-- The insertion replaces the value of an existing key. -/
def insert (map : SortedMap K V) (key : K) (value : V) : SortedMap K V where
  entries := map.entries.filter (fun entry => entry.1 < key) ++
    (key, value) :: map.entries.filter (fun entry => key < entry.1)
  sorted := by
    rw [List.pairwise_append]
    refine ⟨map.sorted.filter _, List.pairwise_cons.mpr ⟨?_, map.sorted.filter _⟩, ?_⟩
    · intro entry member
      simpa using (List.mem_filter.mp member).2
    · intro low lowMember high highMember
      have below : low.1 < key := by simpa using (List.mem_filter.mp lowMember).2
      rcases List.mem_cons.mp highMember with rfl | highMember
      · exact below
      · exact below.trans (by simpa using (List.mem_filter.mp highMember).2)

/-- The removal drops the entry of a key. -/
def erase (map : SortedMap K V) (key : K) : SortedMap K V :=
  ⟨map.entries.filter fun entry => entry.1 ≠ key, map.sorted.filter _⟩

/-- The first entry has the lowest key. -/
def first (map : SortedMap K V) : Option (K × V) := map.entries.head?

/-- This loop removes the lowest entry while it satisfies the test. -/
def popWhile (map : SortedMap K V) (test : K × V → Bool) : SortedMap K V :=
  ⟨map.entries.dropWhile test, map.sorted.sublist (List.dropWhile_sublist _)⟩

/-- The dropped entries are the longest lowest part that satisfies the test. -/
def popped (map : SortedMap K V) (test : K × V → Bool) : List (K × V) :=
  map.entries.takeWhile test

/-- The keys have no duplicates. -/
theorem nodup_keys (map : SortedMap K V) : (map.entries.map Prod.fst).Nodup :=
  List.pairwise_map.mpr (map.sorted.imp fun less => less.ne)

/-- Two entries with one key are equal. -/
theorem entry_unique {first second : K × V} (firstMember : first ∈ map.entries)
    (secondMember : second ∈ map.entries) (same : first.1 = second.1) : first = second :=
  List.inj_on_of_nodup_map map.nodup_keys firstMember secondMember same

/-- The lookup finds exactly the entries. -/
theorem get_eq_some_iff : map.get key = some value ↔ (key, value) ∈ map.entries := by
  constructor
  · intro found
    obtain ⟨before, after, split, -⟩ := List.lookup_eq_some_iff.mp found
    rw [split]
    simp
  · intro member
    cases found : map.get key with
    | none =>
        have missing := List.lookup_eq_none_iff.mp found _ member
        simp at missing
    | some stored =>
        obtain ⟨before, after, split, -⟩ := List.lookup_eq_some_iff.mp found
        have storedMember : (key, stored) ∈ map.entries := by
          rw [split]
          simp
        exact congrArg (fun entry => some entry.2) (entry_unique storedMember member rfl)

/-- Maps with equal lookups are equal. -/
theorem ext_get {first second : SortedMap K V} (same : ∀ key, first.get key = second.get key) :
    first = second := by
  have member (entry : K × V) : entry ∈ first.entries ↔ entry ∈ second.entries := by
    obtain ⟨key, value⟩ := entry
    rw [← get_eq_some_iff, ← get_eq_some_iff, same]
  have perm : first.entries.Perm second.entries := by
    rw [List.perm_ext_iff_of_nodup]
    · exact member
    · exact first.sorted.imp fun less equal => (equal ▸ less).false
    · exact second.sorted.imp fun less equal => (equal ▸ less).false
  have equal := perm.eq_of_pairwise (fun a b _ _ less less' => (less.asymm less').elim)
    first.sorted second.sorted
  cases first
  cases second
  simpa using equal

theorem containsKey_iff : map.containsKey key = true ↔ ∃ value, map.get key = some value :=
  Option.isSome_iff_exists

@[simp] theorem get_empty : (empty : SortedMap K V).get key = none := rfl

/-- An insertion changes the value of its key only. -/
theorem get_insert (map : SortedMap K V) (key other : K) (value : V) :
    (map.insert key value).get other = if other = key then some value else map.get other := by
  ext stored
  split
  · rename_i same
    subst same
    rw [get_eq_some_iff]
    simp [insert, eq_comm]
  · rename_i different
    rw [get_eq_some_iff, get_eq_some_iff]
    simp only [insert, List.mem_append, List.mem_cons, List.mem_filter, Prod.mk.injEq, different,
      false_and, false_or, decide_eq_true_eq]
    have apart := lt_or_gt_of_ne different
    tauto

/-- A removal drops its key only. -/
theorem get_erase (map : SortedMap K V) (key other : K) :
    (map.erase key).get other = if other = key then none else map.get other := by
  ext stored
  rw [get_eq_some_iff]
  simp only [erase, List.mem_filter, decide_eq_true_eq, ne_eq]
  split
  · simp_all
  · simp_all [get_eq_some_iff]

@[simp] theorem get_insert_self : (map.insert key value).get key = some value := by
  rw [get_insert, if_pos rfl]

theorem get_insert_of_ne (different : other ≠ key) :
    (map.insert key value).get other = map.get other := by
  rw [get_insert, if_neg different]

@[simp] theorem get_erase_self : (map.erase key).get key = none := by
  rw [get_erase, if_pos rfl]

theorem get_erase_of_ne (different : other ≠ key) :
    (map.erase key).get other = map.get other := by
  rw [get_erase, if_neg different]

theorem containsKey_insert (map : SortedMap K V) (key other : K) (value : V) :
    (map.insert key value).containsKey other = true ↔ other = key ∨ map.containsKey other = true := by
  rw [containsKey, get_insert]
  split <;> simp_all [containsKey]

theorem containsKey_erase (map : SortedMap K V) (key other : K) :
    (map.erase key).containsKey other = true ↔ other ≠ key ∧ map.containsKey other = true := by
  rw [containsKey, get_erase]
  split <;> simp_all [containsKey]

/-- After some insertions a key has the value of the last insertion for it. -/
theorem get_foldl_insert {A : Type} (list : List A) (name : A → K) (value : A → V)
    (map : SortedMap K V) (key : K) :
    (list.foldl (fun map entry => map.insert (name entry) (value entry)) map).get key =
      ((list.reverse.find? fun entry => name entry = key).map value).or (map.get key) := by
  induction list generalizing map with
  | nil => simp
  | cons entry rest ih =>
      rw [List.foldl_cons, ih, List.reverse_cons, List.find?_append, get_insert]
      cases rest.reverse.find? fun entry => name entry = key with
      | some found => simp
      | none => by_cases same : name entry = key <;> simp [same, @eq_comm _ key]

/-- A fold of removals takes away the keys of the list. -/
theorem get_foldl_erase {A : Type} (list : List A) (name : A → K) (map : SortedMap K V) (key : K) :
    (list.foldl (fun map entry => map.erase (name entry)) map).get key =
      if key ∈ list.map name then none else map.get key := by
  induction list generalizing map with
  | nil => simp
  | cons entry rest ih =>
      rw [List.foldl_cons, ih, get_erase]
      by_cases here : key = name entry <;> simp [here]

/-- Some insertions change nothing exactly if each key had its last value already. -/
theorem foldl_insert_eq_self_iff {A : Type} (list : List A) (name : A → K) (value : A → V)
    (map : SortedMap K V) :
    list.foldl (fun map entry => map.insert (name entry) (value entry)) map = map ↔
      ∀ key entry, list.reverse.find? (fun entry => name entry = key) = some entry →
        map.get key = some (value entry) := by
  constructor
  · intro same key entry last
    have found := get_foldl_insert list name value map key
    rw [same, last] at found
    exact found
  · intro holds
    apply ext_get
    intro key
    rw [get_foldl_insert]
    cases last : list.reverse.find? fun entry => name entry = key with
    | none => rfl
    | some entry => rw [holds key entry last, Option.map_some, Option.some_or]

/-- An insertion changes nothing exactly if the key had the value already. -/
theorem insert_eq_self_iff : map.insert key value = map ↔ map.get key = some value := by
  constructor
  · intro same
    rw [← same, get_insert, if_pos rfl]
  · intro found
    apply ext_get
    intro other
    rw [get_insert]
    split
    · rename_i here
      rw [here, found]
    · rfl

/-- The removal of a key that the map has makes the map smaller. -/
theorem size_erase_lt (found : map.get key = some value) : (map.erase key).size < map.size := by
  refine List.length_filter_lt_length_iff_exists.mpr ⟨(key, value), get_eq_some_iff.mp found, ?_⟩
  simp

/-- The removal loop over a test that holds below each key that passes it removes exactly the keys
that pass. -/
theorem get_popWhile (map : SortedMap K V) (test : K → Bool)
    (down : ∀ low high, low < high → test high = true → test low = true) (key : K) :
    (map.popWhile fun entry => test entry.1).get key =
      if test key then none else map.get key := by
  have kept : (map.popWhile fun entry => test entry.1).entries =
      map.entries.filter fun entry => !test entry.1 := by
    obtain ⟨entries, sorted⟩ := map
    simp only [popWhile]
    induction entries with
    | nil => rfl
    | cons entry rest ih =>
        obtain ⟨above, tailSorted⟩ := List.pairwise_cons.mp sorted
        cases passes : test entry.1 with
        | true => simp [passes, ih tailSorted]
        | false =>
            have allFail : ∀ later ∈ rest, test later.1 = false := by
              intro later member
              cases laterPasses : test later.1 with
              | false => rfl
              | true =>
                  rw [down _ _ (above later member) laterPasses] at passes
                  cases passes
            rw [List.filter_eq_self.mpr (by simpa [passes] using allFail)]
            simp [passes]
  ext stored
  rw [get_eq_some_iff, kept]
  cases passes : test key with
  | true => simp [passes]
  | false => simp [get_eq_some_iff, passes]

/-- The removal loop over a bound on the keys removes exactly the keys under the bound. -/
theorem get_popWhile_le (map : SortedMap K V) (bound key : K) :
    (map.popWhile fun entry => entry.1 ≤ bound).get key =
      if key ≤ bound then none else map.get key := by
  have removed := map.get_popWhile (fun other => decide (other ≤ bound)) (by
    intro low high less passes
    exact decide_eq_true (less.le.trans (of_decide_eq_true passes))) key
  simpa using removed

/-- The removal loop over a strict bound removes exactly the keys below the bound. -/
theorem get_popWhile_lt (map : SortedMap K V) (bound key : K) :
    (map.popWhile fun entry => entry.1 < bound).get key =
      if key < bound then none else map.get key := by
  have removed := map.get_popWhile (fun other => decide (other < bound)) (by
    intro low high less passes
    exact decide_eq_true (less.trans (of_decide_eq_true passes))) key
  simpa using removed

/-- Every entry was either removed by the loop or kept. -/
theorem popped_append_popWhile (map : SortedMap K V) (test : K × V → Bool) :
    map.popped test ++ (map.popWhile test).entries = map.entries :=
  List.takeWhile_append_dropWhile

/-- A kept entry was in the map. -/
theorem get_of_popWhile {test : K × V → Bool} (kept : (map.popWhile test).get key = some value) :
    map.get key = some value := by
  rw [get_eq_some_iff] at kept ⊢
  exact (List.dropWhile_sublist _).subset kept

/-- An entry that the loop did not remove is kept. -/
theorem get_popWhile_of_not_popped {test : K × V → Bool} (found : map.get key = some value)
    (stays : (key, value) ∉ map.popped test) : (map.popWhile test).get key = some value := by
  rw [get_eq_some_iff] at found ⊢
  rw [← map.popped_append_popWhile test, List.mem_append] at found
  exact found.resolve_left stays

/-- A removed entry satisfies the test. -/
theorem test_of_mem_popped {test : K × V → Bool} {entry : K × V}
    (removed : entry ∈ map.popped test) : test entry = true :=
  List.mem_takeWhile_imp removed

/-- A missing key stays missing. -/
theorem get_popWhile_eq_none {test : K × V → Bool} (missing : map.get key = none) :
    (map.popWhile test).get key = none := by
  cases kept : (map.popWhile test).get key with
  | none => rfl
  | some value =>
      rw [get_of_popWhile kept] at missing
      cases missing

/-- A removed entry was in the map. -/
theorem get_of_mem_popped {test : K × V → Bool} {entry : K × V} (removed : entry ∈ map.popped test) :
    map.get entry.1 = some entry.2 :=
  get_eq_some_iff.mpr ((List.takeWhile_prefix test).subset removed)

/-- The removal loop drops exactly the keys of the removed entries. -/
theorem get_popWhile_popped (map : SortedMap K V) (test : K × V → Bool) (key : K) :
    (map.popWhile test).get key =
      if key ∈ (map.popped test).map Prod.fst then none else map.get key := by
  split
  · rename_i removed
    obtain ⟨entry, member, rfl⟩ := List.mem_map.mp removed
    cases kept : (map.popWhile test).get entry.1 with
    | none => rfl
    | some value =>
        have apart := map.sorted
        rw [← map.popped_append_popWhile test, List.pairwise_append] at apart
        exact absurd (apart.2.2 entry member _ (get_eq_some_iff.mp kept)) (lt_irrefl _)
  · rename_i stays
    cases found : map.get key with
    | none => exact get_popWhile_eq_none found
    | some value =>
        apply get_popWhile_of_not_popped found
        exact fun removed => stays (List.mem_map.mpr ⟨_, removed, rfl⟩)

/-- The first entry from a bound on has the lowest key from there on. -/
theorem find?_ge {entry : K × V}
    (found : map.entries.find? (fun entry => bound ≤ entry.1) = some entry) :
    entry ∈ map.entries ∧ bound ≤ entry.1 ∧
      ∀ other ∈ map.entries, bound ≤ other.1 → entry.1 ≤ other.1 := by
  obtain ⟨reached, before, after, split, below⟩ := List.find?_eq_some_iff_append.mp found
  rw [decide_eq_true_eq] at reached
  refine ⟨by rw [split]; simp, reached, ?_⟩
  intro other member above
  have sorted := map.sorted
  rw [split] at member sorted
  obtain early | late := List.mem_append.mp member
  · have short := below other early
    simp only [Bool.not_eq_true', decide_eq_false_iff_not] at short
    exact absurd above short
  · obtain rfl | late := List.mem_cons.mp late
    · exact le_refl _
    · exact le_of_lt ((List.pairwise_cons.mp (List.pairwise_append.mp sorted).2.1).1 other late)

/-- The last entry up to a bound has the highest key up to there. -/
theorem find?_le {entry : K × V}
    (found : map.entries.reverse.find? (fun entry => entry.1 ≤ bound) = some entry) :
    entry ∈ map.entries ∧ entry.1 ≤ bound ∧
      ∀ other ∈ map.entries, other.1 ≤ bound → other.1 ≤ entry.1 := by
  obtain ⟨reached, before, after, split, above⟩ := List.find?_eq_some_iff_append.mp found
  rw [decide_eq_true_eq] at reached
  have member : entry ∈ map.entries.reverse := by
    rw [split]
    simp
  refine ⟨List.mem_reverse.mp member, reached, ?_⟩
  intro other inside below
  have sorted : map.entries.reverse.Pairwise fun first second => second.1 < first.1 :=
    List.pairwise_reverse.mpr map.sorted
  rw [← List.mem_reverse, split] at inside
  rw [split] at sorted
  obtain early | late := List.mem_append.mp inside
  · have long := above other early
    simp only [Bool.not_eq_true', decide_eq_false_iff_not] at long
    exact absurd below long
  · obtain rfl | late := List.mem_cons.mp late
    · exact le_refl _
    · exact le_of_lt ((List.pairwise_cons.mp (List.pairwise_append.mp sorted).2.1).1 other late)

end SortedMap
