import Mathlib.Logic.Function.Basic
import Mathlib.Tactic.Common

/-!
This file models a hash map by its lookup function.
-/

/-- The lookup function determines a map without an iteration order. -/
def HashMap (K V : Type) := K → Option V

namespace HashMap

variable {K V : Type} [DecidableEq K]

/-- The empty map has no keys. -/
def empty : HashMap K V := fun _ => none

/-- The lookup returns the value of a key. -/
def get (map : HashMap K V) (key : K) : Option V := map key

/-- The test reports whether the map has the key. -/
def containsKey (map : HashMap K V) (key : K) : Bool := (map.get key).isSome

/-- The insertion replaces the value of an existing key. -/
def insert (map : HashMap K V) (key : K) (value : V) : HashMap K V :=
  Function.update map key (some value)

/-- The removal drops the value of a key. -/
def remove (map : HashMap K V) (key : K) : HashMap K V := Function.update map key none

/-- The change is made to the value of every key. -/
def mapValues {W : Type} (map : HashMap K V) (change : V → W) : HashMap K W := fun key =>
  (map.get key).map change

omit [DecidableEq K] in
@[simp] theorem get_mapValues {W : Type} (map : HashMap K V) (change : V → W) (key : K) :
    (map.mapValues change).get key = (map.get key).map change := rfl

omit [DecidableEq K] in
@[ext] theorem ext {first second : HashMap K V} (same : ∀ key, first.get key = second.get key) :
    first = second := funext same

omit [DecidableEq K] in
@[simp] theorem get_empty (key : K) : (empty : HashMap K V).get key = none := rfl

theorem get_insert (map : HashMap K V) (key other : K) (value : V) :
    (map.insert key value).get other = if other = key then some value else map.get other :=
  Function.update_apply map key (some value) other

theorem get_remove (map : HashMap K V) (key other : K) :
    (map.remove key).get other = if other = key then none else map.get other :=
  Function.update_apply map key none other

@[simp] theorem get_insert_self (map : HashMap K V) (key : K) (value : V) :
    (map.insert key value).get key = some value := by
  rw [get_insert, if_pos rfl]

@[simp] theorem get_remove_self (map : HashMap K V) (key : K) :
    (map.remove key).get key = none := by
  rw [get_remove, if_pos rfl]

theorem containsKey_insert (map : HashMap K V) (key other : K) (value : V) :
    (map.insert key value).containsKey other = true ↔ other = key ∨ map.containsKey other = true := by
  rw [containsKey, get_insert]
  split <;> simp_all [containsKey]

/-- After some insertions a key has the value of the last insertion for it. -/
theorem get_foldl_insert {A : Type} (list : List A) (name : A → K) (value : A → V)
    (map : HashMap K V) (key : K) :
    (list.foldl (fun map entry => map.insert (name entry) (value entry)) map).get key =
      ((list.reverse.find? fun entry => name entry = key).map value).or (map.get key) := by
  induction list generalizing map with
  | nil => simp
  | cons entry rest ih =>
      rw [List.foldl_cons, ih, List.reverse_cons, List.find?_append, get_insert]
      cases rest.reverse.find? fun entry => name entry = key with
      | some found => simp
      | none => by_cases same : name entry = key <;> simp [same, @eq_comm _ key]

/-- Some insertions change nothing exactly if each key had its last value already. -/
theorem foldl_insert_eq_self_iff {A : Type} (list : List A) (name : A → K) (value : A → V)
    (map : HashMap K V) :
    list.foldl (fun map entry => map.insert (name entry) (value entry)) map = map ↔
      ∀ key entry, list.reverse.find? (fun entry => name entry = key) = some entry →
        map.get key = some (value entry) := by
  constructor
  · intro same key entry last
    have found := get_foldl_insert list name value map key
    rw [same, last] at found
    exact found
  · intro holds
    apply ext
    intro key
    rw [get_foldl_insert]
    cases last : list.reverse.find? fun entry => name entry = key with
    | none => rfl
    | some entry => rw [holds key entry last, Option.map_some, Option.some_or]

/-- After some removals only the other keys are left. -/
theorem get_foldl_remove (list : List K) (map : HashMap K V) (key : K) :
    (list.foldl (fun map removed => map.remove removed) map).get key =
      if key ∈ list then none else map.get key := by
  induction list generalizing map with
  | nil => simp
  | cons removed rest ih =>
      rw [List.foldl_cons, ih, get_remove]
      by_cases same : key = removed <;> simp [same]

end HashMap
