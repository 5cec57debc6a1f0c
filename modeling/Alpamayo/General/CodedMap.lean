import Alpamayo.General.Buf
import Alpamayo.General.HashMap
import Alpamayo.General.SortedMap
import Mathlib.Data.List.Lex
import Mathlib.Order.Basic

/-!
This file develops maps whose keys and values are stored as bytes, in the order of the bytes of the
keys.
-/

/-- The bytes of a key; the keys are ordered byte by byte. -/
structure ByteKey where
  bytes : List UInt8
  deriving DecidableEq

namespace ByteKey

/-- The numbers of the bytes. -/
def numbers (key : ByteKey) : List Nat := key.bytes.map UInt8.toNat

theorem numbers_injective : Function.Injective numbers := by
  intro first second same
  obtain ⟨first⟩ := first
  obtain ⟨second⟩ := second
  have injective : Function.Injective UInt8.toNat := fun _ _ equal => UInt8.toNat_inj.mp equal
  exact congrArg ByteKey.mk (List.map_injective_iff.mpr injective same)

instance : LinearOrder ByteKey := LinearOrder.lift' numbers numbers_injective

theorem lt_iff {first second : ByteKey} :
    first < second ↔ List.Lex (· < ·) first.numbers second.numbers := Iff.rfl

/-- The first bytes decide if they differ. -/
theorem lex_append {first second : List Nat} (less : List.Lex (· < ·) first second)
    (length : first.length = second.length) (low high : List Nat) :
    List.Lex (· < ·) (first ++ low) (second ++ high) := by
  induction less with
  | nil => cases length
  | cons _ ih => exact .cons (ih (Nat.succ.inj length))
  | rel less => exact .rel less

theorem append_lt_append {first second low high : List UInt8} (less : mk first < mk second)
    (length : first.length = second.length) : mk (first ++ low) < mk (second ++ high) := by
  rw [lt_iff] at less ⊢
  unfold numbers at less ⊢
  rw [List.map_append, List.map_append]
  exact lex_append less (by rw [List.length_map, List.length_map, length]) _ _

theorem append_lt_append_left {low high : List UInt8} (less : mk low < mk high)
    (first : List UInt8) : mk (first ++ low) < mk (first ++ high) := by
  rw [lt_iff] at less ⊢
  unfold numbers at less ⊢
  rw [List.map_append, List.map_append]
  exact List.Lex.append_left _ less _

/-- Numbers of one width are ordered like their bytes. -/
theorem bigEndian_lt {count low high : Nat} (less : low < high) (fits : high < 256 ^ count) :
    mk (Buf.bigEndian count low) < mk (Buf.bigEndian count high) := by
  induction count generalizing low high with
  | zero =>
      rw [Nat.pow_zero] at fits
      omega
  | succ count ih =>
      rw [Nat.pow_succ] at fits
      unfold Buf.bigEndian
      by_cases same : low / 256 = high / 256
      · rw [same]
        apply append_lt_append_left
        apply List.Lex.rel
        have byte : ∀ number : Nat, (UInt8.ofNat (number % 256)).toNat = number % 256 := by
          intro number
          rw [UInt8.toNat_ofNat']
          omega
        rw [byte, byte]
        omega
      · apply append_lt_append
        · exact ih (by omega) (by omega)
        · simp

end ByteKey

/-- The keys and the values that fit have codes, and the codes of the keys are ordered like the
keys. -/
structure MapCode (K V C W : Type) [LinearOrder K] [LinearOrder C] where
  KeyFits : K → Prop
  ValueFits : V → Prop
  key : K → C
  value : V → W
  key_lt : ∀ {low high}, KeyFits low → KeyFits high → low < high → key low < key high

namespace MapCode

variable {K V C W : Type} [LinearOrder K] [LinearOrder C] {code : MapCode K V C W}
  {map : SortedMap K V} {rows : SortedMap C W} {name other : K} {content : V}

theorem key_lt_iff (fits : code.KeyFits name) (otherFits : code.KeyFits other) :
    code.key name < code.key other ↔ name < other := by
  constructor
  · intro less
    rcases lt_trichotomy name other with low | same | high
    · exact low
    · rw [same] at less
      exact absurd less (lt_irrefl _)
    · exact absurd less (code.key_lt otherFits fits high).asymm
  · exact code.key_lt fits otherFits

theorem key_le_iff (fits : code.KeyFits name) (otherFits : code.KeyFits other) :
    code.key name ≤ code.key other ↔ name ≤ other := by
  rw [← not_lt, ← not_lt, key_lt_iff otherFits fits]

theorem key_inj (fits : code.KeyFits name) (otherFits : code.KeyFits other) :
    code.key name = code.key other ↔ name = other := by
  rw [le_antisymm_iff, le_antisymm_iff, key_le_iff fits otherFits, key_le_iff otherFits fits]

/-- The code of an entry. -/
def entry (code : MapCode K V C W) (entry : K × V) : C × W := (code.key entry.1, code.value entry.2)

/-- The rows are the codes of the entries. -/
structure Codes (code : MapCode K V C W) (map : SortedMap K V) (rows : SortedMap C W) : Prop where
  entries : rows.entries = map.entries.map code.entry
  keys : ∀ entry ∈ map.entries, code.KeyFits entry.1
  values : ∀ entry ∈ map.entries, code.ValueFits entry.2

theorem codes_empty : code.Codes .empty .empty where
  entries := rfl
  keys _ impossible := by cases impossible
  values _ impossible := by cases impossible

/-- A test of the rows that agrees with one of the entries selects the codes of the same entries. -/
theorem Codes.filter (codes : code.Codes map rows) (test : K → Prop) [DecidablePred test]
    (rowTest : C → Prop) [DecidablePred rowTest]
    (same : ∀ key, code.KeyFits key → (rowTest (code.key key) ↔ test key)) :
    rows.entries.filter (fun row => rowTest row.1) =
      (map.entries.filter fun entry => test entry.1).map code.entry := by
  rw [codes.entries, List.filter_map]
  congr 1
  apply List.filter_congr
  intro entry member
  exact decide_eq_decide.mpr (same entry.1 (codes.keys entry member))

theorem Codes.get (codes : code.Codes map rows) (fits : code.KeyFits name) :
    rows.get (code.key name) = (map.get name).map code.value := by
  ext stored
  rw [SortedMap.get_eq_some_iff, codes.entries, Option.map_eq_some_iff, List.mem_map]
  constructor
  · rintro ⟨⟨key, value⟩, member, same⟩
    obtain ⟨sameKey, sameValue⟩ := Prod.mk.inj same
    rw [key_inj (codes.keys _ member) fits] at sameKey
    subst sameKey
    exact ⟨value, SortedMap.get_eq_some_iff.mpr member, sameValue⟩
  · rintro ⟨value, found, rfl⟩
    exact ⟨(name, value), SortedMap.get_eq_some_iff.mp found, rfl⟩

/-- A value that is found fits. -/
theorem Codes.fits_of_get (codes : code.Codes map rows) (found : map.get name = some content) :
    code.ValueFits content :=
  codes.values (name, content) (SortedMap.get_eq_some_iff.mp found)

theorem Codes.insert (codes : code.Codes map rows) (fits : code.KeyFits name)
    (valueFits : code.ValueFits content) :
    code.Codes (map.insert name content) (rows.insert (code.key name) (code.value content)) where
  entries := by
    have below := codes.filter (· < name) (· < code.key name) fun _ keyFits =>
      key_lt_iff keyFits fits
    have above := codes.filter (name < ·) (code.key name < ·) fun _ keyFits =>
      key_lt_iff fits keyFits
    simp only [SortedMap.insert, List.map_append, List.map_cons]
    rw [below, above]
    rfl
  keys entry member := by
    simp only [SortedMap.insert, List.mem_append, List.mem_cons, List.mem_filter] at member
    rcases member with ⟨old, -⟩ | rfl | ⟨old, -⟩
    · exact codes.keys entry old
    · exact fits
    · exact codes.keys entry old
  values entry member := by
    simp only [SortedMap.insert, List.mem_append, List.mem_cons, List.mem_filter] at member
    rcases member with ⟨old, -⟩ | rfl | ⟨old, -⟩
    · exact codes.values entry old
    · exact valueFits
    · exact codes.values entry old

theorem Codes.erase (codes : code.Codes map rows) (fits : code.KeyFits name) :
    code.Codes (map.erase name) (rows.erase (code.key name)) where
  entries := by
    apply codes.filter (· ≠ name) (· ≠ code.key name)
    intro key keyFits
    exact (key_inj keyFits fits).not
  keys entry member := codes.keys entry (List.mem_of_mem_filter member)
  values entry member := codes.values entry (List.mem_of_mem_filter member)

/-- A fold of insertions. -/
theorem Codes.foldl_insert {A : Type} (list : List A) (key : A → K) (value : A → V)
    (codes : code.Codes map rows) (keysFit : ∀ item ∈ list, code.KeyFits (key item))
    (valuesFit : ∀ item ∈ list, code.ValueFits (value item)) :
    code.Codes (list.foldl (fun map item => map.insert (key item) (value item)) map)
      (list.foldl (fun rows item => rows.insert (code.key (key item)) (code.value (value item)))
        rows) := by
  induction list generalizing map rows with
  | nil => exact codes
  | cons item rest ih =>
      have first := codes.insert (keysFit item List.mem_cons_self) (valuesFit item List.mem_cons_self)
      exact ih first (fun other member => keysFit other (List.mem_cons_of_mem _ member))
        fun other member => valuesFit other (List.mem_cons_of_mem _ member)

/-- A fold of removals. -/
theorem Codes.foldl_erase {A : Type} (list : List A) (key : A → K) (codes : code.Codes map rows)
    (keysFit : ∀ item ∈ list, code.KeyFits (key item)) :
    code.Codes (list.foldl (fun map item => map.erase (key item)) map)
      (list.foldl (fun rows item => rows.erase (code.key (key item))) rows) := by
  induction list generalizing map rows with
  | nil => exact codes
  | cons item rest ih =>
      exact ih (codes.erase (keysFit item List.mem_cons_self)) fun other member =>
        keysFit other (List.mem_cons_of_mem _ member)

/-- The rows up to a key are the codes of the entries up to it. -/
theorem Codes.upTo (codes : code.Codes map rows) (fits : code.KeyFits name) :
    (rows.entries.filter fun row => row.1 ≤ code.key name) =
      (map.entries.filter fun entry => entry.1 ≤ name).map code.entry :=
  codes.filter (· ≤ name) (· ≤ code.key name) fun _ keyFits => key_le_iff keyFits fits

/-- The rows from a key on are the codes of the entries from it on. -/
theorem Codes.onFrom (codes : code.Codes map rows) (fits : code.KeyFits name) :
    (rows.entries.filter fun row => code.key name ≤ row.1) =
      (map.entries.filter fun entry => name ≤ entry.1).map code.entry :=
  codes.filter (name ≤ ·) (code.key name ≤ ·) fun _ keyFits => key_le_iff fits keyFits

end MapCode

/-- The keys of a hash map have different codes, in any order. -/
structure HashCode (K V C W : Type) where
  ValueFits : V → Prop
  key : K → C
  value : V → W
  key_injective : Function.Injective key

namespace HashCode

variable {K V C W : Type} [DecidableEq K] [LinearOrder C] {code : HashCode K V C W}
  {map : HashMap K V} {rows : SortedMap C W} {name : K} {content : V}

/-- The rows have the codes of the values under the codes of the keys, and no others. -/
structure Codes (code : HashCode K V C W) (map : HashMap K V) (rows : SortedMap C W) : Prop where
  get : ∀ name, rows.get (code.key name) = (map.get name).map code.value
  named : ∀ key row, rows.get key = some row → ∃ name, key = code.key name
  values : ∀ name content, map.get name = some content → code.ValueFits content

omit [DecidableEq K] in
theorem codes_empty : code.Codes .empty .empty where
  get _ := rfl
  named _ _ impossible := by cases impossible
  values _ _ impossible := by cases impossible

theorem Codes.insert (codes : code.Codes map rows) (valueFits : code.ValueFits content) :
    code.Codes (map.insert name content) (rows.insert (code.key name) (code.value content)) where
  get other := by
    rw [SortedMap.get_insert, HashMap.get_insert, codes.get]
    by_cases same : other = name
    · rw [if_pos (congrArg code.key same), if_pos same]
      rfl
    · rw [if_neg (code.key_injective.ne same), if_neg same]
  named key row known := by
    rw [SortedMap.get_insert] at known
    split at known
    · exact ⟨name, ‹_›⟩
    · exact codes.named key row known
  values other found known := by
    rw [HashMap.get_insert] at known
    split at known
    · rw [← Option.some.inj known]
      exact valueFits
    · exact codes.values other found known

theorem Codes.remove (codes : code.Codes map rows) :
    code.Codes (map.remove name) (rows.erase (code.key name)) where
  get other := by
    rw [SortedMap.get_erase, HashMap.get_remove, codes.get]
    by_cases same : other = name
    · rw [if_pos (congrArg code.key same), if_pos same]
      rfl
    · rw [if_neg (code.key_injective.ne same), if_neg same]
  named key row known := by
    rw [SortedMap.get_erase] at known
    split at known
    · cases known
    · exact codes.named key row known
  values other found known := by
    rw [HashMap.get_remove] at known
    split at known
    · cases known
    · exact codes.values other found known

omit [DecidableEq K] in
/-- The rows are exactly the codes of the entries. -/
theorem Codes.get_iff (codes : code.Codes map rows) {key : C} {row : W} :
    rows.get key = some row ↔
      ∃ name content, map.get name = some content ∧ key = code.key name ∧ row = code.value content := by
  constructor
  · intro known
    obtain ⟨name, rfl⟩ := codes.named key row known
    rw [codes.get] at known
    obtain ⟨content, found, rfl⟩ := Option.map_eq_some_iff.mp known
    exact ⟨name, content, found, rfl, rfl⟩
  · rintro ⟨name, content, found, rfl, rfl⟩
    rw [codes.get, found]
    rfl

theorem Codes.foldl_insert {A : Type} (list : List A) (key : A → K) (value : A → V)
    (codes : code.Codes map rows) (valuesFit : ∀ item ∈ list, code.ValueFits (value item)) :
    code.Codes (list.foldl (fun map item => map.insert (key item) (value item)) map)
      (list.foldl (fun rows item => rows.insert (code.key (key item)) (code.value (value item)))
        rows) := by
  induction list generalizing map rows with
  | nil => exact codes
  | cons item rest ih =>
      exact ih (codes.insert (valuesFit item List.mem_cons_self)) fun other member =>
        valuesFit other (List.mem_cons_of_mem _ member)

theorem Codes.foldl_remove (list : List K) (codes : code.Codes map rows) :
    code.Codes (list.foldl (fun map key => map.remove key) map)
      (list.foldl (fun rows key => rows.erase (code.key key)) rows) := by
  induction list generalizing map rows with
  | nil => exact codes
  | cons item rest ih => exact ih codes.remove

end HashCode
