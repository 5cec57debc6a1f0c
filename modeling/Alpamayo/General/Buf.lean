import Alpamayo.General.Wire

/-!
This file develops the reads of a byte slice that can fail or panic.
-/

namespace Buf

/-- A read fails with the text of its place, or it stops the program. -/
inductive Fault where
  | failed (context : String)
  | panicked (reason : String)
  deriving DecidableEq

/-- A step that only fails is one of the reads. -/
def checked {A : Type} (result : Except String A) : Except Fault A := result.mapError .failed

/-- The first byte is read. -/
def tryGetU8 (context : String) : List UInt8 → Except Fault (UInt8 × List UInt8)
  | [] => .error (.failed context)
  | byte :: rest => .ok (byte, rest)

/-- The next bytes are copied. -/
def tryCopyToSlice (context : String) (count : Nat) (bytes : List UInt8) :
    Except Fault (List UInt8 × List UInt8) :=
  if count ≤ bytes.length then .ok (bytes.take count, bytes.drop count) else .error (.failed context)

/-- A number of the wire format is read. -/
def decodeVarint (context : String) (bytes : List UInt8) : Except Fault (Nat × List UInt8) :=
  match Wire.decodeVarint bytes with
  | some decoded => .ok decoded
  | none => .error (.failed context)

/-- A condition that does not hold is a failure. -/
def ensure (condition : Bool) (context : String) : Except Fault Unit :=
  if condition then .ok () else .error (.failed context)

/-- The bytes from one index up to another must exist. -/
def range (start stop : Nat) (bytes : List UInt8) : Except Fault (List UInt8) :=
  if start ≤ stop then
    if stop ≤ bytes.length then .ok ((bytes.take stop).drop start)
    else .error (.panicked s!"range end index {stop} out of range for slice of length {bytes.length}")
  else .error (.panicked s!"slice index starts at {start} but ends at {stop}")

/-- The byte at an index must exist. -/
def index (place : Nat) (bytes : List UInt8) : Except Fault UInt8 :=
  match bytes[place]? with
  | some byte => .ok byte
  | none => .error (.panicked
      s!"index out of bounds: the len is {bytes.length} but the index is {place}")

/-- The bytes that are skipped must exist. -/
def advance (count : Nat) (bytes : List UInt8) : Except Fault (List UInt8) :=
  if count ≤ bytes.length then .ok (bytes.drop count)
  else .error (.panicked
    s!"advance out of bounds: the len is {bytes.length} but advancing by {count}")

/-- A vector has at most `isize::MAX` bytes. -/
def withCapacity (width count : Nat) : Except Fault Unit :=
  if width * count ≤ 9223372036854775807 then .ok () else .error (.panicked "capacity overflow")

/-- The bits must all be known flags. -/
def fromBits (known : UInt8) (context : String) (bits : UInt8) : Except Fault UInt8 :=
  if bits &&& ~~~known = 0 then .ok bits else .error (.failed context)

/-- The flag is set. -/
def contains (flags flag : UInt8) : Bool := flags &&& flag = flag

/-- A flag tells if the number is there. -/
def optionalVarint (present : Bool) (context : String) (bytes : List UInt8) :
    Except Fault (Option Nat × List UInt8) :=
  if present then (decodeVarint context bytes).map fun decoded => (some decoded.1, decoded.2)
  else .ok (none, bytes)

/-- The result is no panic. -/
def Calm {A : Type} (result : Except Fault A) : Prop :=
  ∀ reason, result ≠ .error (.panicked reason)

section calm

variable {A B : Type} {context : String} {count place start stop : Nat} {bytes : List UInt8}

@[simp] theorem calm_ok (value : A) : Calm (.ok value : Except Fault A) := by
  rintro reason ⟨⟩

@[simp] theorem calm_failed : Calm (.error (.failed context) : Except Fault A) := by
  rintro reason ⟨⟩

@[simp] theorem not_calm_panicked {reason : String} :
    ¬ Calm (.error (.panicked reason) : Except Fault A) :=
  fun calm => calm reason rfl

/-- Two steps are calm if the second one is calm after each result of the first. -/
theorem calm_bind_iff {first : Except Fault A} {next : A → Except Fault B} :
    Calm (first >>= next) ↔ Calm first ∧ ∀ value, first = .ok value → Calm (next value) := by
  cases first with
  | error fault =>
      constructor
      · intro calm
        exact ⟨fun reason same => calm reason (by rw [same]; rfl), by rintro _ ⟨⟩⟩
      · rintro ⟨calm, -⟩ reason same
        exact calm reason (by cases same; rfl)
  | ok value =>
      constructor
      · intro calm
        refine ⟨calm_ok value, ?_⟩
        rintro _ ⟨⟩
        exact calm
      · exact fun both => both.2 value rfl

theorem Calm.bind {first : Except Fault A} {next : A → Except Fault B} (calm : Calm first)
    (later : ∀ value, first = .ok value → Calm (next value)) : Calm (first >>= next) :=
  calm_bind_iff.mpr ⟨calm, later⟩

/-- A map changes only the value. -/
@[simp] theorem calm_map_iff {first : Except Fault A} {next : A → B} :
    Calm (first.map next) ↔ Calm first := by
  cases first with
  | error fault =>
      constructor
      · exact fun calm reason same => calm reason (by cases same; rfl)
      · exact fun calm reason same => calm reason (by cases same; rfl)
  | ok value => exact iff_of_true (calm_ok _) (calm_ok _)

/-- A step that only fails is calm. -/
@[simp] theorem calm_checked {result : Except String A} : Calm (checked result) := by
  cases result with
  | error error => exact calm_failed
  | ok value => exact calm_ok value

@[simp] theorem calm_tryGetU8 : Calm (tryGetU8 context bytes) := by
  cases bytes with
  | nil => exact calm_failed
  | cons byte rest => exact calm_ok _

@[simp] theorem calm_tryCopyToSlice : Calm (tryCopyToSlice context count bytes) := by
  unfold tryCopyToSlice
  split
  · exact calm_ok _
  · exact calm_failed

@[simp] theorem calm_decodeVarint : Calm (decodeVarint context bytes) := by
  unfold decodeVarint
  split
  · exact calm_ok _
  · exact calm_failed

@[simp] theorem calm_fromBits (known bits : UInt8) : Calm (fromBits known context bits) := by
  unfold fromBits
  split
  · exact calm_ok _
  · exact calm_failed

@[simp] theorem calm_optionalVarint (present : Bool) :
    Calm (optionalVarint present context bytes) := by
  unfold optionalVarint
  split
  · rw [calm_map_iff]
    exact calm_decodeVarint
  · exact calm_ok _

@[simp] theorem calm_ensure (condition : Bool) : Calm (ensure condition context) := by
  unfold ensure
  split
  · exact calm_ok _
  · exact calm_failed

@[simp] theorem calm_range_iff : Calm (range start stop bytes) ↔ start ≤ stop ∧ stop ≤ bytes.length := by
  unfold range
  split
  · rename_i ordered
    split
    · rename_i inside
      exact iff_of_true (calm_ok _) ⟨ordered, inside⟩
    · rename_i outside
      exact iff_of_false not_calm_panicked fun both => outside both.2
  · rename_i reversed
    exact iff_of_false not_calm_panicked fun both => reversed both.1

@[simp] theorem calm_index_iff : Calm (index place bytes) ↔ place < bytes.length := by
  unfold index
  split
  · rename_i byte found
    exact iff_of_true (calm_ok _) (List.getElem?_eq_some_iff.mp found).1
  · rename_i missing
    exact iff_of_false not_calm_panicked (Nat.not_lt.mpr (List.getElem?_eq_none_iff.mp missing))

@[simp] theorem calm_advance_iff : Calm (advance count bytes) ↔ count ≤ bytes.length := by
  unfold advance
  split
  · simp_all
  · simp_all

@[simp] theorem calm_withCapacity_iff {width : Nat} :
    Calm (withCapacity width count) ↔ width * count ≤ 9223372036854775807 := by
  unfold withCapacity
  split
  · simp_all
  · simp_all

/-- A checked condition holds in the steps after it. -/
theorem ensure_eq_ok_iff {condition : Bool} : ensure condition context = .ok () ↔ condition = true := by
  unfold ensure
  split <;> simp_all

theorem decodeVarint_eq_ok_iff {read : Nat × List UInt8} :
    decodeVarint context bytes = .ok read ↔ Wire.decodeVarint bytes = some read := by
  unfold decodeVarint
  split <;> simp_all

/-- A number is read, and the next step is calm after it. -/
theorem calm_decodeVarint_bind_iff {next : Nat × List UInt8 → Except Fault B} :
    Calm (decodeVarint context bytes >>= next) ↔
      ∀ read, Wire.decodeVarint bytes = some read → Calm (next read) := by
  rw [calm_bind_iff, and_iff_right calm_decodeVarint]
  exact forall_congr' fun read => by rw [decodeVarint_eq_ok_iff]

/-- The bytes between the indexes are there. -/
theorem range_of_le (ordered : start ≤ stop) (inside : stop ≤ bytes.length) :
    range start stop bytes = .ok ((bytes.take stop).drop start) := by
  rw [range, if_pos ordered, if_pos inside]

theorem range_zero (inside : stop ≤ bytes.length) : range 0 stop bytes = .ok (bytes.take stop) :=
  range_of_le (Nat.zero_le stop) inside

theorem advance_of_le (inside : count ≤ bytes.length) : advance count bytes = .ok (bytes.drop count) :=
  if_pos inside

end calm

section results

variable {A B : Type} {context : String} {count : Nat} {bytes : List UInt8}

/-- Two steps have a value if both have. -/
theorem bind_eq_ok {first : Except Fault A} {next : A → Except Fault B} {value : B} :
    first >>= next = .ok value ↔ ∃ found, first = .ok found ∧ next found = .ok value := by
  cases first with
  | error fault =>
      constructor
      · rintro ⟨⟩
      · rintro ⟨found, ⟨⟩, -⟩
  | ok found =>
      constructor
      · intro done
        exact ⟨found, rfl, done⟩
      · rintro ⟨other, same, done⟩
        rw [← Except.ok.inj same] at done
        exact done

theorem map_eq_ok {first : Except Fault A} {next : A → B} {value : B} :
    first.map next = .ok value ↔ ∃ found, first = .ok found ∧ next found = value := by
  cases first with
  | error fault =>
      constructor
      · rintro ⟨⟩
      · rintro ⟨found, ⟨⟩, -⟩
  | ok found =>
      constructor
      · intro done
        exact ⟨found, rfl, Except.ok.inj done⟩
      · rintro ⟨other, same, done⟩
        rw [Except.map, Except.ok.inj same, done]

/-- A read leaves fewer bytes. -/
theorem length_tryGetU8 {read : UInt8 × List UInt8} (found : tryGetU8 context bytes = .ok read) :
    read.2.length < bytes.length := by
  cases bytes with
  | nil => cases found
  | cons byte rest =>
      rw [← Except.ok.inj found]
      exact Nat.lt_succ_self _

theorem length_tryCopyToSlice {read : List UInt8 × List UInt8}
    (found : tryCopyToSlice context count bytes = .ok read) : read.2.length ≤ bytes.length := by
  unfold tryCopyToSlice at found
  split at found
  · rw [← Except.ok.inj found, List.length_drop]
    exact Nat.sub_le _ _
  · cases found

theorem length_advance {rest : List UInt8} (found : advance count bytes = .ok rest) :
    rest.length ≤ bytes.length := by
  unfold advance at found
  split at found
  · rw [← Except.ok.inj found, List.length_drop]
    exact Nat.sub_le _ _
  · cases found

end results

section chained

variable {A B : Type}

/-- The first failure is that of the chain. -/
theorem checked_bind (first : Except String A) (next : A → Except String B) :
    checked (first >>= next) = (checked first >>= fun value => checked (next value)) := by
  cases first <;> rfl

end chained

section written

variable {context : String} {data rest : List UInt8}

/-- A written number is read back. -/
theorem decodeVarint_encode {value : Nat} (small : value < 2 ^ 64) (rest : List UInt8) :
    decodeVarint context (Wire.encodeVarint value ++ rest) = .ok (value, rest) := by
  rw [decodeVarint, Wire.decodeVarint_encodeVarint small]

/-- An optional number is read back. -/
theorem optionalVarint_encode {value : Option Nat} (small : ∀ number ∈ value, number < 2 ^ 64)
    (rest : List UInt8) :
    optionalVarint value.isSome context (value.elim [] Wire.encodeVarint ++ rest) =
      .ok (value, rest) := by
  cases value with
  | none => rfl
  | some number =>
      simp only [optionalVarint, Option.isSome_some, if_true, Option.elim_some,
        decodeVarint_encode (small number rfl), Except.map]

/-- Written bytes are copied. -/
theorem tryCopyToSlice_append {count : Nat} (length : data.length = count) :
    tryCopyToSlice context count (data ++ rest) = .ok (data, rest) := by
  subst length
  simp [tryCopyToSlice]

/-- Written bytes are read by their length. -/
theorem range_append : range 0 data.length (data ++ rest) = .ok data := by
  simp [range]

/-- Written bytes are skipped by their length. -/
theorem advance_append : advance data.length (data ++ rest) = .ok rest := by
  simp [advance]

end written

/-- The highest byte of a number comes first. -/
def bigEndian : Nat → Nat → List UInt8
  | 0, _ => []
  | count + 1, value => bigEndian count (value / 256) ++ [UInt8.ofNat (value % 256)]

/-- The number that the bytes spell. -/
def ofBigEndian (bytes : List UInt8) : Nat :=
  bytes.foldl (fun value byte => value * 256 + byte.toNat) 0

@[simp] theorem length_bigEndian (count value : Nat) : (bigEndian count value).length = count := by
  induction count generalizing value with
  | zero => rfl
  | succ count ih => rw [bigEndian, List.length_append, ih, List.length_singleton]

/-- A number that fits its bytes comes back. -/
theorem ofBigEndian_bigEndian {count value : Nat} (small : value < 256 ^ count) :
    ofBigEndian (bigEndian count value) = value := by
  induction count generalizing value with
  | zero =>
      rw [Nat.pow_zero] at small
      rw [show value = 0 by omega]
      rfl
  | succ count ih =>
      have high : value / 256 < 256 ^ count := by
        rw [Nat.pow_succ] at small
        omega
      have before := ih high
      unfold ofBigEndian at before ⊢
      have byte : (UInt8.ofNat (value % 256)).toNat = value % 256 := by
        rw [UInt8.toNat_ofNat']
        omega
      rw [bigEndian, List.foldl_append, before, List.foldl_cons, List.foldl_nil, byte]
      omega

end Buf
