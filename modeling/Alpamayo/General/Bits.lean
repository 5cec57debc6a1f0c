import Mathlib.Algebra.Ring.Nat
import Mathlib.Data.Nat.Init
import Mathlib.Tactic.Common

/-!
This file packs bits into bytes.
-/

namespace Bits

/-- The lowest bit of a byte comes first. -/
def byteOf (bits : Nat → Bool) : UInt8 := UInt8.ofNat (Nat.ofBits fun index : Fin 8 => bits index)

/-- The last byte is filled up with zeros. -/
def pack (bits : List Bool) : List UInt8 :=
  (List.range ((bits.length + 7) / 8)).map fun place =>
    byteOf fun index => bits.getD (8 * place + index) false

/-- The bits of a byte, the lowest one first. -/
def bitsOf (byte : UInt8) : List Bool := (List.range 8).map byte.toNat.testBit

/-- Each byte gives eight bits. -/
def unpack (bytes : List UInt8) : List Bool := bytes.flatMap bitsOf

variable {bits : List Bool} {bytes : List UInt8} {index : Nat}

theorem testBit_byteOf (bits : Nat → Bool) (inside : index < 8) :
    (byteOf bits).toNat.testBit index = bits index := by
  have small : Nat.ofBits (fun index : Fin 8 => bits index) < 2 ^ 8 := Nat.ofBits_lt_two_pow _
  rw [byteOf, UInt8.toNat_ofNat', Nat.mod_eq_of_lt small, Nat.testBit_ofBits_lt _ _ inside]

@[simp] theorem length_pack : (pack bits).length = (bits.length + 7) / 8 := by
  simp [pack]

@[simp] theorem length_unpack : (unpack bytes).length = 8 * bytes.length := by
  induction bytes with
  | nil => rfl
  | cons byte rest ih =>
      rw [unpack, List.flatMap_cons, List.length_append, ← unpack, ih]
      simp only [bitsOf, List.length_map, List.length_range, List.length_cons]
      omega

/-- A bit stands in the byte of its place. -/
theorem getElem?_unpack (place : Nat) (inside : index < 8) :
    (unpack bytes)[8 * place + index]? = bytes[place]?.map fun byte => byte.toNat.testBit index := by
  induction bytes generalizing place with
  | nil => rfl
  | cons byte rest ih =>
      have first : (bitsOf byte).length = 8 := by simp [bitsOf]
      rw [unpack, List.flatMap_cons, ← unpack]
      cases place with
      | zero =>
          rw [List.getElem?_append_left (by omega)]
          simp [bitsOf, inside]
      | succ place =>
          rw [List.getElem?_append_right (by omega), first, List.getElem?_cons_succ, ← ih place]
          congr 1
          omega

/-- The bits come back, and zeros after them up to the end of the last byte. -/
theorem getElem?_unpack_pack (inside : index < 8 * ((bits.length + 7) / 8)) :
    (unpack (pack bits))[index]? = some (bits.getD index false) := by
  have split := Nat.div_add_mod index 8
  have low : index % 8 < 8 := Nat.mod_lt _ (by omega)
  have place : index / 8 < (bits.length + 7) / 8 := by omega
  conv_lhs => rw [← split]
  rw [getElem?_unpack _ low, pack, List.getElem?_map, List.getElem?_range place,
    Option.map_some, Option.map_some, testBit_byteOf _ low, split]

/-- A bit is set after a round trip exactly if it was set before. -/
theorem getElem?_unpack_pack_eq_true :
    (unpack (pack bits))[index]? = some true ↔ bits[index]? = some true := by
  by_cases inside : index < 8 * ((bits.length + 7) / 8)
  · rw [getElem?_unpack_pack inside, List.getD_eq_getElem?_getD]
    cases bits[index]? <;> simp
  · have outside : (unpack (pack bits))[index]? = none := by
      rw [List.getElem?_eq_none_iff, length_unpack, length_pack]
      omega
    have none : bits[index]? = none := by
      rw [List.getElem?_eq_none_iff]
      omega
    rw [outside, none]

end Bits
