import Mathlib.Algebra.Order.Ring.Nat
import Mathlib.Data.List.Basic

/-!
# Fields of a binary record

Numbers of a fixed width in little-endian bytes, and texts of a known length, written one after another and
read back in front of whatever follows.

## Main definitions

* `ByteFields.le`: the number's lowest bytes, the lowest first.
* `ByteFields.read`, `ByteFields.readLe`, `ByteFields.expect`: so many bytes, a number of so many bytes, the
  bytes given.

## Main results

* `ByteFields.ofLe_le`: what is read of a number is its remainder.
* `ByteFields.readLe_append`, `ByteFields.read_append`, `ByteFields.expect_append`: a field that was written
  is read.
-/

namespace ByteFields

abbrev Bytes := List UInt8

/-- The number's lowest bytes, the lowest first. -/
def le : Nat → Nat → Bytes
  | 0, _ => []
  | width + 1, n => UInt8.ofNat n :: le width (n / 256)

def ofLe : Bytes → Nat
  | [] => 0
  | b :: bytes => b.toNat + 256 * ofLe bytes

/-- The next bytes, and those after them. -/
def read (width : Nat) (bytes : Bytes) : Option (Bytes × Bytes) :=
  if width ≤ bytes.length then some (bytes.take width, bytes.drop width) else none

/-- The next number, and the bytes after it. -/
def readLe (width : Nat) (bytes : Bytes) : Option (Nat × Bytes) :=
  (read width bytes).map fun field => (ofLe field.1, field.2)

/-- The bytes after a mark. -/
def expect (mark bytes : Bytes) : Option Bytes :=
  if mark.isPrefixOf bytes then some (bytes.drop mark.length) else none

@[simp] theorem length_le (width n : Nat) : (le width n).length = width := by
  induction width generalizing n with
  | zero => rfl
  | succ width ih => rw [le, List.length_cons, ih]

theorem ofLe_le (width n : Nat) : ofLe (le width n) = n % 256 ^ width := by
  induction width generalizing n with
  | zero => rw [le, ofLe, pow_zero, Nat.mod_one]
  | succ width ih =>
    have hbyte : (UInt8.ofNat n).toNat = n % 256 := UInt8.toNat_ofNat'
    rw [le, ofLe, ih, hbyte, pow_succ', Nat.mod_mul]

theorem read_append (field rest : Bytes) : read field.length (field ++ rest) = some (field, rest) := by
  rw [read, if_pos (by rw [List.length_append]; exact Nat.le_add_right _ _), List.take_left', List.drop_left']
  · rfl
  · rfl

theorem readLe_append {width n : Nat} (h : n < 256 ^ width) (rest : Bytes) :
    readLe width (le width n ++ rest) = some (n, rest) := by
  have hread := read_append (le width n) rest
  rw [length_le] at hread
  rw [readLe, hread, Option.map_some, ofLe_le, Nat.mod_eq_of_lt h]

theorem expect_append (mark rest : Bytes) : expect mark (mark ++ rest) = some rest := by
  rw [expect, if_pos (List.isPrefixOf_iff_prefix.mpr (List.prefix_append _ _)), List.drop_left']
  rfl

end ByteFields
