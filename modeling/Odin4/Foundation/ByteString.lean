import Mathlib.Algebra.GroupWithZero.Nat
import Mathlib.Algebra.Ring.Int.Defs
import Mathlib.Data.List.Basic

/-!
# Byte strings

Strings, buffers and file contents are lists of bytes. Character classes and
case mapping are those of the C library in the default locale, and integers
are stored little-endian.
-/

namespace Odin4

abbrev Bytes := List UInt8

/-- The bytes of an ASCII literal. -/
def ascii (literal : String) : Bytes := literal.toList.map fun c => UInt8.ofNat c.toNat

/-! ## Character classes -/

def toLower (c : UInt8) : UInt8 := if 65 ≤ c ∧ c ≤ 90 then c + 32 else c

def toUpper (c : UInt8) : UInt8 := if 97 ≤ c ∧ c ≤ 122 then c - 32 else c

/-- Space, and the control characters from tab to carriage return. -/
def isSpace (c : UInt8) : Bool := c == 32 || (9 ≤ c && c ≤ 13)

/-! ## Little-endian integers -/

/-- The `width` low bytes of `value`, least significant first. -/
def leBytes : Nat → Nat → Bytes
  | 0, _ => []
  | width + 1, value => UInt8.ofNat value :: leBytes width (value / 256)

/-- The number that a little-endian byte string denotes. -/
def leNat : Bytes → Nat
  | [] => 0
  | byte :: rest => byte.toNat + 256 * leNat rest

@[simp] theorem length_leBytes (width value : Nat) : (leBytes width value).length = width := by
  induction width generalizing value with
  | zero => rfl
  | succ width ih => simp [leBytes, ih]

theorem leNat_leBytes (width value : Nat) :
    leNat (leBytes width value) = value % 256 ^ width := by
  induction width generalizing value with
  | zero => simp [leBytes, leNat, Nat.mod_one]
  | succ width ih =>
      rw [leBytes, leNat, ih, Nat.pow_succ, Nat.mul_comm (256 ^ width) 256, Nat.mod_mul]
      rfl

theorem leNat_lt (text : Bytes) : leNat text < 256 ^ text.length := by
  induction text with
  | nil => simp [leNat]
  | cons byte rest ih =>
      have hbyte := byte.toNat_lt
      rw [leNat, List.length_cons, Nat.pow_succ]
      omega

/-- Read an unsigned field of `width` bytes from a zero-initialised buffer. -/
def leAt (buffer : Bytes) (offset width : Nat) : Nat :=
  leNat ((buffer.drop offset).take width)

theorem leAt_lt (buffer : Bytes) (offset width : Nat) : leAt buffer offset width < 256 ^ width := by
  refine Nat.lt_of_lt_of_le (leNat_lt _) (Nat.pow_le_pow_right (by decide) ?_)
  rw [List.length_take]
  exact Nat.min_le_left _ _

/-- The bytes of a fixed field inside a larger record. -/
def fieldAt (record : Bytes) (offset width : Nat) : Bytes :=
  (record.drop offset).take width

/-! ## Fields of a record -/

theorem fieldAt_append {before field rest : Bytes} {offset width : Nat}
    (hoffset : before.length = offset) (hwidth : field.length = width) :
    fieldAt (before ++ field ++ rest) offset width = field := by
  subst hoffset hwidth
  rw [fieldAt, List.append_assoc, List.drop_left, List.take_left]

/-- An integer that stands in a record. -/
theorem leAt_leBytes {before : Bytes} {offset : Nat} (width value : Nat) (rest : Bytes)
    (hoffset : before.length = offset) :
    leAt (before ++ leBytes width value ++ rest) offset width = value % 256 ^ width := by
  have hat : leAt (before ++ leBytes width value ++ rest) offset width =
      leNat (fieldAt (before ++ leBytes width value ++ rest) offset width) := rfl
  rw [hat, fieldAt_append hoffset (length_leBytes width value), leNat_leBytes]

theorem fieldAt_left {first second : Bytes} {offset width : Nat}
    (h : offset + width ≤ first.length) :
    fieldAt (first ++ second) offset width = fieldAt first offset width := by
  rw [fieldAt, fieldAt, List.drop_append_of_le_length (by omega),
    List.take_append_of_le_length (by rw [List.length_drop]; omega)]

theorem fieldAt_right {first second : Bytes} {start offset width : Nat}
    (h : first.length = start) :
    fieldAt (first ++ second) (start + offset) width = fieldAt second offset width := by
  rw [fieldAt, fieldAt, ← h, List.drop_append, List.drop_eq_nil_of_le (by omega)]
  simp

theorem length_fieldAt_le (record : Bytes) (offset width : Nat) :
    (fieldAt record offset width).length ≤ width := by
  rw [fieldAt, List.length_take]
  exact Nat.min_le_left _ _

theorem length_fieldAt {record : Bytes} {offset width : Nat} (h : offset + width ≤ record.length) :
    (fieldAt record offset width).length = width := by
  rw [fieldAt, List.length_take, List.length_drop]
  omega

/-- Adjacent fields make up one field. -/
theorem fieldAt_add (record : Bytes) (offset first second : Nat) :
    fieldAt record offset (first + second) =
      fieldAt record offset first ++ fieldAt record (offset + first) second := by
  rw [fieldAt, fieldAt, fieldAt, List.take_add, List.drop_drop]

theorem leBytes_leNat (field : Bytes) : leBytes field.length (leNat field) = field := by
  induction field with
  | nil => rfl
  | cons byte rest ih =>
      have hbyte := byte.toNat_lt
      have hhead : UInt8.ofNat (byte.toNat + 256 * leNat rest) = byte := by
        apply UInt8.toNat_inj.mp
        rw [UInt8.toNat_ofNat']
        omega
      have htail : (byte.toNat + 256 * leNat rest) / 256 = leNat rest := by omega
      rw [List.length_cons, leNat, leBytes, hhead, htail, ih]

/-- Writing an integer that was read gives the bytes that were read. -/
theorem leBytes_leAt {record : Bytes} {offset width : Nat} (h : offset + width ≤ record.length) :
    leBytes width (leAt record offset width) = fieldAt record offset width := by
  have hfield := leBytes_leNat (fieldAt record offset width)
  rwa [length_fieldAt h] at hfield

/-! ## Trailing characters -/

/-- Remove the longest suffix whose bytes all satisfy `drop`. -/
def trimRight (drop : UInt8 → Bool) (text : Bytes) : Bytes :=
  (text.reverse.dropWhile drop).reverse

theorem trimRight_eq_self {drop : UInt8 → Bool} {text : Bytes}
    (h : ∀ c ∈ text.getLast?, drop c = false) : trimRight drop text = text := by
  unfold trimRight
  cases hrev : text.reverse with
  | nil => simp_all
  | cons c rest =>
      have hlast : text.getLast? = some c := by
        rw [List.getLast?_eq_head?_reverse, hrev]
        rfl
      rw [List.dropWhile_cons_of_neg (by simp [h c hlast]), ← hrev, List.reverse_reverse]

def isBlank (c : UInt8) : Bool := c == 32 || c == 9

/-- The text of a fixed-width character field: up to the first NUL, without
trailing blanks. -/
def fieldText (field : Bytes) (maxLen : Nat) : Bytes :=
  trimRight isBlank ((field.take maxLen).takeWhile (· != 0))

end Odin4
