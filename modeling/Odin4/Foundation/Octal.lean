import Mathlib.Data.List.Induction
import Mathlib.Data.Nat.Digits.Defs
import Odin4.Foundation.ByteString

/-!
# Octal fields

Archive formats keep numbers in character fields of fixed width: octal digits,
possibly behind blanks, up to a blank, a NUL or the end of the field.
-/

namespace Odin4

def isOctalDigit (c : UInt8) : Bool := 48 ≤ c && c ≤ 55

/-- The number denoted by `digits` behind digits that denote `high`. -/
def octalFrom (high : Nat) (digits : Bytes) : Nat :=
  digits.foldl (fun value c => value * 8 + (c.toNat - 48)) high

theorem le_octalFrom (high : Nat) (digits : Bytes) : high ≤ octalFrom high digits := by
  induction digits generalizing high with
  | nil => exact Nat.le_refl high
  | cons c rest ih =>
      have hrest := ih (high * 8 + (c.toNat - 48))
      rw [octalFrom, List.foldl_cons]
      exact Nat.le_trans (by omega) hrest

/-- The number that octal digits denote, the most significant one first. -/
def octalValue (digits : Bytes) : Nat := Nat.ofDigits 8 (digits.reverse.map fun c => c.toNat - 48)

theorem octalFrom_zero (digits : Bytes) : octalFrom 0 digits = octalValue digits := by
  induction digits using List.reverseRecOn with
  | nil => rfl
  | append_singleton digits c ih =>
      rw [octalFrom] at ih
      rw [octalFrom, List.foldl_append, ih, octalValue, octalValue, List.reverse_concat,
        List.map_cons, Nat.ofDigits_cons, Nat.mul_comm, Nat.add_comm]
      rfl

/-- The field holds `value` in octal. -/
def OctalField (field : Bytes) (value : Nat) : Prop :=
  ∃ blanks digits ending, field = List.replicate blanks 32 ++ digits ++ ending ∧
    digits ≠ [] ∧ (∀ c ∈ digits, isOctalDigit c = true) ∧
    (∀ c ∈ ending.head?, c = 0 ∨ c = 32) ∧ value = octalFrom 0 digits

/-- A field that holds a number is not blank. -/
theorem OctalField.exists_digit {field : Bytes} {value : Nat} (h : OctalField field value) :
    ∃ c ∈ field, isOctalDigit c = true := by
  obtain ⟨blanks, digits, ending, rfl, hne, hdigits, -, -⟩ := h
  obtain ⟨c, rest, rfl⟩ := List.exists_cons_of_ne_nil hne
  exact ⟨c, by simp, hdigits c List.mem_cons_self⟩

/-- Each digit multiplies by eight at most. -/
theorem octalFrom_lt {digits : Bytes} (h : ∀ c ∈ digits, isOctalDigit c = true) (high : Nat) :
    octalFrom high digits < (high + 1) * 8 ^ digits.length := by
  induction digits generalizing high with
  | nil => simp [octalFrom]
  | cons c rest ih =>
      obtain ⟨hc, hrest⟩ := List.forall_mem_cons.mp h
      simp only [isOctalDigit, Bool.and_eq_true, decide_eq_true_eq, UInt8.le_iff_toNat_le] at hc
      have hdigit : c.toNat ≤ 55 := hc.2
      calc octalFrom high (c :: rest) = octalFrom (high * 8 + (c.toNat - 48)) rest := rfl
        _ < (high * 8 + (c.toNat - 48) + 1) * 8 ^ rest.length := ih hrest _
        _ ≤ ((high + 1) * 8) * 8 ^ rest.length := Nat.mul_le_mul_right _ (by omega)
        _ = (high + 1) * 8 ^ (c :: rest).length := by
          rw [List.length_cons, Nat.pow_succ, Nat.mul_assoc, Nat.mul_comm 8]

/-- A number has no more digits than its field has bytes. -/
theorem octalField_lt {field : Bytes} {value width : Nat} (h : OctalField field value)
    (hlength : field.length ≤ width) : value < 8 ^ width := by
  obtain ⟨blanks, digits, ending, rfl, -, hdigits, -, rfl⟩ := h
  simp only [List.length_append] at hlength
  calc octalFrom 0 digits < (0 + 1) * 8 ^ digits.length := octalFrom_lt hdigits 0
    _ = 8 ^ digits.length := by rw [Nat.zero_add, Nat.one_mul]
    _ ≤ 8 ^ width := Nat.pow_le_pow_right (by decide) (by omega)

/-! ## Writing numbers -/

/-- The last `width` octal digits of a number. -/
def octalDigits : (width value : Nat) → Bytes
  | 0, _ => []
  | width + 1, value => octalDigits width (value / 8) ++ [UInt8.ofNat (48 + value % 8)]

@[simp] theorem length_octalDigits (width value : Nat) :
    (octalDigits width value).length = width := by
  induction width generalizing value with
  | zero => rfl
  | succ width ih => simp [octalDigits, ih]

theorem toNat_octalDigit (value : Nat) : (UInt8.ofNat (48 + value % 8)).toNat = 48 + value % 8 := by
  rw [UInt8.toNat_ofNat']
  omega

theorem isOctalDigit_of_mem {width value : Nat} {c : UInt8} (hmem : c ∈ octalDigits width value) :
    isOctalDigit c = true := by
  induction width generalizing value with
  | zero => simp [octalDigits] at hmem
  | succ width ih =>
      rcases List.mem_append.mp hmem with hmem | hmem
      · exact ih hmem
      · obtain rfl := List.mem_singleton.mp hmem
        have hvalue := toNat_octalDigit value
        simp only [isOctalDigit, Bool.and_eq_true, decide_eq_true_eq, UInt8.le_iff_toNat_le, hvalue]
        exact ⟨Nat.le_add_right 48 _, by change 48 + value % 8 ≤ 55; omega⟩

theorem octalFrom_octalDigits (width value : Nat) :
    octalFrom 0 (octalDigits width value) = value % 8 ^ width := by
  induction width generalizing value with
  | zero => simp [octalDigits, octalFrom, Nat.mod_one]
  | succ width ih =>
      have hhigh : octalFrom 0 (octalDigits width (value / 8)) = value / 8 % 8 ^ width := ih _
      rw [octalFrom] at hhigh ⊢
      rw [octalDigits, List.foldl_append, hhigh, List.foldl_cons, List.foldl_nil,
        toNat_octalDigit, Nat.pow_succ, Nat.mul_comm (8 ^ width) 8, Nat.mod_mul]
      omega

/-- The usual way to write a number: leading zeros and a terminator. -/
theorem octalField_digits {width value : Nat} {ending : Bytes} (hwidth : 0 < width)
    (hvalue : value < 8 ^ width) (hending : ∀ c ∈ ending.head?, c = 0 ∨ c = 32) :
    OctalField (octalDigits width value ++ ending) value := by
  refine ⟨0, octalDigits width value, ending, rfl, ?_, fun c => isOctalDigit_of_mem, hending, ?_⟩
  · rw [← List.length_pos_iff, length_octalDigits]
    exact hwidth
  · rw [octalFrom_octalDigits, Nat.mod_eq_of_lt hvalue]

end Odin4
