import Odin4.Archive.Tar
import Odin4.Foundation.Octal

/-!
# Octal fields are read exactly

The reader accepts a field if and only if its digits denote a number of 64
bits, and then it returns this number: undoing the shift detects every
overflow, and what has once overflowed does not come back.
-/

namespace Odin4

/-- The bytes that end the digits of a field. -/
def endsNumeral (c : UInt8) : Bool := c == 0 || isBlank c

/-- What a field holds behind its blanks, up to a NUL, a blank or its end. -/
def octalNumeral (field : Bytes) : Bytes := (field.dropWhile isBlank).takeWhile (!endsNumeral ·)

/-! ## Digits -/

section Digits

variable {c : UInt8}

theorem endsNumeral_iff : endsNumeral c = true ↔ c = 0 ∨ c = 32 ∨ c = 9 := by
  simp [endsNumeral, isBlank]

theorem isOctalDigit_iff : isOctalDigit c = true ↔ ¬ (c < 48 ∨ 55 < c) := by
  simp [isOctalDigit]

theorem octalDigit_lt (hdigit : isOctalDigit c = true) : c.toNat - 48 < 8 := by
  simp only [isOctalDigit, Bool.and_eq_true, decide_eq_true_eq] at hdigit
  have hhigh : c.toNat ≤ 55 := UInt8.le_iff_toNat_le.mp hdigit.2
  omega

/-- A digit does not end the digits. -/
theorem endsNumeral_digit (hdigit : isOctalDigit c = true) : endsNumeral c = false := by
  rw [← Bool.not_eq_true, endsNumeral_iff]
  rintro (rfl | rfl | rfl) <;> simp [isOctalDigit] at hdigit

end Digits

/-- The shift takes back the old value unless a bit was lost. -/
theorem shift_back_iff {out digit : Nat} (hdigit : digit < 8) :
    (out * 8 + digit) % 2 ^ 64 / 8 = out ↔ out * 8 + digit < 2 ^ 64 := by
  constructor
  · intro hback
    have hlt : (out * 8 + digit) % 2 ^ 64 < 2 ^ 64 := Nat.mod_lt _ (by decide)
    omega
  · intro hfits
    rw [Nat.mod_eq_of_lt hfits]
    omega

/-! ## The loop -/

/-- The loop from any value on: every digit counts, and no overflow is missed. -/
theorem parseOctalDigits_eq (field : Bytes) {high : Nat} (hhigh : high < 2 ^ 64) :
    parseOctalDigits field high =
      if (field.takeWhile (!endsNumeral ·)).all isOctalDigit = true ∧
          octalFrom high (field.takeWhile (!endsNumeral ·)) < 2 ^ 64 then
        some (octalFrom high (field.takeWhile (!endsNumeral ·)))
      else none := by
  induction field generalizing high with
  | nil =>
      rw [List.takeWhile_nil, if_pos ⟨List.all_nil, hhigh⟩]
      rfl
  | cons c rest ih =>
      rw [parseOctalDigits]
      by_cases hend : endsNumeral c = true
      · rw [if_pos (endsNumeral_iff.mp hend), List.takeWhile_cons_of_neg (by simp [hend]),
          if_pos ⟨List.all_nil, hhigh⟩]
        rfl
      rw [if_neg (mt endsNumeral_iff.mpr hend), List.takeWhile_cons_of_pos (by simp [hend])]
      by_cases hdigit : isOctalDigit c = true
      swap
      · rw [if_pos (not_not.mp (mt isOctalDigit_iff.mpr hdigit)), if_neg]
        rintro ⟨hdigits, -⟩
        exact hdigit (List.all_eq_true.mp hdigits c List.mem_cons_self)
      rw [if_neg (isOctalDigit_iff.mp hdigit)]
      have hback := @shift_back_iff high _ (octalDigit_lt hdigit)
      have hcons : ∀ digits, octalFrom high (c :: digits) =
          octalFrom (high * 8 + (c.toNat - 48)) digits := fun _ => rfl
      dsimp only
      by_cases hfits : high * 8 + (c.toNat - 48) < 2 ^ 64
      · rw [if_pos (hback.mpr hfits), Nat.mod_eq_of_lt hfits, ih hfits]
        simp only [List.all_cons, hdigit, Bool.true_and, hcons]
      · -- More digits only make the number larger.
        rw [if_neg (mt hback.mp hfits), if_neg]
        rintro ⟨-, hlt⟩
        rw [hcons] at hlt
        exact hfits (Nat.lt_of_le_of_lt (le_octalFrom _ _) hlt)

theorem parseOctalU64_iff {field : Bytes} {value : Nat} :
    parseOctalU64 field = some value ↔
      (∀ c ∈ octalNumeral field, isOctalDigit c = true) ∧
        octalValue (octalNumeral field) < 2 ^ 64 ∧ value = octalValue (octalNumeral field) := by
  rw [parseOctalU64, parseOctalDigits_eq _ (by decide), ← octalFrom_zero, octalNumeral,
    ← List.all_eq_true]
  split
  next h =>
    rw [Option.some_inj]
    exact ⟨fun heq => ⟨h.1, h.2, heq.symm⟩, fun hread => hread.2.2.symm⟩
  next h =>
    constructor
    · intro hnone
      cases hnone
    · intro hread
      exact absurd ⟨hread.1, hread.2.1⟩ h

/-- A number has no more digits than its field has bytes. -/
theorem parseOctalU64_lt {field : Bytes} {value : Nat} (h : parseOctalU64 field = some value) :
    value < 8 ^ field.length := by
  obtain ⟨hdigits, -, rfl⟩ := parseOctalU64_iff.mp h
  have hlength : (octalNumeral field).length ≤ field.length :=
    ((List.takeWhile_sublist _).trans (List.dropWhile_sublist _)).length_le
  have hlt := octalFrom_lt hdigits 0
  rw [octalFrom_zero, Nat.zero_add, Nat.one_mul] at hlt
  exact Nat.lt_of_lt_of_le hlt (Nat.pow_le_pow_right (by decide) hlength)

/-! ## Written numbers -/

/-- Blanks in front do not count. -/
theorem octalNumeral_blanks (blanks : Nat) (rest : Bytes) :
    octalNumeral (List.replicate blanks 32 ++ rest) = octalNumeral rest := by
  rw [octalNumeral, octalNumeral, List.dropWhile_append_of_pos]
  intro c hc
  rw [List.eq_of_mem_replicate hc]
  rfl

/-- The digits in front of a terminator are what the field holds. -/
theorem octalNumeral_append {digits ending : Bytes} (hne : digits ≠ [])
    (hdigits : ∀ c ∈ digits, isOctalDigit c = true)
    (hending : ∀ c ∈ ending.head?, endsNumeral c = true) :
    octalNumeral (digits ++ ending) = digits := by
  have hblanks : (digits ++ ending).dropWhile isBlank = digits ++ ending := by
    obtain ⟨c, rest, rfl⟩ := List.exists_cons_of_ne_nil hne
    have hdigit := endsNumeral_digit (hdigits c List.mem_cons_self)
    rw [endsNumeral, Bool.or_eq_false_iff] at hdigit
    exact List.dropWhile_cons_of_neg (by simp [hdigit.2])
  rw [octalNumeral, hblanks, List.takeWhile_append_of_pos]
  · cases ending with
    | nil => simp
    | cons c rest => simp [hending c rfl]
  · intro c hc
    simp [endsNumeral_digit (hdigits c hc)]

theorem octalNumeral_octalDigits {width value : Nat} {ending : Bytes} (hwidth : 0 < width)
    (hending : ∀ c ∈ ending.head?, endsNumeral c = true) :
    octalNumeral (octalDigits width value ++ ending) = octalDigits width value := by
  apply octalNumeral_append _ (fun c => isOctalDigit_of_mem) hending
  rw [← List.length_pos_iff, length_octalDigits]
  exact hwidth

/-- A field that starts with a NUL holds no digits. -/
theorem octalNumeral_nul {ending : Bytes} (hending : ∀ c ∈ ending.head?, c = 0) :
    octalNumeral ending = [] := by
  cases ending with
  | nil => rfl
  | cons c rest =>
      obtain rfl := hending c rfl
      rfl

/-- Fields are read exactly: a value is returned if and only if all the bytes up
to the terminator are digits and denote a number of 64 bits, and it is that
number. So what was written with leading zeros is read back, whatever follows
its terminator; in front of a blank there has to be a digit. -/
theorem parseOctalU64_exact (field : Bytes) :
    (∀ value, parseOctalU64 field = some value ↔
      (∀ c ∈ octalNumeral field, isOctalDigit c = true) ∧
        octalValue (octalNumeral field) < 2 ^ 64 ∧ value = octalValue (octalNumeral field)) ∧
    ∀ k n ending, n < min (8 ^ k) (2 ^ 64) → (∀ c ∈ ending.head?, endsNumeral c = true) →
      (k = 0 → ∀ c ∈ ending.head?, c = 0) →
      parseOctalU64 (octalDigits k n ++ ending) = some n := by
  refine ⟨fun value => parseOctalU64_iff, fun k n ending hn hending hempty => ?_⟩
  obtain ⟨hdigits, hvalue⟩ := Nat.lt_min.mp hn
  have hread : octalValue (octalDigits k n) = n := by
    rw [← octalFrom_zero, octalFrom_octalDigits, Nat.mod_eq_of_lt hdigits]
  have hnumeral : octalNumeral (octalDigits k n ++ ending) = octalDigits k n := by
    rcases Nat.eq_zero_or_pos k with rfl | hpos
    · exact octalNumeral_nul (hempty rfl)
    · exact octalNumeral_octalDigits hpos hending
  rw [parseOctalU64_iff, hnumeral, hread]
  exact ⟨fun c => isOctalDigit_of_mem, hvalue, rfl⟩

/-- The largest number of 64 bits, written with its 22 digits. -/
theorem parseOctalU64_exact_max :
    parseOctalU64 (octalDigits 22 (2 ^ 64 - 1) ++ ascii " 99") = some (2 ^ 64 - 1) :=
  (parseOctalU64_exact []).2 22 (2 ^ 64 - 1) (ascii " 99") (by decide) (by decide +kernel)
    (by decide)

/-- Without a digit in front of it a blank ends nothing: it is skipped, and the
number behind it is read. -/
theorem octal_zero_digits_blank :
    ¬ ∀ k n ending, n < min (8 ^ k) (2 ^ 64) → (∀ c ∈ ending.head?, endsNumeral c = true) →
      parseOctalU64 (octalDigits k n ++ ending) = some n := by
  intro h
  have hread := h 0 0 (ascii " 7") (by decide) (by decide +kernel)
  revert hread
  decide

end Odin4
