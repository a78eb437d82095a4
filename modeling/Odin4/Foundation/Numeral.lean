import Mathlib.Data.List.Induction
import Odin4.Foundation.ByteString

/-!
# Numerals

Numbers are written with digits and, in a base above ten, with letters of
either case, the most significant digit first.
-/

namespace Odin4

/-- The value of a digit or a letter. Other characters are digits in no base. -/
def digitValue (c : UInt8) : Nat :=
  if 48 ≤ c ∧ c ≤ 57 then c.toNat - 48
  else if 65 ≤ c ∧ c ≤ 90 then c.toNat - 55
  else if 97 ≤ c ∧ c ≤ 122 then c.toNat - 87
  else 36

def isDigit (base : Nat) (c : UInt8) : Bool := decide (digitValue c < base)

def numeralValue (base : Nat) (digits : Bytes) : Nat :=
  digits.foldl (fun value c => value * base + digitValue c) 0

theorem numeralValue_concat (base : Nat) (digits : Bytes) (c : UInt8) :
    numeralValue base (digits ++ [c]) = numeralValue base digits * base + digitValue c := by
  rw [numeralValue, List.foldl_append]
  rfl

/-- A numeral with few digits denotes a small number. -/
theorem numeralValue_lt {base : Nat} {digits : Bytes} (h : digits.all (isDigit base) = true) :
    numeralValue base digits < base ^ digits.length := by
  induction digits using List.reverseRecOn with
  | nil => exact Nat.zero_lt_one
  | append_singleton digits c ih =>
      rw [List.all_append, Bool.and_eq_true, List.all_cons, Bool.and_eq_true] at h
      obtain ⟨hdigits, hc, -⟩ := h
      have hc : digitValue c < base := of_decide_eq_true hc
      rw [numeralValue_concat, List.length_append, List.length_singleton, Nat.pow_succ]
      calc numeralValue base digits * base + digitValue c
          < (numeralValue base digits + 1) * base := by rw [Nat.succ_mul]; omega
        _ ≤ base ^ digits.length * base := Nat.mul_le_mul_right base (ih hdigits)

end Odin4
