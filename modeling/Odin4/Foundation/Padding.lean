import Mathlib.Data.Nat.Basic

/-!
# Padding

The number of bytes that follow a block of data up to the next multiple of a
unit.
-/

namespace Odin4

/-- What is missing from `n` to the next multiple of `unit`. -/
def padding (unit n : Nat) : Nat := (unit - n % unit) % unit

variable {unit n bound : Nat}

theorem padding_lt (hunit : 0 < unit) (n : Nat) : padding unit n < unit := Nat.mod_lt _ hunit

theorem dvd_add_padding (hunit : 0 < unit) (n : Nat) : unit ∣ n + padding unit n := by
  have hrest := Nat.mod_lt n hunit
  have hsplit := Nat.div_add_mod n unit
  unfold padding
  by_cases hzero : n % unit = 0
  · rw [hzero, Nat.sub_zero, Nat.mod_self, Nat.add_zero]
    exact Nat.dvd_of_mod_eq_zero hzero
  · rw [Nat.mod_eq_of_lt (by omega)]
    refine ⟨n / unit + 1, ?_⟩
    rw [Nat.mul_succ]
    omega

theorem padding_of_dvd (h : unit ∣ n) : padding unit n = 0 := by
  unfold padding
  rw [Nat.mod_eq_zero_of_dvd h, Nat.sub_zero, Nat.mod_self]

/-- Padded data still fits under a bound that is a multiple of the unit. -/
theorem add_padding_le (hunit : 0 < unit) (hle : n ≤ bound) (hbound : unit ∣ bound) :
    n + padding unit n ≤ bound := by
  have hlt := padding_lt hunit n
  obtain ⟨k, hk⟩ := hbound
  obtain ⟨j, hj⟩ := dvd_add_padding hunit n
  rw [hj, hk]
  refine Nat.mul_le_mul_left unit ?_
  by_contra hless
  have hmul : unit * (k + 1) ≤ unit * j := Nat.mul_le_mul_left unit (by omega)
  rw [Nat.mul_succ] at hmul
  omega

theorem padding_add (h : unit ∣ bound) : padding unit (bound + n) = padding unit n := by
  unfold padding
  rw [Nat.add_mod, Nat.mod_eq_zero_of_dvd h, Nat.zero_add, Nat.mod_mod]

end Odin4
