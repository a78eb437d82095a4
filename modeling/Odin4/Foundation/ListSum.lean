import Mathlib.Algebra.BigOperators.Group.List.Basic

/-!
# Sums that detect one change

Two lists differ at one position. Sums over a group then differ, if the elements
that stand there have different values.
-/

namespace Odin4

variable {α G : Type} {i : Nat} {first second : List α}

/-- The lists agree everywhere but at `i`. -/
structure DiffersAt (i : Nat) (first second : List α) : Prop where
  here : first[i]? ≠ second[i]?
  elsewhere : ∀ j, j ≠ i → first[j]? = second[j]?

/-- Of two lists of one length, the second is the first with one element replaced. -/
theorem DiffersAt.exists_set (h : DiffersAt i first second)
    (hlength : first.length = second.length) :
    ∃ a b, first[i]? = some a ∧ a ≠ b ∧ second = first.set i b := by
  have hi : i < first.length := by
    by_contra hout
    apply h.here
    rw [List.getElem?_eq_none (by omega), List.getElem?_eq_none (by omega)]
  have hfirst := List.getElem?_eq_getElem hi
  have hsecond := List.getElem?_eq_getElem (hlength ▸ hi)
  refine ⟨first[i], second[i], hfirst, fun heq => h.here ?_, ?_⟩
  · rw [hfirst, hsecond, heq]
  · apply List.ext_getElem?
    intro j
    by_cases hj : j = i
    · rw [hj, List.getElem?_set_self hi, hsecond]
    · rw [List.getElem?_set_ne (Ne.symm hj), h.elsewhere j hj]

theorem sum_map_ne_of_differsAt [AddCommGroup G] {value : α → G}
    (hvalue : Function.Injective value) (hlength : first.length = second.length)
    (h : DiffersAt i first second) : (first.map value).sum ≠ (second.map value).sum := by
  obtain ⟨a, b, ha, hne, rfl⟩ := h.exists_set hlength
  obtain ⟨hi, rfl⟩ := List.getElem?_eq_some_iff.mp ha
  rw [List.map_set, List.sum_set', dif_pos (by simpa using hi), List.getElem_map]
  intro hsum
  have hzero : -value first[i] + value b = 0 := add_eq_left.mp hsum.symm
  exact hne (hvalue (neg_add_eq_zero.mp hzero))

end Odin4
