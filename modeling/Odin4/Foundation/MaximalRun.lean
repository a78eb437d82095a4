import Mathlib.Data.List.Basic

/-!
# Maximal runs

A run of elements with a property is maximal where neither neighbour has it.
Runs are located by the number of elements in front of them.
-/

namespace Odin4

variable {α : Type} {p : α → Bool} {width pos : Nat}

/-- A maximal run of exactly `width` elements starts at `pos`. -/
def MaximalRunAt (p : α → Bool) (width : Nat) (text : List α) (pos : Nat) : Prop :=
  ∃ before run after, text = before ++ (run ++ after) ∧ before.length = pos ∧
    run.length = width ∧ (∀ a ∈ run, p a = true) ∧ (∀ a ∈ before.getLast?, p a = false) ∧
    ∀ a ∈ after.head?, p a = false

def HasMaximalRun (p : α → Bool) (width : Nat) (text : List α) : Prop :=
  ∃ pos, MaximalRunAt p width text pos

/-- Of two ways to cut a list, the later one cuts the back of the earlier. -/
theorem append_eq_append_of_length_le {front back before after : List α}
    (h : front ++ back = before ++ after) (hle : front.length ≤ before.length) :
    ∃ middle, before = front ++ middle ∧ back = middle ++ after := by
  obtain hlater | ⟨middle, rfl, rfl⟩ := List.append_eq_append_iff.mp h
  · exact hlater
  · rw [List.length_append] at hle
    obtain rfl : middle = [] := List.length_eq_zero_iff.mp (by omega)
    exact ⟨[], by simp⟩

/-- The three parts are cut out of the text. -/
theorem maximalRunAt_iff {text : List α} :
    MaximalRunAt p width text pos ↔ pos + width ≤ text.length ∧
      (∀ a ∈ (text.drop pos).take width, p a = true) ∧
      (∀ a ∈ (text.take pos).getLast?, p a = false) ∧
      ∀ a ∈ (text.drop (pos + width)).head?, p a = false := by
  constructor
  · rintro ⟨before, run, after, rfl, rfl, rfl, hrun, hbefore, hafter⟩
    refine ⟨by simp, ?_, ?_, ?_⟩
    · simpa using hrun
    · simpa using hbefore
    · rw [← List.drop_drop, List.drop_left, List.drop_left]
      exact hafter
  · rintro ⟨hlength, hrun, hbefore, hafter⟩
    refine ⟨_, _, _, ?_, ?_, ?_, hrun, hbefore, hafter⟩
    · rw [← List.drop_drop, List.take_append_drop, List.take_append_drop]
    · exact List.length_take_of_le (by omega)
    · exact List.length_take_of_le (by rw [List.length_drop]; omega)

namespace MaximalRunAt

theorem add_le_length {text : List α} (h : MaximalRunAt p width text pos) :
    pos + width ≤ text.length := by
  obtain ⟨before, run, after, rfl, rfl, rfl, -⟩ := h
  simp only [List.length_append]
  omega

/-- No maximal run starts inside a run or directly behind it. -/
theorem not_within {front run back : List α} (hrun : ∀ a ∈ run, p a = true)
    (hfront : front.length < pos) (hpos : pos ≤ front.length + run.length) :
    ¬ MaximalRunAt p width (front ++ (run ++ back)) pos := by
  rintro ⟨before, found, after, htext, rfl, -, -, hbefore, -⟩
  obtain ⟨middle, rfl, hmiddle⟩ := append_eq_append_of_length_le htext (Nat.le_of_lt hfront)
  have hlength : middle.length ≤ run.length := by
    rw [List.length_append] at hpos
    omega
  obtain ⟨rest, rfl, -⟩ := append_eq_append_of_length_le hmiddle.symm hlength
  obtain ⟨a, ha⟩ : ∃ a, a ∈ middle.getLast? := by
    have hne : middle ≠ [] := by
      rintro rfl
      simp at hfront
    exact ⟨_, List.getLast?_eq_some_getLast hne⟩
  have hfalse := hbefore a (List.mem_getLast?_append_of_mem_getLast? ha)
  rw [hrun a (List.mem_append_left _ (List.mem_of_mem_getLast? ha))] at hfalse
  simp at hfalse

/-- Behind an element without the property a maximal run is one of what follows. -/
theorem behind {front back : List α} {a : α} (ha : p a = false) (hwidth : 0 < width)
    (h : MaximalRunAt p width (front ++ a :: back) pos) (hpos : front.length ≤ pos) :
    HasMaximalRun p width back := by
  obtain ⟨before, run, after, htext, rfl, hlength, hrun, hbefore, hafter⟩ := h
  obtain ⟨middle, rfl, hmiddle⟩ := append_eq_append_of_length_le htext hpos
  cases middle with
  | nil =>
      cases run with
      | nil => simp at hlength; omega
      | cons b run =>
          obtain ⟨rfl, -⟩ := List.cons.inj hmiddle
          simp [hrun a] at ha
  | cons b middle =>
      obtain ⟨rfl, hback⟩ := List.cons.inj hmiddle
      refine ⟨_, middle, run, after, hback, rfl, hlength, hrun, fun c hc => hbefore c ?_, hafter⟩
      exact List.mem_getLast?_append_of_mem_getLast? (List.mem_getLast?_cons hc)

/-- A last element without the property belongs to no run. -/
theorem of_snoc {text : List α} {a : α} (ha : p a = false) (hwidth : 0 < width)
    (h : MaximalRunAt p width (text ++ [a]) pos) : MaximalRunAt p width text pos := by
  obtain ⟨before, run, after, htext, rfl, hlength, hrun, hbefore, hafter⟩ := h
  obtain rfl | ⟨after, b, rfl⟩ := after.eq_nil_or_concat
  · obtain rfl | ⟨run, c, rfl⟩ := run.eq_nil_or_concat
    · simp at hlength; omega
    · rw [List.append_nil, List.concat_eq_append, ← List.append_assoc] at htext
      obtain ⟨-, hlast⟩ := List.append_inj' htext rfl
      obtain rfl : a = c := by simpa using hlast
      simp [hrun a] at ha
  · rw [List.concat_eq_append, ← List.append_assoc, ← List.append_assoc] at htext
    obtain ⟨rfl, -⟩ := List.append_inj' htext rfl
    refine ⟨before, run, after, List.append_assoc .., rfl, hlength, hrun, hbefore, fun c hc => ?_⟩
    refine hafter c ?_
    rw [List.concat_eq_append]
    exact List.mem_head?_append_of_mem_head? hc

end MaximalRunAt

theorem HasMaximalRun.of_cons {text : List α} {a : α} (ha : p a = false) (hwidth : 0 < width)
    (h : HasMaximalRun p width (a :: text)) : HasMaximalRun p width text := by
  obtain ⟨pos, hrun⟩ := h
  have hfront : MaximalRunAt p width ([] ++ a :: text) pos := hrun
  exact hfront.behind ha hwidth (Nat.zero_le _)

end Odin4
