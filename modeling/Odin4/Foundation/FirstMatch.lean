import Mathlib.Data.List.Basic

/-!
# First matches

A list is searched for its first match by two criteria that share one part.
They find the same position if and only if the first element that any of the
parts speaks for is no match of only one criterion.
-/

namespace Odin4

variable {α β : Type}

/-- The first element with `shared`, `left` or `right` has `shared`, or both of
the others. -/
def Undisputed (shared left right : α → Prop) (l : List α) : Prop :=
  ∀ before a after, l = before ++ a :: after →
    (∀ b ∈ before, ¬ shared b ∧ ¬ left b ∧ ¬ right b) → shared a ∨ (left a ↔ right a)

section Criteria

variable {p q : α → Bool} {shared left right : α → Prop} {l : List α}

/-- Two searches end at the same position if and only if they agree on the
first element that one of them stops at. -/
theorem findIdx?_eq_findIdx?_iff :
    l.findIdx? p = l.findIdx? q ↔ ∀ before a after, l = before ++ a :: after →
      (∀ b ∈ before, p b = false ∧ q b = false) → p a = q a := by
  induction l with
  | nil => simp
  | cons head tail ih =>
      have hhere : (∀ before a after, head :: tail = before ++ a :: after →
          (∀ b ∈ before, p b = false ∧ q b = false) → p a = q a) ↔ p head = q head ∧
            (p head = false → q head = false → ∀ before a after, tail = before ++ a :: after →
              (∀ b ∈ before, p b = false ∧ q b = false) → p a = q a) := by
        constructor
        · intro h
          refine ⟨h [] head tail rfl (by simp), fun hp hq before a after htail hbefore => ?_⟩
          exact h (head :: before) a after (by rw [htail, List.cons_append])
            (List.forall_mem_cons.mpr ⟨⟨hp, hq⟩, hbefore⟩)
        · rintro ⟨hhead, htail⟩ before a after hsplit hbefore
          cases before with
          | nil =>
              obtain ⟨rfl, -⟩ := List.cons.inj hsplit
              exact hhead
          | cons b before =>
              obtain ⟨rfl, hrest⟩ := List.cons.inj hsplit
              obtain ⟨hb, hbefore⟩ := List.forall_mem_cons.mp hbefore
              exact htail hb.1 hb.2 before a after hrest hbefore
      have hlater : ∀ i : Option Nat, some 0 ≠ i.map fun i => i + 1 := by
        intro i
        cases i <;> simp
      rw [hhere, ← ih, List.findIdx?_cons, List.findIdx?_cons]
      cases p head <;> cases q head <;> simp [Option.map_inj_right, hlater, (hlater _).symm]

theorem findIdx?_eq_iff_undisputed (hp : ∀ a ∈ l, (p a = true ↔ shared a ∨ left a))
    (hq : ∀ a ∈ l, (q a = true ↔ shared a ∨ right a)) :
    l.findIdx? p = l.findIdx? q ↔ Undisputed shared left right l := by
  rw [findIdx?_eq_findIdx?_iff]
  refine forall_congr' fun before => forall_congr' fun a => forall_congr' fun after =>
    forall_congr' fun hsplit => ?_
  have hmem : ∀ b ∈ before, b ∈ l := fun b hb => hsplit ▸ List.mem_append_left _ hb
  have hbefore : (∀ b ∈ before, p b = false ∧ q b = false) ↔
      ∀ b ∈ before, ¬ shared b ∧ ¬ left b ∧ ¬ right b := by
    refine forall₂_congr fun b hb => ?_
    rw [← Bool.not_eq_true, ← Bool.not_eq_true, hp b (hmem b hb), hq b (hmem b hb)]
    tauto
  have ha : a ∈ l := hsplit ▸ List.mem_append_right _ List.mem_cons_self
  have hagree : p a = q a ↔ (shared a ∨ (left a ↔ right a)) := by
    rw [Bool.eq_iff_iff, hp a ha, hq a ha]
    tauto
  rw [hbefore, hagree]

end Criteria

/-- A search of one list as a search of two lists side by side. -/
theorem findIdx?_zip_left {p : α → Bool} {l : List α} {l' : List β} (h : l.length = l'.length) :
    l.findIdx? p = (l.zip l').findIdx? (p ∘ Prod.fst) := by
  rw [← List.findIdx?_map, List.map_fst_zip (Nat.le_of_eq h)]

theorem findIdx?_zip_right {q : β → Bool} {l : List α} {l' : List β} (h : l.length = l'.length) :
    l'.findIdx? q = (l.zip l').findIdx? (q ∘ Prod.snd) := by
  rw [← List.findIdx?_map, List.map_snd_zip (Nat.le_of_eq h.symm)]

theorem exists_first {strict : α → Prop} {l : List α} (h : ∃ a ∈ l, strict a) :
    ∃ before a after, l = before ++ a :: after ∧ strict a ∧ ∀ b ∈ before, ¬ strict b := by
  induction l with
  | nil => simp at h
  | cons head tail ih =>
      by_cases hhead : strict head
      · exact ⟨[], head, tail, rfl, hhead, by simp⟩
      · rcases h with ⟨a, hmem, ha⟩
        rcases List.mem_cons.mp hmem with rfl | hmem
        · exact absurd ha hhead
        · obtain ⟨before, b, after, rfl, hb, hbefore⟩ := ih ⟨a, hmem, ha⟩
          exact ⟨head :: before, b, after, rfl, hb, List.forall_mem_cons.mpr ⟨hhead, hbefore⟩⟩

/-- Of the first match and an element that matches by a stricter criterion: the
first match is strict if and only if nothing in front of the strict element
matches otherwise. -/
theorem find?_strict_iff {p : α → Bool} {strict : α → Prop} {l before after : List α} {a : α}
    (hsplit : l = before ++ a :: after) (ha : strict a) (hstrict : ∀ b, strict b → p b = true)
    (hbefore : ∀ b ∈ before, ¬ strict b) :
    ∃ selected, l.find? p = some selected ∧ selected ∈ before ++ [a] ∧
      (strict selected ↔ ∀ b ∈ before, p b = false) := by
  rw [hsplit, List.find?_append, List.find?_cons_of_pos (hstrict a ha)]
  cases hfront : before.find? p with
  | none =>
      rw [List.find?_eq_none] at hfront
      exact ⟨a, rfl, by simp, iff_of_true ha fun b hb => by simpa using hfront b hb⟩
  | some selected =>
      have hmem := List.mem_of_find?_eq_some hfront
      refine ⟨selected, rfl, List.mem_append_left _ hmem,
        iff_of_false (hbefore selected hmem) fun hnone => ?_⟩
      have hmatch := List.find?_some hfront
      simp [hnone selected hmem] at hmatch

end Odin4
