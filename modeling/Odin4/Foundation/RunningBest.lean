import Mathlib.Data.List.Induction
import Mathlib.Order.Lattice

/-!
# A running best

A loop over a list keeps an element whose rank exceeds what is noted of the one
kept so far. What is noted of an element need not be its rank.
-/

namespace Odin4

variable {α β : Type} [LinearOrder β] (rank noted : α → β)

/-- Keep the element if its rank exceeds what is noted of the best one so far. -/
def keepBetter (best : Option α) (a : α) : Option α :=
  if best.all fun kept => noted kept < rank a then some a else best

def runningBest (l : List α) : Option α := l.foldl (keepBetter rank noted) none

/-- An occurrence behind which no rank exceeds what is noted of it. -/
def Stands (l : List α) (a : α) : Prop :=
  ∃ before after, l = before ++ a :: after ∧ ∀ b ∈ after, rank b ≤ noted a

variable {rank noted} {l : List α} {a t : α}

theorem Stands.mem (h : Stands rank noted l a) : a ∈ l := by
  obtain ⟨before, after, rfl, -⟩ := h
  simp

/-- Standing among those that are let through. -/
theorem stands_filter_iff {p : α → Bool} :
    Stands rank noted (l.filter p) a ↔ ∃ before after, l = before ++ a :: after ∧ p a = true ∧
      ∀ b ∈ after, p b = true → rank b ≤ noted a := by
  constructor
  · rintro ⟨kept, rest, hfilter, hrest⟩
    obtain ⟨first, second, rfl, -, hsecond⟩ := List.filter_eq_append_iff.mp hfilter
    obtain ⟨middle, after, rfl, -, hp, rfl⟩ := List.filter_eq_cons_iff.mp hsecond
    refine ⟨first ++ middle, after, by simp, hp, fun b hb hpb => ?_⟩
    exact hrest b (List.mem_filter.mpr ⟨hb, hpb⟩)
  · rintro ⟨before, after, rfl, hp, hafter⟩
    refine ⟨before.filter p, after.filter p, by simp [hp], fun b hb => ?_⟩
    obtain ⟨hb, hpb⟩ := List.mem_filter.mp hb
    exact hafter b hb hpb

theorem keepBetter_of_le (h : rank a ≤ noted t) : keepBetter rank noted (some t) a = some t := by
  apply if_neg
  simpa using h

variable (rank noted) in
/-- An element is kept, or the one kept so far stands against it. -/
theorem keepBetter_cases (best : Option α) (a : α) :
    keepBetter rank noted best a = some a ∨
      ∃ kept, best = some kept ∧ rank a ≤ noted kept ∧
        keepBetter rank noted best a = some kept := by
  by_cases hall : best.all fun kept => noted kept < rank a
  · exact .inl (if_pos hall)
  · right
    cases best with
    | none => exact absurd rfl hall
    | some kept =>
        have hle : rank a ≤ noted kept := by simpa using hall
        exact ⟨kept, rfl, hle, keepBetter_of_le hle⟩

theorem runningBest_concat (l : List α) (a : α) :
    runningBest rank noted (l ++ [a]) = keepBetter rank noted (runningBest rank noted l) a := by
  rw [runningBest, List.foldl_append]
  rfl

theorem foldl_keepBetter_of_le (h : ∀ b ∈ l, rank b ≤ noted t) :
    l.foldl (keepBetter rank noted) (some t) = some t := by
  induction l with
  | nil => rfl
  | cons b rest ih =>
      obtain ⟨hb, hrest⟩ := List.forall_mem_cons.mp h
      rw [List.foldl_cons, keepBetter_of_le hb, ih hrest]

/-- The loop ends with an element that stands. -/
theorem stands_runningBest (h : runningBest rank noted l = some t) : Stands rank noted l t := by
  induction l using List.reverseRecOn with
  | nil => simp [runningBest] at h
  | append_singleton l a ih =>
      rw [runningBest_concat] at h
      rcases keepBetter_cases rank noted (runningBest rank noted l) a with
        hkeep | ⟨kept, hbest, hle, hkeep⟩
      · rw [hkeep] at h
        obtain rfl := Option.some.inj h
        exact ⟨l, [], rfl, by simp⟩
      · rw [hkeep] at h
        obtain rfl := Option.some.inj h
        obtain ⟨before, after, rfl, hafter⟩ := ih hbest
        refine ⟨before, after ++ [a], by simp, fun b hb => ?_⟩
        rcases List.mem_append.mp hb with hb | hb
        · exact hafter b hb
        · rw [List.mem_singleton.mp hb]
          exact hle

theorem runningBest_ne_none (h : l ≠ []) : runningBest rank noted l ≠ none := by
  induction l using List.reverseRecOn with
  | nil => exact absurd rfl h
  | append_singleton l a ih =>
      rw [runningBest_concat]
      rcases keepBetter_cases rank noted (runningBest rank noted l) a with
        hkeep | ⟨kept, -, -, hkeep⟩ <;> simp [hkeep]

/-- Where no note exceeds the rank, the result is a greatest element exactly if some
greatest element stands. -/
theorem runningBest_greatest_iff (hnoted : ∀ a, noted a ≤ rank a)
    (h : runningBest rank noted l = some t) :
    (∀ b ∈ l, rank b ≤ rank t) ↔ ∃ d, (∀ b ∈ l, rank b ≤ rank d) ∧ Stands rank noted l d := by
  constructor
  · intro hgreatest
    exact ⟨t, hgreatest, stands_runningBest h⟩
  · rintro ⟨d, hgreatest, before, after, rfl, hafter⟩
    -- What is kept at `d` has the rank of `d` at least, and it stands as `d` does.
    obtain ⟨kept, hkept, hrank, hrest⟩ : ∃ kept,
        keepBetter rank noted (runningBest rank noted before) d = some kept ∧
          rank d ≤ rank kept ∧ ∀ b ∈ after, rank b ≤ noted kept := by
      rcases keepBetter_cases rank noted (runningBest rank noted before) d with
        hkeep | ⟨kept, -, hle, hkeep⟩
      · exact ⟨d, hkeep, le_rfl, hafter⟩
      · refine ⟨kept, hkeep, hle.trans (hnoted kept), fun b hb => ?_⟩
        exact (hgreatest b (by simp [hb])).trans hle
    have hresult : runningBest rank noted (before ++ d :: after) = some kept := by
      rw [runningBest, List.foldl_append, List.foldl_cons]
      exact hkept ▸ foldl_keepBetter_of_le hrest
    obtain rfl := Option.some.inj (h.symm.trans hresult)
    exact fun b hb => (hgreatest b hb).trans hrank

end Odin4
