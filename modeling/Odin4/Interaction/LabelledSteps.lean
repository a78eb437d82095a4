import Mathlib.Data.List.Infix

/-!
# Runs of labelled steps

A step relation takes a state to a state under a label. A run goes through a
list of labels. What every step keeps, every run keeps, and a run can be
stopped in front of each of its labels.
-/

namespace Odin4.Interaction

variable {State Label : Type} (step : State → Label → State → Prop)

/-- `Steps step s labels t` holds when the labels lead from `s` to `t`. -/
def Steps : State → List Label → State → Prop
  | s, [], t => t = s
  | s, label :: rest, t => ∃ middle, step s label middle ∧ Steps middle rest t

namespace Steps

variable {step} {s t u : State} {labels first second : List Label}

theorem refl (s : State) : Steps step s [] s := rfl

theorem single {label : Label} (h : step s label t) : Steps step s [label] t := ⟨t, h, rfl⟩

theorem append (hfirst : Steps step s first t) (hsecond : Steps step t second u) :
    Steps step s (first ++ second) u := by
  induction first generalizing s with
  | nil =>
      obtain rfl := hfirst
      exact hsecond
  | cons label rest ih =>
      obtain ⟨middle, hstep, hrest⟩ := hfirst
      exact ⟨middle, hstep, ih hrest⟩

theorem of_append (h : Steps step s (first ++ second) u) :
    ∃ t, Steps step s first t ∧ Steps step t second u := by
  induction first generalizing s with
  | nil => exact ⟨s, rfl, h⟩
  | cons label rest ih =>
      obtain ⟨middle, hstep, hrest⟩ := h
      obtain ⟨t, hfirst, hsecond⟩ := ih hrest
      exact ⟨t, ⟨middle, hstep, hfirst⟩, hsecond⟩

/-- What a step keeps, a run keeps. -/
theorem invariant {holds : State → Prop} (h : Steps step s labels t)
    (hstep : ∀ a label b, step a label b → holds a → holds b) (hs : holds s) : holds t := by
  induction labels generalizing s with
  | nil =>
      obtain rfl := h
      exact hs
  | cons label rest ih =>
      obtain ⟨middle, hfirst, hrest⟩ := h
      exact ih hrest (hstep s label middle hfirst hs)

end Steps

end Odin4.Interaction
