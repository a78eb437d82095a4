import Mathlib.Data.List.Basic

/-!
# Framing

Frames that follow one another on a wire without anything between them. Where a
frame ends may depend on the frames before it, which a state keeps account of. A
framing can be read back if a reader that knows the state can take one frame off
the front of what is left.
-/

namespace Odin4

/-- Frames over symbols, with a reader that takes one frame off. -/
structure Framing (Frame State Symbol : Type) where
  encode : Frame → List Symbol
  next : State → Frame → State
  /-- Take the next frame off the front. -/
  take : State → List Symbol → Option (Frame × List Symbol)
  /-- No frame is outstanding. -/
  idle : State → Bool
  Expected : State → Frame → Prop
  /-- Frames without symbols that may come yet. -/
  weight : State → Nat
  take_iff : ∀ {state input frame rest}, take state input = some (frame, rest) ↔
    Expected state frame ∧ input = encode frame ++ rest
  progress : ∀ {state frame}, Expected state frame → encode frame = [] →
    idle state = false ∧ weight (next state frame) < weight state

namespace Framing

variable {Frame State Symbol : Type} (framing : Framing Frame State Symbol)

/-- The frames may follow one another from a state on, and nothing is outstanding
behind them. -/
def Sequence : State → List Frame → Prop
  | state, [] => framing.idle state = true
  | state, frame :: rest =>
      framing.Expected state frame ∧ Sequence (framing.next state frame) rest

theorem take_left {state : State} {input rest : List Symbol} {frame : Frame}
    (h : framing.take state input = some (frame, rest)) :
    rest.length < input.length ∨
      rest.length = input.length ∧ framing.weight (framing.next state frame) < framing.weight state := by
  obtain ⟨hexpected, rfl⟩ := framing.take_iff.mp h
  cases hencode : framing.encode frame with
  | nil => exact .inr ⟨by simp, (framing.progress hexpected hencode).2⟩
  | cons symbol symbols =>
      left
      simp only [List.cons_append, List.length_cons, List.length_append]
      omega

/-- Take frames off until the input is used up. -/
def readAll (state : State) (input : List Symbol) : Option (List Frame) :=
  if input.isEmpty && framing.idle state then some []
  else
    match _h : framing.take state input with
    | none => none
    | some (frame, rest) => (readAll (framing.next state frame) rest).map (frame :: ·)
termination_by (input.length, framing.weight state)
decreasing_by
  obtain hshorter | ⟨hlength, hlighter⟩ := framing.take_left _h
  · exact .left _ _ hshorter
  · rw [hlength]
    exact .right _ hlighter

variable {framing}

theorem readAll_of_idle {state : State} (h : framing.idle state = true) :
    framing.readAll state [] = some [] := by
  rw [readAll, h]
  rfl

theorem readAll_of_take {state : State} {input rest : List Symbol} {frame : Frame}
    (h : framing.take state input = some (frame, rest)) :
    framing.readAll state input =
      (framing.readAll (framing.next state frame) rest).map (frame :: ·) := by
  obtain ⟨hexpected, hinput⟩ := framing.take_iff.mp h
  have hgo : ¬ (input.isEmpty && framing.idle state) = true := by
    intro hdone
    obtain ⟨hempty, hidle⟩ := Bool.and_eq_true_iff.mp hdone
    rw [List.isEmpty_iff.mp hempty] at hinput
    have hencode := (List.append_eq_nil_iff.mp hinput.symm).1
    rw [(framing.progress hexpected hencode).1] at hidle
    cases hidle
  rw [readAll, if_neg hgo]
  split
  next hnone => rw [h] at hnone; cases hnone
  next frame' rest' hsome =>
    rw [h] at hsome
    obtain ⟨rfl, rfl⟩ := Prod.mk.inj (Option.some.inj hsome)
    rfl

/-- What was written is read back. -/
theorem readAll_encode {state : State} {frames : List Frame} (h : framing.Sequence state frames) :
    framing.readAll state (frames.flatMap framing.encode) = some frames := by
  induction frames generalizing state with
  | nil => exact readAll_of_idle h
  | cons frame rest ih =>
      obtain ⟨hexpected, hrest⟩ := h
      rw [List.flatMap_cons, readAll_of_take (framing.take_iff.mpr ⟨hexpected, rfl⟩), ih hrest]
      rfl

end Framing

end Odin4
