import Odin4.Foundation.StreamDecoder

/-!
# Byte machines

A machine that takes its input byte by byte and answers each byte with at most
one byte of output is a streaming decoder: a call feeds it bytes until the
input or the room for output is used up. What it produces then depends on the
bytes alone and not on how the calls split them.
-/

namespace Odin4

structure ByteMachine where
  State : Type
  start : State
  /-- Take one byte; `none` is an error. -/
  step : State → UInt8 → Option (State × Option UInt8)
  /-- The frame ends in this state. -/
  ended : State → Bool

namespace ByteMachine

variable (machine : ByteMachine)

/-- One call of the decoder. -/
def feed (s : machine.State) (capacity : Nat) : (src : Bytes) → Option (DecodeStep machine.State)
  | [] => some ⟨s, [], 0, 1⟩
  | byte :: src =>
      match machine.step s byte with
      | none => none
      | some (next, out) =>
          if capacity < out.toList.length then some ⟨s, [], 0, 1⟩
          else if machine.ended next then some ⟨next, out.toList, 1, 0⟩
          else
            (feed next (capacity - out.toList.length) src).map fun rest =>
              ⟨rest.ctx, out.toList ++ rest.out, rest.consumed + 1, rest.hint⟩

/-- The output for all the bytes up to the end of the frame or an error. -/
def content (s : machine.State) : Bytes → Bytes
  | [] => []
  | byte :: rest =>
      match machine.step s byte with
      | none => []
      | some (next, out) => out.toList ++ if machine.ended next then [] else content next rest

/-- What a call does not take is left for the calls after it. -/
theorem content_feed {s : machine.State} {capacity : Nat} {src : Bytes}
    {result : DecodeStep machine.State} (h : machine.feed s capacity src = some result)
    (more : Bytes) :
    machine.content s (src.take result.consumed ++ more) =
      result.out ++ if result.hint = 0 then [] else machine.content result.ctx more := by
  induction src generalizing s capacity result with
  | nil =>
      obtain rfl := Option.some.inj h
      simp
  | cons byte src ih =>
      rw [feed] at h
      cases hstep : machine.step s byte with
      | none => simp [hstep] at h
      | some answer =>
          obtain ⟨next, out⟩ := answer
          simp only [hstep] at h
          split at h
          next =>
            obtain rfl := Option.some.inj h
            simp
          next =>
            split at h
            next hended =>
              obtain rfl := Option.some.inj h
              simp [content, hstep, hended]
            next hended =>
              obtain ⟨rest, hrest, rfl⟩ := Option.map_eq_some_iff.mp h
              simp only [List.take_succ_cons, List.cons_append, content, hstep, hended,
                Bool.false_eq_true, ↓reduceIte, ih hrest, List.append_assoc]

theorem feed_bounds {s : machine.State} {capacity : Nat} {src : Bytes}
    {result : DecodeStep machine.State} (h : machine.feed s capacity src = some result) :
    result.out.length ≤ capacity ∧ result.consumed ≤ src.length ∧
      result.out.length ≤ result.consumed := by
  induction src generalizing s capacity result with
  | nil =>
      obtain rfl := Option.some.inj h
      simp
  | cons byte src ih =>
      rw [feed] at h
      cases hstep : machine.step s byte with
      | none => simp [hstep] at h
      | some answer =>
          obtain ⟨next, out⟩ := answer
          have hout : out.toList.length ≤ 1 := by cases out <;> simp
          simp only [hstep] at h
          split at h
          next =>
            obtain rfl := Option.some.inj h
            simp
          next hroom =>
            split at h
            next =>
              obtain rfl := Option.some.inj h
              exact ⟨Nat.not_lt.mp hroom, by simp, hout⟩
            next =>
              obtain ⟨rest, hrest, rfl⟩ := Option.map_eq_some_iff.mp h
              obtain ⟨hcapacity, htaken, hrate⟩ := ih hrest
              simp only [List.length_append, List.length_cons]
              omega

def decoder : StreamDecoder where
  Ctx := machine.State
  create := some machine.start
  reset _ := machine.start
  decompress := machine.feed
  pending _ := 0
  rate := 1
  reset_eq h _ := Option.some.inj h
  out_le h := (machine.feed_bounds h).1
  consumed_le h := (machine.feed_bounds h).2.1
  pending_step h := by
    have hrate := (machine.feed_bounds h).2.2
    omega

theorem content_of_fed {s : machine.decoder.Ctx} {taken produced : Bytes}
    (h : machine.decoder.Fed s taken produced) (more : Bytes) :
    machine.content machine.start (taken ++ more) = produced ++ machine.content s more := by
  induction h generalizing more with
  | fresh hfresh =>
      obtain rfl := Option.some.inj hfresh
      rfl
  | step _ hcall hhint ih =>
      rw [List.append_assoc, ih, machine.content_feed hcall, if_neg hhint, List.append_assoc]

/-- Splitting input and output does not matter to a byte machine. -/
theorem decodesTo : machine.decoder.DecodesTo (machine.content machine.start) := by
  rintro entry s taken produced capacity src result hfed hcall ⟨rest, rfl⟩
  have hsplit : src = src.take result.consumed ++ src.drop result.consumed :=
    (List.take_append_drop _ _).symm
  have hcontent : machine.content s (src ++ rest) = result.out ++
      if result.hint = 0 then []
      else machine.content result.ctx (src.drop result.consumed ++ rest) := by
    conv_lhs => rw [hsplit, List.append_assoc]
    exact machine.content_feed hcall _
  rw [List.append_assoc, machine.content_of_fed hfed, hcontent, ← List.append_assoc]
  refine ⟨List.prefix_append _ _, fun hhint => ?_⟩
  rw [if_pos hhint, List.append_nil]

end ByteMachine

end Odin4
