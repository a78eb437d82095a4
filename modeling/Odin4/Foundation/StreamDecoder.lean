import Odin4.Foundation.ByteString

/-!
# Streaming decoders

A streaming decoder is called repeatedly with the input at hand and room for
some output. Each call reports how much input it took, the output it produced
and a hint that is zero exactly at the end of a frame. The progress law bounds
what a call can produce by what it and earlier calls have taken, so a caller
that always offers input or room cannot be kept busy forever.
-/

namespace Odin4

/-- The result of one successful call. -/
structure DecodeStep (Ctx : Type) where
  ctx : Ctx
  out : Bytes
  consumed : Nat
  hint : Nat
deriving DecidableEq

structure StreamDecoder where
  Ctx : Type
  /-- A fresh context; `none` if none can be created. -/
  create : Option Ctx
  /-- Make a context ready for a new frame. -/
  reset : Ctx → Ctx
  /-- One call with room for `capacity` bytes; `none` is a decoding error. -/
  decompress : Ctx → (capacity : Nat) → (src : Bytes) → Option (DecodeStep Ctx)
  /-- Output that a context still owes. -/
  pending : Ctx → Nat
  /-- Bound on the output that one byte of input can lead to. -/
  rate : Nat
  reset_eq : ∀ {fresh}, create = some fresh → ∀ ctx, reset ctx = fresh
  out_le : ∀ {ctx capacity src step}, decompress ctx capacity src = some step →
    step.out.length ≤ capacity
  consumed_le : ∀ {ctx capacity src step}, decompress ctx capacity src = some step →
    step.consumed ≤ src.length
  pending_step : ∀ {ctx capacity src step}, decompress ctx capacity src = some step →
    step.out.length + pending step.ctx ≤ pending ctx + rate * step.consumed

namespace StreamDecoder

variable (decoder : StreamDecoder)

/-- Contexts reached from a fresh one before the end of a frame, with the input
taken and the output produced on the way, in whatever pieces. -/
inductive Fed : decoder.Ctx → Bytes → Bytes → Prop where
  | fresh {ctx} : decoder.create = some ctx → Fed ctx [] []
  | step {ctx taken produced capacity src result} : Fed ctx taken produced →
      decoder.decompress ctx capacity src = some result → result.hint ≠ 0 →
      Fed result.ctx (taken ++ src.take result.consumed) (produced ++ result.out)

/-- The decoder is a deterministic stream transducer: however the bytes of
`entry` and the room for output are split, what has been produced is an initial
part of `content entry`, and all of it once the end of the frame is reported. -/
def DecodesTo (content : Bytes → Bytes) : Prop :=
  ∀ entry {ctx taken produced capacity src result}, decoder.Fed ctx taken produced →
    decoder.decompress ctx capacity src = some result → taken ++ src <+: entry →
    produced ++ result.out <+: content entry ∧
      (result.hint = 0 → produced ++ result.out = content entry)

end StreamDecoder

end Odin4
