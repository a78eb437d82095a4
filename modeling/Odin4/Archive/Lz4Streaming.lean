import Odin4.Foundation.StreamDecoder
import Odin4.Usb.Device

/-!
# Streaming LZ4 members

An LZ4 member is decoded while it is read. The size announced to the device is
the content size of the frame header or, where the header has none, the result
of a first pass over the member. Both passes feed the decoder in the same way:
a turn refills the input buffer when it is empty, calls the decoder once, and
adds input when the call made no progress.
-/

namespace Odin4

open Interaction Program

structure Lz4FrameInfo where
  contentSize : UInt64
deriving DecidableEq, Repr

/-- The frame decoder of the LZ4 library. -/
structure Lz4Decoder extends StreamDecoder where
  /-- Read the frame header at the start of `src`; `none` is an error. -/
  getFrameInfo : Ctx → (src : Bytes) → Option (Ctx × Lz4FrameInfo)

/-- Sizes of the input and the output buffer. -/
structure Lz4Buffers where
  inBufSize : Nat
  outBufSize : Nat
deriving DecidableEq, Repr

/-- Larger buffers for members of more than one GiB. -/
def lz4Buffers (compressedSize : Nat) : Lz4Buffers :=
  if 1024 * 1024 * 1024 < compressedSize then ⟨8 * 1024 * 1024, 16 * 1024 * 1024⟩
  else ⟨1024 * 1024, 4 * 1024 * 1024⟩

/-- The state of a pass: the file, the bytes of the member not yet read, the
bytes read but not yet taken by the decoder, and its context. -/
structure Lz4Input (Ctx : Type) where
  file : FileStream
  remaining : Nat
  src : Bytes
  ctx : Ctx
deriving DecidableEq

/-- The next `count` bytes, or what there is of them, go to the end of the buffer. -/
def Lz4Input.refill {Ctx : Type} (input : Lz4Input Ctx) (count : Nat) : Lz4Input Ctx :=
  { input with
    file := (input.file.read count).2
    remaining := input.remaining - (input.file.read count).1.length
    src := input.src ++ (input.file.read count).1 }

/-- At least one byte of the member has gone to the buffer. -/
def Lz4Input.Refills {Ctx : Type} (input filled : Lz4Input Ctx) : Prop :=
  ∃ count ≤ input.remaining, (input.file.read count).1 ≠ [] ∧ filled = input.refill count

inductive Lz4Turn (Ctx : Type) where
  /-- The member is used up. -/
  | exhausted (input : Lz4Input Ctx)
  /-- A short file, a decoding error or no way to make progress. -/
  | failed
  /-- No progress; more input has been appended. -/
  | refilled (input : Lz4Input Ctx)
  | decoded (input : Lz4Input Ctx) (out : Bytes) (hint : Nat)
deriving DecidableEq

namespace Lz4Decoder

variable (dec : Lz4Decoder)

/-- Read into the empty input buffer. -/
def fillEmpty (inBufSize : Nat) (input : Lz4Input dec.Ctx) : Option (Lz4Input dec.Ctx) :=
  if input.src.isEmpty then
    let (data, file) := input.file.read (min inBufSize input.remaining)
    if data.isEmpty then none
    else some { input with file, remaining := input.remaining - data.length, src := data }
  else some input

/-- Append input behind the bytes that the decoder would not take. -/
def appendInput (inBufSize : Nat) (input : Lz4Input dec.Ctx) : Option (Lz4Input dec.Ctx) :=
  if input.remaining = 0 then none
  else
    let toRead := min (inBufSize - input.src.length) input.remaining
    if toRead = 0 then none
    else
      let (data, file) := input.file.read toRead
      if data.isEmpty then none
      else some { input with
        file, remaining := input.remaining - data.length, src := input.src ++ data }

/-- One call of the decoder together with the buffer handling around it. -/
def turn (buffers : Lz4Buffers) (input : Lz4Input dec.Ctx) : Lz4Turn dec.Ctx :=
  if input.src.isEmpty && input.remaining == 0 then .exhausted input
  else
    match dec.fillEmpty buffers.inBufSize input with
    | none => .failed
    | some input =>
        match dec.decompress input.ctx buffers.outBufSize input.src with
        | none => .failed
        | some step =>
            -- The decoder has taken nothing and given nothing: it waits for more input.
            if step.consumed = 0 ∧ step.out.length = 0 ∧ step.hint ≠ 0 then
              match dec.appendInput buffers.inBufSize { input with ctx := step.ctx } with
              | none => .failed
              | some input => .refilled input
            else
              .decoded { input with src := input.src.drop step.consumed, ctx := step.ctx }
                step.out step.hint

/-- Bound on the further turns of a pass. -/
def weight (input : Lz4Input dec.Ctx) : Nat :=
  dec.pending input.ctx + (dec.rate + 1) * input.src.length + (dec.rate + 2) * input.remaining

section Buffer

variable {dec} {inBufSize : Nat} {input filled : Lz4Input dec.Ctx}

theorem fillEmpty_eq_some (h : dec.fillEmpty inBufSize input = some filled) :
    filled = input ∨ input.Refills filled := by
  unfold fillEmpty at h
  split at h
  next hempty =>
    dsimp only at h
    split at h
    next => simp at h
    next hdata =>
      refine .inr ⟨_, Nat.min_le_right _ _, by simpa using hdata, ?_⟩
      rw [← Option.some.inj h, Lz4Input.refill, List.isEmpty_iff.mp hempty, List.nil_append]
  next => exact .inl (Option.some.inj h).symm

theorem appendInput_eq_some (h : dec.appendInput inBufSize input = some filled) :
    input.Refills filled := by
  unfold appendInput at h
  split at h
  next => simp at h
  dsimp only at h
  split at h
  next => simp at h
  split at h
  next => simp at h
  next hdata => exact ⟨_, Nat.min_le_right _ _, by simpa using hdata, (Option.some.inj h).symm⟩

/-- A byte weighs less in the buffer than in the file. -/
theorem weight_refill (h : input.Refills filled) : dec.weight filled < dec.weight input := by
  obtain ⟨count, hcount, hdata, rfl⟩ := h
  have hle := input.file.length_read_le count
  have hpos := List.length_pos_iff.mpr hdata
  unfold Lz4Input.refill
  generalize (input.file.read count).1 = data at hle hpos ⊢
  obtain ⟨more, hmore⟩ := Nat.exists_eq_add_of_le (hle.trans hcount)
  have hsub : input.remaining - data.length = more := by omega
  simp only [weight, List.length_append, hsub]
  rw [hmore]
  simp only [Nat.add_mul, Nat.mul_add, Nat.one_mul]
  omega

theorem fillEmpty_weight (h : dec.fillEmpty inBufSize input = some filled) :
    dec.weight filled ≤ dec.weight input := by
  rcases fillEmpty_eq_some h with rfl | hrefills
  · exact le_rfl
  · exact (weight_refill hrefills).le

end Buffer

/-- A call that takes input or produces output lowers the weight. -/
theorem decompress_weight {capacity : Nat} {input : Lz4Input dec.Ctx} {step : DecodeStep dec.Ctx}
    (h : dec.decompress input.ctx capacity input.src = some step) :
    dec.weight { input with src := input.src.drop step.consumed, ctx := step.ctx } +
      step.consumed + step.out.length ≤ dec.weight input := by
  have hpending := dec.pending_step h
  obtain ⟨left, hleft⟩ := Nat.exists_eq_add_of_le (dec.consumed_le h)
  have hdrop : (input.src.drop step.consumed).length = left := by
    rw [List.length_drop]
    omega
  simp only [weight, hdrop, hleft]
  simp only [Nat.add_mul, Nat.mul_add, Nat.one_mul]
  omega

/-- What a turn can do. -/
inductive TurnSpec (buffers : Lz4Buffers) (input : Lz4Input dec.Ctx) : Lz4Turn dec.Ctx → Prop where
  | exhausted : input.src = [] → input.remaining = 0 → TurnSpec buffers input (.exhausted input)
  | failed : TurnSpec buffers input .failed
  | refilled {filled step next} : dec.fillEmpty buffers.inBufSize input = some filled →
      dec.decompress filled.ctx buffers.outBufSize filled.src = some step →
      step.consumed = 0 → step.out = [] → step.hint ≠ 0 →
      dec.appendInput buffers.inBufSize { filled with ctx := step.ctx } = some next →
      TurnSpec buffers input (.refilled next)
  | decoded {filled step} : dec.fillEmpty buffers.inBufSize input = some filled →
      dec.decompress filled.ctx buffers.outBufSize filled.src = some step →
      ¬ (step.consumed = 0 ∧ step.out.length = 0 ∧ step.hint ≠ 0) →
      TurnSpec buffers input
        (.decoded { filled with src := filled.src.drop step.consumed, ctx := step.ctx }
          step.out step.hint)

theorem turn_spec (buffers : Lz4Buffers) (input : Lz4Input dec.Ctx) :
    dec.TurnSpec buffers input (dec.turn buffers input) := by
  unfold turn
  split
  next hdone =>
    simp only [Bool.and_eq_true, List.isEmpty_iff, beq_iff_eq] at hdone
    exact .exhausted hdone.1 hdone.2
  next =>
    split
    next => exact .failed
    next filled hfill =>
      split
      next => exact .failed
      next step hstep =>
        split
        next hidle =>
          split
          next => exact .failed
          next next hnext =>
            exact .refilled hfill hstep hidle.1 (List.eq_nil_of_length_eq_zero hidle.2.1)
              hidle.2.2 hnext
        next hbusy => exact .decoded hfill hstep hbusy

/-- Every turn after which a pass goes on lowers the weight. -/
theorem turn_refilled_weight {buffers : Lz4Buffers} {input next : Lz4Input dec.Ctx}
    (h : dec.turn buffers input = .refilled next) : dec.weight next < dec.weight input := by
  have hspec := dec.turn_spec buffers input
  rw [h] at hspec
  cases hspec with
  | refilled hfill hstep hconsumed _ _ hnext =>
      have happended := weight_refill (appendInput_eq_some hnext)
      have hcall := dec.decompress_weight hstep
      have hfilled := fillEmpty_weight hfill
      simp only [hconsumed, List.drop_zero] at hcall
      omega

theorem turn_decoded_weight {buffers : Lz4Buffers} {input next : Lz4Input dec.Ctx}
    {out : Bytes} {hint : Nat} (h : dec.turn buffers input = .decoded next out hint)
    (hhint : hint ≠ 0) : dec.weight next < dec.weight input := by
  have hspec := dec.turn_spec buffers input
  rw [h] at hspec
  cases hspec with
  | @decoded filled step hfill hstep hbusy =>
      have hcall := dec.decompress_weight hstep
      have hfilled := fillEmpty_weight hfill
      have hprogress : 0 < step.consumed + step.out.length := by
        by_contra hzero
        exact hbusy ⟨by omega, by omega, hhint⟩
      omega

/-! ## The size scan -/

/-- Decode up to the end of the frame only to count the output; `none` is an
error, and so is a member that ends before its frame. -/
def scanLoop (buffers : Lz4Buffers) (input : Lz4Input dec.Ctx) (total : Nat) :
    Option (Nat × Lz4Input dec.Ctx) :=
  match _h : dec.turn buffers input with
  | .exhausted _ => none
  | .failed => none
  | .refilled next => scanLoop buffers next total
  | .decoded next out hint =>
      -- The counter has 64 bits.
      if out.length ≠ 0 ∧ 2 ^ 64 - 1 - out.length < total then none
      else if _hhint : hint = 0 then some (total + out.length, next)
      else scanLoop buffers next (total + out.length)
termination_by dec.weight input
decreasing_by
  · exact dec.turn_refilled_weight _h
  · exact dec.turn_decoded_weight _h _hhint

/-- The size of a member whose header does not give it. The file is rewound. -/
def scanUncompressedSize (buffers : Lz4Buffers) (file : FileStream) (compressedSize : Nat) :
    Option (Nat × FileStream) := do
  let scanCtx ← dec.create
  let scanStart ← file.tellg
  let (total, input) ← dec.scanLoop buffers ⟨file, compressedSize, [], scanCtx⟩ 0
  if 0 < input.remaining then
    if streamoffMax < input.remaining then none
    if (input.file.seekCur (toStreamoff input.remaining)).failed then none
  -- The member is read a second time, from its start.
  let file := input.file.clear.seekg scanStart
  if file.failed then none
  return (total, file)

/-! ## The decoding pass -/

/-- How the decoding pass is left: the bytes it decoded, whether the decoder
reported the end of the frame, and the file. -/
structure DecodeEnd where
  total : Nat
  frameEnded : Bool
  file : FileStream

/-- Send the output of one call as one file part when flashing. An empty output
makes no part. -/
def sendOutput (largePartition doFlash : Bool) (out : Bytes) (chunkIndex : UInt32) : Usb Bool :=
  if !out.isEmpty && doFlash then sendFilePartChunk out chunkIndex largePartition
  else return true

/-- Decode the member and send what each call produces. The loop ends with the
frame or with the member. -/
def decodeLoop (buffers : Lz4Buffers) (largePartition doFlash : Bool)
    (input : Lz4Input dec.Ctx) (total : Nat) (chunkIndex : UInt32) : Usb (Option DecodeEnd) :=
  match _h : dec.turn buffers input with
  | .exhausted input => return some ⟨total, false, input.file⟩
  | .failed => return none
  | .refilled next => decodeLoop buffers largePartition doFlash next total chunkIndex
  | .decoded next out hint => do
      if !(← sendOutput largePartition doFlash out chunkIndex) then return none
      let total := (total + out.length) % 2 ^ 64
      if _hhint : hint = 0 then return some ⟨total, true, next.file⟩
      else
        decodeLoop buffers largePartition doFlash next total
          (if !out.isEmpty && doFlash then chunkIndex + 1 else chunkIndex)
termination_by dec.weight input
decreasing_by
  · exact dec.turn_refilled_weight _h
  · exact dec.turn_decoded_weight _h _hhint

end Lz4Decoder

/-- Bytes read to look at the frame header. -/
def lz4HeaderReadSize (compressedSize : Nat) : Nat := min 1024 compressedSize

/-- What is known about a member before its decoding pass: the size to announce
(zero if the frame is empty), a context that is ready for the pass, and the
file at the start of the member. -/
structure Lz4Plan (Ctx : Type) where
  uncompressedSize : Nat
  ctx : Ctx
  file : FileStream

/-- Read the frame header and, where it has no content size, scan the member. -/
def lz4Plan (dec : Lz4Decoder) (file : FileStream) (compressedSize : Nat) :
    Option (Lz4Plan dec.Ctx) := do
  let entryStart ← file.tellg
  let dctx ← dec.create
  let headerReadSize := lz4HeaderReadSize compressedSize
  let (headerBuf, file) := file.read headerReadSize
  if headerBuf.length ≠ headerReadSize then none
  let file := file.seekg entryStart
  let (dctx, frameInfo) ← dec.getFrameInfo dctx headerBuf
  let (uncompressedSize, file) ←
    -- A header without a size says zero.
    if frameInfo.contentSize = 0 then
      dec.scanUncompressedSize (lz4Buffers compressedSize) file compressedSize
    else some (frameInfo.contentSize.toNat, file)
  return ⟨uncompressedSize, dec.reset dctx, file⟩

/-- Leave the stream behind the member and compare the sizes. -/
def lz4Finish (entryStart compressedSize uncompressedSize : Nat) (fin : Lz4Decoder.DecodeEnd) :
    Option FileStream :=
  if streamoffMax < compressedSize then none
  else
    -- Wherever the decoder has stopped, the stream goes to the end of the member.
    let file := (fin.file.clear.seekg entryStart).seekCur (toStreamoff compressedSize)
    if file.failed then none
    else if uncompressedSize ≠ 0 ∧ fin.total ≠ uncompressedSize then none
    else some file

/-- Decode a member of `compressedSize` bytes at the current position, sending
it to the device when `doFlash` is set. The result is the stream behind the
member, or `none` for a failure, after which the archive is given up. -/
def processLz4Streaming (dec : Lz4Decoder) (file : FileStream) (compressedSize : Nat)
    (usb : UsbDevice) (largePartition doFlash : Bool) : Usb (Option FileStream) := do
  let some plan := lz4Plan dec file compressedSize | return none
  if doFlash then
    if !(← sendFilePartHeader usb plan.uncompressedSize) then return none
  let some fin ← dec.decodeLoop (lz4Buffers compressedSize) largePartition doFlash
      ⟨plan.file, compressedSize, [], plan.ctx⟩ 0 0
    | return none
  return lz4Finish file.pos compressedSize plan.uncompressedSize fin

end Odin4
