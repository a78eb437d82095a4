import Odin4.Archive.Lz4Streaming
import Odin4.Usb.Transfer

/-!
# Passes over an LZ4 member

Both loops over a member make the same calls of the decoder. A pass lists what
these calls produce and how the loop is left; the scan counts its output and
the decoding loop sends it.
-/

namespace Odin4

open Interaction Program Dialogue

/-- How a loop over a member is left. -/
inductive PassEnd (Ctx : Type) where
  /-- The decoder reported the end of the frame. -/
  | frameEnd (input : Lz4Input Ctx)
  /-- The member was used up. -/
  | exhausted (input : Lz4Input Ctx)
  | failed

/-- The output of each call in order, and the end. -/
structure Lz4Pass (Ctx : Type) where
  outs : List Bytes
  ending : PassEnd Ctx

/-- Number of bytes that a pass decodes. -/
def Lz4Pass.total {Ctx : Type} (pass : Lz4Pass Ctx) : Nat := pass.outs.flatten.length

namespace Lz4Decoder

variable (dec : Lz4Decoder)

/-- The calls of the decoder that a loop makes from `input` on. -/
def decodePass (buffers : Lz4Buffers) (input : Lz4Input dec.Ctx) : Lz4Pass dec.Ctx :=
  match _h : dec.turn buffers input with
  | .exhausted input => ⟨[], .exhausted input⟩
  | .failed => ⟨[], .failed⟩
  | .refilled next => decodePass buffers next
  | .decoded next out hint =>
      if _hhint : hint = 0 then ⟨[out], .frameEnd next⟩
      else
        let rest := decodePass buffers next
        ⟨out :: rest.outs, rest.ending⟩
termination_by dec.weight input
decreasing_by
  · exact dec.turn_refilled_weight _h
  · exact dec.turn_decoded_weight _h _hhint

section Equations

variable {dec} {buffers : Lz4Buffers} {input next : Lz4Input dec.Ctx} {out : Bytes} {hint : Nat}

theorem decodePass_exhausted (h : dec.turn buffers input = .exhausted next) :
    dec.decodePass buffers input = ⟨[], .exhausted next⟩ := by
  rw [decodePass]
  split <;> simp_all

theorem decodePass_failed (h : dec.turn buffers input = .failed) :
    dec.decodePass buffers input = ⟨[], .failed⟩ := by
  rw [decodePass]
  split <;> simp_all

theorem decodePass_refilled (h : dec.turn buffers input = .refilled next) :
    dec.decodePass buffers input = dec.decodePass buffers next := by
  rw [decodePass]
  split <;> simp_all

theorem decodePass_frameEnd (h : dec.turn buffers input = .decoded next out 0) :
    dec.decodePass buffers input = ⟨[out], .frameEnd next⟩ := by
  rw [decodePass]
  split <;> simp_all

theorem decodePass_decoded (h : dec.turn buffers input = .decoded next out hint)
    (hhint : hint ≠ 0) :
    dec.decodePass buffers input =
      ⟨out :: (dec.decodePass buffers next).outs, (dec.decodePass buffers next).ending⟩ := by
  rw [decodePass]
  split <;> simp_all

end Equations

/-- Induction along a pass, one case for each outcome of a turn. -/
theorem pass_induction (buffers : Lz4Buffers) {motive : Lz4Input dec.Ctx → Prop}
    (exhausted : ∀ input next, dec.turn buffers input = .exhausted next → motive input)
    (failed : ∀ input, dec.turn buffers input = .failed → motive input)
    (refilled : ∀ input next, dec.turn buffers input = .refilled next → motive next → motive input)
    (frameEnd : ∀ input next out, dec.turn buffers input = .decoded next out 0 → motive input)
    (decoded : ∀ input next out hint, dec.turn buffers input = .decoded next out hint →
      hint ≠ 0 → motive next → motive input)
    (input : Lz4Input dec.Ctx) : motive input := by
  induction hweight : dec.weight input using Nat.strong_induction_on generalizing input with
  | _ weight ih =>
      subst hweight
      cases hturn : dec.turn buffers input with
      | exhausted next => exact exhausted input next hturn
      | failed => exact failed input hturn
      | refilled next =>
          exact refilled input next hturn (ih _ (dec.turn_refilled_weight hturn) next rfl)
      | decoded next out hint =>
          by_cases hhint : hint = 0
          · subst hhint
            exact frameEnd input next out hturn
          · exact decoded input next out hint hturn hhint
              (ih _ (dec.turn_decoded_weight hturn hhint) next rfl)

/-! ## What a pass keeps -/

/-- What neither more input nor a call of the decoder changes. -/
structure Kept (holds : Lz4Input dec.Ctx → Prop) : Prop where
  refill : ∀ {input filled}, input.Refills filled → holds input → holds filled
  call : ∀ {input} (src : Bytes) (ctx : dec.Ctx), holds input → holds { input with src, ctx }

section Kept

variable {dec} {holds : Lz4Input dec.Ctx → Prop} {buffers : Lz4Buffers}
  {input next : Lz4Input dec.Ctx}

theorem Kept.fillEmpty (hkept : dec.Kept holds) {inBufSize : Nat} {filled : Lz4Input dec.Ctx}
    (hfill : dec.fillEmpty inBufSize input = some filled) (h : holds input) : holds filled := by
  rcases fillEmpty_eq_some hfill with rfl | hrefills
  · exact h
  · exact hkept.refill hrefills h

theorem Kept.refilled (hkept : dec.Kept holds) (hturn : dec.turn buffers input = .refilled next)
    (h : holds input) : holds next := by
  have hspec := dec.turn_spec buffers input
  rw [hturn] at hspec
  cases hspec with
  | @refilled filled step _ hfill _ _ _ _ happend =>
      have hfilled := hkept.fillEmpty hfill h
      exact hkept.refill (appendInput_eq_some happend) (hkept.call filled.src step.ctx hfilled)

theorem Kept.decoded (hkept : dec.Kept holds) {out : Bytes} {hint : Nat}
    (hturn : dec.turn buffers input = .decoded next out hint) (h : holds input) : holds next := by
  have hspec := dec.turn_spec buffers input
  rw [hturn] at hspec
  cases hspec with
  | decoded hfill => exact hkept.call _ _ (hkept.fillEmpty hfill h)

/-- It holds at both ends of a pass, and at one of them the member is used up. -/
theorem Kept.decodePass (hkept : dec.Kept holds) (buffers : Lz4Buffers) (h : holds input) :
    (∀ last, (dec.decodePass buffers input).ending = .frameEnd last → holds last) ∧
      ∀ last, (dec.decodePass buffers input).ending = .exhausted last →
        holds last ∧ last.remaining = 0 := by
  induction input using dec.pass_induction buffers with
  | exhausted input next hturn =>
      rw [decodePass_exhausted hturn]
      have hspec := dec.turn_spec buffers input
      rw [hturn] at hspec
      cases hspec with
      | exhausted _ hremaining =>
          refine ⟨by simp, fun last hlast => ?_⟩
          obtain rfl := PassEnd.exhausted.inj hlast
          exact ⟨h, hremaining⟩
  | failed input hturn =>
      rw [decodePass_failed hturn]
      exact ⟨by simp, by simp⟩
  | refilled input next hturn ih =>
      rw [decodePass_refilled hturn]
      exact ih (hkept.refilled hturn h)
  | frameEnd input next out hturn =>
      rw [decodePass_frameEnd hturn]
      refine ⟨fun last hlast => ?_, by simp⟩
      obtain rfl := PassEnd.frameEnd.inj hlast
      exact hkept.decoded hturn h
  | decoded input next out hint hturn hhint ih =>
      rw [decodePass_decoded hturn hhint]
      exact ih (hkept.decoded hturn h)

end Kept

/-! ## The size scan -/

section Scan

variable {dec} {buffers : Lz4Buffers} {input next : Lz4Input dec.Ctx} {out : Bytes} {hint : Nat}

theorem scanLoop_exhausted (h : dec.turn buffers input = .exhausted next) (total : Nat) :
    dec.scanLoop buffers input total = none := by
  rw [scanLoop]
  split <;> simp_all

theorem scanLoop_failed (h : dec.turn buffers input = .failed) (total : Nat) :
    dec.scanLoop buffers input total = none := by
  rw [scanLoop]
  split <;> simp_all

theorem scanLoop_refilled (h : dec.turn buffers input = .refilled next) (total : Nat) :
    dec.scanLoop buffers input total = dec.scanLoop buffers next total := by
  rw [scanLoop]
  split <;> simp_all

theorem scanLoop_decoded (h : dec.turn buffers input = .decoded next out hint) (total : Nat) :
    dec.scanLoop buffers input total =
      if out.length ≠ 0 ∧ 2 ^ 64 - 1 - out.length < total then none
      else if hint = 0 then some (total + out.length, next)
      else dec.scanLoop buffers next (total + out.length) := by
  rw [scanLoop]
  split <;> simp_all

end Scan

/-- The scan succeeds only where its pass ends with the frame, and counts what
the pass decodes. -/
theorem scanLoop_eq_some {buffers : Lz4Buffers} {input : Lz4Input dec.Ctx} {total size : Nat}
    {last : Lz4Input dec.Ctx} (h : dec.scanLoop buffers input total = some (size, last)) :
    (dec.decodePass buffers input).ending = .frameEnd last ∧
      size = total + (dec.decodePass buffers input).total := by
  induction input using dec.pass_induction buffers generalizing total with
  | exhausted input next hturn => simp [scanLoop_exhausted hturn] at h
  | failed input hturn => simp [scanLoop_failed hturn] at h
  | refilled input next hturn ih =>
      rw [scanLoop_refilled hturn] at h
      rw [dec.decodePass_refilled hturn]
      exact ih h
  | frameEnd input next out hturn =>
      rw [scanLoop_decoded hturn, if_pos rfl] at h
      rw [dec.decodePass_frameEnd hturn]
      split at h
      · simp at h
      · obtain ⟨rfl, rfl⟩ := Prod.mk.inj (Option.some.inj h)
        simp [Lz4Pass.total]
  | decoded input next out hint hturn hhint ih =>
      rw [scanLoop_decoded hturn, if_neg hhint] at h
      rw [dec.decodePass_decoded hturn hhint]
      split at h
      · simp at h
      · obtain ⟨hending, hsize⟩ := ih h
        refine ⟨hending, ?_⟩
        simp only [Lz4Pass.total, List.flatten_cons, List.length_append] at hsize ⊢
        omega

end Lz4Decoder

/-! ## The decoding loop -/

/-- The outputs that are sent, as an empty output makes no part. -/
def delivered (outs : List Bytes) : List Bytes := outs.filter fun out => !out.isEmpty

theorem flatten_delivered (outs : List Bytes) : (delivered outs).flatten = outs.flatten := by
  induction outs with
  | nil => rfl
  | cons out rest ih =>
      cases out with
      | nil => simpa [delivered] using ih
      | cons byte out => simpa [delivered] using ih

/-- Send each output in turn. -/
def sendOuts (largePartition doFlash : Bool) : List Bytes → (chunkIndex : UInt32) → Usb Bool
  | [], _ => return true
  | out :: rest, chunkIndex => do
      if !(← Lz4Decoder.sendOutput largePartition doFlash out chunkIndex) then return false
      sendOuts largePartition doFlash rest
        (if !out.isEmpty && doFlash then chunkIndex + 1 else chunkIndex)

theorem sendOuts_check (largePartition : Bool) (outs : List Bytes) (chunkIndex : UInt32) :
    sendOuts largePartition false outs chunkIndex = pure true := by
  induction outs generalizing chunkIndex with
  | nil => rfl
  | cons out rest ih =>
      simp only [sendOuts, Lz4Decoder.sendOutput, Bool.and_false, Bool.false_eq_true, ↓reduceIte,
        pure_bind, Bool.not_true]
      exact ih chunkIndex

theorem sendOuts_follows (largePartition : Bool) (outs : List Bytes) (chunkIndex s : UInt32) :
    Exchanges (sendOuts largePartition true outs chunkIndex)
      (Follows (fileParts chunkIndex (delivered outs)) s) := by
  induction outs generalizing chunkIndex s with
  | nil => exact conducts_pure follows_nil
  | cons out rest ih =>
      cases hempty : out.isEmpty with
      | true =>
          have hdelivered : delivered (out :: rest) = delivered rest := by simp [delivered, hempty]
          simp only [sendOuts, Lz4Decoder.sendOutput, hempty, Bool.not_true, Bool.false_and,
            Bool.false_eq_true, ↓reduceIte, pure_bind, hdelivered]
          exact ih chunkIndex s
      | false =>
          have hdelivered : delivered (out :: rest) = out :: delivered rest := by
            simp [delivered, hempty]
          simp only [sendOuts, Lz4Decoder.sendOutput, hempty, Bool.not_false, Bool.true_and,
            ↓reduceIte, hdelivered]
          refine conducts_unless (sendFilePartChunk_follows _ _ _ s) (fun xs hxs => ?_)
            fun xs hxs => ?_
          · exact hxs.stop
          · exact (ih (chunkIndex + 1) (after s xs)).mono fun ys ok hys => hxs.append hys

/-- The end of the decoding loop after a pass, when all its output was sent. -/
def Lz4Pass.finish {Ctx : Type} (pass : Lz4Pass Ctx) (total : Nat) : Option Lz4Decoder.DecodeEnd :=
  match pass.ending with
  | .failed => none
  | .exhausted input => some ⟨(total + pass.total) % 2 ^ 64, false, input.file⟩
  | .frameEnd input => some ⟨(total + pass.total) % 2 ^ 64, true, input.file⟩

theorem Lz4Pass.finish_cons {Ctx : Type} (out : Bytes) (rest : Lz4Pass Ctx) (total : Nat) :
    Lz4Pass.finish ⟨out :: rest.outs, rest.ending⟩ total =
      rest.finish ((total + out.length) % 2 ^ 64) := by
  have hsum : (total + (out :: rest.outs).flatten.length) % 2 ^ 64 =
      ((total + out.length) % 2 ^ 64 + rest.outs.flatten.length) % 2 ^ 64 := by
    rw [List.flatten_cons, List.length_append]
    omega
  cases hending : rest.ending <;> simp only [finish, hending, Lz4Pass.total, hsum]

/-- The decoding loop sends the output of its pass. -/
theorem Lz4Decoder.decodeLoop_eq (dec : Lz4Decoder) {buffers : Lz4Buffers}
    (largePartition doFlash : Bool) (input : Lz4Input dec.Ctx) {total : Nat}
    (htotal : total < 2 ^ 64) (chunkIndex : UInt32) :
    dec.decodeLoop buffers largePartition doFlash input total chunkIndex =
      (sendOuts largePartition doFlash (dec.decodePass buffers input).outs chunkIndex >>= fun ok =>
        if (!ok) = true then pure none
        else pure ((dec.decodePass buffers input).finish total)) := by
  induction input using dec.pass_induction buffers generalizing total chunkIndex with
  | exhausted input next hturn =>
      rw [decodeLoop, dec.decodePass_exhausted hturn]
      split <;> simp_all [sendOuts, Lz4Pass.finish, Lz4Pass.total, Nat.mod_eq_of_lt]
  | failed input hturn =>
      rw [decodeLoop, dec.decodePass_failed hturn]
      split <;> simp_all [sendOuts, Lz4Pass.finish]
  | refilled input next hturn ih =>
      rw [dec.decodePass_refilled hturn, ← ih htotal, decodeLoop]
      split <;> simp_all
  | frameEnd input next out hturn =>
      rw [decodeLoop, dec.decodePass_frameEnd hturn, sendOuts, bind_assoc]
      split <;> simp_all only [reduceCtorEq, Lz4Turn.decoded.injEq]
      obtain ⟨rfl, rfl, rfl⟩ := hturn
      refine bind_congr fun ok => ?_
      cases ok <;> simp [sendOuts, Lz4Pass.finish, Lz4Pass.total]
  | decoded input next out hint hturn hhint ih =>
      rw [decodeLoop, dec.decodePass_decoded hturn hhint, sendOuts, bind_assoc]
      split <;> simp_all only [reduceCtorEq, Lz4Turn.decoded.injEq]
      obtain ⟨rfl, rfl, rfl⟩ := hturn
      refine bind_congr fun ok => ?_
      cases ok with
      | false => simp
      | true =>
          simp only [Bool.not_true, Bool.false_eq_true, ↓reduceIte, ↓reduceDIte]
          rw [ih (Nat.mod_lt _ (by decide)), Lz4Pass.finish_cons]

/-! ## Members -/

/-- The packet that announces the size of a file. -/
def announcement (usb : UsbDevice) (totalSize : Nat) : Packet :=
  if usb.isOdinLegacy then .odin 0x64 0x02 (leBytes 8 totalSize)
  else .thor (.filePartSize (UInt64.ofNat totalSize))

theorem sendFilePartHeader_single (usb : UsbDevice) (totalSize : Nat) :
    Exchanges (sendFilePartHeader usb totalSize) (Single (announcement usb totalSize)) := by
  unfold sendFilePartHeader announcement
  split
  next => exact odinCheckedCommand_single (by simp [odinFrameSize]) rfl rfl
  next => exact thorExchangeFull_single rfl

section Members

variable (dec : Lz4Decoder) (file : FileStream) (compressedSize : Nat)

/-- The decoding pass over a member for which a plan was made. -/
def lz4DecodePass (plan : Lz4Plan dec.Ctx) : Lz4Pass dec.Ctx :=
  dec.decodePass (lz4Buffers compressedSize) ⟨plan.file, compressedSize, [], plan.ctx⟩

/-- The result of a member all of whose output was sent. -/
def lz4Result (plan : Lz4Plan dec.Ctx) : Option FileStream :=
  ((lz4DecodePass dec compressedSize plan).finish 0).bind
    (lz4Finish file.pos compressedSize plan.uncompressedSize)

variable (usb : UsbDevice) (largePartition : Bool)

/-- Behind the transfer only the pass decides. -/
theorem lz4Result_of_pass (plan : Lz4Plan dec.Ctx) (ok : Bool) :
    (do
      let some fin ← (if (!ok) = true then pure none
        else pure ((lz4DecodePass dec compressedSize plan).finish 0) : Usb _) | return none
      return lz4Finish file.pos compressedSize plan.uncompressedSize fin) =
      if (!ok) = true then pure none else pure (lz4Result dec file compressedSize plan) := by
  cases ok with
  | false => rfl
  | true =>
      simp only [Bool.not_true, Bool.false_eq_true, ↓reduceIte, pure_bind, lz4Result]
      cases (lz4DecodePass dec compressedSize plan).finish 0 <;> rfl

/-- With a plan, the announcement and the outputs are sent, and the result does
not depend on what happens to them. -/
theorem processLz4Streaming_planned {plan : Lz4Plan dec.Ctx} (doFlash : Bool)
    (hplan : lz4Plan dec file compressedSize = some plan) :
    processLz4Streaming dec file compressedSize usb largePartition doFlash = (do
      if doFlash then
        if !(← sendFilePartHeader usb plan.uncompressedSize) then return none
      if !(← sendOuts largePartition doFlash (lz4DecodePass dec compressedSize plan).outs 0) then
        return none
      return lz4Result dec file compressedSize plan) := by
  have hresult := lz4Result_of_pass dec file compressedSize plan
  unfold processLz4Streaming
  simp only [hplan, dec.decodeLoop_eq _ _ _ (Nat.two_pow_pos 64), bind_assoc]
  cases doFlash with
  | false =>
      simp only [Bool.false_eq_true, ↓reduceIte]
      exact bind_congr hresult
  | true =>
      simp only [↓reduceIte]
      refine bind_congr fun announced => ?_
      cases announced with
      | false => rfl
      | true => exact bind_congr hresult

theorem processLz4Streaming_unplanned (doFlash : Bool)
    (hplan : lz4Plan dec file compressedSize = none) :
    processLz4Streaming dec file compressedSize usb largePartition doFlash = pure none := by
  unfold processLz4Streaming
  rw [hplan]

/-- A check without flashing talks to no device. -/
theorem processLz4Streaming_check :
    processLz4Streaming dec file compressedSize usb largePartition false =
      pure ((lz4Plan dec file compressedSize).bind (lz4Result dec file compressedSize)) := by
  cases hplan : lz4Plan dec file compressedSize with
  | none => exact processLz4Streaming_unplanned dec file compressedSize usb largePartition false hplan
  | some plan =>
      rw [processLz4Streaming_planned dec file compressedSize usb largePartition false hplan]
      simp only [Bool.false_eq_true, ↓reduceIte, sendOuts_check, pure_bind, Bool.not_true,
        Option.bind_some]

/-- A flashed member: the announcement, then one part for each output. -/
theorem processLz4Streaming_follows {plan : Lz4Plan dec.Ctx}
    (hplan : lz4Plan dec file compressedSize = some plan) (s : UInt32) :
    Exchanges (processLz4Streaming dec file compressedSize usb largePartition true)
      fun xs result => ∃ ok,
        Follows (announcement usb plan.uncompressedSize ::
          fileParts 0 (delivered (lz4DecodePass dec compressedSize plan).outs)) s xs ok ∧
        result = if ok then lz4Result dec file compressedSize plan else none := by
  rw [processLz4Streaming_planned dec file compressedSize usb largePartition true hplan]
  simp only [↓reduceIte]
  refine conducts_unless (sendFilePartHeader_single usb _) (fun xs hxs => ?_) fun xs hxs => ?_
  · exact ⟨false, (hxs.follows s).stop, rfl⟩
  refine conducts_unless (sendOuts_follows largePartition _ 0 (after s xs)) (fun ys hys => ?_)
    fun ys hys => ?_
  · exact ⟨false, (hxs.follows s).append hys, rfl⟩
  · refine conducts_pure ⟨true, ?_, rfl⟩
    rw [List.append_nil]
    exact (hxs.follows s).append hys

end Members

end Odin4
