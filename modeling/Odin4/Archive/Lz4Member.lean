import Odin4.Archive.Lz4Pass

/-!
# LZ4 members

What a pass over a member delivers, in terms of the bytes of the member, and
what is known of a member before its decoding pass. The decoder is assumed to
be a deterministic stream transducer; the input buffer, its refills and the
calls that make no progress then leave no trace in the output.
-/

namespace Odin4

open Interaction Program Dialogue

namespace Lz4Decoder

variable (dec : Lz4Decoder)

/-! ## A pass and the bytes of the member -/

/-- The state of a pass over the bytes `entry` that has produced `produced`:
what the decoder has taken, what is in the buffer and what is left of the
member make up the entry. -/
structure Feeding (content : Bytes → Bytes) (entry : Bytes) (input : Lz4Input dec.Ctx)
    (produced : Bytes) : Prop where
  fed : ∃ taken, dec.Fed input.ctx taken produced ∧
    taken ++ input.src ++ input.file.rest.take input.remaining = entry
  sound : input.file.Sound
  initial : produced <+: content entry

section Feeding

variable {dec} {content : Bytes → Bytes} {entry produced : Bytes} {input filled : Lz4Input dec.Ctx}

/-- Moving bytes from the file to the end of the buffer. -/
theorem Feeding.refill (h : dec.Feeding content entry input produced)
    (hfilled : input.Refills filled) : dec.Feeding content entry filled produced := by
  obtain ⟨count, hcount, -, rfl⟩ := hfilled
  obtain ⟨⟨taken, hfed, hentry⟩, hsound, hinitial⟩ := h
  obtain ⟨hdata, hrest, hsound'⟩ := hsound.read count
  refine ⟨⟨taken, hfed, ?_⟩, hsound', hinitial⟩
  rw [← hentry, Lz4Input.refill]
  dsimp only
  rw [hdata, hrest, List.append_assoc, List.append_assoc, List.append_assoc]
  congr 2
  rw [List.length_take]
  rcases Nat.le_total count input.file.rest.length with hle | hle
  · rw [Nat.min_eq_left hle, ← List.take_add]
    congr 1
    omega
  · rw [List.drop_eq_nil_of_le hle, List.take_nil, List.append_nil, List.take_of_length_le hle,
      List.take_of_length_le (hle.trans hcount)]

theorem Feeding.fillEmpty {inBufSize : Nat} (h : dec.Feeding content entry input produced)
    (hfill : dec.fillEmpty inBufSize input = some filled) :
    dec.Feeding content entry filled produced := by
  rcases fillEmpty_eq_some hfill with rfl | hrefills
  · exact h
  · exact h.refill hrefills

/-- One call of the decoder. -/
theorem Feeding.decompress (hdec : dec.DecodesTo content)
    (h : dec.Feeding content entry input produced) {capacity : Nat} {step : DecodeStep dec.Ctx}
    (hstep : dec.decompress input.ctx capacity input.src = some step) :
    produced ++ step.out <+: content entry ∧
      (step.hint = 0 → produced ++ step.out = content entry) ∧
      (step.hint ≠ 0 → dec.Feeding content entry
        { input with src := input.src.drop step.consumed, ctx := step.ctx }
        (produced ++ step.out)) := by
  obtain ⟨⟨taken, hfed, hentry⟩, hsound, -⟩ := h
  obtain ⟨hinit, hwhole⟩ := hdec entry hfed hstep ⟨_, hentry⟩
  refine ⟨hinit, hwhole, fun hhint => ⟨⟨_, .step hfed hstep hhint, ?_⟩, hsound, hinit⟩⟩
  rw [← hentry, List.append_assoc taken, List.take_append_drop]

/-- What a pass produces is the content of the member as far as it goes. -/
theorem decodePass_content (hdec : dec.DecodesTo content) (buffers : Lz4Buffers)
    (h : dec.Feeding content entry input produced) :
    produced ++ (dec.decodePass buffers input).outs.flatten <+: content entry ∧
      ∀ last, (dec.decodePass buffers input).ending = .frameEnd last →
        produced ++ (dec.decodePass buffers input).outs.flatten = content entry := by
  induction input using dec.pass_induction buffers generalizing produced with
  | exhausted input next hturn =>
      rw [dec.decodePass_exhausted hturn]
      exact ⟨by simpa using h.initial, by simp⟩
  | failed input hturn =>
      rw [dec.decodePass_failed hturn]
      exact ⟨by simpa using h.initial, by simp⟩
  | refilled input next hturn ih =>
      rw [dec.decodePass_refilled hturn]
      have hspec := dec.turn_spec buffers input
      rw [hturn] at hspec
      cases hspec with
      | refilled hfill hstep hconsumed hout hhint happend =>
          have hcalled := ((h.fillEmpty hfill).decompress hdec hstep).2.2 hhint
          rw [hconsumed, List.drop_zero, hout, List.append_nil] at hcalled
          exact ih (hcalled.refill (appendInput_eq_some happend))
  | frameEnd input next out hturn =>
      rw [dec.decodePass_frameEnd hturn]
      have hspec := dec.turn_spec buffers input
      rw [hturn] at hspec
      generalize hzero : 0 = hint at hspec
      cases hspec with
      | decoded hfill hstep =>
          obtain ⟨hinit, hwhole, -⟩ := (h.fillEmpty hfill).decompress hdec hstep
          simp only [List.flatten_cons, List.flatten_nil, List.append_nil]
          exact ⟨hinit, fun _ _ => hwhole hzero.symm⟩
  | decoded input next out hint hturn hhint ih =>
      rw [dec.decodePass_decoded hturn hhint]
      have hspec := dec.turn_spec buffers input
      rw [hturn] at hspec
      cases hspec with
      | decoded hfill hstep =>
          have hcalled := ((h.fillEmpty hfill).decompress hdec hstep).2.2 hhint
          have hrest := ih hcalled
          simpa only [List.flatten_cons, List.append_assoc] using hrest

end Feeding

/-! ## What a pass keeps -/

section Bounds

variable {dec} {buffers : Lz4Buffers} {input next : Lz4Input dec.Ctx}

theorem kept_file (file : FileContent) :
    dec.Kept fun input : Lz4Input dec.Ctx => input.file.file = file where
  refill := by
    rintro input _ ⟨count, -, -, rfl⟩ h
    exact (FileStream.read_file count).trans h
  call _ _ h := h

/-- A pass stays in its file. -/
theorem decodePass_file {last : Lz4Input dec.Ctx}
    (h : (dec.decodePass buffers input).ending = .frameEnd last ∨
      (dec.decodePass buffers input).ending = .exhausted last) :
    last.file.file = input.file.file := by
  obtain ⟨hframe, hexhausted⟩ := (kept_file input.file.file).decodePass buffers rfl
  rcases h with h | h
  · exact hframe last h
  · exact (hexhausted last h).1

theorem turn_decoded_le {out : Bytes} {hint : Nat}
    (h : dec.turn buffers input = .decoded next out hint) : out.length ≤ buffers.outBufSize := by
  have hspec := dec.turn_spec buffers input
  rw [h] at hspec
  cases hspec with
  | decoded _ hstep => exact dec.out_le hstep

/-- Every output fits the output buffer. -/
theorem decodePass_outs_le (input : Lz4Input dec.Ctx) :
    ∀ out ∈ (dec.decodePass buffers input).outs, out.length ≤ buffers.outBufSize := by
  induction input using dec.pass_induction buffers with
  | exhausted input next hturn => simp [dec.decodePass_exhausted hturn]
  | failed input hturn => simp [dec.decodePass_failed hturn]
  | refilled input next hturn ih =>
      rw [dec.decodePass_refilled hturn]
      exact ih
  | frameEnd input next out hturn =>
      rw [dec.decodePass_frameEnd hturn]
      exact List.forall_mem_singleton.mpr (turn_decoded_le hturn)
  | decoded input next out hint hturn hhint ih =>
      rw [dec.decodePass_decoded hturn hhint]
      exact List.forall_mem_cons.mpr ⟨turn_decoded_le hturn, ih⟩

/-- The scan gives up before its counter overflows. -/
theorem scanLoop_counts (hbuffers : buffers.outBufSize < 2 ^ 64) {total : Nat} {out : Bytes}
    {hint : Nat} {result : Nat × Lz4Input dec.Ctx} (htotal : total < 2 ^ 64)
    (hturn : dec.turn buffers input = .decoded next out hint)
    (h : dec.scanLoop buffers input total = some result) :
    total + out.length < 2 ^ 64 ∧
      (hint = 0 → result = (total + out.length, next)) ∧
      (hint ≠ 0 → dec.scanLoop buffers next (total + out.length) = some result) := by
  have hout := turn_decoded_le hturn
  rw [scanLoop_decoded hturn] at h
  split at h
  next => simp at h
  next hguard =>
    refine ⟨?_, fun hhint => ?_, fun hhint => ?_⟩
    · by_cases hzero : out.length = 0
      · omega
      · have := not_and.mp hguard hzero
        omega
    · rw [if_pos hhint] at h
      exact (Option.some.inj h).symm
    · rwa [if_neg hhint] at h

theorem scanLoop_lt (hbuffers : buffers.outBufSize < 2 ^ 64) {total size : Nat}
    {last : Lz4Input dec.Ctx} (htotal : total < 2 ^ 64)
    (h : dec.scanLoop buffers input total = some (size, last)) : size < 2 ^ 64 := by
  induction input using dec.pass_induction buffers generalizing total with
  | exhausted input next hturn => simp [scanLoop_exhausted hturn] at h
  | failed input hturn => simp [scanLoop_failed hturn] at h
  | refilled input next hturn ih =>
      rw [scanLoop_refilled hturn] at h
      exact ih htotal h
  | frameEnd input next out hturn =>
      obtain ⟨hcount, hend, -⟩ := scanLoop_counts hbuffers htotal hturn h
      obtain ⟨rfl, -⟩ := Prod.mk.inj (hend rfl)
      exact hcount
  | decoded input next out hint hturn hhint ih =>
      obtain ⟨hcount, -, hnext⟩ := scanLoop_counts hbuffers htotal hturn h
      exact ih hcount (hnext hhint)

end Bounds

end Lz4Decoder

/-! ## What is known before the decoding pass -/

theorem lz4Buffers_outBufSize_le (compressedSize : Nat) :
    (lz4Buffers compressedSize).outBufSize ≤ 2 ^ 24 := by
  unfold lz4Buffers
  split <;> simp

/-- The content size that the frame header at the position of the file declares;
zero stands for a header without one. -/
def declaredSize (dec : Lz4Decoder) (file : FileStream) (compressedSize : Nat) : Option UInt64 := do
  let dctx ← dec.create
  let (_, frameInfo) ← dec.getFrameInfo dctx (file.read (lz4HeaderReadSize compressedSize)).1
  return frameInfo.contentSize

/-- The decoder reported the end of the frame. -/
def Lz4Pass.frameEnded {Ctx : Type} (pass : Lz4Pass Ctx) : Bool :=
  match pass.ending with
  | .frameEnd _ => true
  | _ => false

theorem Lz4Pass.finish_eq_some {Ctx : Type} {pass : Lz4Pass Ctx} {total : Nat}
    {fin : Lz4Decoder.DecodeEnd} (h : pass.finish total = some fin) :
    fin.total = (total + pass.total) % 2 ^ 64 ∧ fin.frameEnded = pass.frameEnded := by
  unfold finish at h
  cases hending : pass.ending with
  | failed => simp [hending] at h
  | exhausted last =>
      obtain rfl : _ = fin := by simpa only [hending, Option.some.injEq] using h
      exact ⟨rfl, by simp only [frameEnded, hending]⟩
  | frameEnd last =>
      obtain rfl : _ = fin := by simpa only [hending, Option.some.injEq] using h
      exact ⟨rfl, by simp only [frameEnded, hending]⟩

/-- What a plan says about the member. -/
structure Lz4Plan.Sound (dec : Lz4Decoder) (file : FileStream) (compressedSize : Nat)
    (plan : Lz4Plan dec.Ctx) : Prop where
  create_eq : dec.create = some plan.ctx
  file_sound : plan.file.Sound
  file_rest : plan.file.rest = file.rest
  file_eq : 0 < compressedSize → plan.file = file
  size_lt : plan.uncompressedSize < 2 ^ 64
  /-- The announced size is the declared one, or else the pass was rehearsed. -/
  size_eq : ∃ size, declaredSize dec file compressedSize = some size ∧
    (size ≠ 0 ∧ plan.uncompressedSize = size.toNat ∨
      size = 0 ∧ (lz4DecodePass dec compressedSize plan).frameEnded = true ∧
        (lz4DecodePass dec compressedSize plan).total = plan.uncompressedSize)

/-- Going back to where a stream was before a read that was served in full. -/
theorem rewound {file : FileStream} (hok : file.failed = false) {count : Nat}
    (hcount : (file.read count).1.length = count) :
    ((file.read count).2.seekg file.pos).rest = file.rest ∧
      ((file.read count).2.seekg file.pos).Sound ∧
      (0 < count → (file.read count).2.seekg file.pos = file) := by
  have hle : count ≤ file.rest.length := by
    simp only [FileStream.read, hok, Bool.false_eq_true, ↓reduceIte, List.length_take] at hcount
    omega
  rw [FileStream.read_of_le hok hle]
  have hsize := file.file.size_lt
  by_cases hpos : file.pos < 2 ^ 63
  · rw [FileStream.seekg_nat (by simpa using hok) hpos]
    exact ⟨rfl, FileStream.sound_of_good (by simpa using hok), fun _ => rfl⟩
  · have hbeyond : ¬ ((0 : Int) ≤ file.pos ∧ (file.pos : Int) ≤ streamoffMax) := by
      simp only [streamoffMax]
      omega
    simp only [FileStream.seekg, FileStream.advance_failed, hok, Bool.false_eq_true, ↓reduceIte,
      hbeyond]
    have hempty : ∀ pos, file.file.bytes.length ≤ pos → file.file.bytes.drop pos = [] :=
      fun _ => List.drop_eq_nil_of_le
    refine ⟨?_, fun _ => ?_, fun hpositive => ?_⟩
    · exact (hempty _ (by simp only [FileStream.advance_pos]; omega)).trans
        (hempty _ (by omega)).symm
    · exact hempty _ (by simp only [FileStream.advance_pos]; omega)
    · rw [FileStream.length_rest] at hle
      omega

/-- A successful scan leaves the stream where it was. -/
theorem scanUncompressedSize_eq_some {dec : Lz4Decoder} {buffers : Lz4Buffers}
    {file file' : FileStream} {compressedSize size : Nat}
    (h : dec.scanUncompressedSize buffers file compressedSize = some (size, file')) :
    file' = file ∧ ∃ ctx last, dec.create = some ctx ∧
      dec.scanLoop buffers ⟨file, compressedSize, [], ctx⟩ 0 = some (size, last) := by
  simp only [Lz4Decoder.scanUncompressedSize, Option.bind_eq_bind, Option.bind_eq_some_iff] at h
  obtain ⟨ctx, hcreate, start, hstart, ⟨total, last⟩, hscan, h⟩ := h
  have hkept := Lz4Decoder.decodePass_file (.inl (dec.scanLoop_eq_some hscan).1)
  obtain ⟨hok, rfl⟩ : file.failed = false ∧ file.pos = start := by
    simpa [FileStream.tellg] using hstart
  obtain ⟨hsize, hfile⟩ : total = size ∧ last.file.clear.seekg file.pos = file' ∧
      file'.failed = false := by
    dsimp only at h
    split at h
    · split at h
      · simp at h
      split at h
      · simp at h
      split at h
      · simp at h
      · simp_all
    · split at h
      · simp at h
      · simp_all
  subst hsize
  refine ⟨?_, ctx, last, hcreate, hscan⟩
  obtain ⟨rfl, hgood⟩ := hfile
  exact FileStream.clear_seekg_pos hok hkept hgood

theorem lz4Plan_sound {dec : Lz4Decoder} {file : FileStream} {compressedSize : Nat}
    {plan : Lz4Plan dec.Ctx} (h : lz4Plan dec file compressedSize = some plan) :
    plan.Sound dec file compressedSize := by
  simp only [lz4Plan, Option.bind_eq_bind, Option.bind_eq_some_iff] at h
  obtain ⟨start, hstart, fresh, hcreate, h⟩ := h
  obtain ⟨hok, rfl⟩ : file.failed = false ∧ file.pos = start := by
    simpa [FileStream.tellg] using hstart
  split at h
  · simp at h
  next hfull =>
    obtain ⟨hrest, hsound, hsame⟩ := rewound hok (not_not.mp hfull)
    have hback : 0 < compressedSize → (file.read (lz4HeaderReadSize compressedSize)).2.seekg
        file.pos = file := fun hpos => hsame (by simp only [lz4HeaderReadSize]; omega)
    simp only [Option.bind_eq_some_iff] at h
    obtain ⟨⟨dctx, info⟩, hinfo, hsize⟩ := h
    have hdeclared : declaredSize dec file compressedSize = some info.contentSize := by
      simp only [declaredSize, hcreate, Option.bind_eq_bind, Option.bind_some, hinfo]
      rfl
    have hctx : dec.create = some (dec.reset dctx) := by rw [dec.reset_eq hcreate dctx, hcreate]
    dsimp only at hsize
    split at hsize
    next hzero =>
      obtain ⟨⟨size, file'⟩, hscan, hplan⟩ := Option.bind_eq_some_iff.mp hsize
      obtain rfl := Option.some.inj hplan
      obtain ⟨rfl, ctx, last, hcreate', hscan⟩ := scanUncompressedSize_eq_some hscan
      obtain rfl : ctx = dec.reset dctx := Option.some.inj (hcreate'.symm.trans hctx)
      have hbuffers := lz4Buffers_outBufSize_le compressedSize
      obtain ⟨hending, htotal⟩ := dec.scanLoop_eq_some hscan
      refine ⟨hctx, hsound, hrest, hback, ?_, _, hdeclared, .inr ⟨hzero, ?_, ?_⟩⟩
      · exact Lz4Decoder.scanLoop_lt (by omega) (by decide) hscan
      · simp only [Lz4Pass.frameEnded, lz4DecodePass, hending]
      · simp only [htotal, lz4DecodePass, Nat.zero_add]
    next hnonzero =>
      obtain rfl := Option.some.inj hsize
      exact ⟨hctx, hsound, hrest, hback, info.contentSize.toNat_lt, _, hdeclared,
        .inl ⟨hnonzero, rfl⟩⟩

/-! ## Behind a member -/

theorem lz4Plan_file {dec : Lz4Decoder} {file : FileStream} {compressedSize : Nat}
    {plan : Lz4Plan dec.Ctx} (h : lz4Plan dec file compressedSize = some plan) :
    plan.file.file = file.file := by
  simp only [lz4Plan, Option.bind_eq_bind, Option.bind_eq_some_iff] at h
  obtain ⟨start, -, fresh, -, h⟩ := h
  split at h
  · simp at h
  obtain ⟨⟨dctx, info⟩, -, h⟩ := Option.bind_eq_some_iff.mp h
  dsimp only at h
  have hback : ((file.read (lz4HeaderReadSize compressedSize)).2.seekg start).file = file.file := by
    rw [FileStream.seekg_file, FileStream.read_file]
  split at h
  next =>
    obtain ⟨⟨size, file'⟩, hscan, hplan⟩ := Option.bind_eq_some_iff.mp h
    obtain rfl := Option.some.inj hplan
    rw [(scanUncompressedSize_eq_some hscan).1]
    exact hback
  next =>
    obtain rfl := Option.some.inj h
    exact hback

/-- Only where the position can be told is a plan made. -/
theorem lz4Plan_good {dec : Lz4Decoder} {file : FileStream} {compressedSize : Nat}
    {plan : Lz4Plan dec.Ctx} (h : lz4Plan dec file compressedSize = some plan) :
    file.failed = false := by
  simp only [lz4Plan, Option.bind_eq_bind, Option.bind_eq_some_iff] at h
  obtain ⟨start, hstart, -⟩ := h
  have hgood : file.failed = false ∧ file.pos = start := by simpa [FileStream.tellg] using hstart
  exact hgood.1

/-- However far the decoder has read, a member is left at its end. -/
theorem lz4Result_file {dec : Lz4Decoder} {file file' : FileStream} {compressedSize : Nat}
    {plan : Lz4Plan dec.Ctx} (hok : file.failed = false)
    (hplan : lz4Plan dec file compressedSize = some plan)
    (hresult : lz4Result dec file compressedSize plan = some file') :
    file'.failed = false ∧ file' = file.advance compressedSize := by
  obtain ⟨fin, hfin, hfinish⟩ := Option.bind_eq_some_iff.mp hresult
  have hkept : fin.file.file = file.file := by
    rw [← lz4Plan_file hplan]
    unfold Lz4Pass.finish lz4DecodePass at hfin
    split at hfin
    next => simp at hfin
    next last hlast =>
      rw [← Option.some.inj hfin]
      exact Lz4Decoder.decodePass_file (.inr hlast)
    next last hlast =>
      rw [← Option.some.inj hfin]
      exact Lz4Decoder.decodePass_file (.inl hlast)
  unfold lz4Finish at hfinish
  split at hfinish
  · simp at hfinish
  next hsize =>
    dsimp only at hfinish
    have hlt : compressedSize < 2 ^ 63 := by
      simp only [streamoffMax] at hsize
      omega
    rw [FileStream.toStreamoff_of_lt hlt] at hfinish
    split at hfinish
    · simp at hfinish
    next hgood =>
      have hgood : ((fin.file.clear.seekg file.pos).seekCur compressedSize).failed = false := by
        simpa using hgood
      split at hfinish
      · simp at hfinish
      · obtain rfl := Option.some.inj hfinish
        obtain ⟨hback, -, hmoved⟩ := FileStream.seekCur_good hgood
        refine ⟨hgood, ?_⟩
        rw [hmoved, FileStream.clear_seekg_pos hok hkept hback]

end Odin4
