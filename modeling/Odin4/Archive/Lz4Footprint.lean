import Odin4.Archive.Lz4Member
import Odin4.Foundation.FileWindow

/-!
# What an LZ4 member reads

The decode loop, the rehearsal of it and the look at the frame header read
nothing but the bytes of the member, although they prefetch and seek. From two
files with the same member the streaming is the same program, wherever the
member stands in them.
-/

namespace Odin4

open Interaction Program Dialogue

/-! ## Inputs and passes -/

section Passes

variable {Ctx : Type}

def Lz4Input.on (input : Lz4Input Ctx) (file : FileContent) : Lz4Input Ctx :=
  { input with file := input.file.on file }

def Lz4Input.advance (input : Lz4Input Ctx) (count : Nat) : Lz4Input Ctx :=
  { input with file := input.file.advance count }

/-- What is left of the member in the file. -/
def Lz4Input.ahead (input : Lz4Input Ctx) : Set Nat := input.file.ahead input.remaining

/-- Further on in the same member. -/
structure Lz4Input.Moved (input next : Lz4Input Ctx) : Prop where
  file_eq : next.file.file = input.file.file
  ahead_le : next.ahead ⊆ input.ahead

theorem Lz4Input.moved_refl (input : Lz4Input Ctx) : input.Moved input := ⟨rfl, subset_rfl⟩

theorem Lz4Input.Moved.agree {input next : Lz4Input Ctx} {file : FileContent} {shift : Nat}
    (h : input.Moved next) (hagree : AgreeAlong shift input.ahead input.file.file file) :
    AgreeAlong shift next.ahead next.file.file file := by
  rw [h.file_eq]
  exact hagree.mono h.ahead_le

/-- What is left of the member does not go beyond its end. -/
theorem Lz4Input.Moved.end_le {input next : Lz4Input Ctx} (h : input.Moved next)
    (hpos : 0 < next.remaining) :
    next.file.pos + next.remaining ≤ input.file.pos + input.remaining := by
  have hwithin := h.ahead_le
  simp only [Lz4Input.ahead, FileStream.ahead] at hwithin
  exact ((Set.Ico_subset_Ico_iff (by omega)).mp hwithin).2

def Lz4Turn.on (turn : Lz4Turn Ctx) (file : FileContent) : Lz4Turn Ctx :=
  match turn with
  | .exhausted input => .exhausted (input.on file)
  | .failed => .failed
  | .refilled input => .refilled (input.on file)
  | .decoded input out hint => .decoded (input.on file) out hint

def Lz4Turn.advance (turn : Lz4Turn Ctx) (count : Nat) : Lz4Turn Ctx :=
  match turn with
  | .exhausted input => .exhausted (input.advance count)
  | .failed => .failed
  | .refilled input => .refilled (input.advance count)
  | .decoded input out hint => .decoded (input.advance count) out hint

def PassEnd.on (ending : PassEnd Ctx) (file : FileContent) : PassEnd Ctx :=
  match ending with
  | .frameEnd input => .frameEnd (input.on file)
  | .exhausted input => .exhausted (input.on file)
  | .failed => .failed

def PassEnd.advance (ending : PassEnd Ctx) (count : Nat) : PassEnd Ctx :=
  match ending with
  | .frameEnd input => .frameEnd (input.advance count)
  | .exhausted input => .exhausted (input.advance count)
  | .failed => .failed

def Lz4Pass.on (pass : Lz4Pass Ctx) (file : FileContent) : Lz4Pass Ctx :=
  { pass with ending := pass.ending.on file }

def Lz4Pass.advance (pass : Lz4Pass Ctx) (count : Nat) : Lz4Pass Ctx :=
  { pass with ending := pass.ending.advance count }

end Passes

/-! ## The loops -/

namespace Lz4Decoder

variable {dec : Lz4Decoder} {buffers : Lz4Buffers} {input filled next : Lz4Input dec.Ctx}
  {file : FileContent} {inBufSize : Nat} (shift : Nat)

theorem kept_moved (start : Lz4Input dec.Ctx) : dec.Kept start.Moved where
  refill := by
    rintro input _ ⟨count, hcount, -, rfl⟩ h
    have hlength := input.file.length_read_le count
    refine ⟨(FileStream.read_file count).trans h.file_eq, subset_trans ?_ h.ahead_le⟩
    simp only [Lz4Input.ahead, FileStream.ahead, Lz4Input.refill, FileStream.read_pos]
    exact Set.Ico_subset_Ico (by omega) (by omega)
  call _ _ h := ⟨h.file_eq, h.ahead_le⟩

theorem fillEmpty_over (h : AgreeAlong shift input.ahead input.file.file file) :
    dec.fillEmpty inBufSize ((input.advance shift).on file) =
      (dec.fillEmpty inBufSize input).map fun filled => (filled.advance shift).on file := by
  have hread := FileStream.read_over shift
    (h.mono (FileStream.ahead_mono (Nat.min_le_right inBufSize _)))
  unfold fillEmpty
  by_cases hempty : input.src.isEmpty = true
  · rw [if_pos hempty,
      if_pos (show ((input.advance shift).on file).src.isEmpty = true from hempty)]
    simp only [Lz4Input.on, Lz4Input.advance, hread]
    split <;> rfl
  · rw [if_neg hempty,
      if_neg (show ¬ ((input.advance shift).on file).src.isEmpty = true from hempty)]
    rfl

theorem appendInput_over (h : AgreeAlong shift input.ahead input.file.file file) :
    dec.appendInput inBufSize ((input.advance shift).on file) =
      (dec.appendInput inBufSize input).map fun filled => (filled.advance shift).on file := by
  have hread := FileStream.read_over shift
    (h.mono (FileStream.ahead_mono (Nat.min_le_right (inBufSize - input.src.length) _)))
  unfold appendInput
  simp only [Lz4Input.on, Lz4Input.advance, hread]
  split
  next => rfl
  split
  next => rfl
  split <;> rfl

theorem turn_over (buffers : Lz4Buffers) (h : AgreeAlong shift input.ahead input.file.file file) :
    dec.turn buffers ((input.advance shift).on file) =
      ((dec.turn buffers input).advance shift).on file := by
  unfold turn
  by_cases hdone : (input.src.isEmpty && input.remaining == 0) = true
  · rw [if_pos hdone, if_pos (show (((input.advance shift).on file).src.isEmpty &&
      ((input.advance shift).on file).remaining == 0) = true from hdone)]
    rfl
  rw [if_neg hdone, if_neg (show ¬ (((input.advance shift).on file).src.isEmpty &&
    ((input.advance shift).on file).remaining == 0) = true from hdone), fillEmpty_over shift h]
  cases hfill : dec.fillEmpty buffers.inBufSize input with
  | none => rfl
  | some filled =>
      have hfilled := ((kept_moved input).fillEmpty hfill input.moved_refl).agree h
      dsimp only [Option.map_some, Lz4Input.on, Lz4Input.advance]
      cases dec.decompress filled.ctx buffers.outBufSize filled.src with
      | none => rfl
      | some step =>
          dsimp only
          split
          next =>
            have happend : dec.appendInput buffers.inBufSize
                (({ filled with ctx := step.ctx } : Lz4Input dec.Ctx).advance shift |>.on file) = _ :=
              appendInput_over shift hfilled
            dsimp only [Lz4Input.on, Lz4Input.advance] at happend
            rw [happend]
            cases dec.appendInput buffers.inBufSize { filled with ctx := step.ctx } <;> rfl
          next => rfl

theorem decodePass_over (buffers : Lz4Buffers) (h : AgreeAlong shift input.ahead input.file.file file) :
    dec.decodePass buffers ((input.advance shift).on file) =
      ((dec.decodePass buffers input).advance shift).on file := by
  induction input using dec.pass_induction buffers with
  | exhausted input next hturn =>
      have hother := turn_over shift buffers h
      rw [hturn] at hother
      rw [dec.decodePass_exhausted hturn, dec.decodePass_exhausted hother]
      rfl
  | failed input hturn =>
      have hother := turn_over shift buffers h
      rw [hturn] at hother
      rw [dec.decodePass_failed hturn, dec.decodePass_failed hother]
      rfl
  | refilled input next hturn ih =>
      have hother := turn_over shift buffers h
      rw [hturn] at hother
      rw [dec.decodePass_refilled hturn, dec.decodePass_refilled hother]
      exact ih (((kept_moved input).refilled hturn input.moved_refl).agree h)
  | frameEnd input next out hturn =>
      have hother := turn_over shift buffers h
      rw [hturn] at hother
      rw [dec.decodePass_frameEnd hturn, dec.decodePass_frameEnd hother]
      rfl
  | decoded input next out hint hturn hhint ih =>
      have hother := turn_over shift buffers h
      rw [hturn] at hother
      rw [dec.decodePass_decoded hturn hhint, dec.decodePass_decoded hother hhint,
        ih (((kept_moved input).decoded hturn input.moved_refl).agree h)]
      rfl

theorem scanLoop_over (buffers : Lz4Buffers) (h : AgreeAlong shift input.ahead input.file.file file)
    (total : Nat) :
    dec.scanLoop buffers ((input.advance shift).on file) total =
      (dec.scanLoop buffers input total).map
        fun scanned => (scanned.1, (scanned.2.advance shift).on file) := by
  induction input using dec.pass_induction buffers generalizing total with
  | exhausted input next hturn =>
      have hother := turn_over shift buffers h
      rw [hturn] at hother
      rw [scanLoop_exhausted hturn, scanLoop_exhausted hother]
      rfl
  | failed input hturn =>
      have hother := turn_over shift buffers h
      rw [hturn] at hother
      rw [scanLoop_failed hturn, scanLoop_failed hother]
      rfl
  | refilled input next hturn ih =>
      have hother := turn_over shift buffers h
      rw [hturn] at hother
      rw [scanLoop_refilled hturn, scanLoop_refilled hother]
      exact ih (((kept_moved input).refilled hturn input.moved_refl).agree h) total
  | frameEnd input next out hturn =>
      have hother := turn_over shift buffers h
      rw [hturn] at hother
      rw [scanLoop_decoded hturn, scanLoop_decoded hother, if_pos rfl, if_pos rfl]
      split <;> rfl
  | decoded input next out hint hturn hhint ih =>
      have hother := turn_over shift buffers h
      rw [hturn] at hother
      rw [scanLoop_decoded hturn, scanLoop_decoded hother, if_neg hhint, if_neg hhint,
        ih (((kept_moved input).decoded hturn input.moved_refl).agree h)]
      split <;> rfl

theorem scanUncompressedSize_over (buffers : Lz4Buffers) {stream : FileStream}
    {compressedSize : Nat}
    (h : AgreeAlong shift (stream.ahead compressedSize) stream.file file)
    (hroom : Room shift (stream.pos + compressedSize)) :
    dec.scanUncompressedSize buffers ((stream.advance shift).on file) compressedSize =
      (dec.scanUncompressedSize buffers stream compressedSize).map
        fun scanned => (scanned.1, (scanned.2.advance shift).on file) := by
  unfold scanUncompressedSize
  cases dec.create with
  | none => rfl
  | some ctx =>
      rw [FileStream.on_tellg, FileStream.advance_tellg]
      cases htell : stream.tellg with
      | none => rfl
      | some start =>
          obtain ⟨-, rfl⟩ : stream.failed = false ∧ stream.pos = start := by
            simpa [FileStream.tellg] using htell
          let input : Lz4Input dec.Ctx := ⟨stream, compressedSize, [], ctx⟩
          have hinput : AgreeAlong shift input.ahead input.file.file file := h
          have hscan := scanLoop_over shift buffers hinput 0
          simp only [Option.bind_eq_bind, Option.bind_some, Option.map_some]
          change (dec.scanLoop buffers ((input.advance shift).on file) 0).bind _ =
            ((dec.scanLoop buffers input 0).bind _).map _
          rw [hscan]
          cases hresult : dec.scanLoop buffers input 0 with
          | none => rfl
          | some scanned =>
              obtain ⟨total, last⟩ := scanned
              have hmoved := ((kept_moved input).decodePass buffers input.moved_refl).1 last
                (dec.scanLoop_eq_some hresult).1
              -- Behind the scan the stream is put back to where it began.
              have hback : ((last.file.advance shift).on file).clear.seekg
                  (stream.pos + shift : Nat) = _ :=
                FileStream.rewind_over hroom (Nat.le_add_right stream.pos compressedSize)
              simp only [Option.map_some, Option.bind_some, Lz4Input.on, Lz4Input.advance, hback,
                FileStream.on_failed, FileStream.advance_failed]
              by_cases hleft : 0 < last.remaining
              · by_cases hlarge : streamoffMax < last.remaining
                · simp only [hleft, hlarge, ↓reduceIte, Option.bind_none, Option.map_none]
                · have hskip := FileStream.advance_seekOff hroom (fun _ => hmoved.end_le hleft)
                    hlarge
                  simp only [hleft, hlarge, ↓reduceIte, FileStream.on_seekCur, hskip,
                    FileStream.on_failed, FileStream.advance_failed, apply_ite (Option.map _),
                    Option.bind_none, Option.map_none]
                  rfl
              · simp only [hleft, ↓reduceIte, apply_ite (Option.map _)]
                rfl

end Lz4Decoder

/-! ## Members -/

section Members

variable {dec : Lz4Decoder} {stream : FileStream} {compressedSize : Nat} {file : FileContent}
  (shift : Nat)

def Lz4Plan.on {Ctx : Type} (plan : Lz4Plan Ctx) (file : FileContent) : Lz4Plan Ctx :=
  { plan with file := plan.file.on file }

def Lz4Plan.advance {Ctx : Type} (plan : Lz4Plan Ctx) (count : Nat) : Lz4Plan Ctx :=
  { plan with file := plan.file.advance count }

/-- Nothing is ahead of an empty member. -/
theorem agreeAlong_nothing {stream : FileStream} {first second : FileContent} :
    AgreeAlong shift (stream.ahead 0) first second := by
  intro i hi
  simp [FileStream.ahead] at hi

/-- Behind the look at the frame header the stream stands where it stood. -/
theorem rewound_pos (hok : stream.failed = false) {count : Nat}
    (hcount : (stream.read count).1.length = count) :
    ((stream.read count).2.seekg stream.pos).pos = stream.pos := by
  rcases Nat.eq_zero_or_pos count with rfl | hpos
  · rw [FileStream.read_of_le hok (Nat.zero_le _), FileStream.advance_zero]
    unfold FileStream.seekg
    split
    next => rfl
    next => split <;> simp
  · rw [(rewound hok hcount).2.2 hpos]

/-- An empty member leaves nothing to agree on; otherwise the stream is back. -/
theorem agreeAlong_rewound (h : AgreeAlong shift (stream.ahead compressedSize) stream.file file)
    (hok : stream.failed = false)
    (hfull : (stream.read (lz4HeaderReadSize compressedSize)).1.length =
      lz4HeaderReadSize compressedSize) :
    AgreeAlong shift (((stream.read (lz4HeaderReadSize compressedSize)).2.seekg
        stream.pos).ahead compressedSize)
      ((stream.read (lz4HeaderReadSize compressedSize)).2.seekg stream.pos).file file := by
  rcases Nat.eq_zero_or_pos compressedSize with rfl | hpositive
  · exact agreeAlong_nothing shift
  · rw [(rewound hok hfull).2.2 (by simp only [lz4HeaderReadSize]; omega)]
    exact h

/-- The frame header is read, and the stream goes back. -/
theorem lz4Plan_over (h : AgreeAlong shift (stream.ahead compressedSize) stream.file file)
    (hroom : Room shift (stream.pos + compressedSize)) :
    lz4Plan dec ((stream.advance shift).on file) compressedSize =
      (lz4Plan dec stream compressedSize).map fun plan => (plan.advance shift).on file := by
  have hheader : lz4HeaderReadSize compressedSize ≤ compressedSize := Nat.min_le_right _ _
  have hread := FileStream.read_over shift (h.mono (FileStream.ahead_mono hheader))
  unfold lz4Plan
  rw [FileStream.on_tellg, FileStream.advance_tellg]
  cases htell : stream.tellg with
  | none => rfl
  | some start =>
      obtain ⟨hok, rfl⟩ : stream.failed = false ∧ stream.pos = start := by
        simpa [FileStream.tellg] using htell
      cases hcreate : dec.create with
      | none => rfl
      | some ctx =>
          simp only [Option.bind_eq_bind, Option.bind_some, Option.map_some, hread]
          split
          next => rfl
          next hfull =>
            have hfull := not_not.mp hfull
            rw [FileStream.on_seekg,
              FileStream.advance_seekg (hroom.lt (Nat.le_add_right stream.pos compressedSize))]
            have hpos := rewound_pos hok hfull
            have hback := agreeAlong_rewound shift h hok hfull
            rw [← hpos] at hroom
            cases dec.getFrameInfo ctx (stream.read (lz4HeaderReadSize compressedSize)).1 with
            | none => rfl
            | some known =>
                simp only [Option.bind_some]
                split
                next =>
                  rw [Lz4Decoder.scanUncompressedSize_over shift (lz4Buffers compressedSize) hback
                    hroom]
                  cases dec.scanUncompressedSize (lz4Buffers compressedSize)
                    ((stream.read (lz4HeaderReadSize compressedSize)).2.seekg stream.pos)
                      compressedSize <;> rfl
                next => rfl

variable {shift} in
theorem lz4Plan_agree {plan : Lz4Plan dec.Ctx}
    (hplan : lz4Plan dec stream compressedSize = some plan)
    (h : AgreeAlong shift (stream.ahead compressedSize) stream.file file) :
    AgreeAlong shift (plan.file.ahead compressedSize) plan.file.file file := by
  rcases Nat.eq_zero_or_pos compressedSize with rfl | hpos
  · exact agreeAlong_nothing shift
  · rwa [(lz4Plan_sound hplan).file_eq hpos]

theorem lz4DecodePass_over {plan : Lz4Plan dec.Ctx}
    (h : AgreeAlong shift (plan.file.ahead compressedSize) plan.file.file file) :
    lz4DecodePass dec compressedSize ((plan.advance shift).on file) =
      ((lz4DecodePass dec compressedSize plan).advance shift).on file := by
  let input : Lz4Input dec.Ctx := ⟨plan.file, compressedSize, [], plan.ctx⟩
  have hinput : AgreeAlong shift input.ahead input.file.file file := h
  exact Lz4Decoder.decodePass_over shift (lz4Buffers compressedSize) hinput

variable {shift} in
/-- Wherever the decoder has stopped, the stream goes to the end of the member. -/
theorem lz4Finish_over {start uncompressedSize : Nat} (hroom : Room shift (start + compressedSize))
    (fin : Lz4Decoder.DecodeEnd) :
    lz4Finish (start + shift) compressedSize uncompressedSize
        { fin with file := (fin.file.advance shift).on file } =
      (lz4Finish start compressedSize uncompressedSize fin).map
        fun behind => (behind.advance shift).on file := by
  unfold lz4Finish
  by_cases hlarge : streamoffMax < compressedSize
  · rw [if_pos hlarge, if_pos hlarge]
    rfl
  · have hend : ((fin.file.clear.advance shift).seekg (start + shift : Nat)).seekCur
        (toStreamoff compressedSize) =
          ((fin.file.clear.seekg start).seekCur (toStreamoff compressedSize)).advance shift := by
      rw [FileStream.advance_seekg (hroom.lt (Nat.le_add_right _ _)),
        FileStream.advance_seekOff hroom _ hlarge]
      intro hgood
      rw [FileStream.seekg_pos hgood]
    rw [if_neg hlarge, if_neg hlarge]
    simp only [FileStream.on_clear, FileStream.on_seekg, FileStream.on_seekCur,
      FileStream.advance_clear, hend, FileStream.on_failed, FileStream.advance_failed,
      apply_ite (Option.map _), Option.map_none, Option.map_some]

variable {shift} in
theorem lz4Result_over {plan : Lz4Plan dec.Ctx}
    (h : AgreeAlong shift (plan.file.ahead compressedSize) plan.file.file file)
    (hroom : Room shift (stream.pos + compressedSize)) :
    lz4Result dec ((stream.advance shift).on file) compressedSize ((plan.advance shift).on file) =
      (lz4Result dec stream compressedSize plan).map fun behind => (behind.advance shift).on file := by
  unfold lz4Result
  rw [lz4DecodePass_over shift h]
  unfold Lz4Pass.finish Lz4Pass.on Lz4Pass.advance
  cases (lz4DecodePass dec compressedSize plan).ending with
  | failed => rfl
  | exhausted last =>
      exact lz4Finish_over hroom
        ⟨(0 + (lz4DecodePass dec compressedSize plan).total) % 2 ^ 64, false, last.file⟩
  | frameEnd last =>
      exact lz4Finish_over hroom
        ⟨(0 + (lz4DecodePass dec compressedSize plan).total) % 2 ^ 64, true, last.file⟩

/-- Whether a member is accepted depends on its bytes. -/
theorem lz4Check_on (h : AgreeOn (stream.ahead compressedSize) stream.file file) :
    (lz4Plan dec (stream.on file) compressedSize).bind
        (lz4Result dec (stream.on file) compressedSize) =
      ((lz4Plan dec stream compressedSize).bind (lz4Result dec stream compressedSize)).map
        (·.on file) := by
  have hplanOn : lz4Plan dec (stream.on file) compressedSize = _ :=
    lz4Plan_over 0 h (room_zero _)
  rw [hplanOn]
  cases hplan : lz4Plan dec stream compressedSize with
  | none => rfl
  | some plan => exact lz4Result_over (lz4Plan_agree hplan h) (room_zero _)

variable (usb : UsbDevice) (largePartition doFlash : Bool)

theorem processLz4Streaming_over
    (h : AgreeAlong shift (stream.ahead compressedSize) stream.file file)
    (hroom : Room shift (stream.pos + compressedSize)) :
    processLz4Streaming dec ((stream.advance shift).on file) compressedSize usb largePartition
        doFlash =
      Option.map (fun behind => (behind.advance shift).on file) <$>
        processLz4Streaming dec stream compressedSize usb largePartition doFlash := by
  have hplanOver : lz4Plan dec _ compressedSize = _ := lz4Plan_over shift h hroom
  cases hplan : lz4Plan dec stream compressedSize with
  | none =>
      rw [hplan] at hplanOver
      rw [processLz4Streaming_unplanned _ _ _ _ _ _ hplan,
        processLz4Streaming_unplanned _ _ _ _ _ _ hplanOver, map_pure]
      rfl
  | some plan =>
      rw [hplan] at hplanOver
      have hagree := lz4Plan_agree hplan h
      have hrest : ∀ ok : Bool, (if (!ok) = true then pure none else
          pure (lz4Result dec ((stream.advance shift).on file) compressedSize
            ((plan.advance shift).on file)) : Usb _) =
            Option.map (fun behind => (behind.advance shift).on file) <$>
              if (!ok) = true then pure none else
                pure (lz4Result dec stream compressedSize plan) := by
        intro ok
        rw [lz4Result_over hagree hroom]
        cases ok <;> rfl
      rw [processLz4Streaming_planned _ _ _ _ _ _ hplan,
        processLz4Streaming_planned _ _ _ _ _ _ hplanOver, lz4DecodePass_over shift hagree]
      cases doFlash with
      | false =>
          simp only [Bool.false_eq_true, ↓reduceIte, map_bind]
          exact bind_congr hrest
      | true =>
          simp only [↓reduceIte, map_bind]
          refine bind_congr fun announced => ?_
          cases announced with
          | false => rfl
          | true =>
              simp only [Bool.not_true, Bool.false_eq_true, ↓reduceIte, map_bind]
              exact bind_congr hrest

end Members

end Odin4
