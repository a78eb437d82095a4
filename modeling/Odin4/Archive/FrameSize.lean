import Odin4.Archive.Delivery

/-!
# Declared sizes of LZ4 frames

A size that the frame header declares is compared with the output only after
the decoding pass, and then it is all that is compared. A frame that is cut
behind its last block is taken for a whole one, and a frame that holds more
than it declares is sent in full before it is rejected.
-/

namespace Odin4

open Interaction Program Dialogue

variable {dec : Lz4Decoder} {file : FileStream} {compressedSize : Nat}

/-- The member was used up before the end of the frame. -/
def Lz4Pass.exhausted {Ctx : Type} (pass : Lz4Pass Ctx) : Bool :=
  match pass.ending with
  | .exhausted _ => true
  | _ => false

/-! ## What a pass reads -/

/-- What has been read of a member and what is left of it. -/
structure Lz4Input.Within {Ctx : Type} (start : FileStream) (compressedSize : Nat)
    (input : Lz4Input Ctx) : Prop where
  file_eq : input.file.file = start.file
  pos_add : input.file.pos + input.remaining = start.pos + compressedSize
  pos_le : input.file.pos = start.pos ∨ input.file.pos ≤ start.file.bytes.length

theorem kept_within (start : FileStream) :
    dec.Kept fun input => input.Within start compressedSize where
  refill := by
    rintro input _ ⟨count, hcount, hsome, rfl⟩ ⟨hfile, hadd, hle⟩
    have hdata := input.file.length_read_le count
    refine ⟨(FileStream.read_file count).trans hfile, ?_, .inr ?_⟩
    · simp only [Lz4Input.refill, FileStream.read_pos]
      omega
    · have hlength := input.file.length_read_le_rest count
      have hpos := List.length_pos_iff.mpr hsome
      rw [FileStream.length_rest, hfile] at hlength
      simp only [Lz4Input.refill, FileStream.read_pos]
      omega
  call _ _ h := ⟨h.file_eq, h.pos_add, h.pos_le⟩

/-! ## Members that are cut -/

/-- The header declares a size, and the member ends before the end of the frame
with exactly that many bytes decoded. -/
def CutAtSize (dec : Lz4Decoder) (file : FileStream) (compressedSize : Nat) : Prop :=
  ∃ plan size, lz4Plan dec file compressedSize = some plan ∧
    declaredSize dec file compressedSize = some size ∧ size ≠ 0 ∧
    (lz4DecodePass dec compressedSize plan).exhausted = true ∧
    (lz4DecodePass dec compressedSize plan).total % 2 ^ 64 = size.toNat

/-- Only an exhausted pass passes for a whole frame without being one. -/
theorem exhausted_of_result {plan : Lz4Plan dec.Ctx} {file' : FileStream}
    (hresult : lz4Result dec file compressedSize plan = some file')
    (hended : (lz4DecodePass dec compressedSize plan).frameEnded = false) :
    (lz4DecodePass dec compressedSize plan).exhausted = true := by
  obtain ⟨fin, hfin, -⟩ := Option.bind_eq_some_iff.mp hresult
  unfold Lz4Pass.finish at hfin
  unfold Lz4Pass.frameEnded at hended
  unfold Lz4Pass.exhausted
  cases hending : (lz4DecodePass dec compressedSize plan).ending with
  | failed => simp [hending] at hfin
  | exhausted last => rfl
  | frameEnd last => simp [hending] at hended

/-- A member that is cut behind the declared number of bytes is accepted. -/
theorem lz4Result_of_exhausted {plan : Lz4Plan dec.Ctx}
    (hplan : lz4Plan dec file compressedSize = some plan)
    (hexhausted : (lz4DecodePass dec compressedSize plan).exhausted = true)
    (htotal : (lz4DecodePass dec compressedSize plan).total % 2 ^ 64 = plan.uncompressedSize)
    (hsize : plan.uncompressedSize ≠ 0) :
    ∃ file', lz4Result dec file compressedSize plan = some file' := by
  have hpos : 0 < compressedSize := by
    by_contra hzero
    obtain rfl : compressedSize = 0 := by omega
    have hempty : lz4DecodePass dec 0 plan = ⟨[], .exhausted ⟨plan.file, 0, [], plan.ctx⟩⟩ :=
      Lz4Decoder.decodePass_exhausted rfl
    rw [hempty] at htotal
    exact hsize htotal.symm
  have hfile := (lz4Plan_sound hplan).file_eq hpos
  unfold Lz4Pass.exhausted at hexhausted
  cases hending : (lz4DecodePass dec compressedSize plan).ending with
  | failed => simp [hending] at hexhausted
  | frameEnd last => simp [hending] at hexhausted
  | exhausted last =>
      have hstart : Lz4Input.Within file compressedSize
          (⟨plan.file, compressedSize, [], plan.ctx⟩ : Lz4Input dec.Ctx) :=
        ⟨by rw [hfile], by rw [hfile], .inl (by rw [hfile])⟩
      obtain ⟨hwithin, hremaining⟩ := ((kept_within file).decodePass _ hstart).2 last hending
      have hrange : file.pos + compressedSize < 2 ^ 63 := by
        have hadd := hwithin.pos_add
        have hlimit := file.file.size_lt
        obtain hle | hle := hwithin.pos_le <;> omega
      have hgood : ((last.file.clear.seekg file.pos).seekCur (toStreamoff compressedSize)).failed =
          false := by
        have hback : last.file.clear.seekg file.pos = ⟨last.file.file, file.pos, false⟩ :=
          FileStream.seekg_nat rfl (by omega)
        rw [hback, FileStream.toStreamoff_of_lt (by omega), FileStream.seekCur_nat
          (rfl : (⟨last.file.file, file.pos, false⟩ : FileStream).failed = false) hrange]
        rfl
      have hfinish : (lz4DecodePass dec compressedSize plan).finish 0 = some
          ⟨plan.uncompressedSize, false, last.file⟩ := by
        rw [Lz4Pass.finish, hending, Nat.zero_add, htotal]
      have hlimit : ¬ streamoffMax < compressedSize := by
        simp only [streamoffMax]
        omega
      refine ⟨(last.file.clear.seekg file.pos).seekCur (toStreamoff compressedSize), ?_⟩
      simp only [lz4Result, hfinish, Option.bind_some, lz4Finish, hlimit, ↓reduceIte, hgood,
        Bool.false_eq_true, ne_eq, not_true_eq_false, and_false]

/-- A check or a transfer of a member has an execution with its result. -/
theorem processLz4Streaming_executes {plan : Lz4Plan dec.Ctx}
    (hplan : lz4Plan dec file compressedSize = some plan) (usb : UsbDevice)
    (largePartition doFlash : Bool) :
    ∃ trace, (processLz4Streaming dec file compressedSize usb largePartition doFlash).Executes trace
      (lz4Result dec file compressedSize plan) := by
  cases doFlash with
  | true =>
      obtain ⟨xs, result, hexec, -, rfl⟩ := processLz4Streaming_accepts hplan usb largePartition 0
      exact ⟨_, hexec⟩
  | false =>
      rw [processLz4Streaming_check, hplan]
      exact ⟨[], rfl, rfl⟩

/-- The result of a member is that of its pass. -/
theorem processLz4Streaming_result {usb : UsbDevice} {largePartition doFlash : Bool}
    {trace : UsbTrace} {file' : FileStream}
    (h : (processLz4Streaming dec file compressedSize usb largePartition doFlash).Executes trace
      (some file')) :
    ∃ plan, lz4Plan dec file compressedSize = some plan ∧
      lz4Result dec file compressedSize plan = some file' := by
  cases hplan : lz4Plan dec file compressedSize with
  | none =>
      rw [processLz4Streaming_unplanned _ _ _ _ _ _ hplan] at h
      simp at h
  | some plan =>
      refine ⟨plan, rfl, ?_⟩
      cases doFlash with
      | true =>
          obtain ⟨xs, -, ok, -, hresult⟩ :=
            processLz4Streaming_follows dec file compressedSize usb largePartition hplan 0 _ _ h
          cases ok with
          | false => simp at hresult
          | true => exact hresult.symm
      | false =>
          rw [processLz4Streaming_check, hplan] at h
          exact h.2.symm

/-- Success means a complete frame, unless the member is cut behind the declared
number of bytes. -/
theorem frameEnded_iff (dec : Lz4Decoder) (file : FileStream) (compressedSize : Nat)
    (usb : UsbDevice) (largePartition doFlash : Bool) :
    (∀ trace file', (processLz4Streaming dec file compressedSize usb largePartition
        doFlash).Executes trace (some file') →
      ∃ plan, lz4Plan dec file compressedSize = some plan ∧
        (lz4DecodePass dec compressedSize plan).frameEnded = true) ↔
    ¬ CutAtSize dec file compressedSize := by
  constructor
  · rintro h ⟨plan, size, hplan, hdeclared, hnonzero, hexhausted, htotal⟩
    have hannounced : plan.uncompressedSize = size.toNat := by
      obtain ⟨size', hdeclared', ⟨-, hsize⟩ | ⟨hzero, -⟩⟩ := (lz4Plan_sound hplan).size_eq
      · rw [hsize, Option.some.inj (hdeclared'.symm.trans hdeclared)]
      · exact absurd ((Option.some.inj (hdeclared.symm.trans hdeclared')).trans hzero) hnonzero
    rw [← hannounced] at htotal
    have hne : plan.uncompressedSize ≠ 0 := by
      rw [hannounced]
      exact fun hzero => hnonzero (UInt64.toNat_inj.mp hzero)
    obtain ⟨file', hresult⟩ := lz4Result_of_exhausted hplan hexhausted htotal hne
    obtain ⟨trace, hexec⟩ := processLz4Streaming_executes hplan usb largePartition doFlash
    rw [hresult] at hexec
    obtain ⟨plan', hplan', hended⟩ := h trace file' hexec
    obtain rfl := Option.some.inj (hplan.symm.trans hplan')
    unfold Lz4Pass.exhausted at hexhausted
    unfold Lz4Pass.frameEnded at hended
    cases hending : (lz4DecodePass dec compressedSize plan).ending <;> simp_all
  · intro hcut trace file' hexec
    obtain ⟨plan, hplan, hresult⟩ := processLz4Streaming_result hexec
    refine ⟨plan, hplan, ?_⟩
    by_contra hended
    rw [Bool.not_eq_true] at hended
    obtain ⟨size, hdeclared, ⟨hnonzero, hsize⟩ | ⟨-, hrehearsed, -⟩⟩ := (lz4Plan_sound hplan).size_eq
    · refine hcut ⟨plan, size, hplan, hdeclared, hnonzero, exhausted_of_result hresult hended, ?_⟩
      rw [lz4Result_total hplan hresult, hsize]
    · exact Bool.false_ne_true (hended.symm.trans hrehearsed)

/-! ## A cut frame -/

/-- A frame that declares `size` bytes, stores two and is cut before its end mark. -/
def cutFrame (size : Nat) : FileStream :=
  FileStream.openFile ⟨frameHeader size ++ storedBlock [7, 9], by
    simp [frameHeader, storedBlock]⟩

/-- The plan for a declared size. -/
def cutPlan (size : Nat) : Lz4Plan storedFrames.Ctx := ⟨size, storedMachine.start, cutFrame size⟩

/-- Where a pass over the frame ends. -/
def cutEnd (size : Nat) : Lz4Input storedFrames.Ctx :=
  ⟨(cutFrame size).advance 21, 0, [], ⟨.blockHeader [], size, 65536, 2⟩⟩

theorem cutPass_of_turn {size : Nat}
    (hturn : storedFrames.turn (lz4Buffers 21) ⟨cutFrame size, 21, [], storedMachine.start⟩ =
      .decoded (cutEnd size) [7, 9] 1) :
    lz4DecodePass storedFrames 21 (cutPlan size) = ⟨[[7, 9]], .exhausted (cutEnd size)⟩ := by
  have hend : storedFrames.decodePass (lz4Buffers 21) (cutEnd size) =
      ⟨[], .exhausted (cutEnd size)⟩ := Lz4Decoder.decodePass_exhausted rfl
  rw [lz4DecodePass]
  exact (Lz4Decoder.decodePass_decoded hturn Nat.one_ne_zero).trans (by rw [hend])

/-- A frame without its end mark is taken for a whole one. -/
theorem cut_frame_accepted :
    ¬ ∀ (dec : Lz4Decoder) (file : FileStream) (compressedSize : Nat) (usb : UsbDevice)
      (largePartition doFlash : Bool) (trace : UsbTrace) (file' : FileStream),
      (processLz4Streaming dec file compressedSize usb largePartition doFlash).Executes trace
        (some file') →
      ∃ plan, lz4Plan dec file compressedSize = some plan ∧
        (lz4DecodePass dec compressedSize plan).frameEnded = true := by
  intro h
  have hplan : lz4Plan storedFrames (cutFrame 2) 21 = some (cutPlan 2) := rfl
  have hpass := cutPass_of_turn (by decide +kernel : storedFrames.turn (lz4Buffers 21)
    ⟨cutFrame 2, 21, [], storedMachine.start⟩ = .decoded (cutEnd 2) [7, 9] 1)
  obtain ⟨file', hresult⟩ := lz4Result_of_exhausted hplan (by rw [hpass]; rfl)
    (by rw [hpass]; decide) two_ne_zero
  obtain ⟨trace, hexec⟩ := processLz4Streaming_executes hplan {} false true
  rw [hresult] at hexec
  obtain ⟨plan, hplan', hended⟩ := h _ _ _ _ _ _ trace file' hexec
  obtain rfl := Option.some.inj (hplan.symm.trans hplan')
  rw [hpass] at hended
  exact Bool.false_ne_true hended

/-! ## Frames that hold more than they declare -/

/-- Number of data bytes among some packets. -/
def payloadBytes : List Packet → Nat
  | [] => 0
  | .data bytes :: rest => bytes.length + payloadBytes rest
  | _ :: rest => payloadBytes rest

theorem payloadBytes_append (first second : List Packet) :
    payloadBytes (first ++ second) = payloadBytes first + payloadBytes second := by
  induction first with
  | nil => simp [payloadBytes]
  | cons packet rest ih =>
      cases packet <;> simp only [List.cons_append, payloadBytes, ih]
      omega

theorem payloadBytes_prefix {first whole : List Packet} (h : first <+: whole) :
    payloadBytes first ≤ payloadBytes whole := by
  obtain ⟨rest, rfl⟩ := h
  rw [payloadBytes_append]
  omega

theorem payloadBytes_fileParts (index : UInt32) (payloads : List Bytes) :
    payloadBytes (fileParts index payloads) = payloads.flatten.length := by
  induction payloads generalizing index with
  | nil => rfl
  | cons payload rest ih =>
      simp only [fileParts, payloadBytes, ih, List.flatten_cons, List.length_append]

theorem not_mem_fileParts (index : UInt32) (payloads : List Bytes) (size : UInt64) :
    .thor (.filePartSize size) ∉ fileParts index payloads := by
  induction payloads generalizing index with
  | nil => simp [fileParts]
  | cons payload rest ih => simp [fileParts, ih]

/-- Where the header declares a size, the member decodes to at most that much. -/
def WithinDeclared (dec : Lz4Decoder) (file : FileStream) (compressedSize : Nat) : Prop :=
  ∀ plan size, lz4Plan dec file compressedSize = some plan →
    declaredSize dec file compressedSize = some size → size ≠ 0 →
    (lz4DecodePass dec compressedSize plan).total ≤ size.toNat

/-- At no moment has more been sent than was announced, if and only if the
member does not hold more than it declares. -/
theorem sent_le_announced_iff (dec : Lz4Decoder) (file : FileStream) (compressedSize : Nat)
    {usb : UsbDevice} (hthor : usb.protocolMode = .thor) (largePartition : Bool) :
    (∀ trace result, (processLz4Streaming dec file compressedSize usb largePartition
        true).Executes trace result →
      ∀ sofar size, sofar <+: sent trace → .thor (.filePartSize size) ∈ sofar →
        payloadBytes sofar ≤ size.toNat) ↔
    WithinDeclared dec file compressedSize := by
  have hannounce : ∀ totalSize, announcement usb totalSize =
      .thor (.filePartSize (UInt64.ofNat totalSize)) := by
    simp [announcement, UsbDevice.isOdinLegacy, hthor]
  constructor
  · intro h plan size hplan hdeclared hnonzero
    obtain ⟨xs, result, hexec, hfollows, -⟩ :=
      processLz4Streaming_accepts hplan usb largePartition 0
    have hmessages := hfollows.completed.2
    have hsize : size = UInt64.ofNat plan.uncompressedSize := by
      obtain ⟨size', hdeclared', ⟨-, hsize⟩ | ⟨hzero, -⟩⟩ := (lz4Plan_sound hplan).size_eq
      · rw [hsize, UInt64.ofNat_toNat, Option.some.inj (hdeclared.symm.trans hdeclared')]
      · exact absurd ((Option.some.inj (hdeclared.symm.trans hdeclared')).trans hzero) hnonzero
    have hbound := h _ _ hexec _ size List.prefix_rfl (by
      rw [sent_exchanges, hmessages, hannounce, hsize]
      exact List.mem_cons_self)
    rwa [sent_exchanges, hmessages, hannounce, payloadBytes, payloadBytes_fileParts,
      flatten_delivered] at hbound
    simp
  · intro hwithin trace result hexec sofar size hinit hmem
    cases hplan : lz4Plan dec file compressedSize with
    | none =>
        rw [processLz4Streaming_unplanned _ _ _ _ _ _ hplan] at hexec
        obtain ⟨rfl, -⟩ := hexec
        simp only [sent_nil, List.prefix_nil] at hinit
        simp [hinit] at hmem
    | some plan =>
        obtain ⟨xs, rfl, ok, hfollows, -⟩ :=
          processLz4Streaming_follows dec file compressedSize usb largePartition hplan 0 _ _ hexec
        rw [sent_exchanges] at hinit
        have hscript := hinit.trans hfollows.messages_prefix
        rw [hannounce] at hscript
        have hbytes := payloadBytes_prefix hscript
        rw [payloadBytes, payloadBytes_fileParts, flatten_delivered] at hbytes
        · have hsize : size = UInt64.ofNat plan.uncompressedSize := by
            simpa [not_mem_fileParts] using hscript.subset hmem
          have hsound := lz4Plan_sound hplan
          have htoNat : size.toNat = plan.uncompressedSize := by
            rw [hsize, UInt64.toNat_ofNat', Nat.mod_eq_of_lt hsound.size_lt]
          -- A declared size is announced as it is. Otherwise the announced size was counted.
          obtain ⟨declared, hdeclared, ⟨hnonzero, heq⟩ | ⟨-, -, hrehearsed⟩⟩ := hsound.size_eq
          · have hle := hwithin plan declared hplan hdeclared hnonzero
            exact hbytes.trans (hle.trans (by rw [htoNat, heq]))
          · rw [htoNat, ← hrehearsed]
            exact hbytes
        · simp

/-- A frame that holds the two bytes that it declares. -/
theorem sent_le_announced_iff_cutFrame :
    WithinDeclared storedFrames (cutFrame 2) 21 ∧
    ∀ trace result, (processLz4Streaming storedFrames (cutFrame 2) 21 {} false true).Executes trace
        result →
      ∀ sofar size, sofar <+: sent trace → .thor (.filePartSize size) ∈ sofar →
        payloadBytes sofar ≤ size.toNat := by
  have hplan : lz4Plan storedFrames (cutFrame 2) 21 = some (cutPlan 2) := rfl
  have hpass := cutPass_of_turn (by decide +kernel : storedFrames.turn (lz4Buffers 21)
    ⟨cutFrame 2, 21, [], storedMachine.start⟩ = .decoded (cutEnd 2) [7, 9] 1)
  have hwithin : WithinDeclared storedFrames (cutFrame 2) 21 := by
    intro plan size hplan' hdeclared _
    obtain rfl := Option.some.inj (hplan.symm.trans hplan')
    have hsize : declaredSize storedFrames (cutFrame 2) 21 = some 2 := by decide +kernel
    obtain rfl := Option.some.inj (hsize.symm.trans hdeclared)
    rw [hpass]
    decide
  exact ⟨hwithin, (sent_le_announced_iff storedFrames (cutFrame 2) 21
    (rfl : ({} : UsbDevice).protocolMode = .thor) false).mpr hwithin⟩

/-- A frame that declares one byte makes the program send two. -/
theorem more_sent_than_announced :
    ¬ ∀ (dec : Lz4Decoder) (file : FileStream) (compressedSize : Nat) (usb : UsbDevice),
      usb.protocolMode = .thor → ∀ (largePartition : Bool) (trace : UsbTrace)
      (result : Option FileStream),
      (processLz4Streaming dec file compressedSize usb largePartition true).Executes trace result →
      ∀ sofar size, sofar <+: sent trace → .thor (.filePartSize size) ∈ sofar →
        payloadBytes sofar ≤ size.toNat := by
  intro h
  have hplan : lz4Plan storedFrames (cutFrame 1) 21 = some (cutPlan 1) := rfl
  have hpass := cutPass_of_turn (by decide +kernel : storedFrames.turn (lz4Buffers 21)
    ⟨cutFrame 1, 21, [], storedMachine.start⟩ = .decoded (cutEnd 1) [7, 9] 1)
  obtain ⟨xs, result, hexec, hfollows, -⟩ := processLz4Streaming_accepts hplan {} false 0
  have hsent : sent (xs.flatMap Exchange.events) =
      [.thor (.filePartSize 1), .thor (.filePart 0 2), .data [7, 9]] := by
    rw [sent_exchanges, hfollows.completed.2, hpass]
    decide
  have hbound := h _ _ _ {} rfl false _ result hexec _ 1 List.prefix_rfl (by rw [hsent]; simp)
  rw [hsent] at hbound
  exact absurd hbound (by decide)

end Odin4
