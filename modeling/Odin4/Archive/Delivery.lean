import Odin4.Archive.Lz4Member
import Odin4.Archive.StoredFrames
import Odin4.Usb.Accepting

/-!
# What is announced and what is delivered

A Thor transfer announces a size and then sends numbered parts. When it
succeeds the parts carry exactly the announced number of bytes, and these are
the bytes of the image or the decoded bytes of the LZ4 member.
-/

namespace Odin4

open Interaction Program Dialogue

/-! ## Complete transfers -/

def Packet.isFilePart : Packet → Bool
  | thor (.filePart ..) => true
  | _ => false

/-- The announcement of one part of a file and its data, for part number `index`. -/
def partPair (payload : Bytes) (index : Nat) : List Packet :=
  [.thor (.filePart (UInt32.ofNat index) (UInt32.ofNat payload.length)), .data payload]

/-- The packets announce a size once and deliver it in parts numbered from zero.
All the numbers fit their fields. -/
structure Delivered (packets : List Packet) (size : Nat) (payloads : List Bytes) : Prop where
  packets_eq : packets = .thor (.filePartSize (UInt64.ofNat size)) ::
    payloads.zipIdx.flatMap fun part => partPair part.1 part.2
  size_lt : size < 2 ^ 64
  count_lt : payloads.length < 2 ^ 32
  length_lt : ∀ payload ∈ payloads, payload.length < 2 ^ 32
  total_eq : payloads.flatten.length = size

theorem fileParts_eq (payloads : List Bytes) (index : Nat) :
    fileParts (UInt32.ofNat index) payloads =
      (payloads.zipIdx index).flatMap fun part => partPair part.1 part.2 := by
  induction payloads generalizing index with
  | nil => rfl
  | cons payload rest ih =>
      have hnext : UInt32.ofNat index + 1 = UInt32.ofNat (index + 1) := by
        rw [UInt32.ofNat_add]
        rfl
      rw [fileParts, hnext, ih, List.zipIdx_cons, List.flatMap_cons]
      rfl

theorem countP_fileParts (index : UInt32) (payloads : List Bytes) :
    (fileParts index payloads).countP Packet.isFilePart = payloads.length := by
  induction payloads generalizing index with
  | nil => rfl
  | cons payload rest ih =>
      rw [fileParts, List.countP_cons_of_pos rfl, List.countP_cons_of_neg (by simp [Packet.isFilePart]),
        ih, List.length_cons]

theorem delivered_of_script {packets : List Packet} {size : Nat} {payloads : List Bytes}
    (hpackets : packets = .thor (.filePartSize (UInt64.ofNat size)) :: fileParts 0 payloads)
    (hsize : size < 2 ^ 64) (hparts : packets.countP Packet.isFilePart < 2 ^ 32)
    (hlengths : ∀ payload ∈ payloads, payload.length ≤ 2 ^ 24)
    (htotal : payloads.flatten.length = size) : Delivered packets size payloads where
  packets_eq := hpackets.trans (congrArg _ (fileParts_eq payloads 0))
  size_lt := hsize
  count_lt := by
    rwa [hpackets, List.countP_cons_of_neg (by simp [Packet.isFilePart]), countP_fileParts] at hparts
  length_lt payload hmem := by
    have := hlengths payload hmem
    omega
  total_eq := htotal

/-! ## Raw images -/

/-- What a completed exchange script sent. -/
theorem sent_of_completed {script : List Packet} {s : UInt32} {xs : List Exchange}
    (h : Follows script s xs true) : sent (xs.flatMap Exchange.events) = script := by
  rw [sent_exchanges, h.completed.2]

theorem flashPartitionStream_delivers {usb : UsbDevice} (hthor : usb.protocolMode = .thor)
    {stream stream' : FileStream} {size : Nat} {pitEntry : PitEntry} {largePartition : Bool}
    {trace : UsbTrace}
    (h : (flashPartitionStream usb stream size pitEntry largePartition).Executes trace
      (true, stream')) (hparts : (sent trace).countP Packet.isFilePart < 2 ^ 32) :
    ∃ payloads, Delivered (sent trace) size payloads ∧
      payloads.flatten = stream.rest.take size := by
  have hmode : usb.isOdinLegacy = false := by simp [UsbDevice.isOdinLegacy, hthor]
  obtain ⟨xs, rfl, payloads, ok, hfollows, hlengths, hdone, -⟩ :=
    flashPartitionStream_follows hmode stream size pitEntry largePartition 0 trace _ h
  obtain ⟨rfl, hsize, hflatten, -⟩ := hdone rfl
  refine ⟨payloads, delivered_of_script (sent_of_completed hfollows) ?_ hparts ?_ ?_, hflatten⟩
  · have := stream.file.size_lt
    rw [FileStream.length_rest] at hsize
    omega
  · intro payload hmem
    have := (hlengths payload hmem).2
    simp only [thorChunkSize] at this
    omega
  · rw [hflatten, List.length_take_of_le hsize]

/-! ## LZ4 members -/

theorem length_flatten_le {payloads : List Bytes} {bound : Nat}
    (h : ∀ payload ∈ payloads, payload.length ≤ bound) :
    payloads.flatten.length ≤ payloads.length * bound := by
  induction payloads with
  | nil => simp
  | cons payload rest ih =>
      have hfirst := h payload List.mem_cons_self
      have hrest := ih fun p hp => h p (List.mem_cons_of_mem _ hp)
      simp only [List.flatten_cons, List.length_append, List.length_cons, Nat.add_mul, Nat.one_mul]
      omega

theorem length_le_length_flatten {payloads : List Bytes} (h : ∀ payload ∈ payloads, payload ≠ []) :
    payloads.length ≤ payloads.flatten.length := by
  induction payloads with
  | nil => simp
  | cons payload rest ih =>
      have hfirst := List.length_pos_iff.mpr (h payload List.mem_cons_self)
      have hrest := ih fun p hp => h p (List.mem_cons_of_mem _ hp)
      simp only [List.flatten_cons, List.length_append, List.length_cons]
      omega

/-- A pass that ends well: its output is the announced size, unless more than
`2 ^ 64` bytes went past the counter. -/
theorem lz4Result_total {dec : Lz4Decoder} {file file' : FileStream} {compressedSize : Nat}
    {plan : Lz4Plan dec.Ctx} (hplan : lz4Plan dec file compressedSize = some plan)
    (hresult : lz4Result dec file compressedSize plan = some file') :
    (lz4DecodePass dec compressedSize plan).total % 2 ^ 64 = plan.uncompressedSize := by
  have hsound := lz4Plan_sound hplan
  obtain ⟨fin, hfin, hfinish⟩ := Option.bind_eq_some_iff.mp hresult
  have htotal : fin.total = (lz4DecodePass dec compressedSize plan).total % 2 ^ 64 := by
    rw [(Lz4Pass.finish_eq_some hfin).1, Nat.zero_add]
  unfold lz4Finish at hfinish
  rw [← htotal]
  split at hfinish
  · simp at hfinish
  dsimp only at hfinish
  split at hfinish
  · simp at hfinish
  split at hfinish
  · simp at hfinish
  next hsize =>
    obtain ⟨size, -, ⟨hnonzero, hannounced⟩ | ⟨-, -, hrehearsed⟩⟩ := hsound.size_eq
    · have hne : plan.uncompressedSize ≠ 0 := by
        rw [hannounced]
        exact fun hzero => hnonzero (UInt64.toNat_inj.mp hzero)
      exact not_not.mp fun hdiffer => hsize ⟨hne, hdiffer⟩
    · rw [htotal, hrehearsed, Nat.mod_eq_of_lt hsound.size_lt]

/-- What the decoding pass over a member produces. -/
theorem lz4DecodePass_content {dec : Lz4Decoder} {content : Bytes → Bytes}
    (hdec : dec.DecodesTo content) {file : FileStream} {compressedSize : Nat}
    {plan : Lz4Plan dec.Ctx} (hplan : lz4Plan dec file compressedSize = some plan) :
    (lz4DecodePass dec compressedSize plan).outs.flatten <+:
        content (file.rest.take compressedSize) ∧
      ((lz4DecodePass dec compressedSize plan).frameEnded = true →
        (lz4DecodePass dec compressedSize plan).outs.flatten =
          content (file.rest.take compressedSize)) := by
  have hsound := lz4Plan_sound hplan
  have hstart : dec.Feeding content (file.rest.take compressedSize)
      ⟨plan.file, compressedSize, [], plan.ctx⟩ [] := by
    refine ⟨⟨[], .fresh hsound.create_eq, ?_⟩, hsound.file_sound, List.nil_prefix⟩
    rw [List.nil_append, List.nil_append, hsound.file_rest]
  obtain ⟨hinit, hwhole⟩ :=
    Lz4Decoder.decodePass_content hdec (lz4Buffers compressedSize) hstart
  rw [List.nil_append] at hinit
  refine ⟨hinit, fun hended => ?_⟩
  unfold Lz4Pass.frameEnded at hended
  split at hended
  next last hlast => exact (List.nil_append _).symm.trans (hwhole last hlast)
  next => simp at hended

theorem processLz4Streaming_delivers {dec : Lz4Decoder} {content : Bytes → Bytes}
    (hdec : dec.DecodesTo content) {usb : UsbDevice} (hthor : usb.protocolMode = .thor)
    {file file' : FileStream} {compressedSize : Nat} {largePartition : Bool} {trace : UsbTrace}
    (h : (processLz4Streaming dec file compressedSize usb largePartition true).Executes trace
      (some file')) (hparts : (sent trace).countP Packet.isFilePart < 2 ^ 32) :
    ∃ plan payloads, lz4Plan dec file compressedSize = some plan ∧
      Delivered (sent trace) plan.uncompressedSize payloads ∧
      payloads.flatten =
        (content (file.rest.take compressedSize)).take plan.uncompressedSize ∧
      ((lz4DecodePass dec compressedSize plan).frameEnded = true →
        payloads.flatten = content (file.rest.take compressedSize)) := by
  cases hplan : lz4Plan dec file compressedSize with
  | none =>
      rw [processLz4Streaming_unplanned _ _ _ _ _ _ hplan] at h
      simp at h
  | some plan =>
      obtain ⟨xs, rfl, ok, hfollows, hresult⟩ :=
        processLz4Streaming_follows dec file compressedSize usb largePartition hplan 0 trace _ h
      cases ok with
      | false => simp at hresult
      | true =>
          have hannounce : announcement usb plan.uncompressedSize =
              .thor (.filePartSize (UInt64.ofNat plan.uncompressedSize)) := by
            simp [announcement, UsbDevice.isOdinLegacy, hthor]
          rw [hannounce] at hfollows
          obtain ⟨hinit, hwhole⟩ := lz4DecodePass_content hdec hplan
          have htotal := lz4Result_total hplan hresult.symm
          have hlengths : ∀ payload ∈ delivered (lz4DecodePass dec compressedSize plan).outs,
              payload.length ≤ 2 ^ 24 := fun payload hmem =>
            (Lz4Decoder.decodePass_outs_le _ payload (List.mem_of_mem_filter hmem)).trans
              (lz4Buffers_outBufSize_le compressedSize)
          have hcount := hparts
          rw [sent_of_completed hfollows,
            List.countP_cons_of_neg (by simp [Packet.isFilePart]), countP_fileParts] at hcount
          -- Fewer than 2 ^ 32 parts of at most 2 ^ 24 bytes do not wrap the counter.
          have hsmall : (lz4DecodePass dec compressedSize plan).total < 2 ^ 64 := by
            have hle := length_flatten_le hlengths
            rw [flatten_delivered] at hle
            simp only [Lz4Pass.total]
            omega
          rw [Nat.mod_eq_of_lt hsmall] at htotal
          refine ⟨plan, delivered (lz4DecodePass dec compressedSize plan).outs, rfl,
            delivered_of_script (sent_of_completed hfollows) (lz4Plan_sound hplan).size_lt hparts
              hlengths ?_, ?_, ?_⟩
          · rw [flatten_delivered]
            exact htotal
          · rw [flatten_delivered, ← htotal]
            exact List.prefix_iff_eq_take.mp hinit
          · rw [flatten_delivered]
            exact hwhole

/-! ## Transfers that succeed -/

theorem sendOuts_accepts (largePartition : Bool) (outs : List Bytes) (chunkIndex : UInt32) :
    Accepts (sendOuts largePartition true outs chunkIndex) fun _ ok => ok = true := by
  induction outs generalizing chunkIndex with
  | nil => exact admits_pure rfl
  | cons out rest ih =>
      have houtput : Accepts (Lz4Decoder.sendOutput largePartition true out chunkIndex)
          fun _ ok => ok = true := by
        unfold Lz4Decoder.sendOutput
        split
        · exact sendFilePartChunk_accepts _ _ _
        · exact admits_pure rfl
      refine admits_bind houtput fun _ ok hok => ?_
      subst hok
      exact ih _

/-- A member for which a plan was made can be sent in full. -/
theorem processLz4Streaming_accepts {dec : Lz4Decoder} {file : FileStream} {compressedSize : Nat}
    {plan : Lz4Plan dec.Ctx} (hplan : lz4Plan dec file compressedSize = some plan)
    (usb : UsbDevice) (largePartition : Bool) (s : UInt32) :
    Accepts (processLz4Streaming dec file compressedSize usb largePartition true) fun xs result =>
      Follows (announcement usb plan.uncompressedSize ::
        fileParts 0 (delivered (lz4DecodePass dec compressedSize plan).outs)) s xs true ∧
      result = lz4Result dec file compressedSize plan := by
  rw [processLz4Streaming_planned dec file compressedSize usb largePartition true hplan]
  simp only [↓reduceIte]
  refine admits_bind ((sendFilePartHeader_accepts usb _).and (sendFilePartHeader_single usb _))
    fun xs ok hxs => ?_
  obtain ⟨rfl, hsingle⟩ := hxs
  simp only [Bool.not_true, Bool.false_eq_true, ↓reduceIte]
  refine admits_bind ((sendOuts_accepts largePartition _ 0).and
    (sendOuts_follows largePartition _ 0 (after s xs))) fun ys ok hys => ?_
  obtain ⟨rfl, hfollows⟩ := hys
  refine admits_pure ⟨?_, rfl⟩
  rw [List.append_nil]
  exact (hsingle.follows s).append hfollows

/-! ## Both kinds of transfer -/

/-- Thor transfers that succeed deliver what they announce: the first bytes of a
raw image, or of the decoded LZ4 member. -/
theorem thor_delivers_announced {dec : Lz4Decoder} {content : Bytes → Bytes}
    (hdec : dec.DecodesTo content) {usb : UsbDevice} (hthor : usb.protocolMode = .thor)
    (largePartition : Bool) :
    (∀ stream size pitEntry trace stream',
      (flashPartitionStream usb stream size pitEntry largePartition).Executes trace
        (true, stream') → (sent trace).countP Packet.isFilePart < 2 ^ 32 →
      ∃ payloads, Delivered (sent trace) size payloads ∧
        payloads.flatten = stream.rest.take size) ∧
    ∀ file compressedSize trace file',
      (processLz4Streaming dec file compressedSize usb largePartition true).Executes trace
        (some file') → (sent trace).countP Packet.isFilePart < 2 ^ 32 →
      ∃ plan payloads, lz4Plan dec file compressedSize = some plan ∧
        Delivered (sent trace) plan.uncompressedSize payloads ∧
        payloads.flatten =
          (content (file.rest.take compressedSize)).take plan.uncompressedSize ∧
        ((lz4DecodePass dec compressedSize plan).frameEnded = true →
          payloads.flatten = content (file.rest.take compressedSize)) :=
  ⟨fun _ _ _ _ _ h hparts => flashPartitionStream_delivers hthor h hparts,
    fun _ _ _ _ h hparts => processLz4Streaming_delivers hdec hthor h hparts⟩

/-- A frame that declares two bytes and stores them in one block. -/
def storedFrame : FileContent := ⟨frameHeader 2 ++ storedBlock [7, 9] ++ endMark, by decide⟩

def storedPlan : Lz4Plan storedFrames.Ctx :=
  ⟨2, storedMachine.start, FileStream.openFile storedFrame⟩

theorem lz4DecodePass_storedPlan : lz4DecodePass storedFrames 25 storedPlan =
    ⟨[[7, 9]], .frameEnd ⟨(FileStream.openFile storedFrame).advance 25, 0, [],
      ⟨.ended, 2, 65536, 2⟩⟩⟩ :=
  Lz4Decoder.decodePass_frameEnd rfl

/-- The frame, sent once as it is and once decoded. -/
theorem thor_delivers_announced_storedFrame :
    (∃ trace stream', (flashPartitionStream {} (FileStream.openFile storedFrame) 25
        (pitEntryAt [] 0) false).Executes trace (true, stream') ∧
      ∃ payloads, Delivered (sent trace) 25 payloads ∧
        payloads.flatten = storedFrame.bytes.take 25) ∧
    ∃ trace file', (processLz4Streaming storedFrames (FileStream.openFile storedFrame) 25 {} false
        true).Executes trace (some file') ∧
      ∃ plan payloads, lz4Plan storedFrames (FileStream.openFile storedFrame) 25 = some plan ∧
        Delivered (sent trace) plan.uncompressedSize payloads ∧
        payloads.flatten = [7, 9] := by
  obtain ⟨hraw, hlz4⟩ := thor_delivers_announced storedFrames_decodesTo
    (rfl : ({} : UsbDevice).protocolMode = .thor) false
  constructor
  · have hthor : ({} : UsbDevice).isOdinLegacy = false := rfl
    obtain ⟨xs, ⟨ok, stream'⟩, hexec, rfl, payloads, ok', hfollows, hlengths, hdone, -⟩ :=
      (flashPartitionStream_accepts (rfl : ({} : UsbDevice).protocolMode = .thor)
        (rfl : (FileStream.openFile storedFrame).failed = false) (by decide : 25 ≤ _)
        (pitEntryAt [] 0) false).and (flashPartitionStream_follows hthor _ _ _ _ 0)
    obtain ⟨rfl, -, hflatten, -⟩ := hdone rfl
    refine ⟨_, stream', hexec, hraw _ _ _ _ _ hexec ?_⟩
    have hcount := length_le_length_flatten fun payload hmem => (hlengths payload hmem).1
    have hbytes : (storedFrame.bytes.take 25).length = 25 := by decide
    rw [hflatten, FileStream.rest, FileStream.openFile, List.drop_zero, hbytes] at hcount
    rw [sent_of_completed hfollows, List.countP_cons_of_neg (by simp [Packet.isFilePart]),
      countP_fileParts]
    omega
  · have hplan : lz4Plan storedFrames (FileStream.openFile storedFrame) 25 = some storedPlan := rfl
    obtain ⟨xs, result, hexec, hfollows, hresult⟩ := processLz4Streaming_accepts hplan {} false 0
    have hsome : (lz4Result storedFrames (FileStream.openFile storedFrame) 25 storedPlan).isSome =
        true := by
      rw [lz4Result, lz4DecodePass_storedPlan]
      decide +kernel
    obtain ⟨file', hfile'⟩ := Option.isSome_iff_exists.mp hsome
    rw [hresult, hfile'] at hexec
    have hparts : (sent (xs.flatMap Exchange.events)).countP Packet.isFilePart < 2 ^ 32 := by
      rw [sent_exchanges, hfollows.completed.2, lz4DecodePass_storedPlan]
      decide
    obtain ⟨plan, payloads, hplan', hdelivered, -, hwhole⟩ := hlz4 _ _ _ _ hexec hparts
    obtain rfl := Option.some.inj (hplan.symm.trans hplan')
    refine ⟨_, file', hexec, storedPlan, payloads, rfl, hdelivered, ?_⟩
    rw [hwhole (by rw [lz4DecodePass_storedPlan]; rfl)]
    decide

end Odin4
