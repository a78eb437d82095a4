import Odin4.Usb.LegacyTransfer

/-!
# Executions with an accepting device

Every exchange can be accepted. The operations here therefore have executions
in which they succeed, and these carry their whole script.
-/

namespace Odin4

open Interaction Program Dialogue

/-- Some execution of an operation, as exchanges. -/
abbrev Accepts {α : Type} (program : Usb α) (post : List Exchange → α → Prop) : Prop :=
  Admits Exchange.events program post

/-- What holds of every execution holds of the one that exists. -/
theorem Accepts.and {α : Type} {program : Usb α} {post post' : List Exchange → α → Prop}
    (h : Accepts program post) (h' : Exchanges program post') :
    Accepts program fun xs a => post xs a ∧ post' xs a := by
  obtain ⟨xs, a, hexec, hpost⟩ := h
  obtain ⟨ys, hys, hpost'⟩ := h' _ a hexec
  obtain rfl := exchanges_injective hys
  exact ⟨xs, a, hexec, hpost, hpost'⟩

/-- The response packet that acknowledges. -/
def thorResponse : Bytes :=
  leBytes 4 thorResponsePacketSize ++ leBytes 2 thorPacketResponse ++ leBytes 6 0

theorem thorExchange_accepts (packet : ThorPacket) (timeoutMs : Nat) :
    Accepts (thorExchange packet timeoutMs) fun _ ok => ok = true :=
  ⟨[.answeredBy (.thor packet) usbTimeoutControl
      [.receivePacket thorResponsePacketSize true thorPacketHeaderSize timeoutMs
        (some ⟨thorResponse, by decide⟩)] (by simp)], true,
    ⟨true, _, rfl, some ⟨thorResponse, by decide⟩, _, rfl, rfl, rfl⟩, rfl⟩

theorem thorExchangeFull_accepts (packet : ThorPacket) :
    Accepts (thorExchangeFull packet) fun _ ok => ok = true :=
  ⟨[.answeredBy (.thor packet) usbTimeoutControl
      [.receivePacket thorResponsePacketSize true thorResponsePacketSize 0
        (some ⟨thorResponse, by decide⟩)] (by simp)], true,
    ⟨true, _, rfl, some ⟨thorResponse, by decide⟩, _, rfl, rfl, rfl⟩, rfl⟩

theorem odinCheckedCommand_accepts (cmd subcmd : UInt32) {payload : Bytes} (timeoutMs : Nat)
    (allowProgress : Bool) (hpayload : 8 + payload.length ≤ odinFrameSize) :
    Accepts (odinCheckedCommand cmd subcmd payload timeoutMs allowProgress) fun _ ok => ok = true := by
  unfold odinCheckedCommand odinCommand
  rw [if_neg (by omega)]
  exact ⟨[.answeredBy (.odin cmd subcmd payload) usbTimeoutControl
      [.bulkReadOnce 8 timeoutMs (some ⟨leBytes 8 0, by decide⟩)] (by simp)], true,
    ⟨true, _, rfl, some ⟨leBytes 8 0, by decide⟩, _, rfl, rfl, rfl⟩, rfl⟩

theorem sendFilePartChunk_accepts (data : Bytes) (index : UInt32) (largePartition : Bool) :
    Accepts (sendFilePartChunk data index largePartition) fun _ ok => ok = true := by
  refine admits_bind (thorExchange_accepts _ 0) fun _ ok hok => ?_
  subst hok
  exact ⟨[.answeredBy (.data data) (if largePartition then 300000 else usbTimeoutBulk)
      [.receivePacket thorResponsePacketSize true thorPacketHeaderSize
        (if largePartition then 30000 else 10000) (some ⟨thorResponse, by decide⟩)] (by simp)], true,
    ⟨true, _, rfl, some ⟨thorResponse, by decide⟩, _, rfl, rfl, rfl⟩, rfl⟩

theorem sendFilePartHeader_accepts (usb : UsbDevice) (totalSize : Nat) :
    Accepts (sendFilePartHeader usb totalSize) fun _ ok => ok = true := by
  unfold sendFilePartHeader
  split
  · exact odinCheckedCommand_accepts _ _ _ _ (by simp [odinFrameSize])
  · exact thorExchangeFull_accepts _

theorem sendChunks_accepts (largePartition : Bool) {stream : FileStream} {remaining : Nat}
    (hok : stream.failed = false) (hlen : remaining ≤ stream.rest.length) (index : UInt32) :
    Accepts (sendChunks largePartition stream remaining index) fun _ result =>
      result.1 = true := by
  induction remaining using Nat.strong_induction_on generalizing stream index with
  | _ remaining ih =>
      rw [sendChunks]
      split
      next => exact admits_pure rfl
      next hremaining =>
        have hchunk : min thorChunkSize remaining ≤ stream.rest.length := by omega
        simp only [FileStream.read_of_le hok hchunk, List.length_take_of_le hchunk, ne_eq,
          not_true_eq_false, ↓reduceIte]
        refine admits_bind (sendFilePartChunk_accepts _ _ _) fun _ ok htrue => ?_
        subst htrue
        refine ih _ ?_ (by simpa using hok) ?_ _
        · simp only [thorChunkSize]
          omega
        · rw [FileStream.rest_advance, List.length_drop]
          omega

/-- An image that is long enough can be flashed in Thor mode. -/
theorem flashPartitionStream_accepts {usb : UsbDevice} (hthor : usb.protocolMode = .thor)
    {stream : FileStream} {size : Nat} (hok : stream.failed = false)
    (hlen : size ≤ stream.rest.length) (pitEntry : PitEntry) (largePartition : Bool) :
    Accepts (flashPartitionStream usb stream size pitEntry largePartition) fun _ result =>
      result.1 = true := by
  unfold flashPartitionStream
  rw [if_neg (by simp [UsbDevice.isOdinLegacy, hthor])]
  refine admits_bind (sendFilePartHeader_accepts usb size) fun _ ok htrue => ?_
  subst htrue
  exact sendChunks_accepts largePartition hok hlen 0

/-! ## Legacy transfers -/

theorem odinSendFilePartAndAck_accepts (flashTimeoutMs : Nat) (data : Bytes) (index : UInt32) :
    Accepts (odinSendFilePartAndAck flashTimeoutMs data index) fun _ ok => ok = true := by
  have hnumber : true = (UInt32.ofNat (leAt (leBytes 4 0 ++ leBytes 4 index.toNat) 4 4) == index) := by
    have hfield : leAt (leBytes 4 0 ++ leBytes 4 index.toNat) 4 4 = index.toNat := by
      have hlt := index.toNat_lt
      exact (leNat_leBytes 4 index.toNat).trans (Nat.mod_eq_of_lt hlt)
    rw [hfield, UInt32.ofNat_toNat, beq_self_eq_true]
  exact ⟨[.answeredBy (.data data) flashTimeoutMs
      [.bulkReadOnce 8 flashTimeoutMs (some ⟨leBytes 4 0 ++ leBytes 4 index.toNat, by simp⟩)]
      (by simp)], true,
    ⟨true, _, rfl, some ⟨leBytes 4 0 ++ leBytes 4 index.toNat, by simp⟩, _, rfl, rfl, hnumber⟩, rfl⟩

/-- The stream of a transfer holds what is left of the image. -/
def LegacyTransfer.Supplied (transfer : LegacyTransfer) (size : Nat) : Prop :=
  transfer.stream.failed = false ∧ size - transfer.totalSent ≤ transfer.stream.rest.length

theorem LegacyTransfer.Supplied.move {transfer : LegacyTransfer} {size : Nat}
    (h : transfer.Supplied size) (sent parts : Nat) : (transfer.move sent parts).Supplied size := by
  obtain ⟨hok, hlen⟩ := h
  refine ⟨hok, ?_⟩
  simp only [LegacyTransfer.move, FileStream.rest_advance, List.length_drop]
  omega

section Legacy

variable (usb : UsbDevice) (pitEntry : PitEntry) {size : Nat}

theorem sendLegacyParts_accepts (parts : Nat) {transfer : LegacyTransfer}
    (h : transfer.Supplied size) :
    Accepts (sendLegacyParts usb size parts transfer) fun _ next? => next?.isSome = true := by
  induction parts generalizing transfer with
  | zero => exact admits_pure rfl
  | succ parts ih =>
      have hdue : min (size - transfer.totalSent) usb.odinFlashPacketSize ≤
          transfer.stream.rest.length := (Nat.min_le_left _ _).trans h.2
      rw [sendLegacyParts]
      dsimp only
      rw [FileStream.read_if_of_le h.1 hdue]
      simp only [List.length_take_of_le hdue, ne_eq, not_true_eq_false, ↓reduceIte]
      refine admits_bind (odinSendFilePartAndAck_accepts _ _ _) fun _ ok hok => ?_
      subst hok
      exact ih (h.move _ 1)

theorem sendLegacySequence_accepts (realSize : Nat) (last : Bool) {transfer : LegacyTransfer}
    (h : transfer.Supplied size) :
    Accepts (sendLegacySequence usb pitEntry size realSize last transfer) fun _ next? =>
      next?.isSome = true := by
  refine admits_bind (odinCheckedCommand_accepts _ _ _ _ (by simp [odinFrameSize])) fun _ ok hok => ?_
  subst hok
  refine admits_bind (sendLegacyParts_accepts usb _ h) fun _ next? hnext => ?_
  obtain ⟨next, rfl⟩ := Option.isSome_iff_exists.mp hnext
  refine admits_bind (odinCheckedCommand_accepts _ _ _ _ ?_) fun _ ok hok => ?_
  · rw [length_endSequencePayload, odinFrameSize]
    omega
  · subst hok
    exact admits_pure rfl

theorem sendLegacySequences_accepts (sequenceBytes lastSequence count : Nat)
    {transfer : LegacyTransfer} (h : transfer.Supplied size) :
    Accepts (sendLegacySequences usb pitEntry size sequenceBytes lastSequence count transfer)
      fun _ next? => next?.isSome = true := by
  induction count generalizing transfer with
  | zero => exact admits_pure rfl
  | succ count ih =>
      rw [sendLegacySequences]
      refine admits_bind ((sendLegacySequence_accepts usb pitEntry _ _ h).and
        (sendLegacySequence_conducts usb pitEntry size _ _ transfer rfl rfl)) fun _ next? hnext => ?_
      obtain ⟨hsome, -, hmoved, -⟩ := hnext
      obtain ⟨next, rfl⟩ := Option.isSome_iff_exists.mp hsome
      obtain ⟨-, -, -, rfl⟩ := hmoved next rfl
      exact ih (h.move _ _)

/-- An image that is long enough can be flashed in legacy mode. -/
theorem flashLegacyStream_accepts (hfits : LegacyFits usb size) {stream : FileStream}
    (hok : stream.failed = false) (hlen : size ≤ stream.rest.length) :
    Accepts (flashLegacyStream usb stream size pitEntry) fun _ result => result.1 = true := by
  obtain ⟨hnonzero, hcount, hlast⟩ := hfits
  unfold flashLegacyStream
  refine admits_bind (odinCheckedCommand_accepts _ _ _ _ (by simp [odinFrameSize])) fun _ ok htrue => ?_
  subst htrue
  simp only [Bool.not_true, Bool.false_eq_true, hnonzero, hcount, hlast, ↓reduceIte]
  have hsupplied : LegacyTransfer.Supplied ⟨stream, 0, 0⟩ size := ⟨hok, by simpa using hlen⟩
  refine admits_bind (sendLegacySequences_accepts usb pitEntry _ _ _ hsupplied)
    fun _ next? hnext => ?_
  obtain ⟨next, rfl⟩ := Option.isSome_iff_exists.mp hnext
  refine admits_bind (odinCheckedCommand_accepts _ _ _ _ (by simp [odinFrameSize])) fun _ ok htrue => ?_
  exact admits_pure htrue

end Legacy

end Odin4
