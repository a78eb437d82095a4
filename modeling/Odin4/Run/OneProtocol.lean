import Odin4.Run.Protocol

/-!
# One protocol in a run

The handshake selects the protocol, and every operation tests for it. What is
written after the handshake belongs to the selected protocol: command frames
and parts of the flash packet size on legacy devices, Thor packets and chunks of
data on the others.
-/

namespace Odin4

open Interaction Program Dialogue Computability

/-! ## What an operation writes -/

/-- Every packet that the program hands to the bulk writer satisfies `allowed`. -/
abbrev Writes {α : Type} (allowed : Packet → Prop) (program : Usb α) : Prop :=
  Emits (fun event => ∀ packet ∈ UsbEvent.packet? event, allowed packet) program

/-- A legacy command that fits into its frame. -/
def Packet.IsFrame (packet : Packet) : Prop :=
  ∃ cmd subcmd payload, packet = .odin cmd subcmd payload ∧ 8 + payload.length ≤ odinFrameSize

/-- The commands of the protocol that the device speaks. -/
def UsbDevice.Commands (usb : UsbDevice) (packet : Packet) : Prop :=
  match usb.protocolMode with
  | .thor => ∃ command, packet = .thor command
  | .odinLegacy => packet.IsFrame

/-- File data as the device wants it: legacy parts have a fixed size. -/
def UsbDevice.Payload (usb : UsbDevice) (packet : Packet) : Prop :=
  ∃ bytes, packet = .data bytes ∧
    (usb.protocolMode = .odinLegacy → bytes.length = usb.odinFlashPacketSize)

def UsbDevice.Speaks (usb : UsbDevice) (packet : Packet) : Prop :=
  usb.Commands packet ∨ usb.Payload packet

section Link

variable {allowed : Packet → Prop} {α : Type}

theorem writes_bulkWriteAll {packet : Packet} (h : allowed packet) (timeoutMs : Nat) :
    Writes allowed (bulkWriteAll packet timeoutMs) := by
  apply emits_perform
  intro ok packet' hpacket
  obtain rfl := Option.some.inj hpacket
  exact h

theorem writes_bulkReadOnce (size timeoutMs : Nat) : Writes allowed (bulkReadOnce size timeoutMs) := by
  rw [bulkReadOnce, map_eq_pure_bind]
  apply emits_bind
  · exact emits_perform fun _ _ hpacket => by cases hpacket
  · intro reply
    exact emits_pure _

theorem writes_receivePacket (size minSize timeoutMs : Nat) (isControl : Bool) :
    Writes allowed (receivePacket size isControl minSize timeoutMs) := by
  rw [receivePacket, map_eq_pure_bind]
  apply emits_bind
  · exact emits_perform fun _ _ hpacket => by cases hpacket
  · intro reply
    exact emits_pure _

/-- A step that gives up early when it is refused. -/
theorem writes_unless {program : Usb Bool} {early : α} {next : Usb α}
    (hprogram : Writes allowed program) (hnext : Writes allowed next) :
    Writes allowed (program >>= fun ok => if (!ok) = true then pure early else next) := by
  refine emits_bind hprogram fun ok => ?_
  apply emits_ite
  · intro _
    exact emits_pure _
  · intro _
    exact hnext

/-- A step that gives up early when there is no answer. -/
theorem writes_some {β : Type} {program : Usb (Option α)} {next : Option α → Usb β} {early : β}
    (hprogram : Writes allowed program) (hnone : next none = pure early)
    (hsome : ∀ a, Writes allowed (next (some a))) : Writes allowed (program >>= next) := by
  refine emits_bind hprogram fun answer? => ?_
  cases answer? with
  | none =>
      rw [hnone]
      exact emits_pure _
  | some answer => exact hsome answer

end Link

/-! ## Thor operations -/

section Thor

variable {allowed : Packet → Prop}

theorem writes_thorExchange {packet : ThorPacket} (h : allowed (.thor packet)) (timeoutMs : Nat) :
    Writes allowed (thorExchange packet timeoutMs) := by
  refine writes_unless (writes_bulkWriteAll h _) ?_
  refine writes_some (writes_receivePacket _ _ _ _) rfl fun rsp => ?_
  apply emits_ite
  · intro _
    exact emits_pure _
  · intro _
    exact emits_pure _

theorem writes_thorExchangeFull {packet : ThorPacket} (h : allowed (.thor packet)) :
    Writes allowed (thorExchangeFull packet) := by
  refine writes_unless (writes_bulkWriteAll h _) ?_
  refine writes_some (writes_receivePacket _ _ _ _) rfl fun rsp => ?_
  exact emits_pure _

theorem writes_receivePitTable : Writes allowed receivePitTable := by
  refine writes_some (writes_receivePacket _ _ _ _) rfl fun header => ?_
  dsimp only
  refine emits_ite (fun _ => emits_pure _) fun _ => emits_ite (fun _ => emits_pure _) fun _ => ?_
  refine writes_some (writes_receivePacket _ _ _ _) rfl fun data => ?_
  exact emits_pure _

theorem writes_sendFilePartChunk (hthor : ∀ packet, allowed (.thor packet))
    (hdata : ∀ bytes, allowed (.data bytes)) (data : Bytes) (index : UInt32) (largePartition : Bool) :
    Writes allowed (sendFilePartChunk data index largePartition) := by
  refine writes_unless (writes_thorExchange (hthor _) _) ?_
  refine writes_unless (writes_bulkWriteAll (hdata _) _) ?_
  refine writes_some (writes_receivePacket _ _ _ _) rfl fun post => ?_
  exact emits_ite (fun _ => emits_pure _) fun _ => emits_pure _

theorem writes_sendChunks (hthor : ∀ packet, allowed (.thor packet))
    (hdata : ∀ bytes, allowed (.data bytes)) (largePartition : Bool) (stream : FileStream)
    (remaining : Nat) (index : UInt32) :
    Writes allowed (sendChunks largePartition stream remaining index) := by
  induction remaining using Nat.strong_induction_on generalizing stream index with
  | _ remaining ih =>
      rw [sendChunks]
      split
      next => exact emits_pure _
      next hremaining =>
        dsimp only
        apply emits_ite
        · intro _
          exact emits_pure _
        · intro _
          refine writes_unless (writes_sendFilePartChunk hthor hdata _ _ _) ?_
          exact ih _ (by simp only [thorChunkSize]; omega) _ _

end Thor

/-! ## Legacy operations -/

section Legacy

variable {allowed : Packet → Prop} (hframe : ∀ packet : Packet, packet.IsFrame → allowed packet)
include hframe

theorem writes_odinCommand (cmd subcmd : UInt32) (payload : Bytes) (timeoutMs : Nat) :
    Writes allowed (odinCommand cmd subcmd payload timeoutMs) := by
  apply emits_ite
  · intro _
    exact emits_pure _
  · intro hsize
    apply writes_unless
    · exact writes_bulkWriteAll (hframe _ ⟨cmd, subcmd, payload, rfl, Nat.not_lt.mp hsize⟩) _
    · refine writes_some (writes_bulkReadOnce _ _) rfl fun rsp => ?_
      exact emits_ite (fun _ => emits_pure _) fun _ => emits_pure _

theorem writes_odinCheckedCommand (cmd subcmd : UInt32) (payload : Bytes) (timeoutMs : Nat)
    (allowProgress : Bool) :
    Writes allowed (odinCheckedCommand cmd subcmd payload timeoutMs allowProgress) := by
  refine writes_some (writes_odinCommand hframe _ _ _ _) rfl fun rsp => ?_
  exact emits_pure _

theorem writes_odinDumpBlocks (count i : Nat) (pitOut : Bytes) :
    Writes allowed (odinDumpBlocks count i pitOut) := by
  induction count generalizing i pitOut with
  | zero => exact emits_pure _
  | succ count ih =>
      refine writes_some (writes_odinCommand hframe _ _ _ _) rfl fun rsp => ?_
      dsimp only
      refine emits_ite (fun _ => emits_pure _) fun _ => ?_
      refine writes_some (writes_receivePacket _ _ _ _) rfl fun data => ?_
      exact emits_ite (fun _ => emits_pure _) fun _ => ih _ _

theorem writes_odinDumpPit : Writes allowed odinDumpPit := by
  refine writes_some (writes_odinCommand hframe _ _ _ _) rfl fun rsp => ?_
  dsimp only
  refine emits_ite (fun _ => emits_pure _) fun _ => emits_ite (fun _ => emits_pure _) fun _ => ?_
  refine writes_some (writes_odinDumpBlocks hframe _ _ _) rfl fun pitOut => ?_
  refine writes_some (writes_odinCommand hframe _ _ _ _) rfl fun rsp => ?_
  exact emits_ite (fun _ => emits_pure _) fun _ => emits_pure _

end Legacy

/-! ## Operations that test for the protocol -/

section Modes

variable (usb : UsbDevice) {allowed : Packet → Prop}

theorem isOdinLegacy_iff : usb.isOdinLegacy = true ↔ usb.protocolMode = .odinLegacy := by
  simp [UsbDevice.isOdinLegacy]

theorem not_isOdinLegacy_iff : ¬ usb.isOdinLegacy = true ↔ usb.protocolMode = .thor := by
  rw [isOdinLegacy_iff]
  cases usb.protocolMode with
  | thor => simp
  | odinLegacy => simp

variable {usb}

theorem commands_frame (hlegacy : usb.isOdinLegacy = true) (packet : Packet)
    (hframe : packet.IsFrame) : usb.Commands packet := by
  rw [UsbDevice.Commands, (isOdinLegacy_iff usb).mp hlegacy]
  exact hframe

theorem commands_thor (hthor : ¬ usb.isOdinLegacy = true) (packet : ThorPacket) :
    usb.Commands (.thor packet) := by
  rw [UsbDevice.Commands, (not_isOdinLegacy_iff usb).mp hthor]
  exact ⟨packet, rfl⟩

theorem Writes.mono {α : Type} {wider : Packet → Prop} {program : Usb α}
    (h : Writes allowed program) (hwider : ∀ packet, allowed packet → wider packet) :
    Writes wider program :=
  Emits.mono h fun _ hevent packet hpacket => hwider packet (hevent packet hpacket)

theorem Writes.speaks {α : Type} {program : Usb α} (h : Writes usb.Commands program) :
    Writes usb.Speaks program :=
  h.mono fun _ hpacket => .inl hpacket

/-- A program with a part for legacy devices and a part for the others. -/
theorem writes_mode {α : Type} {legacy thor : Usb α}
    (hlegacy : (∀ packet : Packet, packet.IsFrame → usb.Commands packet) →
      Writes usb.Commands legacy)
    (hthor : (∀ packet, usb.Commands (.thor packet)) → Writes usb.Commands thor) :
    Writes usb.Commands (if usb.isOdinLegacy then legacy else thor) := by
  apply emits_ite
  · intro h
    exact hlegacy (commands_frame h)
  · intro h
    exact hthor (commands_thor h)

variable (usb)

theorem writes_requestDeviceType : Writes usb.Commands (requestDeviceType usb) := by
  refine writes_mode (fun _ => emits_pure _) fun hthor => ?_
  refine writes_unless (writes_bulkWriteAll (hthor _) _) ?_
  refine writes_some (writes_receivePacket _ _ _ _) rfl fun response => ?_
  exact emits_ite (fun _ => emits_pure _) fun _ => emits_pure _

theorem writes_odinBeginSession (hframe : ∀ packet : Packet, packet.IsFrame → allowed packet) :
    Writes allowed (odinBeginSession usb) := by
  refine writes_some (writes_odinCommand hframe _ _ _ _) rfl fun rsp => ?_
  dsimp only
  refine emits_ite (fun _ => emits_pure _) fun _ => emits_ite (fun _ => emits_pure _) fun _ => ?_
  exact emits_bind (writes_odinCheckedCommand hframe _ _ _ _ _) fun _ => emits_pure _

theorem writes_beginSession : Writes usb.Commands (beginSession usb) := by
  refine writes_mode (writes_odinBeginSession usb) fun hthor => ?_
  exact emits_bind (writes_thorExchange (hthor _) _) fun _ => emits_pure _

theorem writes_endSession : Writes usb.Commands (endSession usb) :=
  writes_mode (fun hframe => writes_odinCheckedCommand hframe _ _ _ _ _)
    fun hthor => writes_thorExchange (hthor _) _

theorem writes_requestPit : Writes usb.Commands (requestPit usb) := by
  apply writes_mode
  · intro hframe
    refine writes_some (writes_odinDumpPit hframe) rfl fun pit => ?_
    exact emits_pure _
  · intro hthor
    exact writes_unless (writes_bulkWriteAll (hthor _) _) writes_receivePitTable

theorem writes_sendFilePartHeader (totalSize : Nat) :
    Writes usb.Commands (sendFilePartHeader usb totalSize) :=
  writes_mode (fun hframe => writes_odinCheckedCommand hframe _ _ _ _ _)
    fun hthor => writes_thorExchangeFull (hthor _)

theorem writes_endFileTransfer (partitionId : UInt32) :
    Writes usb.Commands (endFileTransfer usb partitionId) :=
  writes_mode (fun _ => emits_pure _) fun hthor => writes_thorExchange (hthor _) _

theorem writes_sendControl (controlType : UInt32) :
    Writes usb.Commands (sendControl usb controlType) := by
  apply writes_mode
  · intro hframe
    apply emits_ite
    · intro _
      exact writes_odinCheckedCommand hframe _ _ _ _ _
    · intro _
      exact emits_pure _
  · intro hthor
    exact writes_thorExchangeFull (hthor _)

/-! ## File data -/

/-- A legacy part is filled up to the packet size. -/
theorem writes_sendLegacyParts
    (hpart : ∀ bytes : Bytes, bytes.length = usb.odinFlashPacketSize → allowed (.data bytes))
    (size parts : Nat) (transfer : LegacyTransfer) :
    Writes allowed (sendLegacyParts usb size parts transfer) := by
  induction parts generalizing transfer with
  | zero => exact emits_pure _
  | succ parts ih =>
      rw [sendLegacyParts]
      generalize hdue : min (size - transfer.totalSent) usb.odinFlashPacketSize = due
      generalize (if 0 < due then transfer.stream.read due else ([], transfer.stream)) = read
      obtain ⟨data, stream⟩ := read
      dsimp only
      refine emits_ite (fun _ => emits_pure _) fun hlength => ?_
      have hfull : (data ++ List.replicate (usb.odinFlashPacketSize - data.length) 0).length =
          usb.odinFlashPacketSize := by
        rw [List.length_append, List.length_replicate]
        omega
      have hsend : Writes allowed (odinSendFilePartAndAck usb.odinFlashTimeoutMs
          (data ++ List.replicate (usb.odinFlashPacketSize - data.length) 0)
          transfer.expectedIndex) := by
        refine writes_unless (writes_bulkWriteAll (hpart _ hfull) _) ?_
        refine writes_some (writes_bulkReadOnce _ _) rfl fun rsp => ?_
        exact emits_ite (fun _ => emits_pure _) fun _ =>
          emits_ite (fun _ => emits_pure _) fun _ => emits_pure _
      exact writes_unless hsend (ih _)

theorem writes_sendLegacySequences (hframe : ∀ packet : Packet, packet.IsFrame → allowed packet)
    (hpart : ∀ bytes : Bytes, bytes.length = usb.odinFlashPacketSize → allowed (.data bytes))
    (pitEntry : PitEntry) (size sequenceBytes lastSequence count : Nat) (transfer : LegacyTransfer) :
    Writes allowed
      (sendLegacySequences usb pitEntry size sequenceBytes lastSequence count transfer) := by
  induction count generalizing transfer with
  | zero => exact emits_pure _
  | succ count ih =>
      refine emits_bind ?_ fun next => ?_
      · refine writes_unless (writes_odinCheckedCommand hframe _ _ _ _ _) ?_
        refine writes_some (writes_sendLegacyParts usb hpart _ _ _) rfl fun next => ?_
        exact writes_unless (writes_odinCheckedCommand hframe _ _ _ _ _) (emits_pure _)
      · cases next with
        | none => exact emits_pure _
        | some next => exact ih next

theorem writes_flashPartitionStream (stream : FileStream) (size : Nat) (pitEntry : PitEntry)
    (largePartition : Bool) :
    Writes usb.Speaks (flashPartitionStream usb stream size pitEntry largePartition) := by
  apply emits_ite
  · intro hlegacy
    have hframe : ∀ packet : Packet, packet.IsFrame → usb.Speaks packet :=
      fun packet h => .inl (commands_frame hlegacy packet h)
    refine writes_unless (writes_odinCheckedCommand hframe _ _ _ _ _) ?_
    refine emits_ite (fun _ => emits_pure _) fun _ => emits_ite (fun _ => emits_pure _) fun _ =>
      emits_ite (fun _ => emits_pure _) fun _ => ?_
    refine emits_bind (writes_sendLegacySequences usb hframe ?_ _ _ _ _ _ _) fun next => ?_
    · intro bytes hbytes
      exact .inr ⟨bytes, rfl, fun _ => hbytes⟩
    · cases next with
      | none => exact emits_pure _
      | some next =>
          exact emits_bind (writes_odinCheckedCommand hframe _ _ _ _ _) fun _ => emits_pure _
  · intro hthor
    refine writes_unless (writes_sendFilePartHeader usb size).speaks ?_
    apply writes_sendChunks
    · intro packet
      exact .inl (commands_thor hthor packet)
    · intro bytes
      exact .inr ⟨bytes, rfl, fun hlegacy => absurd ((isOdinLegacy_iff usb).mpr hlegacy) hthor⟩

theorem writes_sendOutput (doFlash largePartition : Bool)
    (hflash : doFlash = true → (∀ packet, allowed (.thor packet)) ∧ ∀ bytes, allowed (.data bytes))
    (out : Bytes) (index : UInt32) :
    Writes allowed (Lz4Decoder.sendOutput largePartition doFlash out index) := by
  apply emits_ite
  · intro h
    have hdo : doFlash = true := (Bool.and_eq_true_iff.mp h).2
    exact writes_sendFilePartChunk (hflash hdo).1 (hflash hdo).2 _ _ _
  · intro _
    exact emits_pure _

theorem writes_decodeLoop (dec : Lz4Decoder) (buffers : Lz4Buffers) (doFlash largePartition : Bool)
    (hflash : doFlash = true → (∀ packet, allowed (.thor packet)) ∧ ∀ bytes, allowed (.data bytes))
    (input : Lz4Input dec.Ctx) (total : Nat) (index : UInt32) :
    Writes allowed (dec.decodeLoop buffers largePartition doFlash input total index) := by
  induction hweight : dec.weight input using Nat.strong_induction_on
    generalizing input total index with
  | _ weight ih =>
      rw [Lz4Decoder.decodeLoop]
      split
      next => exact emits_pure _
      next => exact emits_pure _
      next next hturn => exact ih _ (hweight ▸ dec.turn_refilled_weight hturn) _ _ _ rfl
      next next out hint hturn =>
        refine writes_unless (writes_sendOutput doFlash largePartition hflash _ _) ?_
        dsimp only
        split
        next => exact emits_pure _
        next hhint => exact ih _ (hweight ▸ dec.turn_decoded_weight hturn hhint) _ _ _ rfl

/-- Legacy devices get no LZ4 data: when flashing, the member is refused before. -/
theorem writes_lz4Pass (dec : Lz4Decoder) (file : FileStream) (compressedSize : Nat)
    (largePartition doFlash : Bool) (hflash : doFlash = true →
      (∀ packet, usb.Speaks (.thor packet)) ∧ ∀ bytes, usb.Speaks (.data bytes))
    (plan : Lz4Plan dec.Ctx) :
    Writes usb.Speaks (do
      let some fin ← dec.decodeLoop (lz4Buffers compressedSize) largePartition doFlash
          ⟨plan.file, compressedSize, [], plan.ctx⟩ 0 0
        | return none
      return lz4Finish file.pos compressedSize plan.uncompressedSize fin) := by
  refine writes_some (writes_decodeLoop dec _ doFlash largePartition hflash _ _ _) rfl fun fin => ?_
  exact emits_pure _

theorem writes_processLz4Streaming (dec : Lz4Decoder) (file : FileStream) (compressedSize : Nat)
    (largePartition doFlash : Bool) (hguard : ¬ (usb.isOdinLegacy && doFlash) = true) :
    Writes usb.Speaks
      (processLz4Streaming dec file compressedSize usb largePartition doFlash) := by
  have hflash : doFlash = true →
      (∀ packet, usb.Speaks (.thor packet)) ∧ ∀ bytes, usb.Speaks (.data bytes) := by
    rintro rfl
    rw [Bool.and_true] at hguard
    constructor
    · intro packet
      exact .inl (commands_thor hguard packet)
    · intro bytes
      exact .inr ⟨bytes, rfl, fun hlegacy => absurd ((isOdinLegacy_iff usb).mpr hlegacy) hguard⟩
  unfold processLz4Streaming
  cases lz4Plan dec file compressedSize with
  | none => exact emits_pure _
  | some plan =>
      have hdecode := writes_lz4Pass usb dec file compressedSize largePartition doFlash hflash plan
      apply emits_ite
      · intro _
        exact writes_unless (writes_sendFilePartHeader usb _).speaks hdecode
      · intro _
        exact hdecode

theorem writes_transferMember (dec : Lz4Decoder) (doFlash : Bool) (member : Member)
    (file : FileStream) : Writes usb.Speaks (transferMember dec usb doFlash member file) := by
  refine emits_ite (fun _ => ?_) fun _ => emits_ite (fun _ => ?_) fun _ => ?_
  · refine emits_ite (fun _ => emits_pure _) fun hguard => ?_
    refine writes_some (writes_processLz4Streaming usb dec _ _ _ _ hguard) rfl fun file => ?_
    exact emits_pure _
  · refine emits_bind (writes_flashPartitionStream usb _ _ _ _) fun result => ?_
    exact emits_ite (fun _ => emits_pure _) fun _ => emits_pure _
  · exact emits_ite (fun _ => emits_pure _) fun _ => emits_pure _

theorem writes_processMember (dec : Lz4Decoder) (doFlash : Bool) (member : Member)
    (state : WalkState) : Writes usb.Speaks (processMember dec usb doFlash member state) := by
  refine emits_bind (writes_transferMember usb dec doFlash member state.file) fun result => ?_
  cases result with
  | error code => exact emits_pure _
  | ok file =>
      refine emits_ite (fun _ => emits_pure _) fun _ => emits_ite (fun _ => ?_) fun _ => emits_pure _
      exact writes_unless (writes_endFileTransfer usb _).speaks (emits_pure _)

theorem writes_memberLoop (dec : Lz4Decoder) (pitTable : PitTable) (doFlash allowUnknown : Bool)
    (contentEnd fuel : Nat) (state : WalkState) :
    Writes usb.Speaks
      (memberLoop dec usb pitTable doFlash allowUnknown contentEnd fuel state) := by
  induction fuel generalizing state with
  | zero => exact emits_pure _
  | succ fuel ih =>
      rw [memberLoop]
      cases readMember contentEnd pitTable allowUnknown state with
      | stop code => exact emits_pure _
      | skip next => exact ih next
      | matched member next =>
          refine emits_bind (writes_processMember usb dec doFlash member next) fun result => ?_
          cases result with
          | error code => exact emits_pure _
          | ok next => exact ih next

theorem writes_processArchives (host : Host) (pit : PitTable) (doFlash allowUnknown : Bool)
    (paths : List Bytes) :
    Writes usb.Speaks (processArchives host usb pit doFlash allowUnknown paths) := by
  induction paths with
  | nil => exact emits_pure _
  | cons path rest ih =>
      refine emits_bind ?_ fun rc => emits_ite (fun _ => emits_pure _) fun _ => ih
      unfold processTarFile
      cases openArchive host path with
      | error code => exact emits_pure _
      | ok opened => exact writes_memberLoop usb _ _ _ _ _ _ _

/-! ## The session -/

theorem writes_startSession : Writes usb.Commands (startSession usb) := by
  refine emits_bind_of (writes_beginSession usb) (beginSession_mode usb) fun result hmode => ?_
  obtain ⟨ok, usb'⟩ := result
  have hsame : usb'.Commands = usb.Commands := by
    funext packet
    have hmode : usb'.protocolMode = usb.protocolMode := hmode
    rw [UsbDevice.Commands, UsbDevice.Commands, hmode]
  have hpit := writes_requestPit usb'
  have hend := writes_endSession usb'
  rw [hsame] at hpit hend
  refine emits_ite (fun _ => emits_pure _) fun _ => emits_bind hpit fun pit? => ?_
  cases pit? with
  | none => exact emits_bind hend fun _ => emits_pure _
  | some pit => exact emits_pure _

theorem writes_runSession (host : Host) (cfg : OdinConfig) (pit : PitTable) :
    Writes usb.Speaks (runSession host cfg usb pit) := by
  have hcontrols : Writes usb.Speaks (sendControls cfg usb) := by
    have hredownload : Writes usb.Speaks (do
        if cfg.redownload then
          if !(← sendControl usb thorControlRedownload) then return false
        return true) := by
      refine emits_ite (fun _ => ?_) fun _ => emits_pure _
      exact writes_unless (writes_sendControl usb _).speaks (emits_pure _)
    refine emits_ite (fun _ => ?_) fun _ => hredownload
    exact writes_unless (writes_sendControl usb _).speaks hredownload
  have hend := (writes_endSession usb).speaks
  have hfinish : Writes usb.Speaks (do
      if !(← endSession usb) then return ExitCode.protocol
      return .success) := writes_unless hend (emits_pure _)
  refine emits_bind (writes_processArchives usb host pit _ _ _) fun rc => ?_
  refine emits_ite (fun _ => emits_bind hend fun _ => emits_pure _) fun _ => ?_
  refine emits_ite (fun _ => ?_) fun _ => hfinish
  refine emits_bind hcontrols fun ok => ?_
  exact emits_ite (fun _ => emits_bind hend fun _ => emits_pure _) fun _ => hfinish

end Modes

/-! ## Where the parts of a legacy transfer stand -/

def Packet.IsData (packet : Packet) : Prop := ∃ bytes, packet = .data bytes

/-- The command that announces a sequence. -/
def Packet.IsSequence (packet : Packet) : Prop :=
  ∃ size, packet = .odin 0x66 0x02 (leBytes 4 size)

/-- The last command before was an announcement that the device accepted. -/
def SequenceAnnounced (before : List Exchange) : Prop :=
  ∃ first announcement parts, before = first ++ announcement :: parts ∧
    announcement.packet.IsSequence ∧ announcement.accepted 0 = true ∧
    ∀ part ∈ parts, part.packet.IsData

/-- In a legacy session a part follows a part or the announcement. -/
theorem preceded_workWords (dryRun : Bool) :
    Preceded Packet.IsData (fun packet => packet.IsData ∨ packet.IsSequence)
      (ProtocolMode.odinLegacy.workWords dryRun) := by
  have hcommand : ∀ {kind : Packet → Prop}, (∀ packet, kind packet → ¬ packet.IsData) →
      Over (fun packet => ¬ packet.IsData) (packetWords kind) := over_packetWords
  have hparts : Preceded Packet.IsData (fun packet => packet.IsData ∨ packet.IsSequence)
      (packetWords (∃ size, · = .odin 0x66 0x02 (leBytes 4 size)) *
        (packetWords (∃ bytes, · = .data bytes))∗) := by
    apply Over.preceded_of_head
    · apply Over.mul
      · exact over_packetWords fun packet h => .inr h
      · exact Over.star (over_packetWords fun packet h => .inl h)
    · rintro m rest ⟨_, ⟨packet, ⟨size, rfl⟩, rfl⟩, parts, -, hword⟩ ⟨bytes, rfl⟩
      simp at hword
  cases dryRun with
  | true => exact Over.preceded over_one
  | false =>
      refine Preceded.mul (Preceded.star ?_) (Over.preceded ?_)
      · refine Preceded.mul (Preceded.mul (Preceded.mul ?_ ?_) ?_) (Over.preceded over_one)
        · exact Over.preceded (hcommand (by rintro _ rfl ⟨bytes, h⟩; cases h))
        · refine Preceded.star (hparts.mul (Over.preceded (hcommand ?_)))
          rintro _ ⟨payload, rfl⟩ ⟨bytes, h⟩
          cases h
        · exact Over.preceded (hcommand (by rintro _ rfl ⟨bytes, h⟩; cases h))
      · refine Over.mul (Over.add over_one (hcommand ?_)) (Over.add over_one over_one)
        rintro _ rfl ⟨bytes, h⟩
        cases h

theorem accepted_sequence {x : Exchange} (hx : x.packet.IsSequence) (s : UInt32) :
    x.accepted s = x.accepted 0 := by
  obtain ⟨size, hpacket⟩ := hx
  have hreply : Packet.replyAccepted s x.packet = Packet.replyAccepted 0 x.packet := by
    rw [hpacket]
    funext read
    cases read with
    | bulkReadOnce => rfl
    | receivePacket => rfl
  rw [Exchange.accepted, Exchange.accepted, hreply]

theorem announced_of_orderly {dryRun : Bool} {s : UInt32} {xs before rest : List Exchange}
    {x : Exchange} {complete : Prop}
    (h : Orderly (ProtocolMode.odinLegacy.workWords dryRun) s xs complete)
    (hsplit : xs = before ++ x :: rest) (hx : x.packet.IsData) : SequenceAnnounced before := by
  induction hlength : before.length using Nat.strong_induction_on generalizing before x rest with
  | _ length ih =>
      have hhere := h
      rw [hsplit] at hhere
      obtain ⟨first, last, rfl, hlast, haccepted⟩ := hhere.preceded (preceded_workWords dryRun) hx
      rcases hlast with hdata | hsequence
      · have hearlier : xs = first ++ last :: (x :: rest) := by
          rw [hsplit, List.append_assoc]
          rfl
        have hshorter : first.length < length := by
          rw [← hlength, List.length_append]
          exact Nat.lt_succ_self _
        obtain ⟨start, announcement, parts, rfl, hannounce, hok, hparts⟩ :=
          ih first.length hshorter hearlier hdata rfl
        refine ⟨start, announcement, parts ++ [last], by simp, hannounce, hok, ?_⟩
        intro part hpart
        rcases List.mem_append.mp hpart with hpart | hpart
        · exact hparts part hpart
        · rw [List.mem_singleton.mp hpart]
          exact hdata
      · exact ⟨first, last, [], rfl, hsequence, (accepted_sequence hsequence _).symm.trans haccepted,
          by simp⟩

/-! ## The run -/

/-- The turns of a legacy device behind the handshake. Before the session is
open only frames are written; in the session a packet is a frame or a part of
the packet size that the session was begun with. -/
inductive LegacyTurns (usb : UsbDevice) : List Exchange → Prop
  | unopened {xs} : (∀ x ∈ xs, x.packet.IsFrame) → LegacyTurns usb xs
  | opened {begun work usb' pit} :
      (startSession usb).Executes (begun.flatMap Exchange.events) (.ok (usb', pit)) →
      (∀ x ∈ begun, x.packet.IsFrame) →
      (∀ before x rest, work = before ++ x :: rest → x.packet.IsFrame ∨
        ∃ bytes, x.packet = .data bytes ∧ bytes.length = usb'.odinFlashPacketSize ∧
          SequenceAnnounced before) →
      LegacyTurns usb (begun ++ work)

section Runs

variable {allowed : Packet → Prop} {α : Type} {program : Usb α} {xs : List Exchange} {result : α}

theorem allowed_of_writes (h : Writes allowed program)
    (hexec : program.Executes (xs.flatMap Exchange.events) result) :
    ∀ x ∈ xs, allowed x.packet := by
  intro x hx
  have hmem : (⟨.bulkWriteAll x.packet x.timeoutMs, x.written⟩ : UsbEvent) ∈
      xs.flatMap Exchange.events := List.mem_flatMap.mpr ⟨x, hx, List.mem_cons_self⟩
  exact h _ _ hexec _ hmem x.packet rfl

/-- What a session writes to a legacy device. -/
theorem runSession_legacy {host : Host} {cfg : OdinConfig} {usb : UsbDevice} {pit : PitTable}
    {trace : UsbTrace} {rc : ExitCode} (hlegacy : usb.protocolMode = .odinLegacy)
    (hexec : (runSession host cfg usb pit).Executes trace rc) :
    ∃ work : List Exchange, trace = work.flatMap Exchange.events ∧
      ∀ before x rest, work = before ++ x :: rest → x.packet.IsFrame ∨
        ∃ bytes, x.packet = .data bytes ∧ bytes.length = usb.odinFlashPacketSize ∧
          SequenceAnnounced before := by
  obtain ⟨work, rfl, hcloses⟩ := runSession_closes host cfg usb pit 0 trace rc hexec
  have hspeaks := allowed_of_writes (writes_runSession usb host cfg pit) hexec
  refine ⟨work, rfl, fun before x rest hsplit => ?_⟩
  have hx : x ∈ work := by simp [hsplit]
  rcases hspeaks x hx with hcommand | ⟨bytes, hbytes, hsize⟩
  · rw [UsbDevice.Commands, hlegacy] at hcommand
    exact .inl hcommand
  · refine .inr ⟨bytes, hbytes, hsize hlegacy, ?_⟩
    rw [hlegacy] at hcloses
    obtain ⟨horderly, hend, -, -⟩ := hcloses
    -- The end command is no part, so the part stands in front of it.
    obtain ⟨tail, hparts, -⟩ | ⟨start, -, hstart⟩ := split_at_turn hsplit
    · exact announced_of_orderly horderly hparts ⟨bytes, hbytes⟩
    · cases start with
      | nil =>
          obtain ⟨rfl, -⟩ := List.cons.inj hstart
          simp [hbytes, Packet.isEndSession] at hend
      | cons => simp at hstart

theorem startSession_exchanges (usb : UsbDevice) :
    Exchanges (startSession usb) fun _ _ => True := by
  refine conducts_bind (beginSession_keeping usb 0) fun begun result _ => ?_
  obtain ⟨ok, usb'⟩ := result
  cases ok with
  | false => exact conducts_pure trivial
  | true =>
      refine conducts_bind (requestPit_keeping usb' 0) fun xs pit? _ => ?_
      cases pit? with
      | none => exact conducts_bind (endSession_single usb') fun _ _ _ => conducts_pure trivial
      | some pit => exact conducts_pure trivial

theorem startSession_mode (usb : UsbDevice) :
    Returns (fun result => ∀ usb' pit, result = .ok (usb', pit) →
      usb'.protocolMode = usb.protocolMode) (startSession usb) := by
  refine returns_bind_of (beginSession_mode usb) fun result hmode => ?_
  obtain ⟨ok, usb'⟩ := result
  refine returns_ite (fun _ => returns_pure (by simp)) fun _ => returns_bind fun pit? => ?_
  cases pit? with
  | none => exact returns_bind fun _ => returns_pure (by simp)
  | some pit =>
      apply returns_pure
      rintro _ _ ⟨⟩
      exact hmode

theorem connectedRun_legacy {host : Host} {cfg : OdinConfig} {usb : UsbDevice} {trace : UsbTrace}
    {rc : ExitCode} (hlegacy : usb.protocolMode = .odinLegacy)
    (hexec : (connectedRun host cfg usb).Executes trace rc) :
    ∃ xs : List Exchange, trace = xs.flatMap Exchange.events ∧
      LegacyTurns { usb with deviceTypeStr := [] } xs := by
  unfold connectedRun requestDeviceType at hexec
  rw [if_pos ((isOdinLegacy_iff usb).mpr hlegacy), pure_bind] at hexec
  dsimp only at hexec
  rw [if_neg (by simp)] at hexec
  split at hexec
  next =>
    obtain ⟨rfl, rfl⟩ := executes_pure.mp hexec
    exact ⟨[], rfl, .unopened (by simp)⟩
  next =>
    obtain ⟨first, result, second, rfl, hfirst, hsecond⟩ := executes_bind.mp hexec
    have hcommands := writes_startSession { usb with deviceTypeStr := [] }
    have hmode := startSession_mode _ first result hfirst
    obtain ⟨begun, rfl, -⟩ := startSession_exchanges _ first result hfirst
    have hframes : ∀ x ∈ begun, x.packet.IsFrame := by
      intro x hx
      have hcommand := allowed_of_writes hcommands hfirst x hx
      rwa [UsbDevice.Commands, hlegacy] at hcommand
    cases result with
    | error code =>
        obtain ⟨rfl, rfl⟩ := executes_pure.mp hsecond
        exact ⟨begun, List.append_nil _, .unopened hframes⟩
    | ok opened =>
        obtain ⟨usb', pit⟩ := opened
        have hlegacy' : usb'.protocolMode = .odinLegacy := (hmode usb' pit rfl).trans hlegacy
        obtain ⟨work, rfl, hwork⟩ := runSession_legacy hlegacy' hsecond
        exact ⟨begun ++ work, List.flatMap_append.symm, .opened hfirst hframes hwork⟩

/-- What is written to any other device behind the handshake. -/
theorem connectedRun_thor {host : Host} {cfg : OdinConfig} {usb : UsbDevice}
    (hthor : usb.protocolMode = .thor) :
    Writes (fun packet => ∀ cmd subcmd payload, packet ≠ .odin cmd subcmd payload)
      (connectedRun host cfg usb) := by
  have hcommands : ∀ usb' : UsbDevice, usb'.protocolMode = .thor → ∀ packet, usb'.Speaks packet →
      ∀ cmd subcmd payload, packet ≠ .odin cmd subcmd payload := by
    rintro usb' hmode packet (hcommand | ⟨bytes, rfl, -⟩) cmd subcmd payload
    · rw [UsbDevice.Commands, hmode] at hcommand
      obtain ⟨command, rfl⟩ := hcommand
      simp
    · simp
  refine emits_bind_of ((writes_requestDeviceType usb).speaks.mono (hcommands usb hthor))
    (requestDeviceType_mode usb) fun result hmode => ?_
  obtain ⟨ok, usb'⟩ := result
  have hmode : usb'.protocolMode = .thor := hmode.trans hthor
  refine emits_ite (fun _ => emits_pure _) fun _ => emits_ite (fun _ => emits_pure _) fun _ => ?_
  refine emits_bind_of ((writes_startSession usb').speaks.mono (hcommands usb' hmode))
    (startSession_mode usb') fun result hsame => ?_
  cases result with
  | error code => exact emits_pure _
  | ok opened =>
      obtain ⟨session, pit⟩ := opened
      have hsession : session.protocolMode = .thor := (hsame session pit rfl).trans hmode
      exact (writes_runSession session host cfg pit).mono (hcommands session hsession)

end Runs

/-- Every frame has the size of its buffer on the wire. -/
theorem Packet.IsFrame.length_encode {packet : Packet} (h : packet.IsFrame) :
    packet.encode.length = 1024 := by
  obtain ⟨cmd, subcmd, payload, rfl, hsize⟩ := h
  exact Packet.length_encode_odin cmd subcmd hsize

/-- Behind the handshake a run writes the packets of the protocol that the
handshake has selected. On a legacy device these are command frames and, after
an accepted announcement, parts of the packet size of the session; in Thor mode
no command frame is written at all. -/
theorem runForDevice_speaks_one_protocol {host : Host} {cfg : OdinConfig} {trace : UsbTrace}
    {rc : ExitCode} (h : (runForDevice host cfg).Executes trace rc) :
    trace = [⟨.openDevice cfg.devicePath (criteriaFromConfig cfg), false⟩] ∨
      ∃ shaken ok usb rest,
        trace = ⟨.openDevice cfg.devicePath (criteriaFromConfig cfg), true⟩ :: (shaken ++ rest) ∧
        (handshake {}).Executes shaken (ok, usb) ∧
        sent shaken = usb.protocolMode.handshakePackets ∧
        (usb.protocolMode = .odinLegacy → ∃ xs : List Exchange,
          rest = xs.flatMap Exchange.events ∧ LegacyTurns { usb with deviceTypeStr := [] } xs ∧
            ∀ x ∈ xs, x.packet.IsFrame → x.packet.encode.length = 1024) ∧
        (usb.protocolMode = .thor → ∀ packet ∈ sent trace, ∀ cmd subcmd payload,
          packet ≠ .odin cmd subcmd payload) := by
  rw [runForDevice_eq] at h
  obtain ⟨first, opened, rest, rfl, hopen, hrest⟩ := executes_bind.mp h
  rw [executes_openDevice] at hopen
  subst hopen
  cases opened with
  | false =>
      obtain ⟨rfl, rfl⟩ := hrest
      exact .inl rfl
  | true =>
      obtain ⟨shaken, ⟨ok, usb⟩, second, rfl, hhandshake, hconnected⟩ := executes_bind.mp hrest
      obtain ⟨hs, hshaken, hpackets⟩ := handshake_packets {} shaken (ok, usb) hhandshake
      have hsent : sent shaken = usb.protocolMode.handshakePackets := by
        rw [hshaken, sent_exchanges]
        exact hpackets
      -- What the handshake found settles what is written behind it.
      refine .inr ⟨shaken, ok, usb, second, rfl, hhandshake, hsent, ?_, ?_⟩
      · intro hlegacy
        cases ok with
        | false =>
            obtain ⟨rfl, rfl⟩ := hconnected
            exact ⟨[], rfl, .unopened (by simp), by simp⟩
        | true =>
            obtain ⟨xs, hxs, hturns⟩ := connectedRun_legacy hlegacy hconnected
            exact ⟨xs, hxs, hturns, fun _ _ hframe => hframe.length_encode⟩
      · intro hthor packet hmem
        rw [List.singleton_append, sent_open, sent_append, hsent, hthor] at hmem
        rcases List.mem_append.mp hmem with hmem | hmem
        · rintro cmd subcmd payload rfl
          simp [ProtocolMode.handshakePackets] at hmem
        · cases ok with
          | false =>
              obtain ⟨rfl, rfl⟩ := hconnected
              simp at hmem
          | true =>
              obtain ⟨event, hevent, hpacket⟩ := List.mem_filterMap.mp hmem
              exact connectedRun_thor hthor second rc hconnected event hevent packet hpacket

/-- An image is flashed on a legacy device in parts between command frames. -/
theorem runForDevice_speaks_one_protocol_boot :
    ((bootRun lokeDevice).2 = .success ∧
      .odin 0x66 0x02 (leBytes 4 131072) ∈ sent (bootRun lokeDevice).1) ∧
    ∃ (shaken : UsbTrace) (usb : UsbDevice) (xs : List Exchange), (bootRun lokeDevice).1 =
        ⟨.openDevice [] (criteriaFromConfig { ap := ascii "firmware.tar" }), true⟩ ::
          (shaken ++ xs.flatMap Exchange.events) ∧
      sent shaken = [.preamble] ∧ LegacyTurns { usb with deviceTypeStr := [] } xs ∧
      ∀ x ∈ xs, x.packet.IsFrame → x.packet.encode.length = 1024 := by
  have hcode : (bootRun lokeDevice).2 = .success := by decide +kernel
  have hannounced : .odin 0x66 0x02 (leBytes 4 131072) ∈ sent (bootRun lokeDevice).1 := by
    decide +kernel
  have hlegacy : .thor .handshake ∉ sent (bootRun lokeDevice).1 := by decide +kernel
  have hexec := executes_bootRun lokeDevice
  generalize bootRun lokeDevice = outcome at hcode hannounced hlegacy hexec ⊢
  refine ⟨⟨hcode, hannounced⟩, ?_⟩
  obtain hclosed | ⟨shaken, ok, usb, rest, htrace, -, hsent, hframes, -⟩ :=
    runForDevice_speaks_one_protocol hexec
  · rw [hclosed] at hannounced
    simp at hannounced
  rw [htrace, sent_open, sent_append, hsent] at hlegacy
  cases hmode : usb.protocolMode with
  | thor => simp [hmode, ProtocolMode.handshakePackets] at hlegacy
  | odinLegacy =>
      obtain ⟨xs, rfl, hturns, hlength⟩ := hframes hmode
      rw [hmode] at hsent
      exact ⟨shaken, usb, xs, htrace, hsent, hturns, hlength⟩

end Odin4
