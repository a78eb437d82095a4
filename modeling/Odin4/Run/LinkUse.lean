import Odin4.Run.RunDialogue
import Odin4.Usb.Driver

/-!
# What a run asks of the link

Once the device is open, a run only writes packets and reads replies. It never
asks for more than a buffer holds, no buffer is larger than 1 MiB, and every
wait has a limit.
-/

namespace Odin4

open Interaction Program

/-- The program keeps to the operations of a session. -/
abbrev InSession {α : Type} (program : Usb α) : Prop :=
  Emits (fun event => event.call.InSession) program

theorem isTimeout_control : IsTimeout usbTimeoutControl := by
  unfold IsTimeout usbTimeoutControl
  omega

/-! ## Operations of the link -/

section Link

variable {size minSize timeoutMs : Nat}

theorem inSession_bulkWriteAll (packet : Packet) (h : IsTimeout timeoutMs) :
    InSession (bulkWriteAll packet timeoutMs) :=
  emits_perform fun _ => h

theorem inSession_sendPacket (packet : Packet) : InSession (sendPacket packet true) :=
  inSession_bulkWriteAll packet isTimeout_control

theorem inSession_bulkReadOnce (hsize : size ≤ 1048576) (h : IsTimeout timeoutMs) :
    InSession (bulkReadOnce size timeoutMs) := by
  rw [bulkReadOnce, map_eq_pure_bind]
  exact emits_perform_bind (fun _ => ⟨hsize, h⟩) fun _ => emits_pure _

theorem inSession_receivePacket (isControl : Bool) (hsize : size ≤ 1048576) (hmin : minSize ≤ size)
    (h : timeoutMs = 0 ∨ IsTimeout timeoutMs) :
    InSession (receivePacket size isControl minSize timeoutMs) := by
  rw [receivePacket, map_eq_pure_bind]
  exact emits_perform_bind (fun _ => ⟨hsize, hmin, h⟩) fun _ => emits_pure _

end Link

/-! ## Thor operations -/

section Thor

theorem inSession_receiveResponse {minSize timeoutMs : Nat} (hmin : minSize ≤ thorResponsePacketSize)
    (h : timeoutMs = 0 ∨ IsTimeout timeoutMs) :
    InSession (receivePacket thorResponsePacketSize true minSize timeoutMs) :=
  inSession_receivePacket true (by decide) hmin h

theorem inSession_thorExchange (packet : ThorPacket) : InSession (thorExchange packet 0) := by
  refine emits_unless (inSession_sendPacket _) ?_
  refine emits_some (inSession_receiveResponse (by decide) (.inl rfl)) rfl fun rsp => ?_
  exact emits_ite (fun _ => emits_pure _) fun _ => emits_pure _

theorem inSession_thorExchangeFull (packet : ThorPacket) : InSession (thorExchangeFull packet) := by
  refine emits_unless (inSession_sendPacket _) ?_
  exact emits_some (inSession_receiveResponse (Nat.le_refl _) (.inl rfl)) rfl fun _ => emits_pure _

/-- The table is read into a buffer of the size that the device has announced. -/
theorem inSession_receivePitTable : InSession receivePitTable := by
  refine emits_some (inSession_receivePacket true (by decide) (Nat.le_refl _) (.inl rfl)) rfl
    fun header => ?_
  refine emits_ite (fun _ => emits_pure _) fun _ => emits_ite (fun _ => emits_pure _) fun hsize => ?_
  refine emits_some (inSession_receivePacket false ?_ (Nat.le_refl _) (.inl rfl)) rfl
    fun data => emits_pure _
  omega

theorem inSession_sendFilePartChunk (data : Bytes) (index : UInt32) (largePartition : Bool) :
    InSession (sendFilePartChunk data index largePartition) := by
  have hdata : IsTimeout (if largePartition then 300000 else usbTimeoutBulk) := by
    unfold IsTimeout usbTimeoutBulk
    split <;> omega
  have hpost : IsTimeout (if largePartition then 30000 else 10000) := by
    unfold IsTimeout
    split <;> omega
  refine emits_unless (inSession_thorExchange _) (emits_unless (inSession_bulkWriteAll _ hdata) ?_)
  refine emits_some (inSession_receiveResponse (by decide) (.inr hpost)) rfl fun post => ?_
  exact emits_ite (fun _ => emits_pure _) fun _ => emits_pure _

theorem inSession_sendChunks (largePartition : Bool) (stream : FileStream) (remaining : Nat)
    (index : UInt32) : InSession (sendChunks largePartition stream remaining index) := by
  induction remaining using Nat.strong_induction_on generalizing stream index with
  | _ remaining ih =>
      rw [sendChunks]
      split
      next => exact emits_pure _
      next hremaining =>
        refine emits_ite (fun _ => emits_pure _) fun _ => ?_
        refine emits_unless (inSession_sendFilePartChunk _ _ _) (ih _ ?_ _ _)
        unfold thorChunkSize
        omega

end Thor

/-! ## Legacy operations -/

section Legacy

variable {timeoutMs : Nat} (htimeout : IsTimeout timeoutMs)
include htimeout

theorem inSession_odinCommand (cmd subcmd : UInt32) (payload : Bytes) :
    InSession (odinCommand cmd subcmd payload timeoutMs) := by
  refine emits_ite (fun _ => emits_pure _) fun _ => ?_
  refine emits_unless (inSession_bulkWriteAll _ isTimeout_control) ?_
  refine emits_some (inSession_bulkReadOnce (by decide) htimeout) rfl fun rsp => ?_
  exact emits_ite (fun _ => emits_pure _) fun _ => emits_pure _

theorem inSession_odinCheckedCommand (cmd subcmd : UInt32) (payload : Bytes) (allowProgress : Bool) :
    InSession (odinCheckedCommand cmd subcmd payload timeoutMs allowProgress) :=
  emits_some (inSession_odinCommand htimeout cmd subcmd payload) rfl fun _ => emits_pure _

theorem inSession_odinSendFilePartAndAck (data : Bytes) (expectedIndex : UInt32) :
    InSession (odinSendFilePartAndAck timeoutMs data expectedIndex) := by
  refine emits_unless (inSession_bulkWriteAll _ htimeout) ?_
  refine emits_some (inSession_bulkReadOnce (by decide) htimeout) rfl fun rsp => ?_
  exact emits_ite (fun _ => emits_pure _) fun _ => emits_ite (fun _ => emits_pure _) fun _ =>
    emits_pure _

end Legacy

theorem inSession_control (cmd subcmd : UInt32) (payload : Bytes) (allowProgress : Bool) :
    InSession (odinCheckedCommand cmd subcmd payload usbTimeoutControl allowProgress) :=
  inSession_odinCheckedCommand isTimeout_control cmd subcmd payload allowProgress

theorem isTimeout_dump : IsTimeout 5000 := by
  unfold IsTimeout
  omega

theorem inSession_odinDumpBlocks (count i : Nat) (pitOut : Bytes) :
    InSession (odinDumpBlocks count i pitOut) := by
  induction count generalizing i pitOut with
  | zero => exact emits_pure _
  | succ count ih =>
      refine emits_some (inSession_odinCommand isTimeout_dump _ _ _) rfl fun rsp => ?_
      refine emits_ite (fun _ => emits_pure _) fun _ => ?_
      refine emits_some (inSession_receivePacket false (by decide) (Nat.le_refl _)
        (.inr isTimeout_dump)) rfl fun data => ?_
      exact emits_ite (fun _ => emits_pure _) fun _ => ih _ _

theorem inSession_odinDumpPit : InSession odinDumpPit := by
  refine emits_some (inSession_odinCommand isTimeout_dump _ _ _) rfl fun rsp => ?_
  refine emits_ite (fun _ => emits_pure _) fun _ => emits_ite (fun _ => emits_pure _) fun _ => ?_
  refine emits_some (inSession_odinDumpBlocks _ _ _) rfl fun pitOut => ?_
  refine emits_some (inSession_odinCommand isTimeout_dump _ _ _) rfl fun rsp => ?_
  exact emits_ite (fun _ => emits_pure _) fun _ => emits_pure _

/-! ## Operations in both protocols -/

section Modes

variable (usb : UsbDevice)

theorem inSession_handshake : InSession (handshake usb) := by
  have hlegacy : InSession odinLegacyHandshake := by
    refine emits_unless (inSession_bulkWriteAll _ isTimeout_control) ?_
    exact emits_some (inSession_bulkReadOnce (by decide) isTimeout_control) rfl fun _ => emits_pure _
  refine emits_bind hlegacy fun legacy => emits_ite (fun _ => emits_pure _) fun _ => ?_
  exact emits_bind (inSession_thorExchangeFull _) fun _ => emits_pure _

theorem inSession_requestDeviceType : InSession (requestDeviceType usb) := by
  refine emits_ite (fun _ => emits_pure _) fun _ => emits_unless (inSession_sendPacket _) ?_
  refine emits_some (inSession_receivePacket true (by decide) (Nat.le_refl _) (.inl rfl)) rfl
    fun response => ?_
  exact emits_ite (fun _ => emits_pure _) fun _ => emits_pure _

theorem inSession_beginSession : InSession (beginSession usb) := by
  refine emits_ite (fun _ => ?_) fun _ => emits_bind (inSession_thorExchange _) fun _ => emits_pure _
  refine emits_some (inSession_odinCommand isTimeout_control _ _ _) rfl fun rsp => ?_
  refine emits_ite (fun _ => emits_pure _) fun _ => emits_ite (fun _ => emits_pure _) fun _ => ?_
  exact emits_bind (inSession_control _ _ _ _) fun _ => emits_pure _

theorem inSession_endSession : InSession (endSession usb) :=
  emits_ite (fun _ => inSession_control _ _ _ _) fun _ => inSession_thorExchange _

theorem inSession_requestPit : InSession (requestPit usb) := by
  refine emits_ite (fun _ => ?_) fun _ => ?_
  · exact emits_some inSession_odinDumpPit rfl fun _ => emits_pure _
  · exact emits_unless (inSession_sendPacket _) inSession_receivePitTable

theorem inSession_sendFilePartHeader (totalSize : Nat) :
    InSession (sendFilePartHeader usb totalSize) :=
  emits_ite (fun _ => inSession_control _ _ _ _) fun _ => inSession_thorExchangeFull _

theorem inSession_endFileTransfer (partitionId : UInt32) :
    InSession (endFileTransfer usb partitionId) :=
  emits_ite (fun _ => emits_pure _) fun _ => inSession_thorExchange _

theorem inSession_sendControl (controlType : UInt32) : InSession (sendControl usb controlType) := by
  refine emits_ite (fun _ => ?_) fun _ => inSession_thorExchangeFull _
  exact emits_ite (fun _ => inSession_control _ _ _ _) fun _ => emits_pure _

end Modes

/-! ## File data -/

section Files

variable {usb : UsbDevice} (htimeout : IsTimeout usb.odinFlashTimeoutMs)
include htimeout

theorem inSession_sendLegacyParts (size parts : Nat) (transfer : LegacyTransfer) :
    InSession (sendLegacyParts usb size parts transfer) := by
  induction parts generalizing transfer with
  | zero => exact emits_pure _
  | succ parts ih =>
      rw [sendLegacyParts]
      generalize (if 0 < min (size - transfer.totalSent) usb.odinFlashPacketSize then
        transfer.stream.read (min (size - transfer.totalSent) usb.odinFlashPacketSize)
        else ([], transfer.stream)) = read
      obtain ⟨data, stream⟩ := read
      refine emits_ite (fun _ => emits_pure _) fun _ => ?_
      exact emits_unless (inSession_odinSendFilePartAndAck htimeout _ _) (ih _)

theorem inSession_sendLegacySequences (pitEntry : PitEntry)
    (size sequenceBytes lastSequence count : Nat) (transfer : LegacyTransfer) :
    InSession (sendLegacySequences usb pitEntry size sequenceBytes lastSequence count transfer) := by
  induction count generalizing transfer with
  | zero => exact emits_pure _
  | succ count ih =>
      refine emits_bind ?_ fun next => ?_
      · refine emits_unless (inSession_control _ _ _ _) ?_
        refine emits_some (inSession_sendLegacyParts htimeout _ _ _) rfl fun next => ?_
        exact emits_unless (inSession_odinCheckedCommand htimeout _ _ _ _) (emits_pure _)
      · cases next with
        | none => exact emits_pure _
        | some next => exact ih next

theorem inSession_flashPartitionStream (stream : FileStream) (size : Nat) (pitEntry : PitEntry)
    (largePartition : Bool) :
    InSession (flashPartitionStream usb stream size pitEntry largePartition) := by
  refine emits_ite (fun _ => ?_) fun _ => ?_
  · refine emits_unless (inSession_control _ _ _ _) ?_
    refine emits_ite (fun _ => emits_pure _) fun _ => emits_ite (fun _ => emits_pure _) fun _ =>
      emits_ite (fun _ => emits_pure _) fun _ => ?_
    refine emits_some (inSession_sendLegacySequences htimeout _ _ _ _ _ _) rfl fun next => ?_
    exact emits_bind (inSession_control _ _ _ _) fun _ => emits_pure _
  · exact emits_unless (inSession_sendFilePartHeader usb size) (inSession_sendChunks _ _ _ _)

omit htimeout in
theorem inSession_decodeLoop (dec : Lz4Decoder) (buffers : Lz4Buffers)
    (largePartition doFlash : Bool) (input : Lz4Input dec.Ctx) (total : Nat) (index : UInt32) :
    InSession (dec.decodeLoop buffers largePartition doFlash input total index) := by
  induction hweight : dec.weight input using Nat.strong_induction_on
    generalizing input total index with
  | _ weight ih =>
      rw [Lz4Decoder.decodeLoop]
      split
      next => exact emits_pure _
      next => exact emits_pure _
      next next hturn => exact ih _ (hweight ▸ dec.turn_refilled_weight hturn) _ _ _ rfl
      next next out hint hturn =>
        refine emits_unless (emits_ite (fun _ => inSession_sendFilePartChunk _ _ _)
          fun _ => emits_pure _) ?_
        dsimp only
        split
        next => exact emits_pure _
        next hhint => exact ih _ (hweight ▸ dec.turn_decoded_weight hturn hhint) _ _ _ rfl

omit htimeout in
theorem inSession_processLz4Streaming (usb : UsbDevice) (dec : Lz4Decoder) (file : FileStream)
    (compressedSize : Nat) (largePartition doFlash : Bool) :
    InSession (processLz4Streaming dec file compressedSize usb largePartition doFlash) := by
  unfold processLz4Streaming
  cases lz4Plan dec file compressedSize with
  | none => exact emits_pure _
  | some plan =>
      refine emits_ite (fun _ => emits_unless (inSession_sendFilePartHeader usb _) ?_) fun _ => ?_
      · exact emits_some (inSession_decodeLoop dec _ _ _ _ _ _) rfl fun _ => emits_pure _
      · exact emits_some (inSession_decodeLoop dec _ _ _ _ _ _) rfl fun _ => emits_pure _

theorem inSession_processMember (dec : Lz4Decoder) (doFlash : Bool) (member : Member)
    (state : WalkState) : InSession (processMember dec usb doFlash member state) := by
  refine emits_bind ?_ fun result => ?_
  · refine emits_ite (fun _ => ?_) fun _ => emits_ite (fun _ => ?_) fun _ => ?_
    · refine emits_ite (fun _ => emits_pure _) fun _ => ?_
      exact emits_some (inSession_processLz4Streaming usb dec _ _ _ _) rfl fun _ => emits_pure _
    · refine emits_bind (inSession_flashPartitionStream htimeout _ _ _ _) fun result => ?_
      exact emits_ite (fun _ => emits_pure _) fun _ => emits_pure _
    · exact emits_ite (fun _ => emits_pure _) fun _ => emits_pure _
  · cases result with
    | error code => exact emits_pure _
    | ok file =>
        refine emits_ite (fun _ => emits_pure _) fun _ => emits_ite (fun _ => ?_) fun _ => emits_pure _
        exact emits_unless (inSession_endFileTransfer usb _) (emits_pure _)

theorem inSession_memberLoop (dec : Lz4Decoder) (pitTable : PitTable) (doFlash allowUnknown : Bool)
    (contentEnd fuel : Nat) (state : WalkState) :
    InSession (memberLoop dec usb pitTable doFlash allowUnknown contentEnd fuel state) := by
  induction fuel generalizing state with
  | zero => exact emits_pure _
  | succ fuel ih =>
      rw [memberLoop]
      cases readMember contentEnd pitTable allowUnknown state with
      | stop code => exact emits_pure _
      | skip next => exact ih next
      | matched member next =>
          refine emits_bind (inSession_processMember htimeout dec doFlash member next) fun result => ?_
          cases result with
          | error code => exact emits_pure _
          | ok next => exact ih next

theorem inSession_processArchives (host : Host) (pit : PitTable) (doFlash allowUnknown : Bool)
    (paths : List Bytes) :
    InSession (processArchives host usb pit doFlash allowUnknown paths) := by
  induction paths with
  | nil => exact emits_pure _
  | cons path rest ih =>
      refine emits_bind ?_ fun rc => emits_ite (fun _ => emits_pure _) fun _ => ih
      unfold processTarFile
      cases openArchive host path with
      | error code => exact emits_pure _
      | ok opened => exact inSession_memberLoop htimeout _ _ _ _ _ _ _

/-! ## The session -/

theorem inSession_runSession (host : Host) (cfg : OdinConfig) (pit : PitTable) :
    InSession (runSession host cfg usb pit) := by
  have hcontrols : InSession (sendControls cfg usb) := by
    have hredownload : InSession (do
        if cfg.redownload then
          if !(← sendControl usb thorControlRedownload) then return false
        return true) := by
      refine emits_ite (fun _ => ?_) fun _ => emits_pure _
      exact emits_unless (inSession_sendControl usb _) (emits_pure _)
    refine emits_ite (fun _ => ?_) fun _ => hredownload
    exact emits_unless (inSession_sendControl usb _) hredownload
  have hend := inSession_endSession usb
  have hfinish : InSession (do
      if !(← endSession usb) then return ExitCode.protocol
      return .success) := emits_unless hend (emits_pure _)
  refine emits_bind (inSession_processArchives htimeout host pit _ _ _) fun rc => ?_
  refine emits_ite (fun _ => emits_bind hend fun _ => emits_pure _) fun _ => ?_
  refine emits_ite (fun _ => ?_) fun _ => hfinish
  refine emits_bind hcontrols fun ok => ?_
  exact emits_ite (fun _ => emits_bind hend fun _ => emits_pure _) fun _ => hfinish

end Files

/-! ## The whole run -/

/-- The wait of a legacy transfer has a limit. -/
def UsbDevice.HasTimeout (usb : UsbDevice) : Prop := IsTimeout usb.odinFlashTimeoutMs

theorem requestDeviceType_hasTimeout {usb : UsbDevice} (h : usb.HasTimeout) :
    Returns (fun result => result.2.HasTimeout) (requestDeviceType usb) := by
  refine returns_ite (fun _ => returns_pure h) fun _ => returns_bind fun ok => ?_
  refine returns_ite (fun _ => returns_pure h) fun _ => returns_bind fun response? => ?_
  cases response? with
  | none => exact returns_pure h
  | some response => exact returns_ite (fun _ => returns_pure h) fun _ => returns_pure h

/-- Whatever version a legacy device reports, it sets a limit. -/
theorem beginSession_hasTimeout {usb : UsbDevice} (h : usb.HasTimeout) :
    Returns (fun result => result.2.HasTimeout) (beginSession usb) := by
  have hold : IsTimeout 60000 := by
    unfold IsTimeout
    omega
  have hnew : IsTimeout 180000 := by
    unfold IsTimeout
    omega
  refine returns_ite (fun _ => returns_bind fun rsp? => ?_) fun _ =>
    returns_bind fun ok => returns_pure h
  cases rsp? with
  | none => exact returns_pure h
  | some rsp =>
      refine returns_ite (fun _ => returns_pure h) fun _ => ?_
      exact returns_ite (fun _ => returns_pure hold) fun _ => returns_bind fun _ => returns_pure hnew

theorem inSession_connectedRun (host : Host) (cfg : OdinConfig) {usb : UsbDevice}
    (h : usb.HasTimeout) : InSession (connectedRun host cfg usb) := by
  refine emits_bind_of (inSession_requestDeviceType usb) (requestDeviceType_hasTimeout h)
    fun result hresult => ?_
  obtain ⟨ok, usb⟩ := result
  refine emits_ite (fun _ => emits_pure _) fun _ => emits_ite (fun _ => emits_pure _) fun _ => ?_
  unfold startSession
  rw [bind_assoc]
  refine emits_bind_of (inSession_beginSession usb) (beginSession_hasTimeout hresult)
    fun result hresult => ?_
  obtain ⟨ok, usb⟩ := result
  cases ok with
  | false => exact emits_pure _
  | true =>
      simp only [Bool.not_true, Bool.false_eq_true, ↓reduceIte, bind_assoc]
      refine emits_bind (inSession_requestPit usb) fun pit? => ?_
      cases pit? with
      | none =>
          simp only [bind_assoc, pure_bind]
          exact emits_bind (inSession_endSession usb) fun _ => emits_pure _
      | some pit => exact inSession_runSession hresult host cfg pit

/-- A run opens the device once, first of all. Where that fails nothing follows;
otherwise everything that follows belongs to the session. -/
theorem runForDevice_inSession {host : Host} {cfg : OdinConfig} {trace : UsbTrace} {rc : ExitCode}
    (h : (runForDevice host cfg).Executes trace rc) :
    ∃ opened rest,
      trace = ⟨.openDevice cfg.devicePath (criteriaFromConfig cfg), opened⟩ :: rest ∧
        (∀ event ∈ rest, UsbCall.InSession event.call) ∧ (opened = false → rest = []) := by
  rw [runForDevice_eq] at h
  obtain ⟨first, opened, rest, rfl, hopen, hrest⟩ := executes_bind.mp h
  rw [executes_openDevice] at hopen
  subst hopen
  refine ⟨opened, rest, rfl, ?_, ?_⟩
  · have hinitial : UsbDevice.HasTimeout {} := by
      change 0 < 180000 ∧ 180000 ≤ 300000
      omega
    have hhandshake : Returns (fun result => result.2.HasTimeout) (handshake {}) := by
      refine returns_bind fun legacy => returns_ite (fun _ => returns_pure hinitial) fun _ => ?_
      exact returns_bind fun ok => returns_pure hinitial
    refine fun event hevent => (?_ : InSession _) rest rc hrest event hevent
    refine emits_ite (fun _ => emits_pure _) fun _ => ?_
    refine emits_bind_of (inSession_handshake {}) hhandshake fun result hresult => ?_
    exact emits_ite (fun _ => emits_pure _) fun _ => inSession_connectedRun host cfg hresult
  · rintro rfl
    exact hrest.1

end Odin4
