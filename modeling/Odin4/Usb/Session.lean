import Odin4.Usb.Exchange

/-!
# Sessions as dialogues

The packets of a session form a word of a language, in both protocols: begin
commands, PIT commands, file transfers, control commands and the end command.
Every device operation is shown to stay within its part of the language and to
stop at the first exchange that is not accepted.
-/

namespace Odin4

open Interaction Program Dialogue Computability

/-! ## The languages -/

/-- The one-packet words whose packet has a property. -/
def packetWords (allowed : Packet → Prop) : Language Packet :=
  {word | ∃ packet, allowed packet ∧ word = [packet]}

def packetWord (packet : Packet) : Language Packet := packetWords (· = packet)

/-- The packets of one file part in Thor mode. -/
def partWords : Language Packet :=
  {word | ∃ index size bytes, word = [.thor (.filePart index size), .data bytes]}

/-- One sequence of a legacy transfer. -/
def sequenceWords : Language Packet :=
  packetWords (∃ size, · = .odin 0x66 0x02 (leBytes 4 size)) *
    (packetWords (∃ bytes, · = .data bytes))∗ *
    packetWords (∃ payload, · = .odin 0x66 0x03 payload)

namespace ProtocolMode

/-- The packets of a handshake after which the protocol is known. -/
def handshakePackets : ProtocolMode → List Packet
  | .thor => [.preamble, .thor .handshake]
  | .odinLegacy => [.preamble]

/-- Asking for the device type, which legacy devices do not report. -/
def deviceWords : ProtocolMode → Language Packet
  | .thor => packetWord (.thor .deviceType)
  | .odinLegacy => 1

def beginWords : ProtocolMode → Language Packet
  | .thor => packetWord (.thor .beginSession)
  | .odinLegacy =>
      packetWord (.odin 0x64 0x00 (leBytes 4 0x7FFFFFFF)) *
        (1 + packetWord (.odin 0x64 0x05 (leBytes 4 1048576)))

def pitWords : ProtocolMode → Language Packet
  | .thor => packetWord (.thor .pitFile)
  | .odinLegacy =>
      packetWord (.odin 0x65 0x01 []) * (packetWords (∃ i, · = .odin 0x65 0x02 (leBytes 4 i)))∗ *
        packetWord (.odin 0x65 0x03 [])

/-- The transfer of one file up to its last part. -/
def transferWords : ProtocolMode → Language Packet
  | .thor => packetWords (∃ size, · = .thor (.filePartSize size)) * partWords∗
  | .odinLegacy =>
      packetWord (.odin 0x66 0x00 []) * sequenceWords∗ * packetWord (.odin 0x64 0x01 [])

/-- What follows the last part of a file. -/
def finishWords : ProtocolMode → Language Packet
  | .thor => packetWords (∃ id, · = .thor (.endFileTransfer id))
  | .odinLegacy => 1

def fileWords (mode : ProtocolMode) : Language Packet := mode.transferWords * mode.finishWords

/-- A control command. Legacy devices know only the reboot. -/
def controlWord : ProtocolMode → (controlType : UInt32) → Language Packet
  | .thor, controlType => packetWord (.thor (.control controlType))
  | .odinLegacy, controlType =>
      if controlType = thorControlReboot then packetWord (.odin 0x67 0x01 []) else 1

/-- Each control command at most once. -/
def controlWords (mode : ProtocolMode) : Language Packet :=
  (1 + mode.controlWord thorControlReboot) * (1 + mode.controlWord thorControlRedownload)

def endWords : ProtocolMode → Language Packet
  | .thor => packetWord (.thor .endSession)
  | .odinLegacy => packetWord (.odin 0x67 0x00 [])

end ProtocolMode

/-! ## Membership -/

section Membership

variable {packet : Packet}

theorem mem_packetWords {allowed : Packet → Prop} (h : allowed packet) :
    [packet] ∈ packetWords allowed := ⟨packet, h, rfl⟩

theorem mem_packetWord : [packet] ∈ packetWord packet := mem_packetWords rfl

theorem exists_mem_beginWords (mode : ProtocolMode) : ∃ word, word ∈ mode.beginWords := by
  cases mode with
  | thor => exact ⟨_, mem_packetWord⟩
  | odinLegacy => exact ⟨_, Language.append_mem_mul mem_packetWord (.inl rfl)⟩

theorem exists_mem_finishWords (mode : ProtocolMode) : ∃ word, word ∈ mode.finishWords := by
  cases mode with
  | thor => exact ⟨_, mem_packetWords ⟨0, rfl⟩⟩
  | odinLegacy => exact ⟨[], rfl⟩

theorem exists_mem_endWords (mode : ProtocolMode) : ∃ word, word ∈ mode.endWords := by
  cases mode <;> exact ⟨_, mem_packetWord⟩

theorem nil_mem_optional (words : Language Packet) : [] ∈ 1 + words := .inl rfl

end Membership

/-- The executions of an operation stay within a language of packets. -/
abbrev Keeping {α : Type} (words : Language Packet) (program : Usb α) (complete : α → Prop) : Prop :=
  Keeps Exchange.events words program complete

theorem keeping_single {packet : Packet} {words : Language Packet} {program : Usb Bool}
    (h : Exchanges program (Single packet)) (hmem : [packet] ∈ words) :
    Keeping words program (· = true) :=
  fun s => h.mono fun _ _ hxs => .of_follows (hxs.follows s) hmem

/-- A program with a part for legacy devices and a part for the others. -/
theorem keeping_mode {α : Type} {words : ProtocolMode → Language Packet} {done : α → Prop}
    {legacy thor : Usb α} (usb : UsbDevice) (hlegacy : Keeping (words .odinLegacy) legacy done)
    (hthor : Keeping (words .thor) thor done) :
    Keeping (words usb.protocolMode) (if usb.isOdinLegacy then legacy else thor) done := by
  cases hmode : usb.protocolMode with
  | odinLegacy =>
      rw [if_pos (by simp [UsbDevice.isOdinLegacy, hmode])]
      exact hlegacy
  | thor =>
      rw [if_neg (by simp [UsbDevice.isOdinLegacy, hmode])]
      exact hthor

/-- A legacy command whose reply goes on to be used. -/
theorem keeping_odinCommand {cmd subcmd : UInt32} {payload : Bytes} {timeoutMs : Nat}
    (hpayload : 8 + payload.length ≤ odinFrameSize)
    (hreplies : (Packet.odin cmd subcmd payload).replies = 1)
    (hprogress : progressAllowed cmd subcmd = false) :
    Keeping (packetWord (.odin cmd subcmd payload)) (odinCommand cmd subcmd payload timeoutMs)
      fun rsp? => rsp?.any (odinFailCheck · false) = true := by
  intro s
  refine (odinCommand_single hpayload hreplies).mono fun xs rsp? hxs => ?_
  rw [← hprogress]
  exact .of_follows (hxs.follows s) mem_packetWord

/-! ## Connecting -/

theorem odinLegacyHandshake_conducts :
    Exchanges odinLegacyHandshake fun xs _ => messages xs = [.preamble] := by
  refine exchanges_bulkWriteAll rfl (answering_bulkReadOnce fun reply => ?_)
  cases reply with
  | none => exact answering_pure (by simp) rfl
  | some reply => exact answering_pure (by simp) rfl

/-- The Thor handshake is tried where no legacy device has answered. -/
theorem handshake_packets (usb : UsbDevice) :
    Exchanges (handshake usb) fun xs result =>
      messages xs = result.2.protocolMode.handshakePackets := by
  refine conducts_bind odinLegacyHandshake_conducts fun xs legacy hxs => ?_
  cases legacy with
  | true =>
      refine conducts_pure ?_
      rw [List.append_nil, hxs]
      rfl
  | false =>
      refine conducts_bind (thorExchangeFull_single rfl) fun ys ok hys => conducts_pure ?_
      obtain ⟨y, rfl, hpacket, -⟩ := hys
      have hmessages : messages [y] = [.thor .handshake] := congrArg (fun p => [p]) hpacket
      rw [List.append_nil, messages_append, hxs, hmessages]
      rfl

theorem handshake_conducts (usb : UsbDevice) :
    Exchanges (handshake usb) fun xs result =>
      messages xs <+: [.preamble, .thor .handshake] ∧
        (result.1 = true → messages xs = result.2.protocolMode.handshakePackets) := by
  refine (handshake_packets usb).mono fun xs result hxs => ⟨?_, fun _ => hxs⟩
  rw [hxs]
  cases result.2.protocolMode with
  | thor => exact List.prefix_rfl
  | odinLegacy => exact ⟨[.thor .handshake], rfl⟩

theorem requestDeviceType_keeping (usb : UsbDevice) :
    Keeping usb.protocolMode.deviceWords (requestDeviceType usb) (·.1 = true) := by
  refine keeping_mode usb (keeps_pure _) fun s => ?_
  refine exchanges_sendPacket (.single mem_packetWord (by simp))
    (answering_receivePacket fun reply => ?_)
  cases reply with
  | none => exact answering_pure (by simp) (.single mem_packetWord (by simp))
  | some response =>
      simp only [Option.map_some]
      split
      next => exact answering_pure (by simp) (.single mem_packetWord (by simp))
      next htype =>
        refine answering_pure (by simp) (.single mem_packetWord fun _ => ?_)
        simpa [accepted, Exchange.accepted, Exchange.answeredBy, Packet.replies,
          Packet.replyAccepted, UsbRead.data?] using htype

theorem requestDeviceType_mode (usb : UsbDevice) :
    Returns (fun result => result.2.protocolMode = usb.protocolMode) (requestDeviceType usb) := by
  refine returns_ite (fun _ => returns_pure rfl) fun _ => returns_bind fun ok => ?_
  refine returns_ite (fun _ => returns_pure rfl) fun _ => returns_bind fun response? => ?_
  cases response? with
  | none => exact returns_pure rfl
  | some response => exact returns_ite (fun _ => returns_pure rfl) fun _ => returns_pure rfl

/-! ## Begin and end -/

/-- A refused reply, or none. -/
theorem refused_cases {rsp? : Option Bytes} (h : ¬ rsp?.any (odinFailCheck · false) = true) :
    rsp? = none ∨ ∃ rsp, rsp? = some rsp ∧ odinFailCheck rsp false = false := by
  cases rsp? with
  | none => exact .inl rfl
  | some rsp => exact .inr ⟨rsp, rfl, by simpa using h⟩

theorem accepted_some {rsp? : Option Bytes} (h : rsp?.any (odinFailCheck · false) = true) :
    ∃ rsp, rsp? = some rsp ∧ odinFailCheck rsp false = true := by
  cases rsp? with
  | none => simp at h
  | some rsp => exact ⟨rsp, rfl, by simpa using h⟩

theorem odinBeginSession_keeping (usb : UsbDevice) :
    Keeping ProtocolMode.odinLegacy.beginWords (odinBeginSession usb) (·.1 = true) := by
  refine keeps_bind (keeping_odinCommand (by simp [odinFrameSize]) rfl rfl) ⟨[], nil_mem_optional _⟩
    (fun rsp? hrefused => ?_) fun rsp? haccepted => ?_
  · refine ⟨(false, usb), ?_, by simp⟩
    obtain rfl | ⟨rsp, rfl, hcheck⟩ := refused_cases hrefused
    · rfl
    · simp [hcheck]
  · obtain ⟨rsp, rfl, hcheck⟩ := accepted_some haccepted
    simp only [hcheck, Bool.not_true, Bool.false_eq_true, ↓reduceIte]
    refine keeps_ite (fun _ => ?_) fun _ => ?_
    · exact (keeps_pure _).mono fun _ h => .inl h
    · exact keeps_map (keeping_single (odinCheckedCommand_single (by simp [odinFrameSize]) rfl rfl)
        (.inr mem_packetWord)) fun _ h => h

theorem odinBeginSession_mode (usb : UsbDevice) :
    Returns (fun result => result.2.protocolMode = usb.protocolMode) (odinBeginSession usb) := by
  refine returns_bind fun rsp? => ?_
  cases rsp? with
  | none => exact returns_pure rfl
  | some rsp =>
      refine returns_ite (fun _ => returns_pure rfl) fun _ => ?_
      exact returns_ite (fun _ => returns_pure rfl) fun _ => returns_bind fun ok => returns_pure rfl

theorem beginSession_keeping (usb : UsbDevice) :
    Keeping usb.protocolMode.beginWords (beginSession usb) (·.1 = true) := by
  refine keeping_mode usb (odinBeginSession_keeping usb) ?_
  exact keeps_map (keeping_single (thorExchange_single rfl 0) mem_packetWord) fun _ h => h

/-- Beginning a session does not change the protocol. -/
theorem beginSession_mode (usb : UsbDevice) :
    Returns (fun result => result.2.protocolMode = usb.protocolMode) (beginSession usb) :=
  returns_ite (fun _ => odinBeginSession_mode usb) fun _ => returns_bind fun _ => returns_pure rfl

/-- A session that could not be begun was refused by the device. -/
theorem beginSession_refused (usb : UsbDevice) (s : UInt32) :
    Exchanges (beginSession usb) fun xs result => result.1 = false → ¬ AllAccepted s xs := by
  unfold beginSession
  split
  next =>
    refine conducts_bind (odinCommand_single (by simp [odinFrameSize]) rfl) fun xs rsp? hxs => ?_
    have hfollows := hxs.follows s
    cases rsp? with
    | none =>
        refine conducts_pure fun _ => ?_
        rw [List.append_nil]
        exact hfollows.not_allAccepted
    | some rsp =>
        dsimp only
        split
        next hcheck =>
          have hrefused : odinFailCheck rsp false = false := by simpa using hcheck
          refine conducts_pure fun _ => ?_
          rw [List.append_nil]
          exact Follows.not_allAccepted (by simpa [hrefused, progressAllowed] using hfollows)
        next =>
          split
          next => exact conducts_pure (by simp)
          next =>
            refine conducts_bind (odinCheckedCommand_single (by simp [odinFrameSize]) rfl rfl)
              fun ys ok hys => conducts_pure fun hfalse hall => ?_
            obtain rfl : ok = false := hfalse
            rw [List.append_nil] at hall
            exact (hys.follows _).not_allAccepted hall.right
  next =>
    refine conducts_bind (thorExchange_single rfl 0) fun xs ok hxs => conducts_pure fun hfalse => ?_
    obtain rfl : ok = false := hfalse
    rw [List.append_nil]
    exact (hxs.follows s).not_allAccepted

theorem endSession_single (usb : UsbDevice) :
    Exchanges (endSession usb) fun xs ok =>
      ∃ packet : Packet, packet.isEndSession = true ∧ [packet] ∈ usb.protocolMode.endWords ∧
        Single packet xs ok := by
  unfold endSession
  cases hmode : usb.protocolMode with
  | odinLegacy =>
      rw [if_pos (by simp [UsbDevice.isOdinLegacy, hmode])]
      exact (odinCheckedCommand_single (by simp [odinFrameSize]) rfl rfl).mono fun xs ok hxs =>
        ⟨_, rfl, mem_packetWord, hxs⟩
  | thor =>
      rw [if_neg (by simp [UsbDevice.isOdinLegacy, hmode])]
      exact (thorExchange_single rfl 0).mono fun xs ok hxs => ⟨_, rfl, mem_packetWord, hxs⟩

/-! ## The PIT -/

theorem exists_mem_pitWords (mode : ProtocolMode) : ∃ word, word ∈ mode.pitWords := by
  cases mode with
  | thor => exact ⟨_, mem_packetWord⟩
  | odinLegacy =>
      exact ⟨_, Language.append_mem_mul (Language.append_mem_mul mem_packetWord
        (Language.nil_mem_kstar _)) mem_packetWord⟩

theorem requestPit_keeping_thor :
    Keeping ProtocolMode.thor.pitWords (do
      if !(← sendPacket (.thor .pitFile) true) then return none
      receivePitTable) (·.isSome = true) := by
  refine fun s => exchanges_sendPacket (.single mem_packetWord (by simp))
    (answering_receivePacket fun header => ?_)
  cases header with
  | none => exact answering_pure (by simp) (.single mem_packetWord (by simp))
  | some pitSizePkt =>
      simp only [Option.map_some]
      split
      next => exact answering_pure (by simp) (.single mem_packetWord (by simp))
      next htype =>
        split
        next => exact answering_pure (by simp) (.single mem_packetWord (by simp))
        next =>
          refine answering_receivePacket fun body => ?_
          cases body with
          | none => exact answering_pure (by simp) (.single mem_packetWord (by simp))
          | some pitData =>
              refine answering_pure (by simp) (.single mem_packetWord fun _ => ?_)
              simpa [accepted, Exchange.accepted, Exchange.answeredBy, Packet.replies, Packet.replyAccepted]
                using htype

/-- Each block of a legacy PIT is one exchange with two replies. -/
theorem odinDumpBlocks_keeping (count i : Nat) (pitOut : Bytes) :
    Keeping (packetWords (∃ i, · = .odin 0x65 0x02 (leBytes 4 i)))∗
      (odinDumpBlocks count i pitOut) (·.isSome = true) := by
  intro s
  induction count generalizing s i pitOut with
  | zero => exact conducts_pure .star_nil
  | succ count ih =>
      have hmem : [Packet.odin 0x65 0x02 (leBytes 4 i)] ∈
          packetWords (∃ i, · = .odin 0x65 0x02 (leBytes 4 i)) := mem_packetWords ⟨i, rfl⟩
      refine exchanges_odinCommand (by simp [odinFrameSize])
        (conducts_pure (.star_stop (.single hmem (by simp)) (by simp))) fun reply => ?_
      have hstop : ∀ more, ∀ hreads : UsbRead.bulkReadOnce 8 5000 reply :: more ≠ [],
          Orderly (packetWords (∃ i, · = .odin 0x65 0x02 (leBytes 4 i)))∗ s
            [Exchange.answeredBy (.odin 0x65 0x02 (leBytes 4 i)) usbTimeoutControl
              (.bulkReadOnce 8 5000 reply :: more) hreads] ((none : Option Bytes).isSome = true) :=
        fun more hreads => .star_stop (.single hmem (by simp)) (by simp)
      cases hrsp : odinReply reply with
      | none => exact answering_pure (by simp) (hstop [] (by simp))
      | some rsp =>
          dsimp only
          split
          next => exact answering_pure (by simp) (hstop [] (by simp))
          next hcheck =>
            refine answering_receivePacket fun block => ?_
            cases block with
            | none => exact answering_pure (by simp) (hstop _ (by simp))
            | some data =>
                simp only [Option.map_some]
                split
                next => exact answering_pure (by simp) (hstop _ (by simp))
                next =>
                  have haccepted : Exchange.accepted s (.answeredBy
                      (.odin 0x65 0x02 (leBytes 4 i)) usbTimeoutControl
                      [.bulkReadOnce 8 5000 reply,
                        .receivePacket pitBlockSize false pitBlockSize 5000 (some data)]
                      (by simp)) = true := by
                    have hok : odinAcknowledged false (odinReply reply) = true := by
                      rw [odinAcknowledged_some hrsp]
                      simpa using hcheck
                    rw [odinAcknowledged_odinReply] at hok
                    simpa [Exchange.accepted, Exchange.answeredBy, Packet.replies, Packet.replyAccepted,
                      progressAllowed] using hok
                  refine answering_done (by simp) ?_
                  refine Conducts.mono (ih _ _ s) fun rest pit hrest => ?_
                  exact Orderly.star_append (.single hmem fun _ => haccepted) hrest

theorem odinDumpPit_keeping :
    Keeping ProtocolMode.odinLegacy.pitWords odinDumpPit (·.isSome = true) := by
  have hfinish : ∃ word, word ∈ packetWord (.odin 0x65 0x03 []) := ⟨_, mem_packetWord⟩
  have hmore : ∃ word, word ∈ (packetWords (∃ i, · = .odin 0x65 0x02 (leBytes 4 i)))∗ *
      packetWord (.odin 0x65 0x03 []) :=
    ⟨_, Language.append_mem_mul (Language.nil_mem_kstar _) mem_packetWord⟩
  rw [ProtocolMode.pitWords, mul_assoc]
  refine keeps_bind (keeping_odinCommand (by simp [odinFrameSize]) rfl rfl) hmore
    (fun rsp? hrefused => ?_) fun rsp? haccepted => ?_
  · refine ⟨none, ?_, by simp⟩
    obtain rfl | ⟨rsp, rfl, hcheck⟩ := refused_cases hrefused
    · rfl
    · simp [hcheck]
  obtain ⟨rsp, rfl, hcheck⟩ := accepted_some haccepted
  simp only [hcheck, Bool.not_true, Bool.false_eq_true, ↓reduceIte]
  refine keeps_ite (fun _ => keeps_stop hmore (by simp)) fun _ => ?_
  refine keeps_bind (odinDumpBlocks_keeping _ _ _) hfinish (fun pit? hnone => ?_) fun pit? hsome => ?_
  · obtain rfl : pit? = none := by simpa using hnone
    exact ⟨none, rfl, by simp⟩
  obtain ⟨pitOut, rfl⟩ := Option.isSome_iff_exists.mp hsome
  rw [← mul_one (packetWord _)]
  refine keeps_bind (keeping_odinCommand (by simp [odinFrameSize]) rfl rfl) ⟨[], rfl⟩
    (fun rsp? hrefused => ?_) fun rsp? haccepted => ?_
  · refine ⟨none, ?_, by simp⟩
    obtain rfl | ⟨rsp, rfl, hcheck⟩ := refused_cases hrefused
    · rfl
    · simp [hcheck]
  · obtain ⟨rsp, rfl, hcheck⟩ := accepted_some haccepted
    simp only [hcheck, Bool.not_true, Bool.false_eq_true, ↓reduceIte]
    exact keeps_pure _

theorem requestPit_keeping (usb : UsbDevice) :
    Keeping usb.protocolMode.pitWords (requestPit usb) (·.isSome = true) := by
  refine keeping_mode usb ?_ requestPit_keeping_thor
  rw [← mul_one (ProtocolMode.pitWords _)]
  refine keeps_bind odinDumpPit_keeping ⟨[], rfl⟩ (fun pit? hnone => ?_) fun pit? hsome => ?_
  · obtain rfl : pit? = none := by simpa using hnone
    exact ⟨none, rfl, by simp⟩
  · obtain ⟨pit, rfl⟩ := Option.isSome_iff_exists.mp hsome
    exact keeps_pure _

/-! ## Commands around the files -/

theorem exists_mem_controlWords (mode : ProtocolMode) : ∃ word, word ∈ mode.controlWords :=
  ⟨_, Language.append_mem_mul (nil_mem_optional _) (nil_mem_optional _)⟩

theorem sendControl_keeping (usb : UsbDevice) (controlType : UInt32) :
    Keeping (usb.protocolMode.controlWord controlType) (sendControl usb controlType) (· = true) := by
  let words (mode : ProtocolMode) : Language Packet := mode.controlWord controlType
  have hlegacy : Keeping (words .odinLegacy)
      (if controlType = thorControlReboot then odinReboot else return true) (· = true) := by
    change Keeping (if controlType = thorControlReboot then _ else _) _ _
    split
    next =>
      exact keeping_single (odinCheckedCommand_single (by simp [odinFrameSize]) rfl rfl)
        mem_packetWord
    next => exact keeps_pure _
  exact keeping_mode usb hlegacy (keeping_single (thorExchangeFull_single rfl) mem_packetWord)

theorem endFileTransfer_keeping (usb : UsbDevice) (partitionId : UInt32) :
    Keeping usb.protocolMode.finishWords (endFileTransfer usb partitionId) (· = true) := by
  have hthor : Keeping (ProtocolMode.finishWords .thor)
      (thorExchange (.endFileTransfer partitionId) 0) (· = true) :=
    keeping_single (thorExchange_single rfl 0) (mem_packetWords ⟨partitionId, rfl⟩)
  exact keeping_mode usb (keeps_pure _) hthor

end Odin4
