import Odin4.Archive.RoundTrip
import Odin4.Run.RunDialogue
import Odin4.Usb.Accepting

/-!
# Protocol laws of a run

What holds of the packets of every run, whatever the device answers: a check
writes nothing, the packets come in the order of the session, the run stops at
the first failed exchange, and what was opened is closed.
-/

namespace Odin4

open Interaction Program Dialogue Computability

/-! ## Kinds of packets -/

namespace Packet

/-- Handshake, device type, session begin, PIT read and session end. -/
def isCheckTraffic : Packet → Bool
  | preamble => true
  | thor .handshake | thor .deviceType | thor .beginSession | thor .pitFile
  | thor .endSession => true
  | thor _ => false
  | odin cmd subcmd _ =>
      (cmd == 0x64 && (subcmd == 0x00 || subcmd == 0x05)) ||
        (cmd == 0x65 && (subcmd == 0x01 || subcmd == 0x02 || subcmd == 0x03)) ||
        (cmd == 0x67 && subcmd == 0x00)
  | data _ => false

/-- Packets that change the device: partition data with the commands around
it, and control commands. -/
def changesDevice : Packet → Bool
  | thor (.filePartSize _) | thor (.filePart ..) | thor (.endFileTransfer _)
  | thor (.control _) => true
  | odin cmd subcmd _ =>
      cmd == 0x66 || (cmd == 0x64 && (subcmd == 0x02 || subcmd == 0x01)) ||
        (cmd == 0x67 && subcmd == 0x01)
  | data _ => true
  | _ => false

theorem not_changesDevice_of_isCheckTraffic {packet : Packet} (h : packet.isCheckTraffic = true) :
    packet.changesDevice = false := by
  cases packet with
  | preamble => rfl
  | data bytes => simp [isCheckTraffic] at h
  | thor packet => cases packet <;> simp_all [isCheckTraffic, changesDevice]
  | odin cmd subcmd payload =>
      simp only [isCheckTraffic, changesDevice, Bool.or_eq_true, Bool.and_eq_true, beq_iff_eq,
        Bool.or_eq_false_iff, Bool.and_eq_false_iff, beq_eq_false_iff_ne] at h ⊢
      rcases h with (⟨rfl, rfl | rfl⟩ | ⟨rfl, (rfl | rfl) | rfl⟩) | ⟨rfl, rfl⟩ <;> decide

/-- The command that opens a session. -/
def isBeginSession : Packet → Bool
  | thor .beginSession => true
  | odin cmd subcmd _ => cmd == 0x64 && subcmd == 0x00
  | _ => false

/-- The second command of a legacy begin, which sets the packet size. -/
def isPacketSize : Packet → Bool
  | odin cmd subcmd _ => cmd == 0x64 && subcmd == 0x05
  | _ => false

/-- A packet that neither begins nor ends a session. -/
def IsNeutral (packet : Packet) : Prop :=
  packet.isEndSession = false ∧ packet.isBeginSession = false ∧ packet.isPacketSize = false

end Packet

/-! ## Which packets occur in which part of a session -/

section Over

variable {allowed : Packet → Prop}

theorem over_packetWords {kind : Packet → Prop} (h : ∀ packet, kind packet → allowed packet) :
    Over allowed (packetWords kind) := by
  rintro _ ⟨packet, hkind, rfl⟩ m hm
  rw [List.mem_singleton.mp hm]
  exact h packet hkind

theorem over_packetWord {packet : Packet} (h : allowed packet) :
    Over allowed (packetWord packet) :=
  over_packetWords fun _ hpacket => hpacket ▸ h

theorem over_deviceWords (mode : ProtocolMode) :
    Over (fun packet => packet.isCheckTraffic = true ∧ packet.IsNeutral) mode.deviceWords := by
  cases mode with
  | thor => exact over_packetWord ⟨rfl, rfl, rfl, rfl⟩
  | odinLegacy => exact over_one

theorem over_beginWords (mode : ProtocolMode) :
    Over (fun packet => packet.isCheckTraffic = true ∧ packet.isEndSession = false)
      mode.beginWords := by
  cases mode with
  | thor => exact over_packetWord ⟨rfl, rfl⟩
  | odinLegacy =>
      exact (over_packetWord ⟨rfl, rfl⟩).mul (over_one.add (over_packetWord ⟨rfl, rfl⟩))

theorem over_pitWords (mode : ProtocolMode) :
    Over (fun packet => packet.isCheckTraffic = true ∧ packet.IsNeutral) mode.pitWords := by
  cases mode with
  | thor => exact over_packetWord ⟨rfl, rfl, rfl, rfl⟩
  | odinLegacy =>
      refine ((over_packetWord ⟨rfl, rfl, rfl, rfl⟩).mul (Over.star (over_packetWords ?_))).mul
        (over_packetWord ⟨rfl, rfl, rfl, rfl⟩)
      rintro _ ⟨i, rfl⟩
      exact ⟨rfl, rfl, rfl, rfl⟩

/-- The packets of a session outside the files and the control commands. -/
theorem over_frame (mode : ProtocolMode) :
    Over (fun packet => packet.isCheckTraffic = true ∧ packet.isEndSession = false)
      (mode.deviceWords * (mode.beginWords * mode.pitWords)) :=
  ((over_deviceWords mode).mono fun _ h => ⟨h.1, h.2.1⟩).mul
    ((over_beginWords mode).mul ((over_pitWords mode).mono fun _ h => ⟨h.1, h.2.1⟩))

theorem over_partWords (hpart : ∀ index size, allowed (.thor (.filePart index size)))
    (hdata : ∀ bytes, allowed (.data bytes)) : Over allowed partWords := by
  rintro _ ⟨index, size, bytes, rfl⟩ m hm
  rcases List.mem_cons.mp hm with rfl | hm
  · exact hpart index size
  · rw [List.mem_singleton.mp hm]
    exact hdata bytes

/-- Files and control commands neither open nor close a session. -/
theorem over_workWords (mode : ProtocolMode) (dryRun : Bool) :
    Over Packet.IsNeutral (mode.workWords dryRun) := by
  cases dryRun with
  | true => exact over_one
  | false =>
      cases mode with
      | thor =>
          refine Over.mul (Over.star (Over.mul (Over.mul (over_packetWords ?_) (Over.star
            (over_partWords ?_ ?_))) (over_packetWords ?_)))
            ((over_one.add (over_packetWord ⟨rfl, rfl, rfl⟩)).mul
              (over_one.add (over_packetWord ⟨rfl, rfl, rfl⟩)))
          · rintro _ ⟨size, rfl⟩
            exact ⟨rfl, rfl, rfl⟩
          · exact fun _ _ => ⟨rfl, rfl, rfl⟩
          · exact fun _ => ⟨rfl, rfl, rfl⟩
          · rintro _ ⟨id, rfl⟩
            exact ⟨rfl, rfl, rfl⟩
      | odinLegacy =>
          refine Over.mul (Over.star (Over.mul (Over.mul (Over.mul (over_packetWord ⟨rfl, rfl, rfl⟩)
            (Over.star (Over.mul (Over.mul (over_packetWords ?_) (Over.star (over_packetWords ?_)))
              (over_packetWords ?_)))) (over_packetWord ⟨rfl, rfl, rfl⟩)) over_one))
            ((over_one.add (over_packetWord ⟨rfl, rfl, rfl⟩)).mul (over_one.add over_one))
          · rintro _ ⟨size, rfl⟩
            exact ⟨rfl, rfl, rfl⟩
          · rintro _ ⟨bytes, rfl⟩
            exact ⟨rfl, rfl, rfl⟩
          · rintro _ ⟨payload, rfl⟩
            exact ⟨rfl, rfl, rfl⟩

/-- The turns of a dialogue carry only what its words allow. -/
theorem orderly_over {words : Language Packet} {s : UInt32} {xs : List Exchange} {complete : Prop}
    (h : Orderly words s xs complete) (hwords : Over allowed words) :
    ∀ x ∈ xs, allowed x.packet := by
  obtain ⟨word, hword, hinit⟩ := h.initial
  exact fun x hx => hwords word hword _ (hinit.subset (List.mem_map_of_mem hx))

theorem over_endWords (mode : ProtocolMode) :
    Over (fun packet => packet.isCheckTraffic = true ∧ packet.isEndSession = true ∧
      packet.isBeginSession = false ∧ packet.isPacketSize = false) mode.endWords := by
  cases mode with
  | thor => exact over_packetWord ⟨rfl, rfl, rfl, rfl⟩
  | odinLegacy => exact over_packetWord ⟨rfl, rfl, rfl, rfl⟩

end Over

/-! ## The turns of a run as one word -/

/-- Everything between the handshake and the end of the session. -/
def ProtocolMode.bodyWords (mode : ProtocolMode) (dryRun : Bool) : Language Packet :=
  mode.deviceWords * (mode.beginWords * mode.pitWords) * mode.workWords dryRun

theorem ProtocolMode.bodyWords_eq (mode : ProtocolMode) (dryRun : Bool) :
    mode.bodyWords dryRun =
      mode.deviceWords * (mode.beginWords * (mode.pitWords * mode.workWords dryRun)) := by
  simp only [ProtocolMode.bodyWords, mul_assoc]

/-- The turns behind the handshake: an initial part of a session without its
end, and the end command behind it unless the session was not opened. -/
theorem RunTurns.split {mode : ProtocolMode} {dryRun : Bool} {rc : ExitCode} {xs : List Exchange}
    (h : RunTurns mode dryRun rc xs) :
    ∃ ys zs, xs = ys ++ zs ∧
      Orderly (mode.bodyWords dryRun) (0 : UInt32) ys (rc = .success) ∧
      (zs = [] ∧ rc ≠ .success ∨ ∃ z, zs = [z] ∧ [z.packet] ∈ mode.endWords) := by
  obtain ⟨pit, hpit⟩ := exists_mem_pitWords mode
  obtain ⟨work, hwork⟩ := exists_mem_workWords mode dryRun
  have hopened : ∃ word, word ∈ mode.pitWords * mode.workWords dryRun :=
    ⟨_, Language.append_mem_mul hpit hwork⟩
  rw [ProtocolMode.bodyWords_eq]
  cases h with
  | unbegun hdevice hrc =>
      obtain ⟨begun, hbegun⟩ := exists_mem_beginWords mode
      have hmore : ∃ word, word ∈ mode.beginWords * (mode.pitWords * mode.workWords dryRun) :=
        ⟨_, Language.append_mem_mul hbegun hopened.choose_spec⟩
      exact ⟨xs, [], (List.append_nil _).symm, hdevice.stop hmore hrc, .inl ⟨rfl, hrc⟩⟩
  | @session device ys hdevice hsession =>
      cases hsession with
      | refused hbegun _ hrc =>
          exact ⟨device ++ ys, [], (List.append_nil _).symm,
            hdevice.append (hbegun.stop hopened hrc), .inl ⟨rfl, hrc⟩⟩
      | @opened begun _ hbegun hcloses =>
          cases hcloses with
          | @intro ys z hwork _ hend _ =>
              exact ⟨device ++ (begun ++ ys), [z], by simp,
                hdevice.append (hbegun.append hwork), .inr ⟨z, rfl, hend⟩⟩

/-! ## A host and a device to run against -/

/-- A host without files. -/
def emptyHost : Host where
  fs _ := none
  md5 _ := List.Vector.replicate 16 0
  lz4 := storedFrames

/-- The answers of a Thor device without a type string that accepts everything. -/
def thorAnswers (pit : Bytes) : Packet → (size : Nat) → Bytes
  | .preamble, _ => []
  | .thor .deviceType, size => leBytes 4 size ++ leBytes 2 thorPacketDeviceType ++ leBytes 130 0
  | .thor .pitFile, 12 => leBytes 4 12 ++ leBytes 2 thorPacketPitFile ++ leBytes 2 0 ++
      leBytes 4 pit.length
  | .thor .pitFile, _ => pit
  | _, _ => thorResponse

/-- A PIT with the one partition `BOOT`, whose image is `boot.img`. -/
def bootPit : Bytes :=
  leBytes 4 0x12349876 ++ leBytes 4 1 ++ leBytes 20 0 ++ leBytes 8 0 ++ leBytes 4 1 ++
    leBytes 24 0 ++ ascii "BOOT" ++ leBytes 28 0 ++ ascii "boot.img" ++ leBytes 24 0 ++ leBytes 32 0

def thorDevice : UsbEnvironment := answeringDevice (thorAnswers bootPit)

/-- What a legacy device answers that accepts everything and sends its PIT in blocks. -/
def legacyAnswers (pit : Bytes) : Packet → (size : Nat) → Bytes
  | .preamble, _ => ascii "LOKE"
  | .odin 0x65 0x01 _, _ => leBytes 4 0x65 ++ leBytes 4 pit.length
  | .odin 0x65 0x02 block, 500 =>
      let data := (pit.drop (leAt block 0 4 * 500)).take 500
      data ++ List.replicate (500 - data.length) 0
  | _, _ => leBytes 8 0

def lokeDevice : UsbEnvironment := answeringDevice (legacyAnswers bootPit)

/-- A run that flashes the image of one archive. -/
def bootRun (device : UsbEnvironment) : UsbTrace × ExitCode :=
  (runForDevice (archiveHost bootArchive) { ap := ascii "firmware.tar" }).run device []

theorem executes_bootRun (device : UsbEnvironment) :
    (runForDevice (archiveHost bootArchive) { ap := ascii "firmware.tar" }).Executes
      (bootRun device).1 (bootRun device).2 := executes_run device [] _

/-! ## Order and fail-stop -/

/-- A whole session behind the handshake. -/
def ProtocolMode.sessionWords (mode : ProtocolMode) : Language Packet :=
  mode.bodyWords false * mode.endWords

theorem bodyWords_le (mode : ProtocolMode) (dryRun : Bool) :
    mode.bodyWords dryRun ≤ mode.bodyWords false := by
  cases dryRun with
  | false => exact le_rfl
  | true =>
      rintro _ ⟨word, hword, _, rfl, rfl⟩
      exact Language.append_mem_mul hword
        (Language.append_mem_mul (Language.nil_mem_kstar _)
          (Language.append_mem_mul (nil_mem_optional _) (nil_mem_optional _)))

/-- In Thor mode file data directly follows the packet that announces it. -/
theorem preceded_bodyWords : Preceded (fun packet => ∃ bytes, packet = .data bytes)
    (fun packet => ∃ index size, packet = .thor (.filePart index size))
    (ProtocolMode.thor.bodyWords false) := by
  have hpart : Preceded (fun packet => ∃ bytes, packet = .data bytes)
      (fun packet => ∃ index size, packet = .thor (.filePart index size)) partWords := by
    rintro _ ⟨index, size, bytes, rfl⟩ before packet rest hsplit ⟨_, rfl⟩
    cases before with
    | nil => simp at hsplit
    | cons first before =>
        obtain ⟨rfl, htail⟩ := List.cons.inj hsplit
        cases before with
        | nil => exact ⟨[], _, rfl, index, size, rfl⟩
        | cons second before => simp at htail
  have hcommand : ∀ {kind : Packet → Prop}, (∀ packet, kind packet → ¬ ∃ bytes, packet = .data bytes) →
      Over (fun packet => ¬ ∃ bytes, packet = .data bytes) (packetWords kind) := over_packetWords
  refine (Over.preceded ((hcommand ?_).mul ((hcommand ?_).mul (hcommand ?_)))).mul
    ((Preceded.star (((Over.preceded (hcommand ?_)).mul (Preceded.star hpart)).mul
      (Over.preceded (hcommand ?_)))).mul
      (Over.preceded ((over_one.add (hcommand ?_)).mul (over_one.add (hcommand ?_)))))
  all_goals
    rintro packet hkind ⟨bytes, rfl⟩
    simp at hkind

/-- The order of the packets behind the handshake, and what comes after a
failure. -/
structure Disciplined (mode : ProtocolMode) (rc : ExitCode) (xs : List Exchange) : Prop where
  /-- The packets are an initial part of a session, to which a run that fails
  may add the end command. -/
  ordered : (∃ word ∈ mode.sessionWords, messages xs <+: word) ∨
    rc ≠ .success ∧ ∃ part last, messages xs = part ++ [last] ∧ [last] ∈ mode.endWords ∧
      ∃ word ∈ mode.sessionWords, part <+: word
  /-- In Thor mode data is sent only when its part has just been acknowledged. -/
  announced : mode = .thor → ∀ before x rest, xs = before ++ x :: rest →
    (∃ bytes, x.packet = .data bytes) → ∃ first y, before = first ++ [y] ∧
      (∃ index size, y.packet = .thor (.filePart index size)) ∧
      y.accepted (after 0 first) = true
  /-- A transfer is ended only when everything before it was acknowledged. -/
  delivered : ∀ before x rest, xs = before ++ x :: rest →
    (∃ id, x.packet = .thor (.endFileTransfer id)) → AllAccepted (0 : UInt32) before
  /-- Nothing but the end command follows a failed exchange. -/
  failStop : ∀ before x rest, xs = before ++ x :: rest → x.accepted (after 0 before) = false →
    ∀ y ∈ rest, y.packet.isEndSession = true

theorem isEndSession_of_mem_endWords {mode : ProtocolMode} {packet : Packet}
    (h : [packet] ∈ mode.endWords) : packet.isEndSession = true :=
  (over_endWords mode _ h packet (List.mem_singleton_self _)).2.1

theorem RunTurns.disciplined {mode : ProtocolMode} {dryRun : Bool} {rc : ExitCode}
    {xs : List Exchange} (h : RunTurns mode dryRun rc xs) : Disciplined mode rc xs := by
  obtain ⟨ys, zs, rfl, hinner, hend⟩ := h.split
  have horderly := hinner.mono (bodyWords_le mode dryRun)
  obtain ⟨word, hword, hinit⟩ := horderly.initial
  obtain ⟨last, hlast⟩ := exists_mem_endWords mode
  have hinitial : ∃ word ∈ mode.sessionWords, messages ys <+: word :=
    ⟨_, Language.append_mem_mul hword hlast, hinit.trans (List.prefix_append _ _)⟩
  -- A packet that does not end the session stands in front of the end command.
  have hlocate : ∀ {before x rest}, ys ++ zs = before ++ x :: rest →
      x.packet.isEndSession = false → ∃ tail, ys = before ++ x :: tail := by
    intro before x rest hsplit hx
    obtain ⟨tail, htail, -⟩ | ⟨start, -, hstart⟩ := split_at_turn hsplit
    · exact ⟨tail, htail⟩
    · obtain ⟨rfl, -⟩ | ⟨z, rfl, hz⟩ := hend
      · simp at hstart
      · obtain rfl : z = x := by
          cases start with
          | nil => exact (List.cons.inj hstart).1
          | cons => simp at hstart
        simp [isEndSession_of_mem_endWords hz] at hx
  refine ⟨?_, ?_, ?_, ?_⟩
  · obtain ⟨rfl, hrc⟩ | ⟨z, rfl, hz⟩ := hend
    · rw [List.append_nil]
      exact .inl hinitial
    · by_cases hrc : rc = .success
      · refine .inl ⟨_, Language.append_mem_mul (horderly.whole hrc).2 hz, ?_⟩
        rw [messages_append]
        exact List.prefix_rfl
      · exact .inr ⟨hrc, messages ys, z.packet, messages_append, hz, hinitial⟩
  · rintro rfl before x rest hsplit ⟨bytes, hx⟩
    obtain ⟨tail, rfl⟩ := hlocate hsplit (by rw [hx]; rfl)
    exact horderly.preceded preceded_bodyWords ⟨bytes, hx⟩
  · rintro before x rest hsplit ⟨id, hx⟩
    obtain ⟨tail, rfl⟩ := hlocate hsplit (by rw [hx]; rfl)
    exact horderly.failStop.before
  · intro before x rest hsplit hx y hy
    obtain ⟨tail, rfl, rfl⟩ | ⟨start, -, hstart⟩ := split_at_turn hsplit
    · obtain rfl := horderly.failStop.eq_nil hx
      obtain ⟨rfl, -⟩ | ⟨z, rfl, hz⟩ := hend
      · simp at hy
      · obtain rfl : y = z := by simpa using hy
        exact isEndSession_of_mem_endWords hz
    · obtain ⟨rfl, -⟩ | ⟨z, rfl, -⟩ := hend
      · simp at hstart
      · cases start with
        | nil =>
            obtain rfl := (List.cons.inj hstart).2
            simp at hy
        | cons => simp at hstart

/-- Order and fail-stop of every run. -/
theorem runForDevice_disciplined {host : Host} {cfg : OdinConfig} {trace : UsbTrace}
    {rc : ExitCode} (h : (runForDevice host cfg).Executes trace rc) :
    ∃ opened hs xs, trace = ⟨.openDevice cfg.devicePath (criteriaFromConfig cfg), opened⟩ ::
        (hs ++ xs).flatMap Exchange.events ∧
      messages hs <+: [.preamble, .thor .handshake] ∧
      (xs ≠ [] → ∃ mode : ProtocolMode, messages hs = mode.handshakePackets ∧
        Disciplined mode rc xs) := by
  obtain ⟨opened, hs, xs, htrace, hturns⟩ := runForDevice_turns h
  refine ⟨opened, hs, xs, htrace, ?_⟩
  obtain ⟨rfl, hinit, -⟩ | ⟨mode, hhandshake, hrun⟩ := hturns
  · exact ⟨hinit, fun hxs => absurd rfl hxs⟩
  · refine ⟨?_, fun _ => ⟨mode, hhandshake, hrun.disciplined⟩⟩
    rw [hhandshake]
    cases mode with
    | thor => exact List.prefix_rfl
    | odinLegacy => exact ⟨[.thor .handshake], rfl⟩

/-- The device of `thorDevice`, but the data of an image are not acknowledged. -/
def dataRefusingDevice : UsbEnvironment :=
  answeringDevice fun
    | .data _, size => leBytes size 0
    | packet, size => thorAnswers bootPit packet size

/-- An image whose data are refused: its end is not announced, and the session is closed. -/
theorem runForDevice_disciplined_refused :
    (sent (bootRun dataRefusingDevice).1 = [.preamble, .thor .handshake, .thor .deviceType,
        .thor .beginSession, .thor .pitFile, .thor (.filePartSize 3), .thor (.filePart 0 3),
        .data [1, 2, 3], .thor .endSession] ∧ (bootRun dataRefusingDevice).2 = .protocol) ∧
    ∃ opened hs xs, (bootRun dataRefusingDevice).1 =
        ⟨.openDevice [] (criteriaFromConfig { ap := ascii "firmware.tar" }), opened⟩ ::
          (hs ++ xs).flatMap Exchange.events ∧
      messages hs <+: [.preamble, .thor .handshake] ∧
      ∃ mode : ProtocolMode, messages hs = mode.handshakePackets ∧
        Disciplined mode (bootRun dataRefusingDevice).2 xs := by
  have hsent : sent (bootRun dataRefusingDevice).1 = [.preamble, .thor .handshake,
      .thor .deviceType, .thor .beginSession, .thor .pitFile, .thor (.filePartSize 3),
      .thor (.filePart 0 3), .data [1, 2, 3], .thor .endSession] := by decide +kernel
  have hcode : (bootRun dataRefusingDevice).2 = .protocol := by decide +kernel
  obtain ⟨opened, hs, xs, htrace, hinit, hdisciplined⟩ :=
    runForDevice_disciplined (executes_bootRun dataRefusingDevice)
  refine ⟨⟨hsent, hcode⟩, opened, hs, xs, htrace, hinit, hdisciplined ?_⟩
  rintro rfl
  -- More packets were sent than a handshake has.
  rw [htrace, sent_open, sent_exchanges, List.append_nil] at hsent
  have hle := hinit.length_le
  rw [hsent] at hle
  exact absurd hle (by decide)

/-! ## A check writes nothing -/

theorem isCheckTraffic_of_prefix {hs : List Exchange} {words : List Packet}
    (h : messages hs <+: words) (hwords : ∀ packet ∈ words, packet.isCheckTraffic = true) :
    ∀ packet ∈ messages hs, packet.isCheckTraffic = true :=
  fun packet hmem => hwords packet (h.subset hmem)

/-- Nothing of a check-only run changes the device. -/
theorem RunTurns.isCheckTraffic {mode : ProtocolMode} {rc : ExitCode} {xs : List Exchange}
    (h : RunTurns mode true rc xs) : ∀ packet ∈ messages xs, packet.isCheckTraffic = true := by
  obtain ⟨ys, zs, rfl, horderly, hend⟩ := h.split
  obtain ⟨word, hword, hinit⟩ := horderly.initial
  have hbody : Over (fun packet => packet.isCheckTraffic = true) (mode.bodyWords true) :=
    ((over_frame mode).mono fun _ h => h.1).mul over_one
  intro packet hmem
  rw [messages_append] at hmem
  rcases List.mem_append.mp hmem with hmem | hmem
  · exact hbody word hword packet (hinit.subset hmem)
  · obtain ⟨rfl, -⟩ | ⟨z, rfl, hz⟩ := hend
    · simp at hmem
    · exact (over_endWords mode _ hz packet hmem).1

/-- A run with `dryRun` sends handshake, device type, session begin, PIT and
session end packets and no others, so none that changes the device. -/
theorem dryRun_sends_checkTraffic {host : Host} {cfg : OdinConfig} {trace : UsbTrace}
    {rc : ExitCode} (hdry : cfg.dryRun = true) (h : (runForDevice host cfg).Executes trace rc) :
    ∀ packet ∈ sent trace, packet.isCheckTraffic = true ∧ packet.changesDevice = false := by
  obtain ⟨opened, hs, xs, rfl, hturns⟩ := runForDevice_turns h
  intro packet hmem
  rw [sent_open, sent_exchanges, messages_append] at hmem
  have htraffic : packet.isCheckTraffic = true := by
    obtain ⟨rfl, hinit, -⟩ | ⟨mode, hhandshake, hrun⟩ := hturns
    · rw [messages_nil, List.append_nil] at hmem
      exact isCheckTraffic_of_prefix hinit (by decide) packet hmem
    · rw [hdry] at hrun
      rcases List.mem_append.mp hmem with hmem | hmem
      · exact isCheckTraffic_of_prefix (by rw [hhandshake]) (by cases mode <;> decide) packet hmem
      · exact hrun.isCheckTraffic packet hmem
  exact ⟨htraffic, Packet.not_changesDevice_of_isCheckTraffic htraffic⟩

/-- A check of one archive. The restart behind it is asked for in vain. -/
def checkRun (device : UsbEnvironment) : UsbTrace × ExitCode :=
  (runForDevice (archiveHost bootArchive)
    { ap := ascii "firmware.tar", reboot := true, dryRun := true }).run device []

theorem dryRun_sends_checkTraffic_boot :
    ((checkRun thorDevice).2 = .success ∧
      sent (checkRun thorDevice).1 = [.preamble, .thor .handshake, .thor .deviceType,
        .thor .beginSession, .thor .pitFile, .thor .endSession] ∧
      ∀ packet ∈ sent (checkRun thorDevice).1,
        packet.isCheckTraffic = true ∧ packet.changesDevice = false) ∧
    ((checkRun lokeDevice).2 = .success ∧
      sent (checkRun lokeDevice).1 = [.preamble, .odin 0x64 0x00 (leBytes 4 0x7FFFFFFF),
        .odin 0x65 0x01 [], .odin 0x65 0x02 (leBytes 4 0), .odin 0x65 0x03 [],
        .odin 0x67 0x00 []] ∧
      ∀ packet ∈ sent (checkRun lokeDevice).1,
        packet.isCheckTraffic = true ∧ packet.changesDevice = false) :=
  ⟨⟨by decide +kernel, by decide +kernel,
      dryRun_sends_checkTraffic rfl (executes_run thorDevice [] _)⟩,
    ⟨by decide +kernel, by decide +kernel,
      dryRun_sends_checkTraffic rfl (executes_run lokeDevice [] _)⟩⟩

end Odin4
