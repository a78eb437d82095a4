import Odin4.Archive.Origins
import Odin4.Run.Written
import Odin4.Usb.PitDump

/-!
# What is written where

Nothing that a run writes is anything but the image of an archive member, found in
the content of an archive whose name suits the type that the device has reported; and
it goes where the PIT that the same device has delivered says. The device has told
both before the first packet that writes a partition.
-/

namespace Odin4

open Interaction Program Dialogue

/-! ## What a device tells -/

/-- A packet with which the device has replied. -/
def Replied (trace : UsbTrace) (size : Nat) (packet : Bytes) : Prop :=
  ∃ (isControl : Bool) (minSize timeoutMs : Nat) (reply : ReceiveReply size minSize),
    ⟨.receivePacket size isControl minSize timeoutMs, reply⟩ ∈ trace ∧
    reply.map Subtype.val = some packet

/-- The type that the device has reported. Legacy devices are not asked for it. -/
def ProtocolMode.ReportsType (trace : UsbTrace) (deviceType : Bytes) : ProtocolMode → Prop
  | .thor => ∃ response, Replied trace thorDeviceTypePacketSize response ∧
      packetType response = thorPacketDeviceType ∧
      deviceType = (fieldAt response 8 128).takeWhile (· != 0)
  | .odinLegacy => deviceType = []

/-- The bytes of the PIT that the device has delivered, in the size that it announced. -/
def ProtocolMode.DeliversPit (trace : UsbTrace) (pitData : Bytes) : ProtocolMode → Prop
  | .thor => ∃ header, Replied trace thorPitFilePacketSize header ∧
      packetType header = thorPacketPitFile ∧ pitData.length = leAt header 8 4 ∧
      28 ≤ pitData.length ∧ pitData.length ≤ 1048576 ∧ Replied trace pitData.length pitData
  | .odinLegacy => ∃ dumping opening closing blocks, dumping <:+: trace ∧
      PitDumped dumping pitData opening closing blocks

section Telling

variable {part trace : UsbTrace} {mode : ProtocolMode} {deviceType pitData : Bytes}

theorem Replied.mono {size : Nat} {packet : Bytes} (h : Replied part size packet)
    (hpart : part <:+: trace) : Replied trace size packet := by
  obtain ⟨isControl, minSize, timeoutMs, reply, hmem, hreply⟩ := h
  exact ⟨isControl, minSize, timeoutMs, reply, hpart.subset hmem, hreply⟩

theorem ProtocolMode.ReportsType.mono (h : mode.ReportsType part deviceType)
    (hpart : part <:+: trace) : mode.ReportsType trace deviceType := by
  cases mode with
  | thor =>
      obtain ⟨response, hreceived, hresponse⟩ := h
      exact ⟨response, hreceived.mono hpart, hresponse⟩
  | odinLegacy => exact h

theorem ProtocolMode.DeliversPit.mono (h : mode.DeliversPit part pitData)
    (hpart : part <:+: trace) : mode.DeliversPit trace pitData := by
  cases mode with
  | thor =>
      obtain ⟨header, hheader, htype, hsize, hmin, hmax, hdata⟩ := h
      exact ⟨header, hheader.mono hpart, htype, hsize, hmin, hmax, hdata.mono hpart⟩
  | odinLegacy =>
      obtain ⟨dumping, opening, closing, blocks, hdumping, hdumped⟩ := h
      exact ⟨dumping, opening, closing, blocks, hdumping.trans hpart, hdumped⟩

theorem replied_of_executes {size minSize timeoutMs : Nat} {isControl : Bool} {packet : Bytes}
    (h : (receivePacket size isControl minSize timeoutMs).Executes trace (some packet)) :
    Replied trace size packet := by
  obtain ⟨reply, rfl, hreply⟩ := executes_receivePacket.mp h
  exact ⟨isControl, minSize, timeoutMs, reply, List.mem_singleton_self _, hreply.symm⟩

end Telling

/-! ## Asking -/

/-- A buffer that is to be filled. -/
theorem requiredMin_self (size : Nat) : requiredMin size size = size := by
  unfold requiredMin
  split <;> rfl

section Asking

variable {cfg : OdinConfig} {usb usb' : UsbDevice} {trace : UsbTrace} {pit : PitTable}
variable {pitData : Bytes}

theorem requestDeviceType_reports (h : (requestDeviceType usb).Executes trace (true, usb')) :
    usb'.protocolMode.ReportsType trace usb'.deviceTypeStr := by
  unfold requestDeviceType at h
  -- A legacy device is not asked.
  split at h
  next hlegacy =>
    obtain ⟨-, hresult⟩ := h
    obtain ⟨-, rfl⟩ := Prod.mk.inj hresult
    have hmode : usb.protocolMode = .odinLegacy := by simpa [UsbDevice.isOdinLegacy] using hlegacy
    simp [hmode, ProtocolMode.ReportsType]
  next hthor =>
    have hmode := protocolMode_of_isOdinLegacy (Bool.eq_false_iff.mpr hthor)
    obtain ⟨writing, ok, reading, rfl, -, hreading⟩ := executes_bind.mp h
    split at hreading
    next => cases (executes_pure.mp hreading).2
    next =>
      obtain ⟨received, response?, last, rfl, hreceived, hlast⟩ := executes_bind.mp hreading
      cases response? with
      | none => cases (executes_pure.mp hlast).2
      | some response =>
          dsimp only at hlast
          split at hlast
          next => cases (executes_pure.mp hlast).2
          next htype =>
            obtain ⟨rfl, -, rfl⟩ := executes_pure_pair.mp hlast
            have hresponse := replied_of_executes hreceived
            simp only [hmode]
            exact ⟨response, hresponse.mono ⟨writing, [], by simp⟩, not_not.mp htype, rfl⟩

/-- A device that has been connected to has told its type. -/
theorem connect_reports (h : (connect cfg).Executes trace (.ok usb)) :
    usb.protocolMode.ReportsType trace usb.deviceTypeStr := by
  obtain ⟨opening, opened, rest, rfl, -, hrest⟩ := executes_bind.mp h
  split at hrest
  next => cases (executes_pure.mp hrest).2
  next =>
    obtain ⟨shaking, ⟨shaken, connected⟩, rest, rfl, -, hrest⟩ := executes_bind.mp hrest
    dsimp only at hrest
    split at hrest
    next => cases (executes_pure.mp hrest).2
    next =>
      obtain ⟨asking, ⟨asked, answered⟩, last, rfl, hasking, hlast⟩ := executes_bind.mp hrest
      cases asked with
      | false => cases (executes_pure.mp hlast).2
      | true =>
          obtain ⟨rfl, hresult⟩ := executes_pure.mp hlast
          obtain rfl := Except.ok.inj hresult
          exact (requestDeviceType_reports hasking).mono ⟨opening ++ shaking, [], by simp⟩

theorem receivePitTable_delivers (h : receivePitTable.Executes trace (some pit)) :
    ∃ pitData, ProtocolMode.thor.DeliversPit trace pitData ∧ parsePitBytes pitData = some pit := by
  obtain ⟨first, header?, rest, rfl, hfirst, hrest⟩ := executes_bind.mp h
  cases header? with
  | none => cases (executes_pure.mp hrest).2
  | some header =>
      dsimp only at hrest
      split at hrest
      next => cases (executes_pure.mp hrest).2
      next htype =>
        split at hrest
        next => cases (executes_pure.mp hrest).2
        next hsize =>
          obtain ⟨hmin, hmax⟩ := not_or.mp hsize
          obtain ⟨second, pitData?, last, rfl, hsecond, hlast⟩ := executes_bind.mp hrest
          cases pitData? with
          | none => cases (executes_pure.mp hlast).2
          | some pitData =>
              obtain ⟨rfl, hparse⟩ := executes_pure.mp hlast
              have hheader := replied_of_executes hfirst
              have hdata := replied_of_executes hsecond
              -- A table that is shorter than announced is no reply.
              have hlength : pitData.length = leAt header 8 4 := by
                obtain ⟨reply, -, hreply⟩ := executes_receivePacket.mp hsecond
                cases reply with
                | none => cases hreply
                | some data =>
                    obtain rfl := Option.some.inj hreply
                    have hwhole := requiredMin_self (leAt header 8 4)
                    exact Nat.le_antisymm data.property.2 (hwhole.symm.trans_le data.property.1)
              rw [← hlength] at hdata hmin hmax
              exact ⟨pitData, ⟨header, hheader.mono (List.infix_append' [] _ _), not_not.mp htype,
                hlength, Nat.not_lt.mp hmin, Nat.not_lt.mp hmax,
                hdata.mono ⟨first, [], by simp⟩⟩, hparse.symm⟩

theorem requestPit_delivers (h : (requestPit usb).Executes trace (some pit)) :
    ∃ pitData, usb.protocolMode.DeliversPit trace pitData ∧ parsePitBytes pitData = some pit := by
  unfold requestPit at h
  split at h
  next hlegacy =>
    have hmode : usb.protocolMode = .odinLegacy := by simpa [UsbDevice.isOdinLegacy] using hlegacy
    obtain ⟨dumping, pitData?, last, rfl, hdumping, hlast⟩ := executes_bind.mp h
    cases pitData? with
    | none => cases (executes_pure.mp hlast).2
    | some pitData =>
        obtain ⟨rfl, hparse⟩ := executes_pure.mp hlast
        obtain ⟨opening, closing, blocks, hdumped⟩ := odinDumpPit_success hdumping
        rw [List.append_nil, hmode]
        exact ⟨pitData, ⟨dumping, opening, closing, blocks, List.infix_rfl, hdumped⟩, hparse.symm⟩
  next hthor =>
    obtain ⟨asking, asked, rest, rfl, -, hrest⟩ := executes_bind.mp h
    split at hrest
    next => cases (executes_pure.mp hrest).2
    next =>
      obtain ⟨pitData, hdelivers, hparse⟩ := receivePitTable_delivers hrest
      rw [protocolMode_of_isOdinLegacy (Bool.eq_false_iff.mpr hthor)]
      exact ⟨pitData, hdelivers.mono (List.suffix_append _ _).isInfix, hparse⟩

/-- A session whose PIT is known has been begun with a device that delivered it. -/
theorem startSession_delivers (h : (startSession usb).Executes trace (.ok (usb', pit))) :
    ∃ pitData, usb.protocolMode.DeliversPit trace pitData ∧ parsePitBytes pitData = some pit := by
  obtain ⟨beginning, ⟨begun, device⟩, rest, rfl, hbeginning, hrest⟩ := executes_bind.mp h
  have hmode : device.protocolMode = usb.protocolMode :=
    beginSession_mode usb beginning _ hbeginning
  dsimp only at hrest
  split at hrest
  next => cases (executes_pure.mp hrest).2
  next =>
    obtain ⟨requesting, pit?, last, rfl, hrequesting, hlast⟩ := executes_bind.mp hrest
    cases pit? with
    | none =>
        obtain ⟨closing, ended, nothing, -, -, hresult⟩ := executes_bind.mp hlast
        cases (executes_pure.mp hresult).2
    | some pit' =>
        obtain ⟨rfl, hresult⟩ := executes_pure.mp hlast
        obtain ⟨-, rfl⟩ := Prod.mk.inj (Except.ok.inj hresult)
        obtain ⟨pitData, hdelivers, hparse⟩ := requestPit_delivers hrequesting
        rw [List.append_nil, ← hmode]
        exact ⟨pitData, hdelivers.mono (List.suffix_append _ _).isInfix, hparse⟩

end Asking

/-! ## The run -/

/-- What the device has told before anything is flashed. -/
def Tells (mode : ProtocolMode) (trace : UsbTrace) (deviceType pitData : Bytes) : Prop :=
  ∃ before, before <+: trace ∧ (sent before).any Packet.isFlashing = false ∧
    mode.ReportsType before deviceType ∧ mode.DeliversPit before pitData

/-- The archive is one of the run, and its name suits the device. -/
def Chosen (cfg : OdinConfig) (deviceType path : Bytes) : Prop :=
  path ∈ archives cfg ∧
    (deviceType = [] ∨ fileMatches (normalizeDeviceType deviceType) path = true)

/-- These images are for the device that has been asked: each is the image of a
member of a chosen archive and goes where the PIT of the device says. -/
def Suits {Image : Type} (imageOf : PitEntry → Bytes → Image) (host : Host) (cfg : OdinConfig)
    (mode : ProtocolMode) (trace : UsbTrace) (images : List Image) : Prop :=
  cfg.dryRun = false ∧ ∃ deviceType pitData pit, Tells mode trace deviceType pitData ∧
    parsePitBytes pitData = some pit ∧ ∀ image ∈ images, ∃ path member data,
      Chosen cfg deviceType path ∧ Contains host path pit member data ∧
      image = imageOf member.pitEntry data

section Runs

variable {host : Host} {cfg : OdinConfig} {trace : UsbTrace} {rc : ExitCode} {usb : UsbDevice}
variable {pit : PitTable}

theorem StartsSession.tells (h : StartsSession cfg trace usb pit) :
    ∃ deviceType pitData, Tells usb.protocolMode trace deviceType pitData ∧
      parsePitBytes pitData = some pit ∧
      (hasAnyFirmwareFiles cfg && !verifyFirmwareCompatibility cfg deviceType) = false := by
  obtain ⟨first, second, third, connected, rfl, hconnect, hfits, hsession⟩ := h
  have hmode := startSession_mode connected second _ hsession usb pit rfl
  obtain ⟨pitData, hdelivers, hparse⟩ := startSession_delivers hsession
  have hreports := connect_reports hconnect
  have hquiet : (sent (first ++ second)).any Packet.isFlashing = false := by
    rw [sent_append, List.any_append, quiet_connect cfg first _ hconnect,
      quiet_startSession connected second _ hsession]
    rfl
  rw [← hmode] at hreports hdelivers
  refine ⟨connected.deviceTypeStr, pitData, ⟨first ++ second, ?_, hquiet, ?_, ?_⟩, hparse, hfits⟩
  · rw [← List.append_assoc]
    exact List.prefix_append _ _
  · exact hreports.mono (List.prefix_append _ _).isInfix
  · exact hdelivers.mono (List.suffix_append _ _).isInfix

/-- Where there is an archive, the names have been compared. -/
theorem chosen_of_archive {deviceType path : Bytes} (hpath : path ∈ archives cfg)
    (h : (hasAnyFirmwareFiles cfg && !verifyFirmwareCompatibility cfg deviceType) = false) :
    Chosen cfg deviceType path := by
  refine ⟨hpath, ?_⟩
  have hany : hasAnyFirmwareFiles cfg = true := by
    obtain ⟨hmem, hnonempty⟩ := List.mem_filter.mp hpath
    unfold hasAnyFirmwareFiles
    simp only [List.mem_cons, List.not_mem_nil, or_false] at hmem
    rcases hmem with rfl | rfl | rfl | rfl | rfl <;> simp [hnonempty]
  rw [hany, Bool.true_and, Bool.not_eq_false'] at h
  rcases Bool.or_eq_true_iff.mp h with hempty | hall
  · exact .inl (List.isEmpty_iff.mp hempty)
  · exact .inr (List.all_eq_true.mp hall path hpath)

/-- What a run flashes is the image of a member that stands in one of its archives. -/
theorem flashed_contained {mode : ProtocolMode} {State Image : Type} {R : Receiver mode State Image}
    {image : Image} (h : image ∈ flashed cfg (memberImages R host cfg pit)) :
    cfg.dryRun = false ∧ ∃ path ∈ archives cfg, ∃ member data,
      Contains host path pit member data ∧ image = R.imageOf member.pitEntry data := by
  unfold flashed at h
  split at h
  next => cases h
  next hflash =>
    obtain ⟨path, hpath, himage⟩ := List.mem_flatMap.mp h
    obtain ⟨⟨member, file⟩, hfound, rfl⟩ := List.mem_map.mp himage
    exact ⟨Bool.eq_false_iff.mpr hflash, path, hpath, member, _, archiveMembers_origin hfound, rfl⟩

theorem runForDevice_suits {mode : ProtocolMode} {State Image : Type}
    {R : Receiver mode State Image} (htransfers : R.Transfers host.lz4)
    (hexec : (runForDevice host cfg).Executes trace rc) (hmode : runMode trace = mode)
    {packets : List Packet} (hinit : packets <+: sent trace) :
    ∃ receiver, listen R.receive (R.idle []) packets = some receiver ∧
      (R.committed receiver = [] ∨
        Suits R.imageOf host cfg mode trace (R.committed receiver)) := by
  have hcommits := archivesCommit_members htransfers cfg
  obtain ⟨receiver, hreceiver, hcases⟩ :=
    (runForDevice_commits hcommits hexec hmode).always packets hinit
  refine ⟨receiver, hreceiver, ?_⟩
  by_cases hempty : R.committed receiver = []
  · exact .inl hempty
  obtain ⟨pit, ⟨usb, hstarts, rfl⟩, hcommitted⟩ := hcases.resolve_left hempty
  obtain ⟨deviceType, pitData, htells, hparse, hfits⟩ := hstarts.tells
  have hsource : ∀ image ∈ R.committed receiver, cfg.dryRun = false ∧ ∃ path member data,
      Chosen cfg deviceType path ∧ Contains host path pit member data ∧
      image = R.imageOf member.pitEntry data := by
    intro image himage
    obtain ⟨hflash, path, hpath, member, data, hcontains, hto⟩ :=
      flashed_contained (hcommitted.subset himage)
    exact ⟨hflash, path, member, data, chosen_of_archive hpath hfits, hcontains, hto⟩
  obtain ⟨image, himage⟩ := List.exists_mem_of_ne_nil _ hempty
  exact .inr ⟨(hsource image himage).1, deviceType, pitData, pit, htells, hparse,
    fun image himage => (hsource image himage).2⟩

/-- At every moment of a run, whatever the device answers, the images that have been
committed are for the device that has been asked, in either protocol. -/
theorem runForDevice_writes_what_suits (hexec : (runForDevice host cfg).Executes trace rc)
    {packets : List Packet} (hinit : packets <+: sent trace) :
    (.thor .handshake ∈ sent trace → ∃ receiver,
      ThorReceiver.receiveAll {} packets = some receiver ∧ (receiver.committed = [] ∨
        Suits (fun pitEntry image => PartitionImage.mk pitEntry.identifier image) host cfg .thor
          trace receiver.committed)) ∧
    (.thor .handshake ∉ sent trace → ∃ receiver,
      LegacyReceiver.receiveAll {} packets = some receiver ∧ (receiver.committed = [] ∨
        Suits (fun pitEntry image => LegacyImage.mk pitEntry.legacyTarget image) host cfg
          .odinLegacy trace receiver.committed)) := by
  constructor
  · intro hthor
    exact runForDevice_suits (thorReceiver_transfers host.lz4) hexec (runMode_eq_thor hthor) hinit
  · intro hlegacy
    exact runForDevice_suits (legacyReceiver_transfers host.lz4) hexec (runMode_eq_legacy hlegacy)
      hinit

end Runs

/-- What has been committed in the run that flashes `boot.img` is for its device. -/
theorem runForDevice_writes_what_suits_boot :
    Suits (fun pitEntry image => PartitionImage.mk pitEntry.identifier image)
      (archiveHost bootArchive) { ap := ascii "firmware.tar" } .thor (bootRun thorDevice).1
      [⟨1, [1, 2, 3]⟩] := by
  have hreceived : ThorReceiver.receiveAll {} (sent (bootRun thorDevice).1) =
      some ⟨none, [⟨1, [1, 2, 3]⟩]⟩ := by decide +kernel
  have hthor : .thor .handshake ∈ sent (bootRun thorDevice).1 := by decide +kernel
  have hexec := executes_bootRun thorDevice
  generalize bootRun thorDevice = thorRun at *
  generalize archiveHost bootArchive = host at *
  obtain ⟨receiver, hreceiver, hcases⟩ :=
    (runForDevice_writes_what_suits hexec List.prefix_rfl).1 hthor
  obtain rfl := Option.some.inj (hreceived.symm.trans hreceiver)
  exact hcases.resolve_left (List.cons_ne_nil _ _)

end Odin4
