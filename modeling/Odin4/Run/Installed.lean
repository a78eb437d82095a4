import Odin4.Run.Main
import Odin4.Run.SessionShape

/-!
# From archives to partitions

A run that succeeds, seen from the far end of the cable: the bytes that the device
takes are the packets of a session one after the other. A receiver that reads them
apart and does what they say has in the end written the images of the archives to the
partitions of the PIT, and nothing else, in either protocol.
-/

namespace Odin4

open Interaction Program Dialogue

/-! ## The bytes of a run -/

/-- A packet that was handed over went out in full. -/
def UsbEvent.WroteAll (event : UsbEvent) : Prop :=
  ∀ packet timeoutMs ok, event = ⟨.bulkWriteAll packet timeoutMs, ok⟩ → ok = true

section Bytes

theorem taken_of_event {event : UsbEvent} {below : LibusbTrace} (hbus : OnTheBus event below)
    (hwrote : UsbEvent.WroteAll event) :
    takenBytes (outTransfers below) = (sent [event]).flatMap Packet.encode := by
  obtain ⟨request, reply⟩ := event
  cases request with
  | openDevice specificPath criteria =>
      have hnone : outTransfers below = [] := hbus
      rw [hnone]
      rfl
  | bulkWriteAll packet timeoutMs =>
      have hwhole : takenBytes (outTransfers below) = packet.encode :=
        hbus.2 (hwrote packet timeoutMs reply rfl)
      rw [hwhole]
      exact (List.append_nil _).symm
  | bulkReadOnce size timeoutMs =>
      have hnone : outTransfers below = [] := hbus.1
      rw [hnone]
      rfl
  | receivePacket size isControl minSize timeoutOverrideMs =>
      have hnone : outTransfers below = [] := hbus.1
      rw [hnone]
      rfl

/-- Operations that write in full put their packets on the bus one after the other. -/
theorem taken_of_carried {carried : List UsbCarriedCall}
    (hbus : ∀ x ∈ carried, OnTheBus x.event x.below)
    (hwrote : ∀ event ∈ carried.map CarriedCall.event, UsbEvent.WroteAll event) :
    takenBytes (outTransfers (carried.flatMap CarriedCall.below)) =
      (sent (carried.map CarriedCall.event)).flatMap Packet.encode := by
  induction carried with
  | nil => rfl
  | cons x rest ih =>
      obtain ⟨hx, hrest⟩ := List.forall_mem_cons.mp hbus
      rw [List.map_cons] at hwrote
      obtain ⟨hxWrote, hrestWrote⟩ := List.forall_mem_cons.mp hwrote
      have hcons : sent (x.event :: rest.map CarriedCall.event) =
          sent [x.event] ++ sent (rest.map CarriedCall.event) := sent_append [x.event] _
      rw [List.flatMap_cons, outTransfers_append, takenBytes_append, taken_of_event hx hxWrote,
        ih hrest hrestWrote, List.map_cons, hcons, List.flatMap_append]

theorem wroteAll_read (read : UsbRead) : UsbEvent.WroteAll read.event := by
  intro packet timeoutMs ok h
  cases read <;> cases h

theorem wroteAll_exchange {x : Exchange} {s : UInt32} (h : x.accepted s = true) :
    ∀ event ∈ x.events, UsbEvent.WroteAll event := by
  have hwritten : x.written = true := by
    rw [Exchange.accepted, Bool.and_eq_true, Bool.and_eq_true] at h
    exact h.1.1
  intro event hevent
  rcases List.mem_cons.mp hevent with rfl | hread
  · rintro packet timeoutMs ok ⟨⟩
    exact hwritten
  · obtain ⟨read, -, rfl⟩ := List.mem_map.mp hread
    exact wroteAll_read read

/-- Of the one packet of an exchange the device takes an initial part. -/
theorem taken_of_exchange {carried : List UsbCarriedCall} {x : Exchange}
    (hbus : ∀ y ∈ carried, OnTheBus y.event y.below)
    (hevents : carried.map CarriedCall.event = x.events) :
    takenBytes (outTransfers (carried.flatMap CarriedCall.below)) <+: x.packet.encode := by
  obtain ⟨write, reads, rfl, hwrite, hreads⟩ := List.map_eq_cons_iff.mp hevents
  obtain ⟨hwriteBus, hreadsBus⟩ := List.forall_mem_cons.mp hbus
  have hnothing := taken_of_carried hreadsBus (by
    rw [hreads]
    intro event hevent
    obtain ⟨read, -, rfl⟩ := List.mem_map.mp hevent
    exact wroteAll_read read)
  rw [hreads, sent_reads] at hnothing
  rw [List.flatMap_cons, outTransfers_append, takenBytes_append, hnothing, List.flatMap_nil,
    List.append_nil]
  obtain ⟨event, below⟩ := write
  obtain rfl : event = ⟨.bulkWriteAll x.packet x.timeoutMs, x.written⟩ := hwrite
  exact hwriteBus.1

end Bytes

/-! ## The receiving side of a run -/

section Receiving

variable {mode : ProtocolMode} {Reading State Image : Type}

/-- The bytes, read apart behind what there is of the preamble, have a receiver
write these images and leave nothing half received. -/
def Installs (framing : Framing Packet Reading UInt8) (start : Reading)
    (R : Receiver mode State Image) (bytes : Bytes) (images : List Image) : Prop :=
  ∃ front behind packets, bytes = front ++ behind ∧ front <+: Packet.encode .preamble ∧
    framing.readAll start behind = some packets ∧
    listen R.receive (R.idle []) packets = some (R.idle images)

/-- The bytes of a run have a receiver write the images of the members of its archives;
where these are archives of files, the images of the files. -/
def InstallsArchives (framing : Framing Packet Reading UInt8) (start : Reading)
    (R : Receiver mode State Image) (host : Host) (cfg : OdinConfig) (link : UsbTrace)
    (bytes : Bytes) : Prop :=
  (∃ pit, ReadsPit mode cfg link pit ∧
    Installs framing start R bytes (flashed cfg (memberImages R host cfg pit))) ∧
  ∀ files, ArchivesOf host cfg files → ∃ pit, ReadsPit mode cfg link pit ∧
    Installs framing start R bytes (flashed cfg fun path => R.fileImages host.lz4 pit (files path))

end Receiving

/-- The calls to the USB library carry out the operations of the link; the calls
around them send nothing. -/
def CarriesLink (trace : LibusbTrace) (link : UsbTrace) : Prop :=
  ∃ (before : LibusbTrace) (carried : List UsbCarriedCall) (closing : LibusbTrace),
    trace = before ++ (carried.flatMap CarriedCall.below ++ closing) ∧
    link = carried.map CarriedCall.event ∧ (∀ x ∈ carried, OnTheBus x.event x.below) ∧
    outTransfers before = [] ∧ outTransfers closing = []

section Installing

variable {host : Host} {cfg : OdinConfig} {once once' : Option Bool} {trace : LibusbTrace}

theorem runForDeviceOverLibusb_carries {rc : ExitCode}
    (hexec : (runForDeviceOverLibusb host cfg once).Executes trace (rc, once')) :
    ∃ link, CarriesLink trace link ∧ (runForDevice host cfg).Executes link rc := by
  obtain ⟨opening, session, closing, opened, usb, rfl, hparts⟩ := runForDeviceOverLibusb_parts hexec
  obtain ⟨ready, hopen⟩ := hparts.opens
  obtain ⟨maxChunkBytes, closed, hclose⟩ := hparts.closes
  refine ⟨_, ⟨[], ⟨⟨.openDevice cfg.devicePath (criteriaFromConfig cfg), opened⟩, opening⟩ ::
    session, closing, ?_, rfl, ?_, rfl, (setsUp_destroy _).outTransfers_eq hclose⟩, hparts.runs⟩
  · rw [List.nil_append, List.flatMap_cons, List.append_assoc]
  · refine List.forall_mem_cons.mpr ⟨?_, hparts.bus⟩
    exact (setsUp_openDevice _ _ _ _).outTransfers_eq hopen

/-- What a run that succeeds puts on the bus is its session, in full but for the
preamble. -/
theorem CarriesLink.taken {link : UsbTrace} {packets : List Packet} (h : CarriesLink trace link)
    (hbehind : BehindPreamble cfg link packets) :
    ∃ front, takenBytes (outTransfers trace) = front ++ packets.flatMap Packet.encode ∧
      front <+: Packet.encode .preamble := by
  obtain ⟨before, carried, closing, rfl, rfl, hbus, hbefore, hclosing⟩ := h
  obtain ⟨first, xs, hlink, hfirst, hall, rfl⟩ := hbehind
  obtain ⟨opening, rest, rfl, hopening, hrest⟩ := List.map_eq_cons_iff.mp hlink
  obtain ⟨shaking, session, rfl, hshaking, hsession⟩ := List.map_eq_append_iff.mp hrest
  obtain ⟨hopeningBus, hrestBus⟩ := List.forall_mem_cons.mp hbus
  obtain ⟨hshakingBus, hsessionBus⟩ := List.forall_mem_append.mp hrestBus
  have hnothing : outTransfers opening.below = [] := by
    obtain ⟨event, below⟩ := opening
    obtain rfl : event = ⟨.openDevice cfg.devicePath (criteriaFromConfig cfg), true⟩ := hopening
    exact hopeningBus
  have hfront := taken_of_exchange hshakingBus hshaking
  -- The preamble may be cut short. All that comes behind it was accepted, hence written.
  have hwrote : ∀ event ∈ session.map CarriedCall.event, UsbEvent.WroteAll event := by
    rw [hsession]
    intro event hevent
    obtain ⟨x, hx, hevent⟩ := List.mem_flatMap.mp hevent
    obtain ⟨s, haccepted⟩ := hall.exists_accepted hx
    exact wroteAll_exchange haccepted event hevent
  have hsessionTaken := taken_of_carried hsessionBus hwrote
  rw [hsession, sent_exchanges] at hsessionTaken
  refine ⟨_, ?_, hfirst ▸ hfront⟩
  simp only [List.flatMap_cons, List.flatMap_append, outTransfers_append, takenBytes_append,
    hbefore, hnothing, hclosing, hsessionTaken, List.append_assoc]
  rw [show takenBytes [] = [] from rfl, List.nil_append, List.nil_append, List.append_nil]

theorem sent_behindPreamble {link : UsbTrace} {packets : List Packet}
    (h : BehindPreamble cfg link packets) : sent link = .preamble :: packets := by
  obtain ⟨first, xs, rfl, hfirst, -, rfl⟩ := h
  rw [sent_open, sent_append, sent_exchange, sent_exchanges, hfirst]
  rfl

section Archives

variable {mode : ProtocolMode} {Reading State Image : Type} {R : Receiver mode State Image}
variable {framing : Framing Packet Reading UInt8} {start : Reading} {link : UsbTrace}
variable {packets : List Packet}

/-- Where a session can be read back, a run that succeeds has the device write the images
of the archives. -/
theorem CarriesLink.installs {images : PitTable → Bytes → List Image} (h : CarriesLink trace link)
    (hbehind : BehindPreamble cfg link packets) (hcommits : ArchivesCommit R host cfg images)
    (hexec : (runForDevice host cfg).Executes link .success) (hmode : runMode link = mode)
    (hreads : ∀ images, listen R.receive (R.idle []) packets = some (R.idle images) →
      ∃ read, framing.readAll start (packets.flatMap Packet.encode) = some read ∧
        listen R.receive (R.idle []) read = some (R.idle images)) :
    ∃ pit, ReadsPit mode cfg link pit ∧ Installs framing start R (takenBytes (outTransfers trace))
      (flashed cfg (images pit)) := by
  obtain ⟨front, htaken, hfront⟩ := h.taken hbehind
  obtain ⟨pit, hpit, hreceived⟩ := (runForDevice_commits hcommits hexec hmode).success rfl
  -- To a receiver the preamble means nothing.
  have hpreamble : R.receive (R.idle []) .preamble = some (R.idle []) :=
    R.receive_idle [] .preamble ⟨.inl rfl, rfl⟩
  rw [sent_behindPreamble hbehind, listen_cons, hpreamble, Option.bind_some] at hreceived
  obtain ⟨read, hread, hinstalled⟩ := hreads _ hreceived
  exact ⟨pit, hpit, front, _, read, htaken, hfront, hread, hinstalled⟩

theorem CarriesLink.installsArchives (h : CarriesLink trace link)
    (hbehind : BehindPreamble cfg link packets) (htransfers : R.Transfers host.lz4)
    (hexec : (runForDevice host cfg).Executes link .success) (hmode : runMode link = mode)
    (hreads : ∀ images, listen R.receive (R.idle []) packets = some (R.idle images) →
      ∃ read, framing.readAll start (packets.flatMap Packet.encode) = some read ∧
        listen R.receive (R.idle []) read = some (R.idle images)) :
    InstallsArchives framing start R host cfg link (takenBytes (outTransfers trace)) := by
  constructor
  · exact h.installs hbehind (archivesCommit_members htransfers cfg) hexec hmode hreads
  · exact fun files hfiles =>
      h.installs hbehind (archivesCommit_files htransfers hfiles) hexec hmode hreads

end Archives

/-- A run that succeeds has the device write the images of its archives, in either
protocol. -/
theorem CarriesLink.installsAll {link : UsbTrace} (h : CarriesLink trace link)
    (hexec : (runForDevice host cfg).Executes link .success) :
    (.thor .handshake ∈ sent link → InstallsArchives thorFraming none thorReceiver host cfg link
      (takenBytes (outTransfers trace))) ∧
    (.thor .handshake ∉ sent link → InstallsArchives legacyFraming {} legacyReceiver host cfg link
      (takenBytes (outTransfers trace))) := by
  obtain ⟨packets, hbehind, hthorWords, hlegacyWords⟩ := runForDevice_session hexec
  constructor
  · intro hthor
    refine h.installsArchives hbehind (thorReceiver_transfers host.lz4) hexec (runMode_eq_thor hthor)
      fun images hreceived => ⟨packets, ?_, hreceived⟩
    exact Framing.readAll_encode (ThorReceiver.sequence_of_receiveAll hreceived
      (shaped_thorWords (hthorWords hthor)))
  · intro hlegacy
    obtain ⟨hwords, partSize, hpart, hsettles, hfits⟩ := hlegacyWords hlegacy
    refine h.installsArchives hbehind (legacyReceiver_transfers host.lz4) hexec
      (runMode_eq_legacy hlegacy) fun images hreceived => ⟨packets.map Packet.arrived, ?_, ?_⟩
    · exact readAll_session hpart hsettles hreceived rfl hfits (endsBetween_legacyWords hwords)
    · exact (LegacyReceiver.receiveAll_arrived _ packets).trans hreceived

theorem CarriesLink.behind {link : UsbTrace} {listing : LibusbTrace} (h : CarriesLink trace link)
    (hlisting : outTransfers listing = []) : CarriesLink (listing ++ trace) link := by
  obtain ⟨before, carried, closing, rfl, hlink, hbus, hbefore, hclosing⟩ := h
  refine ⟨listing ++ before, carried, closing, (List.append_assoc _ _ _).symm, hlink, hbus, ?_,
    hclosing⟩
  rw [outTransfers_append, hlisting, hbefore]
  rfl

end Installing

/-! ## The process -/

section Process

variable {host : Host} {args printed : List Bytes} {settings : Settings} {trace : LibusbTrace}

/-- A process that was told to work and ends well has performed a run that ended well. -/
theorem selectAndRun_carries {cfg : OdinConfig}
    (hexec : (selectAndRun host cfg).Executes trace .success) :
    ∃ link path, CarriesLink trace link ∧
      (runForDevice host { cfg with devicePath := path }).Executes link .success := by
  unfold selectAndRun at hexec
  split at hexec
  next hunnamed =>
    obtain ⟨listing, ⟨paths, once⟩, behind, rfl, hlists, hbehind⟩ := executes_bind.mp hexec
    dsimp only at hbehind
    split at hbehind
    next path =>
      obtain ⟨run, ⟨code, once'⟩, last, rfl, hruns, rfl, rfl⟩ := executes_bind.mp hbehind
      obtain ⟨link, hcarries, hlink⟩ := runForDeviceOverLibusb_carries hruns
      rw [List.append_nil]
      refine ⟨link, path, hcarries.behind ?_, hlink⟩
      -- Listing the devices sends nothing.
      refine List.filterMap_eq_nil_iff.mpr fun event hevent => ?_
      have hsetUp := (listDownloadDevices_leaves hlists).transfers event hevent
      obtain ⟨request, reply⟩ := event
      cases request with
      | bulkOut => cases hsetUp
      | _ => rfl
    next => cases hbehind.2
  next hnamed =>
    obtain ⟨run, ⟨code, once'⟩, last, rfl, hruns, rfl, rfl⟩ := executes_bind.mp hexec
    obtain ⟨link, hcarries, hlink⟩ := runForDeviceOverLibusb_carries hruns
    rw [List.append_nil]
    exact ⟨link, cfg.devicePath, hcarries, hlink⟩

/-- A process that ends well has had the device write the images of its archives, and
nothing else, whatever the device and the bus have done on the way. For archives of
files these are the images of the files. -/
theorem processArgumentsAndRun_installs
    (hexec : (processArgumentsAndRun host args).Executes trace (.success, printed))
    (haccepted : parseArguments {} args = .run settings) :
    ∃ link path, CarriesLink trace link ∧
      (runForDevice host { settings.cfg with devicePath := path }).Executes link .success ∧
      (.thor .handshake ∈ sent link → InstallsArchives thorFraming none thorReceiver host
        { settings.cfg with devicePath := path } link (takenBytes (outTransfers trace))) ∧
      (.thor .handshake ∉ sent link → InstallsArchives legacyFraming {} legacyReceiver host
        { settings.cfg with devicePath := path } link (takenBytes (outTransfers trace))) := by
  have hselect : (selectAndRun host settings.cfg).Executes trace .success := by
    unfold processArgumentsAndRun at hexec
    rw [haccepted] at hexec
    dsimp only at hexec
    split at hexec
    next => cases (executes_pure.mp hexec).2
    next =>
      split at hexec
      next => cases (executes_pure.mp hexec).2
      next =>
        obtain ⟨first, code, last, rfl, hfirst, hlast⟩ := executes_bind.mp hexec
        obtain ⟨rfl, rfl, -⟩ := executes_pure_pair.mp hlast
        rwa [List.append_nil]
  obtain ⟨link, path, hcarries, hlink⟩ := selectAndRun_carries hselect
  exact ⟨link, path, hcarries, hlink, hcarries.installsAll hlink⟩

end Process

/-- A process that flashes an archive with the one image `boot.img`. -/
def flashProcess : LibusbTrace × (ExitCode × List Bytes) :=
  (processArgumentsAndRun (archiveHost bootArchive) [ascii "-a", ascii "firmware.tar"]).run
    (thorBus bootPit) []

/-- The session of a Thor device that is sent this image for its first partition. -/
def bootPackets : List Packet :=
  [.thor .handshake, .thor .deviceType, .thor .beginSession, .thor .pitFile,
    .thor (.filePartSize 3), .thor (.filePart 0 3), .data [1, 2, 3], .thor (.endFileTransfer 1),
    .thor .endSession]

theorem flashProcess_installs : Installs thorFraming none thorReceiver
    (takenBytes (outTransfers flashProcess.1)) [⟨1, [1, 2, 3]⟩] := by
  have htaken : takenBytes (outTransfers flashProcess.1) =
      Packet.encode .preamble ++ bootPackets.flatMap Packet.encode := by decide +kernel
  have hsequence : thorFraming.Sequence none bootPackets :=
    ⟨trivial, trivial, trivial, trivial, trivial, trivial, rfl, trivial, trivial, rfl⟩
  exact ⟨_, _, bootPackets, htaken, List.prefix_rfl, Framing.readAll_encode hsequence, by decide⟩

theorem processArgumentsAndRun_installs_boot :
    flashProcess.2 = (.success, []) ∧ Installs thorFraming none thorReceiver
      (takenBytes (outTransfers flashProcess.1)) [⟨1, [1, 2, 3]⟩] ∧
    ∃ link path, CarriesLink flashProcess.1 link ∧
      (runForDevice (archiveHost bootArchive)
        { ap := ascii "firmware.tar", devicePath := path }).Executes link .success := by
  have hresult : flashProcess.2 = (.success, []) := by decide +kernel
  have haccepted : parseArguments {} [ascii "-a", ascii "firmware.tar"] =
      .run { cfg := { ap := ascii "firmware.tar" } } := by decide +kernel
  refine ⟨hresult, flashProcess_installs, ?_⟩
  have hexec : (processArgumentsAndRun (archiveHost bootArchive)
      [ascii "-a", ascii "firmware.tar"]).Executes flashProcess.1 flashProcess.2 :=
    executes_run (thorBus bootPit) [] _
  rw [hresult] at hexec
  generalize flashProcess.1 = trace at hexec ⊢
  generalize archiveHost bootArchive = host at hexec ⊢
  obtain ⟨link, path, hcarries, hlink, -⟩ := processArgumentsAndRun_installs hexec haccepted
  exact ⟨link, path, hcarries, hlink⟩

end Odin4
