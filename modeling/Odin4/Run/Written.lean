import Odin4.Archive.LegacyCommitted
import Odin4.Archive.PackedFiles
import Odin4.Archive.ThorCommitted
import Odin4.Run.FlashedOnce
import Odin4.Run.OneProtocol

/-!
# What a run writes

A run makes sense to the receiving side whatever it answers, in either protocol:
every packet fits, nothing is left half received, and what has been committed are
the images of the archives, from the first one on. A run that succeeds has written
them all, and a check has written none.
-/

namespace Odin4

open Interaction Program Dialogue

/-- What a run is to write where its archives stand for these images, in the order in
which they are written. -/
def flashed {Image : Type} (cfg : OdinConfig) (images : Bytes → List Image) : List Image :=
  if cfg.dryRun then [] else (archives cfg).flatMap images

/-- The protocol of a run, which its handshake settles. -/
def runMode (trace : UsbTrace) : ProtocolMode :=
  if .thor .handshake ∈ sent trace then .thor else .odinLegacy

theorem runMode_eq_thor {trace : UsbTrace} (h : .thor .handshake ∈ sent trace) :
    runMode trace = .thor := if_pos h

theorem runMode_eq_legacy {trace : UsbTrace} (h : .thor .handshake ∉ sent trace) :
    runMode trace = .odinLegacy := if_neg h

/-! ## Between the files -/

section Commands

variable {usb : UsbDevice} {trace : UsbTrace} {packet : Packet}

theorem mem_sent (h : packet ∈ sent trace) : ∃ event ∈ trace, packet ∈ UsbEvent.packet? event :=
  List.mem_filterMap.mp h

theorem UsbDevice.Commands.isCommand (h : usb.Commands packet) :
    usb.protocolMode.IsCommand packet := by
  cases hmode : usb.protocolMode with
  | thor =>
      rw [UsbDevice.Commands, hmode] at h
      exact h
  | odinLegacy =>
      rw [UsbDevice.Commands, hmode] at h
      obtain ⟨cmd, subcmd, payload, hpacket, -⟩ := h
      exact ⟨cmd, subcmd, payload, hpacket⟩

theorem isCommand_of_endWords {mode : ProtocolMode} (h : [packet] ∈ mode.endWords) :
    mode.IsCommand packet := by
  cases mode with
  | thor =>
      obtain ⟨_, rfl, hpacket⟩ := h
      exact ⟨_, List.head_eq_of_cons_eq hpacket⟩
  | odinLegacy =>
      obtain ⟨_, rfl, hpacket⟩ := h
      exact ⟨_, _, _, List.head_eq_of_cons_eq hpacket⟩

/-- Commands that flash nothing. -/
theorem idle_of_quiet {α : Type} {program : Usb α} {a : α} (hwrites : Writes usb.Commands program)
    (hquiet : Quiet program) (hexec : program.Executes trace a) :
    ∀ packet ∈ sent trace, packet.IsIdle usb.protocolMode := by
  intro packet hpacket
  obtain ⟨event, hevent, hmem⟩ := mem_sent hpacket
  refine ⟨.inr (hwrites trace a hexec event hevent packet hmem).isCommand, ?_⟩
  simpa using List.any_eq_false.mp (hquiet trace a hexec) packet hpacket

theorem writes_sendControls (cfg : OdinConfig) (usb : UsbDevice) :
    Writes usb.Commands (sendControls cfg usb) := by
  have hredownload : Writes usb.Commands (do
      if cfg.redownload then
        if !(← sendControl usb thorControlRedownload) then return false
      return true) := by
    refine emits_ite (fun _ => ?_) fun _ => emits_pure _
    exact writes_unless (writes_sendControl usb _) (emits_pure _)
  refine emits_ite (fun _ => ?_) fun _ => hredownload
  exact writes_unless (writes_sendControl usb _) hredownload

end Commands

/-! ## The session -/

section Session

variable {mode : ProtocolMode} {State Image : Type} {R : Receiver mode State Image}
variable {host : Host} {cfg : OdinConfig} {usb : UsbDevice} {pit : PitTable}
variable {images : PitTable → Bytes → List Image}

/-- Each archive of the run has the receiver commit these images. -/
def ArchivesCommit {mode : ProtocolMode} {State Image : Type} (R : Receiver mode State Image)
    (host : Host) (cfg : OdinConfig) (images : PitTable → Bytes → List Image) : Prop :=
  ∀ usb : UsbDevice, usb.protocolMode = mode → usb.Begun → ∀ pit, ∀ path ∈ archives cfg,
    R.Commits (processTarFile host path usb pit true cfg.allowUnknown) (images pit path)

/-- The images of the members of an archive. -/
def memberImages {mode : ProtocolMode} {State Image : Type} (R : Receiver mode State Image)
    (host : Host) (cfg : OdinConfig) (pit : PitTable) (path : Bytes) : List Image :=
  R.images host.lz4 (archiveMembers host pit cfg.allowUnknown path)

theorem archivesCommit_members (htransfers : R.Transfers host.lz4) (cfg : OdinConfig) :
    ArchivesCommit R host cfg (memberImages R host cfg) :=
  fun _ hmode hbegun _ path _ => Receiver.processTarFile_commits htransfers hmode hbegun path

/-- The archives of the run are archives of these files. -/
def ArchivesOf (host : Host) (cfg : OdinConfig) (files : Bytes → List NamedFile) : Prop :=
  ∀ path ∈ archives cfg, ArchiveFile host path (namedArchive (files path))

theorem archivesCommit_files (htransfers : R.Transfers host.lz4)
    {files : Bytes → List NamedFile} (h : ArchivesOf host cfg files) :
    ArchivesCommit R host cfg fun pit path => R.fileImages host.lz4 pit (files path) :=
  fun _ hmode hbegun pit path hpath => (h path hpath).commits htransfers hmode hbegun pit _

theorem takes_commands {α : Type} {program : Usb α} (hmode : usb.protocolMode = mode)
    (hwrites : Writes usb.Commands program) (hquiet : Quiet program) (images : List Image) :
    Takes R.receive (R.idle images) program fun _ receiver => receiver = R.idle images := by
  intro trace a hexec
  have hidle := idle_of_quiet hwrites hquiet hexec
  rw [hmode] at hidle
  exact ⟨_, R.listen_idle hidle images, rfl⟩

theorem takes_endSession (hmode : usb.protocolMode = mode) (state : State) :
    Takes R.receive state (endSession usb) fun _ receiver =>
      receiver = R.idle (R.committed state) := by
  refine takes_exchanges (endSession_single usb) fun xs ok hxs => ⟨_, ?_, rfl⟩
  obtain ⟨packet, hend, hwords, hsingle⟩ := hxs
  rw [hmode] at hwords
  rw [hsingle.messages_eq, listen_cons,
    R.receive_end state packet (isCommand_of_endWords hwords) hend]
  rfl

/-- Archives are flashed one after the other, up to the first failure. -/
theorem processArchives_commits {allowUnknown : Bool} {paths : List Bytes}
    {images : Bytes → List Image} (h : ∀ path ∈ paths,
      R.Commits (processTarFile host path usb pit true allowUnknown) (images path)) :
    R.Commits (processArchives host usb pit true allowUnknown paths) (paths.flatMap images) := by
  induction paths with
  | nil => exact Receiver.commits_pure fun _ => rfl
  | cons path rest ih =>
      obtain ⟨hpath, hrest⟩ := List.forall_mem_cons.mp h
      rw [List.flatMap_cons]
      exact hpath.andThen (ih hrest)

theorem runArchives_commits (hcommits : ArchivesCommit R host cfg images)
    (hmode : usb.protocolMode = mode) (hbegun : usb.Begun) :
    R.Commits (processArchives host usb pit (!cfg.dryRun) cfg.allowUnknown (archives cfg))
      (flashed cfg (images pit)) := by
  unfold flashed
  cases cfg.dryRun with
  | false => exact processArchives_commits (hcommits usb hmode hbegun pit)
  | true =>
      obtain ⟨code, hcode⟩ := processArchives_check usb host pit cfg.allowUnknown (archives cfg)
      rw [Bool.not_true, hcode]
      exact Receiver.commits_pure fun _ => rfl

/-- The end of the session drops what is not complete. -/
theorem takes_runSession (hcommits : ArchivesCommit R host cfg images)
    (hmode : usb.protocolMode = mode) (hbegun : usb.Begun) :
    Takes R.receive (R.idle []) (runSession host cfg usb pit) fun rc receiver =>
      ∃ written, receiver = R.idle written ∧ written <+: flashed cfg (images pit) ∧
        (rc = .success → written = flashed cfg (images pit)) := by
  refine hears_bind (runArchives_commits hcommits hmode hbegun []) fun code receiver hreceived => ?_
  obtain ⟨⟨written, hwritten, hinit⟩, hdone⟩ := hreceived
  rw [List.nil_append] at hwritten hdone
  refine hears_ite (fun hfailed => ?_) fun hgood => ?_
  · refine hears_bind (takes_endSession hmode receiver) fun ok receiver hclosed => hears_pure ?_
    exact ⟨written, by rw [hclosed, hwritten], hinit, fun hsuccess => absurd hsuccess hfailed⟩
  · obtain rfl := hdone (not_not.mp hgood)
    have hend : Writes usb.Commands (do
        if !(← endSession usb) then return ExitCode.protocol
        return ExitCode.success) := writes_unless (writes_endSession usb) (emits_pure _)
    have hendQuiet : Quiet (do
        if !(← endSession usb) then return ExitCode.protocol
        return ExitCode.success) :=
      quiet_bind (quiet_endSession usb) fun _ => quiet_ite (quiet_pure _) (quiet_pure _)
    -- What is left are commands, which change nothing that a receiver keeps.
    refine Hears.mono (takes_commands hmode ?_ ?_ _) fun rc receiver hreceiver =>
      ⟨_, hreceiver, List.prefix_rfl, fun _ => rfl⟩
    · refine emits_ite (fun _ => ?_) fun _ => hend
      refine emits_bind (writes_sendControls cfg usb) fun ok => ?_
      refine emits_ite (fun _ => ?_) fun _ => hend
      exact emits_bind (writes_endSession usb) fun _ => emits_pure _
    · refine quiet_ite (quiet_bind (quiet_sendControls cfg usb) fun ok => ?_) hendQuiet
      exact quiet_ite (quiet_bind (quiet_endSession usb) fun _ => quiet_pure _) hendQuiet

end Session

/-! ## The run -/

section Run

variable {host : Host} {cfg : OdinConfig} {usb : UsbDevice} {pit : PitTable}
variable {trace : UsbTrace} {rc : ExitCode}

/-- What is written to a legacy device is no Thor command. -/
theorem not_thor_mem {α : Type} {program : Usb α} {a : α}
    (hlegacy : usb.protocolMode = .odinLegacy) (hwrites : Writes usb.Speaks program)
    (hexec : program.Executes trace a) (command : ThorPacket) : .thor command ∉ sent trace := by
  intro hmem
  obtain ⟨event, hevent, hpacket⟩ := mem_sent hmem
  rcases hwrites trace a hexec event hevent _ hpacket with hcommand | ⟨bytes, hbytes, -⟩
  · rw [UsbDevice.Commands, hlegacy] at hcommand
    obtain ⟨cmd, subcmd, payload, hpacket, -⟩ := hcommand
    cases hpacket
  · cases hbytes

/-- Connecting selects the protocol, and writes nothing that concerns an image. -/
theorem connect_mode {result : Except ExitCode UsbDevice}
    (hexec : (connect cfg).Executes trace result) :
    ∃ mode, (∀ packet ∈ sent trace, packet.IsIdle mode) ∧
      (.thor .handshake ∈ sent trace ↔ mode = .thor) ∧
      ∀ usb, result = .ok usb → usb.protocolMode = mode := by
  have hquiet := quiet_connect cfg trace result hexec
  obtain ⟨first, opened, rest, rfl, hopen, hrest⟩ := executes_bind.mp hexec
  rw [executes_openDevice] at hopen
  subst hopen
  cases opened with
  | false =>
      obtain ⟨rfl, rfl⟩ := hrest
      exact ⟨.odinLegacy, by simp, by simp, by simp⟩
  | true =>
      obtain ⟨shaken, ⟨ok, usb⟩, second, rfl, hhandshake, hsecond⟩ := executes_bind.mp hrest
      obtain ⟨xs, rfl, hpackets⟩ := handshake_packets {} shaken (ok, usb) hhandshake
      have hshaken : sent (xs.flatMap Exchange.events) = usb.protocolMode.handshakePackets :=
        (sent_exchanges xs).trans hpackets
      have hasked : Writes usb.Commands (requestDeviceType usb) := writes_requestDeviceType usb
      have hlater : (∀ packet ∈ sent second, usb.Commands packet) ∧
          (usb.protocolMode = .odinLegacy → .thor .handshake ∉ sent second) ∧
          ∀ usb', result = .ok usb' → usb'.protocolMode = usb.protocolMode := by
        cases ok with
        | false =>
            obtain ⟨rfl, rfl⟩ := hsecond
            exact ⟨by simp, by simp, by simp⟩
        | true =>
            obtain ⟨asking, ⟨ok, usb'⟩, last, rfl, hasking, hlast⟩ := executes_bind.mp hsecond
            have hmode := requestDeviceType_mode usb asking _ hasking
            have hcommands : ∀ packet ∈ sent asking, usb.Commands packet := by
              intro packet hpacket
              obtain ⟨event, hevent, hmem⟩ := mem_sent hpacket
              exact hasked asking _ hasking event hevent packet hmem
            have hnot := fun hlegacy => not_thor_mem hlegacy hasked.speaks hasking .handshake
            cases ok with
            | false =>
                obtain ⟨rfl, rfl⟩ := hlast
                rw [List.append_nil]
                exact ⟨hcommands, hnot, by simp⟩
            | true =>
                obtain ⟨rfl, rfl⟩ := hlast
                rw [List.append_nil]
                refine ⟨hcommands, hnot, fun usb'' husb => ?_⟩
                obtain rfl := Except.ok.inj husb
                exact hmode
      obtain ⟨hcommands, hnot, hmode⟩ := hlater
      rw [List.singleton_append, sent_open, sent_append, hshaken] at hquiet ⊢
      -- The handshake decides on the protocol, and the question behind it keeps to it.
      refine ⟨usb.protocolMode, fun packet hpacket => ⟨?_, ?_⟩, ?_, hmode⟩
      · rcases List.mem_append.mp hpacket with hfirst | hlater
        · cases hthor : usb.protocolMode with
          | thor =>
              rw [hthor] at hfirst
              rcases List.mem_cons.mp hfirst with rfl | hfirst
              · exact .inl rfl
              · exact .inr ⟨_, List.mem_singleton.mp hfirst⟩
          | odinLegacy =>
              rw [hthor] at hfirst
              exact .inl (List.mem_singleton.mp hfirst)
        · exact .inr (hcommands packet hlater).isCommand
      · simpa using List.any_eq_false.mp hquiet packet hpacket
      · cases hthor : usb.protocolMode with
        | thor => simp [ProtocolMode.handshakePackets]
        | odinLegacy => simp [ProtocolMode.handshakePackets, hnot hthor]

theorem connect_code (cfg : OdinConfig) : Returns (· ≠ .error .success) (connect cfg) := by
  refine returns_bind fun opened => returns_ite (fun _ => returns_pure (by simp)) fun _ => ?_
  refine returns_bind fun shaken => returns_ite (fun _ => returns_pure (by simp)) fun _ => ?_
  exact returns_bind fun asked => returns_ite (fun _ => returns_pure (by simp)) fun _ =>
    returns_pure (by simp)

theorem startSession_code (usb : UsbDevice) : Returns (· ≠ .error .success) (startSession usb) := by
  refine returns_bind fun begun => returns_ite (fun _ => returns_pure (by simp)) fun _ => ?_
  refine returns_bind fun pit? => ?_
  cases pit? with
  | none => exact returns_bind fun _ => returns_pure (by simp)
  | some pit => exact returns_pure (by simp)

/-- What a run has written when it ends. -/
inductive Wrote {Image : Type} (mode : ProtocolMode) (images : PitTable → List Image)
    (cfg : OdinConfig) (trace : UsbTrace) (rc : ExitCode) : List Image → Prop
  | nothing : rc ≠ .success → Wrote mode images cfg trace rc []
  | images {usb pit written} : StartsSession cfg trace usb pit → usb.protocolMode = mode →
      written <+: images pit → (rc = .success → written = images pit) →
      Wrote mode images cfg trace rc written

/-- The receiving side takes every packet of a run, whatever it answers. In the end
no image is half received, and the first images of the archives have been committed;
all of them where the run succeeds. -/
theorem runForDevice_writes {mode : ProtocolMode} {State Image : Type}
    {R : Receiver mode State Image} {images : PitTable → Bytes → List Image}
    (hcommits : ArchivesCommit R host cfg images)
    (hexec : (runForDevice host cfg).Executes trace rc) (hmode : runMode trace = mode) :
    ∃ written, listen R.receive (R.idle []) (sent trace) = some (R.idle written) ∧
      Wrote mode (fun pit => flashed cfg (images pit)) cfg trace rc written := by
  obtain ⟨first, result, rest, rfl, hconnect, hrest⟩ := executes_bind.mp hexec
  obtain ⟨mode', hidle, hhandshake, hsame⟩ := connect_mode hconnect
  have hcode := connect_code cfg first result hconnect
  -- Behind a legacy handshake there is no other one.
  have hmodes : (mode' = .odinLegacy → .thor .handshake ∉ sent rest) → mode' = mode := by
    intro hnot
    rw [← hmode, runMode, sent_append]
    cases mode' with
    | thor => rw [if_pos (List.mem_append_left _ (hhandshake.mpr rfl))]
    | odinLegacy =>
        have hfirst : .thor .handshake ∉ sent first := fun h => by cases hhandshake.mp h
        rw [if_neg (by simp [hfirst, hnot])]
  rw [sent_append]
  cases result with
  | error code =>
      obtain ⟨rfl, rfl⟩ := hrest
      obtain rfl := hmodes fun _ => by simp
      rw [sent_nil, List.append_nil]
      exact ⟨[], R.listen_idle hidle _, .nothing fun hsuccess => hcode (congrArg _ hsuccess)⟩
  | ok connected =>
      have hconnected := hsame connected rfl
      dsimp only at hrest
      split at hrest
      next =>
        obtain ⟨rfl, rfl⟩ := hrest
        obtain rfl := hmodes fun _ => by simp
        rw [sent_nil, List.append_nil]
        exact ⟨[], R.listen_idle hidle _, .nothing (by simp)⟩
      next hfits =>
        obtain ⟨second, result, third, rfl, hsession, hthird⟩ := executes_bind.mp hrest
        have hstarted := startSession_code connected second result hsession
        have hcommands := writes_startSession connected
        have hbegin := idle_of_quiet hcommands (quiet_startSession connected) hsession
        rw [hconnected] at hbegin
        have hnot := fun h : mode' = .odinLegacy =>
          not_thor_mem (hconnected.trans h) hcommands.speaks hsession .handshake
        rw [sent_append] at hmodes ⊢
        cases result with
        | error code =>
            obtain ⟨rfl, rfl⟩ := hthird
            rw [sent_nil, List.append_nil] at hmodes ⊢
            obtain rfl := hmodes hnot
            exact ⟨[], listen_trans (R.listen_idle hidle _) (R.listen_idle hbegin _),
              .nothing fun hsuccess => hstarted (congrArg _ hsuccess)⟩
        | ok started =>
            obtain ⟨usb, pit⟩ := started
            have husb : usb.protocolMode = mode' :=
              (startSession_mode connected second _ hsession usb pit rfl).trans hconnected
            have hbegun := startSession_begun connected second _ hsession usb pit rfl
            obtain rfl := hmodes fun h hmem => (List.mem_append.mp hmem).elim (hnot h)
              (not_thor_mem (husb.trans h) (writes_runSession usb host cfg pit) hthird _)
            obtain ⟨receiver, hreceived, written, rfl, hinit, hdone⟩ :=
              takes_runSession hcommits husb hbegun third rc hthird
            refine ⟨written, listen_trans (R.listen_idle hidle _)
              (listen_trans (R.listen_idle hbegin _) hreceived), ?_⟩
            have hstarts : StartsSession cfg (first ++ (second ++ third)) usb pit :=
              ⟨first, second, third, connected, rfl, hconnect, by simpa using hfits, hsession⟩
            exact .images hstarts husb hinit hdone

end Run

/-! ## Both protocols -/

section Protocols

variable {host : Host} {cfg : OdinConfig} {trace : UsbTrace} {rc : ExitCode}
variable {mode : ProtocolMode} {State Image : Type} {R : Receiver mode State Image}
variable {images : PitTable → Bytes → List Image}

/-- The run has begun a session in this mode and has read this PIT. -/
def ReadsPit (mode : ProtocolMode) (cfg : OdinConfig) (trace : UsbTrace) (pit : PitTable) : Prop :=
  ∃ usb, StartsSession cfg trace usb pit ∧ usb.protocolMode = mode

/-- At every moment of a run the packets so far make sense to the receiving side, and
what has been committed are the first images of the archives. In the end no image is
half received, and a run that succeeds has committed them all. -/
structure CommitsInOrder (R : Receiver mode State Image) (images : PitTable → Bytes → List Image)
    (cfg : OdinConfig) (trace : UsbTrace) (rc : ExitCode) : Prop where
  always : ∀ packets, packets <+: sent trace → ∃ receiver,
    listen R.receive (R.idle []) packets = some receiver ∧ (R.committed receiver = [] ∨
      ∃ pit, ReadsPit mode cfg trace pit ∧ R.committed receiver <+: flashed cfg (images pit))
  whole : ∃ written, listen R.receive (R.idle []) (sent trace) = some (R.idle written)
  success : rc = .success → ∃ pit, ReadsPit mode cfg trace pit ∧
    listen R.receive (R.idle []) (sent trace) = some (R.idle (flashed cfg (images pit)))

theorem runForDevice_commits (hcommits : ArchivesCommit R host cfg images)
    (hexec : (runForDevice host cfg).Executes trace rc) (hmode : runMode trace = mode) :
    CommitsInOrder R images cfg trace rc := by
  obtain ⟨written, hreceived, hwrote⟩ := runForDevice_writes hcommits hexec hmode
  refine ⟨fun packets hinit => ?_, ⟨written, hreceived⟩, fun hsuccess => ?_⟩
  · obtain ⟨receiver, hreceiver, hcommitted⟩ := R.listen_initial hinit hreceived
    rw [R.committed_idle] at hcommitted
    refine ⟨receiver, hreceiver, ?_⟩
    cases hwrote with
    | nothing => exact .inl (List.prefix_nil.mp hcommitted)
    | @images usb pit _ hstarts husb himages _ =>
        exact .inr ⟨pit, ⟨usb, hstarts, husb⟩, hcommitted.trans himages⟩
  · cases hwrote with
    | nothing hfailed => exact absurd hsuccess hfailed
    | @images usb pit _ hstarts husb _ hall =>
        exact ⟨pit, ⟨usb, hstarts, husb⟩, hall hsuccess ▸ hreceived⟩

end Protocols

/-! ## Runs -/

section Runs

variable {host : Host} {cfg : OdinConfig} {trace : UsbTrace} {rc : ExitCode}

/-- Whatever the device answers, a run commits the images of the members of its
archives in order, in either protocol. -/
theorem runForDevice_commits_in_order (hexec : (runForDevice host cfg).Executes trace rc) :
    (.thor .handshake ∈ sent trace →
      CommitsInOrder thorReceiver (memberImages thorReceiver host cfg) cfg trace rc) ∧
    (.thor .handshake ∉ sent trace →
      CommitsInOrder legacyReceiver (memberImages legacyReceiver host cfg) cfg trace rc) := by
  constructor
  · intro hthor
    exact runForDevice_commits (archivesCommit_members (thorReceiver_transfers host.lz4) cfg) hexec
      (runMode_eq_thor hthor)
  · intro hlegacy
    exact runForDevice_commits (archivesCommit_members (legacyReceiver_transfers host.lz4) cfg) hexec
      (runMode_eq_legacy hlegacy)

end Runs

theorem runForDevice_commits_in_order_boot :
    (sent (bootRun thorDevice).1 ≠ [] ∧ CommitsInOrder thorReceiver
      (memberImages thorReceiver (archiveHost bootArchive) { ap := ascii "firmware.tar" })
      { ap := ascii "firmware.tar" } (bootRun thorDevice).1 (bootRun thorDevice).2) ∧
    (sent (bootRun lokeDevice).1 ≠ [] ∧
      CommitsInOrder legacyReceiver
        (memberImages legacyReceiver (archiveHost bootArchive) { ap := ascii "firmware.tar" })
        { ap := ascii "firmware.tar" } (bootRun lokeDevice).1
        (bootRun lokeDevice).2) := by
  have hthor : .thor .handshake ∈ sent (bootRun thorDevice).1 := by decide +kernel
  have hlegacy : .thor .handshake ∉ sent (bootRun lokeDevice).1 := by
    decide +kernel
  have hsent : sent (bootRun lokeDevice).1 ≠ [] := by decide +kernel
  have hexec := executes_bootRun thorDevice
  have hlegacyExec := executes_bootRun lokeDevice
  generalize bootRun lokeDevice = legacyRun at *
  generalize bootRun thorDevice = thorRun at *
  generalize archiveHost bootArchive = host at *
  exact ⟨⟨List.ne_nil_of_mem hthor, (runForDevice_commits_in_order hexec).1 hthor⟩, hsent,
    (runForDevice_commits_in_order hlegacyExec).2 hlegacy⟩

/-! ## Runs with archives of files -/

section Files

variable {host : Host} {cfg : OdinConfig} {trace : UsbTrace} {rc : ExitCode}

end Files

end Odin4
