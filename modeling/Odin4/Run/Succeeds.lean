import Odin4.Archive.Passing
import Odin4.Run.SessionShape

/-!
# When a run succeeds

A run succeeds exactly if everything behind the preamble is accepted, the session is
begun with archives that suit the device and with its PIT, and every archive passes.
A check of the same archives with the same PIT therefore tells beforehand how the
flashing will end on a device that accepts everything.
-/

namespace Odin4

open Interaction Program Dialogue

/-! ## Operations that only the device can refuse -/

/-- Where everything is accepted the operation succeeds. -/
abbrev Obliges (program : Usb Bool) : Prop :=
  ∀ s : UInt32, Exchanges program fun xs ok => AllAccepted s xs → ok = true

section Obliging

variable {program rest : Usb Bool} {packet : Packet}

theorem obliges_single (h : Exchanges program (Single packet)) : Obliges program :=
  fun s => h.mono fun _ _ hxs => (hxs.follows s).eq_true

theorem obliges_true : Obliges (pure true) := fun _ => conducts_pure fun _ => rfl

theorem obliges_ite {condition : Prop} [Decidable condition] (hprogram : Obliges program)
    (hrest : Obliges rest) : Obliges (if condition then program else rest) := by
  split
  next => exact hprogram
  next => exact hrest

theorem obliges_unless (hprogram : Obliges program) (hrest : Obliges rest) :
    Obliges (program >>= fun ok => if (!ok) = true then pure false else rest) := by
  intro s
  refine conducts_bind (hprogram s) fun xs ok hok => ?_
  cases ok with
  | false =>
      refine conducts_pure fun hall => ?_
      rw [List.append_nil] at hall
      exact absurd (hok hall) Bool.false_ne_true
  | true => exact (hrest (after s xs)).mono fun ys ok hys hall => hys hall.right

theorem obliges_sendControl (usb : UsbDevice) (controlType : UInt32) :
    Obliges (sendControl usb controlType) := by
  refine obliges_ite (obliges_ite ?_ obliges_true) ?_
  · exact obliges_single (odinCheckedCommand_single (by simp [odinFrameSize]) rfl rfl)
  · exact obliges_single (thorExchangeFull_single rfl)

theorem obliges_sendControls (cfg : OdinConfig) (usb : UsbDevice) :
    Obliges (sendControls cfg usb) := by
  have hredownload : Obliges (do
      if cfg.redownload then
        if !(← sendControl usb thorControlRedownload) then return false
      return true) :=
    obliges_ite (obliges_unless (obliges_sendControl usb _) obliges_true) obliges_true
  exact obliges_ite (obliges_unless (obliges_sendControl usb _) hredownload) hredownload

theorem obliges_endSession (usb : UsbDevice) : Obliges (endSession usb) := by
  refine fun s => (endSession_single usb).mono fun xs ok hxs => ?_
  obtain ⟨packet, -, -, hsingle⟩ := hxs
  exact (hsingle.follows s).eq_true

end Obliging

/-! ## Sessions -/

section Session

variable {usb : UsbDevice} {pit : PitTable}

theorem processArchives_passes (hbegun : usb.Begun) (host : Host) (doFlash allowUnknown : Bool)
    (paths : List Bytes) (s : UInt32) :
    Exchanges (processArchives host usb pit doFlash allowUnknown paths) fun xs code =>
      AllAccepted s xs →
        (code = .success ↔ ∀ path ∈ paths, Passes host usb pit doFlash allowUnknown path) := by
  induction paths generalizing s with
  | nil => exact conducts_pure fun _ => by simp
  | cons path rest ih =>
      refine conducts_bind (processTarFile_passes hbegun host doFlash path s) fun xs code hxs => ?_
      split
      next hfailed =>
        refine conducts_pure fun hall => ?_
        rw [List.append_nil] at hall
        refine iff_of_false hfailed fun hpasses => hfailed ?_
        exact (hxs hall).mpr (hpasses path List.mem_cons_self)
      next hgood =>
        refine (ih (after s xs)).mono fun ys code hys hall => ?_
        have hpath := (hxs hall.left).mp (not_not.mp hgood)
        rw [hys hall.right, List.forall_mem_cons]
        exact (and_iff_right hpath).symm

/-- Behind the archives nothing but a refusal makes a session fail. -/
theorem runSession_passes (hbegun : usb.Begun) (host : Host) (cfg : OdinConfig) (s : UInt32) :
    Exchanges (runSession host cfg usb pit) fun xs rc => AllAccepted s xs →
      (rc = .success ↔
        ∀ path ∈ archives cfg, Passes host usb pit (!cfg.dryRun) cfg.allowUnknown path) := by
  have hend : ∀ s, Exchanges (do
      if !(← endSession usb) then return ExitCode.protocol
      return ExitCode.success) fun xs rc => AllAccepted s xs → rc = .success := by
    intro s
    refine conducts_bind (obliges_endSession usb s) fun xs ok hok => ?_
    cases ok with
    | false =>
        refine conducts_pure fun hall => ?_
        rw [List.append_nil] at hall
        exact absurd (hok hall) Bool.false_ne_true
    | true => exact conducts_pure fun _ => rfl
  refine conducts_bind (processArchives_passes hbegun host (!cfg.dryRun) cfg.allowUnknown
    (archives cfg) s) fun xs code hxs => ?_
  split
  next hfailed =>
    refine conducts_bind (obliges_endSession usb (after s xs)) fun ys ok _ => conducts_pure ?_
    intro hall
    rw [List.append_nil] at hall
    exact hxs hall.left
  next hgood =>
    have hpasses : AllAccepted s xs →
        ∀ path ∈ archives cfg, Passes host usb pit (!cfg.dryRun) cfg.allowUnknown path :=
      fun hall => (hxs hall).mp (not_not.mp hgood)
    split
    next =>
      refine conducts_bind (obliges_sendControls cfg usb (after s xs)) fun ys ok hok => ?_
      cases ok with
      | false =>
          refine conducts_bind (obliges_endSession usb (after (after s xs) ys)) fun zs _ _ =>
            conducts_pure fun hall => ?_
          rw [List.append_nil, ← List.append_assoc] at hall
          exact absurd (hok hall.left.right) Bool.false_ne_true
      | true =>
          refine (hend (after (after s xs) ys)).mono fun zs rc hzs hall => ?_
          rw [← List.append_assoc] at hall
          have hright := hall.right
          rw [after_append] at hright
          exact iff_of_true (hzs hright) (hpasses hall.left.left)
    next =>
      refine (hend (after s xs)).mono fun ys rc hys hall => ?_
      exact iff_of_true (hys hall.right) (hpasses hall.left)

end Session

/-! ## Runs -/

section Runs

variable {host : Host} {cfg : OdinConfig} {trace first second third : UsbTrace} {rc : ExitCode}
variable {usb connected : UsbDevice} {pit : PitTable} {packets : List Packet}

/-- Connecting is the opening of the device, the preamble and further exchanges. -/
theorem connect_exchanges (h : (connect cfg).Executes trace (.ok connected)) :
    ∃ (shaking : Exchange) (xs : List Exchange),
      trace = ⟨.openDevice cfg.devicePath (criteriaFromConfig cfg), true⟩ ::
        (shaking :: xs).flatMap Exchange.events := by
  obtain ⟨opening, opened, rest, rfl, hopen, hrest⟩ := executes_bind.mp h
  rw [executes_openDevice] at hopen
  subst hopen
  cases opened with
  | false => cases hrest.2
  | true =>
      obtain ⟨shaken, ⟨ok, usb⟩, asking, rfl, hhandshake, hasking⟩ := executes_bind.mp hrest
      obtain ⟨hs, rfl, hmessages⟩ := handshake_packets {} shaken _ hhandshake
      cases ok with
      | false => cases hasking.2
      | true =>
          obtain ⟨asked, ⟨ok, usb'⟩, last, rfl, hasked, hlast⟩ := executes_bind.mp hasking
          obtain ⟨ys, rfl, -⟩ := requestDeviceType_keeping usb 0 asked _ hasked
          cases ok with
          | false => cases hlast.2
          | true =>
              obtain ⟨rfl, -⟩ := executes_pure.mp hlast
              -- In either protocol a handshake writes something.
              cases hs with
              | nil =>
                  cases hmode : usb.protocolMode <;>
                    simp [hmode, ProtocolMode.handshakePackets] at hmessages
              | cons shaking hs => exact ⟨shaking, hs ++ ys, by simp⟩

/-- Where everything behind the preamble is accepted, the session is. -/
theorem BehindPreamble.session {zs : List Exchange} (hthird : third = zs.flatMap Exchange.events)
    (h : BehindPreamble cfg (first ++ (second ++ third)) packets)
    (hconnect : (connect cfg).Executes first (.ok connected))
    (hsession : (startSession connected).Executes second (.ok (usb, pit))) :
    ∃ s : UInt32, AllAccepted s zs := by
  obtain ⟨shaking, xs, rfl⟩ := connect_exchanges hconnect
  obtain ⟨begun, rfl, -⟩ := startSession_exchanges connected second _ hsession
  obtain ⟨preamble, ys, hsplit, -, hall, -⟩ := h
  subst hthird
  have hexchanges : (preamble :: ys).flatMap Exchange.events =
      (shaking :: (xs ++ (begun ++ zs))).flatMap Exchange.events := by
    simpa using (List.cons.inj hsplit).2.symm
  -- A trace is made of exchanges in one way only.
  obtain ⟨rfl, rfl⟩ := List.cons.inj (exchanges_injective hexchanges)
  exact ⟨_, hall.right.right⟩

/-- A run that has come to its archives. -/
theorem StartsSession.success_iff (h : StartsSession cfg trace usb pit)
    (hexec : (runForDevice host cfg).Executes trace rc) (hbehind : BehindPreamble cfg trace packets) :
    rc = .success ↔
      ∀ path ∈ archives cfg, Passes host usb pit (!cfg.dryRun) cfg.allowUnknown path := by
  obtain ⟨first, second, third, connected, rfl, hconnect, hfits, hsession⟩ := h
  have hrest := hconnect.behind hexec
  dsimp only at hrest
  rw [hfits, if_neg Bool.false_ne_true] at hrest
  have hthird := hsession.behind hrest
  have hbegun := startSession_begun connected second _ hsession usb pit rfl
  -- The exchanges come first, and then the part number from which they are accepted.
  obtain ⟨zs, rfl, -⟩ := runSession_passes hbegun host cfg 0 third rc hthird
  obtain ⟨s, hall⟩ := hbehind.session rfl hconnect hsession
  obtain ⟨ys, hys, hpasses⟩ := runSession_passes hbegun host cfg s _ rc hthird
  obtain rfl := exchanges_injective hys
  exact hpasses hall

theorem starts_of_success (hexec : (runForDevice host cfg).Executes trace .success) :
    ∃ usb pit, StartsSession cfg trace usb pit := by
  obtain ⟨first, result, rest, rfl, hconnect, hrest⟩ := executes_bind.mp hexec
  cases result with
  | error code =>
      obtain ⟨-, rfl⟩ := executes_pure.mp hrest
      exact absurd rfl (connect_code cfg first _ hconnect)
  | ok connected =>
      dsimp only at hrest
      split at hrest
      next => cases (executes_pure.mp hrest).2
      next hfits =>
        obtain ⟨second, result, third, rfl, hsession, hthird⟩ := executes_bind.mp hrest
        cases result with
        | error code =>
            obtain ⟨-, rfl⟩ := executes_pure.mp hthird
            exact absurd rfl (startSession_code connected second _ hsession)
        | ok started =>
            exact ⟨started.1, started.2, first, second, third, connected, rfl, hconnect,
              by simpa using hfits, hsession⟩

/-- A run succeeds exactly if everything behind the preamble has been accepted, the
session has been begun with its PIT and archives that suit the device, and all archives
pass: the check of each succeeds and, where a legacy device is flashed, comes to nothing
but raw images with something in them. -/
theorem runForDevice_succeeds_iff (hexec : (runForDevice host cfg).Executes trace rc) :
    rc = .success ↔ (∃ packets, BehindPreamble cfg trace packets) ∧
      ∃ usb pit, StartsSession cfg trace usb pit ∧
        ∀ path ∈ archives cfg, Passes host usb pit (!cfg.dryRun) cfg.allowUnknown path := by
  constructor
  · rintro rfl
    obtain ⟨packets, hbehind, -⟩ := runForDevice_session hexec
    obtain ⟨usb, pit, hstarts⟩ := starts_of_success hexec
    exact ⟨⟨packets, hbehind⟩, usb, pit, hstarts, (hstarts.success_iff hexec hbehind).mp rfl⟩
  · rintro ⟨⟨packets, hbehind⟩, usb, pit, hstarts, hpasses⟩
    exact (hstarts.success_iff hexec hbehind).mpr hpasses

theorem runForDevice_succeeds_iff_boot :
    (bootRun thorDevice).2 = .success ∧ ∃ usb pit,
      StartsSession { ap := ascii "firmware.tar" } (bootRun thorDevice).1 usb pit ∧
      ∀ path ∈ archives { ap := ascii "firmware.tar" },
        Passes (archiveHost bootArchive) usb pit true false path := by
  have hsuccess : (bootRun thorDevice).2 = .success := by decide +kernel
  have hexec := executes_bootRun thorDevice
  generalize bootRun thorDevice = thorRun at *
  generalize archiveHost bootArchive = host at *
  exact ⟨hsuccess, ((runForDevice_succeeds_iff hexec).mp hsuccess).2⟩

/-- What a run has read from its device is settled by its trace. -/
theorem StartsSession.unique {usb' : UsbDevice} {pit' : PitTable}
    (h : StartsSession cfg trace usb pit) (h' : StartsSession cfg trace usb' pit') :
    usb = usb' ∧ pit = pit' := by
  obtain ⟨first, second, third, connected, rfl, hconnect, -, hsession⟩ := h
  obtain ⟨first', second', third', connected', hsplit, hconnect', -, hsession'⟩ := h'
  obtain ⟨rfl, hresult⟩ := hconnect.unique hconnect' hsplit
  obtain rfl := Except.ok.inj hresult
  obtain ⟨-, hresult⟩ := hsession.unique hsession' (List.append_cancel_left hsplit)
  exact Prod.mk.inj (Except.ok.inj hresult)

theorem StartsSession.runMode_eq (h : StartsSession cfg trace usb pit)
    (hexec : (runForDevice host cfg).Executes trace rc) : runMode trace = usb.protocolMode := by
  obtain ⟨first, second, third, connected, rfl, hconnect, hfits, hsession⟩ := h
  obtain ⟨mode, -, hhandshake, hconnected⟩ := connect_mode hconnect
  have hmode := startSession_mode connected second _ hsession usb pit rfl
  rw [hconnected connected rfl] at hmode
  have hrest := hconnect.behind hexec
  dsimp only at hrest
  rw [hfits, if_neg Bool.false_ne_true] at hrest
  have hthird := hsession.behind hrest
  rw [runMode, sent_append, sent_append, hmode]
  -- A legacy run writes no Thor packet in any of its three parts.
  cases mode with
  | thor => rw [if_pos (List.mem_append_left _ (hhandshake.mpr rfl))]
  | odinLegacy =>
      have hfirst : .thor .handshake ∉ sent first := fun hmem => by cases hhandshake.mp hmem
      have hsecond := not_thor_mem (hconnected connected rfl)
        (writes_startSession connected).speaks hsession .handshake
      have hlast := not_thor_mem hmode (writes_runSession usb host cfg pit) hthird .handshake
      rw [if_neg (by simp [hfirst, hsecond, hlast])]

end Runs

/-! ## A check and the flashing behind it -/

section Promise

variable {host : Host} {cfg : OdinConfig} {checking trace : UsbTrace} {rc : ExitCode}
variable {mode : ProtocolMode} {pit : PitTable} {packets : List Packet}

/-- A run that succeeds has had all images written with the PIT that it has read. -/
theorem ReadsPit.written {State Image : Type} {R : Receiver mode State Image}
    (h : ReadsPit mode cfg trace pit) (htransfers : R.Transfers host.lz4)
    (hexec : (runForDevice host cfg).Executes trace .success) :
    listen R.receive (R.idle []) (sent trace) =
      some (R.idle (flashed cfg (memberImages R host cfg pit))) := by
  obtain ⟨usb, hstarts, hmode⟩ := h
  have hcommits := runForDevice_commits (archivesCommit_members htransfers cfg) hexec
    ((hstarts.runMode_eq hexec).trans hmode)
  obtain ⟨pit', ⟨usb', hstarts', -⟩, hreceived⟩ := hcommits.success rfl
  obtain ⟨-, rfl⟩ := hstarts.unique hstarts'
  exact hreceived

/-- A check keeps its promise. If it has succeeded, flashing the same archives on a device
with the same PIT that accepts everything succeeds and writes all of their images. Legacy
devices take only raw images with something in them. -/
theorem runForDevice_flashes_what_was_checked
    (hchecked : (runForDevice host { cfg with dryRun := true }).Executes checking .success)
    (hcheckedPit : ReadsPit mode { cfg with dryRun := true } checking pit)
    (hexec : (runForDevice host { cfg with dryRun := false }).Executes trace rc)
    (hpit : ReadsPit mode { cfg with dryRun := false } trace pit)
    (hbehind : BehindPreamble cfg trace packets)
    (hplain : mode = .odinLegacy → ∀ path ∈ archives cfg,
      AllPlain (checkTarFile pit cfg.allowUnknown host path).visits) :
    rc = .success ∧
    (mode = .thor → ThorReceiver.receiveAll {} (sent trace) =
      some ⟨none, (archives cfg).flatMap (memberImages thorReceiver host cfg pit)⟩) ∧
    (mode = .odinLegacy → LegacyReceiver.receiveAll {} (sent trace) =
      some ⟨none, (archives cfg).flatMap (memberImages legacyReceiver host cfg pit)⟩) := by
  have hsuccess : rc = .success := by
    obtain ⟨usb, hstarts, hmode⟩ := hpit
    obtain ⟨usb', hstarts', -⟩ := hcheckedPit
    obtain ⟨checked, hcheckedBehind, -⟩ := runForDevice_session hchecked
    have hpasses := (hstarts'.success_iff hchecked hcheckedBehind).mp rfl
    -- What the check has found out is the first half of passing.
    refine (hstarts.success_iff hexec hbehind).mpr fun path hpath => ⟨(hpasses path hpath).1, ?_⟩
    exact fun _ hlegacy => hplain (hmode.symm.trans hlegacy) path hpath
  subst hsuccess
  refine ⟨rfl, ?_, ?_⟩
  · rintro rfl
    exact hpit.written (thorReceiver_transfers host.lz4) hexec
  · rintro rfl
    exact hpit.written (legacyReceiver_transfers host.lz4) hexec

end Promise

/-- A run against a device that lets it come to its archives. -/
theorem startsSession_run {host : Host} {cfg : OdinConfig} {device : UsbEnvironment}
    {connected usb : UsbDevice} {pit : PitTable}
    (hconnect : ((connect cfg).run device []).2 = .ok connected)
    (hfits : (hasAnyFirmwareFiles cfg && !verifyFirmwareCompatibility cfg connected.deviceTypeStr) =
      false)
    (hsession : ((startSession connected).run device ((connect cfg).run device []).1).2 =
      .ok (usb, pit)) :
    StartsSession cfg ((runForDevice host cfg).run device []).1 usb pit := by
  have hfirst := executes_run device [] (connect cfg)
  have hsecond := executes_run device ((connect cfg).run device []).1 (startSession connected)
  rw [hconnect] at hfirst
  rw [hsession] at hsecond
  rw [runForDevice, run_bind, hconnect]
  dsimp only
  rw [hfits, if_neg Bool.false_ne_true, run_bind, List.nil_append, hsession]
  exact ⟨_, _, _, connected, rfl, hfirst, hfits, hsecond⟩

theorem eq_ok_of_toOption {ε α : Type} {result : Except ε α} {a : α}
    (h : result.toOption = some a) : result = .ok a := by
  cases result with
  | error code => cases h
  | ok b =>
      obtain rfl := Option.some.inj h
      rfl

/-- The configuration of the run that flashes `boot.img`, or checks it. -/
def bootConfig (dryRun : Bool) : OdinConfig := { ap := ascii "firmware.tar", dryRun }

theorem startsSession_boot : ∃ pit, ∀ host dryRun, StartsSession (bootConfig dryRun)
    ((runForDevice host (bootConfig dryRun)).run thorDevice []).1 {} pit := by
  have hconnect : ((connect (bootConfig false)).run thorDevice []).2.toOption = some {} := by
    decide +kernel
  have hsession : ((startSession {}).run thorDevice
      ((connect (bootConfig false)).run thorDevice []).1).2.toOption.map (·.1) = some {} := by
    decide +kernel
  obtain ⟨⟨usb, pit⟩, hstarted, rfl⟩ := Option.map_eq_some_iff.mp hsession
  refine ⟨pit, fun host dryRun => ?_⟩
  -- On its way to the archives a run does not ask whether they are only checked.
  have hsame : connect (bootConfig dryRun) = connect (bootConfig false) := rfl
  have hfits : (hasAnyFirmwareFiles (bootConfig dryRun) &&
      !verifyFirmwareCompatibility (bootConfig dryRun) []) = false := by
    cases dryRun <;> decide
  have hconnected : ((connect (bootConfig dryRun)).run thorDevice []).2 = .ok {} := by
    rw [hsame]
    exact eq_ok_of_toOption hconnect
  refine startsSession_run hconnected hfits ?_
  rw [hsame]
  exact eq_ok_of_toOption hstarted

/-- A check of `boot.img` and the flashing behind it. -/
theorem runForDevice_flashes_what_was_checked_boot : ∃ pit,
    ((runForDevice (archiveHost bootArchive) (bootConfig true)).run thorDevice []).2 = .success ∧
    ((runForDevice (archiveHost bootArchive) (bootConfig false)).run thorDevice []).2 = .success ∧
    ThorReceiver.receiveAll {}
        (sent ((runForDevice (archiveHost bootArchive) (bootConfig false)).run thorDevice []).1) =
      some ⟨none, (archives (bootConfig false)).flatMap
        (memberImages thorReceiver (archiveHost bootArchive) (bootConfig false) pit)⟩ := by
  have hchecks : ((runForDevice (archiveHost bootArchive) (bootConfig true)).run thorDevice []).2 =
      .success := by decide +kernel
  have hflashes : ((runForDevice (archiveHost bootArchive) (bootConfig false)).run thorDevice []).2 =
      .success := by decide +kernel
  generalize archiveHost bootArchive = host at *
  obtain ⟨pit, hstarts⟩ := startsSession_boot
  have hchecked := executes_run thorDevice [] (runForDevice host (bootConfig true))
  have hflashed := executes_run thorDevice [] (runForDevice host (bootConfig false))
  have hcheckedStarts := hstarts host true
  have hflashedStarts := hstarts host false
  generalize (runForDevice host (bootConfig true)).run thorDevice [] = checking at *
  generalize (runForDevice host (bootConfig false)).run thorDevice [] = flashing at *
  rw [hchecks] at hchecked
  have hdone := hflashed
  rw [hflashes] at hdone
  obtain ⟨packets, hbehind, -⟩ := runForDevice_session hdone
  obtain ⟨hsuccess, hwritten, -⟩ := runForDevice_flashes_what_was_checked hchecked
    ⟨{}, hcheckedStarts, rfl⟩ hflashed ⟨{}, hflashedStarts, rfl⟩ hbehind (by simp)
  exact ⟨pit, hchecks, hsuccess, hwritten rfl⟩

end Odin4
