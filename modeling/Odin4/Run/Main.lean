import Odin4.Run.CommandLine
import Odin4.Run.OnTheWire
import Odin4.Usb.Listing

/-!
# The process

A process reads its command line, lists the devices or looks for the only one,
and performs one run. Without an accepted command line it calls nothing. No
device is opened that was neither named nor the only one there is.
-/

namespace Odin4

open Interaction Program

/-- What is printed for `-l`. -/
def listedLines (devices : List Bytes) : List Bytes :=
  if devices.isEmpty then [ascii "No devices detected in Download Mode."] else devices

/-- One run, on the device that was named or else on the only one there is. -/
def selectAndRun (host : Host) (cfg : OdinConfig) : Libusb ExitCode :=
  if cfg.devicePath.isEmpty then do
    let (devices, once) ← listDownloadDevices none (criteriaFromConfig cfg)
    match devices with
    | [path] => do
        let (rc, _) ← runForDeviceOverLibusb host { cfg with devicePath := path } once
        return rc
    -- None, or several to choose from.
    | _ => return .usb
  else do
    let (rc, _) ← runForDeviceOverLibusb host cfg none
    return rc

/-- The exit code, and the lines that are printed for `-l`. -/
def processArgumentsAndRun (host : Host) (args : List Bytes) : Libusb (ExitCode × List Bytes) :=
  match parseArguments {} args with
  | .leave rc => return (rc, [])
  | .list settings => do
      let (devices, _) ← listDownloadDevices none (criteriaFromConfig settings.cfg)
      return (.success, listedLines devices)
  | .run settings =>
      let cfg := settings.cfg
      if !hasAnyFirmwareFiles cfg && !cfg.reboot && !cfg.redownload then return (.usage, [])
      else if cfg.dryRun && !hasAnyFirmwareFiles cfg then return (.usage, [])
      else do return (← selectAndRun host cfg, [])

def ExitCode.toInt : ExitCode → Int
  | success => 0
  | usage => 2
  | usb => 3
  | firmware => 4
  | pit => 5
  | protocol => 6

/-- The exit status of the process. -/
def main (host : Host) (args : List Bytes) : Libusb Int := do
  let (rc, _) ← processArgumentsAndRun host args
  return rc.toInt

/-! ## Listing takes nothing -/

/-- Nothing is taken, moved, listed or opened. -/
def LibusbEvent.OnlyLooks (event : LibusbEvent) : Prop :=
  LibusbEvent.IsQuiet event ∧ LibusbCall.isTransfer event.call = false ∧ LibusbEvent.IsApart event

section Listing

variable (criteria : UsbSelectionCriteria) (dev : LibusbDevice)

theorem onlyLooks_usbPathForDevice : Emits LibusbEvent.OnlyLooks (usbPathForDevice dev) := by
  refine emits_perform_bind (fun _ => ⟨⟨rfl, rfl⟩, rfl, rfl, rfl⟩) fun _ => ?_
  exact emits_perform_bind (fun _ => ⟨⟨rfl, rfl⟩, rfl, rfl, rfl⟩) fun _ => emits_pure _

theorem onlyLooks_findBestInterface :
    Emits LibusbEvent.OnlyLooks (findBestInterface dev criteria) := by
  refine emits_perform_bind (fun _ => ⟨⟨rfl, rfl⟩, rfl, rfl, rfl⟩) fun config => ?_
  cases config with
  | none => exact emits_pure _
  | some config =>
      exact emits_perform_bind (fun _ => ⟨⟨rfl, rfl⟩, rfl, rfl, rfl⟩) fun _ => emits_pure _

theorem onlyLooks_addListed (result : List Bytes) :
    Emits LibusbEvent.OnlyLooks (addListed criteria result dev) := by
  refine emits_perform_bind (fun _ => ⟨⟨rfl, rfl⟩, rfl, rfl, rfl⟩) fun desc => ?_
  cases desc with
  | none => exact emits_pure _
  | some desc =>
      refine emits_ite (fun _ => emits_pure _) fun _ => emits_ite (fun _ => emits_pure _) fun _ => ?_
      refine emits_bind (onlyLooks_findBestInterface criteria dev) fun cand => ?_
      refine emits_ite (fun _ => emits_pure _) fun _ => emits_ite (fun _ => emits_pure _) fun _ => ?_
      exact emits_bind (onlyLooks_usbPathForDevice dev) fun _ => emits_pure _

theorem onlyLooks_listDevices (result : List Bytes) (devices : List LibusbDevice) :
    Emits LibusbEvent.OnlyLooks (listDevices criteria result devices) := by
  induction devices generalizing result with
  | nil => exact emits_pure _
  | cons dev rest ih => exact emits_bind (onlyLooks_addListed criteria dev result) fun _ => ih _

theorem onlyLooks_ensureLibusbInitialized (once : Option Bool) :
    Emits LibusbEvent.OnlyLooks (UsbConnection.ensureLibusbInitialized once) := by
  cases once with
  | none => exact emits_perform_bind (fun _ => ⟨⟨rfl, rfl⟩, rfl, rfl, rfl⟩) fun _ => emits_pure _
  | some ready => exact emits_pure _

end Listing

/-- Nothing is left behind. Without a list there are no paths. -/
structure LeavesNothing (paths : List Bytes) (trace : LibusbTrace) : Prop where
  device : deviceActions trace = []
  list : ∃ lists : List DeviceList,
    listActions trace = lists.flatMap fun list => [.obtained list, .freed list]
  transfers : ∀ event ∈ trace, LibusbCall.isTransfer event.call = false
  targets : targets trace = []
  listed : paths = [] ∨ ∃ devices, enumerations trace = [devices]

/-- Calls that look at devices concern none of the rest. -/
theorem onlyLooks_nothing {trace : LibusbTrace} (h : ∀ event ∈ trace, LibusbEvent.OnlyLooks event) :
    deviceActions trace = [] ∧ listActions trace = [] ∧ targets trace = [] ∧
      enumerations trace = [] := by
  obtain ⟨hdevice, hlist⟩ := actions_eq_nil fun event hevent => (h event hevent).1
  refine ⟨hdevice, hlist, ?_, ?_⟩
  · exact List.filterMap_eq_nil_iff.mpr fun event hevent => (h event hevent).2.2.1
  · exact List.filterMap_eq_nil_iff.mpr fun event hevent => (h event hevent).2.2.2

theorem leavesNothing_of_looks {trace : LibusbTrace}
    (h : ∀ event ∈ trace, LibusbEvent.OnlyLooks event) : LeavesNothing [] trace := by
  obtain ⟨hdevice, hlist, htargets, -⟩ := onlyLooks_nothing h
  exact ⟨hdevice, ⟨[], hlist⟩, fun event hevent => (h event hevent).2.1, htargets, .inl rfl⟩

theorem listDownloadDevices_leaves {criteria : UsbSelectionCriteria} {once once' : Option Bool}
    {paths : List Bytes} {trace : LibusbTrace}
    (hexec : (listDownloadDevices once criteria).Executes trace (paths, once')) :
    LeavesNothing paths trace := by
  obtain ⟨first, ready, behind, rfl, hfirst, hbehind⟩ := executes_bind.mp hexec
  have hinit := onlyLooks_ensureLibusbInitialized once first ready hfirst
  split at hbehind
  next =>
    obtain ⟨rfl, rfl, -⟩ := executes_pure_pair.mp hbehind
    exact leavesNothing_of_looks (by simpa using hinit)
  next =>
    obtain ⟨reply, tail, rfl, htail⟩ := executes_libusb_bind.mp hbehind
    cases reply with
    | failed code negative =>
        obtain ⟨rfl, rfl, -⟩ := executes_pure_pair.mp htail
        refine leavesNothing_of_looks fun event hevent => ?_
        rcases List.mem_append.mp hevent with hevent | hevent
        · exact hinit event hevent
        · obtain rfl := List.mem_singleton.mp hevent
          exact ⟨⟨rfl, rfl⟩, rfl, rfl, rfl⟩
    | obtained list devices =>
        obtain ⟨looking, result, last, rfl, hlooking, hlast⟩ := executes_bind.mp htail
        obtain ⟨_, fin, rfl, hfin⟩ := executes_libusb_bind.mp hlast
        obtain ⟨rfl, -⟩ := executes_pure.mp hfin
        have hlooks := onlyLooks_listDevices criteria [] devices looking _ hlooking
        obtain ⟨hdevice, hlist, htargets, hlists⟩ := onlyLooks_nothing hinit
        obtain ⟨hdevice', hlist', htargets', hlists'⟩ := onlyLooks_nothing hlooks
        constructor
        · simp only [deviceActions_append, hdevice, hdevice']
          rfl
        · refine ⟨[list], ?_⟩
          simp only [listActions_append, hlist, hlist']
          rfl
        · intro event hevent
          simp only [List.append_nil, List.mem_append, List.mem_singleton] at hevent
          rcases hevent with hevent | rfl | hevent | rfl
          · exact (hinit event hevent).2.1
          · rfl
          · exact (hlooks event hevent).2.1
          · rfl
        · simp only [targets_append, htargets, htargets']
          rfl
        · refine .inr ⟨devices, ?_⟩
          simp only [enumerations_append, hlists, hlists']
          rfl

/-! ## The parts of a process -/

section Process

variable {host : Host} {args : List Bytes} {trace : LibusbTrace} {rc : ExitCode}
variable {printed : List Bytes}

/-- There is something to do for a device: to flash or check archives, or to reboot. -/
def OdinConfig.HasWork (cfg : OdinConfig) : Prop :=
  hasAnyFirmwareFiles cfg = true ∨ (cfg.reboot = true ∨ cfg.redownload = true) ∧ cfg.dryRun = false

/-- A process calls nothing, lists the devices, or performs one run on a device that
was named or that is the only one in the list. -/
inductive ProcessParts (host : Host) (args : List Bytes) : LibusbTrace → ExitCode → Prop where
  | nothing (rc : ExitCode) : ProcessParts host args [] rc
  | listed {settings : Settings} {paths : List Bytes} {once : Option Bool}
      {listing : LibusbTrace} {rc : ExitCode}
      (lists : (listDownloadDevices none (criteriaFromConfig settings.cfg)).Executes listing
        (paths, once)) :
      ProcessParts host args listing rc
  | ran {settings : Settings} {once : Option Bool} {run : LibusbTrace} {rc : ExitCode}
      (accepted : parseArguments {} args = .run settings) (work : settings.cfg.HasWork)
      (named : settings.cfg.devicePath ≠ [])
      (runs : (runForDeviceOverLibusb host settings.cfg none).Executes run (rc, once)) :
      ProcessParts host args run rc
  | chose {settings : Settings} {path : Bytes} {once once' : Option Bool}
      {listing run : LibusbTrace} {rc : ExitCode}
      (accepted : parseArguments {} args = .run settings) (work : settings.cfg.HasWork)
      (unnamed : settings.cfg.devicePath = [])
      (lists : (listDownloadDevices none (criteriaFromConfig settings.cfg)).Executes listing
        ([path], once))
      (runs : (runForDeviceOverLibusb host { settings.cfg with devicePath := path } once).Executes
        run (rc, once')) :
      ProcessParts host args (listing ++ run) rc

theorem selectAndRun_parts {settings : Settings} (haccepted : parseArguments {} args = .run settings)
    (hwork : settings.cfg.HasWork)
    (hexec : (selectAndRun host settings.cfg).Executes trace rc) :
    ProcessParts host args trace rc := by
  unfold selectAndRun at hexec
  split at hexec
  next hunnamed =>
    obtain ⟨listing, ⟨paths, once⟩, behind, rfl, hlists, hbehind⟩ := executes_bind.mp hexec
    dsimp only at hbehind
    split at hbehind
    next path =>
      obtain ⟨run, ⟨code, once'⟩, last, rfl, hruns, hlast⟩ := executes_bind.mp hbehind
      obtain ⟨rfl, rfl⟩ := executes_pure.mp hlast
      rw [List.append_nil]
      exact .chose haccepted hwork (List.isEmpty_iff.mp hunnamed) hlists hruns
    next =>
      obtain ⟨rfl, rfl⟩ := executes_pure.mp hbehind
      rw [List.append_nil]
      exact .listed hlists
  next hnamed =>
    obtain ⟨run, ⟨code, once'⟩, last, rfl, hruns, hlast⟩ := executes_bind.mp hexec
    obtain ⟨rfl, rfl⟩ := executes_pure.mp hlast
    rw [List.append_nil]
    exact .ran haccepted hwork (by simpa using hnamed) hruns

theorem processArgumentsAndRun_parts
    (hexec : (processArgumentsAndRun host args).Executes trace (rc, printed)) :
    ProcessParts host args trace rc := by
  unfold processArgumentsAndRun at hexec
  split at hexec
  next code hcommand =>
    obtain ⟨rfl, hresult⟩ := executes_pure.mp hexec
    exact .nothing rc
  next settings hcommand =>
    obtain ⟨listing, ⟨paths, once⟩, last, rfl, hlists, hlast⟩ := executes_bind.mp hexec
    obtain ⟨rfl, -⟩ := executes_pure.mp hlast
    rw [List.append_nil]
    exact .listed hlists
  next settings hcommand =>
    dsimp only at hexec
    split at hexec
    next =>
      obtain ⟨rfl, -⟩ := executes_pure.mp hexec
      exact .nothing rc
    next hsome =>
      split at hexec
      next =>
        obtain ⟨rfl, -⟩ := executes_pure.mp hexec
        exact .nothing rc
      next hchecked =>
        have hwork : settings.cfg.HasWork := by
          unfold OdinConfig.HasWork
          revert hsome hchecked
          cases hasAnyFirmwareFiles settings.cfg <;> simp [-not_and, not_and_or]
          tauto
        obtain ⟨first, code, last, rfl, hfirst, hlast⟩ := executes_bind.mp hexec
        obtain ⟨rfl, rfl, -⟩ := executes_pure_pair.mp hlast
        rw [List.append_nil]
        exact selectAndRun_parts hcommand hwork hfirst

/-! ## What a process holds, and for how long it waits -/

/-- A transfer goes to a device that the process has opened, whose interface it has
claimed and not yet released. In the end every handle has been closed, every claim
and every detached driver undone, and every list freed. -/
theorem processArgumentsAndRun_holds
    (hexec : (processArgumentsAndRun host args).Executes trace (rc, printed)) :
    (∀ before event after target, trace = before ++ event :: after →
      LibusbCall.target? event.call = some target →
      ∃ handle, target = some handle ∧ HoldsDevice before handle) ∧
    (∃ lives : List HandleLife, deviceActions trace = lives.flatMap HandleLife.actions) ∧
    ∃ lists : List DeviceList,
      listActions trace = lists.flatMap fun list => [.obtained list, .freed list] := by
  cases processArgumentsAndRun_parts hexec with
  | nothing rc => exact ⟨by simp, ⟨[], rfl⟩, ⟨[], rfl⟩⟩
  | listed lists =>
      have hleaves := listDownloadDevices_leaves lists
      refine ⟨fun before event after target hsplit htarget => ?_, ⟨[], hleaves.device⟩, hleaves.list⟩
      have hsetUp := hleaves.transfers event (by simp [hsplit])
      rw [LibusbCall.target?_eq_none hsetUp] at htarget
      cases htarget
  | ran accepted work named runs => exact runForDeviceOverLibusb_holds runs
  | @chose settings path once once' listing run rc accepted work unnamed lists runs =>
      have hleaves := listDownloadDevices_leaves lists
      obtain ⟨htransfers, ⟨lives, hlives⟩, newer, hnewer⟩ := runForDeviceOverLibusb_holds runs
      obtain ⟨earlier, hearlier⟩ := hleaves.list
      refine ⟨fun before event after target hsplit htarget => ?_, ⟨lives, ?_⟩, earlier ++ newer, ?_⟩
      -- Nothing is transferred while the devices are listed.
      · obtain ⟨tail, hlisting, -⟩ | ⟨part, rfl, hrun⟩ := Dialogue.split_at_turn hsplit
        · have hsetUp := hleaves.transfers event (by simp [hlisting])
          rw [LibusbCall.target?_eq_none hsetUp] at htarget
          cases htarget
        · obtain ⟨handle, rfl, lives, life, hlife, hclaimed, hactions⟩ :=
            htransfers part event after target hrun htarget
          refine ⟨handle, rfl, lives, life, hlife, hclaimed, ?_⟩
          rw [deviceActions_append, hleaves.device, List.nil_append, hactions]
      · rw [deviceActions_append, hleaves.device, List.nil_append, hlives]
      · rw [listActions_append, hearlier, hnewer, List.flatMap_append]

/-- No wait of a process is without a limit. -/
theorem processArgumentsAndRun_endsInTime
    (hexec : (processArgumentsAndRun host args).Executes trace (rc, printed)) :
    ∀ event ∈ trace, LibusbCall.EndsInTime event.call := by
  intro event hevent
  cases processArgumentsAndRun_parts hexec with
  | nothing rc => cases hevent
  | listed lists =>
      exact LibusbCall.endsInTime_of_setUp ((listDownloadDevices_leaves lists).transfers event hevent)
  | ran accepted work named runs => exact runForDeviceOverLibusb_endsInTime runs event hevent
  | chose accepted work unnamed lists runs =>
      rcases List.mem_append.mp hevent with hlisting | hrun
      · have hleaves := listDownloadDevices_leaves lists
        exact LibusbCall.endsInTime_of_setUp (hleaves.transfers event hlisting)
      · exact runForDeviceOverLibusb_endsInTime runs event hrun

end Process

/-! ## The device of a process -/

/-- Every list that was obtained is that of the devices of this bus, and it answered
every question about them. -/
structure UsbBus.Stable (bus : UsbBus) (trace : LibusbTrace) : Prop where
  listed : ∀ devices ∈ enumerations trace, devices = bus.devices
  answered : AnsweredAs bus.known trace

section Choice

variable {bus : UsbBus} {host : Host} {cfg : OdinConfig} {criteria : UsbSelectionCriteria}
variable {usb usb' : UsbConnection} {once once' : Option Bool} {specificPath : Bytes}
variable {first second trace : LibusbTrace} {ok : Bool} {target : LibusbDevice}

theorem UsbBus.Stable.of_append (h : bus.Stable (first ++ second)) :
    bus.Stable first ∧ bus.Stable second := by
  obtain ⟨hfirst, hsecond⟩ := answeredAs_append.mp h.answered
  have hlisted := h.listed
  rw [enumerations_append] at hlisted
  exact ⟨⟨fun devices hmem => hlisted devices (List.mem_append_left _ hmem), hfirst⟩,
    ⟨fun devices hmem => hlisted devices (List.mem_append_right _ hmem), hsecond⟩⟩

/-- The devices are listed once before one of them is opened. -/
theorem enumerate_lists (hexec : (usb.enumerate specificPath criteria).Executes trace (ok, usb'))
    (hanswered : AnsweredAs bus.known trace) :
    targets trace = [] ∨ ∃ devices, enumerations trace = [devices] := by
  obtain ⟨reply, rest, rfl, hrest⟩ := executes_libusb_bind.mp hexec
  replace hanswered := (answeredAs_append.mp hanswered).2
  cases reply with
  | failed code negative =>
      obtain ⟨rfl, -⟩ := executes_pure.mp hrest
      exact .inl rfl
  | obtained list devices =>
      obtain ⟨second, scan, tail, rfl, hsecond, htail⟩ := executes_bind.mp hrest
      obtain ⟨hscanned, -⟩ := answeredAs_append.mp hanswered
      obtain ⟨-, -, hlists⟩ := asks_bus_only hsecond hscanned
        (bus.evaluate_scanDevices specificPath criteria none false devices)
      refine .inr ⟨devices, ?_⟩
      -- A list is asked for once, and opening a device does not ask for another.
      have htailLists : enumerations tail = [] := by
        cases htarget : scan.target with
        | none =>
            rw [htarget] at htail
            obtain ⟨rfl, -⟩ := executes_pure.mp htail
            rfl
        | some target =>
            rw [htarget] at htail
            exact (openTarget_targets htail).2
      rw [enumerations_append, enumerations_append, hlists, htailLists]
      rfl

theorem openDevice_stable
    (hexec : (usb.openDevice once specificPath criteria).Executes trace (ok, once', usb'))
    (hbus : bus.Stable trace) (htarget : target ∈ targets trace) :
    bus.chosen specificPath criteria = some target := by
  have hlists : targets trace = [] ∨ ∃ devices, enumerations trace = [devices] := by
    obtain ⟨giving, freed, ensuring, ready, rest, rfl, hgiving, hensure, hlast⟩ :=
      UsbConnection.executes_openDevice hexec
    obtain ⟨hgivingTargets, hgivingLists⟩ := StaysApart.nothing (staysApart_destroy _) hgiving
    obtain ⟨hinitTargets, hinitLists⟩ :=
      StaysApart.nothing (staysApart_ensureLibusbInitialized once) hensure
    obtain ⟨-, hanswered⟩ := answeredAs_append.mp hbus.answered
    obtain ⟨-, hanswered⟩ := answeredAs_append.mp hanswered
    rw [targets_append, targets_append, enumerations_append, enumerations_append, hgivingTargets,
      hgivingLists, hinitTargets, hinitLists]
    rcases hlast with ⟨rfl, -, -⟩ | henumerate
    · exact .inl rfl
    · exact enumerate_lists henumerate hanswered
  rcases hlists with hnone | ⟨devices, hlists⟩
  · rw [hnone] at htarget
    cases htarget
  · have hdevices : devices = bus.devices := hbus.listed devices (by rw [hlists]; simp)
    subst hdevices
    rw [(openDevice_enumerated hexec ⟨hlists, hbus.answered⟩).1] at htarget
    exact Option.mem_toList.mp htarget

theorem LibusbCall.OnEndpoints.isApart {event : LibusbEvent}
    (h : LibusbCall.OnEndpoints usb event.call) : LibusbEvent.IsApart event := by
  obtain ⟨request, reply⟩ := event
  cases request with
  | bulkOut => exact ⟨rfl, rfl⟩
  | bulkIn => exact ⟨rfl, rfl⟩
  | clearHalt => exact ⟨rfl, rfl⟩
  | sleepFor => exact ⟨rfl, rfl⟩
  | _ => exact h.elim

/-- A run asks for the chosen device and no other. -/
theorem runForDeviceOverLibusb_stable {rc : ExitCode}
    (hexec : (runForDeviceOverLibusb host cfg once).Executes trace (rc, once'))
    (hbus : bus.Stable trace) (htarget : target ∈ targets trace) :
    bus.chosen cfg.devicePath (criteriaFromConfig cfg) = some target := by
  obtain ⟨opening, session, closing, opened, usb, rfl, hparts⟩ := runForDeviceOverLibusb_parts hexec
  obtain ⟨ready, hopen⟩ := hparts.opens
  obtain ⟨maxChunkBytes, closed, hclose⟩ := hparts.closes
  have hsession : targets (session.flatMap CarriedCall.below) = [] :=
    List.filterMap_eq_nil_iff.mpr fun event hevent =>
      (hparts.session_onEndpoints event hevent).isApart.1
  have hclosing := (StaysApart.nothing (staysApart_destroy _) hclose).1
  rw [targets_append, targets_append, hsession, hclosing, List.append_nil, List.append_nil] at htarget
  exact openDevice_stable hopen hbus.of_append.1 htarget

/-- A process asks for a device only if its command line was accepted and there is
something to do. Either the device was named and is the one chosen among those with
this path, or no device was named and it is the only one that is eligible. -/
theorem processArgumentsAndRun_opens {args : List Bytes} {rc : ExitCode} {printed : List Bytes}
    (hexec : (processArgumentsAndRun host args).Executes trace (rc, printed))
    (hbus : bus.Stable trace) (htarget : target ∈ targets trace) :
    ∃ settings, parseArguments {} args = .run settings ∧ settings.cfg.HasWork ∧
      (settings.cfg.devicePath ≠ [] ∧ bus.path target = settings.cfg.devicePath ∧
          bus.chosen settings.cfg.devicePath (criteriaFromConfig settings.cfg) = some target ∨
        settings.cfg.devicePath = [] ∧
          bus.candidates [] (criteriaFromConfig settings.cfg) = [target]) := by
  cases processArgumentsAndRun_parts hexec with
  | nothing rc => cases htarget
  | listed lists =>
      rw [(listDownloadDevices_leaves lists).targets] at htarget
      cases htarget
  | @ran settings once run rc accepted work named runs =>
      have hchosen := runForDeviceOverLibusb_stable runs hbus htarget
      have hmem := (stands_runningBest hchosen).mem
      have hpath := ((bus.mem_candidates (criteriaFromConfig settings.cfg)).mp hmem).2
      exact ⟨settings, accepted, work, .inl ⟨named, hpath.resolve_left named, hchosen⟩⟩
  | @chose settings path once once' listing run rc accepted work unnamed lists runs =>
      obtain ⟨hlisting, hrun⟩ := hbus.of_append
      have hleaves := listDownloadDevices_leaves lists
      rw [targets_append, hleaves.targets, List.nil_append] at htarget
      have hchosen := runForDeviceOverLibusb_stable runs hrun htarget
      have hmem := (stands_runningBest hchosen).mem
      have hlisted := ((bus.mem_candidates (criteriaFromConfig settings.cfg)).mp hmem).1
      -- The list has one path, so there is one device to choose from.
      obtain ⟨devices, hlists⟩ := hleaves.listed.resolve_left (List.cons_ne_nil _ _)
      have hdevices : devices = bus.devices := hlisting.listed devices (by rw [hlists]; simp)
      subst hdevices
      have hpaths := listDownloadDevices_enumerated lists ⟨hlists, hlisting.answered⟩
      obtain ⟨dev, hcandidates, -⟩ := List.map_eq_singleton_iff.mp hpaths.symm
      rw [hcandidates, List.mem_singleton] at hlisted
      subst hlisted
      exact ⟨settings, accepted, work, .inr ⟨unnamed, hcandidates⟩⟩

end Choice

/-! ## Two processes -/

/-- A process that is to reboot the only device. -/
def rebootProcess : Libusb (ExitCode × List Bytes) :=
  processArgumentsAndRun emptyHost [ascii "--reboot"]

theorem processArgumentsAndRun_opens_only :
    ∃ target ∈ targets (rebootProcess.run (pairBus [⟨1⟩]).environment []).1,
      (pairBus [⟨1⟩]).candidates [] {} = [target] := by
  have hlisted : enumerations (rebootProcess.run (pairBus [⟨1⟩]).environment []).1 =
      [[⟨1⟩], [⟨1⟩]] := by decide +kernel
  have htarget : ⟨1⟩ ∈ targets (rebootProcess.run (pairBus [⟨1⟩]).environment []).1 := by
    decide +kernel
  have hanswered : AnsweredAs (pairBus [⟨1⟩]).known
      (rebootProcess.run (pairBus [⟨1⟩]).environment []).1 := by
    refine answeredAs_run (fun past request reply hknown => ?_) rebootProcess []
    cases request <;> first
      | exact Option.some.inj hknown
      | exact absurd hknown.symm (Option.some_ne_none reply)
  have hstable : (pairBus [⟨1⟩]).Stable (rebootProcess.run (pairBus [⟨1⟩]).environment []).1 := by
    refine ⟨fun devices hmem => ?_, hanswered⟩
    rw [hlisted] at hmem
    simp only [List.mem_cons, List.not_mem_nil, or_false, or_self] at hmem
    exact hmem
  have hparse : parseArguments {} [ascii "--reboot"] = .run { cfg := { reboot := true } } := by
    decide +kernel
  obtain ⟨settings, hsettings, -, ⟨hnamed, -⟩ | ⟨-, honly⟩⟩ := processArgumentsAndRun_opens
    (executes_run (pairBus [⟨1⟩]).environment [] rebootProcess) hstable htarget
  · obtain rfl := Command.run.inj (hparse.symm.trans hsettings)
    exact absurd rfl hnamed
  · obtain rfl := Command.run.inj (hparse.symm.trans hsettings)
    exact ⟨⟨1⟩, htarget, honly⟩

/-- The same against a device that answers. -/
def thorProcess : LibusbTrace × (ExitCode × List Bytes) :=
  rebootProcess.run (thorBus bootPit) []

theorem executes_thorProcess :
    (processArgumentsAndRun emptyHost [ascii "--reboot"]).Executes thorProcess.1 thorProcess.2 :=
  executes_run (thorBus bootPit) [] rebootProcess

/-- One device is listed, opened, rebooted and given back. -/
theorem processArgumentsAndRun_holds_thor :
    thorProcess.2 = (.success, []) ∧ (deviceActions thorProcess.1).length = 6 ∧
    (∀ before event after target, thorProcess.1 = before ++ event :: after →
      LibusbCall.target? event.call = some target →
      ∃ handle, target = some handle ∧ HoldsDevice before handle) ∧
    ∃ lives : List HandleLife, deviceActions thorProcess.1 = lives.flatMap HandleLife.actions := by
  obtain ⟨htargets, hlives, -⟩ := processArgumentsAndRun_holds executes_thorProcess
  exact ⟨by decide +kernel, by decide +kernel, htargets, hlives⟩

theorem processArgumentsAndRun_endsInTime_thor :
    thorProcess.1.length = 39 ∧ ∀ event ∈ thorProcess.1, LibusbCall.EndsInTime event.call :=
  ⟨by decide +kernel, processArgumentsAndRun_endsInTime executes_thorProcess⟩

end Odin4
