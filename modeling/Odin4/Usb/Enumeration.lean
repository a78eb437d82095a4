import Mathlib.Data.Int.Order.Basic
import Odin4.Foundation.RunningBest
import Odin4.Interaction.FixedAnswers
import Odin4.Usb.OpenDevice

/-!
# Enumerations of devices

What the library reports about the devices of a bus stays the same while they
are looked through. Looking for a device is then a running best over those that
are eligible, and this device is the one that is opened.
-/

namespace Odin4

open Interaction Program

/-- The devices in the order of the list, and what is reported about each. -/
structure UsbBus where
  devices : List LibusbDevice
  descriptor : LibusbDevice → Option DeviceDescriptor
  busNumber : LibusbDevice → UInt8
  deviceAddress : LibusbDevice → UInt8
  activeConfig : LibusbDevice → Option ConfigDescriptor

namespace UsbBus

variable (bus : UsbBus) (specificPath : Bytes) (criteria : UsbSelectionCriteria)

/-! ## What counts about a device -/

section Devices

variable (dev : LibusbDevice)

def path : Bytes :=
  ascii "/dev/bus/usb/" ++ threeDigits (bus.busNumber dev) ++ ascii "/" ++
    threeDigits (bus.deviceAddress dev)

def bestInterface : InterfaceCandidate :=
  match bus.activeConfig dev with
  | none => {}
  | some config => config.interface.flatten.foldl (InterfaceCandidate.consider criteria) {}

def score : Int := (bus.bestInterface criteria dev).score

def pidKnown : Bool := (bus.descriptor dev).any fun desc => isKnownDownloadPid desc.idProduct

/-- The score with which the device competes. -/
def totalScore : Int := bus.score criteria dev + (if bus.pidKnown dev then 20 else 0)

def vendorMatches : Bool :=
  (bus.descriptor dev).any fun desc =>
    desc.idVendor == (if criteria.hasVid then criteria.vid else samsungVid)

def productMatches : Bool :=
  (bus.descriptor dev).any fun desc => !criteria.hasPid || desc.idProduct == criteria.pid

/-- A device that looks as if it were in download mode, or that was asked for. -/
def downloadMode : Bool :=
  criteria.hasPid || criteria.hasVid || bus.pidKnown dev ||
    (bus.bestInterface criteria dev).interfaceClass == 0x0A

/-- The filters for the vendor, the product, the path, the interface and the mode. -/
def eligible : Bool :=
  bus.vendorMatches criteria dev && bus.productMatches criteria dev &&
    (specificPath.isEmpty || bus.path dev == specificPath) &&
    decide (0 ≤ bus.score criteria dev) && bus.downloadMode criteria dev

end Devices

/-- The devices to choose from. -/
def candidates : List LibusbDevice := bus.devices.filter (bus.eligible specificPath criteria)

/-- The device that the loop ends with. -/
def chosen : Option LibusbDevice :=
  runningBest (bus.totalScore criteria) (bus.score criteria) (bus.candidates specificPath criteria)

/-! ## Looking through the devices -/

/-- What the bus answers. -/
def known : (request : LibusbCall) → Option request.Reply
  | .getDeviceDescriptor dev => some (bus.descriptor dev)
  | .getBusNumber dev => some (bus.busNumber dev)
  | .getDeviceAddress dev => some (bus.deviceAddress dev)
  | .getActiveConfigDescriptor dev => some (bus.activeConfig dev)
  | .freeConfigDescriptor => some ()
  | _ => none

theorem evaluate_libusb (request : LibusbCall) :
    (libusb request).evaluate bus.known = bus.known request :=
  evaluate_perform bus.known request

theorem evaluate_findBestInterface (dev : LibusbDevice) :
    (findBestInterface dev criteria).evaluate bus.known = some (bus.bestInterface criteria dev) := by
  have hknown : bus.known (.getActiveConfigDescriptor dev) = some (bus.activeConfig dev) := rfl
  rw [findBestInterface, evaluate_bind, evaluate_libusb, hknown, Option.bind_some, bestInterface]
  cases bus.activeConfig dev with
  | none => rfl
  | some config => rfl

theorem evaluate_usbPathForDevice (dev : LibusbDevice) :
    (usbPathForDevice dev).evaluate bus.known = some (bus.path dev) := rfl

theorem evaluate_pathMatches (dev : LibusbDevice) :
    (pathMatches specificPath dev).evaluate bus.known =
      some (specificPath.isEmpty || bus.path dev == specificPath) := by
  unfold pathMatches
  split
  next hempty => simp [hempty]
  next hempty =>
    rw [evaluate_bind, evaluate_usbPathForDevice]
    simp [hempty]

/-- What the loop keeps after having chosen a device. -/
def scanOf (best : Option LibusbDevice) (sawCandidateVendor : Bool) : DeviceScan where
  target := best
  chosenIf := best.elim {} (bus.bestInterface criteria)
  sawCandidateVendor := sawCandidateVendor

/-- The test against the score that is kept, for a device with an interface. -/
theorem keepBetter_eq {dev : LibusbDevice} (best : Option LibusbDevice)
    (hscore : 0 ≤ bus.score criteria dev) :
    keepBetter (bus.totalScore criteria) (bus.score criteria) best dev =
      if (best.elim {} (bus.bestInterface criteria)).score < bus.totalScore criteria dev
      then some dev else best := by
  cases best with
  | none =>
      have hpos : (-1 : Int) < bus.totalScore criteria dev := by
        unfold totalScore
        split <;> omega
      exact (if_pos hpos).symm
  | some kept =>
      unfold keepBetter score
      simp only [Option.all_some, decide_eq_true_eq, Option.elim_some]
      rfl

section Filters

variable {bus} {dev : LibusbDevice} {desc : DeviceDescriptor}

theorem vendor_refused_iff (hdesc : bus.descriptor dev = some desc) :
    desc.idVendor ≠ (if criteria.hasVid then criteria.vid else samsungVid) ↔
      bus.vendorMatches criteria dev = false := by
  simp [vendorMatches, hdesc]

theorem product_refused_iff (hdesc : bus.descriptor dev = some desc) :
    criteria.hasPid = true ∧ desc.idProduct ≠ criteria.pid ↔
      bus.productMatches criteria dev = false := by
  simp [productMatches, hdesc]

theorem interface_refused_iff : (bus.bestInterface criteria dev).score < 0 ↔
    decide (0 ≤ bus.score criteria dev) = false := by
  rw [decide_eq_false_iff_not, Int.not_le, score]

theorem known_eq_pidKnown (hdesc : bus.descriptor dev = some desc) :
    isKnownDownloadPid desc.idProduct = bus.pidKnown dev := by
  simp [pidKnown, hdesc]

theorem mode_refused_eq :
    (!criteria.hasPid && !criteria.hasVid && !bus.pidKnown dev &&
        !((bus.bestInterface criteria dev).interfaceClass == 0x0A)) =
      !bus.downloadMode criteria dev := by
  simp [downloadMode]

end Filters

theorem evaluate_visit (best : Option LibusbDevice) (sawCandidateVendor : Bool)
    (dev : LibusbDevice) :
    ((bus.scanOf criteria best sawCandidateVendor).visit specificPath criteria dev).evaluate
        bus.known =
      some (bus.scanOf criteria
        (if bus.eligible specificPath criteria dev then
          keepBetter (bus.totalScore criteria) (bus.score criteria) best dev else best)
        (sawCandidateVendor || bus.vendorMatches criteria dev)) := by
  have hknown : bus.known (.getDeviceDescriptor dev) = some (bus.descriptor dev) := rfl
  rw [DeviceScan.visit, evaluate_bind, evaluate_libusb, hknown, Option.bind_some]
  cases hdesc : bus.descriptor dev with
  | none => simp [eligible, vendorMatches, hdesc]
  | some desc =>
      simp only [vendor_refused_iff criteria hdesc, product_refused_iff criteria hdesc,
        interface_refused_iff, known_eq_pidKnown hdesc, mode_refused_eq, evaluate_bind,
        evaluate_pathMatches, evaluate_findBestInterface, Option.bind_some,
        apply_ite (evaluate bus.known), evaluate_pure]
      unfold eligible
      -- The filters are tried in this order, and the first that fails ends the visit.
      cases bus.vendorMatches criteria dev with
      | false => simp
      | true =>
          rw [Bool.or_true, Bool.true_and]
          cases bus.productMatches criteria dev with
          | false => rfl
          | true =>
              cases specificPath.isEmpty || bus.path dev == specificPath with
              | false => rfl
              | true =>
                  cases hpos : decide (0 ≤ bus.score criteria dev) with
                  | false => rfl
                  | true =>
                      cases bus.downloadMode criteria dev with
                      | false => rfl
                      | true =>
                          have hkeep := bus.keepBetter_eq criteria best (of_decide_eq_true hpos)
                          simp only [Bool.and_self, if_true, hkeep]
                          exact (apply_ite (fun best => some (bus.scanOf criteria best true))
                            _ (some dev) best).symm

theorem evaluate_scanDevices (best : Option LibusbDevice) (sawCandidateVendor : Bool)
    (devices : List LibusbDevice) :
    (scanDevices specificPath criteria (bus.scanOf criteria best sawCandidateVendor)
        devices).evaluate bus.known =
      some (bus.scanOf criteria
        ((devices.filter (bus.eligible specificPath criteria)).foldl
          (keepBetter (bus.totalScore criteria) (bus.score criteria)) best)
        (sawCandidateVendor || devices.any (bus.vendorMatches criteria))) := by
  induction devices generalizing best sawCandidateVendor with
  | nil => simp [scanDevices]
  | cons dev rest ih =>
      rw [scanDevices, evaluate_bind, evaluate_visit, Option.bind_some, ih, List.any_cons,
        Bool.or_assoc]
      cases heligible : bus.eligible specificPath criteria dev with
      | false => rw [List.filter_cons_of_neg (by simp [heligible])]; rfl
      | true => rw [List.filter_cons_of_pos heligible]; rfl

end UsbBus

/-! ## What a call opens -/

def LibusbEvent.target? (event : LibusbEvent) : Option LibusbDevice :=
  match event.call with
  | .openDevice dev => some dev
  | _ => none

def LibusbEvent.enumerated? (event : LibusbEvent) : Option (List LibusbDevice) :=
  match event with
  | ⟨.getDeviceList, .obtained _ devices⟩ => some devices
  | _ => none

/-- The devices that the library was asked to open. -/
def targets (trace : LibusbTrace) : List LibusbDevice := trace.filterMap LibusbEvent.target?

/-- The lists of devices that were obtained. -/
def enumerations (trace : LibusbTrace) : List (List LibusbDevice) :=
  trace.filterMap LibusbEvent.enumerated?

@[simp] theorem targets_append (first second : LibusbTrace) :
    targets (first ++ second) = targets first ++ targets second :=
  List.filterMap_append

@[simp] theorem enumerations_append (first second : LibusbTrace) :
    enumerations (first ++ second) = enumerations first ++ enumerations second :=
  List.filterMap_append

/-- The devices of this bus were listed, and it answered every question about them. -/
structure UsbBus.Enumerated (bus : UsbBus) (trace : LibusbTrace) : Prop where
  listed : enumerations trace = [bus.devices]
  answered : AnsweredAs bus.known trace

/-- Neither a list is obtained nor a device opened. -/
def LibusbEvent.IsApart (event : LibusbEvent) : Prop :=
  LibusbEvent.target? event = none ∧ LibusbEvent.enumerated? event = none

/-- A program in which nothing is listed or opened. -/
abbrev StaysApart {α : Type} (program : Libusb α) : Prop := Emits LibusbEvent.IsApart program

theorem StaysApart.nothing {α : Type} {program : Libusb α} {trace : LibusbTrace} {result : α}
    (h : StaysApart program) (hexec : program.Executes trace result) :
    targets trace = [] ∧ enumerations trace = [] := by
  constructor
  · exact (h.mono fun _ hapart => hapart.1).filterMap_eq_nil hexec
  · exact (h.mono fun _ hapart => hapart.2).filterMap_eq_nil hexec

section Apart

variable (usb : UsbConnection)

theorem staysApart_closeHandle : StaysApart usb.closeHandle := by
  unfold UsbConnection.closeHandle
  cases usb.handle with
  | none => exact emits_pure _
  | some handle =>
      refine emits_perform_bind (fun _ => ⟨rfl, rfl⟩) fun _ => ?_
      apply emits_ite
      · intro _
        refine emits_perform_bind (fun _ => ⟨rfl, rfl⟩) fun _ => ?_
        exact emits_perform_bind (fun _ => ⟨rfl, rfl⟩) fun _ => emits_pure _
      · intro _
        exact emits_perform_bind (fun _ => ⟨rfl, rfl⟩) fun _ => emits_pure _

theorem staysApart_freeDeviceList : StaysApart usb.freeDeviceList := by
  unfold UsbConnection.freeDeviceList
  cases usb.deviceList with
  | none => exact emits_pure _
  | some list => exact emits_perform_bind (fun _ => ⟨rfl, rfl⟩) fun _ => emits_pure _

theorem staysApart_destroy : StaysApart usb.destroy :=
  emits_bind (staysApart_closeHandle usb) staysApart_freeDeviceList

theorem staysApart_ensureLibusbInitialized (once : Option Bool) :
    StaysApart (UsbConnection.ensureLibusbInitialized once) := by
  cases once with
  | some ready => exact emits_pure _
  | none => exact emits_perform_bind (fun _ => ⟨rfl, rfl⟩) fun _ => emits_pure _

theorem staysApart_usbPathForDevice (dev : LibusbDevice) : StaysApart (usbPathForDevice dev) := by
  refine emits_perform_bind (fun _ => ⟨rfl, rfl⟩) fun _ => ?_
  exact emits_perform_bind (fun _ => ⟨rfl, rfl⟩) fun _ => emits_pure _

theorem staysApart_abandon (handle : DeviceHandle) : StaysApart (usb.abandon handle) := by
  apply emits_ite
  · intro _
    refine emits_perform_bind (fun _ => ⟨rfl, rfl⟩) fun _ => ?_
    exact emits_perform_bind (fun _ => ⟨rfl, rfl⟩) fun _ => emits_pure _
  · intro _
    exact emits_perform_bind (fun _ => ⟨rfl, rfl⟩) fun _ => emits_pure _

theorem staysApart_claim (target : LibusbDevice) (handle : DeviceHandle) :
    StaysApart (usb.claim target handle) := by
  refine emits_perform_bind (fun _ => ⟨rfl, rfl⟩) fun claimErr => ?_
  apply emits_ite
  · intro _
    exact staysApart_abandon _ handle
  · intro _
    exact emits_bind (staysApart_usbPathForDevice target) fun _ => emits_pure _

theorem staysApart_takeInterface (target : LibusbDevice) (handle : DeviceHandle) :
    StaysApart (usb.takeInterface target handle) := by
  refine emits_perform_bind (fun _ => ⟨rfl, rfl⟩) fun state => ?_
  apply emits_ite
  · intro _
    exact emits_perform_bind (fun _ => ⟨rfl, rfl⟩) fun _ => emits_pure _
  · intro _
    apply emits_ite
    · intro _
      refine emits_perform_bind (fun _ => ⟨rfl, rfl⟩) fun detachErr => ?_
      apply emits_ite
      · intro _
        exact emits_perform_bind (fun _ => ⟨rfl, rfl⟩) fun _ => emits_pure _
      · intro _
        exact staysApart_claim _ target handle
    · intro _
      exact staysApart_claim usb target handle

end Apart

/-- No device was there, or none in download mode. -/
def UsbOpenError.nothingFound : UsbOpenError → Bool
  | .noDevice => true
  | .notDownloadMode => true
  | _ => false

section Found

variable {usb : UsbConnection} {target : LibusbDevice}

/-- The error that is left behind is not that nothing was found. -/
abbrev LeavesFound (program : Libusb (Bool × UsbConnection)) : Prop :=
  Returns (fun result => result.2.lastOpenError.nothingFound = false) program

theorem failedWith_found (usb : UsbConnection) (err : Int) :
    (usb.failedWith err).lastOpenError.nothingFound = false := by
  unfold UsbConnection.failedWith
  dsimp only
  split
  · rfl
  · rfl

theorem leavesFound_abandon (handle : DeviceHandle)
    (h : usb.lastOpenError.nothingFound = false) : LeavesFound (usb.abandon handle) := by
  apply returns_ite
  · intro _
    exact returns_bind fun _ => returns_bind fun _ => returns_pure h
  · intro _
    exact returns_bind fun _ => returns_pure h

theorem leavesFound_claim (handle : DeviceHandle) (h : usb.lastOpenError.nothingFound = false) :
    LeavesFound (usb.claim target handle) := by
  apply returns_bind
  intro claimErr
  apply returns_ite
  · intro _
    exact leavesFound_abandon handle (failedWith_found usb claimErr)
  · intro _
    exact returns_bind fun _ => returns_pure h

theorem leavesFound_takeInterface (handle : DeviceHandle)
    (h : usb.lastOpenError.nothingFound = false) :
    LeavesFound (usb.takeInterface target handle) := by
  apply returns_bind
  intro state
  apply returns_ite
  · intro _
    exact returns_bind fun _ => returns_pure (failedWith_found usb state)
  · intro _
    apply returns_ite
    · intro _
      apply returns_bind
      intro detachErr
      apply returns_ite
      · intro _
        exact returns_bind fun _ => returns_pure (failedWith_found usb detachErr)
      · intro _
        exact leavesFound_claim handle h
    · intro _
      exact leavesFound_claim handle h

theorem leavesFound_openTarget (chosenIf : InterfaceCandidate)
    (h : usb.lastOpenError.nothingFound = false) :
    LeavesFound (usb.openTarget target chosenIf) := by
  apply returns_bind
  rintro (openErr | handle)
  · apply returns_pure
    dsimp only
    split
    · rfl
    · split
      · rfl
      · rfl
  · exact leavesFound_takeInterface handle h

end Found

/-- Giving back what is held changes no error. -/
theorem destroy_keepsError (usb : UsbConnection) :
    Returns (fun usb' => usb'.lastOpenError = usb.lastOpenError) usb.destroy := by
  have hclose : Returns (fun usb' => usb'.lastOpenError = usb.lastOpenError) usb.closeHandle := by
    unfold UsbConnection.closeHandle
    cases usb.handle with
    | none => exact returns_pure rfl
    | some handle =>
        apply returns_bind
        intro _
        apply returns_ite
        · intro _
          exact returns_bind fun _ => returns_bind fun _ => returns_pure rfl
        · intro _
          exact returns_bind fun _ => returns_pure rfl
  refine returns_bind_of hclose fun closed hclosed => ?_
  unfold UsbConnection.freeDeviceList
  cases closed.deviceList with
  | none => exact returns_pure hclosed
  | some list => exact returns_bind fun _ => returns_pure hclosed

section Selection

variable {bus : UsbBus} {usb usb' : UsbConnection} {specificPath : Bytes}
variable {criteria : UsbSelectionCriteria} {trace : LibusbTrace} {ok : Bool}

/-- The target is opened first, and nothing else is. -/
theorem openTarget_targets {target : LibusbDevice} {chosenIf : InterfaceCandidate}
    (hexec : (usb.openTarget target chosenIf).Executes trace (ok, usb')) :
    targets trace = [target] ∧ enumerations trace = [] := by
  obtain ⟨reply, rest, rfl, hrest⟩ := executes_libusb_bind.mp hexec
  have hnothing : targets rest = [] ∧ enumerations rest = [] := by
    cases reply with
    | failed openErr =>
        obtain ⟨rfl, -⟩ := executes_pure.mp hrest
        exact ⟨rfl, rfl⟩
    | opened handle => exact StaysApart.nothing (staysApart_takeInterface _ target handle) hrest
  rw [targets_append, enumerations_append, hnothing.1, hnothing.2]
  exact ⟨rfl, rfl⟩

/-- A program that asks the bus only has one result, and lists and opens nothing. -/
theorem asks_bus_only {α : Type} {program : Libusb α} {a b : α}
    (hexec : program.Executes trace b) (hanswered : AnsweredAs bus.known trace)
    (hevaluate : program.evaluate bus.known = some a) :
    b = a ∧ targets trace = [] ∧ enumerations trace = [] := by
  obtain ⟨hresult, hcalls⟩ := hexec.evaluated hanswered hevaluate
  have hapart : ∀ event ∈ trace, LibusbEvent.IsApart event := by
    rintro ⟨request, reply⟩ hmem
    have hknown := hcalls _ hmem
    cases request <;> first | exact ⟨rfl, rfl⟩ | exact absurd rfl hknown
  refine ⟨hresult, ?_, ?_⟩
  · exact List.filterMap_eq_nil_iff.mpr fun event hmem => (hapart event hmem).1
  · exact List.filterMap_eq_nil_iff.mpr fun event hmem => (hapart event hmem).2

theorem enumerate_enumerated (hnone : usb.lastOpenError = .none)
    (hexec : (usb.enumerate specificPath criteria).Executes trace (ok, usb'))
    (hbus : bus.Enumerated trace) :
    targets trace = (bus.chosen specificPath criteria).toList ∧
      (usb'.lastOpenError.nothingFound = true ↔ bus.chosen specificPath criteria = none) := by
  obtain ⟨reply, rest, rfl, hrest⟩ := executes_libusb_bind.mp hexec
  obtain ⟨-, hanswered⟩ := answeredAs_append.mp hbus.answered
  cases reply with
  | failed code negative =>
      obtain ⟨rfl, -⟩ := executes_pure.mp hrest
      -- A failed call obtains no list, but the bus was listed.
      have hlisted : ([] : List (List LibusbDevice)) = [bus.devices] := hbus.listed
      exact absurd hlisted (List.cons_ne_nil _ _).symm
  | obtained list devices =>
      obtain ⟨second, scan, tail, rfl, hsecond, htail⟩ := executes_bind.mp hrest
      obtain ⟨hscanned, -⟩ := answeredAs_append.mp hanswered
      obtain ⟨hscan, htargets, hlists⟩ := asks_bus_only hsecond hscanned
        (bus.evaluate_scanDevices specificPath criteria none false devices)
      have hdevices : devices = bus.devices := by
        have hlisted := hbus.listed
        rw [enumerations_append, enumerations_append, hlists] at hlisted
        exact (List.cons.inj hlisted).1
      subst hdevices
      obtain rfl : scan = bus.scanOf criteria (bus.chosen specificPath criteria)
        (bus.devices.any (bus.vendorMatches criteria)) := hscan
      rw [targets_append, targets_append, htargets]
      cases hchosen : bus.chosen specificPath criteria with
      | none =>
          rw [hchosen] at htail
          obtain ⟨rfl, -, rfl⟩ := executes_pure_pair.mp htail
          refine ⟨rfl, iff_of_true ?_ rfl⟩
          dsimp only
          split
          · rfl
          · rfl
      | some target =>
          rw [hchosen] at htail
          have hfound := leavesFound_openTarget _ (by rw [hnone]; rfl) _ _ htail
          refine ⟨?_, iff_of_false ?_ (Option.some_ne_none _)⟩
          · rw [(openTarget_targets htail).1]
            rfl
          · rw [hfound]
            exact Bool.false_ne_true

/-- A call asks the library to open the chosen device and no other, and it
reports that nothing was found exactly if there is none. -/
theorem openDevice_enumerated {once once' : Option Bool}
    (hexec : (usb.openDevice once specificPath criteria).Executes trace (ok, once', usb'))
    (hbus : bus.Enumerated trace) :
    targets trace = (bus.chosen specificPath criteria).toList ∧
      (usb'.lastOpenError.nothingFound = true ↔ bus.chosen specificPath criteria = none) := by
  obtain ⟨giving, freed, ensuring, ready, rest, rfl, hgiving, hensure, hlast⟩ :=
    UsbConnection.executes_openDevice hexec
  -- Until the devices are looked through, no error is recorded and nothing is listed.
  have hnone : freed.lastOpenError = .none := destroy_keepsError _ _ _ hgiving
  obtain ⟨hgivingTargets, hgivingLists⟩ := StaysApart.nothing (staysApart_destroy _) hgiving
  obtain ⟨hinitTargets, hinitLists⟩ :=
    StaysApart.nothing (staysApart_ensureLibusbInitialized once) hensure
  obtain ⟨-, hanswered⟩ := answeredAs_append.mp hbus.answered
  obtain ⟨-, hanswered⟩ := answeredAs_append.mp hanswered
  have hlisted := hbus.listed
  rw [enumerations_append, enumerations_append, hgivingLists, hinitLists, List.nil_append,
    List.nil_append] at hlisted
  rw [targets_append, targets_append, hgivingTargets, hinitTargets]
  rcases hlast with ⟨rfl, -, -⟩ | henumerate
  · exact absurd hlisted (List.cons_ne_nil _ _).symm
  · exact enumerate_enumerated hnone henumerate ⟨hlisted, hanswered⟩

end Selection

end Odin4
