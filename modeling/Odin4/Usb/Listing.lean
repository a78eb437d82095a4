import Odin4.Usb.DeviceChoice

/-!
# Listing the devices in download mode

The list holds the paths of all eligible devices. Opening a device finds one
exactly if the list says so.
-/

namespace Odin4

open Interaction Program

/-- Append the path of a device that is eligible. -/
def addListed (criteria : UsbSelectionCriteria) (result : List Bytes) (dev : LibusbDevice) :
    Libusb (List Bytes) := do
  let some desc ← libusb (.getDeviceDescriptor dev) | return result
  if desc.idVendor ≠ (if criteria.hasVid then criteria.vid else samsungVid) then return result
  if criteria.hasPid ∧ desc.idProduct ≠ criteria.pid then return result
  let cand ← findBestInterface dev criteria
  if cand.score < 0 then return result
  let pidKnown := isKnownDownloadPid desc.idProduct
  let cdcData := cand.interfaceClass == 0x0A
  if !criteria.hasPid && !criteria.hasVid && !pidKnown && !cdcData then return result
  return result ++ [← usbPathForDevice dev]

def listDevices (criteria : UsbSelectionCriteria) :
    List Bytes → List LibusbDevice → Libusb (List Bytes)
  | result, [] => return result
  | result, dev :: rest => do
      let result ← addListed criteria result dev
      listDevices criteria result rest

/-- The paths, and how the initialisation of the library went. The list of devices
is freed on the way out. -/
def listDownloadDevices (once : Option Bool) (criteria : UsbSelectionCriteria) :
    Libusb (List Bytes × Option Bool) := do
  let ready ← UsbConnection.ensureLibusbInitialized once
  if !ready then return ([], some ready)
  match ← libusb .getDeviceList with
  | .failed _ _ => return ([], some ready)
  | .obtained list devices =>
      let result ← listDevices criteria [] devices
      libusb (.freeDeviceList list)
      return (result, some ready)

namespace UsbBus

variable (bus : UsbBus) (criteria : UsbSelectionCriteria)

theorem evaluate_addListed (result : List Bytes) (dev : LibusbDevice) :
    (addListed criteria result dev).evaluate bus.known =
      some (if bus.eligible [] criteria dev then result ++ [bus.path dev] else result) := by
  have hknown : bus.known (.getDeviceDescriptor dev) = some (bus.descriptor dev) := rfl
  rw [addListed, evaluate_bind, evaluate_libusb, hknown, Option.bind_some]
  cases hdesc : bus.descriptor dev with
  | none => simp [eligible, vendorMatches, hdesc]
  | some desc =>
      simp only [vendor_refused_iff criteria hdesc, product_refused_iff criteria hdesc,
        interface_refused_iff, known_eq_pidKnown hdesc, mode_refused_eq, evaluate_bind,
        evaluate_usbPathForDevice, evaluate_findBestInterface, Option.bind_some,
        apply_ite (evaluate bus.known), evaluate_pure]
      unfold eligible
      cases bus.vendorMatches criteria dev with
      | false => rfl
      | true =>
          cases bus.productMatches criteria dev with
          | false => rfl
          | true =>
              cases decide (0 ≤ bus.score criteria dev) with
              | false => rfl
              | true => cases bus.downloadMode criteria dev <;> rfl

theorem evaluate_listDevices (result : List Bytes) (devices : List LibusbDevice) :
    (listDevices criteria result devices).evaluate bus.known =
      some (result ++ (devices.filter (bus.eligible [] criteria)).map bus.path) := by
  induction devices generalizing result with
  | nil => simp [listDevices]
  | cons dev rest ih =>
      rw [listDevices, evaluate_bind, evaluate_addListed, Option.bind_some, ih]
      cases heligible : bus.eligible [] criteria dev with
      | false => simp [heligible]
      | true => simp [heligible]

/-- The filter for the path comes on top of the others. -/
theorem mem_candidates {specificPath : Bytes} {dev : LibusbDevice} :
    dev ∈ bus.candidates specificPath criteria ↔ dev ∈ bus.candidates [] criteria ∧
      (specificPath = [] ∨ bus.path dev = specificPath) := by
  simp only [candidates, List.mem_filter, eligible, Bool.and_eq_true, Bool.or_eq_true,
    List.isEmpty_iff, beq_iff_eq, List.isEmpty_nil, Bool.true_or, and_true]
  tauto

end UsbBus

section Agreement

variable {bus : UsbBus} {criteria : UsbSelectionCriteria} {listTrace : LibusbTrace}
variable {paths : List Bytes} {once once' : Option Bool}

/-- The list that is returned is that of the paths of all eligible devices. -/
theorem listDownloadDevices_enumerated
    (hexec : (listDownloadDevices once criteria).Executes listTrace (paths, once'))
    (hbus : bus.Enumerated listTrace) : paths = (bus.candidates [] criteria).map bus.path := by
  obtain ⟨first, ready, rest, rfl, hensure, hrest⟩ := executes_bind.mp hexec
  obtain ⟨-, hinitLists⟩ := StaysApart.nothing (staysApart_ensureLibusbInitialized once) hensure
  obtain ⟨-, hanswered⟩ := answeredAs_append.mp hbus.answered
  have hlisted := hbus.listed
  rw [enumerations_append, hinitLists, List.nil_append] at hlisted
  split at hrest
  next hready =>
    obtain ⟨rfl, -⟩ := executes_pure.mp hrest
    exact absurd hlisted (List.cons_ne_nil _ _).symm
  next hready =>
    obtain ⟨reply, tail, rfl, htail⟩ := executes_libusb_bind.mp hrest
    rw [enumerations_append] at hlisted
    cases reply with
    | failed code negative =>
        obtain ⟨rfl, -⟩ := executes_pure.mp htail
        exact absurd hlisted (List.cons_ne_nil _ _).symm
    | obtained list devices =>
        obtain ⟨third, result, last, rfl, hthird, hlast⟩ := executes_bind.mp htail
        obtain ⟨freeing, _, fin, rfl, hfreeing, hfin⟩ := executes_bind.mp hlast
        obtain ⟨rfl, rfl, rfl⟩ := executes_pure_pair.mp hfin
        obtain ⟨-, hanswered⟩ := answeredAs_append.mp hanswered
        obtain ⟨hasked, -⟩ := answeredAs_append.mp hanswered
        obtain ⟨hresult, -, -⟩ :=
          asks_bus_only hthird hasked (bus.evaluate_listDevices criteria [] devices)
        obtain rfl : devices = bus.devices := (List.cons.inj hlisted).1
        exact hresult

variable {usb usb' : UsbConnection} {openOnce openOnce' : Option Bool} {specificPath : Bytes}
variable {trace : LibusbTrace} {ok : Bool}

/-- Opening a path reaches a device exactly if the path is in the list, opening
any device does so exactly if the list is not empty, and the path of the device is
in the list. What a call that reaches none reports is that nothing was found. -/
theorem openDevice_agrees_with_listing
    (hlist : (listDownloadDevices once criteria).Executes listTrace (paths, once'))
    (hlistBus : bus.Enumerated listTrace)
    (hopen : (usb.openDevice openOnce specificPath criteria).Executes trace (ok, openOnce', usb'))
    (hbus : bus.Enumerated trace) :
    (specificPath ≠ [] → (targets trace ≠ [] ↔ specificPath ∈ paths)) ∧
      (specificPath = [] → (targets trace ≠ [] ↔ paths ≠ [])) ∧
      (∀ target ∈ targets trace, bus.path target ∈ paths) ∧
      (targets trace ≠ [] ↔ usb'.lastOpenError.nothingFound = false) := by
  obtain rfl := listDownloadDevices_enumerated hlist hlistBus
  obtain ⟨htargets, herror⟩ := openDevice_enumerated hopen hbus
  have hchosen : targets trace ≠ [] ↔ bus.candidates specificPath criteria ≠ [] := by
    rw [htargets, ne_eq, Option.toList_eq_nil_iff, UsbBus.chosen]
    constructor
    · rintro h hnone
      exact h (by rw [hnone]; rfl)
    · exact runningBest_ne_none
  refine ⟨fun hpath => ?_, fun hpath => ?_, fun target htarget => ?_, ?_⟩
  · rw [hchosen, List.mem_map]
    -- Eligible devices with this path are those whose path was listed as this one.
    constructor
    · intro hne
      obtain ⟨dev, hmem⟩ := List.exists_mem_of_ne_nil _ hne
      obtain ⟨hlisted, hsame⟩ := (bus.mem_candidates criteria).mp hmem
      exact ⟨dev, hlisted, hsame.resolve_left hpath⟩
    · rintro ⟨dev, hlisted, hsame⟩
      exact List.ne_nil_of_mem ((bus.mem_candidates criteria).mpr ⟨hlisted, .inr hsame⟩)
  · rw [hchosen, hpath, ne_eq, ne_eq, List.map_eq_nil_iff]
  · rw [htargets, Option.mem_toList] at htarget
    have hmem := (stands_runningBest htarget).mem
    exact List.mem_map_of_mem ((bus.mem_candidates criteria).mp hmem).1
  · rw [htargets, ne_eq, Option.toList_eq_nil_iff, ← herror, Bool.not_eq_true]

end Agreement

/-- The second of two devices, by its path. -/
def openSecond : Libusb (Bool × Option Bool × UsbConnection) :=
  UsbConnection.openDevice {} none (ascii "/dev/bus/usb/001/002") {}

theorem openDevice_agrees_with_listing_second :
    ascii "/dev/bus/usb/001/002" ∈
      ((listDownloadDevices none {}).run (pairBus [⟨1⟩, ⟨2⟩]).environment []).2.1 := by
  have hlist : enumerations ((listDownloadDevices none {}).run
      (pairBus [⟨1⟩, ⟨2⟩]).environment []).1 = [[⟨1⟩, ⟨2⟩]] := by decide +kernel
  have hopen : enumerations (openSecond.run (pairBus [⟨1⟩, ⟨2⟩]).environment []).1 =
      [[⟨1⟩, ⟨2⟩]] := by decide +kernel
  have hreached : targets (openSecond.run (pairBus [⟨1⟩, ⟨2⟩]).environment []).1 ≠ [] := by
    decide +kernel
  have hagree := openDevice_agrees_with_listing
    (executes_run (pairBus [⟨1⟩, ⟨2⟩]).environment [] (listDownloadDevices none {}))
    (UsbBus.enumerated_run hlist)
    (executes_run (pairBus [⟨1⟩, ⟨2⟩]).environment [] openSecond)
    (UsbBus.enumerated_run hopen)
  exact (hagree.1 (by decide)).mp hreached

end Odin4
