import Odin4.Usb.Libusb

/-!
# Opening a device

Opening gives up what an earlier call holds, looks for the best interface of
all matching devices and claims it. Every way out gives back what it has
taken, and the destructor gives back the rest.
-/

namespace Odin4

open Interaction Program

/-! ## The best interface of a device -/

structure InterfaceCandidate where
  score : Int := -1
  interfaceNumber : Int := -1
  epIn : UInt8 := 0
  epOut : UInt8 := 0
  epOutMps : UInt16 := 0
  interfaceClass : UInt8 := 0
  numEndpoints : Nat := 0
deriving DecidableEq, Repr

/-- What the loop over the endpoints of a setting has seen. -/
structure EndpointScan where
  epIn : UInt8 := 0
  epOut : UInt8 := 0
  epOutMps : UInt16 := 0
  bulkEndpoints : Nat := 0

def libusbTransferTypeBulk : UInt8 := 2

def EndpointScan.add (scan : EndpointScan) (ep : EndpointDescriptor) : EndpointScan :=
  if ep.bmAttributes &&& 0x03 ≠ libusbTransferTypeBulk then scan
  else
    let scan := { scan with bulkEndpoints := scan.bulkEndpoints + 1 }
    -- In each direction the last endpoint counts.
    if ep.bEndpointAddress &&& 0x80 ≠ 0 then { scan with epIn := ep.bEndpointAddress }
    else { scan with epOut := ep.bEndpointAddress, epOutMps := ep.wMaxPacketSize }

/-- Keep the better of the best candidate so far and one alternate setting. -/
def InterfaceCandidate.consider (criteria : UsbSelectionCriteria) (best : InterfaceCandidate)
    (setting : InterfaceDescriptor) : InterfaceCandidate :=
  if criteria.hasInterface ∧ (setting.bInterfaceNumber.toNat : Int) ≠ criteria.interfaceNumber then
    best
  else
    let scan := setting.endpoint.foldl EndpointScan.add {}
    if scan.epIn = 0 ∨ scan.epOut = 0 then best
    else
      -- A data interface with nothing but its two endpoints is preferred.
      let dataScore : Int :=
        if setting.bInterfaceClass = 0x0A ∧ setting.endpoint.length = 2 then 100 else 0
      let cleanScore : Int := if scan.bulkEndpoints = 2 then 10 else 0
      let score := dataScore + 50 + cleanScore
      if best.score < score then
        { score
          interfaceNumber := setting.bInterfaceNumber.toNat
          epIn := scan.epIn
          epOut := scan.epOut
          epOutMps := scan.epOutMps
          interfaceClass := setting.bInterfaceClass
          numEndpoints := setting.endpoint.length }
      else best

def findBestInterface (dev : LibusbDevice) (criteria : UsbSelectionCriteria) :
    Libusb InterfaceCandidate := do
  let some config ← libusb (.getActiveConfigDescriptor dev) | return {}
  let best := config.interface.flatten.foldl (InterfaceCandidate.consider criteria) {}
  libusb .freeConfigDescriptor
  return best

/-! ## The best device -/

def samsungVid : UInt16 := 0x04E8

def samsungDownloadPids : List UInt16 := [0x6601, 0x685D, 0x68C3]

def isKnownDownloadPid (pid : UInt16) : Bool := samsungDownloadPids.contains pid

/-- Three decimal digits. -/
def threeDigits (number : UInt8) : Bytes :=
  [48 + number / 100, 48 + number / 10 % 10, 48 + number % 10]

def usbPathForDevice (dev : LibusbDevice) : Libusb Bytes := do
  let bus ← libusb (.getBusNumber dev)
  let address ← libusb (.getDeviceAddress dev)
  return ascii "/dev/bus/usb/" ++ threeDigits bus ++ ascii "/" ++ threeDigits address

/-- What the loop over the devices has found. -/
structure DeviceScan where
  target : Option LibusbDevice := none
  chosenIf : InterfaceCandidate := {}
  sawCandidateVendor : Bool := false

/-- Whether the device has the path that was asked for. -/
def pathMatches (specificPath : Bytes) (dev : LibusbDevice) : Libusb Bool := do
  if specificPath.isEmpty then return true
  return (← usbPathForDevice dev) == specificPath

def DeviceScan.visit (specificPath : Bytes) (criteria : UsbSelectionCriteria) (scan : DeviceScan)
    (dev : LibusbDevice) : Libusb DeviceScan := do
  let some desc ← libusb (.getDeviceDescriptor dev) | return scan
  if desc.idVendor ≠ (if criteria.hasVid then criteria.vid else samsungVid) then return scan
  let scan := { scan with sawCandidateVendor := true }
  if criteria.hasPid ∧ desc.idProduct ≠ criteria.pid then return scan
  if !(← pathMatches specificPath dev) then return scan
  let cand ← findBestInterface dev criteria
  if cand.score < 0 then return scan
  let pidKnown := isKnownDownloadPid desc.idProduct
  let cdcData := cand.interfaceClass == 0x0A
  -- What was not asked for must look like a device in download mode.
  if !criteria.hasPid && !criteria.hasVid && !pidKnown && !cdcData then return scan
  if scan.chosenIf.score < cand.score + (if pidKnown then 20 else 0) then
    return { scan with chosenIf := cand, target := some dev }
  return scan

def scanDevices (specificPath : Bytes) (criteria : UsbSelectionCriteria) :
    DeviceScan → List LibusbDevice → Libusb DeviceScan
  | scan, [] => return scan
  | scan, dev :: rest => do
      let scan ← scan.visit specificPath criteria dev
      scanDevices specificPath criteria scan rest

/-! ## Opening and closing -/

namespace UsbConnection

variable (usb : UsbConnection)

/-- Give up the device that is held. -/
def closeHandle : Libusb UsbConnection := do
  let some handle := usb.handle | return usb
  let _ ← libusb (.releaseInterface handle usb.interfaceNumber)
  if usb.kernelDriverDetached then
    let _ ← libusb (.attachKernelDriver handle usb.interfaceNumber)
    libusb (.close handle)
    return { usb with handle := none, kernelDriverDetached := false }
  libusb (.close handle)
  return { usb with handle := none }

def freeDeviceList : Libusb UsbConnection := do
  let some list := usb.deviceList | return usb
  libusb (.freeDeviceList list)
  return { usb with deviceList := none }

/-- The destructor. -/
def destroy : Libusb UsbConnection := do
  let usb ← usb.closeHandle
  usb.freeDeviceList

/-- Give back a handle whose interface could not be claimed. -/
def abandon (handle : DeviceHandle) : Libusb (Bool × UsbConnection) := do
  if usb.kernelDriverDetached then
    let _ ← libusb (.attachKernelDriver handle usb.interfaceNumber)
    libusb (.close handle)
    return (false, { usb with handle := none, kernelDriverDetached := false })
  libusb (.close handle)
  return (false, { usb with handle := none })

/-- The error that a refused call on the handle is reported as. -/
def failedWith (err : Int) : UsbConnection :=
  { usb with
    lastOpenError := if err = libusbErrorAccess then .accessDenied else .other
    lastOpenLibusbErr := err }

def claim (target : LibusbDevice) (handle : DeviceHandle) : Libusb (Bool × UsbConnection) := do
  let claimErr ← libusb (.claimInterface handle usb.interfaceNumber)
  if claimErr < 0 then (usb.failedWith claimErr).abandon handle
  else
    let _ ← usbPathForDevice target
    return (true, usb)

/-- Detach the kernel driver if there is one, and claim the interface. -/
def takeInterface (target : LibusbDevice) (handle : DeviceHandle) :
    Libusb (Bool × UsbConnection) := do
  let kernelDriverState ← libusb (.kernelDriverActive handle usb.interfaceNumber)
  -- This covers libraries that cannot tell.
  if kernelDriverState < 0 then
    libusb (.close handle)
    return (false, { usb.failedWith kernelDriverState with handle := none })
  if kernelDriverState = 1 then
    let detachErr ← libusb (.detachKernelDriver handle usb.interfaceNumber)
    if detachErr < 0 then
      libusb (.close handle)
      return (false, { usb.failedWith detachErr with handle := none })
    let usb := { usb with kernelDriverDetached := true }
    usb.claim target handle
  else usb.claim target handle

def openTarget (target : LibusbDevice) (chosenIf : InterfaceCandidate) :
    Libusb (Bool × UsbConnection) := do
  let usb :=
    { usb with
      endpointIn := chosenIf.epIn
      endpointOut := chosenIf.epOut
      endpointOutMaxPacket :=
        if chosenIf.epOutMps ≠ 0 then chosenIf.epOutMps else usb.endpointOutMaxPacket
      interfaceNumber := chosenIf.interfaceNumber
      kernelDriverDetached := false }
  match ← libusb (.openDevice target) with
  | .failed openErr =>
      return (false,
        { usb with
          lastOpenLibusbErr := openErr
          lastOpenError :=
            if openErr = libusbErrorAccess then .accessDenied
            else if openErr = libusbErrorBusy then .busy
            else .other })
  | .opened handle =>
      let usb := { usb with handle := some handle }
      usb.takeInterface target handle

/-- Look for a device and open it. -/
def enumerate (specificPath : Bytes) (criteria : UsbSelectionCriteria) :
    Libusb (Bool × UsbConnection) := do
  match ← libusb .getDeviceList with
  | .failed code _ => return (false, { usb with lastOpenError := .other, lastOpenLibusbErr := code })
  | .obtained list devices =>
      let usb := { usb with deviceList := some list }
      let scan ← scanDevices specificPath criteria {} devices
      match scan.target with
      | none =>
          return (false,
            { usb with
              lastOpenError := if scan.sawCandidateVendor then .notDownloadMode else .noDevice })
      | some target => usb.openTarget target scan.chosenIf

/-- The library is initialised once. `once` is how that went, if it was tried. -/
def ensureLibusbInitialized (once : Option Bool) : Libusb Bool :=
  match once with
  | some ready => return ready
  | none => do return (← libusb .init) == 0

/-- Whether a device was opened, how the initialisation went and the connection. -/
def openDevice (once : Option Bool) (specificPath : Bytes) (criteria : UsbSelectionCriteria) :
    Libusb (Bool × Option Bool × UsbConnection) := do
  let usb := { usb with lastOpenError := .none, lastOpenLibusbErr := 0 }
  let usb ← usb.closeHandle
  let usb ← usb.freeDeviceList
  let ready ← ensureLibusbInitialized once
  if !ready then
    return (false, some ready,
      { usb with lastOpenError := .other, lastOpenLibusbErr := libusbErrorOther })
  let (ok, usb) ← usb.enumerate specificPath criteria
  return (ok, some ready, usb)

/-- What is held is given back as by the destructor, and then a device is looked
for if the library is ready. -/
theorem executes_openDevice {usb usb' : UsbConnection} {once once' : Option Bool}
    {specificPath : Bytes} {criteria : UsbSelectionCriteria} {trace : LibusbTrace} {ok : Bool}
    (hexec : (usb.openDevice once specificPath criteria).Executes trace (ok, once', usb')) :
    ∃ giving freed ensuring ready rest, trace = giving ++ (ensuring ++ rest) ∧
      (destroy { usb with lastOpenError := .none, lastOpenLibusbErr := 0 }).Executes giving freed ∧
      (ensureLibusbInitialized once).Executes ensuring ready ∧
      (rest = [] ∧ ok = false ∧ usb' =
          { freed with lastOpenError := .other, lastOpenLibusbErr := libusbErrorOther } ∨
        (freed.enumerate specificPath criteria).Executes rest (ok, usb')) := by
  obtain ⟨first, closed, afterClose, rfl, hclose, hrest⟩ := executes_bind.mp hexec
  obtain ⟨second, freed, afterFree, rfl, hfree, htail⟩ := executes_bind.mp hrest
  obtain ⟨third, ready, rest, rfl, hensure, hlast⟩ := executes_bind.mp htail
  refine ⟨first ++ second, freed, third, ready, rest, (List.append_assoc _ _ _).symm,
    executes_bind.mpr ⟨first, closed, second, rfl, hclose, hfree⟩, hensure, ?_⟩
  split at hlast
  next =>
    obtain ⟨rfl, rfl, hstate⟩ := executes_pure_pair.mp hlast
    obtain ⟨-, rfl⟩ := Prod.mk.inj hstate
    exact .inl ⟨rfl, rfl, rfl⟩
  next =>
    obtain ⟨fourth, ⟨ok', found⟩, fin, rfl, henumerate, hfin⟩ := executes_bind.mp hlast
    obtain ⟨rfl, rfl, hstate⟩ := executes_pure_pair.mp hfin
    obtain ⟨-, rfl⟩ := Prod.mk.inj hstate
    rw [List.append_nil]
    exact .inr henumerate

end UsbConnection

end Odin4
