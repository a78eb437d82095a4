import Mathlib.Data.List.Infix
import Odin4.Archive.ProcessTar

/-!
# One run against one device

The run opens the device, shakes hands, checks the archive names against the
device type, begins a session, reads the PIT, processes the archives and
closes the session.
-/

namespace Odin4

open Interaction Program

def hasAnyFirmwareFiles (cfg : OdinConfig) : Bool :=
  !cfg.bootloader.isEmpty || !cfg.ap.isEmpty || !cfg.cp.isEmpty || !cfg.csc.isEmpty ||
    !cfg.ums.isEmpty

def criteriaFromConfig (cfg : OdinConfig) : UsbSelectionCriteria where
  hasVid := cfg.hasVid
  vid := if cfg.hasVid then cfg.vid else 0
  hasPid := cfg.hasPid
  pid := if cfg.hasPid then cfg.pid else 0
  hasInterface := cfg.hasUsbInterface
  interfaceNumber := if cfg.hasUsbInterface then cfg.usbInterface else 0

/-- The archives of a run, in the order in which they are processed. -/
def archives (cfg : OdinConfig) : List Bytes :=
  [cfg.bootloader, cfg.ap, cfg.cp, cfg.csc, cfg.ums].filter fun path => !path.isEmpty

/-! ## Compatibility of file names and device type -/

/-- The device type in upper case without blanks, separators and leading `SM`. -/
def normalizeDeviceType (deviceType : Bytes) : Bytes :=
  let dt := (deviceType.filter fun c => !(isSpace c || c == 92 || c == 47 || c == 45)).map toUpper
  if ascii "SM" <+: dt then dt.drop 2 else dt

/-- The last component of a path. -/
def pathFilename (path : Bytes) : Bytes := (path.reverse.takeWhile (· != 47)).reverse

def fileMatches (dt path : Bytes) : Bool :=
  let f := ((pathFilename path).filter fun c => !(isSpace c || c == 45)).map toUpper
  decide (dt <:+: f)

def verifyFirmwareCompatibility (cfg : OdinConfig) (deviceType : Bytes) : Bool :=
  -- A device that does not tell its type takes every file.
  deviceType.isEmpty || (archives cfg).all (fileMatches (normalizeDeviceType deviceType))

/-! ## The run -/

/-- Open the device, shake hands and ask for the device type. -/
def connect (cfg : OdinConfig) : Usb (Except ExitCode UsbDevice) := do
  if !(← openDevice cfg.devicePath (criteriaFromConfig cfg)) then return .error .usb
  let (ok, usb) ← handshake {}
  if !ok then return .error .protocol
  let (ok, usb) ← requestDeviceType usb
  if !ok then return .error .protocol
  return .ok usb

/-- Begin the session and read the PIT. Without a PIT the session is closed. -/
def startSession (usb : UsbDevice) : Usb (Except ExitCode (UsbDevice × PitTable)) := do
  let (ok, usb) ← beginSession usb
  if !ok then return .error .protocol
  let some pit ← requestPit usb
    | do
      let _ ← endSession usb
      return .error .pit
  return .ok (usb, pit)

/-- Process archives until one of them fails. -/
def processArchives (host : Host) (usb : UsbDevice) (pit : PitTable)
    (doFlash allowUnknown : Bool) : List Bytes → Usb ExitCode
  | [] => return .success
  | path :: rest => do
      let rc ← processTarFile host path usb pit doFlash allowUnknown
      if rc ≠ .success then return rc
      processArchives host usb pit doFlash allowUnknown rest

/-- The reboot commands that the configuration asks for. -/
def sendControls (cfg : OdinConfig) (usb : UsbDevice) : Usb Bool := do
  if cfg.reboot then
    if !(← sendControl usb thorControlReboot) then return false
  if cfg.redownload then
    if !(← sendControl usb thorControlRedownload) then return false
  return true

/-- Process the archives, send the control commands and end the session. -/
def runSession (host : Host) (cfg : OdinConfig) (usb : UsbDevice) (pit : PitTable) :
    Usb ExitCode := do
  let rc ← processArchives host usb pit (!cfg.dryRun) cfg.allowUnknown (archives cfg)
  if rc ≠ .success then
    let _ ← endSession usb
    return rc
  if !cfg.dryRun then
    if !(← sendControls cfg usb) then
      let _ ← endSession usb
      return .protocol
  if !(← endSession usb) then return .protocol
  return .success

def runForDevice (host : Host) (cfg : OdinConfig) : Usb ExitCode := do
  match ← connect cfg with
  | .error code => return code
  | .ok usb =>
      if hasAnyFirmwareFiles cfg && !verifyFirmwareCompatibility cfg usb.deviceTypeStr then
        return .pit
      match ← startSession usb with
      | .error code => return code
      | .ok (usb, pit) => runSession host cfg usb pit

end Odin4
