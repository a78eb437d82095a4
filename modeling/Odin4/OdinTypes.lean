import Mathlib.Data.Vector.Basic
import Odin4.Foundation.ByteString

/-!
# Shared types

Exit codes, the configuration of a run and the partition information table.
-/

namespace Odin4

/-- Exit codes are part of the command line contract. -/
inductive ExitCode where
  | success
  | usage
  | usb
  | firmware
  | pit
  | protocol
deriving DecidableEq, Repr

structure OdinConfig where
  bootloader : Bytes := []
  ap : Bytes := []
  cp : Bytes := []
  csc : Bytes := []
  ums : Bytes := []
  devicePath : Bytes := []
  reboot : Bool := false
  redownload : Bool := false
  /-- Check only: verify and parse, but send no data to the device. -/
  dryRun : Bool := false
  /-- Skip files without a PIT partition instead of aborting. -/
  allowUnknown : Bool := false
  hasVid : Bool := false
  vid : UInt16 := 0
  hasPid : Bool := false
  pid : UInt16 := 0
  hasUsbInterface : Bool := false
  usbInterface : Int := 0
deriving DecidableEq, Repr

/-- One 132-byte entry. The three names are fixed fields and need not be
terminated. -/
structure PitEntry where
  binaryType : UInt32
  deviceType : UInt32
  identifier : UInt32
  attributes : UInt32
  updateAttributes : UInt32
  blockSizeOrOffset : UInt32
  blockCount : UInt32
  fileOffset : UInt32
  fileSize : UInt32
  partitionName : List.Vector UInt8 32
  fileName : List.Vector UInt8 32
  fotaName : List.Vector UInt8 32
deriving DecidableEq

structure PitTable where
  entryCount : UInt32
  headerSize : UInt32
  unknown1 : UInt32
  unknown2 : UInt32
  unknown3 : UInt16
  unknown4 : UInt16
  unknown5 : UInt16
  unknown6 : UInt16
  unknown7 : UInt16
  unknown8 : UInt16
  entries : List PitEntry
deriving DecidableEq

end Odin4
