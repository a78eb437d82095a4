import Odin4.Interaction.Program
import Odin4.Usb.Link

/-!
# The USB library

Below the link stand the calls of the USB library. Their outcomes belong to
the environment: an error code, and for a transfer the number of bytes that
were moved, which may be positive even if the transfer failed. A device list
or a handle is only obtained by a call that succeeds.
-/

namespace Odin4

open Interaction Program

/-! ## Values of the library -/

structure LibusbDevice where
  address : Nat
deriving DecidableEq, Repr

structure DeviceHandle where
  address : Nat
deriving DecidableEq, Repr

structure DeviceList where
  address : Nat
deriving DecidableEq, Repr

def libusbErrorAccess : Int := -3

def libusbErrorNoDevice : Int := -4

def libusbErrorBusy : Int := -6

def libusbErrorTimeout : Int := -7

def libusbErrorPipe : Int := -9

def libusbErrorOther : Int := -99

structure DeviceDescriptor where
  idVendor : UInt16
  idProduct : UInt16
deriving DecidableEq, Repr

structure EndpointDescriptor where
  bEndpointAddress : UInt8
  bmAttributes : UInt8
  wMaxPacketSize : UInt16
deriving DecidableEq, Repr

/-- The endpoints are those that the descriptor counts. -/
structure InterfaceDescriptor where
  bInterfaceNumber : UInt8
  bInterfaceClass : UInt8
  endpoint : List EndpointDescriptor
deriving DecidableEq, Repr

/-- The alternate settings of each interface. -/
structure ConfigDescriptor where
  interface : List (List InterfaceDescriptor)
deriving DecidableEq, Repr

/-! ## Calls and their outcomes -/

inductive LibusbCall where
  | init
  | getDeviceList
  | freeDeviceList (list : DeviceList)
  | getDeviceDescriptor (dev : LibusbDevice)
  | getBusNumber (dev : LibusbDevice)
  | getDeviceAddress (dev : LibusbDevice)
  | getActiveConfigDescriptor (dev : LibusbDevice)
  | freeConfigDescriptor
  | openDevice (dev : LibusbDevice)
  | close (handle : DeviceHandle)
  | kernelDriverActive (handle : DeviceHandle) (interfaceNumber : Int)
  | detachKernelDriver (handle : DeviceHandle) (interfaceNumber : Int)
  | attachKernelDriver (handle : DeviceHandle) (interfaceNumber : Int)
  | claimInterface (handle : DeviceHandle) (interfaceNumber : Int)
  | releaseInterface (handle : DeviceHandle) (interfaceNumber : Int)
  | bulkOut (handle : Option DeviceHandle) (endpoint : UInt8) (request : Bytes) (timeoutMs : Nat)
  | bulkIn (handle : Option DeviceHandle) (endpoint : UInt8) (length timeoutMs : Nat)
  | clearHalt (handle : Option DeviceHandle) (endpoint : UInt8)
  | sleepFor (ms : Nat)
deriving DecidableEq, Repr

/-- What became of a transfer to the device: it took that many leading bytes. -/
structure OutTransfer (request : Bytes) where
  err : Int
  actualLength : Nat
  le_length : actualLength ≤ request.length

/-- What became of a transfer from the device, and the bytes it delivered. -/
structure InTransfer (length : Nat) where
  err : Int
  delivered : Bytes
  le_length : delivered.length ≤ length

inductive DeviceListReply where
  | failed (code : Int) (negative : code < 0)
  | obtained (list : DeviceList) (devices : List LibusbDevice)

inductive OpenReply where
  | failed (err : Int)
  | opened (handle : DeviceHandle)

abbrev LibusbCall.Reply : LibusbCall → Type
  | .init => Int
  | .getDeviceList => DeviceListReply
  | .freeDeviceList _ => Unit
  | .getDeviceDescriptor _ => Option DeviceDescriptor
  | .getBusNumber _ => UInt8
  | .getDeviceAddress _ => UInt8
  | .getActiveConfigDescriptor _ => Option ConfigDescriptor
  | .freeConfigDescriptor => Unit
  | .openDevice _ => OpenReply
  | .close _ => Unit
  | .kernelDriverActive .. => Int
  | .detachKernelDriver .. => Int
  | .attachKernelDriver .. => Int
  | .claimInterface .. => Int
  | .releaseInterface .. => Int
  | .bulkOut _ _ request _ => OutTransfer request
  | .bulkIn _ _ length _ => InTransfer length
  | .clearHalt .. => Int
  | .sleepFor _ => Unit

abbrev LibusbEvent := Event LibusbCall LibusbCall.Reply

abbrev LibusbTrace := Trace LibusbCall LibusbCall.Reply

abbrev Libusb := Program LibusbCall LibusbCall.Reply

def libusb (request : LibusbCall) : Libusb request.Reply := perform request

theorem executes_libusb {request : LibusbCall} {trace : LibusbTrace} {reply : request.Reply} :
    (libusb request).Executes trace reply ↔ trace = [⟨request, reply⟩] :=
  executes_perform

/-- A program that makes a call goes on with its reply. -/
theorem executes_libusb_bind {α : Type} {request : LibusbCall} {f : request.Reply → Libusb α}
    {trace : LibusbTrace} {result : α} :
    (libusb request >>= f).Executes trace result ↔
      ∃ reply rest, trace = [⟨request, reply⟩] ++ rest ∧ (f reply).Executes rest result := by
  constructor
  · intro h
    obtain ⟨first, reply, rest, rfl, hfirst, hrest⟩ := executes_bind.mp h
    obtain rfl := executes_libusb.mp hfirst
    exact ⟨reply, rest, rfl, hrest⟩
  · rintro ⟨reply, rest, rfl, hrest⟩
    exact executes_bind.mpr ⟨_, reply, rest, rfl, executes_libusb.mpr rfl, hrest⟩

/-! ## The connection to one device -/

inductive UsbOpenError where
  | none
  | noDevice
  | notDownloadMode
  | accessDenied
  | busy
  | other
deriving DecidableEq, Repr

/-- What the device object keeps about its connection. -/
structure UsbConnection where
  handle : Option DeviceHandle := none
  deviceList : Option DeviceList := none
  endpointOut : UInt8 := 0x01
  endpointIn : UInt8 := 0x81
  interfaceNumber : Int := 0
  kernelDriverDetached : Bool := false
  maxChunkBytes : Nat := 1048576
  endpointOutMaxPacket : UInt16 := 512
  lastOpenError : UsbOpenError := .none
  lastOpenLibusbErr : Int := 0
deriving DecidableEq, Repr

/-- A member that is never assigned. -/
def odinSupportsZlp : Bool := true

def usbRetryCount : Nat := 5

def clampSizeToInt (size : Nat) : Nat := min size (2 ^ 31 - 1)

/-- Double `ms` once for each remaining attempt, up to 1500. -/
def backoffFrom : (remaining ms : Nat) → Nat
  | 0, ms => ms
  | remaining + 1, ms => if 1500 < ms * 2 then 1500 else backoffFrom remaining (ms * 2)

def retryBackoffMs (attempt : Nat) : Nat := backoffFrom attempt 100

/-- Pause before the next attempt, unless none is left. -/
def sleepBeforeRetry (attempt : Nat) : Libusb Unit :=
  if attempt < usbRetryCount - 1 then libusb (.sleepFor (retryBackoffMs attempt)) else pure ()

theorem clampSizeToInt_le (size : Nat) : clampSizeToInt size ≤ size := Nat.min_le_left _ _

theorem clampSizeToInt_pos {size : Nat} (h : 0 < size) : 0 < clampSizeToInt size := by
  unfold clampSizeToInt
  omega

end Odin4
