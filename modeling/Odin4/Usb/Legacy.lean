import Odin4.Usb.Link
import Odin4.Usb.Pit

/-!
# Legacy Odin commands

Every legacy command is a fixed frame answered by eight bytes. A first byte of
`0xFF` reports a failure; a few negative codes only report progress and are
accepted where the caller allows them.
-/

namespace Odin4

open Interaction Program

/-- The signed 32-bit code in the second half of a legacy reply. -/
def odinCode (rsp : Bytes) : Int := Int.bmod (leAt rsp 4 4) (2 ^ 32)

def odinFailCheck (rsp : Bytes) (allowProgress : Bool) : Bool :=
  if rsp.length < 8 then false
  else if rsp.head? ≠ some 0xFF then true
  else allowProgress && decide (-7 ≤ odinCode rsp ∧ odinCode rsp ≤ -2)

/-- Send one command frame and read the eight bytes that answer it. -/
def odinCommand (cmd subcmd : UInt32) (payload : Bytes) (timeoutMs : Nat) :
    Usb (Option Bytes) := do
  -- A payload that does not fit into a frame is not sent.
  if 8 + payload.length > odinFrameSize then return none
  if !(← bulkWriteAll (.odin cmd subcmd payload) usbTimeoutControl) then return none
  let some rsp ← bulkReadOnce 8 timeoutMs | return none
  if rsp.length ≠ 8 then return none
  return some rsp

/-- A command whose reply only has to pass the failure check. -/
def odinCheckedCommand (cmd subcmd : UInt32) (payload : Bytes) (timeoutMs : Nat)
    (allowProgress : Bool) : Usb Bool := do
  let some rsp ← odinCommand cmd subcmd payload timeoutMs | return false
  return odinFailCheck rsp allowProgress

def odinEndSession : Usb Bool := odinCheckedCommand 0x67 0x00 [] usbTimeoutControl false

def odinReboot : Usb Bool := odinCheckedCommand 0x67 0x01 [] usbTimeoutControl false

def odinSetTotalBytes (totalBytes : Nat) : Usb Bool :=
  odinCheckedCommand 0x64 0x02 (leBytes 8 totalBytes) usbTimeoutControl false

def odinResetFlashCount : Usb Bool := odinCheckedCommand 0x64 0x01 [] usbTimeoutControl false

def odinRequestFileFlash : Usb Bool := odinCheckedCommand 0x66 0x00 [] usbTimeoutControl false

def odinRequestSequenceFlash (alignedSize : Nat) : Usb Bool :=
  odinCheckedCommand 0x66 0x02 (leBytes 4 alignedSize) usbTimeoutControl false

/-- The payload of the sequence-end command: 32 bytes whose layout depends on
the binary type of the partition. -/
def endSequencePayload (pitEntry : PitEntry) (realSize : Nat) (isLast : Bool) : Bytes :=
  let last := leBytes 4 (if isLast then 1 else 0)
  if pitEntry.binaryType = 1 then
    leBytes 4 1 ++ leBytes 4 realSize ++ leBytes 4 pitEntry.binaryType.toNat ++
      leBytes 4 pitEntry.deviceType.toNat ++ last ++ leBytes 12 0
  else
    leBytes 4 0 ++ leBytes 4 realSize ++ leBytes 4 pitEntry.binaryType.toNat ++
      leBytes 4 pitEntry.deviceType.toNat ++ leBytes 4 pitEntry.identifier.toNat ++ last ++
      leBytes 8 0

def odinEndSequenceFlash (flashTimeoutMs : Nat) (pitEntry : PitEntry) (realSize : Nat)
    (isLast : Bool) : Usb Bool :=
  odinCheckedCommand 0x66 0x03 (endSequencePayload pitEntry realSize isLast) flashTimeoutMs true

/-- Send one file part; the device acknowledges it with its index. -/
def odinSendFilePartAndAck (flashTimeoutMs : Nat) (data : Bytes) (expectedIndex : UInt32) :
    Usb Bool := do
  if !(← bulkWriteAll (.data data) flashTimeoutMs) then return false
  let some rsp ← bulkReadOnce 8 flashTimeoutMs | return false
  if rsp.length ≠ 8 then return false
  if !odinFailCheck rsp false then return false
  return UInt32.ofNat (leAt rsp 4 4) == expectedIndex

/-! ## Reading the PIT -/

def pitBlockSize : Nat := 500

/-- Request `count` further blocks, the next of which is number `i`, and copy
each into `pitOut`. -/
def odinDumpBlocks : (count i : Nat) → (pitOut : Bytes) → Usb (Option Bytes)
  | 0, _, pitOut => return some pitOut
  | count + 1, i, pitOut => do
      let some rsp ← odinCommand 0x65 0x02 (leBytes 4 i) 5000 | return none
      if !odinFailCheck rsp false then return none
      let some data ← receivePacket pitBlockSize false pitBlockSize 5000 | return none
      if data.length ≠ pitBlockSize then return none
      -- The last block is cut to what is left of the announced size.
      let off := i * pitBlockSize
      let copy := min data.length (pitOut.length - off)
      odinDumpBlocks count (i + 1)
        (pitOut.take off ++ data.take copy ++ pitOut.drop (off + copy))

def odinDumpPit : Usb (Option Bytes) := do
  let some rsp ← odinCommand 0x65 0x01 [] 5000 | return none
  if !odinFailCheck rsp false then return none
  let size := leAt rsp 4 4
  if size = 0 ∨ 1048576 < size then return none
  let blocks := (size + pitBlockSize - 1) / pitBlockSize
  let some pitOut ← odinDumpBlocks blocks 0 (List.replicate size 0) | return none
  let some rsp ← odinCommand 0x65 0x03 [] 5000 | return none
  if !odinFailCheck rsp false then return none
  return some pitOut

/-! ## Handshake -/

/-- Legacy devices answer the preamble with `LOKE`. -/
def isLoke (reply : Bytes) : Bool := decide (4 ≤ reply.length) && reply.take 4 == ascii "LOKE"

def odinLegacyHandshake : Usb Bool := do
  if !(← bulkWriteAll .preamble usbTimeoutControl) then return false
  let some reply ← bulkReadOnce 8 usbTimeoutControl | return false
  return isLoke reply

end Odin4
