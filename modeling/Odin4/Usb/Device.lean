import Odin4.Foundation.FileStream
import Odin4.Usb.Legacy

/-!
# Device operations

The public operations of an opened device in both protocol modes. The fields
of `UsbDevice` are those that the session logic reads and writes; operations
that change them return the changed device.
-/

namespace Odin4

open Interaction Program

inductive ProtocolMode where
  | thor
  | odinLegacy
deriving DecidableEq, Repr

structure UsbDevice where
  deviceTypeStr : Bytes := []
  protocolMode : ProtocolMode := .thor
  odinFlashTimeoutMs : Nat := 180000
  odinFlashPacketSize : Nat := 1048576
  odinFlashSequenceCount : Nat := 30
deriving DecidableEq, Repr

def UsbDevice.isOdinLegacy (usb : UsbDevice) : Bool := usb.protocolMode == .odinLegacy

/-! ## Thor exchanges -/

/-- Send a packet and wait for its acknowledgement. The reply may be as short
as a bare header, which is then refused. -/
def thorExchange (packet : ThorPacket) (timeoutOverrideMs : Nat) : Usb Bool := do
  if !(← sendPacket (.thor packet) true) then return false
  let some rsp ← receivePacket thorResponsePacketSize true thorPacketHeaderSize timeoutOverrideMs
    | return false
  if rsp.length < thorResponsePacketSize then return false
  return responseOk rsp

/-- Send a packet and insist on a full response packet. -/
def thorExchangeFull (packet : ThorPacket) : Usb Bool := do
  if !(← sendPacket (.thor packet) true) then return false
  let some rsp ← receivePacket thorResponsePacketSize true thorResponsePacketSize 0
    | return false
  return responseOk rsp

/-! ## Opening a session -/

def handshake (usb : UsbDevice) : Usb (Bool × UsbDevice) := do
  let usb := { usb with protocolMode := .thor }
  if ← odinLegacyHandshake then return (true, { usb with protocolMode := .odinLegacy })
  return (← thorExchangeFull .handshake, usb)

/-- The device type string ends at the first NUL of its field. -/
def requestDeviceType (usb : UsbDevice) : Usb (Bool × UsbDevice) := do
  if usb.isOdinLegacy then return (true, { usb with deviceTypeStr := [] })
  if !(← sendPacket (.thor .deviceType) true) then return (false, usb)
  let some response ← receivePacket thorDeviceTypePacketSize true thorDeviceTypePacketSize 0
    | return (false, usb)
  if packetType response ≠ thorPacketDeviceType then return (false, usb)
  return (true, { usb with deviceTypeStr := (fieldAt response 8 128).takeWhile (· != 0) })

/-- The legacy begin command, and for newer bootloaders the packet size command
after it. Which parameters apply depends on the reported protocol version. -/
def odinBeginSession (usb : UsbDevice) : Usb (Bool × UsbDevice) := do
  let some rsp ← odinCommand 0x64 0x00 (leBytes 4 0x7FFFFFFF) usbTimeoutControl
    | return (false, usb)
  if !odinFailCheck rsp false then return (false, usb)
  let version := leAt rsp 6 2
  -- Older bootloaders are not told a packet size.
  if version ≤ 1 then
    return (true, { usb with
      odinFlashTimeoutMs := 60000, odinFlashPacketSize := 131072, odinFlashSequenceCount := 240 })
  let usb := { usb with
    odinFlashTimeoutMs := 180000, odinFlashPacketSize := 1048576, odinFlashSequenceCount := 30 }
  let ok ← odinCheckedCommand 0x64 0x05 (leBytes 4 usb.odinFlashPacketSize) usbTimeoutControl false
  return (ok, usb)

def beginSession (usb : UsbDevice) : Usb (Bool × UsbDevice) := do
  if usb.isOdinLegacy then odinBeginSession usb
  else return (← thorExchange .beginSession 0, usb)

def endSession (usb : UsbDevice) : Usb Bool :=
  if usb.isOdinLegacy then odinEndSession else thorExchange .endSession 0

/-! ## The PIT -/

def receivePitTable : Usb (Option PitTable) := do
  let some pitSizePkt ← receivePacket thorPitFilePacketSize true thorPitFilePacketSize 0
    | return none
  if packetType pitSizePkt ≠ thorPacketPitFile then return none
  let pitDataSize := leAt pitSizePkt 8 4
  if pitDataSize < 28 ∨ 1048576 < pitDataSize then return none
  let some pitData ← receivePacket pitDataSize false pitDataSize 0 | return none
  return parsePitBytes pitData

def requestPit (usb : UsbDevice) : Usb (Option PitTable) := do
  if usb.isOdinLegacy then
    let some pit ← odinDumpPit | return none
    return parsePitBytes pit
  if !(← sendPacket (.thor .pitFile) true) then return none
  receivePitTable

/-! ## File transfer -/

/-- Announce one part, send its bytes and wait for both acknowledgements. -/
def sendFilePartChunk (data : Bytes) (chunkIndex : UInt32) (largePartition : Bool) :
    Usb Bool := do
  if !(← thorExchange (.filePart chunkIndex (UInt32.ofNat data.length)) 0) then return false
  if !(← bulkWriteAll (.data data) (if largePartition then 300000 else usbTimeoutBulk)) then
    return false
  let some post ← receivePacket thorResponsePacketSize true thorPacketHeaderSize
      (if largePartition then 30000 else 10000)
    | return false
  if post.length < thorResponsePacketSize then return false
  return responseOk post

def sendFilePartHeader (usb : UsbDevice) (totalSize : Nat) : Usb Bool :=
  if usb.isOdinLegacy then odinSetTotalBytes totalSize
  else thorExchangeFull (.filePartSize (UInt64.ofNat totalSize))

/-- Legacy sequences carry their own end command, so this is Thor traffic only. -/
def endFileTransfer (usb : UsbDevice) (partitionId : UInt32) : Usb Bool :=
  if usb.isOdinLegacy then return true
  else thorExchange (.endFileTransfer partitionId) 0

def sendControl (usb : UsbDevice) (controlType : UInt32) : Usb Bool :=
  if usb.isOdinLegacy then
    if controlType = thorControlReboot then odinReboot else return true
  else thorExchangeFull (.control controlType)

/-- Size of the buffer through which raw images are sent in Thor mode. -/
def thorChunkSize : Nat := 1024 * 1024

/-- Send the remaining bytes of a raw image in chunks of at most one buffer. -/
def sendChunks (largePartition : Bool) (stream : FileStream) (remaining : Nat)
    (chunkIndex : UInt32) : Usb (Bool × FileStream) := do
  if _h : remaining = 0 then return (true, stream)
  let toRead := min thorChunkSize remaining
  let (buf, stream) := stream.read toRead
  if buf.length ≠ toRead then return (false, stream)
  if !(← sendFilePartChunk buf chunkIndex largePartition) then return (false, stream)
  sendChunks largePartition stream (remaining - toRead) (chunkIndex + 1)
termination_by remaining
decreasing_by
  simp only [thorChunkSize]
  omega

/-! ## Legacy sequences -/

/-- The running state of a legacy transfer across its sequences. -/
structure LegacyTransfer where
  stream : FileStream
  totalSent : Nat
  expectedIndex : UInt32

/-- Send `parts` further parts of the current sequence. The buffer is always
sent in full; what the image does not fill stays zero. -/
def sendLegacyParts (usb : UsbDevice) (size : Nat) :
    (parts : Nat) → LegacyTransfer → Usb (Option LegacyTransfer)
  | 0, transfer => return some transfer
  | parts + 1, transfer => do
      let toRead := min (size - transfer.totalSent) usb.odinFlashPacketSize
      -- Behind the image nothing is read.
      let (data, stream) :=
        if 0 < toRead then transfer.stream.read toRead else ([], transfer.stream)
      if data.length ≠ toRead then return none
      let part := data ++ List.replicate (usb.odinFlashPacketSize - data.length) 0
      if !(← odinSendFilePartAndAck usb.odinFlashTimeoutMs part transfer.expectedIndex) then
        return none
      sendLegacyParts usb size parts
        ⟨stream, transfer.totalSent + toRead, transfer.expectedIndex + 1⟩

/-- The size of a sequence rounded up to whole packets, in 32-bit arithmetic. -/
def alignedSize (packetSize realSize : Nat) : Nat :=
  if realSize % packetSize = 0 then realSize
  else (realSize + (packetSize - realSize % packetSize)) % 2 ^ 32

/-- Announce a sequence, send its parts and end it. -/
def sendLegacySequence (usb : UsbDevice) (pitEntry : PitEntry) (size realSize : Nat)
    (last : Bool) (transfer : LegacyTransfer) : Usb (Option LegacyTransfer) := do
  let aligned := alignedSize usb.odinFlashPacketSize realSize
  if !(← odinRequestSequenceFlash aligned) then return none
  let some transfer ← sendLegacyParts usb size (aligned / usb.odinFlashPacketSize) transfer
    | return none
  if !(← odinEndSequenceFlash usb.odinFlashTimeoutMs pitEntry realSize last) then return none
  return some transfer

/-- Send `count` further sequences; the last of them carries what is left. -/
def sendLegacySequences (usb : UsbDevice) (pitEntry : PitEntry)
    (size sequenceBytes lastSequence : Nat) :
    (count : Nat) → LegacyTransfer → Usb (Option LegacyTransfer)
  | 0, transfer => return some transfer
  | count + 1, transfer => do
      let last := count == 0
      let realSize := if last then lastSequence else sequenceBytes % 2 ^ 32
      let some transfer ← sendLegacySequence usb pitEntry size realSize last transfer
        | return none
      sendLegacySequences usb pitEntry size sequenceBytes lastSequence count transfer

/-- Number of sequences, in 64-bit arithmetic. -/
def legacySequences (size sequenceBytes : Nat) : Nat :=
  (size + sequenceBytes - 1) % 2 ^ 64 / sequenceBytes

/-- Bytes that belong to the last of `sequences` sequences. -/
def legacyLastSequence (size sequenceBytes sequences : Nat) : Nat :=
  let rest := size - (sequences - 1) * sequenceBytes
  if rest = 0 then sequenceBytes else rest

def flashLegacyStream (usb : UsbDevice) (stream : FileStream) (size : Nat)
    (pitEntry : PitEntry) : Usb (Bool × FileStream) := do
  if !(← odinRequestFileFlash) then return (false, stream)
  let sequenceBytes := usb.odinFlashPacketSize * usb.odinFlashSequenceCount
  if sequenceBytes = 0 then return (false, stream)
  let sequences := legacySequences size sequenceBytes
  -- An empty image has no sequence.
  if sequences = 0 ∨ 0xFFFFFFFF < sequences then return (false, stream)
  let lastSequence := legacyLastSequence size sequenceBytes sequences
  if 0xFFFFFFFF < lastSequence then return (false, stream)
  let some transfer ←
      sendLegacySequences usb pitEntry size sequenceBytes lastSequence sequences ⟨stream, 0, 0⟩
    | return (false, stream)
  return (← odinResetFlashCount, transfer.stream)

def flashPartitionStream (usb : UsbDevice) (stream : FileStream) (size : Nat)
    (pitEntry : PitEntry) (largePartition : Bool) : Usb (Bool × FileStream) := do
  if usb.isOdinLegacy then flashLegacyStream usb stream size pitEntry
  else
    if !(← sendFilePartHeader usb size) then return (false, stream)
    sendChunks largePartition stream size 0

end Odin4
