import Odin4.Foundation.ByteString

/-!
# Packets of the two download protocols

A packet is what one call of the bulk writer puts on the wire: a Thor packet,
a legacy Odin command frame, the legacy preamble or raw file data. `encode`
gives the bytes; the tag says which part of the program built them.
-/

namespace Odin4

/-! ## Thor packets -/

inductive ThorPacket where
  | handshake
  | deviceType
  | beginSession
  | pitFile
  | filePartSize (size : UInt64)
  | filePart (index size : UInt32)
  | endFileTransfer (partitionId : UInt32)
  | endSession
  | control (controlType : UInt32)
deriving DecidableEq, Repr

/-- Packet types of the Thor protocol that replies carry. -/
def thorPacketDeviceType : Nat := 0x0002

def thorPacketResponse : Nat := 0x0006

def thorPacketPitFile : Nat := 0x0007

def thorControlReboot : UInt32 := 0x0001

def thorControlRedownload : UInt32 := 0x0002

/-- Sizes of the packed structures that replies are read into. -/
def thorPacketHeaderSize : Nat := 8

def thorResponsePacketSize : Nat := 12

def thorDeviceTypePacketSize : Nat := 136

def thorPitFilePacketSize : Nat := 12

namespace ThorPacket

def packetType : ThorPacket → Nat
  | handshake => 0x0001
  | deviceType => 0x0002
  | filePart .. => 0x0003
  | endFileTransfer _ => 0x0004
  | endSession => 0x0005
  | pitFile => 0x0007
  | beginSession => 0x0008
  | filePartSize _ => 0x0009
  | control _ => 0x000B

/-- The fields after the common header. -/
def body : ThorPacket → Bytes
  | handshake => leBytes 4 0x4E49444F ++ leBytes 4 1 ++ leBytes 4 0
  | deviceType => []
  | beginSession => leBytes 4 0 ++ leBytes 4 0
  | pitFile => []
  | filePartSize size => leBytes 8 size.toNat
  | filePart index size => leBytes 4 index.toNat ++ leBytes 4 size.toNat
  | endFileTransfer partitionId => leBytes 4 partitionId.toNat
  | endSession => []
  | control controlType => leBytes 4 controlType.toNat

/-- Header (size, type, flags) followed by the body. -/
def encode (packet : ThorPacket) : Bytes :=
  leBytes 4 (thorPacketHeaderSize + packet.body.length) ++ leBytes 2 packet.packetType ++
    leBytes 2 0 ++ packet.body

end ThorPacket

/-- The type field of a reply that was read into a zeroed packet structure. -/
def packetType (reply : Bytes) : Nat := leAt reply 4 2

def responseCode (reply : Bytes) : Nat := leAt reply 8 4

/-- The check that every Thor acknowledgement goes through. -/
def responseOk (reply : Bytes) : Bool :=
  packetType reply == thorPacketResponse && responseCode reply == 0

/-! ## Packets as handed to the bulk writer -/

inductive Packet where
  | preamble
  | thor (packet : ThorPacket)
  | odin (cmd subcmd : UInt32) (payload : Bytes)
  | data (bytes : Bytes)
deriving DecidableEq, Repr

/-- Size of every legacy command frame. -/
def odinFrameSize : Nat := 1024

namespace Packet

def encode : Packet → Bytes
  | preamble => ascii "ODIN"
  | thor packet => packet.encode
  | odin cmd subcmd payload =>
      let frame := leBytes 4 cmd.toNat ++ leBytes 4 subcmd.toNat ++ payload
      frame ++ List.replicate (odinFrameSize - frame.length) 0
  | data bytes => bytes

/-- A legacy frame is filled up with zeros to its fixed size. -/
theorem length_encode_odin (cmd subcmd : UInt32) {payload : Bytes}
    (hpayload : 8 + payload.length ≤ odinFrameSize) :
    (encode (.odin cmd subcmd payload)).length = odinFrameSize := by
  simp only [encode, List.length_append, length_leBytes, List.length_replicate]
  omega

/-- The closing command of a session, in either protocol. -/
def isEndSession : Packet → Bool
  | thor .endSession => true
  | odin cmd subcmd _ => cmd == 0x67 && subcmd == 0x00
  | _ => false

end Packet

end Odin4
