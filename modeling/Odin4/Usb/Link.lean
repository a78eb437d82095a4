import Odin4.Interaction.Program
import Odin4.Usb.Packet

/-!
# The link to the device

Everything above the transfer level talks to the device through four
operations: opening it, writing one packet, reading one buffer and receiving
one packet. Their outcomes belong to the environment. A successful read
reports at least the number of bytes that the operation insists on, and never
more than the buffer holds.
-/

namespace Odin4

open Interaction Program

structure UsbSelectionCriteria where
  hasVid : Bool := false
  vid : UInt16 := 0
  hasPid : Bool := false
  pid : UInt16 := 0
  hasInterface : Bool := false
  interfaceNumber : Int := 0
deriving DecidableEq, Repr

def usbTimeoutBulk : Nat := 120000

def usbTimeoutControl : Nat := 10000

inductive UsbCall where
  | openDevice (specificPath : Bytes) (criteria : UsbSelectionCriteria)
  | bulkWriteAll (packet : Packet) (timeoutMs : Nat)
  | bulkReadOnce (size timeoutMs : Nat)
  | receivePacket (size : Nat) (isControl : Bool) (minSize timeoutOverrideMs : Nat)
deriving DecidableEq, Repr

/-- A minimum of zero asks for the whole buffer. -/
def requiredMin (size minSize : Nat) : Nat := if minSize = 0 then size else minSize

/-- The outcome of one read into a buffer of `size` bytes; `none` is a failure. -/
abbrev ReadReply (size : Nat) := Option {data : Bytes // data.length ≤ size}

/-- The outcome of receiving a packet of at least the required length. -/
abbrev ReceiveReply (size minSize : Nat) :=
  Option {data : Bytes // requiredMin size minSize ≤ data.length ∧ data.length ≤ size}

/-- What the device side can answer. -/
abbrev UsbCall.Reply : UsbCall → Type
  | .openDevice .. => Bool
  | .bulkWriteAll .. => Bool
  | .bulkReadOnce size _ => ReadReply size
  | .receivePacket size _ minSize _ => ReceiveReply size minSize

abbrev UsbEvent := Event UsbCall UsbCall.Reply

abbrev UsbTrace := Trace UsbCall UsbCall.Reply

/-- A device that answers from everything it has seen. -/
abbrev UsbEnvironment := Environment UsbCall UsbCall.Reply

abbrev Usb := Program UsbCall UsbCall.Reply

/-! ## Operations -/

def usbCall (request : UsbCall) : Usb request.Reply := perform request

def openDevice (specificPath : Bytes) (criteria : UsbSelectionCriteria) : Usb Bool :=
  usbCall (.openDevice specificPath criteria)

def bulkWriteAll (packet : Packet) (timeoutMs : Nat) : Usb Bool :=
  usbCall (.bulkWriteAll packet timeoutMs)

def bulkReadOnce (size timeoutMs : Nat) : Usb (Option Bytes) :=
  (fun reply : ReadReply size => reply.map Subtype.val) <$> usbCall (.bulkReadOnce size timeoutMs)

def sendPacket (packet : Packet) (isControl : Bool) : Usb Bool :=
  bulkWriteAll packet (if isControl then usbTimeoutControl else usbTimeoutBulk)

def receivePacket (size : Nat) (isControl : Bool) (minSize timeoutOverrideMs : Nat) :
    Usb (Option Bytes) :=
  (fun reply : ReceiveReply size minSize => reply.map Subtype.val) <$>
    usbCall (.receivePacket size isControl minSize timeoutOverrideMs)

/-! ## What an execution sent -/

def UsbEvent.packet? (event : UsbEvent) : Option Packet :=
  match event.call with
  | .bulkWriteAll packet _ => some packet
  | _ => none

/-- The packets of an execution in the order in which they were written,
whether or not the write succeeded. -/
def sent (trace : UsbTrace) : List Packet := trace.filterMap UsbEvent.packet?

@[simp] theorem sent_nil : sent [] = [] := rfl

@[simp] theorem sent_append (first second : UsbTrace) :
    sent (first ++ second) = sent first ++ sent second :=
  List.filterMap_append

@[simp] theorem sent_write (packet : Packet) (timeoutMs : Nat) (ok : Bool) (rest : UsbTrace) :
    sent (⟨.bulkWriteAll packet timeoutMs, ok⟩ :: rest) = packet :: sent rest := rfl

@[simp] theorem sent_open (path : Bytes) (criteria : UsbSelectionCriteria) (ok : Bool)
    (rest : UsbTrace) : sent (⟨.openDevice path criteria, ok⟩ :: rest) = sent rest := rfl

@[simp] theorem sent_read (size timeoutMs : Nat) (reply : UsbCall.Reply (.bulkReadOnce size timeoutMs))
    (rest : UsbTrace) : sent (⟨.bulkReadOnce size timeoutMs, reply⟩ :: rest) = sent rest := rfl

@[simp] theorem sent_receive (size : Nat) (isControl : Bool) (minSize timeoutMs : Nat)
    (reply : UsbCall.Reply (.receivePacket size isControl minSize timeoutMs)) (rest : UsbTrace) :
    sent (⟨.receivePacket size isControl minSize timeoutMs, reply⟩ :: rest) = sent rest := rfl

/-! ## Devices with canned answers -/

/-- A device that takes every packet. Its answer to a read depends on the last
packet and on the size of the buffer; an answer that does not fit is none. -/
def answeringDevice (answer : Packet → Nat → Bytes) : UsbEnvironment := fun past request =>
  let lastPacket := (sent past).getLastD .preamble
  match request with
  | .openDevice .. => true
  | .bulkWriteAll .. => true
  | .bulkReadOnce size _ =>
      let data := answer lastPacket size
      if h : data.length ≤ size then some ⟨data, h⟩ else none
  | .receivePacket size _ minSize _ =>
      let data := answer lastPacket size
      if h : requiredMin size minSize ≤ data.length ∧ data.length ≤ size then some ⟨data, h⟩
      else none

/-! ## Executions of the operations -/

section Executions

variable {trace : UsbTrace}

theorem executes_usbCall {request : UsbCall} {reply : request.Reply} :
    (usbCall request).Executes trace reply ↔ trace = [⟨request, reply⟩] :=
  executes_perform

@[simp] theorem executes_openDevice {path : Bytes} {criteria : UsbSelectionCriteria} {ok : Bool} :
    (openDevice path criteria).Executes trace ok ↔ trace = [⟨.openDevice path criteria, ok⟩] :=
  executes_usbCall

@[simp] theorem executes_bulkWriteAll {packet : Packet} {timeoutMs : Nat} {ok : Bool} :
    (bulkWriteAll packet timeoutMs).Executes trace ok ↔
      trace = [⟨.bulkWriteAll packet timeoutMs, ok⟩] :=
  executes_usbCall

theorem executes_bulkReadOnce {size timeoutMs : Nat} {data? : Option Bytes} :
    (bulkReadOnce size timeoutMs).Executes trace data? ↔
      ∃ reply : ReadReply size, trace = [⟨.bulkReadOnce size timeoutMs, reply⟩] ∧
        data? = reply.map Subtype.val := by
  unfold bulkReadOnce
  rw [executes_map]
  exact exists_congr fun reply => and_congr_left' executes_usbCall

theorem executes_receivePacket {size minSize timeoutMs : Nat} {isControl : Bool}
    {data? : Option Bytes} :
    (receivePacket size isControl minSize timeoutMs).Executes trace data? ↔
      ∃ reply : ReceiveReply size minSize,
        trace = [⟨.receivePacket size isControl minSize timeoutMs, reply⟩] ∧
          data? = reply.map Subtype.val := by
  unfold receivePacket
  rw [executes_map]
  exact exists_congr fun reply => and_congr_left' executes_usbCall

end Executions

end Odin4
