import Odin4.Interaction.Implementation
import Odin4.Usb.BulkWrite
import Odin4.Usb.OpenDevice
import Odin4.Usb.ReadOnce

/-!
# The link over the USB library

The four operations of the link are carried out by calls of the USB library on
one connection. What the link reports about a packet is what became of it on
the bus, and an operation on an open device touches nothing but its endpoints.
-/

namespace Odin4

open Interaction Program

/-- What lives from one operation to the next: the connection, and how the
initialisation of the library went if it was tried. -/
structure DriverState where
  connection : UsbConnection := {}
  once : Option Bool := none

/-- The bytes that a read reports, which are at most as many as it asked for. -/
def readReply (size : Nat) (ok : Bool) (buffer : Bytes) (actualLength : Nat) : ReadReply size :=
  let data := buffer.take actualLength
  if h : ok = true ∧ data.length ≤ size then some ⟨data, h.2⟩ else none

def receiveReply (size minSize : Nat) (ok : Bool) (buffer : Bytes) (actualLength : Int) :
    ReceiveReply size minSize :=
  let data := buffer.take actualLength.toNat
  if h : ok = true ∧ requiredMin size minSize ≤ data.length ∧ data.length ≤ size then
    some ⟨data, h.2⟩
  else none

theorem mem_readReply {size actualLength : Nat} {ok : Bool} {buffer : Bytes}
    {data : {data : Bytes // data.length ≤ size}}
    (h : data ∈ readReply size ok buffer actualLength) :
    ok = true ∧ data.val = buffer.take actualLength := by
  obtain ⟨hok, hdata⟩ := Option.dite_none_right_eq_some.mp h
  obtain rfl := Option.some.inj hdata
  exact ⟨hok.1, rfl⟩

theorem mem_receiveReply {size minSize : Nat} {ok : Bool} {buffer : Bytes} {actualLength : Int}
    {data : {data : Bytes // requiredMin size minSize ≤ data.length ∧ data.length ≤ size}}
    (h : data ∈ receiveReply size minSize ok buffer actualLength) :
    ok = true ∧ data.val = buffer.take actualLength.toNat := by
  obtain ⟨hok, hdata⟩ := Option.dite_none_right_eq_some.mp h
  obtain rfl := Option.some.inj hdata
  exact ⟨hok.1, rfl⟩

/-- The operations of the link. Buffers are filled with zeros before a read. -/
def driver : Handler UsbCall UsbCall.Reply LibusbCall LibusbCall.Reply DriverState
  | .openDevice specificPath criteria, state => do
      let (ok, once, connection) ← state.connection.openDevice state.once specificPath criteria
      return (ok, ⟨connection, once⟩)
  | .bulkWriteAll packet timeoutMs, state => do
      let (ok, connection) ← state.connection.bulkWriteAll packet.encode timeoutMs
      return (ok, { state with connection })
  | .bulkReadOnce size timeoutMs, state => do
      let (ok, buffer, actualLength) ←
        state.connection.bulkReadOnce (List.replicate size 0) timeoutMs
      return (readReply size ok buffer actualLength, state)
  | .receivePacket size isControl minSize timeoutOverrideMs, state => do
      let (ok, buffer, actualLength) ←
        state.connection.receivePacket (List.replicate size 0) isControl minSize timeoutOverrideMs
      return (receiveReply size minSize ok buffer actualLength, state)

/-! ## What a transfer operation calls -/

/-- A pause between two attempts. -/
def IsPause (ms : Nat) : Prop := 0 < ms ∧ ms ≤ 800

/-- The calls of a write: transfers to the device, and what follows a failed one. -/
def LibusbCall.SendsOn (usb : UsbConnection) (timeoutMs : Nat) : LibusbCall → Prop
  | .bulkOut handle endpoint _ ms => handle = usb.handle ∧ endpoint = usb.endpointOut ∧ ms = timeoutMs
  | .clearHalt handle endpoint => handle = usb.handle ∧ endpoint = usb.endpointOut
  | .sleepFor ms => IsPause ms
  | _ => False

/-- The calls of a read. -/
def LibusbCall.ReceivesOn (usb : UsbConnection) (timeoutMs : Nat) : LibusbCall → Prop
  | .bulkIn handle endpoint _ ms => handle = usb.handle ∧ endpoint = usb.endpointIn ∧ ms = timeoutMs
  | .clearHalt handle endpoint => handle = usb.handle ∧ endpoint = usb.endpointIn
  | .sleepFor ms => IsPause ms
  | _ => False

/-- Every call of the program satisfies `allowed`. -/
abbrev Calls {α : Type} (allowed : LibusbCall → Prop) (program : Libusb α) : Prop :=
  Emits (fun event => allowed event.call) program

theorem isPause_retryBackoffMs {attempt : Nat} (h : attempt < 4) :
    IsPause (retryBackoffMs attempt) := by
  have hall : ∀ attempt < 4, 0 < retryBackoffMs attempt ∧ retryBackoffMs attempt ≤ 800 := by
    decide
  exact hall attempt h

section Footprint

variable {allowed : LibusbCall → Prop} (usb : UsbConnection) (timeoutMs : Nat)

theorem calls_libusb {request : LibusbCall} (h : allowed request) : Calls allowed (libusb request) :=
  emits_perform fun _ => h

theorem calls_sleepBeforeRetry (hpause : ∀ ms, IsPause ms → allowed (.sleepFor ms)) (attempt : Nat) :
    Calls allowed (sleepBeforeRetry attempt) := by
  apply emits_ite
  · intro hmore
    exact calls_libusb (hpause _ (isPause_retryBackoffMs hmore))
  · intro _
    exact emits_pure ()

theorem calls_writeWhile (data : Bytes) (maxChunkBytes offset : Nat) :
    Calls (LibusbCall.SendsOn usb timeoutMs)
      (usb.writeWhile data timeoutMs maxChunkBytes offset) := by
  induction hleft : data.length - offset using Nat.strong_induction_on generalizing offset with
  | _ left ih =>
      rw [UsbConnection.writeWhile]
      split
      next hmore =>
        refine emits_perform_bind (fun _ => ⟨rfl, rfl, rfl⟩) fun transfer => ?_
        dsimp only
        split
        next =>
          refine emits_ite (fun _ => emits_pure _) fun _ => emits_ite (fun _ => ?_) fun _ =>
            emits_ite (fun _ => emits_pure _) fun _ => emits_pure _
          exact emits_perform_bind (fun _ => ⟨rfl, rfl⟩) fun _ => emits_pure _
        next =>
          split
          next => exact emits_pure _
          next hsome => exact ih _ (by omega) _ rfl
      next => exact emits_pure _

/-- A write that lowers the size of its requests stays on the same endpoint. -/
theorem calls_writeAttempts (data : Bytes) (left offset : Nat) :
    Calls (LibusbCall.SendsOn usb timeoutMs)
      (UsbConnection.writeAttempts data timeoutMs left usb offset) := by
  induction left generalizing usb offset with
  | zero => exact emits_pure _
  | succ left ih =>
      refine emits_bind (calls_writeWhile usb timeoutMs data _ offset) fun pass => ?_
      dsimp only
      refine emits_ite (fun _ => emits_pure _) fun _ => emits_ite (fun _ => ?_) fun _ => ?_
      · refine emits_ite (fun _ => ?_) fun _ => emits_pure _
        refine emits_bind ?_ fun _ => emits_pure _
        exact emits_perform_bind (fun _ => ⟨rfl, rfl, rfl⟩) fun transfer => emits_pure _
      · refine emits_bind (calls_sleepBeforeRetry (fun _ hpause => hpause) _) fun _ => ?_
        exact ih { usb with maxChunkBytes := pass.maxChunkBytes } pass.offset

theorem calls_readAttempts (left : Nat) (buffer : Bytes) (actualLength : Nat) :
    Calls (LibusbCall.ReceivesOn usb timeoutMs)
      (usb.readAttempts timeoutMs left buffer actualLength) := by
  induction left generalizing buffer actualLength with
  | zero => exact emits_pure _
  | succ left ih =>
      refine emits_perform_bind (fun _ => ⟨rfl, rfl, rfl⟩) fun transfer => ?_
      refine emits_ite (fun _ => emits_pure _) fun _ => emits_ite (fun _ => emits_pure _) fun _ => ?_
      refine emits_bind ?_ fun _ =>
        emits_bind (calls_sleepBeforeRetry (fun _ hpause => hpause) _) fun _ => ih _ _
      refine emits_ite (fun _ => ?_) fun _ => emits_pure ()
      rw [map_eq_pure_bind]
      exact emits_bind (calls_libusb ⟨rfl, rfl⟩) fun _ => emits_pure ()

theorem calls_receiveWhile (timeoutOverrideMs : Int) (size required : Nat) (buffer : Bytes)
    (received : Nat) (actualLength : Int) :
    Calls (LibusbCall.ReceivesOn usb timeoutMs)
      (usb.receiveWhile timeoutMs timeoutOverrideMs size required buffer received actualLength) := by
  induction hleft : size - received using Nat.strong_induction_on
    generalizing received buffer actualLength with
  | _ left ih =>
      rw [UsbConnection.receiveWhile]
      split
      next hmore =>
        refine emits_perform_bind (fun _ => ⟨rfl, rfl, rfl⟩) fun transfer => ?_
        dsimp only
        refine emits_ite (fun _ => ?_) fun _ => emits_ite (fun _ => ?_) fun _ =>
          emits_ite (fun _ => emits_pure _) fun _ => emits_pure _
        · refine emits_ite (fun _ => emits_pure _) fun _ => ?_
          split
          next => exact emits_pure _
          next hchunk => exact ih _ (by omega) _ _ _ rfl
        · exact emits_perform_bind (fun _ => ⟨rfl, rfl⟩) fun _ => emits_pure _
      next => exact emits_pure _

theorem calls_receiveAttempts (timeoutOverrideMs : Int) (size required left : Nat)
    (buffer : Bytes) (actualLength : Int) :
    Calls (LibusbCall.ReceivesOn usb timeoutMs)
      (usb.receiveAttempts timeoutMs timeoutOverrideMs size required left buffer actualLength) := by
  induction left generalizing buffer actualLength with
  | zero => exact emits_pure _
  | succ left ih =>
      refine emits_bind (calls_receiveWhile usb timeoutMs _ _ _ _ _ _) fun pass => ?_
      refine emits_ite (fun _ => emits_pure _) fun _ => emits_ite (fun _ => emits_pure _) fun _ => ?_
      exact emits_bind (calls_sleepBeforeRetry (fun _ hpause => hpause) _) fun _ => ih _ _

end Footprint

/-! ## Opening makes no transfers -/

/-- Calls that move data or belong to moving data. -/
def LibusbCall.isTransfer : LibusbCall → Bool
  | .bulkOut .. | .bulkIn .. | .clearHalt .. | .sleepFor _ => true
  | _ => false

/-- A program that only looks for devices, opens or closes. -/
abbrev SetsUp {α : Type} (program : Libusb α) : Prop :=
  Calls (fun request => request.isTransfer = false) program

section SettingUp

variable (dev : LibusbDevice) (specificPath : Bytes) (criteria : UsbSelectionCriteria)

theorem setsUp_usbPathForDevice : SetsUp (usbPathForDevice dev) :=
  emits_perform_bind (fun _ => rfl) fun _ => emits_perform_bind (fun _ => rfl) fun _ => emits_pure _

theorem setsUp_findBestInterface : SetsUp (findBestInterface dev criteria) := by
  refine emits_perform_bind (fun _ => rfl) fun config => ?_
  cases config with
  | none => exact emits_pure _
  | some config => exact emits_perform_bind (fun _ => rfl) fun _ => emits_pure _

theorem setsUp_visit (scan : DeviceScan) : SetsUp (scan.visit specificPath criteria dev) := by
  refine emits_perform_bind (fun _ => rfl) fun desc => ?_
  cases desc with
  | none => exact emits_pure _
  | some desc =>
      dsimp only
      refine emits_ite (fun _ => emits_pure _) fun _ => emits_ite (fun _ => emits_pure _) fun _ => ?_
      refine emits_bind (emits_ite (fun _ => emits_pure _) fun _ => ?_) fun matching => ?_
      · exact emits_bind (setsUp_usbPathForDevice dev) fun _ => emits_pure _
      · refine emits_ite (fun _ => emits_pure _) fun _ => ?_
        refine emits_bind (setsUp_findBestInterface dev criteria) fun cand => ?_
        refine emits_ite (fun _ => emits_pure _) fun _ => emits_ite (fun _ => emits_pure _) fun _ => ?_
        exact emits_ite (fun _ => emits_pure _) fun _ => emits_pure _

theorem setsUp_scanDevices (devices : List LibusbDevice) (scan : DeviceScan) :
    SetsUp (scanDevices specificPath criteria scan devices) := by
  induction devices generalizing scan with
  | nil => exact emits_pure _
  | cons dev rest ih => exact emits_bind (setsUp_visit dev specificPath criteria scan) fun _ => ih _

variable (usb : UsbConnection)

theorem setsUp_closeHandle : SetsUp usb.closeHandle := by
  unfold UsbConnection.closeHandle
  cases usb.handle with
  | none => exact emits_pure _
  | some handle =>
      refine emits_perform_bind (fun _ => rfl) fun _ => emits_ite (fun _ => ?_) fun _ => ?_
      · exact emits_perform_bind (fun _ => rfl) fun _ => emits_perform_bind (fun _ => rfl) fun _ =>
          emits_pure _
      · exact emits_perform_bind (fun _ => rfl) fun _ => emits_pure _

theorem setsUp_destroy : SetsUp usb.destroy := by
  refine emits_bind (setsUp_closeHandle usb) fun usb => ?_
  unfold UsbConnection.freeDeviceList
  cases usb.deviceList with
  | none => exact emits_pure _
  | some list => exact emits_perform_bind (fun _ => rfl) fun _ => emits_pure _

theorem setsUp_claim (target : LibusbDevice) (handle : DeviceHandle) :
    SetsUp (usb.claim target handle) := by
  refine emits_perform_bind (fun _ => rfl) fun err => emits_ite (fun _ => ?_) fun _ => ?_
  · refine emits_ite (fun _ => ?_) fun _ => ?_
    · exact emits_perform_bind (fun _ => rfl) fun _ => emits_perform_bind (fun _ => rfl) fun _ =>
        emits_pure _
    · exact emits_perform_bind (fun _ => rfl) fun _ => emits_pure _
  · exact emits_bind (setsUp_usbPathForDevice target) fun _ => emits_pure _

theorem setsUp_takeInterface (target : LibusbDevice) (handle : DeviceHandle) :
    SetsUp (usb.takeInterface target handle) := by
  refine emits_perform_bind (fun _ => rfl) fun state => emits_ite (fun _ => ?_) fun _ => ?_
  · exact emits_perform_bind (fun _ => rfl) fun _ => emits_pure _
  · refine emits_ite (fun _ => ?_) fun _ => setsUp_claim usb target handle
    refine emits_perform_bind (fun _ => rfl) fun err => emits_ite (fun _ => ?_) fun _ => ?_
    · exact emits_perform_bind (fun _ => rfl) fun _ => emits_pure _
    · exact setsUp_claim { usb with kernelDriverDetached := true } target handle

theorem setsUp_enumerate : SetsUp (usb.enumerate specificPath criteria) := by
  refine emits_perform_bind (fun _ => rfl) fun reply => ?_
  cases reply with
  | failed code negative => exact emits_pure _
  | obtained list devices =>
      refine emits_bind (setsUp_scanDevices specificPath criteria devices {}) fun scan => ?_
      cases scan.target with
      | none => exact emits_pure _
      | some target =>
          refine emits_perform_bind (fun _ => rfl) fun reply => ?_
          cases reply with
          | failed err => exact emits_pure _
          | opened handle => exact setsUp_takeInterface _ target handle

theorem setsUp_openDevice (once : Option Bool) :
    SetsUp (usb.openDevice once specificPath criteria) := by
  unfold UsbConnection.openDevice
  rw [← bind_assoc]
  refine emits_bind (setsUp_destroy { usb with lastOpenError := .none, lastOpenLibusbErr := 0 })
    fun usb => emits_bind ?_ fun ready => emits_ite (fun _ => emits_pure _) fun _ => ?_
  · cases once with
    | none => exact emits_perform_bind (fun _ => rfl) fun _ => emits_pure _
    | some ready => exact emits_pure _
  · exact emits_bind (setsUp_enumerate specificPath criteria usb) fun _ => emits_pure _

end SettingUp

/-! ## What an operation does on the bus -/

/-- A limit on a transfer: neither none nor more than five minutes. -/
def IsTimeout (ms : Nat) : Prop := 0 < ms ∧ ms ≤ 300000

/-- The operations of a session on an open device. Buffers hold at most 1 MiB, and
no more is insisted on than fits. -/
def UsbCall.InSession : UsbCall → Prop
  | .openDevice .. => False
  | .bulkWriteAll _ timeoutMs => IsTimeout timeoutMs
  | .bulkReadOnce size timeoutMs => size ≤ 1048576 ∧ IsTimeout timeoutMs
  | .receivePacket size _ minSize timeoutOverrideMs =>
      size ≤ 1048576 ∧ minSize ≤ size ∧ (timeoutOverrideMs = 0 ∨ IsTimeout timeoutOverrideMs)

/-- The calls of a session: transfers on the two endpoints that end in time. -/
def LibusbCall.OnEndpoints (usb : UsbConnection) : LibusbCall → Prop
  | .bulkOut handle endpoint _ ms => handle = usb.handle ∧ endpoint = usb.endpointOut ∧ IsTimeout ms
  | .bulkIn handle endpoint _ ms => handle = usb.handle ∧ endpoint = usb.endpointIn ∧ IsTimeout ms
  | .clearHalt handle endpoint =>
      handle = usb.handle ∧ (endpoint = usb.endpointOut ∨ endpoint = usb.endpointIn)
  | .sleepFor ms => IsPause ms
  | _ => False

/-- What the calls that carried out an operation have to do with its outcome. A
packet went out up to some byte, and to its end if the link says so; what a read
reports is the last that the device delivered. -/
def OnTheBus (event : UsbEvent) (below : LibusbTrace) : Prop :=
  match event with
  | ⟨.openDevice .., _⟩ => outTransfers below = []
  | ⟨.bulkWriteAll packet _, ok⟩ =>
      takenBytes (outTransfers below) <+: packet.encode ∧
        (ok = true → takenBytes (outTransfers below) = packet.encode)
  | ⟨.bulkReadOnce .., reply⟩ =>
      outTransfers below = [] ∧ ∀ data ∈ reply, data.val <:+ deliveredBytes below
  | ⟨.receivePacket .., reply⟩ =>
      outTransfers below = [] ∧ ∀ data ∈ reply, data.val <:+ deliveredBytes below

section Endpoints

variable {usb : UsbConnection} {timeoutMs : Nat} {request : LibusbCall}

theorem LibusbCall.SendsOn.onEndpoints (htimeout : IsTimeout timeoutMs)
    (h : request.SendsOn usb timeoutMs) : request.OnEndpoints usb := by
  cases request with
  | bulkOut handle endpoint data ms =>
      obtain ⟨hhandle, hendpoint, rfl⟩ := h
      exact ⟨hhandle, hendpoint, htimeout⟩
  | clearHalt handle endpoint => exact ⟨h.1, .inl h.2⟩
  | sleepFor ms => exact h
  | _ => exact h.elim

theorem LibusbCall.ReceivesOn.onEndpoints (htimeout : IsTimeout timeoutMs)
    (h : request.ReceivesOn usb timeoutMs) : request.OnEndpoints usb := by
  cases request with
  | bulkIn handle endpoint length ms =>
      obtain ⟨hhandle, hendpoint, rfl⟩ := h
      exact ⟨hhandle, hendpoint, htimeout⟩
  | clearHalt handle endpoint => exact ⟨h.1, .inr h.2⟩
  | sleepFor ms => exact h
  | _ => exact h.elim

end Endpoints

section Specification

variable {α : Type} {program : Libusb α} {usb usb' : UsbConnection} {timeoutMs : Nat}
variable {trace : LibusbTrace} {result : α}

theorem outTransfers_of_calls {allowed : LibusbCall → Prop} (h : Calls allowed program)
    (hnone : ∀ handle endpoint request ms, ¬ allowed (.bulkOut handle endpoint request ms))
    (hexec : program.Executes trace result) : outTransfers trace = [] := by
  refine List.filterMap_eq_nil_iff.mpr fun event hevent => ?_
  obtain ⟨request, reply⟩ := event
  have hallowed := h trace result hexec _ hevent
  cases request with
  | bulkOut handle endpoint data ms => exact absurd hallowed (hnone handle endpoint data ms)
  | _ => rfl

theorem SetsUp.outTransfers_eq (h : SetsUp program) (hexec : program.Executes trace result) :
    outTransfers trace = [] :=
  outTransfers_of_calls h (fun _ _ _ _ htransfer => by cases htransfer) hexec

theorem takenBytes_append (first second : List OutRecord) :
    takenBytes (first ++ second) = takenBytes first ++ takenBytes second :=
  List.flatMap_append

/-- Requests without data move none. -/
theorem takenBytes_of_empty {records : List OutRecord}
    (h : ∀ record ∈ records, record.request = []) : takenBytes records = [] := by
  refine List.flatMap_eq_nil_iff.mpr fun record hrecord => ?_
  rw [OutRecord.taken, h record hrecord, List.take_nil]

/-- A write puts an initial part of the data on the bus, all of it if it succeeds. -/
theorem bulkWriteAll_taken {data : Bytes} {ok : Bool}
    (hexec : (usb.bulkWriteAll data timeoutMs).Executes trace (ok, usb')) :
    takenBytes (outTransfers trace) <+: data ∧
      (ok = true → takenBytes (outTransfers trace) = data) ∧
        ∃ maxChunkBytes, usb' = { usb with maxChunkBytes } := by
  obtain ⟨sending, closing, final, htransfers, hsteps, husb, -, hok, hclosing⟩ :=
    writeAttempts_steps 0 hexec
  have hempty : takenBytes closing = [] := by
    apply takenBytes_of_empty
    intro record hrecord
    have hmem : record.request ∈ closing.map OutRecord.request := List.mem_map_of_mem hrecord
    rw [hclosing] at hmem
    split at hmem
    next => exact List.mem_singleton.mp hmem
    next => cases hmem
  have htaken := take_append_taken hsteps
  rw [List.take_zero, List.nil_append] at htaken
  rw [htransfers, takenBytes_append, hempty, List.append_nil, htaken]
  refine ⟨List.take_prefix _ _, fun hsuccess => ?_, _, husb⟩
  rw [hok hsuccess, List.take_length]

/-- The number of bytes fits into its type, so it is reported as it is. -/
theorem receivePacket_delivered {buffer data : Bytes} {isControl : Bool} {minSize : Nat}
    {timeoutOverrideMs count : Int} (hsize : buffer.length < 2 ^ 31)
    (hexec : (usb.receivePacket buffer isControl minSize timeoutOverrideMs).Executes trace
      (true, data, count)) :
    data.take count.toNat <:+ deliveredBytes trace := by
  unfold UsbConnection.receivePacket at hexec
  obtain ⟨earlier, last, rfl, -, -, -, hle, htake, hcount⟩ :=
    receiveAttempts_receives (Nat.le_refl _) (Nat.le_refl _) hexec
  rw [hcount, toInt32_eq (by omega), Int.toNat_natCast, htake, deliveredBytes_append]
  exact List.suffix_append _ _

theorem receiveTimeout_isTimeout {timeoutOverrideMs : Nat} (isControl : Bool)
    (h : timeoutOverrideMs = 0 ∨ IsTimeout timeoutOverrideMs) :
    IsTimeout (if 0 < (timeoutOverrideMs : Int) then (timeoutOverrideMs : Int).toNat
      else if isControl then usbTimeoutControl else usbTimeoutBulk) := by
  have hdefault : IsTimeout (if isControl then usbTimeoutControl else usbTimeoutBulk) := by
    unfold IsTimeout usbTimeoutControl usbTimeoutBulk
    cases isControl with
    | false => simp
    | true => simp
  rcases h with rfl | h
  · exact hdefault
  · rw [if_pos (Int.natCast_pos.mpr h.1), Int.toNat_natCast]
    exact h

/-- An operation of a session uses the endpoints of the connection and leaves it as
it is, but for the size of its requests. -/
theorem driver_session {request : UsbCall} {state state' : DriverState} {reply : request.Reply}
    (hsession : request.InSession)
    (hexec : (driver request state).Executes trace (reply, state')) :
    (∃ maxChunkBytes,
      state' = { state with connection := { state.connection with maxChunkBytes } }) ∧
    OnTheBus ⟨request, reply⟩ trace ∧
    ∀ event ∈ trace, LibusbCall.OnEndpoints state.connection event.call := by
  cases request with
  | openDevice specificPath criteria => exact hsession.elim
  | bulkWriteAll packet timeoutMs =>
      obtain ⟨first, ⟨ok, usb'⟩, rest, rfl, hfirst, hrest⟩ := executes_bind.mp hexec
      obtain ⟨rfl, rfl, rfl⟩ := executes_pure_pair.mp hrest
      obtain ⟨hpart, hwhole, maxChunkBytes, rfl⟩ := bulkWriteAll_taken hfirst
      rw [List.append_nil]
      refine ⟨⟨maxChunkBytes, rfl⟩, ⟨hpart, hwhole⟩, fun event hevent => ?_⟩
      exact (calls_writeAttempts _ _ _ _ _ _ _ hfirst event hevent).onEndpoints hsession
  | bulkReadOnce size timeoutMs =>
      obtain ⟨first, ⟨ok, buffer, count⟩, rest, rfl, hfirst, hrest⟩ := executes_bind.mp hexec
      obtain ⟨rfl, rfl, rfl⟩ := executes_pure_pair.mp hrest
      rw [List.append_nil]
      have hcalls := calls_readAttempts state'.connection timeoutMs usbRetryCount
        (List.replicate size 0) 0
      refine ⟨⟨_, rfl⟩, ⟨outTransfers_of_calls hcalls (fun _ _ _ _ h => h) hfirst, ?_⟩,
        fun event hevent => (hcalls _ _ hfirst event hevent).onEndpoints hsession.2⟩
      -- What is handed over is what the last transfer delivered.
      intro data hdata
      obtain ⟨rfl, htaken⟩ := mem_readReply hdata
      obtain ⟨earlier, length, transfer, rfl, -, -, htake⟩ := readAttempts_reads hfirst
      rw [deliveredBytes_append, deliveredBytes_bulkIn, htaken, htake]
      exact List.suffix_append _ _
  | receivePacket size isControl minSize timeoutOverrideMs =>
      obtain ⟨hsize, -, htimeout⟩ := hsession
      obtain ⟨first, ⟨ok, buffer, count⟩, rest, rfl, hfirst, hrest⟩ := executes_bind.mp hexec
      obtain ⟨rfl, rfl, rfl⟩ := executes_pure_pair.mp hrest
      rw [List.append_nil]
      have hcalls := calls_receiveAttempts state'.connection _ (timeoutOverrideMs : Int) _ _ _ _ _
        _ _ hfirst
      refine ⟨⟨_, rfl⟩, ⟨?_, ?_⟩,
        fun event hevent => (hcalls event hevent).onEndpoints (receiveTimeout_isTimeout _ htimeout)⟩
      · exact outTransfers_of_calls (calls_receiveAttempts _ _ _ _ _ _ _ _) (fun _ _ _ _ h => h)
          hfirst
      · intro data hdata
        obtain ⟨rfl, htaken⟩ := mem_receiveReply hdata
        rw [htaken]
        refine receivePacket_delivered ?_ hfirst
        rw [List.length_replicate]
        omega

theorem driver_openDevice {specificPath : Bytes} {criteria : UsbSelectionCriteria}
    {state state' : DriverState} {ok : Bool}
    (hexec : (driver (.openDevice specificPath criteria) state).Executes trace (ok, state')) :
    (state.connection.openDevice state.once specificPath criteria).Executes trace
      (ok, state'.once, state'.connection) := by
  obtain ⟨first, ⟨ok', once, usb'⟩, rest, rfl, hfirst, hrest⟩ := executes_bind.mp hexec
  obtain ⟨rfl, rfl, rfl⟩ := executes_pure_pair.mp hrest
  rw [List.append_nil]
  exact hfirst

end Specification

end Odin4
