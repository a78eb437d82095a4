import Odin4.Run.LinkUse
import Odin4.Run.Protocol
import Odin4.Usb.Holdings

/-!
# A run over the USB library

One device object from its construction to its destruction. Whatever the USB
library answers, the run is a run of the link: the packets of the link are the
bytes that the device takes. All transfers go to the device that is held, and
in the end nothing is held.
-/

namespace Odin4

open Interaction Program Dialogue

/-- A run with the device object that it works on. Whether the library is ready is
known to all objects of the process. -/
def runForDeviceOverLibusb (host : Host) (cfg : OdinConfig) (once : Option Bool) :
    Libusb (ExitCode × Option Bool) := do
  let (rc, state) ← (runForDevice host cfg).implement driver { once }
  let _ ← state.connection.destroy
  return (rc, state.once)

abbrev UsbCarriedCall := CarriedCall UsbCall UsbCall.Reply LibusbCall LibusbCall.Reply

/-! ## A Thor device on the bus -/

/-- The bytes of the last transfer to the device that moved any. -/
def lastRequest (past : LibusbTrace) : Bytes :=
  (((outTransfers past).map OutRecord.request).filter fun request => !request.isEmpty).getLastD []

/-- What a Thor device without a type string answers to the bytes of a packet. -/
def thorBusAnswers (pit request : Bytes) (length : Nat) : Bytes :=
  if request = ascii "ODIN" then []
  else if leAt request 4 2 = thorPacketDeviceType then
    leBytes 4 length ++ leBytes 2 thorPacketDeviceType ++ leBytes 130 0
  else if leAt request 4 2 = thorPacketPitFile then
    if length = 12 then
      leBytes 4 12 ++ leBytes 2 thorPacketPitFile ++ leBytes 2 0 ++ leBytes 4 pit.length
    else pit
  else thorResponse

/-- A device with a kernel driver that takes everything and answers at once. -/
def thorBus (pit : Bytes) : Environment LibusbCall LibusbCall.Reply := fun past request =>
  match request with
  | .bulkIn _ _ length _ => ⟨0, (thorBusAnswers pit (lastRequest past) length).take length, by simp⟩
  | request => oneDevice past request

/-- A run without archives. -/
def thorBusRun : LibusbTrace × (ExitCode × Option Bool) :=
  (runForDeviceOverLibusb emptyHost {} none).run (thorBus bootPit) []

theorem thorBusRun_result : thorBusRun.2 = (.success, some true) := by decide +kernel

theorem executes_thorBusRun :
    (runForDeviceOverLibusb emptyHost {} none).Executes thorBusRun.1 (.success, some true) := by
  have hexec := executes_run (thorBus bootPit) [] (runForDeviceOverLibusb emptyHost {} none)
  have hresult : ((runForDeviceOverLibusb emptyHost {} none).run (thorBus bootPit) []).2 =
      (.success, some true) := thorBusRun_result
  rwa [hresult] at hexec

/-! ## The parts of a run -/

theorem LibusbCall.onEndpoints_maxChunk {usb : UsbConnection} {maxChunkBytes : Nat}
    {request : LibusbCall} (h : request.OnEndpoints { usb with maxChunkBytes }) :
    request.OnEndpoints usb := by
  cases request with
  | bulkOut => exact h
  | bulkIn => exact h
  | clearHalt => exact h
  | sleepFor => exact h
  | _ => exact h.elim

/-- The operations of a session leave the connection as it is, but for the size of
its requests, and do what they report. -/
theorem session_steps {state state' : DriverState} {carried : List UsbCarriedCall}
    (hsteps : Steps (Handler.CarriesOut driver) state carried state')
    (hsession : ∀ x ∈ carried, UsbCall.InSession x.event.call) :
    (∃ maxChunkBytes,
      state' = { state with connection := { state.connection with maxChunkBytes } }) ∧
    (∀ x ∈ carried, OnTheBus x.event x.below) ∧
    ∀ x ∈ carried, ∀ event ∈ x.below, LibusbCall.OnEndpoints state.connection event.call := by
  induction carried generalizing state with
  | nil =>
      obtain rfl := hsteps
      exact ⟨⟨_, rfl⟩, by simp, by simp⟩
  | cons x rest ih =>
      obtain ⟨middle, hfirst, hrest⟩ := hsteps
      obtain ⟨hx, hlater⟩ := List.forall_mem_cons.mp hsession
      obtain ⟨⟨maxChunkBytes, rfl⟩, hbus, hcalls⟩ := driver_session hx hfirst
      obtain ⟨hstate, hbuses, hrestCalls⟩ := ih hrest hlater
      refine ⟨hstate, List.forall_mem_cons.mpr ⟨hbus, hbuses⟩,
        List.forall_mem_cons.mpr ⟨hcalls, fun y hy event hevent => ?_⟩⟩
      exact LibusbCall.onEndpoints_maxChunk (hrestCalls y hy event hevent)

/-- A run opens the device, works on it and gives back what it holds. -/
structure WireParts (host : Host) (cfg : OdinConfig) (once : Option Bool) (rc : ExitCode)
    (opening : LibusbTrace) (session : List UsbCarriedCall) (closing : LibusbTrace)
    (opened : Bool) (usb : UsbConnection) : Prop where
  opens : ∃ ready, (UsbConnection.openDevice {} once cfg.devicePath
    (criteriaFromConfig cfg)).Executes opening (opened, ready, usb)
  runs : (runForDevice host cfg).Executes (⟨.openDevice cfg.devicePath (criteriaFromConfig cfg),
    opened⟩ :: session.map CarriedCall.event) rc
  unopened : opened = false → session = []
  bus : ∀ x ∈ session, OnTheBus x.event x.below
  endpoints : ∀ x ∈ session, ∀ event ∈ x.below, LibusbCall.OnEndpoints usb event.call
  closes : ∃ maxChunkBytes closed,
    (UsbConnection.destroy { usb with maxChunkBytes }).Executes closing closed

section Runs

variable {host : Host} {cfg : OdinConfig} {once once' : Option Bool} {rc : ExitCode}
variable {trace : LibusbTrace}

theorem runForDeviceOverLibusb_parts
    (hexec : (runForDeviceOverLibusb host cfg once).Executes trace (rc, once')) :
    ∃ opening session closing opened usb,
      trace = opening ++ (session.flatMap CarriedCall.below ++ closing) ∧
        WireParts host cfg once rc opening session closing opened usb := by
  obtain ⟨front, ⟨rc', state⟩, behind, rfl, hrun, hbehind⟩ := executes_bind.mp hexec
  obtain ⟨closing, closed, last, rfl, hclose, hlast⟩ := executes_bind.mp hbehind
  obtain ⟨rfl, rfl, -⟩ := executes_pure_pair.mp hlast
  obtain ⟨carried, hsteps, hlink, rfl⟩ := executes_implement.mp hrun
  obtain ⟨opened, rest, hevents, hsession, hnone⟩ := runForDevice_inSession hlink
  obtain ⟨⟨event, opening⟩, session, rfl, hevent, rfl⟩ := List.map_eq_cons_iff.mp hevents
  obtain rfl : event = ⟨.openDevice cfg.devicePath (criteriaFromConfig cfg), opened⟩ := hevent
  obtain ⟨middle, hopen, hsteps⟩ := hsteps
  have hsession : ∀ x ∈ session, UsbCall.InSession x.event.call := fun x hx =>
    hsession _ (List.mem_map_of_mem hx)
  -- A session changes nothing of the connection but the size of the chunks.
  obtain ⟨⟨maxChunkBytes, rfl⟩, hbus, hendpoints⟩ := session_steps hsteps hsession
  refine ⟨opening, session, closing, opened, middle.connection, ?_, ?_⟩
  · rw [List.flatMap_cons, List.append_nil, List.append_assoc]
  · exact {
      opens := ⟨_, driver_openDevice hopen⟩
      runs := hlink
      unopened := fun h => List.map_eq_nil_iff.mp (hnone h)
      bus := hbus
      endpoints := hendpoints
      closes := ⟨_, _, hclose⟩ }

/-- Every run over the USB library is a run of the link with the same result, in
which each operation has done on the bus what it reports; behind it the object is
destroyed without another transfer. -/
theorem runForDeviceOverLibusb_refines
    (hexec : (runForDeviceOverLibusb host cfg once).Executes trace (rc, once')) :
    ∃ (carried : List UsbCarriedCall) (closing : LibusbTrace),
      trace = carried.flatMap CarriedCall.below ++ closing ∧
      (runForDevice host cfg).Executes (carried.map CarriedCall.event) rc ∧
      (∀ x ∈ carried, OnTheBus x.event x.below) ∧
      ∀ event ∈ closing, LibusbCall.isTransfer event.call = false := by
  obtain ⟨opening, session, closing, opened, usb, rfl, hparts⟩ := runForDeviceOverLibusb_parts hexec
  obtain ⟨ready, hopen⟩ := hparts.opens
  obtain ⟨maxChunkBytes, closed, hclose⟩ := hparts.closes
  refine ⟨⟨⟨.openDevice cfg.devicePath (criteriaFromConfig cfg), opened⟩, opening⟩ :: session,
    closing, ?_, hparts.runs, ?_, setsUp_destroy _ closing closed hclose⟩
  · rw [List.flatMap_cons, List.append_assoc]
  · refine List.forall_mem_cons.mpr ⟨?_, hparts.bus⟩
    exact (setsUp_openDevice _ _ _ _).outTransfers_eq hopen

theorem runForDeviceOverLibusb_refines_thorBus :
    outTransfers thorBusRun.1 ≠ [] ∧
    ∃ (carried : List UsbCarriedCall) (closing : LibusbTrace),
      thorBusRun.1 = carried.flatMap CarriedCall.below ++ closing ∧
      (runForDevice emptyHost {}).Executes (carried.map CarriedCall.event) .success := by
  obtain ⟨carried, closing, htrace, hlink, -⟩ :=
    runForDeviceOverLibusb_refines executes_thorBusRun
  exact ⟨by decide +kernel, carried, closing, htrace, hlink⟩

/-! ## The device that is held -/

/-- The device that a transfer goes to. -/
def LibusbCall.target? : LibusbCall → Option (Option DeviceHandle)
  | .bulkOut handle .. | .bulkIn handle .. | .clearHalt handle _ => some handle
  | _ => none

/-- Behind these calls a device is open with its interface claimed. -/
def HoldsDevice (before : LibusbTrace) (handle : DeviceHandle) : Prop :=
  ∃ (lives : List HandleLife) (life : HandleLife), life.handle = handle ∧ life.isClaimed = true ∧
    deviceActions before = lives.flatMap HandleLife.actions ++ life.start

theorem LibusbCall.OnEndpoints.isQuiet {usb : UsbConnection} {event : LibusbEvent}
    (h : LibusbCall.OnEndpoints usb event.call) : LibusbEvent.IsQuiet event := by
  obtain ⟨request, reply⟩ := event
  cases request with
  | bulkOut => exact ⟨rfl, rfl⟩
  | bulkIn => exact ⟨rfl, rfl⟩
  | clearHalt => exact ⟨rfl, rfl⟩
  | sleepFor => exact ⟨rfl, rfl⟩
  | _ => exact h.elim

theorem LibusbCall.OnEndpoints.target_eq {usb : UsbConnection} {request : LibusbCall}
    {target : Option DeviceHandle} (h : request.OnEndpoints usb)
    (htarget : request.target? = some target) : target = usb.handle := by
  cases request with
  | bulkOut => exact (Option.some.inj htarget).symm.trans h.1
  | bulkIn => exact (Option.some.inj htarget).symm.trans h.1
  | clearHalt => exact (Option.some.inj htarget).symm.trans h.1
  | _ => cases htarget

theorem LibusbCall.target?_eq_none {request : LibusbCall} (h : request.isTransfer = false) :
    request.target? = none := by
  cases request with
  | bulkOut => cases h
  | bulkIn => cases h
  | clearHalt => cases h
  | _ => rfl

theorem actions_eq_nil {calls : LibusbTrace} (h : ∀ event ∈ calls, LibusbEvent.IsQuiet event) :
    deviceActions calls = [] ∧ listActions calls = [] :=
  ⟨List.filterMap_eq_nil_iff.mpr fun event hevent => (h event hevent).1,
    List.filterMap_eq_nil_iff.mpr fun event hevent => (h event hevent).2⟩

theorem Holds.holdsDevice {usb : UsbConnection} {before : LibusbTrace} {handle : DeviceHandle}
    (h : Holds usb before) (hhandle : usb.handle = some handle) : HoldsDevice before handle := by
  obtain ⟨lives, hlives⟩ := h.device
  refine ⟨lives, ⟨handle, usb.interfaceNumber, usb.kernelDriverDetached, true⟩, rfl, rfl, ?_⟩
  rw [hlives, UsbConnection.currentLife, hhandle]
  rfl

namespace WireParts

variable {opening closing : LibusbTrace} {session : List UsbCarriedCall} {opened : Bool}
variable {usb : UsbConnection}

theorem holds (h : WireParts host cfg once rc opening session closing opened usb) :
    Holds usb opening ∧ usb.handle.isSome = opened := by
  obtain ⟨ready, hopen⟩ := h.opens
  have hempty : Holds {} [] := ⟨⟨[], rfl⟩, ⟨[], rfl⟩⟩
  exact hempty.opened hopen

theorem session_onEndpoints (h : WireParts host cfg once rc opening session closing opened usb) :
    ∀ event ∈ session.flatMap CarriedCall.below, LibusbCall.OnEndpoints usb event.call := by
  intro event hevent
  obtain ⟨x, hx, hevent⟩ := List.mem_flatMap.mp hevent
  exact h.endpoints x hx event hevent

theorem opening_setsUp (h : WireParts host cfg once rc opening session closing opened usb) :
    ∀ event ∈ opening, LibusbCall.isTransfer event.call = false := by
  obtain ⟨ready, hopen⟩ := h.opens
  exact setsUp_openDevice _ _ _ _ opening _ hopen

theorem closing_setsUp (h : WireParts host cfg once rc opening session closing opened usb) :
    ∀ event ∈ closing, LibusbCall.isTransfer event.call = false := by
  obtain ⟨maxChunkBytes, closed, hclose⟩ := h.closes
  exact setsUp_destroy _ closing closed hclose

/-- A transfer stands between opening and closing. -/
theorem transfer_mem (h : WireParts host cfg once rc opening session closing opened usb)
    {before after : LibusbTrace} {event : LibusbEvent}
    (hsplit : opening ++ (session.flatMap CarriedCall.below ++ closing) = before ++ event :: after)
    (htransfer : LibusbCall.isTransfer event.call = true) :
    ∃ part tail, before = opening ++ part ∧
      session.flatMap CarriedCall.below = part ++ event :: tail := by
  have hnot : ∀ calls : LibusbTrace, (∀ other ∈ calls, LibusbCall.isTransfer other.call = false) →
      event ∉ calls := by
    intro calls hcalls hmem
    rw [hcalls event hmem] at htransfer
    exact Bool.false_ne_true htransfer
  obtain ⟨tail, hopening, -⟩ | ⟨part, rfl, hrest⟩ := split_at_turn hsplit
  · exact absurd (by simp [hopening]) (hnot opening h.opening_setsUp)
  · obtain ⟨tail, hsession, -⟩ | ⟨last, -, hclosing⟩ := split_at_turn hrest
    · exact ⟨part, tail, rfl, hsession⟩
    · exact absurd (by simp [hclosing]) (hnot closing h.closing_setsUp)

end WireParts

/-- A transfer that is part of a run goes to a device that the run has opened, whose
interface it has claimed and not yet released. In the end every handle has been
closed, every claim and every detached driver undone, and every list freed. -/
theorem runForDeviceOverLibusb_holds
    (hexec : (runForDeviceOverLibusb host cfg once).Executes trace (rc, once')) :
    (∀ before event after target, trace = before ++ event :: after →
      LibusbCall.target? event.call = some target →
      ∃ handle, target = some handle ∧ HoldsDevice before handle) ∧
    (∃ lives : List HandleLife, deviceActions trace = lives.flatMap HandleLife.actions) ∧
    ∃ lists : List DeviceList,
      listActions trace = lists.flatMap fun list => [.obtained list, .freed list] := by
  obtain ⟨opening, session, closing, opened, usb, rfl, hparts⟩ := runForDeviceOverLibusb_parts hexec
  obtain ⟨hholds, hopened⟩ := hparts.holds
  have hquiet : ∀ event ∈ session.flatMap CarriedCall.below, LibusbEvent.IsQuiet event :=
    fun event hevent => (hparts.session_onEndpoints event hevent).isQuiet
  constructor
  · intro before event after target hsplit htarget
    have htransfer : LibusbCall.isTransfer event.call = true := by
      by_contra hnot
      rw [LibusbCall.target?_eq_none (Bool.not_eq_true _ ▸ hnot)] at htarget
      cases htarget
    obtain ⟨part, tail, rfl, hsession⟩ := hparts.transfer_mem hsplit htransfer
    have hevent : event ∈ session.flatMap CarriedCall.below := by simp [hsession]
    have hhandle : target = usb.handle :=
      (hparts.session_onEndpoints event hevent).target_eq htarget
    -- Without a device there is no session.
    have hopen : opened = true := by
      by_contra hclosed
      rw [hparts.unopened (Bool.not_eq_true _ ▸ hclosed)] at hevent
      cases hevent
    rw [hopen] at hopened
    obtain ⟨handle, hsome⟩ := Option.isSome_iff_exists.mp hopened
    refine ⟨handle, hhandle.trans hsome, ?_⟩
    obtain ⟨lives, life, hlife, hclaimed, hactions⟩ := hholds.holdsDevice hsome
    refine ⟨lives, life, hlife, hclaimed, ?_⟩
    have hpart : ∀ other ∈ part, LibusbEvent.IsQuiet other := fun other hother =>
      hquiet other (by simp [hsession, hother])
    rw [deviceActions_append, (actions_eq_nil hpart).1, List.append_nil, hactions]
  -- The destructor gives back what the session has left as it was.
  · obtain ⟨maxChunkBytes, closed, hclose⟩ := hparts.closes
    obtain ⟨hdevice, hlist⟩ := actions_eq_nil hquiet
    have hheld : Holds { usb with maxChunkBytes } (opening ++ session.flatMap CarriedCall.below) := by
      constructor
      · rw [deviceActions_append, hdevice, List.append_nil]
        exact hholds.device
      · rw [listActions_append, hlist, List.append_nil]
        exact hholds.list
    obtain ⟨-, -, hlives, hlists⟩ := hheld.destroyed hclose
    rw [← List.append_assoc]
    exact ⟨hlives, hlists⟩

/-- The call comes back in time: a transfer is given up after five minutes at most,
and a pause takes less than a second. -/
def LibusbCall.EndsInTime : LibusbCall → Prop
  | .bulkOut _ _ _ timeoutMs => IsTimeout timeoutMs
  | .bulkIn _ _ _ timeoutMs => IsTimeout timeoutMs
  | .sleepFor ms => IsPause ms
  | _ => True

theorem LibusbCall.endsInTime_of_setUp {request : LibusbCall} (h : request.isTransfer = false) :
    request.EndsInTime := by
  cases request with
  | bulkOut => cases h
  | bulkIn => cases h
  | sleepFor => cases h
  | _ => trivial

theorem LibusbCall.OnEndpoints.endsInTime {usb : UsbConnection} {request : LibusbCall}
    (h : request.OnEndpoints usb) : request.EndsInTime := by
  cases request with
  | bulkOut => exact h.2.2
  | bulkIn => exact h.2.2
  | sleepFor => exact h
  | _ => trivial

/-- No wait of a run is without a limit. -/
theorem runForDeviceOverLibusb_endsInTime
    (hexec : (runForDeviceOverLibusb host cfg once).Executes trace (rc, once')) :
    ∀ event ∈ trace, LibusbCall.EndsInTime event.call := by
  obtain ⟨opening, session, closing, opened, usb, rfl, hparts⟩ := runForDeviceOverLibusb_parts hexec
  intro event hevent
  rcases List.mem_append.mp hevent with hopening | hrest
  · exact LibusbCall.endsInTime_of_setUp (hparts.opening_setsUp event hopening)
  · rcases List.mem_append.mp hrest with hsession | hclosing
    · exact (hparts.session_onEndpoints event hsession).endsInTime
    · exact LibusbCall.endsInTime_of_setUp (hparts.closing_setsUp event hclosing)

end Runs

end Odin4
