import Odin4.Usb.OpenDevice

/-!
# What the device object holds

The actions on handles, interfaces and kernel drivers form lives of handles,
one after another: a handle is opened, the driver is detached where there was
one, the interface is claimed, and all of it is undone in the reverse order
before the handle is closed. Device lists are obtained and freed in turn. In
between two calls at most one life and one list are unfinished, and these are
the ones that the connection records.
-/

namespace Odin4

open Interaction Program

/-! ## Actions -/

/-- What changes the state of a handle. Calls that failed change nothing, and
giving something back counts as done. -/
inductive DeviceAction where
  | opened (handle : DeviceHandle)
  | detached (handle : DeviceHandle) (interfaceNumber : Int)
  | claimed (handle : DeviceHandle) (interfaceNumber : Int)
  | released (handle : DeviceHandle) (interfaceNumber : Int)
  | reattached (handle : DeviceHandle) (interfaceNumber : Int)
  | closed (handle : DeviceHandle)
deriving DecidableEq, Repr

inductive ListAction where
  | obtained (list : DeviceList)
  | freed (list : DeviceList)
deriving DecidableEq, Repr

def LibusbEvent.deviceAction? (event : LibusbEvent) : Option DeviceAction :=
  match event with
  | ⟨.openDevice _, .opened handle⟩ => some (.opened handle)
  | ⟨.detachKernelDriver handle interfaceNumber, err⟩ =>
      if err < 0 then none else some (.detached handle interfaceNumber)
  | ⟨.claimInterface handle interfaceNumber, err⟩ =>
      if err < 0 then none else some (.claimed handle interfaceNumber)
  | ⟨.releaseInterface handle interfaceNumber, _⟩ => some (.released handle interfaceNumber)
  | ⟨.attachKernelDriver handle interfaceNumber, _⟩ => some (.reattached handle interfaceNumber)
  | ⟨.close handle, _⟩ => some (.closed handle)
  | _ => none

def LibusbEvent.listAction? (event : LibusbEvent) : Option ListAction :=
  match event with
  | ⟨.getDeviceList, .obtained list _⟩ => some (.obtained list)
  | ⟨.freeDeviceList list, _⟩ => some (.freed list)
  | _ => none

def deviceActions (trace : LibusbTrace) : List DeviceAction :=
  trace.filterMap LibusbEvent.deviceAction?

def listActions (trace : LibusbTrace) : List ListAction := trace.filterMap LibusbEvent.listAction?

/-- Neither a handle nor a list is concerned. -/
def LibusbEvent.IsQuiet (event : LibusbEvent) : Prop :=
  LibusbEvent.deviceAction? event = none ∧ LibusbEvent.listAction? event = none

/-! ## Lives of handles -/

structure HandleLife where
  handle : DeviceHandle
  interfaceNumber : Int
  isDetached : Bool
  isClaimed : Bool

namespace HandleLife

variable (life : HandleLife)

def start : List DeviceAction :=
  .opened life.handle ::
    ((if life.isDetached then [.detached life.handle life.interfaceNumber] else []) ++
      if life.isClaimed then [.claimed life.handle life.interfaceNumber] else [])

def finish : List DeviceAction :=
  (if life.isClaimed then [.released life.handle life.interfaceNumber] else []) ++
    ((if life.isDetached then [.reattached life.handle life.interfaceNumber] else []) ++
      [.closed life.handle])

def actions : List DeviceAction := life.start ++ life.finish

end HandleLife

/-- The life of the handle that the connection holds. -/
def UsbConnection.currentLife (usb : UsbConnection) : Option HandleLife :=
  usb.handle.map fun handle =>
    { handle, interfaceNumber := usb.interfaceNumber, isDetached := usb.kernelDriverDetached
      isClaimed := true }

/-- The actions so far are complete lives and the beginning of the current one. -/
structure Holds (usb : UsbConnection) (trace : LibusbTrace) : Prop where
  device : ∃ lives : List HandleLife,
    deviceActions trace = lives.flatMap HandleLife.actions ++
      (usb.currentLife.map HandleLife.start).getD []
  list : ∃ lists : List DeviceList,
    listActions trace = lists.flatMap (fun list => [.obtained list, .freed list]) ++
      (usb.deviceList.map fun list => [ListAction.obtained list]).getD []

@[simp] theorem deviceActions_append (first second : LibusbTrace) :
    deviceActions (first ++ second) = deviceActions first ++ deviceActions second :=
  List.filterMap_append

@[simp] theorem listActions_append (first second : LibusbTrace) :
    listActions (first ++ second) = listActions first ++ listActions second :=
  List.filterMap_append

/-- A program that concerns neither handles nor lists. -/
abbrev TakesNothing {α : Type} (program : Libusb α) : Prop := Emits LibusbEvent.IsQuiet program

theorem TakesNothing.actions_eq {α : Type} {program : Libusb α} {trace : LibusbTrace} {result : α}
    (h : TakesNothing program) (hexec : program.Executes trace result) :
    deviceActions trace = [] ∧ listActions trace = [] := by
  constructor
  · exact (h.mono fun _ hquiet => hquiet.1).filterMap_eq_nil hexec
  · exact (h.mono fun _ hquiet => hquiet.2).filterMap_eq_nil hexec

/-! ## Looking for a device -/

section Looking

variable (dev : LibusbDevice) (specificPath : Bytes) (criteria : UsbSelectionCriteria)

theorem takesNothing_findBestInterface : TakesNothing (findBestInterface dev criteria) := by
  refine emits_perform_bind (fun _ => ⟨rfl, rfl⟩) fun config => ?_
  cases config with
  | none => exact emits_pure _
  | some config => exact emits_perform_bind (fun _ => ⟨rfl, rfl⟩) fun _ => emits_pure _

theorem takesNothing_usbPathForDevice : TakesNothing (usbPathForDevice dev) := by
  refine emits_perform_bind (fun _ => ⟨rfl, rfl⟩) fun bus => ?_
  exact emits_perform_bind (fun _ => ⟨rfl, rfl⟩) fun address => emits_pure _

theorem takesNothing_pathMatches : TakesNothing (pathMatches specificPath dev) := by
  apply emits_ite
  · intro _
    exact emits_pure _
  · intro _
    apply emits_bind (takesNothing_usbPathForDevice dev)
    intro path
    exact emits_pure _

theorem takesNothing_visit (scan : DeviceScan) :
    TakesNothing (scan.visit specificPath criteria dev) := by
  refine emits_perform_bind (fun _ => ⟨rfl, rfl⟩) fun desc => ?_
  cases desc with
  | none => exact emits_pure _
  | some desc =>
      dsimp only
      refine emits_ite (fun _ => emits_pure _) fun _ => ?_
      refine emits_ite (fun _ => emits_pure _) fun _ => ?_
      refine emits_bind (takesNothing_pathMatches dev specificPath) fun _ => ?_
      refine emits_ite (fun _ => emits_pure _) fun _ => ?_
      refine emits_bind (takesNothing_findBestInterface dev criteria) fun cand => ?_
      refine emits_ite (fun _ => emits_pure _) fun _ => ?_
      refine emits_ite (fun _ => emits_pure _) fun _ => ?_
      exact emits_ite (fun _ => emits_pure _) (fun _ => emits_pure _)

theorem takesNothing_scanDevices (devices : List LibusbDevice) (scan : DeviceScan) :
    TakesNothing (scanDevices specificPath criteria scan devices) := by
  induction devices generalizing scan with
  | nil => exact emits_pure _
  | cons dev rest ih =>
      apply emits_bind (takesNothing_visit dev specificPath criteria scan)
      intro scan
      exact ih scan

theorem takesNothing_ensureLibusbInitialized (once : Option Bool) :
    TakesNothing (UsbConnection.ensureLibusbInitialized once) := by
  cases once with
  | some ready => exact emits_pure _
  | none => exact emits_perform_bind (fun _ => ⟨rfl, rfl⟩) fun rc => emits_pure _

end Looking

/-! ## Giving back -/

section Closing

variable {usb usb' : UsbConnection} {trace : LibusbTrace}

/-- Closing finishes the current life. -/
theorem closeHandle_finishes (hexec : usb.closeHandle.Executes trace usb') :
    usb'.handle = none ∧ usb'.deviceList = usb.deviceList ∧ listActions trace = [] ∧
      deviceActions trace = (usb.currentLife.map HandleLife.finish).getD [] := by
  unfold UsbConnection.closeHandle at hexec
  unfold UsbConnection.currentLife
  cases hhandle : usb.handle with
  | none =>
      rw [hhandle] at hexec
      obtain ⟨rfl, rfl⟩ := executes_pure.mp hexec
      exact ⟨hhandle, rfl, rfl, rfl⟩
  | some handle =>
      rw [hhandle] at hexec
      obtain ⟨_, rest, rfl, hrest⟩ := executes_libusb_bind.mp hexec
      split at hrest
      next hdetached =>
        obtain ⟨_, tail, rfl, htail⟩ := executes_libusb_bind.mp hrest
        obtain ⟨_, last, rfl, hlast⟩ := executes_libusb_bind.mp htail
        obtain ⟨rfl, rfl⟩ := executes_pure.mp hlast
        refine ⟨rfl, rfl, rfl, ?_⟩
        simp only [Option.map_some, Option.getD_some, HandleLife.finish, hdetached]
        rfl
      next hdetached =>
        obtain ⟨_, tail, rfl, htail⟩ := executes_libusb_bind.mp hrest
        obtain ⟨rfl, rfl⟩ := executes_pure.mp htail
        refine ⟨rfl, rfl, rfl, ?_⟩
        simp only [Option.map_some, Option.getD_some, HandleLife.finish, hdetached]
        rfl

theorem freeDeviceList_frees (hexec : usb.freeDeviceList.Executes trace usb') :
    usb' = { usb with deviceList := none } ∧ deviceActions trace = [] ∧
      listActions trace = (usb.deviceList.map fun list => [ListAction.freed list]).getD [] := by
  unfold UsbConnection.freeDeviceList at hexec
  cases hlist : usb.deviceList with
  | none =>
      rw [hlist] at hexec
      obtain ⟨rfl, rfl⟩ := executes_pure.mp hexec
      refine ⟨?_, rfl, rfl⟩
      rw [← hlist]
  | some list =>
      rw [hlist] at hexec
      obtain ⟨_, rest, rfl, hrest⟩ := executes_libusb_bind.mp hexec
      obtain ⟨rfl, rfl⟩ := executes_pure.mp hrest
      exact ⟨rfl, rfl, rfl⟩

/-- Everything that was held is given back: only complete lives remain. -/
theorem Holds.destroyed {before : LibusbTrace} (h : Holds usb before)
    (hexec : usb.destroy.Executes trace usb') :
    usb'.handle = none ∧ usb'.deviceList = none ∧
      (∃ lives : List HandleLife,
        deviceActions (before ++ trace) = lives.flatMap HandleLife.actions) ∧
      ∃ lists : List DeviceList, listActions (before ++ trace) =
        lists.flatMap fun list => [.obtained list, .freed list] := by
  obtain ⟨first, middle, second, rfl, hfirst, hsecond⟩ := executes_bind.mp hexec
  obtain ⟨hhandle, hsame, hlists, hlives⟩ := closeHandle_finishes hfirst
  obtain ⟨rfl, hquiet, hfreed⟩ := freeDeviceList_frees hsecond
  obtain ⟨lives, hdevice⟩ := h.device
  obtain ⟨lists, hlist⟩ := h.list
  refine ⟨hhandle, rfl, ?_, ?_⟩
  · simp only [deviceActions_append, hdevice, hlives, hquiet, List.append_nil]
    cases usb.currentLife with
    | none => exact ⟨lives, by simp⟩
    | some life =>
        refine ⟨lives ++ [life], ?_⟩
        simp [HandleLife.actions]
  · simp only [listActions_append, hlist, hlists, hfreed, hsame, List.nil_append]
    cases usb.deviceList with
    | none => exact ⟨lists, by simp⟩
    | some list =>
        refine ⟨lists ++ [list], ?_⟩
        simp

end Closing

/-! ## Opening -/

/-- What opening does from its first call on a handle. Either a life has begun
that the connection records, or whatever was begun is complete. -/
inductive Opens : List DeviceAction → Bool → UsbConnection → Prop where
  | success {usb : UsbConnection} {life : HandleLife} (current : usb.currentLife = some life) :
      Opens life.start true usb
  | failure {usb : UsbConnection} (lives : List HandleLife) (closed : usb.handle = none) :
      Opens (lives.flatMap HandleLife.actions) false usb

section Opening

variable {usb usb' : UsbConnection} {target : LibusbDevice} {handle : DeviceHandle} {ok : Bool}
variable {trace : LibusbTrace}

/-- The interface is claimed, or the driver and the handle are given back. -/
theorem claim_opens (hexec : (usb.claim target handle).Executes trace (ok, usb'))
    (hhandle : usb.handle = some handle) :
    usb'.deviceList = usb.deviceList ∧ listActions trace = [] ∧
      Opens (.opened handle :: ((if usb.kernelDriverDetached then
        [.detached handle usb.interfaceNumber] else []) ++ deviceActions trace)) ok usb' := by
  obtain ⟨err, rest, rfl, hrest⟩ := executes_libusb_bind.mp hexec
  -- Only a claim that succeeds takes something.
  by_cases herr : err < 0
  · have hclaim : deviceActions [⟨.claimInterface handle usb.interfaceNumber, err⟩] = [] := by
      simp [deviceActions, LibusbEvent.deviceAction?, herr]
    rw [if_pos herr] at hrest
    rw [deviceActions_append, listActions_append, hclaim]
    unfold UsbConnection.abandon at hrest
    split at hrest
    next hdetached =>
      obtain ⟨_, tail, rfl, htail⟩ := executes_libusb_bind.mp hrest
      obtain ⟨_, last, rfl, hlast⟩ := executes_libusb_bind.mp htail
      obtain ⟨rfl, rfl, rfl⟩ := executes_pure_pair.mp hlast
      have hdetached : usb.kernelDriverDetached = true := hdetached
      rw [if_pos hdetached]
      exact ⟨rfl, rfl, .failure [⟨handle, usb.interfaceNumber, true, false⟩] rfl⟩
    next hdetached =>
      obtain ⟨_, tail, rfl, htail⟩ := executes_libusb_bind.mp hrest
      obtain ⟨rfl, rfl, rfl⟩ := executes_pure_pair.mp htail
      have hdetached : ¬ usb.kernelDriverDetached = true := hdetached
      rw [if_neg hdetached]
      exact ⟨rfl, rfl, .failure [⟨handle, usb.interfaceNumber, false, false⟩] rfl⟩
  · have hclaim : deviceActions [⟨.claimInterface handle usb.interfaceNumber, err⟩] =
        [.claimed handle usb.interfaceNumber] := by
      simp [deviceActions, LibusbEvent.deviceAction?, herr]
    rw [if_neg herr] at hrest
    obtain ⟨second, path, tail, rfl, hsecond, htail⟩ := executes_bind.mp hrest
    obtain ⟨rfl, rfl, rfl⟩ := executes_pure_pair.mp htail
    obtain ⟨hdevice, hlist⟩ := (takesNothing_usbPathForDevice target).actions_eq hsecond
    rw [List.append_nil, deviceActions_append, listActions_append, hclaim, hdevice, hlist]
    refine ⟨rfl, rfl, ?_⟩
    have hlife : usb'.currentLife =
        some ⟨handle, usb'.interfaceNumber, usb'.kernelDriverDetached, true⟩ := by
      rw [UsbConnection.currentLife, hhandle]
      rfl
    exact .success hlife

theorem takeInterface_opens
    (hexec : (usb.takeInterface target handle).Executes trace (ok, usb'))
    (hhandle : usb.handle = some handle) (hattached : usb.kernelDriverDetached = false) :
    usb'.deviceList = usb.deviceList ∧ listActions trace = [] ∧
      Opens (.opened handle :: deviceActions trace) ok usb' := by
  obtain ⟨state, rest, rfl, hrest⟩ := executes_libusb_bind.mp hexec
  split at hrest
  -- A library that cannot tell whether there is a driver.
  next hstate =>
    obtain ⟨_, tail, rfl, htail⟩ := executes_libusb_bind.mp hrest
    obtain ⟨rfl, rfl, rfl⟩ := executes_pure_pair.mp htail
    exact ⟨rfl, rfl, .failure [⟨handle, usb.interfaceNumber, false, false⟩] rfl⟩
  next hstate =>
    split at hrest
    next hactive =>
      obtain ⟨err, tail, rfl, htail⟩ := executes_libusb_bind.mp hrest
      by_cases herr : err < 0
      · have hdetach : deviceActions [⟨.detachKernelDriver handle usb.interfaceNumber, err⟩] = [] := by
          simp [deviceActions, LibusbEvent.deviceAction?, herr]
        rw [if_pos herr] at htail
        obtain ⟨_, last, rfl, hlast⟩ := executes_libusb_bind.mp htail
        obtain ⟨rfl, rfl, rfl⟩ := executes_pure_pair.mp hlast
        rw [deviceActions_append, deviceActions_append, hdetach]
        exact ⟨rfl, rfl, .failure [⟨handle, usb.interfaceNumber, false, false⟩] rfl⟩
      · have hdetach : deviceActions [⟨.detachKernelDriver handle usb.interfaceNumber, err⟩] =
            [.detached handle usb.interfaceNumber] := by
          simp [deviceActions, LibusbEvent.deviceAction?, herr]
        rw [if_neg herr] at htail
        dsimp only at htail
        obtain ⟨hsame, hlist, hopens⟩ := claim_opens htail hhandle
        rw [deviceActions_append, deviceActions_append, hdetach]
        exact ⟨hsame, hlist, hopens⟩
    next hactive =>
      obtain ⟨hsame, hlist, hopens⟩ := claim_opens hrest hhandle
      rw [if_neg (Bool.eq_false_iff.mp hattached)] at hopens
      exact ⟨hsame, hlist, hopens⟩

theorem openTarget_opens {chosenIf : InterfaceCandidate}
    (hexec : (usb.openTarget target chosenIf).Executes trace (ok, usb'))
    (hhandle : usb.handle = none) :
    usb'.deviceList = usb.deviceList ∧ listActions trace = [] ∧
      Opens (deviceActions trace) ok usb' := by
  obtain ⟨reply, rest, rfl, hrest⟩ := executes_libusb_bind.mp hexec
  cases reply with
  | failed err =>
      obtain ⟨rfl, rfl, rfl⟩ := executes_pure_pair.mp hrest
      exact ⟨rfl, rfl, .failure [] hhandle⟩
  | opened handle => exact takeInterface_opens hrest rfl rfl

/-- One list is obtained where the device list was empty, and kept. -/
theorem enumerate_opens {specificPath : Bytes} {criteria : UsbSelectionCriteria}
    (hexec : (usb.enumerate specificPath criteria).Executes trace (ok, usb'))
    (hhandle : usb.handle = none) (hlist : usb.deviceList = none) :
    listActions trace = (usb'.deviceList.map fun list => [ListAction.obtained list]).getD [] ∧
      Opens (deviceActions trace) ok usb' := by
  obtain ⟨reply, rest, rfl, hrest⟩ := executes_libusb_bind.mp hexec
  cases reply with
  | failed code negative =>
      obtain ⟨rfl, rfl, rfl⟩ := executes_pure_pair.mp hrest
      refine ⟨?_, .failure [] hhandle⟩
      simp only [hlist]
      rfl
  | obtained list devices =>
      obtain ⟨second, scan, tail, rfl, hsecond, htail⟩ := executes_bind.mp hrest
      -- Looking at the devices takes none of them.
      obtain ⟨hdevice, hlists⟩ :=
        (takesNothing_scanDevices specificPath criteria devices {}).actions_eq hsecond
      simp only [deviceActions_append, listActions_append, hdevice, hlists]
      cases htarget : scan.target with
      | none =>
          rw [htarget] at htail
          obtain ⟨rfl, rfl, rfl⟩ := executes_pure_pair.mp htail
          exact ⟨rfl, .failure [] hhandle⟩
      | some target =>
          rw [htarget] at htail
          dsimp only at htail
          obtain ⟨hsame, hnone, hopens⟩ := openTarget_opens htail hhandle
          rw [hsame, hnone]
          exact ⟨rfl, hopens⟩

/-- What was opened is held. -/
theorem Holds.of_opens {actions : List DeviceAction} {before : LibusbTrace}
    {lives : List HandleLife} {lists : List DeviceList}
    (hdevice : deviceActions before = lives.flatMap HandleLife.actions)
    (hlist : listActions before = lists.flatMap fun list => [.obtained list, .freed list])
    (hactions : deviceActions trace = actions) (hopens : Opens actions ok usb)
    (hobtained : listActions trace =
      (usb.deviceList.map fun list => [ListAction.obtained list]).getD []) :
    Holds usb (before ++ trace) ∧ usb.handle.isSome = ok := by
  have hlists : ∃ lists : List DeviceList, listActions (before ++ trace) =
      lists.flatMap (fun list => [.obtained list, .freed list]) ++
        (usb.deviceList.map fun list => [ListAction.obtained list]).getD [] := by
    refine ⟨lists, ?_⟩
    rw [listActions_append, hlist, hobtained]
  -- A failure has ended what it began, a success leaves one life begun.
  cases hopens with
  | success current =>
      refine ⟨⟨⟨lives, ?_⟩, hlists⟩, ?_⟩
      · rw [deviceActions_append, hdevice, hactions, current]
        rfl
      · unfold UsbConnection.currentLife at current
        cases hhandle : usb.handle with
        | none => simp [hhandle] at current
        | some handle => rfl
  | failure newer closed =>
      refine ⟨⟨⟨lives ++ newer, ?_⟩, hlists⟩, ?_⟩
      · rw [deviceActions_append, hdevice, hactions, UsbConnection.currentLife, closed,
          List.flatMap_append]
        exact (List.append_nil _).symm
      · rw [closed]
        rfl

/-- A call finishes what was held, and the connection records what it takes. -/
theorem Holds.opened {once once' : Option Bool} {specificPath : Bytes}
    {criteria : UsbSelectionCriteria} {before : LibusbTrace} (h : Holds usb before)
    (hexec : (usb.openDevice once specificPath criteria).Executes trace (ok, once', usb')) :
    Holds usb' (before ++ trace) ∧ usb'.handle.isSome = ok := by
  obtain ⟨giving, freed, ensuring, ready, rest, rfl, hgiving, hensure, hlast⟩ :=
    UsbConnection.executes_openDevice hexec
  have hreset : Holds { usb with lastOpenError := .none, lastOpenLibusbErr := 0 } before :=
    ⟨h.device, h.list⟩
  obtain ⟨hhandle, hnone, ⟨lives, hlives⟩, lists, hlists⟩ := hreset.destroyed hgiving
  obtain ⟨hdevice, hlist⟩ := (takesNothing_ensureLibusbInitialized once).actions_eq hensure
  rw [← List.append_assoc]
  rcases hlast with ⟨rfl, rfl, rfl⟩ | henumerate
  · rw [List.append_nil]
    refine Holds.of_opens hlives hlists hdevice (.failure [] hhandle) ?_
    rw [hlist]
    change _ = (freed.deviceList.map fun list => [ListAction.obtained list]).getD []
    rw [hnone]
    rfl
  · obtain ⟨hobtained, hopens⟩ := enumerate_opens henumerate hhandle hnone
    refine Holds.of_opens hlives hlists ?_ hopens ?_
    · rw [deviceActions_append, hdevice, List.nil_append]
    · rw [listActions_append, hlist, hobtained, List.nil_append]

end Opening

/-! ## Histories -/

structure OpenRequest where
  specificPath : Bytes
  criteria : UsbSelectionCriteria

namespace UsbConnection

/-- Calls of `openDevice` one after another, with their results. -/
def openDevices : List OpenRequest → Option Bool → UsbConnection →
    Libusb (List Bool × Option Bool × UsbConnection)
  | [], once, usb => return ([], once, usb)
  | request :: rest, once, usb => do
      let (ok, once, usb) ← usb.openDevice once request.specificPath request.criteria
      let (answers, once, usb) ← openDevices rest once usb
      return (ok :: answers, once, usb)

end UsbConnection

theorem Holds.openedAll {requests : List OpenRequest} {usb usb' : UsbConnection}
    {once once' : Option Bool} {before trace : LibusbTrace} {answers : List Bool}
    (h : Holds usb before)
    (hexec : (UsbConnection.openDevices requests once usb).Executes trace (answers, once', usb')) :
    Holds usb' (before ++ trace) ∧
      usb'.handle.isSome = answers.getLastD usb.handle.isSome := by
  induction requests generalizing usb once before trace answers with
  | nil =>
      obtain ⟨rfl, rfl, hstate⟩ := executes_pure_pair.mp hexec
      obtain ⟨-, rfl⟩ := Prod.mk.inj hstate
      rw [List.append_nil]
      exact ⟨h, rfl⟩
  | cons request rest ih =>
      obtain ⟨first, ⟨ok, once, middle⟩, second, rfl, hfirst, hsecond⟩ := executes_bind.mp hexec
      obtain ⟨third, ⟨answers, once, last⟩, fourth, rfl, hthird, hfourth⟩ := executes_bind.mp hsecond
      obtain ⟨rfl, rfl, hstate⟩ := executes_pure_pair.mp hfourth
      obtain ⟨rfl, rfl⟩ := Prod.mk.inj hstate
      obtain ⟨hmiddle, hok⟩ := h.opened hfirst
      obtain ⟨hlast, hanswers⟩ := ih hmiddle hthird
      rw [List.append_nil, ← List.append_assoc, List.getLastD_cons, ← hok]
      exact ⟨hlast, hanswers⟩

/-- After any history of calls, a handle is held exactly if the last call
succeeded, and then the interface that the connection records is claimed on it.
The destructor leaves complete lives of handles and lists only: every handle is
closed once, every claim and every detached driver is undone once before that,
on the same handle and interface, and every list is freed once. -/
theorem openDevices_balanced {requests : List OpenRequest} {once once' : Option Bool}
    {trace : LibusbTrace} {answers : List Bool} {usb : UsbConnection}
    (hexec : (UsbConnection.openDevices requests once {}).Executes trace (answers, once', usb)) :
    usb.handle.isSome = answers.getLastD false ∧
      (∃ lives : List HandleLife, deviceActions trace = lives.flatMap HandleLife.actions ++
        match usb.handle with
        | some handle =>
            (if usb.kernelDriverDetached then
              [.opened handle, .detached handle usb.interfaceNumber]
            else [.opened handle]) ++ [.claimed handle usb.interfaceNumber]
        | none => []) ∧
      ∀ rest usb', usb.destroy.Executes rest usb' →
        (∃ lives : List HandleLife,
          deviceActions (trace ++ rest) = lives.flatMap HandleLife.actions) ∧
        ∃ lists : List DeviceList,
          listActions (trace ++ rest) = lists.flatMap fun list => [.obtained list, .freed list] := by
  have hempty : Holds {} [] := ⟨⟨[], rfl⟩, ⟨[], rfl⟩⟩
  obtain ⟨hholds, hanswer⟩ := hempty.openedAll hexec
  refine ⟨hanswer, ?_, ?_⟩
  · obtain ⟨lives, hlives⟩ := hholds.device
    refine ⟨lives, hlives.trans ?_⟩
    unfold UsbConnection.currentLife
    cases usb.handle with
    | none => rfl
    | some handle =>
        simp only [Option.map_some, Option.getD_some, HandleLife.start]
        split
        · rfl
        · rfl
  · intro rest usb' hdestroy
    obtain ⟨-, -, hlives, hlists⟩ := hholds.destroyed hdestroy
    exact ⟨hlives, hlists⟩

/-- One device with a kernel driver, where every call succeeds. -/
def oneDevice : Environment LibusbCall LibusbCall.Reply := fun _ request =>
  match request with
  | .init => 0
  | .getDeviceList => .obtained ⟨1⟩ [⟨2⟩]
  | .freeDeviceList _ => ()
  | .getDeviceDescriptor _ => some ⟨0x04E8, 0x685D⟩
  | .getBusNumber _ => 1
  | .getDeviceAddress _ => 2
  | .getActiveConfigDescriptor _ =>
      some ⟨[[⟨1, 0x0A, [⟨0x81, 2, 512⟩, ⟨0x01, 2, 512⟩]⟩]]⟩
  | .freeConfigDescriptor => ()
  | .openDevice _ => .opened ⟨3⟩
  | .close _ => ()
  | .kernelDriverActive .. => 1
  | .detachKernelDriver .. => 0
  | .attachKernelDriver .. => 0
  | .claimInterface .. => 0
  | .releaseInterface .. => 0
  | .bulkOut _ _ request _ => ⟨0, request.length, Nat.le_refl _⟩
  | .bulkIn .. => ⟨0, [], Nat.zero_le _⟩
  | .clearHalt .. => 0
  | .sleepFor _ => ()

/-- A device that is opened twice. -/
def reopening : Libusb (List Bool × Option Bool × UsbConnection) :=
  UsbConnection.openDevices [⟨[], {}⟩, ⟨[], {}⟩] none {}

theorem openDevices_balanced_reopening :
    (reopening.run oneDevice []).2.2.2.handle.isSome = true := by
  have hanswers : (reopening.run oneDevice []).2.1.getLastD false = true := by decide +kernel
  have hexec := executes_run oneDevice [] reopening
  generalize reopening.run oneDevice [] = outcome at hexec hanswers ⊢
  exact (openDevices_balanced hexec).1.trans hanswers

end Odin4
