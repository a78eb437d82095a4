import Odin4.Archive.FlashDialogue
import Odin4.Run.RunForDevice

/-!
# A run as a dialogue

The archives of a run and the session around them as words of the session
language. A check of the archives talks to no device at all.
-/

namespace Odin4

open Interaction Program Dialogue Computability

/-! ## Archives -/

/-- A check-only run over the archives is a function of their contents. -/
theorem processArchives_check (usb : UsbDevice) (host : Host) (pit : PitTable)
    (allowUnknown : Bool) (paths : List Bytes) :
    ∃ code, processArchives host usb pit false allowUnknown paths = pure code := by
  induction paths with
  | nil => exact ⟨_, rfl⟩
  | cons path rest ih =>
      simp only [processArchives, processTarFile_check, pure_bind]
      split
      · exact ⟨_, rfl⟩
      · exact ih

/-- The archives of a run stop at the first failure. -/
theorem processArchives_flash (usb : UsbDevice) (host : Host) (pit : PitTable) (allowUnknown : Bool)
    (paths : List Bytes) :
    Keeping usb.protocolMode.fileWords∗ (processArchives host usb pit true allowUnknown paths)
      (· = .success) := by
  have hnil : ∃ word, word ∈ usb.protocolMode.fileWords∗ := ⟨[], Language.nil_mem_kstar _⟩
  induction paths with
  | nil => exact fun _ => conducts_pure .star_nil
  | cons path rest ih =>
      refine (keeps_bind (processTarFile_flash usb host path pit allowUnknown) hnil
        (fun code hcode => ?_) fun code hcode => ?_).mono (kstar_mul_kstar _).le
      · exact ⟨code, by rw [if_pos hcode], hcode⟩
      · rw [if_neg (not_not.mpr hcode)]
        exact ih

/-! ## The session -/

/-- What is sent between the PIT and the end of the session. -/
def ProtocolMode.workWords (mode : ProtocolMode) (dryRun : Bool) : Language Packet :=
  if dryRun then 1 else mode.fileWords∗ * mode.controlWords

theorem sendControls_keeping (cfg : OdinConfig) (usb : UsbDevice) :
    Keeping usb.protocolMode.controlWords (sendControls cfg usb) (· = true) := by
  have hle : ∀ words : Language Packet, words ≤ 1 + words := fun _ _ h => .inr h
  have hredownload : Keeping (1 + usb.protocolMode.controlWord thorControlRedownload)
      (do
        if cfg.redownload then
          if !(← sendControl usb thorControlRedownload) then return false
        return true) (· = true) := by
    refine keeps_ite (fun _ => ?_) fun _ => (keeps_pure _).mono fun _ h => .inl h
    rw [← mul_one (1 + _)]
    exact keeps_unless ((sendControl_keeping usb _).mono (hle _)) ⟨[], rfl⟩ (by simp) (keeps_pure _)
  refine keeps_ite (fun _ => ?_) fun _ => hredownload.after_optional
  exact keeps_unless ((sendControl_keeping usb _).mono (hle _)) ⟨[], nil_mem_optional _⟩ (by simp)
    hredownload

/-- The turns of an opened session with the one end command behind them. -/
inductive Closes (words : Language Packet) (mode : ProtocolMode) (s : UInt32) (rc : ExitCode) :
    List Exchange → Prop
  | intro {ys z} : Orderly words s ys (rc = .success) → z.packet.isEndSession = true →
      [z.packet] ∈ mode.endWords → (rc = .success → z.accepted (after s ys) = true) →
      Closes words mode s rc (ys ++ [z])

section Session

variable {words more : Language Packet} {s : UInt32} {xs : List Exchange}

/-- A session that goes on after its first turns. -/
theorem Closes.append {mode : ProtocolMode} {rc : ExitCode} {ys : List Exchange}
    (hfirst : Orderly words s xs True) (h : Closes more mode (after s xs) rc ys) :
    Closes (words * more) mode s rc (xs ++ ys) := by
  obtain ⟨horderly, hend, hmem, haccepted⟩ := h
  rw [← List.append_assoc]
  refine .intro (hfirst.append horderly) hend hmem fun hrc => ?_
  rw [after_append]
  exact haccepted hrc

/-- Ending the session after a failure; the outcome of the end command is ignored. -/
theorem endSession_closes (usb : UsbDevice) {rc : ExitCode} {complete : Prop}
    (h : Orderly words s xs complete) (hrc : rc ≠ .success) :
    Exchanges (endSession usb >>= fun _ => pure rc) fun ys rc' =>
      Closes words usb.protocolMode s rc' (xs ++ ys) := by
  refine conducts_bind (endSession_single usb) fun ys ok hys => conducts_pure ?_
  obtain ⟨packet, hend, hmem, z, rfl, rfl, -⟩ := hys
  rw [List.append_nil]
  exact .intro ⟨h.failStop, h.initial, fun h => absurd h hrc⟩ hend hmem fun h => absurd h hrc

/-- Ending the session as the last step of a run. -/
theorem endSession_finishes (usb : UsbDevice) (h : Orderly words s xs True) :
    Exchanges (endSession usb >>= fun ok =>
        if (!ok) = true then pure ExitCode.protocol else pure ExitCode.success) fun ys rc =>
      Closes words usb.protocolMode s rc (xs ++ ys) := by
  refine conducts_bind (endSession_single usb) fun ys ok hys => ?_
  obtain ⟨packet, hend, hmem, z, rfl, rfl, hok⟩ := hys
  cases ok with
  | false =>
      refine conducts_pure ?_
      rw [List.append_nil]
      exact .intro (h.weaken fun _ => trivial) hend hmem (by simp)
  | true =>
      refine conducts_pure ?_
      rw [List.append_nil]
      exact .intro (h.weaken fun _ => trivial) hend hmem fun _ => hok _

theorem runSession_closes (host : Host) (cfg : OdinConfig) (usb : UsbDevice) (pit : PitTable)
    (s : UInt32) :
    Exchanges (runSession host cfg usb pit) fun xs rc =>
      Closes (usb.protocolMode.workWords cfg.dryRun) usb.protocolMode s rc xs := by
  unfold runSession
  cases hdry : cfg.dryRun with
  | true =>
      obtain ⟨code, hcode⟩ := processArchives_check usb host pit cfg.allowUnknown (archives cfg)
      have hnil : Orderly (1 : Language Packet) s ([] : List Exchange) True := .nil
      simp only [Bool.not_true, hcode, pure_bind, Bool.false_eq_true, ↓reduceIte]
      split
      next hrc => exact endSession_closes usb hnil hrc
      next => exact endSession_finishes usb hnil
  | false =>
      have hcontrols := exists_mem_controlWords usb.protocolMode
      simp only [Bool.not_false, ↓reduceIte]
      refine conducts_bind (processArchives_flash usb host pit cfg.allowUnknown (archives cfg) s)
        fun xs rc hxs => ?_
      split
      next hrc => exact endSession_closes usb (hxs.stop hcontrols hrc) hrc
      next hrc =>
        obtain rfl : rc = .success := by simpa using hrc
        have hdone := hxs.weaken fun _ : True => rfl
        refine conducts_bind (sendControls_keeping cfg usb (after s xs)) fun ys ok hys => ?_
        have hcontrolled := hdone.append hys
        simp only [← List.append_assoc]
        cases ok with
        | false => exact endSession_closes usb hcontrolled (by simp)
        | true => exact endSession_finishes usb (hcontrolled.weaken fun _ => rfl)

theorem exists_mem_workWords (mode : ProtocolMode) (dryRun : Bool) :
    ∃ word, word ∈ mode.workWords dryRun := by
  cases dryRun with
  | true => exact ⟨[], rfl⟩
  | false =>
      exact ⟨_, Language.append_mem_mul (Language.nil_mem_kstar _)
        (exists_mem_controlWords mode).choose_spec⟩

/-- The turns of a run from the begin command on. -/
inductive SessionTurns (mode : ProtocolMode) (dryRun : Bool) (s : UInt32) (rc : ExitCode) :
    List Exchange → Prop
  /-- The device refused a begin command. -/
  | refused {begun} : Orderly mode.beginWords s begun False → ¬ AllAccepted s begun →
      rc ≠ .success → SessionTurns mode dryRun s rc begun
  | opened {begun ys} : Orderly mode.beginWords s begun True →
      Closes (mode.pitWords * mode.workWords dryRun) mode (after s begun) rc ys →
      SessionTurns mode dryRun s rc (begun ++ ys)

theorem session_turns (host : Host) (cfg : OdinConfig) (usb : UsbDevice) (s : UInt32) :
    Exchanges (do
      match ← startSession usb with
      | .error code => return code
      | .ok (usb, pit) => runSession host cfg usb pit) fun xs rc =>
      SessionTurns usb.protocolMode cfg.dryRun s rc xs := by
  unfold startSession
  rw [bind_assoc]
  refine conducts_bind (Exchanges.and ((beginSession_keeping usb s).and_result
    (beginSession_mode usb)) (beginSession_refused usb s)) fun begun result hbegun => ?_
  obtain ⟨ok, usb'⟩ := result
  obtain ⟨⟨horderly, hmode⟩, hrefused⟩ := hbegun
  dsimp only at hmode
  rw [← hmode] at horderly ⊢
  have hwork := exists_mem_workWords usb'.protocolMode cfg.dryRun
  cases ok with
  | false =>
      simp only [Bool.not_false, ↓reduceIte, pure_bind]
      refine conducts_pure ?_
      rw [List.append_nil]
      exact .refused (horderly.weaken False.elim) (hrefused rfl) (by simp)
  | true =>
      simp only [Bool.not_true, Bool.false_eq_true, ↓reduceIte, bind_assoc]
      refine (conducts_bind (requestPit_keeping usb' (after s begun)) fun xs pit? hxs => ?_).mono
        fun ys rc hys => .opened (horderly.weaken fun _ => rfl) hys
      cases pit? with
      | none =>
          simp only [bind_assoc, pure_bind]
          exact endSession_closes usb' (hxs.stop hwork not_false) (by simp)
      | some pit =>
          simp only [pure_bind]
          refine (runSession_closes host cfg usb' pit (after (after s begun) xs)).mono
            fun ys rc hys => ?_
          exact hys.append (hxs.weaken fun _ => rfl)

/-! ## The whole run -/

/-- The turns of a run behind the handshake. -/
inductive RunTurns (mode : ProtocolMode) (dryRun : Bool) (rc : ExitCode) : List Exchange → Prop
  | unbegun {device} : Orderly mode.deviceWords (0 : UInt32) device False → rc ≠ .success →
      RunTurns mode dryRun rc device
  | session {device ys} : Orderly mode.deviceWords (0 : UInt32) device True →
      SessionTurns mode dryRun (after 0 device) rc ys → RunTurns mode dryRun rc (device ++ ys)

/-- The part of a run behind the handshake. -/
def connectedRun (host : Host) (cfg : OdinConfig) (usb : UsbDevice) : Usb ExitCode := do
  let (ok, usb) ← requestDeviceType usb
  if !ok then return .protocol
  if hasAnyFirmwareFiles cfg && !verifyFirmwareCompatibility cfg usb.deviceTypeStr then
    return .pit
  match ← startSession usb with
  | .error code => return code
  | .ok (usb, pit) => runSession host cfg usb pit

theorem runForDevice_eq (host : Host) (cfg : OdinConfig) :
    runForDevice host cfg = (do
      if !(← openDevice cfg.devicePath (criteriaFromConfig cfg)) then return .usb
      let (ok, usb) ← handshake {}
      if !ok then return .protocol
      connectedRun host cfg usb) := by
  unfold runForDevice connect connectedRun
  simp only [bind_assoc]
  refine bind_congr fun opened => ?_
  cases opened with
  | false => rfl
  | true =>
      simp only [Bool.not_true, Bool.false_eq_true, ↓reduceIte, bind_assoc]
      refine bind_congr fun result => ?_
      obtain ⟨ok, usb⟩ := result
      cases ok with
      | false => rfl
      | true =>
          simp only [Bool.not_true, Bool.false_eq_true, ↓reduceIte, bind_assoc]
          refine bind_congr fun result => ?_
          obtain ⟨ok, usb⟩ := result
          cases ok <;> rfl

theorem connectedRun_turns (host : Host) (cfg : OdinConfig) (usb : UsbDevice) :
    Exchanges (connectedRun host cfg usb) fun xs rc =>
      RunTurns usb.protocolMode cfg.dryRun rc xs := by
  refine conducts_bind ((requestDeviceType_keeping usb 0).and_result (requestDeviceType_mode usb))
    fun device result hdevice => ?_
  obtain ⟨ok, usb'⟩ := result
  obtain ⟨horderly, hmode⟩ := hdevice
  dsimp only at hmode
  rw [← hmode] at horderly ⊢
  cases ok with
  | false =>
      refine conducts_pure ?_
      rw [List.append_nil]
      exact .unbegun (horderly.weaken False.elim) (by simp)
  | true =>
      have hconnected := horderly.weaken fun _ : True => rfl
      simp only [Bool.not_true, Bool.false_eq_true, ↓reduceIte]
      split
      next =>
        refine conducts_pure ?_
        rw [List.append_nil]
        exact .unbegun (horderly.weaken False.elim) (by simp)
      next =>
        exact (session_turns host cfg usb' (after 0 device)).mono fun xs rc hxs =>
          .session hconnected hxs

/-- Every run opens the device, shakes hands and then carries out its turns. -/
theorem runForDevice_turns {host : Host} {cfg : OdinConfig} {trace : UsbTrace} {rc : ExitCode}
    (h : (runForDevice host cfg).Executes trace rc) :
    ∃ opened hs xs, trace = ⟨.openDevice cfg.devicePath (criteriaFromConfig cfg), opened⟩ ::
        (hs ++ xs).flatMap Exchange.events ∧
      ((xs = [] ∧ messages hs <+: [.preamble, .thor .handshake] ∧ rc ≠ .success) ∨
        ∃ mode : ProtocolMode, messages hs = mode.handshakePackets ∧
          RunTurns mode cfg.dryRun rc xs) := by
  rw [runForDevice_eq] at h
  obtain ⟨first, opened, rest, rfl, hopen, hrest⟩ := executes_bind.mp h
  rw [executes_openDevice] at hopen
  subst hopen
  refine ⟨opened, ?_⟩
  cases opened with
  | false =>
      obtain ⟨rfl, rfl⟩ := hrest
      exact ⟨[], [], rfl, .inl ⟨rfl, List.nil_prefix, by simp⟩⟩
  | true =>
      obtain ⟨first, result, second, rfl, hhandshake, hconnected⟩ := executes_bind.mp hrest
      obtain ⟨hs, rfl, hinit, hmode⟩ := handshake_conducts {} first result hhandshake
      obtain ⟨ok, usb⟩ := result
      cases ok with
      | false =>
          obtain ⟨rfl, rfl⟩ := hconnected
          exact ⟨hs, [], by simp, .inl ⟨rfl, hinit, by simp⟩⟩
      | true =>
          obtain ⟨xs, rfl, hturns⟩ := connectedRun_turns host cfg usb second rc hconnected
          exact ⟨hs, xs, by simp, .inr ⟨usb.protocolMode, hmode rfl, hturns⟩⟩

end Session

end Odin4
