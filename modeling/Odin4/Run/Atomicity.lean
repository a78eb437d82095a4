import Odin4.Archive.RoundTrip
import Odin4.Archive.Survey
import Odin4.Run.Protocol

/-!
# Rejected runs

Archives are checked while they are flashed, so a rejected run may have written
to the device. What decides is whether the archives, surveyed with the PIT of
the device, are rejected only behind a member that can be transferred.
-/

namespace Odin4

open Interaction Program Dialogue

/-! ## Surveying all archives -/

section Archives

variable (usb : UsbDevice) (pitTable : PitTable) (allowUnknown : Bool)

def surveyArchives (host : Host) : List Bytes → (before : Bool) → Option (ExitCode × Bool)
  | [], before => some (.success, before)
  | path :: rest, before =>
      match surveyTarFile usb pitTable allowUnknown host path before with
      | none => none
      | some (code, transferred) =>
          if code ≠ .success then some (code, transferred)
          else surveyArchives host rest transferred

theorem processArchives_surveyed (hbegun : usb.Begun) (host : Host) (paths : List Bytes) :
    Surveyed (processArchives host usb pitTable true allowUnknown paths)
      (surveyArchives usb pitTable allowUnknown host paths) := by
  induction paths with
  | nil => exact surveyed_pure .success
  | cons path rest ih =>
      have htar := processTarFile_surveyed usb pitTable allowUnknown hbegun host path
      constructor
      · intro before
        refine conducts_bind (htar.predicts before) fun xs rc hxs => ?_
        split
        next hrc =>
          refine conducts_pure (hxs.imp_right fun h => ?_)
          rw [List.append_nil, surveyArchives, h]
          exact if_pos hrc
        next hrc =>
          obtain rfl : rc = .success := not_not.mp hrc
          have hsurvey := hxs.resolve_left (by simp)
          refine (ih.predicts (before || flashes xs)).mono fun ys code hys =>
            hys.imp_right fun h => ?_
          rw [surveyArchives, hsurvey, flashes_append, ← Bool.or_assoc]
          exact h
      · intro before code transferred hsurvey
        rw [surveyArchives] at hsurvey
        cases hfirst : surveyTarFile usb pitTable allowUnknown host path before with
        | none => simp [hfirst] at hsurvey
        | some outcome =>
            obtain ⟨rc, transferred'⟩ := outcome
            rw [hfirst] at hsurvey
            refine admits_bind (htar.attains before rc transferred' hfirst) fun xs rc' hrc' => ?_
            subst hrc'
            dsimp only at hsurvey
            split at hsurvey
            next hstop =>
              obtain ⟨rfl, -⟩ := Prod.mk.inj (Option.some.inj hsurvey)
              rw [if_pos hstop]
              exact admits_pure rfl
            next hgo =>
              rw [if_neg hgo]
              exact ih.attains transferred' code transferred hsurvey

end Archives

/-! ## Operations that flash nothing -/

def Quiet {α : Type} (program : Usb α) : Prop :=
  ∀ trace a, program.Executes trace a → (sent trace).any Packet.isFlashing = false

theorem Packet.not_isFlashing_of_isCheckTraffic {packet : Packet}
    (h : packet.isCheckTraffic = true) : packet.isFlashing = false := by
  cases packet with
  | preamble => rfl
  | data bytes => simp [isCheckTraffic] at h
  | thor packet => cases packet <;> simp_all [isCheckTraffic, isFlashing]
  | odin cmd subcmd payload =>
      have hcmd : cmd ≠ 0x66 := by
        rintro rfl
        simp [isCheckTraffic] at h
      simpa [isFlashing] using hcmd

section Quiet

variable {α β : Type}

theorem quiet_pure (a : α) : Quiet (pure a : Usb α) := by
  rintro _ _ ⟨rfl, -⟩
  rfl

theorem quiet_bind {program : Usb α} {f : α → Usb β} (hprogram : Quiet program)
    (hnext : ∀ a, Quiet (f a)) : Quiet (program >>= f) := by
  intro trace b hexec
  obtain ⟨first, a, second, rfl, hfirst, hsecond⟩ := executes_bind.mp hexec
  rw [sent_append, List.any_append, hprogram first a hfirst, hnext a second b hsecond]
  rfl

theorem quiet_ite {condition : Prop} [Decidable condition] {first second : Usb α}
    (hfirst : Quiet first) (hsecond : Quiet second) :
    Quiet (if condition then first else second) := by
  split
  · exact hfirst
  · exact hsecond

theorem quiet_exchanges {program : Usb α} {post : List Exchange → α → Prop}
    (h : Exchanges program post)
    (hcheck : ∀ xs a, post xs a → ∀ x ∈ xs, x.packet.isCheckTraffic = true) : Quiet program := by
  intro trace a hexec
  obtain ⟨xs, rfl, hpost⟩ := h trace a hexec
  rw [sent_exchanges, List.any_eq_false]
  intro packet hmem
  obtain ⟨x, hx, rfl⟩ := List.mem_map.mp hmem
  rw [Bool.not_eq_true]
  exact Packet.not_isFlashing_of_isCheckTraffic (hcheck xs a hpost x hx)

theorem quiet_keeping {words : Language Packet} {program : Usb α} {complete : α → Prop}
    (h : Keeping words program complete)
    (hwords : Over (fun packet => packet.isCheckTraffic = true) words) : Quiet program :=
  quiet_exchanges (h 0) fun _ _ hturns => orderly_over hturns hwords

theorem quiet_connect (cfg : OdinConfig) : Quiet (connect cfg) := by
  have hopen : Quiet (openDevice cfg.devicePath (criteriaFromConfig cfg)) := by
    intro trace ok hexec
    rw [executes_openDevice] at hexec
    subst hexec
    rfl
  have hhandshake : Quiet (handshake {}) := by
    refine quiet_exchanges (handshake_conducts {}) fun xs _ hxs x hx => ?_
    have hmem : x.packet ∈ [Packet.preamble, .thor .handshake] :=
      hxs.1.subset (List.mem_map_of_mem hx)
    simp only [List.mem_cons, List.not_mem_nil, or_false] at hmem
    obtain hpacket | hpacket := hmem <;> rw [hpacket] <;> rfl
  refine quiet_bind hopen fun opened => quiet_ite (quiet_pure _) (quiet_bind hhandshake fun shaken =>
    quiet_ite (quiet_pure _) (quiet_bind ?_ fun asked => quiet_ite (quiet_pure _) (quiet_pure _)))
  exact quiet_keeping (requestDeviceType_keeping _)
    ((over_deviceWords _).mono fun _ h => h.1)

theorem quiet_endSession (usb : UsbDevice) : Quiet (endSession usb) := by
  refine quiet_exchanges (endSession_single usb) fun xs ok hxs x hx => ?_
  obtain ⟨packet, -, hmem, z, rfl, rfl, -⟩ := hxs
  obtain rfl := List.mem_singleton.mp hx
  exact (over_endWords _ _ hmem x.packet (List.mem_singleton_self _)).1

theorem quiet_startSession (usb : UsbDevice) : Quiet (startSession usb) := by
  refine quiet_bind (quiet_keeping (beginSession_keeping usb)
    ((over_beginWords _).mono fun _ h => h.1)) fun begun => quiet_ite (quiet_pure _) ?_
  refine quiet_bind (quiet_keeping (requestPit_keeping _)
    ((over_pitWords _).mono fun _ h => h.1)) fun pit? => ?_
  cases pit? with
  | none => exact quiet_bind (quiet_endSession _) fun _ => quiet_pure _
  | some pit => exact quiet_pure _

end Quiet

/-! ## Begun sessions -/

theorem beginSession_begun (usb : UsbDevice) :
    Returns (fun result => result.1 = true → result.2.Begun) (beginSession usb) := by
  refine returns_ite (fun _ => returns_bind fun rsp? => ?_) fun hthor =>
    returns_bind fun ok => returns_pure fun _ hlegacy => absurd hlegacy hthor
  cases rsp? with
  | none => exact returns_pure (by simp)
  | some rsp =>
      refine returns_ite (fun _ => returns_pure (by simp)) fun _ => ?_
      exact returns_ite (fun _ => returns_pure fun _ _ => .inl ⟨rfl, rfl⟩) fun _ =>
        returns_bind fun ok => returns_pure fun _ _ => .inr ⟨rfl, rfl⟩

theorem startSession_begun (usb : UsbDevice) :
    Returns (fun result => ∀ usb pit, result = .ok (usb, pit) → usb.Begun) (startSession usb) := by
  refine returns_bind_of (beginSession_begun usb) fun result hbegun => ?_
  obtain ⟨ok, usb'⟩ := result
  cases ok with
  | false => exact returns_pure (by simp)
  | true =>
      refine returns_bind fun pit? => ?_
      cases pit? with
      | none => exact returns_bind fun _ => returns_pure (by simp)
      | some pit =>
          refine returns_pure fun usb'' pit' heq => ?_
          obtain ⟨rfl, -⟩ := Prod.mk.inj (Except.ok.inj heq)
          exact hbegun rfl

/-! ## Rejected runs -/

/-- A rejected archive, PIT or compatibility check. -/
def ExitCode.IsRejection (code : ExitCode) : Prop := code = .firmware ∨ code = .pit

instance (code : ExitCode) : Decidable code.IsRejection := inferInstanceAs (Decidable (_ ∨ _))

/-- Some device lets a run come to its archives with this state and this PIT. -/
def Starts (cfg : OdinConfig) (usb : UsbDevice) (pit : PitTable) : Prop :=
  ∃ first second connected, (connect cfg).Executes first (.ok connected) ∧
    (hasAnyFirmwareFiles cfg && !verifyFirmwareCompatibility cfg connected.deviceTypeStr) = false ∧
    (startSession connected).Executes second (.ok (usb, pit))

/-- The run has found its archives to be for this device, has begun a session with it
and has read this PIT. -/
def StartsSession (cfg : OdinConfig) (trace : UsbTrace) (usb : UsbDevice) (pit : PitTable) : Prop :=
  ∃ first second third connected, trace = first ++ (second ++ third) ∧
    (connect cfg).Executes first (.ok connected) ∧
    (hasAnyFirmwareFiles cfg && !verifyFirmwareCompatibility cfg connected.deviceTypeStr) = false ∧
    (startSession connected).Executes second (.ok (usb, pit))

/-- An entry is rejected behind a member that can be transferred, in the same
archive or in a later one. -/
def RejectsLate (host : Host) (cfg : OdinConfig) (usb : UsbDevice) (pit : PitTable) : Prop :=
  ∃ code, code.IsRejection ∧
    surveyArchives usb pit cfg.allowUnknown host (archives cfg) false = some (code, true)

theorem Starts.begun {cfg : OdinConfig} {usb : UsbDevice} {pit : PitTable}
    (h : Starts cfg usb pit) : usb.Begun := by
  obtain ⟨first, second, connected, -, -, hsession⟩ := h
  exact startSession_begun connected second _ hsession usb pit rfl

theorem StartsSession.starts {cfg : OdinConfig} {trace : UsbTrace} {usb : UsbDevice}
    {pit : PitTable} (h : StartsSession cfg trace usb pit) : Starts cfg usb pit := by
  obtain ⟨first, second, third, connected, -, hconnect, hfits, hsession⟩ := h
  exact ⟨first, second, connected, hconnect, hfits, hsession⟩

section Runs

variable {host : Host} {cfg : OdinConfig}

/-- A rejected run flashes only where a member stands in front of the rejection. -/
theorem runSession_rejected (hflash : cfg.dryRun = false) {usb : UsbDevice} {pit : PitTable}
    (hbegun : usb.Begun) (hearly : ¬ RejectsLate host cfg usb pit) {trace : UsbTrace} {rc : ExitCode}
    (h : (runSession host cfg usb pit).Executes trace rc) (hrc : rc.IsRejection) :
    (sent trace).any Packet.isFlashing = false := by
  have hsurveyed := processArchives_surveyed usb pit cfg.allowUnknown
    hbegun host (archives cfg)
  unfold runSession at h
  rw [hflash] at h
  obtain ⟨first, code, second, rfl, hfirst, hsecond⟩ := executes_bind.mp h
  obtain ⟨xs, rfl, hpredicted⟩ := hsurveyed.predicts false first code hfirst
  split at hsecond
  next hfailed =>
    obtain ⟨closing, ok, last, rfl, hclosing, rfl, rfl⟩ := executes_bind.mp hsecond
    rw [sent_append, sent_append, List.any_append, List.any_append,
      quiet_endSession usb closing ok hclosing, sent_exchanges]
    obtain rfl | hsurvey := hpredicted
    · rcases hrc with hrc | hrc <;> cases hrc
    · rw [Bool.false_or] at hsurvey
      cases hflashes : flashes xs with
      | true => exact absurd ⟨rc, hrc, hflashes ▸ hsurvey⟩ hearly
      | false =>
          unfold flashes at hflashes
          rw [hflashes]
          rfl
  next =>
    -- Behind the archives a run fails with a protocol error or succeeds.
    have hlate : Returns (fun rc => ¬ rc.IsRejection) (do
        if !(false : Bool) then
          if !(← sendControls cfg usb) then
            let _ ← endSession usb
            return ExitCode.protocol
        if !(← endSession usb) then return ExitCode.protocol
        return ExitCode.success : Usb ExitCode) := by
      have hclose : Returns (fun rc => ¬ rc.IsRejection) (do
          if !(← endSession usb) then return ExitCode.protocol
          return ExitCode.success : Usb ExitCode) :=
        returns_bind fun ok => returns_ite (fun _ => returns_pure (by decide)) fun _ =>
          returns_pure (by decide)
      refine returns_ite (fun _ => returns_bind fun ok => returns_ite (fun _ => ?_) fun _ => hclose)
        fun _ => hclose
      exact returns_bind fun _ => returns_pure (by decide)
    exact absurd hrc (hlate _ _ hsecond)

/-- Where an entry is rejected late, some device makes a rejected run flash. -/
theorem rejectsLate_flashes (hflash : cfg.dryRun = false) {usb : UsbDevice} {pit : PitTable}
    (hstarts : Starts cfg usb pit) (hlate : RejectsLate host cfg usb pit) :
    ∃ trace rc, (runForDevice host cfg).Executes trace rc ∧ StartsSession cfg trace usb pit ∧
      rc.IsRejection ∧ (sent trace).any Packet.isFlashing = true := by
  have hsurveyed := processArchives_surveyed usb pit cfg.allowUnknown
    hstarts.begun host (archives cfg)
  obtain ⟨code, hcode, hsurvey⟩ := hlate
  obtain ⟨xs, rc, hexec, rfl, hpredicted⟩ :=
    (hsurveyed.attains false code true hsurvey).and (hsurveyed.predicts false)
  have hne : rc ≠ .protocol ∧ rc ≠ .success := by
    constructor <;> rintro rfl <;> exact absurd hcode (by decide)
  have hflashes : flashes xs = true := by
    have hresult := hsurvey.symm.trans (hpredicted.resolve_left hne.1)
    simpa using (Prod.mk.inj (Option.some.inj hresult)).2.symm
  obtain ⟨first, second, connected, hconnect, hcompatible, hsession⟩ := hstarts
  obtain ⟨closing, ok, hclosing⟩ : ∃ closing ok, (endSession usb).Executes closing ok :=
    ⟨_, _, executes_run thorDevice [] _⟩
  refine ⟨first ++ (second ++ (xs.flatMap Exchange.events ++ (closing ++ []))), rc, ?_,
    ⟨first, second, _, connected, rfl, hconnect, hcompatible, hsession⟩, hcode, ?_⟩
  · refine executes_bind.mpr ⟨first, _, _, rfl, hconnect, ?_⟩
    dsimp only
    rw [hcompatible, if_neg Bool.false_ne_true]
    refine executes_bind.mpr ⟨second, _, _, rfl, hsession, ?_⟩
    dsimp only
    unfold runSession
    rw [hflash]
    refine executes_bind.mpr ⟨_, rc, _, rfl, hexec, ?_⟩
    rw [if_pos hne.2]
    exact executes_bind.mpr ⟨_, _, _, rfl, hclosing, rfl, rfl⟩
  · have hsent : (messages xs).any Packet.isFlashing = true := hflashes
    simp only [sent_append, List.any_append, sent_exchanges, hsent, Bool.true_or, Bool.or_true]

/-- A run flashes nothing unless it comes to its archives. -/
theorem quiet_or_starts {trace : UsbTrace} {rc : ExitCode}
    (hexec : (runForDevice host cfg).Executes trace rc) :
    (sent trace).any Packet.isFlashing = false ∨ ∃ usb pit, StartsSession cfg trace usb pit := by
  obtain ⟨first, result, rest, rfl, hconnect, hrest⟩ := executes_bind.mp hexec
  have hfirst := quiet_connect cfg first result hconnect
  cases result with
  | error code =>
      obtain ⟨rfl, -⟩ := hrest
      exact .inl (by rwa [List.append_nil])
  | ok connected =>
      dsimp only at hrest
      split at hrest
      next =>
        obtain ⟨rfl, -⟩ := hrest
        exact .inl (by rwa [List.append_nil])
      next hcompatible =>
        obtain ⟨second, result, third, rfl, hsession, hthird⟩ := executes_bind.mp hrest
        cases result with
        | error code =>
            obtain ⟨rfl, -⟩ := hthird
            left
            rw [List.append_nil, sent_append, List.any_append, hfirst,
              quiet_startSession connected second _ hsession]
            rfl
        | ok started =>
            exact .inr ⟨started.1, started.2, first, second, third, connected, rfl, hconnect,
              Bool.not_eq_true _ ▸ hcompatible, hsession⟩

/-- A rejected run that has come to its archives flashes nothing, unless they are
rejected late by its PIT. -/
theorem StartsSession.rejected {trace : UsbTrace} {rc : ExitCode} {usb : UsbDevice}
    {pit : PitTable} (h : StartsSession cfg trace usb pit) (hflash : cfg.dryRun = false)
    (hexec : (runForDevice host cfg).Executes trace rc) (hrc : rc.IsRejection)
    (hearly : ¬ RejectsLate host cfg usb pit) : (sent trace).any Packet.isFlashing = false := by
  have hbegun := h.starts.begun
  obtain ⟨first, second, third, connected, rfl, hconnect, hfits, hsession⟩ := h
  have hrest := hconnect.behind hexec
  dsimp only at hrest
  rw [hfits, if_neg Bool.false_ne_true] at hrest
  have hthird := hsession.behind hrest
  rw [sent_append, sent_append, List.any_append, List.any_append,
    quiet_connect cfg first _ hconnect, quiet_startSession connected second _ hsession,
    runSession_rejected hflash hbegun hearly hthird hrc]
  rfl

/-- Rejected runs leave the partitions alone, whatever the device does, if and
only if no archive is rejected behind a member that can be transferred. The same holds
of the runs that come to their archives with one state of the device and one PIT. -/
theorem rejected_runs_flash_nothing_iff (hflash : cfg.dryRun = false) :
    ((∀ trace rc, (runForDevice host cfg).Executes trace rc → rc.IsRejection →
      (sent trace).any Packet.isFlashing = false) ↔
    ∀ usb pit, Starts cfg usb pit → ¬ RejectsLate host cfg usb pit) ∧
    ∀ usb pit, Starts cfg usb pit →
      ((∀ trace rc, (runForDevice host cfg).Executes trace rc →
        StartsSession cfg trace usb pit → rc.IsRejection →
          (sent trace).any Packet.isFlashing = false) ↔
      ¬ RejectsLate host cfg usb pit) := by
  refine ⟨⟨fun hquiet usb pit hstarts hlate => ?_, fun hearly trace rc hexec hrc => ?_⟩,
    fun usb pit hstarts => ⟨fun hquiet hlate => ?_, fun hearly trace rc hexec hsession hrc => ?_⟩⟩
  · obtain ⟨trace, rc, hexec, -, hrc, hflashes⟩ := rejectsLate_flashes hflash hstarts hlate
    rw [hquiet trace rc hexec hrc] at hflashes
    cases hflashes
  · rcases quiet_or_starts hexec with hquiet | ⟨usb, pit, hsession⟩
    · exact hquiet
    · exact hsession.rejected hflash hexec hrc (hearly usb pit hsession.starts)
  · obtain ⟨trace, rc, hexec, hsession, hrc, hflashes⟩ := rejectsLate_flashes hflash hstarts hlate
    rw [hquiet trace rc hexec hsession hrc] at hflashes
    cases hflashes
  · exact hsession.rejected hflash hexec hrc hearly

end Runs

/-! ## An image in front of a stray file -/

/-- The table of `bootPit`. -/
def bootTable : PitTable := pitOf [namedEntry 1 (ascii "BOOT") (ascii "boot.img")]

def strayMember : TarMember :=
  .whole (⟨by decide, by decide, by decide +kernel⟩ : UsableName (ascii "stray.img")) (by decide)
    length_no_data

/-- An image of the boot partition and a file without a partition. -/
def strayArchive : FileContent :=
  ⟨tarArchive [bootMember, strayMember], by decide +kernel⟩

/-- The same in the other order. -/
def strayFirstArchive : FileContent :=
  ⟨tarArchive [strayMember, bootMember], by decide +kernel⟩

/-- The run that `thorDevice` lets come to its archive. -/
theorem starts_thorDevice : Starts { ap := ascii "firmware.tar" } {} bootTable := by
  have hconnect : ((connect { ap := ascii "firmware.tar" }).run thorDevice []).2 = .ok {} := by
    decide +kernel
  have hsession : ((startSession {}).run thorDevice []).2 = .ok ({}, bootTable) := by
    decide +kernel
  exact ⟨_, _, {}, hconnect ▸ executes_run thorDevice [] _, by decide,
    hsession ▸ executes_run thorDevice [] _⟩

/-- Where the stray file comes first, nothing has been flashed when it is rejected. -/
theorem rejected_runs_flash_nothing_iff_strayFirst :
    ((runForDevice (archiveHost strayFirstArchive) { ap := ascii "firmware.tar" }).run
      thorDevice []).2 = .pit ∧
    ∀ trace rc, (runForDevice (archiveHost strayFirstArchive)
        { ap := ascii "firmware.tar" }).Executes trace rc →
      StartsSession { ap := ascii "firmware.tar" } trace {} bootTable → rc.IsRejection →
        (sent trace).any Packet.isFlashing = false := by
  refine ⟨by decide +kernel,
    ((rejected_runs_flash_nothing_iff rfl).2 {} bootTable starts_thorDevice).mpr ?_⟩
  rintro ⟨code, -, hsurvey⟩
  have hearly : surveyArchives {} bootTable false (archiveHost strayFirstArchive)
      (archives { ap := ascii "firmware.tar" }) false = some (.pit, false) := by decide +kernel
  cases hearly.symm.trans hsurvey

/-- The boot image is flashed before the file behind it is rejected. -/
theorem flashed_before_rejection :
    ¬ ∀ (host : Host) (cfg : OdinConfig), cfg.dryRun = false → ∀ trace rc,
      (runForDevice host cfg).Executes trace rc → rc.IsRejection →
      (sent trace).any Packet.isFlashing = false := by
  intro h
  have hlate : RejectsLate (archiveHost strayArchive) { ap := ascii "firmware.tar" } {}
      bootTable := ⟨.pit, .inr rfl, by decide +kernel⟩
  obtain ⟨trace, rc, hexec, -, hrc, hflashes⟩ := rejectsLate_flashes rfl starts_thorDevice hlate
  rw [h _ _ rfl trace rc hexec hrc] at hflashes
  simp at hflashes

end Odin4
