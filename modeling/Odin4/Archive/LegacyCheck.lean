import Odin4.Archive.CheckOnly
import Odin4.Archive.FlashDialogue

/-!
# Checking for a legacy device

A legacy transfer takes raw images of at least one byte. A check accepts more:
it decodes LZ4 members and passes over empty images. Where all members of a
checked archive are of the first kind, flashing succeeds on a legacy device
that accepts everything.
-/

namespace Odin4

open Interaction Program Dialogue

/-- A raw image with something in it. -/
def Member.Plain (member : Member) : Prop := member.isLz4 = false ∧ member.dataSize ≠ 0

instance (member : Member) : Decidable member.Plain := inferInstanceAs (Decidable (_ ∧ _))

def AllPlain (visits : List Visit) : Prop :=
  ∀ visit ∈ visits, ∀ member ∈ visit.member?, member.Plain

theorem allPlain_unmatched (step : HeaderStep) : AllPlain (step.visits none) := by
  cases step <;> simp [AllPlain, HeaderStep.visits]

theorem allPlain_append {here rest : List Visit} :
    AllPlain (here ++ rest) ↔ AllPlain here ∧ AllPlain rest := by
  simp only [AllPlain, List.mem_append, or_imp, forall_and]

/-! ## Members -/

section Members

variable {dec : Lz4Decoder} {usb : UsbDevice} {member : Member} {file : FileStream}

/-- Every size that a header can hold is in the range of the protocol. -/
theorem legacyFits_headerSize (hparameters : LegacyParameters usb) {size : Nat} (hsize : size ≠ 0)
    (hlt : size < 8 ^ 12) : LegacyFits usb size := by
  refine legacyFits_of_le hparameters.layout (Nat.pos_of_ne_zero hsize) ?_
  have hbytes : sequenceBytes usb = 31457280 := by
    obtain ⟨hpacket, hcount⟩ | ⟨hpacket, hcount⟩ := hparameters <;>
      rw [sequenceBytes, hpacket, hcount]
  rw [hbytes]
  omega

variable (hlegacy : usb.isOdinLegacy = true) (hparameters : LegacyParameters usb)

include hlegacy hparameters

theorem transferMember_legacy (hok : file.failed = false)
    (hend : file.pos + member.dataSize ≤ file.file.bytes.length) (hsize : member.dataSize < 8 ^ 12)
    (s : UInt32) :
    Exchanges (transferMember dec usb true member file) fun xs result =>
      (AllAccepted s xs → member.Plain → result = .ok (file.advance member.dataSize)) ∧
        (¬ member.Plain → result = .error .protocol) := by
  unfold transferMember Member.Plain
  cases hlz4 : member.isLz4 with
  | true =>
      simp only [hlegacy, Bool.true_and, ↓reduceIte]
      exact conducts_pure ⟨fun _ hplain => absurd hplain.1 (by simp), fun _ => rfl⟩
  | false =>
      have hlimit := file.file.size_lt
      simp only [Bool.false_eq_true, ↓reduceIte]
      unfold flashPartitionStream
      rw [if_pos hlegacy]
      refine conducts_bind ((flashLegacyStream_conducts usb member.pitEntry member.dataSize file s).and
        (flashLegacyStream_success hparameters file (by omega) member.pitEntry))
        fun xs result hxs => ?_
      obtain ⟨⟨-, -, hgave⟩, hdone⟩ := hxs
      obtain ⟨sentAll, file'⟩ := result
      cases sentAll with
      | false =>
          refine conducts_pure ⟨fun hall hplain => ?_, fun _ => rfl⟩
          rw [List.append_nil] at hall
          obtain hrefused | hfailed | hshort :=
            hgave rfl (legacyFits_headerSize hparameters hplain.2 hsize)
          · exact absurd hall hrefused
          · simp [hok] at hfailed
          · rw [FileStream.length_rest] at hshort
            omega
      | true =>
          obtain ⟨hfits, -, hfile, -⟩ := hdone rfl
          refine conducts_pure ⟨fun _ _ => congrArg Except.ok hfile, fun hempty => ?_⟩
          have hone := (hfits.bounds hparameters.layout (by omega)).1
          exact absurd ⟨trivial, by omega⟩ hempty

theorem processMember_legacy {state : WalkState} (hok : state.file.failed = false)
    (hend : state.file.pos + member.dataSize ≤ state.file.file.bytes.length)
    (hsize : member.dataSize < 8 ^ 12) (s : UInt32) :
    Exchanges (processMember dec usb true member state) fun xs result =>
      (AllAccepted s xs → member.Plain → result = checkEntry dec member state) ∧
        (¬ member.Plain → result = .error .protocol) := by
  unfold processMember
  refine conducts_bind (transferMember_legacy hlegacy hparameters hok hend hsize s)
    fun xs result hxs => ?_
  obtain ⟨hplain, hother⟩ := hxs
  have hcheck : member.Plain → checkEntry dec member state =
      leaveMember member state (state.file.advance member.dataSize) := by
    intro hraw
    rw [checkEntry, checkMember_raw hraw.1 hok hend]
  cases result with
  | error code =>
      refine conducts_pure ⟨fun hall hraw => ?_, fun hraw => ?_⟩
      · rw [List.append_nil] at hall
        simpa using hplain hall hraw
      · exact congrArg Except.error (Except.error.inj (hother hraw))
  | ok file' =>
      have hnext : Exchanges (endFileTransfer usb member.pitEntry.identifier) fun _ ok =>
          ok = true := by
        unfold endFileTransfer
        rw [if_pos hlegacy]
        exact conducts_pure rfl
      dsimp only
      split
      next hbeyond =>
        refine conducts_pure ⟨fun hall hraw => ?_, fun hraw => by simpa using hother hraw⟩
        rw [List.append_nil] at hall
        obtain rfl := Except.ok.inj (hplain hall hraw)
        rw [hcheck hraw, leaveMember, if_pos hbeyond]
      next hgood =>
        simp only [↓reduceIte]
        refine conducts_bind hnext fun ys ok hok => ?_
        subst hok
        refine conducts_pure ⟨fun hall hraw => ?_, fun hraw => by simpa using hother hraw⟩
        rw [List.append_nil] at hall
        obtain rfl := Except.ok.inj (hplain hall.left hraw)
        rw [hcheck hraw, leaveMember, if_neg hgood]

end Members

/-! ## Walks -/

section Walks

variable {dec : Lz4Decoder} {usb : UsbDevice} {checked flashed : Walk} {here : List Visit}

/-- Where the check succeeds, the flashing walk succeeds over plain members, and
is refused otherwise. -/
structure PlainSucceeds (checked flashed : Walk) : Prop where
  plain : checked.code = .success → AllPlain checked.visits → flashed.code = .success
  other : checked.code = .success → ¬ AllPlain checked.visits → flashed.code = .protocol

theorem PlainSucceeds.same {walk : Walk} (h : AllPlain walk.visits) : PlainSucceeds walk walk :=
  ⟨fun hsuccess _ => hsuccess, fun _ hnot => absurd h hnot⟩

theorem PlainSucceeds.after (h : PlainSucceeds checked flashed) (hhere : AllPlain here) :
    PlainSucceeds (Walk.after here checked) (Walk.after here flashed) where
  plain hsuccess hall := h.plain hsuccess (allPlain_append.mp hall).2
  other hsuccess hnot :=
    h.other hsuccess fun hrest => hnot (allPlain_append.mpr ⟨hhere, hrest⟩)

/-- At a member that is not plain the flashing walk is refused. -/
theorem plainSucceeds_refused {visit : Visit} {member : Member}
    (hmember : visit.member? = some member) (hother : ¬ member.Plain)
    (entry : Except ExitCode WalkState) (rest : WalkState → Walk) :
    PlainSucceeds (Walk.behind visit entry rest) ⟨[visit], .protocol⟩ := by
  have hvisits : ¬ AllPlain (Walk.behind visit entry rest).visits := by
    intro hall
    have hhere : visit ∈ (Walk.behind visit entry rest).visits := by
      cases entry with
      | error code => exact List.mem_singleton_self visit
      | ok next => exact List.mem_append_left _ (List.mem_singleton_self visit)
    exact hother (hall visit hhere member hmember)
  exact ⟨fun _ hall => absurd hall hvisits, fun _ _ => rfl⟩

theorem relatedTurns_plainSucceeds (hlegacy : usb.isOdinLegacy = true)
    (hparameters : LegacyParameters usb) (file : FileContent) :
    RelatedTurns dec usb file PlainSucceeds where
  unmatched step _ := .same (allPlain_unmatched step)
  after step _ _ h := h.after (allPlain_unmatched step)
  member {visit member state} s hahead := by
    refine (processMember_legacy hlegacy hparameters hahead.good hahead.within hahead.size_lt
      s).mono fun xs result hxs hall => ?_
    obtain ⟨hplain, hother⟩ := hxs
    by_cases hmember : member.Plain
    · have hvisit : AllPlain [visit] := by simpa [AllPlain, hahead.member_eq] using hmember
      cases result with
      | error code =>
          intro rest
          rw [← hplain hall hmember]
          exact .same hvisit
      | ok last => exact ⟨(hplain hall hmember).symm, fun checked flashed h => h.after hvisit⟩
    · obtain rfl := hother hmember
      exact plainSucceeds_refused hahead.member_eq hmember _

end Walks

/-! ## Archives -/

/-- If the check of an archive succeeds and everything is accepted, a legacy
device is flashed successfully, provided that all members are raw images with
something in them. An LZ4 member is refused in legacy mode. -/
theorem legacy_flash_after_check {host : Host} {tarPath : Bytes} {usb : UsbDevice}
    {pitTable : PitTable} {allowUnknown : Bool} (hlegacy : usb.protocolMode = .odinLegacy)
    (hparameters : LegacyParameters usb)
    (hchecked : processTarFile host tarPath usb pitTable false allowUnknown = pure .success)
    {xs : List Exchange} {flashed : ExitCode}
    (hexec : (processTarFile host tarPath usb pitTable true allowUnknown).Executes
      (xs.flatMap Exchange.events) flashed)
    (hall : AllAccepted 0 xs) :
    ∃ visits,
      visitTarFile usb pitTable false allowUnknown host tarPath = pure ⟨visits, .success⟩ ∧
      (AllPlain visits → flashed = .success) ∧
      ((∃ visit ∈ visits, ∃ member ∈ visit.member?, member.isLz4 = true) →
        flashed = .protocol) := by
  have hmode : usb.isOdinLegacy = true := by simp [UsbDevice.isOdinLegacy, hlegacy]
  obtain ⟨visits, hwalk⟩ := executes_visitTarFile usb pitTable true allowUnknown hexec
  rw [processTarFile_check] at hchecked
  have hsuccess : (checkTarFile pitTable allowUnknown host tarPath).code = .success :=
    Program.done.inj hchecked
  refine ⟨(checkTarFile pitTable allowUnknown host tarPath).visits, ?_, ?_⟩
  · rw [visitTarFile_check, ← hsuccess]
  have hflashed : (AllPlain (checkTarFile pitTable allowUnknown host tarPath).visits →
      flashed = .success) ∧
      (¬ AllPlain (checkTarFile pitTable allowUnknown host tarPath).visits →
        flashed = .protocol) := by
    unfold checkTarFile visitTarFile at *
    cases hopen : openArchive host tarPath with
    | error code =>
        rw [hopen] at hwalk hsuccess
        obtain ⟨-, hwalk⟩ := hwalk
        obtain ⟨rfl, rfl⟩ := Walk.mk.inj hwalk
        exact ⟨fun _ => hsuccess, fun hnot => absurd (by simp [AllPlain]) hnot⟩
    | ok opened =>
        obtain ⟨stream, contentEnd⟩ := opened
        obtain ⟨file, hfile, rfl, -, hend⟩ := openArchive_ok hopen
        rw [hopen] at hwalk hsuccess
        obtain ⟨ys, hys, hagree⟩ := visitLoop_related
          (relatedTurns_plainSucceeds hmode hparameters file) (fun _ => hparameters) hend
          (memberFuel contentEnd) rfl 0 _ _ hwalk
        obtain rfl := exchanges_injective hys
        exact ⟨(hagree hall).plain hsuccess, (hagree hall).other hsuccess⟩
  -- An LZ4 member is never plain.
  refine ⟨hflashed.1, ?_⟩
  rintro ⟨visit, hvisit, member, hmember, hlz4⟩
  refine hflashed.2 fun hplain => ?_
  simp [(hplain visit hvisit member hmember).1] at hlz4

/-- An archive with the single image `boot.img` passes the check and is flashed. -/
theorem legacy_flash_after_check_boot : ∃ xs : List Exchange,
    (processTarFile (archiveHost bootArchive) (ascii "firmware.tar") legacyDevice firmwarePit true
      false).Executes (xs.flatMap Exchange.events) .success ∧ AllAccepted 0 xs ∧
    ∃ visits,
      visitTarFile legacyDevice firmwarePit false false (archiveHost bootArchive)
        (ascii "firmware.tar") = pure ⟨visits, .success⟩ ∧
      (AllPlain visits → ExitCode.success = .success) ∧
      ((∃ visit ∈ visits, ∃ member ∈ visit.member?, member.isLz4 = true) →
        ExitCode.success = .protocol) := by
  have hchecked : (checkTarFile firmwarePit false (archiveHost bootArchive)
      (ascii "firmware.tar")).code = .success := by decide +kernel
  have hsurvey : surveyTarFile legacyDevice firmwarePit false (archiveHost bootArchive)
      (ascii "firmware.tar") false = some (.success, true) := by decide +kernel
  generalize archiveHost bootArchive = host at hchecked hsurvey ⊢
  obtain ⟨xs, code, hexec, rfl⟩ :=
    (processTarFile_surveyed legacyDevice firmwarePit false (fun _ => legacyDevice_parameters) host
      (ascii "firmware.tar")).attains false .success true hsurvey
  obtain ⟨ys, hys, horderly⟩ := processTarFile_flash legacyDevice host (ascii "firmware.tar")
    firmwarePit false 0 _ _ hexec
  obtain rfl := exchanges_injective hys
  have hall := (horderly.whole rfl).1
  refine ⟨xs, hexec, hall, legacy_flash_after_check rfl legacyDevice_parameters ?_ hexec hall⟩
  rw [processTarFile_check, hchecked]

/-- An LZ4 image passes the check, but LZ4 images are not flashed in legacy mode. -/
theorem packed_image_not_flashed :
    ¬ ∀ (host : Host) (tarPath : Bytes) (usb : UsbDevice) (pitTable : PitTable)
      (allowUnknown : Bool), usb.protocolMode = .odinLegacy → LegacyParameters usb →
      processTarFile host tarPath usb pitTable false allowUnknown = pure .success →
      ∀ (xs : List Exchange) (flashed : ExitCode),
        (processTarFile host tarPath usb pitTable true allowUnknown).Executes
          (xs.flatMap Exchange.events) flashed → AllAccepted 0 xs → flashed = .success := by
  intro h
  have hchecked : (checkTarFile firmwarePit false (archiveHost packedArchive)
      (ascii "firmware.tar")).code = .success := by decide +kernel
  have hrun : ((processTarFile (archiveHost packedArchive) (ascii "firmware.tar") legacyDevice
        firmwarePit true false).run (answeringDevice fun _ _ => []) []).1.isEmpty = true ∧
      ((processTarFile (archiveHost packedArchive) (ascii "firmware.tar") legacyDevice
        firmwarePit true false).run (answeringDevice fun _ _ => []) []).2 = .protocol := by
    decide +kernel
  generalize archiveHost packedArchive = host at hchecked hrun
  have hexec := executes_run (answeringDevice fun _ _ => []) []
    (processTarFile host (ascii "firmware.tar") legacyDevice firmwarePit true false)
  rw [List.isEmpty_iff.mp hrun.1, hrun.2] at hexec
  have hcheck : processTarFile host (ascii "firmware.tar") legacyDevice firmwarePit false false =
      pure .success := by
    rw [processTarFile_check, hchecked]
  have hsuccess := h host _ _ _ _ rfl legacyDevice_parameters hcheck [] _ hexec trivial
  simp at hsuccess

end Odin4
