import Odin4.Archive.LegacyCheck

/-!
# Archives that pass

Whether an archive can be flashed does not depend on the device, as long as it
accepts everything: it is flashed exactly if its check succeeds and, in legacy mode,
all of its members are raw images with something in them.
-/

namespace Odin4

open Interaction Program Dialogue

/-- The check of the archive succeeds, and a legacy device that is to be flashed can
take all members. -/
def Passes (host : Host) (usb : UsbDevice) (pitTable : PitTable) (doFlash allowUnknown : Bool)
    (tarPath : Bytes) : Prop :=
  (checkTarFile pitTable allowUnknown host tarPath).code = .success ∧
    (doFlash = true → usb.protocolMode = .odinLegacy →
      AllPlain (checkTarFile pitTable allowUnknown host tarPath).visits)

/-! ## Legacy mode -/

section Legacy

variable {dec : Lz4Decoder} {usb : UsbDevice} {checked flashed : Walk} {here : List Visit}

/-- The flashing walk succeeds exactly where the check does over plain members. -/
def PlainAgrees (checked flashed : Walk) : Prop :=
  flashed.code = .success ↔ checked.code = .success ∧ AllPlain checked.visits

theorem PlainAgrees.same {walk : Walk} (h : AllPlain walk.visits) : PlainAgrees walk walk :=
  ⟨fun hsuccess => ⟨hsuccess, h⟩, fun hboth => hboth.1⟩

theorem PlainAgrees.after (h : PlainAgrees checked flashed) (hhere : AllPlain here) :
    PlainAgrees (Walk.after here checked) (Walk.after here flashed) := by
  refine h.trans (and_congr_right fun _ => ?_)
  exact ⟨fun hrest => allPlain_append.mpr ⟨hhere, hrest⟩, fun hall => (allPlain_append.mp hall).2⟩

theorem Walk.mem_behind (visit : Visit) (entry : Except ExitCode WalkState)
    (rest : WalkState → Walk) : visit ∈ (Walk.behind visit entry rest).visits := by
  cases entry with
  | error code => exact List.mem_singleton_self visit
  | ok next => exact List.mem_append_left _ (List.mem_singleton_self visit)

theorem relatedTurns_plainAgrees (hlegacy : usb.isOdinLegacy = true)
    (hparameters : LegacyParameters usb) (file : FileContent) :
    RelatedTurns dec usb file PlainAgrees where
  unmatched step _ := .same (allPlain_unmatched step)
  after step _ _ h := h.after (allPlain_unmatched step)
  member {visit member state} s hahead := by
    refine (processMember_legacy hlegacy hparameters hahead.good hahead.within hahead.size_lt
      s).mono fun xs result hxs hall => ?_
    obtain ⟨hplain, hother⟩ := hxs
    by_cases hmember : member.Plain
    · have hvisit : AllPlain [visit] := by simpa [AllPlain, hahead.member_eq] using hmember
      cases result with
      | error code =>
          intro rest
          rw [← hplain hall hmember]
          exact .same hvisit
      | ok last => exact ⟨(hplain hall hmember).symm, fun checked flashed h => h.after hvisit⟩
    · -- The check may go on here, but over a member that is not plain.
      obtain rfl := hother hmember
      refine fun rest => iff_of_false (by simp) fun hboth => ?_
      exact hmember (hboth.2 visit (Walk.mem_behind visit _ rest) member hahead.member_eq)

end Legacy

/-! ## Archives -/

section Archives

variable {usb : UsbDevice} {pitTable : PitTable} {allowUnknown : Bool}

/-- An archive that is flashed while everything is accepted. -/
theorem processTarFile_flashed (hbegun : usb.Begun) (host : Host) (tarPath : Bytes) (s : UInt32) :
    Exchanges (processTarFile host tarPath usb pitTable true allowUnknown) fun xs code =>
      AllAccepted s xs →
        (code = .success ↔ Passes host usb pitTable true allowUnknown tarPath) := by
  intro trace code hexec
  obtain ⟨ys, rfl, -⟩ := processTarFile_flash usb host tarPath pitTable allowUnknown s _ _ hexec
  refine ⟨ys, rfl, fun hall => ?_⟩
  obtain ⟨visits, hwalk⟩ := executes_visitTarFile usb pitTable true allowUnknown hexec
  unfold Passes checkTarFile
  unfold visitTarFile at hwalk
  cases hopen : openArchive host tarPath with
  | error refused =>
      rw [hopen] at hwalk
      obtain ⟨-, hwalk⟩ := hwalk
      obtain ⟨-, rfl⟩ := Walk.mk.inj hwalk
      simp [AllPlain]
  | ok opened =>
      obtain ⟨stream, contentEnd⟩ := opened
      obtain ⟨file, -, rfl, -, hend⟩ := openArchive_ok hopen
      rw [hopen] at hwalk
      dsimp only at hwalk ⊢
      -- The walks agree everywhere in Thor mode, over plain members in legacy mode.
      cases hlegacy : usb.isOdinLegacy with
      | false =>
          obtain ⟨xs, hxs, hagree⟩ := visitLoop_related (relatedTurns_agrees hlegacy) hbegun hend
            (memberFuel contentEnd) rfl s _ _ hwalk
          obtain rfl := exchanges_injective hxs
          have hmode := protocolMode_of_isOdinLegacy hlegacy
          simp [hmode, (hagree hall).success_iff]
      | true =>
          obtain ⟨xs, hxs, hagree⟩ := visitLoop_related (relatedTurns_plainAgrees hlegacy
            (hbegun hlegacy) file) hbegun hend (memberFuel contentEnd) rfl s _ _ hwalk
          obtain rfl := exchanges_injective hxs
          have hmode : usb.protocolMode = .odinLegacy := by
            simpa [UsbDevice.isOdinLegacy] using hlegacy
          refine (hagree hall).trans (and_congr_right fun _ => ?_)
          simp [hmode]

/-- Whether it is flashed or only checked, an archive succeeds exactly if it passes. -/
theorem processTarFile_passes (hbegun : usb.Begun) (host : Host) (doFlash : Bool)
    (tarPath : Bytes) (s : UInt32) :
    Exchanges (processTarFile host tarPath usb pitTable doFlash allowUnknown) fun xs code =>
      AllAccepted s xs →
        (code = .success ↔ Passes host usb pitTable doFlash allowUnknown tarPath) := by
  cases doFlash with
  | true => exact processTarFile_flashed hbegun host tarPath s
  | false =>
      rw [processTarFile_check]
      exact conducts_pure fun _ => by simp [Passes]

end Archives

end Odin4
