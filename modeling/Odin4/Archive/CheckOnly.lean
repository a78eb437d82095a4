import Odin4.Archive.FlashDialogue
import Odin4.Archive.RoundTrip
import Odin4.Archive.Visits

/-!
# Checking and flashing

A check-only walk against a flashing walk over the same archive, with a device
that accepts everything. In Thor mode both visit the same headers and find the
same members; only the exit code of a failed LZ4 member differs.
-/

namespace Odin4

open Interaction Program Dialogue

/-! ## Members in Thor mode -/

section Members

variable {dec : Lz4Decoder} {usb : UsbDevice} {member : Member} {file : FileStream}

/-- Raw data that lie within the file pass the check. -/
theorem checkMember_raw (hraw : member.isLz4 = false) (hok : file.failed = false)
    (hend : file.pos + member.dataSize ≤ file.file.bytes.length) :
    checkMember dec member file = .ok (file.advance member.dataSize) := by
  have hsize := file.file.size_lt
  unfold checkMember
  rw [if_neg (by simp [hraw]), FileStream.toStreamoff_of_lt (by omega),
    FileStream.seekCur_nat hok (by omega)]
  simp [hok]

/-- The check of an LZ4 member has failed, and so has its transfer. -/
def FailedLz4 (dec : Lz4Decoder) (member : Member) (file : FileStream) : Prop :=
  member.isLz4 = true ∧ checkMember dec member file = .error .firmware

/-- An accepted transfer ends like the check, except for the code of a failed
LZ4 member. -/
theorem transferMember_accepted (hthor : usb.isOdinLegacy = false) (hok : file.failed = false)
    (hend : file.pos + member.dataSize ≤ file.file.bytes.length) (s : UInt32) :
    Exchanges (transferMember dec usb true member file) fun xs result => AllAccepted s xs →
      FailedLz4 dec member file ∧ result = .error .protocol ∨
        ∃ file', checkMember dec member file = .ok file' ∧ result = .ok file' := by
  unfold transferMember
  cases hlz4 : member.isLz4 with
  | false =>
      simp only [Bool.false_eq_true, ↓reduceIte]
      refine conducts_bind (flashPartitionStream_follows hthor file member.dataSize
        member.pitEntry member.isLarge s) fun xs result hxs => ?_
      obtain ⟨payloads, ok, hfollows, -, hdone, hgave⟩ := hxs
      obtain ⟨sentAll, file'⟩ := result
      cases sentAll with
      | false =>
          refine conducts_pure fun hall => ?_
          rw [List.append_nil] at hall
          -- The device refuses nothing, and the archive holds the whole member.
          obtain hrefused | hfailed | hshort := hgave rfl
          · rw [hfollows.eq_true hall] at hrefused
            simp at hrefused
          · simp [hok] at hfailed
          · rw [FileStream.length_rest] at hshort
            omega
      | true =>
          refine conducts_pure fun _ => .inr ⟨file', ?_, rfl⟩
          obtain ⟨-, -, -, hfile, -⟩ := hdone rfl
          rw [show file' = file.advance member.dataSize from hfile]
          exact checkMember_raw hlz4 hok hend
  | true =>
      simp only [hthor, Bool.false_and, Bool.false_eq_true, ↓reduceIte]
      cases hplan : lz4Plan dec file member.dataSize with
      | none =>
          rw [processLz4Streaming_unplanned _ _ _ _ _ _ hplan]
          refine conducts_pure fun _ => .inl ⟨⟨hlz4, ?_⟩, rfl⟩
          simp [checkMember, hlz4, hplan]
      | some plan =>
          refine conducts_bind (processLz4Streaming_follows dec file member.dataSize usb
            member.isLarge hplan s) fun xs result hxs => ?_
          obtain ⟨ok, hfollows, rfl⟩ := hxs
          cases ok with
          | false =>
              refine conducts_pure fun hall => absurd ?_ hfollows.not_allAccepted
              rwa [List.append_nil] at hall
          | true =>
              simp only [↓reduceIte]
              cases hresult : lz4Result dec file member.dataSize plan with
              | none =>
                  refine conducts_pure fun _ => .inl ⟨⟨hlz4, ?_⟩, rfl⟩
                  simp [checkMember, hlz4, hplan, hresult]
              | some file' =>
                  refine conducts_pure fun _ => .inr ⟨file', ?_, rfl⟩
                  simp [checkMember, hlz4, hplan, hresult]

theorem endFileTransfer_accepted (hthor : usb.isOdinLegacy = false) (partitionId : UInt32)
    (s : UInt32) :
    Exchanges (endFileTransfer usb partitionId) fun xs ok => AllAccepted s xs → ok = true := by
  unfold endFileTransfer
  rw [if_neg (by simp [hthor])]
  exact (thorExchange_single rfl 0).mono fun xs ok hxs => (hxs.follows s).eq_true

theorem processMember_accepted (hthor : usb.isOdinLegacy = false) {state : WalkState}
    (hok : state.file.failed = false)
    (hend : state.file.pos + member.dataSize ≤ state.file.file.bytes.length) (s : UInt32) :
    Exchanges (processMember dec usb true member state) fun xs result => AllAccepted s xs →
      FailedLz4 dec member state.file ∧ result = .error .protocol ∨
        ¬ FailedLz4 dec member state.file ∧ result = checkEntry dec member state := by
  unfold processMember
  refine conducts_bind (transferMember_accepted hthor hok hend s) fun xs result hxs => ?_
  cases result with
  | error code =>
      refine conducts_pure fun hall => ?_
      rw [List.append_nil] at hall
      obtain ⟨hfailed, hcode⟩ | ⟨file, -, hfile⟩ := hxs hall
      · exact .inl ⟨hfailed, congrArg Except.error (Except.error.inj hcode)⟩
      · simp at hfile
  | ok file =>
      have hchecked : AllAccepted s xs → ¬ FailedLz4 dec member state.file ∧
          checkEntry dec member state = leaveMember member state file := by
        intro hall
        obtain ⟨-, hfile⟩ | ⟨file', hcheck, hfile⟩ := hxs hall
        · simp at hfile
        · obtain rfl := Except.ok.inj hfile
          refine ⟨fun hfailed => ?_, ?_⟩
          · have hcode := hfailed.2
            simp [hcheck] at hcode
          · simp [checkEntry, hcheck]
      -- Flashing ends the transfer where the check only looks at the position.
      unfold leaveMember at hchecked
      dsimp only at hchecked ⊢
      split
      next hbeyond =>
        refine conducts_pure fun hall => .inr ?_
        rw [List.append_nil] at hall
        rw [(hchecked hall).2, if_pos hbeyond]
        exact ⟨(hchecked hall).1, rfl⟩
      next hgood =>
        simp only [↓reduceIte]
        refine conducts_bind (endFileTransfer_accepted hthor _ (after s xs)) fun ys ok hys => ?_
        cases ok with
        | false =>
            refine conducts_pure fun hall => ?_
            rw [List.append_nil] at hall
            simpa using hys hall.right
        | true =>
            refine conducts_pure fun hall => .inr ?_
            obtain ⟨hpassed, hentry⟩ := hchecked hall.left
            rw [hentry, if_neg hgood]
            exact ⟨hpassed, rfl⟩

end Members

/-! ## Turn by turn -/

/-- A member in front of its data, all of which are in the file. -/
structure MemberAhead (file : FileContent) (visit : Visit) (member : Member) (state : WalkState) :
    Prop where
  member_eq : visit.member? = some member
  file_eq : state.file = ⟨file, visit.offset + tarBlockSize, false⟩
  data_le : visit.offset + tarBlockSize + member.dataSize ≤ file.bytes.length
  size_lt : member.dataSize < 8 ^ 12

section MemberAhead

variable {file : FileContent} {visit : Visit} {member : Member} {state : WalkState}
  (h : MemberAhead file visit member state)

include h

theorem MemberAhead.good : state.file.failed = false := by rw [h.file_eq]

theorem MemberAhead.within : state.file.pos + member.dataSize ≤ state.file.file.bytes.length := by
  rw [h.file_eq]
  exact h.data_le

end MemberAhead

/-- A check from a member on, given the walks that may follow. -/
def Walk.behind (visit : Visit) (entry : Except ExitCode WalkState) (rest : WalkState → Walk) :
    Walk :=
  match entry with
  | .error code => ⟨[visit], code⟩
  | .ok next => Walk.after [visit] (rest next)

/-- A relation between a check and an accepted flashing walk that holds of all
walks if it holds behind each kind of turn. -/
structure RelatedTurns (dec : Lz4Decoder) (usb : UsbDevice) (file : FileContent)
    (related : Walk → Walk → Prop) : Prop where
  unmatched : ∀ (step : HeaderStep) (code : ExitCode),
    related ⟨step.visits none, code⟩ ⟨step.visits none, code⟩
  after : ∀ (step : HeaderStep) (checked flashed : Walk), related checked flashed →
    related (Walk.after (step.visits none) checked) (Walk.after (step.visits none) flashed)
  member : ∀ {visit : Visit} {member : Member} {state : WalkState} (s : UInt32),
    MemberAhead file visit member state →
    Exchanges (processMember dec usb true member state) fun xs result => AllAccepted s xs →
      match result with
      | .error code =>
          ∀ rest, related (Walk.behind visit (checkEntry dec member state) rest) ⟨[visit], code⟩
      | .ok last => checkEntry dec member state = .ok last ∧
          ∀ checked flashed, related checked flashed →
            related (Walk.after [visit] checked) (Walk.after [visit] flashed)

theorem visitLoop_related {dec : Lz4Decoder} {usb : UsbDevice} {pitTable : PitTable}
    {allowUnknown : Bool} {contentEnd : Nat} {related : Walk → Walk → Prop} {file : FileContent}
    (hrelated : RelatedTurns dec usb file related) (hbegun : usb.Begun)
    (hend : contentEnd ≤ file.bytes.length) (fuel : Nat) {state : WalkState}
    (hfile : state.file.file = file) (s : UInt32) :
    Exchanges (visitLoop dec usb pitTable true allowUnknown contentEnd fuel state)
      fun xs flashed => AllAccepted s xs →
        related (checkLoop dec pitTable allowUnknown contentEnd fuel state) flashed := by
  induction fuel generalizing state s with
  | zero => exact conducts_pure fun _ => hrelated.unmatched (.absent .firmware) .firmware
  | succ fuel ih =>
      rw [visitLoop, checkLoop]
      have hspec := readMember_spec contentEnd pitTable allowUnknown state
      generalize readHeader contentEnd state.file = step at hspec ⊢
      generalize readMember contentEnd pitTable allowUnknown state = turn at hspec ⊢
      cases hspec with
      | absent => exact conducts_pure fun _ => hrelated.unmatched (.absent _) _
      | refused => exact conducts_pure fun _ => hrelated.unmatched (.refused _ _ _) _
      | stopped => exact conducts_pure fun _ => hrelated.unmatched (.accepted _ _ _) _
      | @skip offset header dataSize next haccepted hgood hnext =>
          have hsame : next.file.file = file := by
            rw [hnext]
            exact hfile
          dsimp only
          rw [map_eq_pure_bind]
          refine conducts_bind (ih hsame s) fun xs flashed hxs => conducts_pure fun hall => ?_
          rw [List.append_nil] at hall
          exact hrelated.after _ _ _ (hxs hall)
      | @matched offset header dataSize member next haccepted hsize hnext =>
          have hstream : next.file = ⟨file, offset + tarBlockSize, false⟩ := by
            rw [hnext, ← haccepted.offset_eq, ← haccepted.good, ← hfile]
            rfl
          -- What is needed to flash the member is known from its header.
          have hahead : MemberAhead file ⟨offset, header, some dataSize, some member⟩ member next :=
            ⟨rfl, hstream, hsize ▸ haccepted.fits.trans hend,
              hsize ▸ headerSize_lt haccepted.size_eq⟩
          have hlimit := hahead.size_lt
          dsimp only
          refine conducts_bind ((hrelated.member s hahead).and_result
            (processMember_advance hbegun hahead.good (by omega) true)) fun xs result hxs => ?_
          obtain ⟨hxs, hadvance⟩ := hxs
          cases result with
          | error code =>
              refine conducts_pure fun hall => ?_
              rw [List.append_nil] at hall
              exact hxs hall _
          | ok last =>
              have hsame : last.file.file = file := by
                rw [(hadvance last rfl).2, hstream]
                rfl
              dsimp only
              rw [map_eq_pure_bind]
              refine conducts_bind (ih hsame (after s xs)) fun ys flashed hys =>
                conducts_pure fun hall => ?_
              rw [List.append_nil] at hall
              obtain ⟨hentry, hafter⟩ := hxs hall.left
              rw [hentry]
              exact hafter _ _ (hys hall.right)

/-! ## Walks in Thor mode -/

/-- The last header belongs to an LZ4 member that fails. -/
def EndsInFailedLz4 (dec : Lz4Decoder) (file : FileContent) (visits : List Visit) : Prop :=
  ∃ visit ∈ visits.getLast?, ∃ member ∈ visit.member?,
    FailedLz4 dec member ⟨file, visit.offset + tarBlockSize, false⟩

/-- A check and a flashing walk: the same visits, and the same result unless an
LZ4 member fails. -/
structure Agrees (dec : Lz4Decoder) (file : FileContent) (checked flashed : Walk) : Prop where
  visits_eq : checked.visits = flashed.visits
  failed : EndsInFailedLz4 dec file checked.visits →
    checked.code = .firmware ∧ flashed.code = .protocol
  same : ¬ EndsInFailedLz4 dec file checked.visits → checked.code = flashed.code

section Walks

variable {dec : Lz4Decoder} {file : FileContent} {here : List Visit}

theorem endsInFailedLz4_append (hhere : ¬ EndsInFailedLz4 dec file here) (rest : List Visit) :
    EndsInFailedLz4 dec file (here ++ rest) ↔ EndsInFailedLz4 dec file rest := by
  cases rest with
  | nil =>
      rw [List.append_nil]
      exact iff_of_false hhere (by simp [EndsInFailedLz4])
  | cons visit rest =>
      unfold EndsInFailedLz4
      rw [List.getLast?_append_of_ne_nil _ (List.cons_ne_nil visit rest)]

theorem endsInFailedLz4_unmatched (step : HeaderStep) :
    ¬ EndsInFailedLz4 dec file (step.visits none) := by
  cases step <;> simp [EndsInFailedLz4, HeaderStep.visits]

theorem Agrees.refl {walk : Walk} (h : ¬ EndsInFailedLz4 dec file walk.visits) :
    Agrees dec file walk walk :=
  ⟨rfl, fun hfailed => absurd hfailed h, fun _ => rfl⟩

theorem Agrees.after {checked flashed : Walk} (h : Agrees dec file checked flashed)
    (hhere : ¬ EndsInFailedLz4 dec file here) :
    Agrees dec file (Walk.after here checked) (Walk.after here flashed) where
  visits_eq := congrArg (here ++ ·) h.visits_eq
  failed hfailed := h.failed ((endsInFailedLz4_append hhere _).mp hfailed)
  same hpassed := h.same fun hfailed => hpassed ((endsInFailedLz4_append hhere _).mpr hfailed)

theorem Agrees.success_iff {checked flashed : Walk} (h : Agrees dec file checked flashed) :
    checked.code = .success ↔ flashed.code = .success := by
  by_cases hfailed : EndsInFailedLz4 dec file checked.visits
  · obtain ⟨hchecked, hflashed⟩ := h.failed hfailed
    simp [hchecked, hflashed]
  · rw [h.same hfailed]

theorem relatedTurns_agrees {usb : UsbDevice} (hthor : usb.isOdinLegacy = false) :
    RelatedTurns dec usb file (Agrees dec file) where
  unmatched step _ := .refl (endsInFailedLz4_unmatched step)
  after step _ _ h := h.after (endsInFailedLz4_unmatched step)
  member {visit member state} s hahead := by
    have hhere : EndsInFailedLz4 dec file [visit] ↔ FailedLz4 dec member state.file := by
      simp [EndsInFailedLz4, hahead.member_eq, hahead.file_eq]
    refine (processMember_accepted hthor hahead.good hahead.within s).mono
      fun xs result hxs hall => ?_
    cases result with
    | error code =>
        intro rest
        obtain ⟨hfailed, hcode⟩ | ⟨hpassed, hentry⟩ := hxs hall
        · have hcheck : checkEntry dec member state = .error .firmware := by
            rw [checkEntry, hfailed.2]
          rw [hcheck, Except.error.inj hcode]
          exact ⟨rfl, fun _ => ⟨rfl, rfl⟩, fun hpassed => absurd (hhere.mpr hfailed) hpassed⟩
        · rw [← hentry]
          exact .refl (mt hhere.mp hpassed)
    | ok last =>
        obtain ⟨-, hcode⟩ | ⟨hpassed, hentry⟩ := hxs hall
        · simp at hcode
        · exact ⟨hentry.symm, fun checked flashed h => h.after (mt hhere.mp hpassed)⟩

end Walks

/-! ## Archives in Thor mode -/

/-- A check and a flashing run over one archive visit the same headers and end
alike; only a failed LZ4 member is a firmware error of the one and a protocol
error of the other. -/
theorem check_agrees_with_flashing {host : Host} {tarPath : Bytes} {usb : UsbDevice}
    {pitTable : PitTable} {allowUnknown : Bool} (hthor : usb.protocolMode = .thor)
    {xs : List Exchange} {flashed : ExitCode}
    (hexec : (processTarFile host tarPath usb pitTable true allowUnknown).Executes
      (xs.flatMap Exchange.events) flashed)
    (hall : AllAccepted 0 xs) :
    ∃ visits checked,
      (visitTarFile usb pitTable true allowUnknown host tarPath).Executes
        (xs.flatMap Exchange.events) ⟨visits, flashed⟩ ∧
      visitTarFile usb pitTable false allowUnknown host tarPath = pure ⟨visits, checked⟩ ∧
      processTarFile host tarPath usb pitTable false allowUnknown = pure checked ∧
      (checked = .success ↔ flashed = .success) ∧
      ((∃ file, host.fs tarPath = some file ∧ EndsInFailedLz4 host.lz4 file visits) →
        checked = .firmware ∧ flashed = .protocol) ∧
      ((¬ ∃ file, host.fs tarPath = some file ∧ EndsInFailedLz4 host.lz4 file visits) →
        checked = flashed) := by
  have hmode : usb.isOdinLegacy = false := by simp [UsbDevice.isOdinLegacy, hthor]
  obtain ⟨visits, hvisits⟩ := executes_visitTarFile usb pitTable true allowUnknown hexec
  have hchecked := visitTarFile_check usb pitTable allowUnknown host tarPath
  have hcode := processTarFile_check usb pitTable allowUnknown host tarPath
  have hwalk := hvisits
  unfold visitTarFile at hwalk
  unfold checkTarFile at hchecked hcode
  cases hopen : openArchive host tarPath with
  | error code =>
      rw [hopen] at hwalk hchecked hcode
      obtain ⟨-, hwalk⟩ := hwalk
      obtain ⟨rfl, rfl⟩ := Walk.mk.inj hwalk
      refine ⟨[], flashed, hvisits, hchecked, hcode, Iff.rfl, ?_, fun _ => rfl⟩
      rintro ⟨file, -, hfailed⟩
      simp [EndsInFailedLz4] at hfailed
  | ok opened =>
      obtain ⟨stream, contentEnd⟩ := opened
      obtain ⟨file, hfile, rfl, -, hend⟩ := openArchive_ok hopen
      rw [hopen] at hwalk hchecked hcode
      dsimp only at hwalk hchecked hcode
      have hbegun : usb.Begun := fun hlegacy => by simp [hmode] at hlegacy
      obtain ⟨ys, hys, hagree⟩ := visitLoop_related (relatedTurns_agrees hmode) hbegun hend
        (memberFuel contentEnd) rfl 0 _ _ hwalk
      obtain rfl := exchanges_injective hys
      have hagrees := hagree hall
      obtain rfl : _ = visits := hagrees.visits_eq
      have honly : (∃ file', host.fs tarPath = some file' ∧ EndsInFailedLz4 host.lz4 file'
          (checkLoop host.lz4 pitTable allowUnknown contentEnd (memberFuel contentEnd)
            { file := FileStream.openFile file }).visits) ↔
          EndsInFailedLz4 host.lz4 file (checkLoop host.lz4 pitTable allowUnknown contentEnd
            (memberFuel contentEnd) { file := FileStream.openFile file }).visits := by
        simp [hfile]
      exact ⟨_, _, hvisits, hchecked, hcode, hagrees.success_iff,
        fun hfailed => hagrees.failed (honly.mp hfailed),
        fun hpassed => hagrees.same (mt honly.mpr hpassed)⟩

/-- Three raw members: both runs visit them and succeed. -/
theorem check_agrees_with_flashing_firmware :
    processTarFile (archiveHost firmwareArchive) (ascii "firmware.tar") {} firmwarePit false
      false = pure .success := by
  have hsurvey : surveyTarFile {} firmwarePit false (archiveHost firmwareArchive)
      (ascii "firmware.tar") false = some (.success, true) := by decide +kernel
  have hbegun : ({} : UsbDevice).Begun := by simp [UsbDevice.Begun, UsbDevice.isOdinLegacy]
  generalize archiveHost firmwareArchive = host at hsurvey ⊢
  obtain ⟨xs, code, hexec, rfl⟩ := (processTarFile_surveyed {} firmwarePit false hbegun host
    (ascii "firmware.tar")).attains false .success true hsurvey
  obtain ⟨ys, hys, horderly⟩ := processTarFile_flash {} host (ascii "firmware.tar") firmwarePit false
    0 _ _ hexec
  obtain rfl := exchanges_injective hys
  have hall := (horderly.whole rfl).1
  obtain ⟨visits, checked, -, -, hcheck, hiff, -⟩ := check_agrees_with_flashing rfl hexec hall
  rw [hcheck, hiff.mpr rfl]

end Odin4
