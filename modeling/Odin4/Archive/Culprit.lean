import Odin4.Archive.CheckOnly

/-!
# Whose fault a failure is

With a device that accepts everything, what a walk returns is a verdict on the
archive: success, or a firmware or PIT error. The one exception is a flashed
LZ4 member whose data are refused by the LZ4 reader. It is reported as an error
of the protocol, though nothing was wrong with the exchanges.
-/

namespace Odin4

open Interaction Program Dialogue

/-- What a walk can make of the archive itself. -/
def ExitCode.IsVerdict (code : ExitCode) : Prop :=
  code = .success ∨ code = .firmware ∨ code = .pit

/-! ## Reading entries -/

/-- A step that ends the walk ends it with a verdict. -/
def MemberStep.Judges : MemberStep → Prop
  | .stop code => code.IsVerdict
  | _ => True

section Entries

variable {pitTable : PitTable} {allowUnknown : Bool}

theorem skipTo_judges (state : WalkState) (file? : Option FileStream) :
    (skipTo state file?).Judges := by
  cases file? with
  | none => exact .inr (.inl rfl)
  | some file => trivial

theorem regularEntry_judges (state : WalkState) (filename : Bytes) (dataSize : Nat) :
    (regularEntry pitTable allowUnknown state filename dataSize).Judges := by
  unfold regularEntry
  split
  next => exact .inr (.inl rfl)
  split
  next =>
    split
    next => exact skipTo_judges _ _
    next => exact .inr (.inr rfl)
  next =>
    split
    next => exact .inr (.inr rfl)
    next => trivial

theorem classifyEntry_judges (state : WalkState) (typeflag : UInt8) (filename : Bytes)
    (dataSize : Nat) :
    (classifyEntry pitTable allowUnknown state typeflag filename dataSize).Judges := by
  unfold classifyEntry
  split
  next =>
    split
    next => exact .inr (.inl rfl)
    next => trivial
  split
  next =>
    split
    next => exact .inr (.inl rfl)
    next => trivial
  split
  next => exact skipTo_judges _ _
  next => exact regularEntry_judges _ _ _

theorem readMember_judges (contentEnd : Nat) (state : WalkState) :
    (readMember contentEnd pitTable allowUnknown state).Judges := by
  unfold readMember
  split
  next => exact .inr (.inl rfl)
  split
  next => exact .inl rfl
  dsimp only
  split
  next => exact .inr (.inl rfl)
  split
  next => exact .inl rfl
  split
  next => exact .inr (.inl rfl)
  split
  next => exact .inr (.inl rfl)
  split
  next => exact .inr (.inl rfl)
  split
  next => exact .inr (.inl rfl)
  next => exact classifyEntry_judges _ _ _ _

end Entries

/-- The reasons to reject a file lie in the file. -/
theorem openArchive_firmware {host : Host} {tarPath : Bytes} {code : ExitCode}
    (h : openArchive host tarPath = .error code) : code = .firmware := by
  have hlocated : ∀ {bytes code}, locateTrailer bytes = .error code → code = .firmware := by
    intro bytes code h
    unfold locateTrailer at h
    grind
  have hverified : ∀ info, verifyTarMd5 host.fs host.md5 tarPath info = .success ∨
      verifyTarMd5 host.fs host.md5 tarPath info = .firmware := by
    intro info
    unfold verifyTarMd5
    grind
  have hdetected : ∀ {code}, detectTarMd5Info host.fs tarPath = .error code → code = .firmware := by
    intro code h
    cases hfile : host.fs tarPath with
    | none =>
        unfold detectTarMd5Info at h
        rw [hfile] at h
        exact (Except.error.inj h).symm
    | some file =>
        rw [detectTarMd5Info_eq hfile] at h
        split at h
        next => exact hlocated h
        next => cases h
  unfold openArchive at h
  cases hdetect : detectTarMd5Info host.fs tarPath with
  | error code' =>
      simp only [hdetect, Bind.bind, Except.bind] at h
      rw [← Except.error.inj h, hdetected hdetect]
  | ok info =>
      obtain ⟨file, hfile, -⟩ := detectTarMd5Info_le hdetect
      simp only [hdetect, hfile, Bind.bind, Except.bind, throw, throwThe, MonadExceptOf.throw,
        pure, Except.pure] at h
      generalize (if info.hasMd5 = true then info.contentEnd else file.bytes.length) = limit at h
      obtain hverify | hverify := hverified info
      · rw [hverify] at h
        dsimp only at h
        split at h
        next => exact (Except.error.inj h).symm
        next => cases h
      · rw [hverify] at h
        exact (Except.error.inj h).symm

/-! ## Members -/

section Members

variable {dec : Lz4Decoder} {usb : UsbDevice} {member : Member} {state : WalkState}

theorem checkEntry_firmware {code : ExitCode} (h : checkEntry dec member state = .error code) :
    code = .firmware := by
  unfold checkEntry checkMember leaveMember at h
  grind

/-- In Thor mode the transfer passes what the check passes. -/
theorem passMember_unfailed (hthor : usb.isOdinLegacy = false) (hok : state.file.failed = false)
    (hend : state.file.pos + member.dataSize ≤ state.file.file.bytes.length)
    (hpassed : ¬ FailedLz4 dec member state.file) :
    passMember dec usb member state.file = some (state.file.advance member.dataSize) := by
  cases hlz4 : member.isLz4 with
  | false =>
      unfold passMember
      rw [if_neg (by simp [hlz4]), if_neg (not_or.mpr ⟨?_, by simp [hthor]⟩)]
      rw [FileStream.length_rest]
      omega
  | true =>
      cases hpass : passMember dec usb member state.file with
      | none =>
          unfold passMember at hpass
          rw [if_pos hlz4, if_neg (by simp [hthor])] at hpass
          exact absurd ⟨hlz4, by simp [checkMember, hlz4, hpass]⟩ hpassed
      | some file => rw [(passMember_advance hok hpass).2]

/-- A refused LZ4 member is given up with a protocol error, though nothing that
was sent for it has been refused. -/
theorem processMember_blames (hthor : usb.isOdinLegacy = false)
    (hfailed : FailedLz4 dec member state.file) (s : UInt32) :
    Accepts (processMember dec usb true member state) fun xs result =>
      AllAccepted s xs ∧ result = .error .protocol := by
  obtain ⟨hlz4, hcheck⟩ := hfailed
  have htransfer : Accepts (transferMember dec usb true member state.file) fun xs result =>
      AllAccepted s xs ∧ result = .error .protocol := by
    unfold transferMember
    rw [if_pos hlz4, if_neg (by simp [hthor])]
    cases hplan : lz4Plan dec state.file member.dataSize with
    | none =>
        rw [processLz4Streaming_unplanned _ _ _ _ _ _ hplan]
        exact admits_pure ⟨trivial, rfl⟩
    | some plan =>
        have hresult : lz4Result dec state.file member.dataSize plan = none := by
          unfold checkMember at hcheck
          rw [if_pos hlz4, hplan, Option.bind_some] at hcheck
          cases hresult : lz4Result dec state.file member.dataSize plan with
          | none => rfl
          | some file => simp [hresult] at hcheck
        refine admits_bind (processLz4Streaming_accepts hplan usb member.isLarge s)
          fun xs result hxs => ?_
        obtain ⟨hfollows, rfl⟩ := hxs
        rw [hresult]
        refine admits_pure ⟨?_, rfl⟩
        rw [List.append_nil]
        exact hfollows.completed.1
  unfold processMember
  refine admits_bind htransfer fun xs result hxs => ?_
  obtain ⟨hall, rfl⟩ := hxs
  refine admits_pure ⟨?_, rfl⟩
  rwa [List.append_nil]

/-- Any other member can be transferred and left. -/
theorem processMember_leaves (hthor : usb.isOdinLegacy = false) (hok : state.file.failed = false)
    (hend : state.file.pos + member.dataSize ≤ state.file.file.bytes.length)
    (hpassed : ¬ FailedLz4 dec member state.file)
    (hnext : state.file.pos + roundUp512 member.dataSize < 2 ^ 63) (s : UInt32) :
    Accepts (processMember dec usb true member state) fun xs result => AllAccepted s xs ∧
      result = .ok { state with file := state.file.advance (roundUp512 member.dataSize) } := by
  have hsize := state.file.file.size_lt
  have hbegun : usb.Begun := fun hlegacy => by simp [hthor] at hlegacy
  have hleave : leaveMember member state (state.file.advance member.dataSize) =
      .ok { state with file := state.file.advance (roundUp512 member.dataSize) } := by
    have hseek : (state.file.advance member.dataSize).seekCur (tarPadding member.dataSize) =
        state.file.advance (roundUp512 member.dataSize) := by
      rw [FileStream.seekCur_nat (by simpa using hok), FileStream.advance_advance, add_tarPadding]
      have htotal := add_tarPadding member.dataSize
      simp only [FileStream.advance]
      omega
    unfold leaveMember
    dsimp only
    rw [hseek, if_neg (by simp [hok])]
  refine ((processMember_passes hbegun hok (by omega)
    (passMember_unfailed hthor hok hend hpassed)).and
      (processMember_flash dec usb member state s)).mono fun xs result hxs => ?_
  obtain ⟨rfl, horderly⟩ := hxs
  exact ⟨(horderly.whole ⟨_, hleave⟩).1, hleave⟩

end Members

/-! ## The loop -/

/-- The walk comes to an LZ4 member that is refused; the members in front of it
are not. -/
inductive MeetsFailedLz4 (dec : Lz4Decoder) (pitTable : PitTable) (allowUnknown : Bool)
    (contentEnd : Nat) : WalkState → Prop where
  | here {state next : WalkState} {member : Member} :
      readMember contentEnd pitTable allowUnknown state = .matched member next →
      FailedLz4 dec member next.file →
      MeetsFailedLz4 dec pitTable allowUnknown contentEnd state
  | skip {state next : WalkState} :
      readMember contentEnd pitTable allowUnknown state = .skip next →
      MeetsFailedLz4 dec pitTable allowUnknown contentEnd next →
      MeetsFailedLz4 dec pitTable allowUnknown contentEnd state
  | past {state next : WalkState} {member : Member} :
      readMember contentEnd pitTable allowUnknown state = .matched member next →
      ¬ FailedLz4 dec member next.file →
      MeetsFailedLz4 dec pitTable allowUnknown contentEnd
        { next with file := next.file.advance (roundUp512 member.dataSize) } →
      MeetsFailedLz4 dec pitTable allowUnknown contentEnd state

section Loop

variable {dec : Lz4Decoder} {usb : UsbDevice} {pitTable : PitTable} {allowUnknown : Bool}
  {contentEnd : Nat} {file : FileContent} {state next : WalkState} {member : Member}

/-- A matched member: its data lie within the content. -/
structure Matched (contentEnd : Nat) (state next : WalkState) (member : Member) : Prop where
  good : next.file.failed = false
  file_eq : next.file = state.file.advance tarBlockSize
  fits : next.file.pos + member.dataSize ≤ contentEnd

theorem readMember_placed
    (hread : readMember contentEnd pitTable allowUnknown state = .matched member next) :
    Matched contentEnd state next member := by
  obtain ⟨offset, header, dataSize, -, hspec⟩ := turn_accepted hread (by simp)
  cases hspec with
  | matched haccepted hsize hnext =>
      have hfits := haccepted.fits
      rw [← haccepted.offset_eq, ← hsize] at hfits
      refine ⟨?_, hnext, ?_⟩
      · rw [hnext]
        exact haccepted.good
      · rw [hnext]
        exact hfits

theorem Matched.same_file (h : Matched contentEnd state next member)
    (hfile : state.file.file = file) : next.file.file = file := by
  rw [h.file_eq]
  exact hfile

/-- The data are in the file as well. -/
theorem Matched.data_le (h : Matched contentEnd state next member)
    (hfile : state.file.file = file) (hend : contentEnd ≤ file.bytes.length) :
    next.file.pos + member.dataSize ≤ next.file.file.bytes.length := by
  rw [h.same_file hfile]
  exact h.fits.trans hend

/-- Where the walk goes on to an LZ4 member there is a header within the content. -/
theorem MeetsFailedLz4.within
    (h : MeetsFailedLz4 dec pitTable allowUnknown contentEnd state) :
    state.file.pos + tarBlockSize ≤ contentEnd := by
  have hplaced : ∀ {step}, readMember contentEnd pitTable allowUnknown state = step →
      (∀ code, step ≠ .stop code) → state.file.pos + tarBlockSize ≤ contentEnd := by
    intro step hread hgoes
    obtain ⟨offset, header, dataSize, hheader, -⟩ := turn_accepted hread hgoes
    have haccepted := readHeader_accepted hheader
    rw [haccepted.offset_eq]
    exact (Nat.le_add_right _ _).trans haccepted.fits
  cases h with
  | here hread _ => exact hplaced hread (by simp)
  | skip hread _ => exact hplaced hread (by simp)
  | past hread _ _ => exact hplaced hread (by simp)

/-- The loop does not run out before that. -/
theorem MeetsFailedLz4.exists_fuel
    (h : MeetsFailedLz4 dec pitTable allowUnknown contentEnd state) {fuel : Nat}
    (hfuel : contentEnd < state.file.pos + tarBlockSize * fuel) : ∃ left, fuel = left + 1 := by
  have hwithin := h.within
  cases fuel with
  | zero => omega
  | succ left => exact ⟨left, rfl⟩

theorem checkLoop_judges (fuel : Nat) :
    (checkLoop dec pitTable allowUnknown contentEnd fuel state).code.IsVerdict := by
  induction fuel generalizing state with
  | zero => exact .inr (.inl rfl)
  | succ fuel ih =>
      rw [checkLoop]
      have hjudges : (readMember contentEnd pitTable allowUnknown state).Judges :=
        readMember_judges _ _
      cases hread : readMember contentEnd pitTable allowUnknown state with
      | stop code =>
          rw [hread] at hjudges
          exact hjudges
      | skip next => exact ih
      | matched member next =>
          dsimp only
          cases hentry : checkEntry dec member next with
          | error code => exact .inr (.inl (checkEntry_firmware hentry))
          | ok last => exact ih

/-- With a device that accepts everything, only a refused LZ4 member is reported
as an error of the protocol. -/
theorem memberLoop_judges (hthor : usb.isOdinLegacy = false)
    (hend : contentEnd ≤ file.bytes.length) (fuel : Nat) (hfile : state.file.file = file)
    (s : UInt32) :
    Exchanges (memberLoop dec usb pitTable true allowUnknown contentEnd fuel state)
      fun xs code => AllAccepted s xs → code.IsVerdict ∨
        code = .protocol ∧ MeetsFailedLz4 dec pitTable allowUnknown contentEnd state := by
  have hbegun : usb.Begun := fun hlegacy => by simp [hthor] at hlegacy
  induction fuel generalizing state s with
  | zero => exact conducts_pure fun _ => .inl (.inr (.inl rfl))
  | succ fuel ih =>
      rw [memberLoop]
      have hjudges : (readMember contentEnd pitTable allowUnknown state).Judges :=
        readMember_judges _ _
      cases hread : readMember contentEnd pitTable allowUnknown state with
      | stop code =>
          rw [hread] at hjudges
          exact conducts_pure fun _ => .inl hjudges
      | skip next =>
          obtain ⟨offset, header, dataSize, -, hspec⟩ := turn_accepted hread (by simp)
          cases hspec with
          | skip _ _ hnext =>
              have hsame : next.file.file = file := by
                rw [hnext]
                exact hfile
              refine (ih hsame s).mono fun xs code hxs hall => (hxs hall).imp_right fun hmeets => ?_
              exact ⟨hmeets.1, .skip hread hmeets.2⟩
      | matched member next =>
          have hplaced := readMember_placed hread
          have hsame := hplaced.same_file hfile
          have hdata := hplaced.data_le hfile hend
          have hsize := next.file.file.size_lt
          dsimp only
          refine conducts_bind ((processMember_accepted hthor hplaced.good hdata s).and_result
            (processMember_advance hbegun hplaced.good (by omega) true)) fun xs result hxs => ?_
          obtain ⟨hxs, hadvance⟩ := hxs
          cases result with
          | error code =>
              refine conducts_pure fun hall => ?_
              rw [List.append_nil] at hall
              -- Either the LZ4 data are refused, or the check finds fault with the entry as well.
              obtain ⟨hfailed, hcode⟩ | ⟨-, hentry⟩ := hxs hall
              · exact .inr ⟨Except.error.inj hcode, .here hread hfailed⟩
              · exact .inl (.inr (.inl (checkEntry_firmware hentry.symm)))
          | ok last =>
              obtain ⟨-, hlast⟩ := hadvance last rfl
              have hrest : last.file.file = file := by
                rw [hlast]
                exact hsame
              refine (ih hrest (after s xs)).mono fun ys code hys hall => ?_
              obtain ⟨-, hcode⟩ | ⟨hpassed, -⟩ := hxs hall.left
              · cases hcode
              · refine (hys hall.right).imp_right fun hmeets => ⟨hmeets.1, .past hread hpassed ?_⟩
                rw [← hlast]
                exact hmeets.2

/-- The walk can come to the refused member with everything accepted. -/
theorem MeetsFailedLz4.blames (hthor : usb.isOdinLegacy = false)
    (hend : contentEnd ≤ file.bytes.length)
    (h : MeetsFailedLz4 dec pitTable allowUnknown contentEnd state) {fuel : Nat}
    (hfuel : contentEnd < state.file.pos + tarBlockSize * fuel) (hfile : state.file.file = file)
    (s : UInt32) :
    Accepts (memberLoop dec usb pitTable true allowUnknown contentEnd fuel state) fun xs code =>
      AllAccepted s xs ∧ code = .protocol := by
  have hsize := file.size_lt
  induction h generalizing fuel s with
  | @here state next member hread hfailed =>
      obtain ⟨left, rfl⟩ := MeetsFailedLz4.exists_fuel (.here hread hfailed) hfuel
      rw [memberLoop, hread]
      refine admits_bind (processMember_blames hthor hfailed s) fun xs result hxs => ?_
      obtain ⟨hall, rfl⟩ := hxs
      refine admits_pure ⟨?_, rfl⟩
      rwa [List.append_nil]
  | @skip state next hread hmeets ih =>
      obtain ⟨left, rfl⟩ := MeetsFailedLz4.exists_fuel (.skip hread hmeets) hfuel
      obtain ⟨offset, header, dataSize, -, hspec⟩ := turn_accepted hread (by simp)
      cases hspec with
      | skip _ _ hnext =>
          rw [memberLoop, hread]
          refine ih ?_ ?_ s
          · rw [hnext]
            simp only [FileStream.advance, tarBlockSize] at hfuel ⊢
            omega
          · rw [hnext]
            exact hfile
  | @past state next member hread hpassed hmeets ih =>
      obtain ⟨left, rfl⟩ := MeetsFailedLz4.exists_fuel (.past hread hpassed hmeets) hfuel
      have hplaced := readMember_placed hread
      -- The failed member lies behind this one, which therefore ends below the limit.
      have hbehind : next.file.pos + roundUp512 member.dataSize < 2 ^ 63 := by
        have hwithin := hmeets.within
        simp only [FileStream.advance] at hwithin
        omega
      rw [memberLoop, hread]
      refine admits_bind (processMember_leaves hthor hplaced.good (hplaced.data_le hfile hend)
        hpassed hbehind s) fun xs result hxs => ?_
      obtain ⟨hall, rfl⟩ := hxs
      refine (ih ?_ (hplaced.same_file hfile) (after s xs)).mono
        fun ys code hys => ⟨hall.append hys.1, hys.2⟩
      have hstart : next.file.pos = state.file.pos + tarBlockSize := by
        rw [hplaced.file_eq]
        rfl
      simp only [FileStream.advance, tarBlockSize] at hfuel hstart ⊢
      omega

/-- A check gives up the member that a transfer would blame on the protocol: it
leaves the members in front of it as the walk does. -/
theorem MeetsFailedLz4.check_fails (hend : contentEnd ≤ file.bytes.length)
    (h : MeetsFailedLz4 dec pitTable allowUnknown contentEnd state) (fuel : Nat)
    (hfile : state.file.file = file) :
    (checkLoop dec pitTable allowUnknown contentEnd fuel state).code ≠ .success := by
  have hsize := file.size_lt
  induction fuel generalizing state with
  | zero => simp [checkLoop]
  | succ fuel ih =>
      rw [checkLoop]
      cases h with
      | here hread hfailed => simp [hread, checkEntry, hfailed.2]
      | @skip _ next hread hmeets =>
          rw [hread]
          obtain ⟨offset, header, dataSize, -, hspec⟩ := turn_accepted hread (by simp)
          cases hspec with
          | skip _ _ hnext =>
              refine ih hmeets ?_
              rw [hnext]
              exact hfile
      | @past _ next member hread _ hmeets =>
          have hplaced := readMember_placed hread
          have hdata := hplaced.data_le hfile hend
          have hsame := hplaced.same_file hfile
          rw [hsame] at hdata
          rw [hread]
          dsimp only
          cases hentry : checkEntry dec member next with
          | error code =>
              rw [checkEntry_firmware hentry]
              simp
          | ok last =>
              have hbegun : ({} : UsbDevice).Begun := fun hlegacy => by
                simp [UsbDevice.isOdinLegacy] at hlegacy
              have hleft : Returns _ (processMember dec {} false member next) :=
                processMember_advance hbegun hplaced.good (by omega : member.dataSize < 2 ^ 63) false
              rw [processMember_check, hentry] at hleft
              rw [(hleft [] _ ⟨rfl, rfl⟩ last rfl).2]
              exact ih hmeets hsame

end Loop

/-! ## Archives -/

/-- An archive that passes a check has no LZ4 member that is refused. -/
theorem not_meetsFailedLz4_of_check {host : Host} {tarPath : Bytes} {pitTable : PitTable}
    {allowUnknown : Bool}
    (hcheck : (checkTarFile pitTable allowUnknown host tarPath).code = .success)
    {file : FileStream} {contentEnd : Nat}
    (hopen : openArchive host tarPath = .ok (file, contentEnd)) :
    ¬ MeetsFailedLz4 host.lz4 pitTable allowUnknown contentEnd { file } := by
  intro hmeets
  obtain ⟨content, -, rfl, -, hend⟩ := openArchive_ok hopen
  rw [checkTarFile, hopen] at hcheck
  exact hmeets.check_fails hend _ rfl hcheck

/-- In Thor mode, with a device that accepts everything, the exit code is a
verdict on the archive if and only if the archive is only checked, or the walk
comes to no LZ4 member that is refused. -/
theorem exit_code_blames_archive_iff {usb : UsbDevice} (hthor : usb.protocolMode = .thor)
    (host : Host) (tarPath : Bytes) (pitTable : PitTable) (doFlash allowUnknown : Bool) :
    (∀ xs code, (processTarFile host tarPath usb pitTable doFlash allowUnknown).Executes
        (xs.flatMap Exchange.events) code → AllAccepted 0 xs → code.IsVerdict) ↔
      ¬ (doFlash = true ∧ ∃ file contentEnd, openArchive host tarPath = .ok (file, contentEnd) ∧
        MeetsFailedLz4 host.lz4 pitTable allowUnknown contentEnd { file }) := by
  have hmode : usb.isOdinLegacy = false := by simp [UsbDevice.isOdinLegacy, hthor]
  cases hopen : openArchive host tarPath with
  | error code =>
      refine iff_of_true (fun xs code' hexec _ => ?_) (by simp)
      rw [processTarFile, hopen] at hexec
      obtain ⟨-, rfl⟩ := hexec
      exact .inr (.inl (openArchive_firmware hopen))
  | ok opened =>
      obtain ⟨stream, contentEnd⟩ := opened
      obtain ⟨file, -, rfl, -, hend⟩ := openArchive_ok hopen
      cases doFlash with
      | false =>
          refine iff_of_true (fun xs code hexec _ => ?_) (by simp)
          rw [processTarFile_check, checkTarFile, hopen] at hexec
          obtain ⟨-, rfl⟩ := hexec
          exact checkLoop_judges _
      | true =>
          rw [processTarFile, hopen]
          constructor
          · rintro hverdict ⟨-, _, _, heq, hmeets⟩
            obtain ⟨rfl, rfl⟩ := Prod.mk.inj (Except.ok.inj heq)
            have hfuel := lt_memberFuel contentEnd
            obtain ⟨xs, code, hexec, hall, rfl⟩ :=
              hmeets.blames hmode hend (by simpa [FileStream.openFile] using hfuel) rfl 0
            have hcode := hverdict xs _ hexec hall
            simp [ExitCode.IsVerdict] at hcode
          · intro hmeets xs code hexec hall
            obtain ⟨ys, hys, hjudged⟩ := memberLoop_judges hmode hend _ rfl 0 _ _ hexec
            obtain rfl := exchanges_injective hys
            obtain hverdict | ⟨-, hfailed⟩ := hjudged hall
            · exact hverdict
            · exact absurd ⟨rfl, _, _, rfl, hfailed⟩ hmeets

/-- A member of one byte that has an LZ4 name is refused when it is flashed. -/
theorem refused_lz4_is_protocol :
    ¬ ∀ xs code, (processTarFile (archiveHost capitalArchive) (ascii "firmware.tar") {} capitalPit
      true false).Executes (xs.flatMap Exchange.events) code → AllAccepted 0 xs →
        code.IsVerdict := by
  intro h
  have hrun : processTarFile (archiveHost capitalArchive) (ascii "firmware.tar") {} capitalPit true
      false = pure .protocol := by
    have hlz4 : EndsInLz4AnyCase capitalImage.member.name := isLz4Name_iff.mp (by decide +kernel)
    have hbytes : capitalArchive.bytes = tarArchive ([capitalImage].map (·.member)) := rfl
    have hfile := archiveHost_fs capitalArchive
    have hdecoder : (archiveHost capitalArchive).lz4 = storedFrames := rfl
    generalize archiveHost capitalArchive = host at hfile hdecoder ⊢
    exact processTarFile_lz4 hlz4 (by decide +kernel) rfl hdecoder (by decide +kernel) hfile hbytes
      (List.nodup_singleton _) false
  have hcode := h [] .protocol (by rw [hrun]; exact ⟨rfl, rfl⟩) trivial
  simp [ExitCode.IsVerdict] at hcode

/-- A check of an archive whose image a transfer would refuse, and a transfer of
an LZ4 image that is accepted. -/
theorem exit_code_blames_archive_packed :
    (∀ xs code, (processTarFile (archiveHost capitalArchive) (ascii "firmware.tar") {} capitalPit
        false false).Executes (xs.flatMap Exchange.events) code → AllAccepted 0 xs →
          code.IsVerdict) ∧
    ∀ xs code, (processTarFile (archiveHost packedArchive) (ascii "firmware.tar") {} firmwarePit
        true false).Executes (xs.flatMap Exchange.events) code → AllAccepted 0 xs →
          code.IsVerdict := by
  have hcheck : (checkTarFile firmwarePit false (archiveHost packedArchive)
      (ascii "firmware.tar")).code = .success := by decide +kernel
  generalize archiveHost capitalArchive = checkedHost
  generalize archiveHost packedArchive = host at *
  refine ⟨(exit_code_blames_archive_iff rfl checkedHost _ _ false false).mpr (by simp),
    (exit_code_blames_archive_iff rfl host _ _ true false).mpr ?_⟩
  rintro ⟨-, file, contentEnd, hopen, hmeets⟩
  exact not_meetsFailedLz4_of_check hcheck hopen hmeets

end Odin4
