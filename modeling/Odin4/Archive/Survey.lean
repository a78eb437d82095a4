import Odin4.Archive.Delivery
import Odin4.Archive.ProcessTar
import Odin4.Archive.TrailerSearch
import Odin4.Usb.LegacyExact

/-!
# Surveying archives

A survey walks over the archives as if the device accepted everything: it says
with which result the walk ends and whether a member has been transferred by
then. Flashing follows the survey unless the device refuses something.
-/

namespace Odin4

open Interaction Program Dialogue

/-! ## Flashing packets -/

/-- The packets that write partitions: the announcements, parts and ends of files. -/
def Packet.isFlashing : Packet → Bool
  | thor (.filePartSize _) | thor (.filePart ..) | thor (.endFileTransfer _) => true
  | odin cmd _ _ => cmd == 0x66
  | data _ => true
  | _ => false

def flashes (xs : List Exchange) : Bool := (messages xs).any Packet.isFlashing

@[simp] theorem flashes_append (xs ys : List Exchange) :
    flashes (xs ++ ys) = (flashes xs || flashes ys) := by
  simp [flashes]

theorem flashes_of_head {xs : List Exchange} {packet : Packet} {rest : List Packet}
    (hmessages : messages xs = packet :: rest) (hpacket : packet.isFlashing = true) :
    flashes xs = true := by
  simp [flashes, hmessages, hpacket]

/-! ## Members -/

/-- The stream behind the data of a member that have been transferred; `none`
for data that cannot be transferred. -/
def passMember (dec : Lz4Decoder) (usb : UsbDevice) (member : Member) (file : FileStream) :
    Option FileStream :=
  if member.isLz4 then
    if usb.isOdinLegacy then none
    else (lz4Plan dec file member.dataSize).bind (lz4Result dec file member.dataSize)
  else if file.rest.length < member.dataSize ∨
      (usb.isOdinLegacy = true ∧ ¬ LegacyFits usb member.dataSize) then none
  else some (file.advance member.dataSize)

/-- Devices in a session: in legacy mode the parameters have been negotiated. -/
def UsbDevice.Begun (usb : UsbDevice) : Prop := usb.isOdinLegacy = true → LegacyParameters usb

section Members

variable {dec : Lz4Decoder} {usb : UsbDevice} {member : Member} {file : FileStream}

theorem protocolMode_of_isOdinLegacy (h : usb.isOdinLegacy = false) : usb.protocolMode = .thor := by
  cases hmode : usb.protocolMode with
  | thor => rfl
  | odinLegacy => simp [UsbDevice.isOdinLegacy, hmode] at h

theorem announcement_isFlashing (h : usb.isOdinLegacy = false) (size : Nat) :
    (announcement usb size).isFlashing = true := by
  simp [announcement, h, Packet.isFlashing]

variable (dec) in
/-- A raw transfer that succeeds ends where the survey says. -/
theorem flashPartitionStream_outcome (hbegun : usb.Begun) (hraw : member.isLz4 = false)
    (hsize : member.dataSize < 2 ^ 63) :
    Exchanges (flashPartitionStream usb file member.dataSize member.pitEntry member.isLarge)
      fun xs result => result.1 = true →
        passMember dec usb member file = some result.2 ∧ flashes xs = true := by
  unfold passMember
  simp only [hraw, Bool.false_eq_true, ↓reduceIte]
  cases hlegacy : usb.isOdinLegacy with
  | false =>
      refine (flashPartitionStream_follows hlegacy file member.dataSize member.pitEntry
        member.isLarge 0).mono fun xs result hxs htrue => ?_
      obtain ⟨payloads, ok, hfollows, -, hdone, -⟩ := hxs
      obtain ⟨rfl, hlength, -, hfile, -⟩ := hdone htrue
      refine ⟨?_, flashes_of_head hfollows.completed.2 rfl⟩
      rw [hfile, if_neg (not_or.mpr ⟨Nat.not_lt.mpr hlength, by simp⟩)]
  | true =>
      unfold flashPartitionStream
      rw [if_pos hlegacy]
      refine (flashLegacyStream_success (hbegun hlegacy) file hsize member.pitEntry).mono
        fun xs result hxs htrue => ?_
      obtain ⟨hfits, hlength, hfile, sequences, hmessages⟩ := hxs htrue
      refine ⟨?_, flashes_of_head hmessages rfl⟩
      rw [hfile, if_neg (not_or.mpr ⟨Nat.not_lt.mpr hlength, by simp [hfits]⟩)]

/-- A transfer ends where the survey says, or with a protocol error. -/
theorem transferMember_outcome (hbegun : usb.Begun) (hsize : member.dataSize < 2 ^ 63) :
    Exchanges (transferMember dec usb true member file) fun xs result =>
      result = .error .protocol ∨ ∃ file', passMember dec usb member file = some file' ∧
        flashes xs = true ∧ result = .ok file' := by
  unfold transferMember
  cases hlz4 : member.isLz4 with
  | false =>
      simp only [Bool.false_eq_true, ↓reduceIte]
      refine conducts_bind (flashPartitionStream_outcome dec hbegun hlz4 hsize)
        fun xs result hxs => ?_
      obtain ⟨sentAll, file'⟩ := result
      cases sentAll with
      | false => exact conducts_pure (.inl rfl)
      | true =>
          obtain ⟨hpass, hflashes⟩ := hxs rfl
          refine conducts_pure (.inr ⟨file', hpass, ?_, rfl⟩)
          rwa [List.append_nil]
  | true =>
      cases hlegacy : usb.isOdinLegacy with
      | true => exact conducts_pure (.inl rfl)
      | false =>
          simp only [Bool.false_and, Bool.false_eq_true, ↓reduceIte]
          cases hplan : lz4Plan dec file member.dataSize with
          | none =>
              rw [processLz4Streaming_unplanned _ _ _ _ _ _ hplan]
              exact conducts_pure (.inl rfl)
          | some plan =>
              refine conducts_bind (processLz4Streaming_follows dec file member.dataSize usb
                member.isLarge hplan 0) fun xs result hxs => ?_
              obtain ⟨ok, hfollows, rfl⟩ := hxs
              cases ok with
              | false => exact conducts_pure (.inl rfl)
              | true =>
                  simp only [↓reduceIte]
                  cases hresult : lz4Result dec file member.dataSize plan with
                  | none => exact conducts_pure (.inl rfl)
                  | some file' =>
                      refine conducts_pure (.inr ⟨file', ?_, ?_, rfl⟩)
                      · simp [passMember, hlz4, hlegacy, hplan, hresult]
                      · rw [List.append_nil]
                        exact flashes_of_head hfollows.completed.2 (announcement_isFlashing hlegacy _)

/-- What the survey lets pass can be transferred. -/
theorem transferMember_passes (hok : file.failed = false) {file' : FileStream}
    (hpass : passMember dec usb member file = some file') :
    Accepts (transferMember dec usb true member file) fun _ result => ∃ file, result = .ok file := by
  unfold passMember at hpass
  unfold transferMember
  cases hlz4 : member.isLz4 with
  | false =>
      simp only [hlz4, Bool.false_eq_true, ↓reduceIte] at hpass ⊢
      split at hpass
      next => simp at hpass
      next hfits =>
        obtain ⟨hlength, hfits⟩ := not_or.mp hfits
        have hsends : Accepts (flashPartitionStream usb file member.dataSize member.pitEntry
            member.isLarge) fun _ result => result.1 = true := by
          cases hlegacy : usb.isOdinLegacy with
          | false =>
              exact flashPartitionStream_accepts (protocolMode_of_isOdinLegacy hlegacy) hok
                (Nat.not_lt.mp hlength) _ _
          | true =>
              unfold flashPartitionStream
              rw [if_pos hlegacy]
              exact flashLegacyStream_accepts usb _ (by simpa [hlegacy] using hfits) hok
                (Nat.not_lt.mp hlength)
        refine admits_bind hsends fun xs result htrue => ?_
        obtain ⟨sentAll, file''⟩ := result
        obtain rfl : sentAll = true := htrue
        exact admits_pure ⟨file'', rfl⟩
  | true =>
      simp only [hlz4, ↓reduceIte] at hpass ⊢
      split at hpass
      next => simp at hpass
      next hlegacy =>
        obtain ⟨plan, hplan, hresult⟩ := Option.bind_eq_some_iff.mp hpass
        rw [if_neg (by simp [hlegacy])]
        refine admits_bind (processLz4Streaming_accepts hplan usb member.isLarge 0)
          fun xs result hxs => ?_
        obtain ⟨-, rfl⟩ := hxs
        rw [hresult]
        exact admits_pure ⟨file', rfl⟩

/-- The padding behind a member that has been transferred. -/
def leaveMember (member : Member) (state : WalkState) (file : FileStream) :
    Except ExitCode WalkState :=
  let file := file.seekCur (tarPadding member.dataSize)
  if file.failed then .error .firmware else .ok { state with file }

variable {state : WalkState}

theorem processMember_outcome (hbegun : usb.Begun) (hsize : member.dataSize < 2 ^ 63) :
    Exchanges (processMember dec usb true member state) fun xs result =>
      result = .error .protocol ∨ ∃ file, passMember dec usb member state.file = some file ∧
        flashes xs = true ∧ result = leaveMember member state file := by
  unfold processMember
  refine conducts_bind (transferMember_outcome hbegun hsize) fun xs result hxs => ?_
  obtain rfl | ⟨file, hpass, hflashes, rfl⟩ := hxs
  · exact conducts_pure (.inl rfl)
  · dsimp only
    split
    next hfailed =>
      refine conducts_pure (.inr ⟨file, hpass, ?_, ?_⟩)
      · rwa [List.append_nil]
      · rw [leaveMember, if_pos hfailed]
    next hgood =>
      simp only [↓reduceIte]
      refine conducts_bind (endFileTransfer_keeping usb _ 0) fun ys ok _ => ?_
      cases ok with
      | false => exact conducts_pure (.inl rfl)
      | true =>
          refine conducts_pure (.inr ⟨file, hpass, by simp [hflashes], ?_⟩)
          rw [leaveMember, if_neg hgood]

theorem endFileTransfer_accepts (usb : UsbDevice) (partitionId : UInt32) :
    Accepts (endFileTransfer usb partitionId) fun _ ok => ok = true := by
  unfold endFileTransfer
  split
  · exact admits_pure rfl
  · exact thorExchange_accepts _ 0

theorem processMember_passes (hbegun : usb.Begun) (hok : state.file.failed = false)
    (hsize : member.dataSize < 2 ^ 63) {file : FileStream}
    (hpass : passMember dec usb member state.file = some file) :
    Accepts (processMember dec usb true member state) fun _ result =>
      result = leaveMember member state file := by
  unfold processMember
  refine admits_bind ((transferMember_passes hok hpass).and
    (transferMember_outcome hbegun hsize)) fun xs result hresult => ?_
  obtain ⟨⟨file', rfl⟩, hfailed | ⟨file'', hpass', -, hfile⟩⟩ := hresult
  · simp at hfailed
  · obtain rfl := Option.some.inj (hpass.symm.trans hpass')
    obtain rfl := Except.ok.inj hfile
    unfold leaveMember
    dsimp only
    split
    next => exact admits_pure rfl
    next =>
      simp only [↓reduceIte]
      refine admits_bind (endFileTransfer_accepts usb _) fun ys ok htrue => ?_
      subst htrue
      exact admits_pure rfl

end Members

/-! ## Archives -/

section Archives

variable (dec : Lz4Decoder) (usb : UsbDevice) (pitTable : PitTable) (allowUnknown : Bool)

/-- The result of the walk and whether a member was transferred, given whether
one was transferred before; `none` where a transfer fails. -/
def surveyLoop (contentEnd : Nat) :
    (fuel : Nat) → (before : Bool) → WalkState → Option (ExitCode × Bool)
  | 0, before, _ => some (.firmware, before)
  | fuel + 1, before, state =>
      match readMember contentEnd pitTable allowUnknown state with
      | .stop code => some (code, before)
      | .skip next => surveyLoop contentEnd fuel before next
      | .matched member next =>
          match passMember dec usb member next.file with
          | none => none
          | some file =>
              match leaveMember member next file with
              | .error code => some (code, true)
              | .ok next => surveyLoop contentEnd fuel true next

def surveyTarFile (host : Host) (tarPath : Bytes) (before : Bool) : Option (ExitCode × Bool) :=
  match openArchive host tarPath with
  | .error code => some (code, before)
  | .ok (file, contentEnd) =>
      surveyLoop host.lz4 usb pitTable allowUnknown contentEnd (memberFuel contentEnd) before
        { file }

/-- Unless something is refused, flashing ends as surveyed; and it can end so. -/
structure Surveyed (program : Usb ExitCode) (survey : Bool → Option (ExitCode × Bool)) : Prop where
  predicts : ∀ before, Exchanges program fun xs code =>
    code = .protocol ∨ survey before = some (code, before || flashes xs)
  attains : ∀ before code transferred, survey before = some (code, transferred) →
    Accepts program fun _ code' => code' = code

theorem surveyed_pure (code : ExitCode) :
    Surveyed (pure code) fun before => some (code, before) where
  predicts before := conducts_pure (.inr (by simp [flashes, messages]))
  attains before code' transferred h := by
    obtain ⟨rfl, -⟩ := Prod.mk.inj (Option.some.inj h)
    exact admits_pure rfl

variable {pitTable allowUnknown}

theorem skipTo_matched {state next : WalkState} {file? : Option FileStream} {member : Member} :
    skipTo state file? ≠ .matched member next := by
  cases file? <;> simp [skipTo]

theorem regularEntry_matched {state next : WalkState} {filename : Bytes} {dataSize : Nat}
    {member : Member}
    (h : regularEntry pitTable allowUnknown state filename dataSize = .matched member next) :
    next.file = state.file ∧ member.dataSize = dataSize := by
  unfold regularEntry at h
  split at h
  next => simp at h
  split at h
  next =>
    split at h
    next => exact absurd h skipTo_matched
    next => simp at h
  next =>
    split at h
    next => simp at h
    next =>
      obtain ⟨rfl, rfl⟩ := MemberStep.matched.inj h
      exact ⟨rfl, rfl⟩

theorem classifyEntry_matched {state next : WalkState} {typeflag : UInt8} {filename : Bytes}
    {dataSize : Nat} {member : Member}
    (h : classifyEntry pitTable allowUnknown state typeflag filename dataSize =
      .matched member next) : next.file = state.file ∧ member.dataSize = dataSize := by
  unfold classifyEntry at h
  split at h
  next => split at h <;> simp at h
  split at h
  next => split at h <;> simp at h
  split at h
  next => exact absurd h skipTo_matched
  next => exact regularEntry_matched h

/-- A matched member lies within the content, and the stream is good. -/
theorem readMember_matched {contentEnd : Nat} {state next : WalkState} {member : Member}
    (h : readMember contentEnd pitTable allowUnknown state = .matched member next) :
    next.file.failed = false ∧ member.dataSize ≤ contentEnd := by
  unfold readMember at h
  split at h
  next => simp at h
  split at h
  next => simp at h
  dsimp only at h
  split at h
  next => simp at h
  split at h
  next => simp at h
  split at h
  next => simp at h
  split at h
  next => simp at h
  split at h
  next => simp at h
  next dataStart htell =>
    split at h
    next => simp at h
    next hfits =>
      obtain ⟨hfile, hsize⟩ := classifyEntry_matched h
      rw [hfile, hsize]
      refine ⟨?_, by omega⟩
      unfold FileStream.tellg at htell
      split at htell
      next => simp at htell
      next hgood => simpa using hgood

theorem memberLoop_surveyed {dec : Lz4Decoder} (hbegun : usb.Begun) {contentEnd : Nat}
    (hcontent : contentEnd < 2 ^ 63) (fuel : Nat) (state : WalkState) :
    Surveyed (memberLoop dec usb pitTable true allowUnknown contentEnd fuel state)
      fun before => surveyLoop dec usb pitTable allowUnknown contentEnd fuel before state := by
  induction fuel generalizing state with
  | zero => exact surveyed_pure .firmware
  | succ fuel ih =>
      cases hread : readMember contentEnd pitTable allowUnknown state with
      | stop code =>
          simp only [memberLoop, surveyLoop, hread]
          exact surveyed_pure code
      | skip next =>
          simp only [memberLoop, surveyLoop, hread]
          exact ih next
      | matched member next =>
          simp only [memberLoop, surveyLoop, hread]
          obtain ⟨hok, hsize⟩ := readMember_matched hread
          have hsize : member.dataSize < 2 ^ 63 := by omega
          -- The survey foretells every run, and a device that accepts everything bears it out.
          constructor
          · intro before
            refine conducts_bind (processMember_outcome hbegun hsize) fun xs result hxs => ?_
            obtain rfl | ⟨file, hpass, hflashes, rfl⟩ := hxs
            · exact conducts_pure (.inl rfl)
            · rw [hpass]
              dsimp only
              cases hleave : leaveMember member next file with
              | error code =>
                  refine conducts_pure (.inr ?_)
                  rw [List.append_nil, hflashes, Bool.or_true]
              | ok last =>
                  refine ((ih last).predicts true).mono fun ys code hys => hys.imp_right fun h => ?_
                  rw [flashes_append, hflashes, Bool.true_or, Bool.or_true]
                  exact h
          · intro before code transferred hsurvey
            cases hpass : passMember dec usb member next.file with
            | none => simp [hpass] at hsurvey
            | some file =>
                rw [hpass] at hsurvey
                refine admits_bind (processMember_passes hbegun hok hsize hpass)
                  fun xs result hresult => ?_
                subst hresult
                dsimp only at hsurvey
                cases hleave : leaveMember member next file with
                | error code' =>
                    rw [hleave] at hsurvey
                    obtain ⟨rfl, -⟩ := Prod.mk.inj (Option.some.inj hsurvey)
                    exact admits_pure rfl
                | ok last =>
                    rw [hleave] at hsurvey
                    exact (ih last).attains true code transferred hsurvey

/-- An archive is opened at its beginning; the content ends within the file. -/
theorem openArchive_ok {host : Host} {tarPath : Bytes} {stream : FileStream} {contentEnd : Nat}
    (h : openArchive host tarPath = .ok (stream, contentEnd)) :
    ∃ file, host.fs tarPath = some file ∧ stream = FileStream.openFile file ∧
      tarBlockSize ≤ contentEnd ∧ contentEnd ≤ file.bytes.length := by
  unfold openArchive at h
  cases hdetect : detectTarMd5Info host.fs tarPath with
  | error code => simp only [hdetect, Bind.bind, Except.bind, reduceCtorEq] at h
  | ok info =>
      obtain ⟨file, hfile, hle⟩ := detectTarMd5Info_le hdetect
      have hlimit : (if info.hasMd5 = true then info.contentEnd else file.bytes.length) ≤
          file.bytes.length := by
        split
        · exact hle
        · exact Nat.le_refl _
      simp only [hdetect, hfile, Bind.bind, Except.bind] at h
      generalize (if info.hasMd5 = true then info.contentEnd else file.bytes.length) = limit
        at h hlimit
      split at h
      next =>
        split at h
        next => cases h
        next hlong =>
          obtain ⟨rfl, rfl⟩ := Prod.mk.inj (Except.ok.inj h)
          exact ⟨file, hfile, rfl, Nat.not_lt.mp hlong, hlimit⟩
      next => cases h

theorem openArchive_contentEnd {host : Host} {tarPath : Bytes} {stream : FileStream}
    {contentEnd : Nat} (h : openArchive host tarPath = .ok (stream, contentEnd)) :
    contentEnd < 2 ^ 63 := by
  obtain ⟨file, -, -, -, hle⟩ := openArchive_ok h
  exact Nat.lt_of_le_of_lt hle file.size_lt

variable (pitTable allowUnknown) in
theorem processTarFile_surveyed (hbegun : usb.Begun) (host : Host) (tarPath : Bytes) :
    Surveyed (processTarFile host tarPath usb pitTable true allowUnknown)
      (surveyTarFile usb pitTable allowUnknown host tarPath) := by
  unfold processTarFile surveyTarFile
  cases hopen : openArchive host tarPath with
  | error code => exact surveyed_pure code
  | ok opened =>
      obtain ⟨file, contentEnd⟩ := opened
      exact memberLoop_surveyed usb hbegun (openArchive_contentEnd hopen) _ _

end Archives

end Odin4
