import Odin4.Archive.Survey
import Odin4.Archive.TarReading

/-!
# Visits

The loop over the entries with a record of the headers that it reads. A visit
is one header with what became of it; leaving the record out gives back the
loop.
-/

namespace Odin4

open Interaction Program Dialogue

/-- What the loop makes of the block at its position, before it looks at the entry. -/
inductive HeaderStep where
  /-- There is no header to read. -/
  | absent (code : ExitCode)
  /-- The block that is read ends the walk. -/
  | refused (offset : Nat) (header : Bytes) (code : ExitCode)
  /-- A valid header; the data behind it end within the content. -/
  | accepted (offset : Nat) (header : Bytes) (dataSize : Nat)

/-- The size field of a header block. -/
def headerSize (header : Bytes) : Option Nat := parseOctalU64 (fieldAt header 124 12)

/-- Twelve octal digits. -/
theorem headerSize_lt {header : Bytes} {dataSize : Nat} (h : headerSize header = some dataSize) :
    dataSize < 8 ^ 12 :=
  Nat.lt_of_lt_of_le (parseOctalU64_lt h)
    (Nat.pow_le_pow_right (by decide) (length_fieldAt_le header 124 12))

def readHeader (contentEnd : Nat) (file : FileStream) : HeaderStep :=
  match file.tellg with
  | none => .absent .firmware
  | some pos =>
      if contentEnd < pos + tarBlockSize then .absent .success
      else
        let header := (file.read tarBlockSize).1
        if header.length ≠ tarBlockSize then .refused pos header .firmware
        else if isAllZerosBlock header then .refused pos header .success
        else if !tarHeaderChecksumValid header then .refused pos header .firmware
        else
          match headerSize header with
          | none => .refused pos header .firmware
          | some dataSize =>
              if contentEnd < pos + tarBlockSize + dataSize then .refused pos header .firmware
              else .accepted pos header dataSize

/-- What is done with an entry behind an accepted header. -/
def enterEntry (pitTable : PitTable) (allowUnknown : Bool) (state : WalkState) (header : Bytes)
    (dataSize : Nat) : MemberStep :=
  let (filename, next) :=
    takeFilename { state with file := state.file.advance tarBlockSize } header
  classifyEntry pitTable allowUnknown next (header.getD 156 0) filename dataSize

/-- What is known of an accepted header. -/
structure Accepted (contentEnd : Nat) (file : FileStream) (offset : Nat) (header : Bytes)
    (dataSize : Nat) : Prop where
  good : file.failed = false
  offset_eq : file.pos = offset
  header_eq : header = file.rest.take tarBlockSize
  length_eq : header.length = tarBlockSize
  size_eq : headerSize header = some dataSize
  fits : offset + tarBlockSize + dataSize ≤ contentEnd

section Headers

variable {contentEnd : Nat} {file : FileStream} {offset dataSize : Nat} {header : Bytes}

/-- What reading a header can come to. -/
inductive HeaderSpec (contentEnd : Nat) (file : FileStream) : HeaderStep → Prop where
  | failed : file.failed = true → HeaderSpec contentEnd file (.absent .firmware)
  | exhausted : contentEnd < file.pos + tarBlockSize → HeaderSpec contentEnd file (.absent .success)
  | refused {code : ExitCode} : file.failed = false → file.pos + tarBlockSize ≤ contentEnd →
      HeaderSpec contentEnd file (.refused file.pos (file.read tarBlockSize).1 code)
  | accepted {dataSize : Nat} :
      Accepted contentEnd file file.pos (file.rest.take tarBlockSize) dataSize →
      HeaderSpec contentEnd file (.accepted file.pos (file.rest.take tarBlockSize) dataSize)

theorem readHeader_spec (contentEnd : Nat) (file : FileStream) :
    HeaderSpec contentEnd file (readHeader contentEnd file) := by
  unfold readHeader
  split
  next htell =>
    apply HeaderSpec.failed
    simpa [FileStream.tellg] using htell
  next pos htell =>
    obtain ⟨hok, rfl⟩ : file.failed = false ∧ file.pos = pos := by
      simpa [FileStream.tellg] using htell
    split
    next hend => exact .exhausted hend
    next hwithin =>
      have hwithin := Nat.not_lt.mp hwithin
      dsimp only
      split
      next => exact .refused hok hwithin
      next hfull =>
        have hfull := not_not.mp hfull
        obtain ⟨-, hcount⟩ := FileStream.read_full (by decide) hfull
        have hheader := congrArg Prod.fst (FileStream.read_of_le hok hcount)
        split
        next => exact .refused hok hwithin
        split
        next => exact .refused hok hwithin
        split
        next => exact .refused hok hwithin
        next size hsize =>
          split
          next => exact .refused hok hwithin
          next hfits =>
            rw [hheader] at hfull hsize ⊢
            exact .accepted ⟨hok, rfl, rfl, hfull, hsize, Nat.not_lt.mp hfits⟩

theorem readHeader_accepted (h : readHeader contentEnd file = .accepted offset header dataSize) :
    Accepted contentEnd file offset header dataSize := by
  have hspec := readHeader_spec contentEnd file
  rw [h] at hspec
  cases hspec with
  | accepted haccepted => exact haccepted

theorem readHeader_refused {code : ExitCode}
    (h : readHeader contentEnd file = .refused offset header code) :
    file.failed = false ∧ file.pos = offset ∧ header = (file.read tarBlockSize).1 ∧
      offset + tarBlockSize ≤ contentEnd := by
  have hspec := readHeader_spec contentEnd file
  rw [h] at hspec
  cases hspec with
  | refused hok hwithin => exact ⟨hok, rfl, rfl, hwithin⟩

/-- Why there is no header to read. -/
theorem readHeader_absent {code : ExitCode} (h : readHeader contentEnd file = .absent code) :
    file.failed = true ∧ code = .firmware ∨
      contentEnd < file.pos + tarBlockSize ∧ code = .success := by
  have hspec := readHeader_spec contentEnd file
  rw [h] at hspec
  cases hspec with
  | failed hfailed => exact .inl ⟨hfailed, rfl⟩
  | exhausted hend => exact .inr ⟨hend, rfl⟩

/-- Reading a header comes before everything else. -/
theorem readMember_eq (pitTable : PitTable) (allowUnknown : Bool) (state : WalkState) :
    readMember contentEnd pitTable allowUnknown state =
      match readHeader contentEnd state.file with
      | .absent code => .stop code
      | .refused _ _ code => .stop code
      | .accepted _ header dataSize => enterEntry pitTable allowUnknown state header dataSize := by
  unfold readMember readHeader
  cases htell : state.file.tellg with
  | none => rfl
  | some pos =>
      obtain ⟨hok, rfl⟩ : state.file.failed = false ∧ state.file.pos = pos := by
        simpa [FileStream.tellg] using htell
      dsimp only
      by_cases hend : contentEnd < state.file.pos + tarBlockSize
      · rw [if_pos hend, if_pos hend]
      rw [if_neg hend, if_neg hend]
      by_cases hfull : (state.file.read tarBlockSize).1.length = tarBlockSize
      swap
      · rw [if_pos hfull, if_pos hfull]
      obtain ⟨-, hcount⟩ := FileStream.read_full (by decide) hfull
      rw [if_neg (not_not.mpr hfull), if_neg (not_not.mpr hfull)]
      by_cases hzeros : isAllZerosBlock (state.file.read tarBlockSize).1 = true
      · rw [if_pos hzeros, if_pos hzeros]
      rw [if_neg hzeros, if_neg hzeros]
      by_cases hchecksum : (!tarHeaderChecksumValid (state.file.read tarBlockSize).1) = true
      · rw [if_pos hchecksum, if_pos hchecksum]
      rw [if_neg hchecksum, if_neg hchecksum]
      change (match headerSize (state.file.read tarBlockSize).1 with
        | none => _ | some dataSize => _) = _
      cases headerSize (state.file.read tarBlockSize).1 with
      | none => rfl
      | some dataSize =>
          rw [congrArg Prod.snd (FileStream.read_of_le hok hcount)]
          dsimp only [enterEntry]
          have hstart : (takeFilename { state with file := state.file.advance tarBlockSize }
              (state.file.read tarBlockSize).1).2.file.tellg =
                some (state.file.pos + tarBlockSize) := by
            rw [takeFilename_file]
            simp [FileStream.tellg, hok]
          simp only [hstart]
          by_cases hfits : contentEnd < state.file.pos + tarBlockSize + dataSize
          · rw [if_pos hfits, if_pos (by omega)]
          · rw [if_neg hfits, if_neg (by omega)]

end Headers

/-! ## Entries -/

/-- A whole number of blocks. -/
def roundUp512 (size : Nat) : Nat := (size + 511) / 512 * 512

theorem add_tarPadding (size : Nat) : size + tarPadding size = roundUp512 size := by
  unfold tarPadding roundUp512
  omega

/-- What an entry behind an accepted header leads to. -/
inductive EntrySpec (start : FileStream) (dataSize : Nat) : MemberStep → Prop where
  | stop {code} : EntrySpec start dataSize (.stop code)
  | skip {next} : next.file.failed = false →
      next.file = start.advance (tarBlockSize + roundUp512 dataSize) →
      EntrySpec start dataSize (.skip next)
  | matched {member next} : member.dataSize = dataSize →
      next.file = start.advance tarBlockSize → EntrySpec start dataSize (.matched member next)

section Entries

variable {file file' : FileStream} {dataSize : Nat}

theorem seekPadding_good (h : ((file.advance dataSize).seekCur (tarPadding dataSize)).failed = false) :
    (file.advance dataSize).seekCur (tarPadding dataSize) = file.advance (roundUp512 dataSize) := by
  rw [(FileStream.seekCur_good h).2.2, FileStream.advance_advance, add_tarPadding]

theorem readExtension_good {data : Bytes} (h : readExtension file dataSize = some (data, file')) :
    file'.failed = false ∧ file' = file.advance (roundUp512 dataSize) := by
  obtain ⟨-, hlength, hgood, -, rfl⟩ : dataSize ≤ extensionLimit ∧
      (file.read dataSize).1.length = dataSize ∧
      ((file.read dataSize).2.seekCur (tarPadding dataSize)).failed = false ∧
      (file.read dataSize).1 = data ∧
      (file.read dataSize).2.seekCur (tarPadding dataSize) = file' := by
    simpa [readExtension] using h
  have hread : (file.read dataSize).2 = file.advance dataSize := by
    have hpadded := (FileStream.seekCur_good hgood).1
    unfold FileStream.read at hpadded hlength ⊢
    split at hpadded
    next hfailed => simp [hfailed] at hpadded
    next hok =>
      simp only [hok, Bool.false_eq_true, ↓reduceIte] at hlength ⊢
      simp [FileStream.advance, hlength, hok]
  rw [hread] at hgood ⊢
  exact ⟨hgood, seekPadding_good hgood⟩

theorem skipEntryData_good (h : skipEntryData file dataSize = some file') :
    file'.failed = false ∧ file' = file.advance (roundUp512 dataSize) := by
  obtain ⟨-, hskipped, hgood, rfl⟩ : dataSize ≤ streamoffMax ∧
      (file.seekCur dataSize).failed = false ∧
      ((file.seekCur dataSize).seekCur (tarPadding dataSize)).failed = false ∧
      (file.seekCur dataSize).seekCur (tarPadding dataSize) = file' := by
    simpa [skipEntryData] using h
  rw [(FileStream.seekCur_good hskipped).2.2] at hgood ⊢
  exact ⟨hgood, seekPadding_good hgood⟩

theorem skipTo_spec {state : WalkState} {start : FileStream}
    (hstart : file = start.advance tarBlockSize) :
    EntrySpec start dataSize (skipTo state (skipEntryData file dataSize)) := by
  cases hskip : skipEntryData file dataSize with
  | none => exact .stop
  | some behind =>
      obtain ⟨hgood, hbehind⟩ := skipEntryData_good hskip
      refine .skip hgood ?_
      rw [hbehind, hstart, FileStream.advance_advance]

/-- An entry is skipped as a whole, or its data follow. -/
theorem enterEntry_spec (pitTable : PitTable) (allowUnknown : Bool) (state : WalkState)
    (header : Bytes) (dataSize : Nat) :
    EntrySpec state.file dataSize (enterEntry pitTable allowUnknown state header dataSize) := by
  have hfile := takeFilename_file
    { state with file := state.file.advance tarBlockSize } header
  unfold enterEntry
  generalize takeFilename { state with file := state.file.advance tarBlockSize } header = named
    at hfile ⊢
  obtain ⟨filename, next⟩ := named
  have hfile : next.file = state.file.advance tarBlockSize := hfile
  have hextension : ∀ {data behind}, readExtension next.file dataSize = some (data, behind) →
      behind.failed = false ∧ behind = state.file.advance (tarBlockSize + roundUp512 dataSize) := by
    intro data behind h
    obtain ⟨hgood, hbehind⟩ := readExtension_good h
    rw [hfile, FileStream.advance_advance] at hbehind
    exact ⟨hgood, hbehind⟩
  dsimp only
  unfold classifyEntry
  split
  next =>
    split
    next => exact .stop
    next h => exact .skip (hextension h).1 (hextension h).2
  split
  next =>
    split
    next => exact .stop
    next h => exact .skip (hextension h).1 (hextension h).2
  split
  next => exact skipTo_spec hfile
  unfold regularEntry
  split
  next => exact .stop
  split
  next =>
    split
    next => exact skipTo_spec hfile
    next => exact .stop
  next =>
    split
    next => exact .stop
    next => exact .matched rfl hfile

end Entries

/-- What a turn of the loop can do: the block that it reads with what follows. -/
inductive TurnSpec (contentEnd : Nat) (start : FileStream) : HeaderStep → MemberStep → Prop where
  | absent {code} : TurnSpec contentEnd start (.absent code) (.stop code)
  | refused {offset header code} : start.failed = false → start.pos = offset →
      header = (start.read tarBlockSize).1 → offset + tarBlockSize ≤ contentEnd →
      TurnSpec contentEnd start (.refused offset header code) (.stop code)
  | stopped {offset header dataSize code} :
      Accepted contentEnd start offset header dataSize →
      TurnSpec contentEnd start (.accepted offset header dataSize) (.stop code)
  | skip {offset header dataSize next} : Accepted contentEnd start offset header dataSize →
      next.file.failed = false → next.file = start.advance (tarBlockSize + roundUp512 dataSize) →
      TurnSpec contentEnd start (.accepted offset header dataSize) (.skip next)
  | matched {offset header dataSize member next} :
      Accepted contentEnd start offset header dataSize → member.dataSize = dataSize →
      next.file = start.advance tarBlockSize →
      TurnSpec contentEnd start (.accepted offset header dataSize) (.matched member next)

theorem readMember_spec (contentEnd : Nat) (pitTable : PitTable) (allowUnknown : Bool)
    (state : WalkState) :
    TurnSpec contentEnd state.file (readHeader contentEnd state.file)
      (readMember contentEnd pitTable allowUnknown state) := by
  rw [readMember_eq]
  cases hheader : readHeader contentEnd state.file with
  | absent code => exact .absent
  | refused offset header code =>
      obtain ⟨hok, hpos, hbytes, hwithin⟩ := readHeader_refused hheader
      exact .refused hok hpos hbytes hwithin
  | accepted offset header dataSize =>
      have haccepted := readHeader_accepted hheader
      have hentry := enterEntry_spec pitTable allowUnknown state header dataSize
      dsimp only
      cases hstep : enterEntry pitTable allowUnknown state header dataSize with
      | stop code => exact .stopped haccepted
      | skip next =>
          rw [hstep] at hentry
          cases hentry with
          | skip hgood hfile => exact .skip haccepted hgood hfile
      | matched member next =>
          rw [hstep] at hentry
          cases hentry with
          | matched hsize hfile => exact .matched haccepted hsize hfile

section Turns

variable {contentEnd : Nat} {pitTable : PitTable} {allowUnknown : Bool}

/-- Turns that are left when a header can be read. -/
theorem turn_left {fuel offset dataSize : Nat} {file : FileStream} {header : Bytes}
    (hheader : readHeader contentEnd file = .accepted offset header dataSize)
    (hfuel : contentEnd < file.pos + tarBlockSize * fuel) : ∃ left, fuel = left + 1 := by
  have haccepted := readHeader_accepted hheader
  have hfits := haccepted.fits
  rw [← haccepted.offset_eq] at hfits
  cases fuel with
  | zero => omega
  | succ left => exact ⟨left, rfl⟩

/-- An entry that does not stop the walk stands behind an accepted header. -/
theorem turn_accepted {state : WalkState} {step : MemberStep}
    (hread : readMember contentEnd pitTable allowUnknown state = step)
    (hgoes : ∀ code, step ≠ .stop code) :
    ∃ offset header dataSize, readHeader contentEnd state.file = .accepted offset header dataSize ∧
      TurnSpec contentEnd state.file (.accepted offset header dataSize) step := by
  have hspec := readMember_spec contentEnd pitTable allowUnknown state
  rw [hread] at hspec
  cases hheader : readHeader contentEnd state.file with
  | absent code =>
      rw [hheader] at hspec
      cases hspec
      exact absurd rfl (hgoes _)
  | refused offset header code =>
      rw [hheader] at hspec
      cases hspec
      exact absurd rfl (hgoes _)
  | accepted offset header dataSize =>
      rw [hheader] at hspec
      exact ⟨offset, header, dataSize, rfl, hspec⟩

end Turns

/-! ## Members -/

section Members

variable {dec : Lz4Decoder} {usb : UsbDevice} {member : Member} {file file' : FileStream}

/-- A member that passes is left at its end. -/
theorem passMember_advance (hok : file.failed = false)
    (hpass : passMember dec usb member file = some file') :
    file'.failed = false ∧ file' = file.advance member.dataSize := by
  unfold passMember at hpass
  split at hpass
  next =>
    split at hpass
    next => simp at hpass
    next =>
      obtain ⟨plan, hplan, hresult⟩ := Option.bind_eq_some_iff.mp hpass
      exact lz4Result_file hok hplan hresult
  next =>
    split at hpass
    next => simp at hpass
    next =>
      obtain rfl := Option.some.inj hpass
      exact ⟨hok, rfl⟩

/-- What a check makes of a member: it does not talk to the device. -/
def checkMember (dec : Lz4Decoder) (member : Member) (file : FileStream) :
    Except ExitCode FileStream :=
  if member.isLz4 then
    match (lz4Plan dec file member.dataSize).bind (lz4Result dec file member.dataSize) with
    | none => .error .firmware
    | some file => .ok file
  else
    let file := file.seekCur (toStreamoff member.dataSize)
    if file.failed then .error .firmware else .ok file

theorem transferMember_check (dec : Lz4Decoder) (usb : UsbDevice) (member : Member)
    (file : FileStream) :
    transferMember dec usb false member file = pure (checkMember dec member file) := by
  unfold transferMember checkMember
  split
  next =>
    simp only [Bool.and_false, Bool.false_eq_true, ↓reduceIte, processLz4Streaming_check, pure_bind]
    cases (lz4Plan dec file member.dataSize).bind (lz4Result dec file member.dataSize) <;> rfl
  next =>
    simp only [Bool.false_eq_true, ↓reduceIte]
    split <;> rfl

/-- What a check makes of a member and of the padding behind it. -/
def checkEntry (dec : Lz4Decoder) (member : Member) (state : WalkState) :
    Except ExitCode WalkState :=
  match checkMember dec member state.file with
  | .error code => .error code
  | .ok file => leaveMember member state file

theorem processMember_check (dec : Lz4Decoder) (usb : UsbDevice) (member : Member)
    (state : WalkState) :
    processMember dec usb false member state = pure (checkEntry dec member state) := by
  unfold processMember checkEntry
  rw [transferMember_check, pure_bind]
  cases checkMember dec member state.file with
  | error code => rfl
  | ok file =>
      dsimp only [leaveMember]
      split <;> rfl

/-- Whatever the device does, a transfer or a check that succeeds ends behind the data. -/
theorem transferMember_advance (hbegun : usb.Begun) (hok : file.failed = false)
    (hsize : member.dataSize < 2 ^ 63) (doFlash : Bool) :
    Returns (fun result => ∀ file', result = .ok file' →
      file'.failed = false ∧ file' = file.advance member.dataSize)
      (transferMember dec usb doFlash member file) := by
  cases doFlash with
  | true =>
      intro trace result hexec file' hresult
      obtain ⟨xs, -, rfl | ⟨passed, hpass, -, rfl⟩⟩ :=
        transferMember_outcome hbegun hsize trace result hexec
      · simp at hresult
      · obtain rfl := Except.ok.inj hresult
        exact passMember_advance hok hpass
  | false =>
      rw [transferMember_check]
      refine returns_pure fun file' hresult => ?_
      unfold checkMember at hresult
      split at hresult
      next =>
        split at hresult
        next => simp at hresult
        next hpass =>
          obtain rfl := Except.ok.inj hresult
          obtain ⟨plan, hplan, hresult⟩ := Option.bind_eq_some_iff.mp hpass
          exact lz4Result_file hok hplan hresult
      next =>
        rw [FileStream.toStreamoff_of_lt hsize] at hresult
        dsimp only at hresult
        split at hresult
        next => simp at hresult
        next hgood =>
          obtain rfl := Except.ok.inj hresult
          have hgood : (file.seekCur member.dataSize).failed = false := by simpa using hgood
          exact ⟨hgood, (FileStream.seekCur_good hgood).2.2⟩

/-- A member that has been dealt with is left at the next header. -/
theorem processMember_advance (hbegun : usb.Begun) {state : WalkState}
    (hok : state.file.failed = false) (hsize : member.dataSize < 2 ^ 63) (doFlash : Bool) :
    Returns (fun result => ∀ next, result = .ok next → next.file.failed = false ∧
      next = { state with file := state.file.advance (roundUp512 member.dataSize) })
      (processMember dec usb doFlash member state) := by
  unfold processMember
  refine returns_bind_of (transferMember_advance hbegun hok hsize doFlash) fun result hresult => ?_
  cases result with
  | error code => exact returns_pure (by simp)
  | ok file =>
      obtain ⟨-, rfl⟩ := hresult file rfl
      dsimp only
      split
      next => exact returns_pure (by simp)
      next hgood =>
        have hgood : ((state.file.advance member.dataSize).seekCur
            (tarPadding member.dataSize)).failed = false := by simpa using hgood
        have hnext : ∀ next, (Except.ok { state with
            file := (state.file.advance member.dataSize).seekCur (tarPadding member.dataSize) } :
              Except ExitCode WalkState) = .ok next → next.file.failed = false ∧
            next = { state with file := state.file.advance (roundUp512 member.dataSize) } := by
          intro next hnext
          obtain rfl := Except.ok.inj hnext
          exact ⟨hgood, by rw [seekPadding_good hgood]⟩
        refine returns_ite (fun _ => returns_bind fun ended => ?_) fun _ => returns_pure hnext
        exact returns_ite (fun _ => returns_pure (by simp)) fun _ => returns_pure hnext

end Members

/-! ## The loop with its visits -/

/-- A header that was read: where it stands, its bytes, the size of the data
behind it if it was accepted, and the member that it was found to be. -/
structure Visit where
  offset : Nat
  header : Bytes
  dataSize? : Option Nat
  member? : Option Member

def HeaderStep.visits (step : HeaderStep) (member? : Option Member) : List Visit :=
  match step with
  | .absent _ => []
  | .refused offset header _ => [⟨offset, header, none, member?⟩]
  | .accepted offset header dataSize => [⟨offset, header, some dataSize, member?⟩]

/-- The visits of a walk in order, and its result. -/
structure Walk where
  visits : List Visit
  code : ExitCode

/-- A walk with visits before it. -/
def Walk.after (visits : List Visit) (walk : Walk) : Walk := ⟨visits ++ walk.visits, walk.code⟩

section Walks

variable (dec : Lz4Decoder) (usb : UsbDevice) (pitTable : PitTable) (doFlash allowUnknown : Bool)

/-- The loop over the entries with its visits. -/
def visitLoop (contentEnd : Nat) : (fuel : Nat) → WalkState → Usb Walk
  | 0, _ => return ⟨[], .firmware⟩
  | fuel + 1, state =>
      let header := readHeader contentEnd state.file
      match readMember contentEnd pitTable allowUnknown state with
      | .stop code => return ⟨header.visits none, code⟩
      | .skip next => Walk.after (header.visits none) <$> visitLoop contentEnd fuel next
      | .matched member next => do
          match ← processMember dec usb doFlash member next with
          | .error code => return ⟨header.visits (some member), code⟩
          | .ok next => Walk.after (header.visits (some member)) <$> visitLoop contentEnd fuel next

/-- An archive with its visits. -/
def visitTarFile (host : Host) (tarPath : Bytes) : Usb Walk :=
  match openArchive host tarPath with
  | .error code => return ⟨[], code⟩
  | .ok (file, contentEnd) =>
      visitLoop host.lz4 usb pitTable doFlash allowUnknown contentEnd (memberFuel contentEnd) { file }

/-- The record changes nothing about the loop. -/
theorem visitLoop_code (contentEnd fuel : Nat) (state : WalkState) :
    Walk.code <$> visitLoop dec usb pitTable doFlash allowUnknown contentEnd fuel state =
      memberLoop dec usb pitTable doFlash allowUnknown contentEnd fuel state := by
  induction fuel generalizing state with
  | zero => rfl
  | succ fuel ih =>
      have hafter : ∀ visits, Walk.code ∘ Walk.after visits = Walk.code := fun _ => rfl
      rw [visitLoop, memberLoop]
      cases readMember contentEnd pitTable allowUnknown state with
      | stop code => rfl
      | skip next =>
          dsimp only
          rw [← comp_map, hafter]
          exact ih next
      | matched member next =>
          dsimp only
          rw [map_bind]
          refine bind_congr fun result => ?_
          cases result with
          | error code => rfl
          | ok next =>
              dsimp only
              rw [← comp_map, hafter]
              exact ih next

theorem visitTarFile_code (host : Host) (tarPath : Bytes) :
    Walk.code <$> visitTarFile usb pitTable doFlash allowUnknown host tarPath =
      processTarFile host tarPath usb pitTable doFlash allowUnknown := by
  unfold visitTarFile processTarFile
  cases openArchive host tarPath with
  | error code => rfl
  | ok opened => exact visitLoop_code _ _ _ _ _ _ _ _

/-- Every run over an archive has its visits. -/
theorem executes_visitTarFile {host : Host} {tarPath : Bytes} {trace : UsbTrace} {code : ExitCode}
    (hexec : (processTarFile host tarPath usb pitTable doFlash allowUnknown).Executes trace code) :
    ∃ visits, (visitTarFile usb pitTable doFlash allowUnknown host tarPath).Executes trace
      ⟨visits, code⟩ := by
  rw [← visitTarFile_code, executes_map] at hexec
  obtain ⟨walk, hwalk, rfl⟩ := hexec
  exact ⟨walk.visits, hwalk⟩

end Walks

/-! ## Check-only walks -/

section Checks

variable (dec : Lz4Decoder) (usb : UsbDevice) (pitTable : PitTable) (allowUnknown : Bool)

/-- The walk of a check, which is a function of the file. -/
def checkLoop (contentEnd : Nat) : (fuel : Nat) → WalkState → Walk
  | 0, _ => ⟨[], .firmware⟩
  | fuel + 1, state =>
      let header := readHeader contentEnd state.file
      match readMember contentEnd pitTable allowUnknown state with
      | .stop code => ⟨header.visits none, code⟩
      | .skip next => Walk.after (header.visits none) (checkLoop contentEnd fuel next)
      | .matched member next =>
          match checkEntry dec member next with
          | .error code => ⟨header.visits (some member), code⟩
          | .ok next => Walk.after (header.visits (some member)) (checkLoop contentEnd fuel next)

def checkTarFile (host : Host) (tarPath : Bytes) : Walk :=
  match openArchive host tarPath with
  | .error code => ⟨[], code⟩
  | .ok (file, contentEnd) =>
      checkLoop host.lz4 pitTable allowUnknown contentEnd (memberFuel contentEnd) { file }

theorem visitLoop_check (contentEnd fuel : Nat) (state : WalkState) :
    visitLoop dec usb pitTable false allowUnknown contentEnd fuel state =
      pure (checkLoop dec pitTable allowUnknown contentEnd fuel state) := by
  induction fuel generalizing state with
  | zero => rfl
  | succ fuel ih =>
      rw [visitLoop, checkLoop]
      cases readMember contentEnd pitTable allowUnknown state with
      | stop code => rfl
      | skip next =>
          dsimp only
          rw [ih, map_pure]
      | matched member next =>
          dsimp only
          rw [processMember_check, pure_bind]
          cases checkEntry dec member next with
          | error code => rfl
          | ok next =>
              dsimp only
              rw [ih, map_pure]

theorem visitTarFile_check (host : Host) (tarPath : Bytes) :
    visitTarFile usb pitTable false allowUnknown host tarPath =
      pure (checkTarFile pitTable allowUnknown host tarPath) := by
  unfold visitTarFile checkTarFile
  cases openArchive host tarPath with
  | error code => rfl
  | ok opened => exact visitLoop_check _ _ _ _ _ _ _

/-- A check of an archive talks to no device. -/
theorem processTarFile_check (host : Host) (tarPath : Bytes) :
    processTarFile host tarPath usb pitTable false allowUnknown =
      pure (checkTarFile pitTable allowUnknown host tarPath).code := by
  rw [← visitTarFile_code, visitTarFile_check, map_pure]

end Checks

/-! ## Coming to an entry -/

section Coming

variable (dec : Lz4Decoder) (usb : UsbDevice) (pitTable : PitTable) (doFlash allowUnknown : Bool)
variable (contentEnd : Nat)

/-- The loop comes from one state to another with these events on the way. -/
inductive Comes : WalkState → UsbTrace → WalkState → Prop where
  | here {state} : Comes state [] state
  | skip {state next last trace} :
      readMember contentEnd pitTable allowUnknown state = .skip next → Comes next trace last →
      Comes state trace last
  | matched {state next done last member first rest} :
      readMember contentEnd pitTable allowUnknown state = .matched member next →
      (processMember dec usb doFlash member next).Executes first (.ok done) →
      Comes done rest last → Comes state (first ++ rest) last

end Coming

end Odin4
