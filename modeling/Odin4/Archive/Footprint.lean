import Odin4.Archive.Lz4Footprint
import Odin4.Archive.Visits
import Odin4.Usb.TransferWindow

/-!
# What an archive run reads

A turn of the loop reads the header and the data of one entry. In two files
that have the same bytes there it does the same, whatever else they hold. What
it does with the data of a member it also does further on in another file.
-/

namespace Odin4

open Interaction Program

variable {file : FileContent}

/-! ## Entries -/

def WalkState.on (state : WalkState) (file : FileContent) : WalkState :=
  { state with file := state.file.on file }

def MemberStep.on (step : MemberStep) (file : FileContent) : MemberStep :=
  match step with
  | .stop code => .stop code
  | .skip next => .skip (next.on file)
  | .matched member next => .matched member (next.on file)

section Entries

variable {stream : FileStream} {dataSize : Nat}

theorem readExtension_on (h : AgreeOn (stream.ahead dataSize) stream.file file) :
    readExtension (stream.on file) dataSize =
      (readExtension stream dataSize).map (Prod.map id (·.on file)) := by
  simp only [readExtension, FileStream.read_on h, FileStream.on_seekCur, FileStream.on_failed]
  by_cases hlimit : extensionLimit < dataSize
  · rw [if_pos hlimit, if_pos hlimit]
    rfl
  rw [if_neg hlimit, if_neg hlimit]
  by_cases hshort : (stream.read dataSize).1.length ≠ dataSize
  · rw [if_pos hshort, if_pos hshort]
    rfl
  rw [if_neg hshort, if_neg hshort]
  split <;> rfl

/-- Skipping does not look at the bytes. -/
theorem skipEntryData_on :
    skipEntryData (stream.on file) dataSize = (skipEntryData stream dataSize).map (·.on file) := by
  simp only [skipEntryData, FileStream.on_seekCur, FileStream.on_failed]
  by_cases hsize : streamoffMax < dataSize
  · rw [if_pos hsize, if_pos hsize]
    rfl
  rw [if_neg hsize, if_neg hsize]
  by_cases hskipped : (stream.seekCur dataSize).failed = true
  · rw [if_pos hskipped, if_pos hskipped]
    rfl
  rw [if_neg hskipped, if_neg hskipped]
  split <;> rfl

theorem skipTo_on (state : WalkState) (file? : Option FileStream) :
    skipTo (state.on file) (file?.map (·.on file)) = (skipTo state file?).on file := by
  cases file? <;> rfl

theorem takeFilename_on (state : WalkState) (header : Bytes) :
    takeFilename (state.on file) header = Prod.map id (·.on file) (takeFilename state header) := by
  unfold takeFilename WalkState.on
  split
  next => rfl
  split <;> rfl

theorem classifyEntry_on (pitTable : PitTable) (allowUnknown : Bool) {state : WalkState}
    (typeflag : UInt8) (filename : Bytes)
    (h : AgreeOn (state.file.ahead dataSize) state.file.file file) :
    classifyEntry pitTable allowUnknown (state.on file) typeflag filename dataSize =
      (classifyEntry pitTable allowUnknown state typeflag filename dataSize).on file := by
  have hextension : readExtension (state.on file).file dataSize = _ := readExtension_on h
  have hskip : skipTo (state.on file) (skipEntryData (state.on file).file dataSize) =
      (skipTo state (skipEntryData state.file dataSize)).on file := by
    rw [← skipTo_on, ← skipEntryData_on]
    rfl
  unfold classifyEntry
  split
  next =>
    rw [hextension]
    cases readExtension state.file dataSize <;> rfl
  split
  next =>
    rw [hextension]
    cases readExtension state.file dataSize <;> rfl
  split
  next => exact hskip
  unfold regularEntry
  split
  next => rfl
  cases findPitEntry pitTable filename with
  | none =>
      dsimp only
      split
      next => exact hskip
      next => rfl
  | some pitEntry =>
      dsimp only
      by_cases hused : state.usedPartitionIds.contains pitEntry.identifier = true
      · rw [if_pos hused, if_pos (show (state.on file).usedPartitionIds.contains
          pitEntry.identifier = true from hused)]
        rfl
      · rw [if_neg hused, if_neg (show ¬ (state.on file).usedPartitionIds.contains
          pitEntry.identifier = true from hused)]
        rfl

theorem enterEntry_on (pitTable : PitTable) (allowUnknown : Bool) {state : WalkState}
    (header : Bytes)
    (h : AgreeOn ((state.file.advance tarBlockSize).ahead dataSize) state.file.file file) :
    enterEntry pitTable allowUnknown (state.on file) header dataSize =
      (enterEntry pitTable allowUnknown state header dataSize).on file := by
  let start : WalkState := { state with file := state.file.advance tarBlockSize }
  have hfile : (takeFilename start header).2.file = state.file.advance tarBlockSize :=
    takeFilename_file start header
  have htake : takeFilename (start.on file) header = _ := takeFilename_on start header
  have hon : enterEntry pitTable allowUnknown (state.on file) header dataSize =
      classifyEntry pitTable allowUnknown (takeFilename (start.on file) header).2
        (header.getD 156 0) (takeFilename (start.on file) header).1 dataSize := rfl
  have hhere : AgreeOn ((takeFilename start header).2.file.ahead dataSize)
      (takeFilename start header).2.file.file file := by
    rw [hfile]
    exact h
  rw [hon, htake]
  exact classifyEntry_on pitTable allowUnknown _ _ hhere

end Entries

/-! ## Headers -/

/-- The bytes of the header of a visit. -/
def Visit.headerRange (visit : Visit) : Set Nat :=
  Set.Ico visit.offset (visit.offset + tarBlockSize)

/-- The bytes of the data behind the header of a visit. -/
def Visit.dataRange (visit : Visit) : Set Nat :=
  Set.Ico (visit.offset + tarBlockSize) (visit.offset + tarBlockSize + visit.dataSize?.getD 0)

/-- Two files have the same bytes wherever the visits read. -/
def AgreeAt (visits : List Visit) (first second : FileContent) : Prop :=
  ∀ visit ∈ visits,
    AgreeOn visit.headerRange first second ∧ AgreeOn visit.dataRange first second

section Headers

variable {contentEnd : Nat} {stream : FileStream} {member? : Option Member}

theorem agreeAt_append {visits more : List Visit} {first second : FileContent} :
    AgreeAt (visits ++ more) first second ↔
      AgreeAt visits first second ∧ AgreeAt more first second := by
  exact List.forall_mem_append

/-- The visit of a header that is read stands at the position of the stream. -/
theorem agreeOn_header (hok : stream.failed = false)
    (hwithin : ¬ contentEnd < stream.pos + tarBlockSize)
    (h : AgreeAt ((readHeader contentEnd stream).visits member?) stream.file file) :
    AgreeOn (stream.ahead tarBlockSize) stream.file file := by
  cases hstep : readHeader contentEnd stream with
  | absent code =>
      rcases readHeader_absent hstep with ⟨hfailed, -⟩ | ⟨hend, -⟩
      · simp [hok] at hfailed
      · exact absurd hend hwithin
  | refused offset header code =>
      obtain ⟨-, rfl, -⟩ := readHeader_refused hstep
      rw [hstep] at h
      exact (h _ List.mem_cons_self).1
  | accepted offset header dataSize =>
      obtain rfl := (readHeader_accepted hstep).offset_eq
      rw [hstep] at h
      exact (h _ List.mem_cons_self).1

/-- A header is judged by its bytes. -/
theorem readHeader_on
    (h : AgreeAt ((readHeader contentEnd stream).visits member?) stream.file file) :
    readHeader contentEnd (stream.on file) = readHeader contentEnd stream := by
  have hheader := fun hok hwithin => FileStream.read_on (agreeOn_header hok hwithin h)
  unfold readHeader
  rw [FileStream.on_tellg]
  cases htell : stream.tellg with
  | none => rfl
  | some pos =>
      obtain ⟨hok, rfl⟩ : stream.failed = false ∧ stream.pos = pos := by
        simpa [FileStream.tellg] using htell
      by_cases hend : contentEnd < stream.pos + tarBlockSize
      · dsimp only
        rw [if_pos hend, if_pos hend]
      · dsimp only
        rw [if_neg hend, if_neg hend, hheader hok hend]

theorem readMember_on (pitTable : PitTable) (allowUnknown : Bool) {state : WalkState}
    (h : AgreeAt ((readHeader contentEnd state.file).visits member?) state.file.file file) :
    readMember contentEnd pitTable allowUnknown (state.on file) =
      (readMember contentEnd pitTable allowUnknown state).on file := by
  have hheader : readHeader contentEnd (state.on file).file = _ := readHeader_on h
  rw [readMember_eq, readMember_eq, hheader]
  cases hstep : readHeader contentEnd state.file with
  | absent code => rfl
  | refused offset header code => rfl
  | accepted offset header dataSize =>
      obtain rfl := (readHeader_accepted hstep).offset_eq
      rw [hstep] at h
      apply enterEntry_on
      exact (h _ List.mem_cons_self).2

end Headers

/-! ## Members -/

section Members

variable {dec : Lz4Decoder} {member : Member} {stream : FileStream} (usb : UsbDevice)
  (doFlash : Bool)

/-- Whatever the device does, only an accepted member is streamed. -/
theorem processLz4Streaming_accepted (stream : FileStream) (compressedSize : Nat)
    (largePartition : Bool) :
    Returns (fun result => ∀ behind, result = some behind →
      (lz4Plan dec stream compressedSize).bind (lz4Result dec stream compressedSize) = some behind)
      (processLz4Streaming dec stream compressedSize usb largePartition doFlash) := by
  cases hplan : lz4Plan dec stream compressedSize with
  | none =>
      rw [processLz4Streaming_unplanned _ _ _ _ _ _ hplan]
      exact returns_pure (by simp)
  | some plan =>
      have hrest : Returns (fun result => ∀ behind, result = some behind →
          (some plan).bind (lz4Result dec stream compressedSize) = some behind) (do
            if !(← sendOuts largePartition doFlash (lz4DecodePass dec compressedSize plan).outs 0) then
              return none
            return lz4Result dec stream compressedSize plan) :=
        returns_bind fun ok => returns_ite (fun _ => returns_pure (by simp)) fun _ =>
          returns_pure fun behind hbehind => hbehind
      rw [processLz4Streaming_planned _ _ _ _ _ _ hplan]
      cases doFlash with
      | false => exact hrest
      | true =>
          exact returns_bind fun announced => returns_ite (fun _ => returns_pure (by simp))
            fun _ => hrest

/-- Whatever the device does, only an accepted LZ4 member is transferred. -/
theorem transferMember_passes_lz4 (hlz4 : member.isLz4 = true) (stream : FileStream) :
    Returns (fun result => ∀ behind, result = .ok behind →
      (lz4Plan dec stream member.dataSize).bind (lz4Result dec stream member.dataSize) = some behind)
      (transferMember dec usb doFlash member stream) := by
  unfold transferMember
  rw [if_pos hlz4]
  refine returns_ite (fun _ => returns_pure (by simp)) fun _ => ?_
  refine returns_bind_of (processLz4Streaming_accepted usb doFlash stream _ _) fun result hresult => ?_
  cases result with
  | none => exact returns_pure (by simp)
  | some accepted =>
      refine returns_pure fun behind hbehind => ?_
      obtain rfl := Except.ok.inj hbehind
      exact hresult accepted rfl

/-- A transfer stays in its file. -/
theorem transferMember_file (member : Member) (stream : FileStream) :
    Returns (fun result => ∀ behind, result = .ok behind → behind.file = stream.file)
      (transferMember dec usb doFlash member stream) := by
  cases hlz4 : member.isLz4 with
  | true =>
      intro trace result hexec behind hbehind
      obtain ⟨plan, hplan, hresult⟩ := Option.bind_eq_some_iff.mp
        (transferMember_passes_lz4 usb doFlash hlz4 stream trace result hexec behind hbehind)
      rw [(lz4Result_file (lz4Plan_good hplan) hplan hresult).2]
      rfl
  | false =>
      unfold transferMember
      rw [if_neg (by simp [hlz4])]
      apply returns_ite
      · intro _
        refine returns_bind_of (flashPartitionStream_file usb _ _ stream _) fun result hresult => ?_
        refine returns_ite (fun _ => returns_pure (by simp)) fun _ => ?_
        refine returns_pure fun behind hbehind => ?_
        obtain rfl := Except.ok.inj hbehind
        exact hresult
      · intro _
        refine returns_ite (fun _ => returns_pure (by simp)) fun _ => ?_
        refine returns_pure fun behind hbehind => ?_
        obtain rfl := Except.ok.inj hbehind
        exact FileStream.seekCur_file _

theorem processMember_file (member : Member) (state : WalkState) :
    Returns (fun result => ∀ next, result = .ok next → next.file.file = state.file.file)
      (processMember dec usb doFlash member state) := by
  refine returns_bind_of (transferMember_file usb doFlash member state.file) fun result hresult => ?_
  cases result with
  | error code => exact returns_pure (by simp)
  | ok behind =>
      have hnext : ∀ next, (Except.ok { state with
          file := behind.seekCur (tarPadding member.dataSize) } : Except ExitCode WalkState) =
            .ok next → next.file.file = state.file.file := by
        intro next hnext
        obtain rfl := Except.ok.inj hnext
        exact (FileStream.seekCur_file _).trans (hresult behind rfl)
      apply returns_ite
      · intro _
        exact returns_pure (by simp)
      · intro _
        refine returns_ite (fun _ => returns_bind fun ended => ?_) fun _ => returns_pure hnext
        exact returns_ite (fun _ => returns_pure (by simp)) fun _ => returns_pure hnext

theorem transferMember_over (shift : Nat)
    (h : AgreeAlong shift (stream.ahead member.dataSize) stream.file file)
    (hsize : member.dataSize < 2 ^ 63) (hroom : Room shift (stream.pos + member.dataSize)) :
    transferMember dec usb doFlash member ((stream.advance shift).on file) =
      Except.map (fun behind => (behind.advance shift).on file) <$>
        transferMember dec usb doFlash member stream := by
  unfold transferMember
  split
  next =>
    split
    next => rfl
    next =>
      rw [processLz4Streaming_over shift usb member.isLarge doFlash h hroom, map_bind,
        bind_map_left]
      refine bind_congr fun result => ?_
      cases result <;> rfl
  next =>
    split
    next =>
      rw [flashPartitionStream_over shift usb member.pitEntry member.isLarge h, map_bind,
        bind_map_left]
      refine bind_congr fun result => ?_
      obtain ⟨ok, behind⟩ := result
      cases ok <;> rfl
    next =>
      have hskip := FileStream.advance_seekOff hroom (fun _ => Nat.le_refl _)
        (by simp only [streamoffMax]; omega)
      dsimp only
      rw [FileStream.on_seekCur, hskip, FileStream.on_failed, FileStream.advance_failed]
      split <;> rfl

def WalkState.advance (state : WalkState) (count : Nat) : WalkState :=
  { state with file := state.file.advance count }

/-- A member in another place is dealt with in the same way. -/
theorem processMember_over (shift : Nat) {state : WalkState}
    (h : AgreeAlong shift (state.file.ahead member.dataSize) state.file.file file)
    (hsize : member.dataSize < 2 ^ 63) (hroom : Room shift (state.file.pos + member.dataSize))
    (hbehind : Returns (fun result => ∀ behind, result = .ok behind →
        Room shift (behind.pos + tarPadding member.dataSize))
      (transferMember dec usb doFlash member state.file)) :
    processMember dec usb doFlash member ((state.advance shift).on file) =
      Except.map (fun next => (next.advance shift).on file) <$>
        processMember dec usb doFlash member state := by
  have htransfer : transferMember dec usb doFlash member ((state.advance shift).on file).file = _ :=
    transferMember_over usb doFlash shift h hsize hroom
  unfold processMember
  rw [htransfer, map_bind, bind_map_left]
  refine bind_congr_of_returns hbehind fun result hresult => ?_
  cases result with
  | error code => rfl
  | ok behind =>
      have hpadding : (behind.advance shift).seekCur (tarPadding member.dataSize) =
          (behind.seekCur (tarPadding member.dataSize)).advance shift := by
        apply FileStream.advance_seekCur
        intro _ htarget
        exact (hresult behind rfl).lt (Nat.le_refl _) htarget
      dsimp only [Except.map]
      rw [FileStream.on_seekCur, hpadding, FileStream.on_failed, FileStream.advance_failed]
      split
      next => rfl
      next =>
        cases doFlash with
        | false => rfl
        | true =>
            simp only [↓reduceIte]
            rw [map_bind]
            refine bind_congr fun ended => ?_
            cases ended <;> rfl

theorem processMember_on {state : WalkState}
    (h : AgreeOn (state.file.ahead member.dataSize) state.file.file file)
    (hsize : member.dataSize < 2 ^ 63) :
    processMember dec usb doFlash member (state.on file) =
      Except.map (·.on file) <$> processMember dec usb doFlash member state :=
  processMember_over usb doFlash 0 h hsize (room_zero _) fun _ _ _ _ _ => room_zero _

end Members

/-! ## Runs -/

section Runs

variable (dec : Lz4Decoder) (usb : UsbDevice) (pitTable : PitTable) (doFlash allowUnknown : Bool)

/-- What a skipped entry or an entry with data leads to is in the same file. -/
theorem TurnSpec.file_eq {contentEnd : Nat} {start : FileStream} {header : HeaderStep}
    {step : MemberStep} (h : TurnSpec contentEnd start header step) :
    (∀ next, step = .skip next → next.file.file = start.file) ∧
      ∀ member next, step = .matched member next → next.file.file = start.file := by
  cases h with
  | absent => simp
  | refused => simp
  | stopped => simp
  | skip haccepted hgood hfile =>
      refine ⟨fun next hnext => ?_, by simp⟩
      obtain rfl := MemberStep.skip.inj hnext
      rw [hfile]
      rfl
  | matched haccepted hsize hfile =>
      refine ⟨by simp, fun member next hnext => ?_⟩
      obtain ⟨-, rfl⟩ := MemberStep.matched.inj hnext
      rw [hfile]
      rfl

theorem dataSize_lt {contentEnd : Nat} {state next : WalkState} {member : Member}
    (hstep : readMember contentEnd pitTable allowUnknown state = .matched member next) :
    member.dataSize < 2 ^ 63 := by
  obtain ⟨offset, header, dataSize, -, hturn⟩ := turn_accepted hstep (by simp)
  cases hturn with
  | matched haccepted hsize =>
      have hlt := headerSize_lt haccepted.size_eq
      omega

/-- The data of a matched member are the data of its visit. -/
theorem agreeOn_data {contentEnd : Nat} {state next : WalkState} {member : Member}
    (hstep : readMember contentEnd pitTable allowUnknown state = .matched member next)
    (h : AgreeAt ((readHeader contentEnd state.file).visits (some member)) state.file.file file) :
    AgreeOn (next.file.ahead member.dataSize) next.file.file file := by
  have hspec := readMember_spec contentEnd pitTable allowUnknown state
  rw [hstep] at hspec
  generalize readHeader contentEnd state.file = header at hspec h
  cases hspec with
  | matched haccepted hsize hfile =>
      obtain rfl := haccepted.offset_eq
      subst hsize
      rw [hfile]
      exact (h _ List.mem_cons_self).2

/-- A run that is given a file with the same bytes wherever it reads goes the same way. -/
theorem visitLoop_on {contentEnd fuel : Nat} {state : WalkState} {trace : UsbTrace} {walk : Walk}
    (hexec : (visitLoop dec usb pitTable doFlash allowUnknown contentEnd fuel state).Executes
      trace walk)
    (h : AgreeAt walk.visits state.file.file file) :
    (visitLoop dec usb pitTable doFlash allowUnknown contentEnd fuel (state.on file)).Executes
      trace walk := by
  induction fuel generalizing state trace walk with
  | zero => exact hexec
  | succ fuel ih =>
      have hfile := (readMember_spec contentEnd pitTable allowUnknown state).file_eq
      rw [visitLoop] at hexec ⊢
      cases hstep : readMember contentEnd pitTable allowUnknown state with
      | stop code =>
          rw [hstep] at hexec
          obtain ⟨rfl, rfl⟩ := hexec
          have hheader : readHeader contentEnd (state.on file).file = _ := readHeader_on h
          rw [readMember_on pitTable allowUnknown h, hstep, hheader]
          exact ⟨rfl, rfl⟩
      | skip next =>
          rw [hstep] at hexec
          obtain ⟨rest, hrest, rfl⟩ := executes_map.mp hexec
          obtain ⟨hhere, hbehind⟩ := agreeAt_append.mp h
          have hheader : readHeader contentEnd (state.on file).file = _ := readHeader_on hhere
          rw [readMember_on pitTable allowUnknown hhere, hstep, hheader]
          rw [← hfile.1 next hstep] at hbehind
          exact executes_map.mpr ⟨rest, ih hrest hbehind, rfl⟩
      | matched member next =>
          rw [hstep] at hexec
          obtain ⟨first, result, second, rfl, hmember, hexec⟩ := executes_bind.mp hexec
          have hsame := processMember_file usb doFlash member next first result hmember
          -- Whether the walk goes on or not, this visit is one of its visits.
          have hhere : AgreeAt ((readHeader contentEnd state.file).visits (some member))
              state.file.file file := by
            cases result with
            | error code =>
                obtain ⟨rfl, rfl⟩ := hexec
                exact h
            | ok after =>
                obtain ⟨rest, -, rfl⟩ := executes_map.mp hexec
                exact (agreeAt_append.mp h).1
          have hheader : readHeader contentEnd (state.on file).file = _ := readHeader_on hhere
          have hdata := agreeOn_data pitTable allowUnknown hstep hhere
          rw [readMember_on pitTable allowUnknown hhere, hstep, hheader]
          dsimp only [MemberStep.on]
          rw [processMember_on usb doFlash hdata (dataSize_lt pitTable allowUnknown hstep),
            bind_map_left]
          refine executes_bind.mpr ⟨first, result, second, rfl, hmember, ?_⟩
          cases result with
          | error code => exact hexec
          | ok after =>
              obtain ⟨rest, hrest, rfl⟩ := executes_map.mp hexec
              have hbehind := (agreeAt_append.mp h).2
              rw [← hfile.2 member next hstep, ← hsame after rfl] at hbehind
              exact executes_map.mpr ⟨rest, ih hrest hbehind, rfl⟩

/-- A turn reads nothing behind the end of the content. -/
theorem agreeAt_content {contentEnd : Nat} {stream : FileStream} (member? : Option Member)
    (h : AgreeOn (Set.Iio contentEnd) stream.file file) :
    AgreeAt ((readHeader contentEnd stream).visits member?) stream.file file := by
  cases hstep : readHeader contentEnd stream with
  | absent code => exact List.forall_mem_nil _
  | refused offset header code =>
      obtain ⟨-, -, -, hwithin⟩ := readHeader_refused hstep
      refine List.forall_mem_singleton.mpr ⟨h.mono fun i hi => ?_, h.mono fun i hi => ?_⟩
      · exact Nat.lt_of_lt_of_le hi.2 hwithin
      · exact Nat.lt_of_lt_of_le hi.2 hwithin
  | accepted offset header dataSize =>
      have hfits := (readHeader_accepted hstep).fits
      refine List.forall_mem_singleton.mpr ⟨h.mono fun i hi => ?_, h.mono fun i hi => ?_⟩
      · exact Nat.lt_of_lt_of_le hi.2 ((Nat.le_add_right _ _).trans hfits)
      · exact Nat.lt_of_lt_of_le hi.2 hfits

/-- Two files with the same content lead to the same program, whatever the
device does. -/
theorem memberLoop_on {contentEnd fuel : Nat} {state : WalkState}
    (h : AgreeOn (Set.Iio contentEnd) state.file.file file) :
    memberLoop dec usb pitTable doFlash allowUnknown contentEnd fuel (state.on file) =
      memberLoop dec usb pitTable doFlash allowUnknown contentEnd fuel state := by
  induction fuel generalizing state with
  | zero => rfl
  | succ fuel ih =>
      have hfile := (readMember_spec contentEnd pitTable allowUnknown state).file_eq
      rw [memberLoop, memberLoop, readMember_on pitTable allowUnknown (agreeAt_content none h)]
      cases hstep : readMember contentEnd pitTable allowUnknown state with
      | stop code => rfl
      | skip next =>
          rw [← hfile.1 next hstep] at h
          exact ih h
      | matched member next =>
          have hdata := agreeOn_data pitTable allowUnknown hstep (agreeAt_content (some member) h)
          dsimp only [MemberStep.on]
          rw [processMember_on usb doFlash hdata (dataSize_lt pitTable allowUnknown hstep),
            bind_map_left]
          refine bind_congr_of_returns (processMember_file usb doFlash member next)
            fun result hsame => ?_
          cases result with
          | error code => rfl
          | ok after =>
              rw [← hfile.2 member next hstep, ← hsame after rfl] at h
              exact ih h

end Runs

end Odin4
