import Odin4.Archive.Committed
import Odin4.Archive.Visits

/-!
# Where images come from

A member that is transferred stands in the content of its archive, behind a header
with a valid checksum, and goes to the first entry of the PIT that matches its name.
Its data lie within the content, too.
-/

namespace Odin4

/-- A member in the content of an archive, with its header at this offset. -/
structure MemberAt (content : Bytes) (pitTable : PitTable) (offset : Nat) (member : Member) :
    Prop where
  checksum : tarHeaderChecksumValid (fieldAt content offset tarBlockSize) = true
  size_eq : headerSize (fieldAt content offset tarBlockSize) = some member.dataSize
  regular : (fieldAt content offset tarBlockSize).getD 156 0 ∈ [0, 48]
  fits : offset + tarBlockSize + member.dataSize ≤ content.length
  found : findPitEntry pitTable member.filename = some member.pitEntry
  isLz4_eq : member.isLz4 = isLz4Name member.filename

/-- The archive, whose checksum is right if it has one, contains a member with this
image. -/
def Contains (host : Host) (tarPath : Bytes) (pitTable : PitTable) (member : Member)
    (image : Bytes) : Prop :=
  ∃ archive contentEnd offset,
    openArchive host tarPath = .ok (FileStream.openFile archive, contentEnd) ∧
    MemberAt (archive.bytes.take contentEnd) pitTable offset member ∧
    image = memberImage host.lz4 member ⟨archive, offset + tarBlockSize, false⟩ ∧
    (member.isLz4 = false → image =
      fieldAt (archive.bytes.take contentEnd) (offset + tarBlockSize) member.dataSize)

/-! ## One entry -/

section Entries

variable {pitTable : PitTable} {allowUnknown : Bool} {state next : WalkState} {member : Member}
variable {contentEnd : Nat}

theorem regularEntry_found {filename : Bytes} {dataSize : Nat}
    (h : regularEntry pitTable allowUnknown state filename dataSize = .matched member next) :
    findPitEntry pitTable member.filename = some member.pitEntry ∧
      member.isLz4 = isLz4Name member.filename := by
  unfold regularEntry at h
  split at h
  next => cases h
  split at h
  next =>
    split at h
    next => exact absurd h skipTo_matched
    next => cases h
  next pitEntry hfound =>
    split at h
    next => cases h
    next =>
      obtain ⟨rfl, -⟩ := MemberStep.matched.inj h
      exact ⟨hfound, rfl⟩

/-- Only regular files are transferred. -/
theorem classifyEntry_regular {typeflag : UInt8} {filename : Bytes} {dataSize : Nat}
    (h : classifyEntry pitTable allowUnknown state typeflag filename dataSize =
      .matched member next) :
    typeflag ∈ [0, 48] ∧
      regularEntry pitTable allowUnknown state filename dataSize = .matched member next := by
  unfold classifyEntry at h
  split at h
  next => split at h <;> cases h
  split at h
  next => split at h <;> cases h
  split at h
  next => exact absurd h skipTo_matched
  next hregular => exact ⟨by simpa using not_not.mp hregular, h⟩

theorem readHeader_checksum {file : FileStream} {offset dataSize : Nat} {header : Bytes}
    (h : readHeader contentEnd file = .accepted offset header dataSize) :
    tarHeaderChecksumValid header = true := by
  unfold readHeader at h
  split at h
  next => cases h
  split at h
  next => cases h
  dsimp only at h
  split at h
  next => cases h
  split at h
  next => cases h
  split at h
  next => cases h
  next hchecksum =>
    split at h
    next => cases h
    split at h
    next => cases h
    next =>
      obtain ⟨-, rfl, -⟩ := HeaderStep.accepted.inj h
      simpa using hchecksum

/-- What is read within the content is a field of it. -/
theorem take_rest_eq_fieldAt {file : FileStream} {count : Nat}
    (hwithin : file.pos + count ≤ contentEnd) :
    file.rest.take count = fieldAt (file.file.bytes.take contentEnd) file.pos count := by
  rw [fieldAt, FileStream.rest, List.drop_take, List.take_take, Nat.min_eq_left (by omega)]

theorem readMember_origin (hwithin : contentEnd ≤ state.file.file.bytes.length)
    (h : readMember contentEnd pitTable allowUnknown state = .matched member next) :
    ∃ offset, MemberAt (state.file.file.bytes.take contentEnd) pitTable offset member ∧
      next.file = ⟨state.file.file, offset + tarBlockSize, false⟩ := by
  obtain ⟨offset, header, dataSize, hheader, hspec⟩ := turn_accepted h (by simp)
  rw [readMember_eq, hheader] at h
  obtain ⟨hregular, hentry⟩ := classifyEntry_regular h
  obtain ⟨hfound, hlz4⟩ := regularEntry_found hentry
  cases hspec with
  | matched haccepted hsize hfile =>
      have hfits := haccepted.fits
      obtain rfl := haccepted.offset_eq
      have hfield := haccepted.header_eq.trans (take_rest_eq_fieldAt (Nat.le_of_add_right_le hfits))
      refine ⟨state.file.pos, ⟨?_, ?_, ?_, ?_, hfound, hlz4⟩, ?_⟩
      · rw [← hfield]
        exact readHeader_checksum hheader
      · rw [← hfield, hsize]
        exact haccepted.size_eq
      · rw [← hfield]
        exact hregular
      · rw [List.length_take_of_le hwithin, hsize]
        exact hfits
      · rw [hfile, FileStream.advance, haccepted.good]

end Entries

/-! ## Archives -/

section Archives

variable {host : Host} {pitTable : PitTable} {allowUnknown : Bool} {member : Member}
variable {file : FileStream}

/-- By induction on the turns, none of which leaves the file. -/
theorem walkMembers_origin {contentEnd fuel : Nat} {state : WalkState}
    (hwithin : contentEnd ≤ state.file.file.bytes.length)
    (h : (member, file) ∈ walkMembers pitTable allowUnknown contentEnd fuel state) :
    ∃ offset, MemberAt (state.file.file.bytes.take contentEnd) pitTable offset member ∧
      file = ⟨state.file.file, offset + tarBlockSize, false⟩ := by
  induction fuel generalizing state with
  | zero => cases h
  | succ fuel ih =>
      unfold walkMembers at h
      cases hread : readMember contentEnd pitTable allowUnknown state with
      | stop code =>
          rw [hread] at h
          cases h
      | skip next =>
          rw [hread] at h
          obtain ⟨offset, header, dataSize, -, hspec⟩ := turn_accepted hread (by simp)
          cases hspec with
          | skip _ _ hfile =>
              have hsame : next.file.file = state.file.file := by rw [hfile, FileStream.advance_file]
              rw [← hsame] at hwithin ⊢
              exact ih hwithin h
      | matched found next =>
          rw [hread] at h
          obtain ⟨offset, hfound, hfile⟩ := readMember_origin hwithin hread
          -- The walk goes on behind the data of the member, in the same file.
          let behind : WalkState :=
            { next with file := next.file.advance (roundUp512 found.dataSize) }
          have hnext : next.file.file = state.file.file := by rw [hfile]
          have hsame : behind.file.file = state.file.file := hnext
          rcases List.mem_cons.mp h with hhere | hlater
          · obtain ⟨rfl, rfl⟩ := Prod.mk.inj hhere
            exact ⟨offset, hfound, hfile⟩
          · rw [← hsame] at hwithin ⊢
            exact ih hwithin hlater

theorem archiveMembers_origin {tarPath : Bytes}
    (h : (member, file) ∈ archiveMembers host pitTable allowUnknown tarPath) :
    Contains host tarPath pitTable member (memberImage host.lz4 member file) := by
  unfold archiveMembers at h
  cases hopen : openArchive host tarPath with
  | error code =>
      rw [hopen] at h
      cases h
  | ok opened =>
      obtain ⟨stream, contentEnd⟩ := opened
      rw [hopen] at h
      obtain ⟨archive, -, rfl, -, hwithin⟩ := openArchive_ok hopen
      obtain ⟨offset, hfound, rfl⟩ := walkMembers_origin hwithin h
      refine ⟨archive, contentEnd, offset, hopen, hfound, rfl, fun hraw => ?_⟩
      have hfits : offset + tarBlockSize + member.dataSize ≤ contentEnd :=
        hfound.fits.trans_eq (List.length_take_of_le hwithin)
      rw [memberImage, hraw, if_neg Bool.false_ne_true]
      exact take_rest_eq_fieldAt hfits

end Archives

end Odin4
