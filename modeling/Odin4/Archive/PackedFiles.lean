import Odin4.Archive.Committed
import Odin4.Archive.Coverage
import Odin4.Archive.NamedFiles

/-!
# Archives of files

An archive that a standard writer makes of files stands for their images: the data of
the regular files whose names are found in the PIT, decoded where the name says that
they are compressed. Neither the offsets at which the files stand have an influence,
nor the line with the digest behind the archive.
-/

namespace Odin4

open Interaction Program Dialogue

/-! ## The images of files -/

/-- The image that the data of a file stand for. -/
def NamedFile.unpacked (dec : Lz4Decoder) (file : NamedFile) : Bytes :=
  if isLz4Name file.name then
    lz4Image dec (FileStream.openFile file.entry.image) file.entry.data.length
  else file.entry.data

/-- The PIT entry of a regular file. -/
def NamedFile.pitEntry? (pitTable : PitTable) (file : NamedFile) : Option PitEntry :=
  if file.entry.isRegular then findPitEntry pitTable file.name else none

namespace Receiver

variable {mode : ProtocolMode} {State Image : Type} (R : Receiver mode State Image)

/-- What some files are to become. Files without a PIT entry have no image. -/
def fileImages (dec : Lz4Decoder) (pitTable : PitTable) (files : List NamedFile) : List Image :=
  files.filterMap fun file =>
    (file.pitEntry? pitTable).map fun pitEntry => R.imageOf pitEntry (file.unpacked dec)

end Receiver

section Actions

variable {pitTable : PitTable} {allowUnknown : Bool} {used : List UInt32} {file : NamedFile}

/-- What the walk makes of a file. -/
inductive NamedFile.ActionSpec (pitTable : PitTable) (file : NamedFile) : EntryAction → Prop where
  | stop {code} : code ≠ .success → ActionSpec pitTable file (.stop code)
  | pass : file.pitEntry? pitTable = none → ActionSpec pitTable file .pass
  | transfer {member} : file.pitEntry? pitTable = some member.pitEntry →
      member.dataSize = file.entry.data.length → member.isLz4 = isLz4Name file.name →
      ActionSpec pitTable file (.transfer member)

theorem NamedFile.action_spec (pitTable : PitTable) (allowUnknown : Bool) (used : List UInt32)
    (file : NamedFile) : ActionSpec pitTable file (file.action pitTable allowUnknown used) := by
  unfold NamedFile.action TarEntry.action
  split
  next => exact .stop (by simp)
  split
  next => exact .stop (by simp)
  split
  next hother =>
    refine .pass ?_
    unfold NamedFile.pitEntry?
    rw [if_neg (by simpa using hother)]
  next hregular =>
    have hentry : file.pitEntry? pitTable = findPitEntry pitTable file.name :=
      if_pos (by simpa using hregular)
    split
    next => exact .stop (by simp)
    cases hfound : findPitEntry pitTable file.name with
    | none =>
        rw [hfound] at hentry
        cases allowUnknown with
        | false => exact .stop (by simp)
        | true => exact .pass hentry
    | some pitEntry =>
        rw [hfound] at hentry
        dsimp only
        split
        next => exact .stop (by simp)
        next => exact .transfer hentry rfl rfl

end Actions

/-! ## Walking over files -/

section Walks

variable {mode : ProtocolMode} {State Image : Type} {R : Receiver mode State Image}
variable {dec : Lz4Decoder} {usb : UsbDevice} {pitTable : PitTable} {allowUnknown : Bool}

/-- In a file of its own, a member has the image of its file. -/
theorem memberImage_opened {member : Member} {file : NamedFile}
    (hsize : member.dataSize = file.entry.data.length) (hlz4 : member.isLz4 = isLz4Name file.name)
    (used : List UInt32) :
    memberImage dec member (file.entry.opened member used).file = file.unpacked dec := by
  unfold memberImage NamedFile.unpacked
  rw [hsize, hlz4]
  split
  next => rfl
  next => exact List.take_length

/-- By induction on the files: one that is transferred adds its image, one that is
passed has none. -/
theorem walkFiles_commits (htransfers : R.Transfers dec) (hmode : usb.protocolMode = mode)
    (hbegun : usb.Begun) (used : List UInt32) (files : List NamedFile) :
    R.Commits (walkFiles dec usb pitTable true allowUnknown used files)
      (R.fileImages dec pitTable files) := by
  induction files generalizing used with
  | nil => exact Receiver.commits_pure fun _ => rfl
  | cons file files ih =>
      have hspec := file.action_spec pitTable allowUnknown used
      unfold walkFiles Receiver.fileImages
      cases haction : file.action pitTable allowUnknown used with
      | stop code =>
          rw [haction] at hspec
          cases hspec with
          | stop hcode => exact Receiver.commits_pure fun h => absurd h hcode
      | pass =>
          rw [haction] at hspec
          cases hspec with
          | pass hnone =>
              rw [List.filterMap_cons_none (by rw [hnone]; rfl)]
              exact ih used
      | transfer member =>
          rw [haction] at hspec
          cases hspec with
          | transfer hfound hsize hlz4 =>
              -- The size stands in a header, which bounds it.
              have hlt : member.dataSize < 2 ^ 63 := by
                have hentry := file.entry.size_lt
                omega
              rw [List.filterMap_cons_some (by rw [hfound]; rfl),
                ← memberImage_opened hsize hlz4 used]
              exact htransfers.commits hmode hbegun rfl hlt (fun _ => rfl) (ih _)

end Walks

/-! ## Files with a digest -/

/-- The file of an archive. If its name calls for a digest, this stands in one line
behind the archive and is not that of the archive up to its last line, too. -/
inductive ArchiveFile (host : Host) (path archive : Bytes) : Prop where
  | plain {file : FileContent} : endsWithCaseInsensitive path (ascii ".tar.md5") = false →
      host.fs path = some file → file.bytes = archive → ArchiveFile host path archive
  | digested {file : FileContent} (trailer : Md5Trailer host.md5 archive) :
      endsWithCaseInsensitive path (ascii ".tar.md5") = true → host.fs path = some file →
      file.bytes = archive ++ trailer.text → trailer.text.length ≤ md5TailLimit →
      trailer.TellsApart → ArchiveFile host path archive

section Digests

variable {host : Host} {path archive : Bytes} {files : List NamedFile}

/-- Where a line ends in the searched part of the archive it is refused. -/
theorem processTarFile_misread {file : FileContent} (trailer : Md5Trailer host.md5 archive)
    (hpath : endsWithCaseInsensitive path (ascii ".tar.md5") = true)
    (hfile : host.fs path = some file) (hbytes : file.bytes = archive ++ trailer.text)
    (hlimit : trailer.text.length ≤ md5TailLimit) (hline : 10 ∈ trailer.window)
    (hapart : trailer.TellsApart) (hlast : archive.getLast? = some 0) :
    ∃ code, code ≠ .success ∧ ∀ usb pitTable doFlash allowUnknown,
      processTarFile host path usb pitTable doFlash allowUnknown = pure code := by
  have hnoDigit : ∀ c ∈ archive.getLast?, isHexChar c = false := by
    rw [hlast]
    rintro _ ⟨⟩
    decide
  obtain ⟨info, hdetect, hverify⟩ :=
    genuine_refused trailer hpath hfile hbytes hnoDigit hlimit hline hapart
  refine ⟨verifyTarMd5 host.fs host.md5 path info, hverify, fun usb pitTable doFlash allowUnknown => ?_⟩
  unfold processTarFile openArchive
  simp only [hdetect, Bind.bind, Except.bind]
  cases hcode : verifyTarMd5 host.fs host.md5 path info with
  | success => exact absurd hcode hverify
  | _ => rfl

/-- The line of the digest is found, and the digest is right. -/
theorem processTarFile_digested {file : FileContent} (trailer : Md5Trailer host.md5 archive)
    (hpath : endsWithCaseInsensitive path (ascii ".tar.md5") = true)
    (hfile : host.fs path = some file) (hbytes : file.bytes = archive ++ trailer.text)
    (hlimit : trailer.text.length ≤ md5TailLimit) (hwindow : 10 ∉ trailer.window)
    (hlong : tarBlockSize ≤ archive.length) (hlast : archive.getLast? = some 0) (usb : UsbDevice)
    (pitTable : PitTable) (doFlash allowUnknown : Bool) :
    processTarFile host path usb pitTable doFlash allowUnknown =
      memberLoop host.lz4 usb pitTable doFlash allowUnknown archive.length
        (memberFuel archive.length) { file := FileStream.openFile file } := by
  have hnoDigit : ∀ c ∈ archive.getLast?, isHexChar c = false := by
    rw [hlast]
    rintro _ ⟨⟩
    decide
  have hdetect : detectTarMd5Info host.fs path =
      .ok ⟨true, archive.length, toLowerCopy trailer.digest⟩ := by
    have hline := (findLineStart_eq_iff trailer.window trailer.text).mpr fun h => absurd h hwindow
    rw [detectTarMd5Info_eq hfile, if_pos hpath, hbytes, trailer.locateTrailer_eq hlimit hnoDigit,
      hline, Nat.sub_add_cancel trailer.window_suffix.length_le]
  have hverify : verifyTarMd5 host.fs host.md5 path
      ⟨true, archive.length, toLowerCopy trailer.digest⟩ = .success :=
    (verifyTarMd5_eq_success_iff hfile hbytes (Nat.lt_of_lt_of_le (by decide) hlong)).mpr
      trailer.digest_eq.symm
  rw [processTarFile_verified hfile hdetect rfl hverify, if_neg (Nat.not_lt.mpr hlong)]

theorem length_namedArchive (files : List NamedFile) :
    2 * tarBlockSize ≤ (namedArchive files).length := by
  rw [namedArchive, List.length_append, List.length_replicate]
  exact Nat.le_add_left _ _

theorem getLast?_namedArchive (files : List NamedFile) :
    (namedArchive files).getLast? = some 0 := by
  have hzeros : List.replicate (2 * tarBlockSize) (0 : UInt8) =
      List.replicate (2 * tarBlockSize - 1) 0 ++ [0] := List.replicate_succ'
  rw [namedArchive, hzeros, ← List.append_assoc, List.getLast?_concat]

/-- With a digest or without one, a run with an archive of files is the walk over the
files, unless the archive is refused right away. -/
theorem ArchiveFile.walks_or_refused (h : ArchiveFile host path (namedArchive files))
    {usb : UsbDevice} (hbegun : usb.Begun) (pitTable : PitTable) (doFlash allowUnknown : Bool) :
    processTarFile host path usb pitTable doFlash allowUnknown =
        walkFiles host.lz4 usb pitTable doFlash allowUnknown [] files ∨
      ∃ code, code ≠ .success ∧
        processTarFile host path usb pitTable doFlash allowUnknown = pure code := by
  cases h with
  | plain hpath hfile hbytes =>
      exact .inl (processTarFile_files doFlash allowUnknown hbegun hpath hfile hbytes)
  | @digested file trailer hpath hfile hbytes hlimit hapart =>
      by_cases hline : 10 ∈ trailer.window
      · obtain ⟨code, hcode, hrefused⟩ := processTarFile_misread trailer hpath hfile hbytes hlimit
          hline hapart (getLast?_namedArchive files)
        exact .inr ⟨code, hcode, hrefused usb pitTable doFlash allowUnknown⟩
      left
      have hsize : (namedArchive files).length < 2 ^ 63 := by
        refine Nat.lt_of_le_of_lt ?_ file.size_lt
        rw [hbytes, List.length_append]
        exact Nat.le_add_right _ _
      have hlong : tarBlockSize ≤ (namedArchive files).length :=
        (Nat.le_mul_of_pos_left _ (by decide)).trans (length_namedArchive files)
      rw [processTarFile_digested trailer hpath hfile hbytes hlimit hline hlong
        (getLast?_namedArchive files)]
      -- The loop reads nothing behind the archive, so it may stand in a file by itself.
      let start : WalkState := { file := FileStream.openFile ⟨namedArchive files, hsize⟩ }
      have hstate : start.Between (namedArchive files) := ⟨rfl, rfl, rfl, rfl⟩
      have hagree : AgreeOn (Set.Iio (namedArchive files).length) start.file.file file := by
        apply agreeOn_take
        rw [hbytes, List.take_left]
        exact List.take_length
      exact (memberLoop_on host.lz4 usb pitTable doFlash allowUnknown hagree).trans
        (memberLoop_files host.lz4 doFlash allowUnknown hbegun hstate (lt_memberFuel _))

variable {mode : ProtocolMode} {State Image : Type} {R : Receiver mode State Image}

/-- An archive of files has its images committed. -/
theorem ArchiveFile.commits (h : ArchiveFile host path (namedArchive files))
    (htransfers : R.Transfers host.lz4) {usb : UsbDevice} (hmode : usb.protocolMode = mode)
    (hbegun : usb.Begun) (pitTable : PitTable) (allowUnknown : Bool) :
    R.Commits (processTarFile host path usb pitTable true allowUnknown)
      (R.fileImages host.lz4 pitTable files) := by
  rcases h.walks_or_refused hbegun pitTable true allowUnknown with hwalk | ⟨code, hcode, hrefused⟩
  · rw [hwalk]
    exact walkFiles_commits htransfers hmode hbegun [] files
  · rw [hrefused]
    exact Receiver.commits_pure fun hsuccess => absurd hsuccess hcode

end Digests

end Odin4
