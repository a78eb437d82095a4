import Odin4.Archive.NamedFiles

/-!
# Runs without unknown members

A run that lets unknown members pass does what a run does over the archive
without them. An unknown member has a name, and an extension that can be read:
a file without a name, or behind an extension beyond the limit, stops every run.
Members with usable names are unknown as soon as their names are not found.
-/

namespace Odin4

open Interaction Program

/-! ## Unknown files -/

namespace NamedFile

variable (pitTable : PitTable) (file : NamedFile)

/-- A regular file that no entry of the table matches. -/
def unmatched : Bool := file.entry.isRegular && (findPitEntry pitTable file.name).isNone

def named : Bool := !file.name.isEmpty

/-- What stands in front of the file is within the limit. -/
def readable : Bool := !file.extension.any TarEntry.tooLarge

def unknown : Bool := file.unmatched pitTable && file.named && file.readable

variable {pitTable : PitTable} {file : NamedFile}

theorem action_unknown (h : file.unknown pitTable = true) (used : List UInt32) :
    file.action pitTable true used = .pass := by
  simp only [unknown, unmatched, named, readable, Bool.and_eq_true, Bool.not_eq_true'] at h
  obtain ⟨⟨⟨hregular, hnone⟩, hname⟩, hreadable⟩ := h
  have hnone := Option.isNone_iff_eq_none.mp hnone
  have hsmall := file.entry.tooLarge_regular hregular
  simp [action, TarEntry.action, hreadable, hsmall, hregular, hname, hnone]

/-- Any other file is dealt with as if unknown members were not allowed. -/
theorem action_known (h : file.unknown pitTable = false) (used : List UInt32) :
    file.action pitTable true used = file.action pitTable false used := by
  unfold action TarEntry.action
  split
  next => rfl
  next hreadable =>
    split
    next => rfl
    split
    next => rfl
    next hregular =>
      split
      next => rfl
      next hname =>
        cases hfound : findPitEntry pitTable file.name with
        | some pitEntry => rfl
        | none =>
            have hregular : file.entry.isRegular = true := by simpa using hregular
            simp [unknown, unmatched, named, readable, hregular, hfound, hname, hreadable] at h

/-- A regular file without a name stops every walk. -/
theorem action_nameless (hregular : file.entry.isRegular = true) (hname : file.named = false)
    (hreadable : file.readable = true) (allowUnknown : Bool) (used : List UInt32) :
    file.action pitTable allowUnknown used = .stop .firmware := by
  simp only [named, readable, Bool.not_eq_true', Bool.not_eq_false'] at hname hreadable
  simp [action, TarEntry.action, hreadable, file.entry.tooLarge_regular hregular, hregular, hname]

theorem action_unreadable (hreadable : file.readable = false) (allowUnknown : Bool)
    (used : List UInt32) : file.action pitTable allowUnknown used = .stop .firmware := by
  simp only [readable, Bool.not_eq_false'] at hreadable
  rw [action, if_pos hreadable]

end NamedFile

/-- Walks that allow unknown members are walks without them. -/
theorem walkFiles_unknown (dec : Lz4Decoder) (usb : UsbDevice) (pitTable : PitTable) (doFlash : Bool)
    (used : List UInt32) (files : List NamedFile) :
    walkFiles dec usb pitTable doFlash true used files =
      walkFiles dec usb pitTable doFlash false used
        (files.filter fun file => !file.unknown pitTable) := by
  induction files generalizing used with
  | nil => rfl
  | cons file files ih =>
      cases hunknown : file.unknown pitTable with
      | true =>
          rw [walkFiles, NamedFile.action_unknown hunknown,
            List.filter_cons_of_neg (by simp [hunknown])]
          exact ih used
      | false =>
          rw [List.filter_cons_of_pos (by simp [hunknown]), walkFiles, walkFiles,
            NamedFile.action_known hunknown]
          cases file.action pitTable false used with
          | stop code => rfl
          | pass => exact ih used
          | transfer member =>
              dsimp only
              congr
              funext result
              cases result with
              | error code => rfl
              | ok next => exact ih (member.pitEntry.identifier :: used)

/-! ## Members -/

/-- The name of a member is there and can be read: it is unknown if it is not found. -/
theorem TarMember.file_unknown (pitTable : PitTable) (member : TarMember) :
    member.file.unknown pitTable = (findPitEntry pitTable member.name).isNone := by
  have hregular : member.entry.isRegular = true := by
    simpa [TarEntry.isRegular] using member.regular
  have hnamed : member.file.named = true := by
    simp [NamedFile.named, member.file_name, member.usable.nonempty]
  have hreadable : member.file.readable = true := by
    have hlong := member.named
    have hextension : member.file.extension = member.longName := rfl
    rw [NamedFile.readable, hextension]
    cases hname : member.longName with
    | none => rfl
    | some long =>
        rw [hname] at hlong
        have hsmall : ¬ extensionLimit < long.data.length := Nat.not_lt.mpr hlong.body_le
        simp [TarEntry.tooLarge, hsmall]
  have hentry : member.file.entry = member.entry := rfl
  rw [NamedFile.unknown, NamedFile.unmatched, hentry, hregular, hnamed, hreadable, member.file_name]
  simp

/-! ## Archives without unknown files -/

section Archives

variable {host : Host} {tarPath restPath : Bytes} {whole rest : FileContent} {pitTable : PitTable}
  {usb : UsbDevice} (doFlash : Bool) (hbegun : usb.Begun)
  (hplain : endsWithCaseInsensitive tarPath (ascii ".tar.md5") = false)
  (hrestPlain : endsWithCaseInsensitive restPath (ascii ".tar.md5") = false)
  (hwhole : host.fs tarPath = some whole) (hrest : host.fs restPath = some rest)

include hbegun hplain hrestPlain hwhole hrest

/-- A run that lets unknown files pass is the run over the archive without them. -/
theorem processTarFile_unknown {files : List NamedFile} (hbytes : whole.bytes = namedArchive files)
    (hrestBytes : rest.bytes = namedArchive (files.filter fun file => !file.unknown pitTable)) :
    processTarFile host tarPath usb pitTable doFlash true =
      processTarFile host restPath usb pitTable doFlash false := by
  rw [processTarFile_files doFlash true hbegun hplain hwhole hbytes,
    processTarFile_files doFlash false hbegun hrestPlain hrest hrestBytes, walkFiles_unknown]

end Archives

/-! ## Runs -/

/-- A run that allows unknown members sends the packets of a run over the archive
without the deleted files, and returns its exit code. -/
def RunsWithout (deleted : PitTable → NamedFile → Bool) : Prop :=
  ∀ (host : Host) (tarPath restPath : Bytes) (whole rest : FileContent) (files : List NamedFile)
    (pitTable : PitTable) (usb : UsbDevice) (doFlash : Bool) (device : UsbEnvironment)
    (past : UsbTrace), usb.Begun →
    endsWithCaseInsensitive tarPath (ascii ".tar.md5") = false →
    endsWithCaseInsensitive restPath (ascii ".tar.md5") = false →
    host.fs tarPath = some whole → host.fs restPath = some rest →
    whole.bytes = namedArchive files →
    rest.bytes = namedArchive (files.filter fun file => !deleted pitTable file) →
    let withUnknown := (processTarFile host tarPath usb pitTable doFlash true).run device past
    let without := (processTarFile host restPath usb pitTable doFlash false).run device past
    sent withUnknown.1 = sent without.1 ∧ withUnknown.2 = without.2

/-- Unknown members are let pass as if they were not there. -/
theorem runsWithout_unknown : RunsWithout NamedFile.unknown := by
  intro host tarPath restPath whole rest files pitTable usb doFlash device past hbegun hplain
    hrestPlain hwhole hrest hbytes hrestBytes
  have hsame := processTarFile_unknown doFlash hbegun hplain hrestPlain hwhole hrest hbytes
    hrestBytes
  simp only [hsame, and_self]

/-- A host with an archive and what is left of it. -/
def pruningHost (whole rest : FileContent) : Host where
  fs path := if path = ascii "whole.tar" then some whole else some rest
  md5 _ := List.Vector.replicate 16 0
  lz4 := storedFrames

theorem pruningHost_whole (whole rest : FileContent) :
    (pruningHost whole rest).fs (ascii "whole.tar") = some whole := by
  simp [pruningHost]

theorem pruningHost_rest (whole rest : FileContent) :
    (pruningHost whole rest).fs (ascii "rest.tar") = some rest := by
  have hother : ascii "rest.tar" ≠ ascii "whole.tar" := by decide
  simp [pruningHost, hother]

def readmeMember : TarMember :=
  .whole (⟨by decide, by decide, by decide +kernel⟩ : UsableName (ascii "README")) (by decide)
    (by decide : (ascii "Read me.").length < 8 ^ 11)

def readmeArchive : FileContent :=
  ⟨tarArchive [bootMember, readmeMember, recoveryMember], by decide +kernel⟩

def prunedArchive : FileContent := ⟨tarArchive [bootMember, recoveryMember], by decide +kernel⟩

/-- Between two images a text is let pass, and both images are flashed. -/
theorem runsWithout_unknown_readme :
    let device := answeringDevice fun _ _ => thorResponse
    let withUnknown := (processTarFile (pruningHost readmeArchive prunedArchive) (ascii "whole.tar") {}
      firmwarePit true true).run device []
    let without := (processTarFile (pruningHost readmeArchive prunedArchive) (ascii "rest.tar") {}
      firmwarePit true false).run device []
    (sent withUnknown.1 = sent without.1 ∧ withUnknown.2 = without.2) ∧
      withUnknown.2 = .success := by
  have hbegun : ({} : UsbDevice).Begun := by simp [UsbDevice.Begun, UsbDevice.isOdinLegacy]
  have hboot : bootMember.file.unknown firmwarePit = false := by
    rw [TarMember.file_unknown]
    decide +kernel
  have hreadme : readmeMember.file.unknown firmwarePit = true := by
    rw [TarMember.file_unknown]
    decide +kernel
  have hrecovery : recoveryMember.file.unknown firmwarePit = false := by
    rw [TarMember.file_unknown]
    decide +kernel
  have hbytes : readmeArchive.bytes =
      namedArchive ([bootMember, readmeMember, recoveryMember].map (·.file)) :=
    (namedArchive_members _).symm
  have hrest : prunedArchive.bytes =
      namedArchive (([bootMember, readmeMember, recoveryMember].map (·.file)).filter fun file =>
        !file.unknown firmwarePit) := by
    have hleft : (([bootMember, readmeMember, recoveryMember].map (·.file)).filter fun file =>
        !file.unknown firmwarePit) = [bootMember, recoveryMember].map (·.file) := by
      simp [hboot, hreadme, hrecovery]
    rw [hleft]
    exact (namedArchive_members _).symm
  exact ⟨runsWithout_unknown _ _ _ _ _ _ firmwarePit {} true _ [] hbegun (by decide) (by decide)
    (pruningHost_whole _ _) (pruningHost_rest _ _) hbytes hrest, by decide +kernel⟩

/-! ## Unknown files that stop a run -/

theorem TarEntry.length_bytes_lt (entry : TarEntry) : entry.bytes.length < 2 ^ 37 := by
  have hdata := entry.size_lt
  have hpadding := padding_lt (by decide : 0 < tarBlockSize) entry.data.length
  have hblock : tarBlockSize = 512 := rfl
  rw [entry.length_bytes]
  omega

theorem NamedFile.length_bytes_lt (file : NamedFile) : file.bytes.length < 2 ^ 38 := by
  have hentry := file.entry.length_bytes_lt
  have hfront : file.front.length < 2 ^ 37 := by
    unfold front
    cases file.extension with
    | none => exact Nat.two_pow_pos 37
    | some ext => exact ext.length_bytes_lt
  rw [bytes, List.length_append]
  omega

theorem NamedFile.length_archive_lt (file : NamedFile) : (namedArchive [file]).length < 2 ^ 63 := by
  have hfile := file.length_bytes_lt
  have hblock : tarBlockSize = 512 := rfl
  rw [namedArchive, List.flatMap_singleton, List.length_append, List.length_replicate]
  omega

/-- An archive with one file. -/
def NamedFile.alone (file : NamedFile) : FileContent := ⟨namedArchive [file], file.length_archive_lt⟩

/-- An archive without files. -/
def emptyArchive : FileContent := ⟨namedArchive [], by decide +kernel⟩

/-- A deleted file must not be one that stops the run. -/
theorem not_runsWithout {deleted : PitTable → NamedFile → Bool} {pitTable : PitTable}
    {file : NamedFile} (hdeleted : deleted pitTable file = true)
    (hstop : file.action pitTable true [] = .stop .firmware) : ¬ RunsWithout deleted := by
  intro h
  have hbegun : ({} : UsbDevice).Begun := by simp [UsbDevice.Begun, UsbDevice.isOdinLegacy]
  have hplain : endsWithCaseInsensitive (ascii "whole.tar") (ascii ".tar.md5") = false := by decide
  have hrestPlain : endsWithCaseInsensitive (ascii "rest.tar") (ascii ".tar.md5") = false := by
    decide
  have hwhole := pruningHost_whole file.alone emptyArchive
  have hrest := pruningHost_rest file.alone emptyArchive
  have hbytes : file.alone.bytes = namedArchive [file] := rfl
  have hleft : emptyArchive.bytes =
      namedArchive ([file].filter fun file => !deleted pitTable file) := by
    rw [List.filter_cons_of_neg (by simp [hdeleted])]
    rfl
  generalize pruningHost file.alone emptyArchive = host at hwhole hrest
  have hstops : processTarFile host (ascii "whole.tar") {} pitTable false true = pure .firmware := by
    rw [processTarFile_files false true hbegun hplain hwhole hbytes, walkFiles, hstop]
  have hends : processTarFile host (ascii "rest.tar") {} pitTable false false = pure .success :=
    processTarFile_files false false hbegun hrestPlain hrest (rfl : _ = namedArchive [])
  have hsame := (h host _ _ _ _ _ pitTable {} false (answeringDevice fun _ _ => []) [] hbegun hplain
    hrestPlain hwhole hrest hbytes hleft).2
  rw [hstops, hends] at hsame
  exact absurd hsame (by decide)

/-- An empty file whose name is a blank. -/
def blankFile : NamedFile where
  extension := none
  entry := .encode 48 (by decide : (ascii " ").length ≤ 100) length_no_prefix length_no_data
  extension_kind := by simp
  entry_kind := by decide +kernel
  no_global_path := by decide +kernel

/-- The same file behind a long name. -/
def longNamed (long : TarEntry) (hkind : long.header.typeflag = 76) : NamedFile where
  extension := some long
  entry := blankFile.entry
  extension_kind := by
    rintro _ ⟨⟩
    exact .inl hkind
  entry_kind := blankFile.entry_kind
  no_global_path := blankFile.no_global_path

theorem longNamed_name {long : TarEntry} (hkind : long.header.typeflag = 76)
    (husable : UsableName long.data) : (longNamed long hkind).name = long.data := by
  have hdata : long.data = long.data ++ List.replicate 0 0 := (List.append_nil _).symm
  have hpending : (longNamed long hkind).pending = PendingNames.past {} long := rfl
  rw [NamedFile.name, hpending, PendingNames.past_longName hkind husable hdata,
    PendingNames.nameOf, if_pos husable.nonempty, husable.sanitize]

theorem longNamed_readable {long : TarEntry} (hkind : long.header.typeflag = 76)
    (hlarge : extensionLimit < long.data.length) : (longNamed long hkind).readable = false := by
  have hextension := (TarEntry.extension_kind (.inl hkind)).1
  have hlong : long.tooLarge = true := by simp [TarEntry.tooLarge, hextension, hlarge]
  have hreadable : (longNamed long hkind).readable = !long.tooLarge := rfl
  rw [hreadable, hlong, Bool.not_true]

theorem usable_replicate (n : Nat) : UsableName (List.replicate (n + 1) 97) where
  nonempty := List.cons_ne_nil _ _
  no_nul h := absurd (List.eq_of_mem_replicate h) (by decide)
  last c hc := by
    obtain rfl := List.eq_of_mem_replicate (List.mem_of_getLast? hc)
    decide

theorem exists_longName {path : Bytes} (hpath : path.length < 8 ^ 11) :
    ∃ long : TarEntry, long.header.typeflag = 76 ∧ long.data = path :=
  ⟨.encode 76 (by decide : (ascii "././@LongLink").length ≤ 100) length_no_prefix hpath,
    typeflag_headerBytes 76 (by decide), rfl⟩

/-- An entry with a path of more than a mebibyte. -/
theorem exists_endless : ∃ long : TarEntry, long.header.typeflag = 76 ∧ UsableName long.data ∧
    extensionLimit < long.data.length := by
  have hlength : (List.replicate (2 ^ 20 + 1) (97 : UInt8)).length = 2 ^ 20 + 1 :=
    List.length_replicate
  obtain ⟨long, hkind, hdata⟩ := exists_longName (hlength ▸ (by decide : 2 ^ 20 + 1 < 8 ^ 11))
  refine ⟨long, hkind, hdata ▸ usable_replicate (2 ^ 20), ?_⟩
  rw [hdata, hlength]
  exact Nat.lt_succ_self _

/-- An empty table matches no file. -/
theorem NamedFile.unmatched_nil {file : NamedFile} (hregular : file.entry.isRegular = true) :
    file.unmatched (pitOf []) = true := by
  have hnone : findPitEntry (pitOf []) file.name = none := rfl
  simp [unmatched, hregular, hnone]

/-- A file without a name, or one whose long name is beyond the limit, is not let pass. -/
theorem not_runsWithout_unmatched :
    ¬ RunsWithout NamedFile.unmatched ∧
      ¬ RunsWithout (fun pitTable file => file.unmatched pitTable && file.readable) ∧
      ¬ RunsWithout (fun pitTable file => file.unmatched pitTable && file.named) := by
  have hregular : blankFile.entry.isRegular = true := by decide +kernel
  have hblank : blankFile.unmatched (pitOf []) = true := NamedFile.unmatched_nil hregular
  have hblankStops : blankFile.action (pitOf []) true [] = .stop .firmware :=
    NamedFile.action_nameless hregular (by decide +kernel) rfl true []
  obtain ⟨long, hkind, husable, hlarge⟩ := exists_endless
  have hlong : (longNamed long hkind).unmatched (pitOf []) = true :=
    NamedFile.unmatched_nil hregular
  have hlongStops : (longNamed long hkind).action (pitOf []) true [] = .stop .firmware :=
    NamedFile.action_unreadable (longNamed_readable hkind hlarge) true []
  have hnamed : (longNamed long hkind).named = true := by
    simp [NamedFile.named, longNamed_name hkind husable, husable.nonempty]
  refine ⟨not_runsWithout hblank hblankStops, not_runsWithout ?_ hblankStops,
    not_runsWithout ?_ hlongStops⟩
  · exact Bool.and_eq_true_iff.mpr ⟨hblank, rfl⟩
  · exact Bool.and_eq_true_iff.mpr ⟨hlong, hnamed⟩

end Odin4
