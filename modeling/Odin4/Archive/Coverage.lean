import Odin4.Archive.Footprint
import Odin4.Archive.RoundTrip
import Odin4.Archive.TrailerAcceptance

/-!
# Coverage of the digest

From a `.tar.md5` file nothing is sent before the digest of its content has been
found behind the content, and what is sent is a function of the content: the
trailer and whatever else follows it have no influence.
-/

namespace Odin4

open Interaction Program

/-! ## The digest that was found -/

/-- Thirty-two hex digits of a file: a maximal run of the region that is
searched, or the end of the file. -/
def DigestRunAt (bytes : Bytes) (pos : Nat) : Prop :=
  (∃ found, pos = bytes.length - (trailerRegion bytes).length + found ∧
    MaximalRunAt isHexChar 32 (trailerRegion bytes) found) ∨
  pos + 32 = bytes.length ∧ ∀ c ∈ bytes.drop pos, isHexChar c = true

theorem findHexRun_isolated {tail : Bytes} {start pos : Nat} (h : findHexRun tail start = some pos) :
    isolatedHexRun tail pos = true := by
  induction start with
  | zero =>
      rw [findHexRun] at h
      split at h
      next hrun =>
        obtain rfl := Option.some.inj h
        exact hrun
      next => simp at h
  | succ start ih =>
      rw [findHexRun] at h
      split at h
      next hrun =>
        obtain rfl := Option.some.inj h
        exact hrun
      next => exact ih h

theorem fieldAt_trailerRegion (bytes : Bytes) (pos width : Nat) :
    fieldAt (trailerRegion bytes) pos width =
      fieldAt bytes (bytes.length - (trailerRegion bytes).length + pos) width := by
  rw [length_trailerRegion, fieldAt, fieldAt, trailerRegion, List.drop_drop]

/-- What is located is a run of hex digits behind the content. -/
theorem locateTrailer_run {bytes : Bytes} {info : TarMd5Info} (h : locateTrailer bytes = .ok info) :
    info.hasMd5 = true ∧ ∃ pos, info.contentEnd ≤ pos ∧ DigestRunAt bytes pos ∧
      info.expectedMd5 = toLowerCopy (fieldAt bytes pos 32) := by
  have hregion := length_trailerRegion bytes
  unfold locateTrailer at h
  dsimp only at h
  split at h
  next => cases h
  next hlong =>
    have htail : 32 ≤ (trailerRegion bytes).length := by
      simp only [hregion, md5TailLimit]
      omega
    split at h
    next =>
      split at h
      next hhex =>
        obtain rfl := Except.ok.inj h
        have hlast : (trailerRegion bytes).drop ((trailerRegion bytes).length - 32) =
            bytes.drop (bytes.length - 32) := by
          rw [hregion, trailerRegion, List.drop_drop]
          congr 1
          simp only [md5TailLimit]
          omega
        have hfield : fieldAt bytes (bytes.length - 32) 32 = bytes.drop (bytes.length - 32) := by
          rw [fieldAt, List.take_of_length_le]
          rw [List.length_drop]
          omega
        rw [hlast] at hhex ⊢
        refine ⟨rfl, bytes.length - 32, Nat.le_refl _, .inr ⟨by omega, ?_⟩, ?_⟩
        · exact List.all_eq_true.mp (Bool.and_eq_true_iff.mp hhex).2
        · rw [hfield]
      next => cases h
    next found hfound =>
      split at h
      next hvalid =>
        obtain rfl := Except.ok.inj h
        have hline := getD_findLineStart_le (trailerRegion bytes) found
        refine ⟨rfl, bytes.length - (trailerRegion bytes).length + found, ?_, .inl ⟨found, rfl, ?_⟩, ?_⟩
        · exact Nat.add_le_add_left hline _
        · exact isolatedHexRun_iff.mp (findHexRun_isolated hfound)
        · rw [fieldAt_trailerRegion]
      next => cases h

section Opening

variable {host : Host} {tarPath : Bytes} {file : FileContent} {info : TarMd5Info}

/-- A file is opened behind a detection and a verification that have succeeded. -/
theorem openArchive_verified {stream : FileStream} {contentEnd : Nat}
    (h : openArchive host tarPath = .ok (stream, contentEnd)) :
    ∃ info, detectTarMd5Info host.fs tarPath = .ok info ∧
      verifyTarMd5 host.fs host.md5 tarPath info = .success := by
  unfold openArchive at h
  cases hdetect : detectTarMd5Info host.fs tarPath with
  | error code => simp only [hdetect, Bind.bind, Except.bind, reduceCtorEq] at h
  | ok info =>
      refine ⟨info, rfl, ?_⟩
      simp only [hdetect, Bind.bind, Except.bind] at h
      split at h
      next hverify => exact hverify
      next => cases h

/-- A content that is long enough is walked from its start. -/
theorem processTarFile_verified (hfile : host.fs tarPath = some file)
    (hdetect : detectTarMd5Info host.fs tarPath = .ok info) (hmd5 : info.hasMd5 = true)
    (hverify : verifyTarMd5 host.fs host.md5 tarPath info = .success) (usb : UsbDevice)
    (pitTable : PitTable) (doFlash allowUnknown : Bool) :
    processTarFile host tarPath usb pitTable doFlash allowUnknown =
      if info.contentEnd < tarBlockSize then pure .firmware
      else memberLoop host.lz4 usb pitTable doFlash allowUnknown info.contentEnd
        (memberFuel info.contentEnd) { file := FileStream.openFile file } := by
  unfold processTarFile openArchive
  simp only [hdetect, hverify, hfile, hmd5, Bind.bind, Except.bind, ↓reduceIte]
  by_cases hshort : info.contentEnd < tarBlockSize
  · rw [if_pos hshort, if_pos hshort]
    rfl
  · rw [if_neg hshort, if_neg hshort]
    rfl

/-- Only a verified file makes a run send anything. -/
theorem processTarFile_sends_verified {usb : UsbDevice} {pitTable : PitTable}
    {doFlash allowUnknown : Bool} {trace : UsbTrace} {code : ExitCode}
    (hexec : (processTarFile host tarPath usb pitTable doFlash allowUnknown).Executes trace code)
    (hsent : sent trace ≠ []) :
    ∃ info, detectTarMd5Info host.fs tarPath = .ok info ∧
      verifyTarMd5 host.fs host.md5 tarPath info = .success := by
  unfold processTarFile at hexec
  cases hopen : openArchive host tarPath with
  | error reason =>
      rw [hopen] at hexec
      obtain ⟨rfl, -⟩ := hexec
      exact absurd sent_nil hsent
  | ok opened => exact openArchive_verified hopen

/-- A verified digest is the digest of the content. -/
theorem verified_digest (hfile : host.fs tarPath = some file) (hmd5 : info.hasMd5 = true)
    (hend : info.contentEnd ≤ file.bytes.length)
    (hverify : verifyTarMd5 host.fs host.md5 tarPath info = .success) :
    info.expectedMd5 =
      toLowerCopy (hexEncode (host.md5 (file.bytes.take info.contentEnd)).toList) := by
  obtain ⟨hasMd5, contentEnd, expected⟩ := info
  obtain rfl : hasMd5 = true := hmd5
  have hpos : 0 < contentEnd := by
    rcases Nat.eq_zero_or_pos contentEnd with rfl | hpos
    · simp [verifyTarMd5] at hverify
    · exact hpos
  have hlength : (file.bytes.take contentEnd).length = contentEnd := List.length_take_of_le hend
  have hbytes : file.bytes = file.bytes.take contentEnd ++ file.bytes.drop contentEnd :=
    (List.take_append_drop _ _).symm
  have hiff : verifyTarMd5 host.fs host.md5 tarPath
      ⟨true, (file.bytes.take contentEnd).length, expected⟩ = .success ↔
        toLowerCopy (hexEncode (host.md5 (file.bytes.take contentEnd)).toList) = expected :=
    verifyTarMd5_eq_success_iff hfile hbytes (by omega)
  rw [hlength] at hiff
  exact (hiff.mp hverify).symm

end Opening

/-! ## Coverage -/

section Coverage

variable {host : Host} {tarPath : Bytes} {file : FileContent}

/-- Whatever the device does, a packet is sent only if the digest of the content
stands behind it, and the run does not depend on anything but the content. -/
theorem tarMd5_covers_run (hpath : endsWithCaseInsensitive tarPath (ascii ".tar.md5") = true)
    (hfile : host.fs tarPath = some file) (usb : UsbDevice) (pitTable : PitTable)
    (doFlash allowUnknown : Bool) :
    (∀ trace code,
      (processTarFile host tarPath usb pitTable doFlash allowUnknown).Executes trace code →
      sent trace ≠ [] →
      ∃ info pos, detectTarMd5Info host.fs tarPath = .ok info ∧ info.contentEnd ≤ pos ∧
        DigestRunAt file.bytes pos ∧ toLowerCopy (fieldAt file.bytes pos 32) =
          toLowerCopy (hexEncode (host.md5 (file.bytes.take info.contentEnd)).toList)) ∧
    ∀ (other : Host) (otherPath : Bytes) (otherFile : FileContent) (info otherInfo : TarMd5Info),
      other.md5 = host.md5 → other.lz4 = host.lz4 →
      endsWithCaseInsensitive otherPath (ascii ".tar.md5") = true →
      other.fs otherPath = some otherFile →
      detectTarMd5Info host.fs tarPath = .ok info →
      detectTarMd5Info other.fs otherPath = .ok otherInfo →
      otherInfo.contentEnd = info.contentEnd →
      otherFile.bytes.take info.contentEnd = file.bytes.take info.contentEnd →
      verifyTarMd5 host.fs host.md5 tarPath info = .success →
      verifyTarMd5 other.fs other.md5 otherPath otherInfo = .success →
      ∀ environment past,
        sent ((processTarFile other otherPath usb pitTable doFlash allowUnknown).run
            environment past).1 =
          sent ((processTarFile host tarPath usb pitTable doFlash allowUnknown).run
            environment past).1 ∧
        ((processTarFile other otherPath usb pitTable doFlash allowUnknown).run
            environment past).2 =
          ((processTarFile host tarPath usb pitTable doFlash allowUnknown).run
            environment past).2 := by
  constructor
  · intro trace code hexec hsent
    obtain ⟨info, hdetect, hverify⟩ := processTarFile_sends_verified hexec hsent
    have hlocate := hdetect
    rw [detectTarMd5Info_eq hfile, if_pos hpath] at hlocate
    obtain ⟨hmd5, pos, hbehind, hrun, hexpected⟩ := locateTrailer_run hlocate
    obtain ⟨_, hsame, hend⟩ := detectTarMd5Info_le hdetect
    obtain rfl := Option.some.inj (hfile.symm.trans hsame)
    refine ⟨info, pos, hdetect, hbehind, hrun, ?_⟩
    rw [← hexpected, verified_digest hfile hmd5 hend hverify]
  · intro other otherPath otherFile info otherInfo hmd5 hlz4 hother hotherFile hdetect hotherDetect
      hend hcontent hverify hotherVerify environment past
    have hhas : ∀ {bytes : Bytes} {found : TarMd5Info}, locateTrailer bytes = .ok found →
        found.hasMd5 = true := fun h => (locateTrailer_run h).1
    have hlocate := hdetect
    have hotherLocate := hotherDetect
    rw [detectTarMd5Info_eq hfile, if_pos hpath] at hlocate
    rw [detectTarMd5Info_eq hotherFile, if_pos hother] at hotherLocate
    -- Both walks read nothing but the content, on which the files agree.
    have hprogram : processTarFile other otherPath usb pitTable doFlash allowUnknown =
        processTarFile host tarPath usb pitTable doFlash allowUnknown := by
      rw [processTarFile_verified hfile hdetect (hhas hlocate) hverify,
        processTarFile_verified hotherFile hotherDetect (hhas hotherLocate) hotherVerify, hend, hlz4]
      split
      next => rfl
      next =>
        let start : WalkState := { file := FileStream.openFile file }
        have hagree : AgreeOn (Set.Iio info.contentEnd) start.file.file otherFile :=
          agreeOn_take hcontent.symm
        exact memberLoop_on host.lz4 usb pitTable doFlash allowUnknown hagree
    rw [hprogram]
    exact ⟨rfl, rfl⟩

end Coverage

/-! ## Two files with one content -/

/-- The header of an empty `boot.img`, the last byte of which is given. -/
def bootBlock (last : UInt8) : Bytes :=
  let back := [48] ++ List.replicate 354 0 ++ [last]
  let sum := ((headerFront (ascii "boot.img") 0).map UInt8.toNat).sum + 8 * 32 +
    (back.map UInt8.toNat).sum
  headerFront (ascii "boot.img") 0 ++ (octalDigits 6 sum ++ [0, 32]) ++ back

def zeroHost (file : FileContent) : Host := ⟨fun _ => some file, zeroMd5, storedFrames⟩

theorem zeroHost_fs (file : FileContent) (path : Bytes) : (zeroHost file).fs path = some file := rfl

def namedFile : FileContent :=
  ⟨bootBlock 10 ++ (zeroTrailer (bootBlock 10)).text, by decide +kernel⟩

/-- The same content with nothing but a newline behind the digits. -/
def bareFile : FileContent := ⟨bootBlock 10 ++ List.replicate 32 48 ++ [10], by decide +kernel⟩

/-- One packet is sent to a device that does not answer, the same one for both files. -/
theorem tarMd5_covers_run_boot :
    (∃ info pos, detectTarMd5Info (zeroHost namedFile).fs (ascii "boot.tar.md5") = .ok info ∧
      info.contentEnd ≤ pos ∧ DigestRunAt namedFile.bytes pos ∧
      toLowerCopy (fieldAt namedFile.bytes pos 32) = toLowerCopy
        (hexEncode ((zeroHost namedFile).md5 (namedFile.bytes.take info.contentEnd)).toList)) ∧
    ∀ environment past,
      sent ((processTarFile (zeroHost bareFile) (ascii "boot.tar.md5") {} firmwarePit true false).run
          environment past).1 =
        sent ((processTarFile (zeroHost namedFile) (ascii "boot.tar.md5") {} firmwarePit true
          false).run environment past).1 := by
  have hpath : endsWithCaseInsensitive (ascii "boot.tar.md5") (ascii ".tar.md5") = true := by decide
  have hdetect : detectTarMd5Info (zeroHost namedFile).fs (ascii "boot.tar.md5") =
      .ok ⟨true, 512, List.replicate 32 48⟩ := by decide +kernel
  have hbareDetect : detectTarMd5Info (zeroHost bareFile).fs (ascii "boot.tar.md5") =
      .ok ⟨true, 512, List.replicate 32 48⟩ := by decide +kernel
  have hverify : verifyTarMd5 (zeroHost namedFile).fs (zeroHost namedFile).md5
      (ascii "boot.tar.md5") ⟨true, 512, List.replicate 32 48⟩ = .success := by decide +kernel
  have hbareVerify : verifyTarMd5 (zeroHost bareFile).fs (zeroHost bareFile).md5
      (ascii "boot.tar.md5") ⟨true, 512, List.replicate 32 48⟩ = .success := by decide +kernel
  have hcontent : bareFile.bytes.take 512 = namedFile.bytes.take 512 := by decide +kernel
  have hsent : (sent ((processTarFile (zeroHost namedFile) (ascii "boot.tar.md5") {} firmwarePit true
      false).run (answeringDevice fun _ _ => []) []).1).isEmpty = false := by decide +kernel
  have hfile : (zeroHost namedFile).fs (ascii "boot.tar.md5") = some namedFile :=
    zeroHost_fs _ _
  have hbareFile : (zeroHost bareFile).fs (ascii "boot.tar.md5") = some bareFile :=
    zeroHost_fs _ _
  have hmd5 : (zeroHost bareFile).md5 = (zeroHost namedFile).md5 :=
    (rfl : zeroMd5 = zeroMd5)
  have hlz4 : (zeroHost bareFile).lz4 = (zeroHost namedFile).lz4 :=
    (rfl : storedFrames = storedFrames)
  generalize zeroHost namedFile = host at *
  generalize zeroHost bareFile = other at *
  obtain ⟨hcovered, hsame⟩ := tarMd5_covers_run hpath hfile {} firmwarePit true false
  refine ⟨hcovered _ _ (executes_run (answeringDevice fun _ _ => []) [] _) ?_, ?_⟩
  · rw [ne_eq, ← List.isEmpty_iff, hsent]
    exact Bool.false_ne_true
  · intro environment past
    exact (hsame other _ _ _ _ hmd5 hlz4 hpath hbareFile hdetect hbareDetect rfl hcontent hverify
      hbareVerify environment past).1

/-! ## A run that reaches into the content -/

/-- Thirty-two digits at the start of the region that is searched. -/
def longTail : Bytes := List.replicate 32 48 ++ 0 :: List.replicate 65503 0

theorem length_longTail : longTail.length = 65536 := by
  rw [longTail, List.length_append, List.length_cons, List.length_replicate, List.length_replicate]

theorem length_bootBlock : (bootBlock 48).length = 512 := by decide +kernel

/-- The content in front of it ends in a digit as well. -/
def crossingFile : FileContent :=
  ⟨bootBlock 48 ++ longTail, by
    rw [List.length_append, length_bootBlock, length_longTail]
    decide⟩

theorem isHexChar_replicate (count : Nat) :
    ∀ c ∈ List.replicate count (48 : UInt8), isHexChar c = true := by
  intro c hc
  rw [List.eq_of_mem_replicate hc]
  decide

theorem longTail_no_later_run {digits front : Bytes} (hdigits : ∀ c ∈ digits, isHexChar c = true)
    {pos : Nat} (hpos : front.length < pos) :
    ¬ MaximalRunAt isHexChar 32 (front ++ (digits ++ 0 :: List.replicate 65503 0)) pos := by
  intro hrun
  by_cases hwithin : pos ≤ front.length + digits.length
  · exact MaximalRunAt.not_within hdigits hpos hwithin hrun
  · rw [← List.append_assoc] at hrun
    have hbehind : (front ++ digits).length ≤ pos := by
      rw [List.length_append]
      omega
    obtain ⟨_, before, run, after, htext, -, hlength, hhex, -⟩ :=
      hrun.behind (by decide) (by decide) hbehind
    have hzero : ∀ c ∈ run, c = 0 := by
      intro c hc
      have hmem : c ∈ List.replicate 65503 (0 : UInt8) := by
        rw [htext]
        exact List.mem_append_right _ (List.mem_append_left _ hc)
      exact (List.mem_replicate.mp hmem).2
    cases run with
    | nil => simp at hlength
    | cons c run =>
        have hhere := hhex c List.mem_cons_self
        rw [hzero c List.mem_cons_self] at hhere
        revert hhere
        decide

theorem crossingFile_detected :
    locateTrailer crossingFile.bytes = .ok ⟨true, 512, List.replicate 32 48⟩ := by
  have hlength : crossingFile.bytes.length = 66048 := by
    rw [crossingFile, List.length_append, length_bootBlock, length_longTail]
  have hregion : trailerRegion crossingFile.bytes = longTail := by
    rw [trailerRegion, hlength]
    exact List.drop_left' length_bootBlock
  have hdigits := isHexChar_replicate 32
  have hfield : fieldAt longTail 0 32 = List.replicate 32 48 :=
    List.take_left' (by simp)
  have hrun : MaximalRunAt isHexChar 32 longTail 0 := by
    refine ⟨[], List.replicate 32 48, 0 :: List.replicate 65503 0, rfl, rfl, by simp, hdigits, by simp,
      ?_⟩
    rintro _ ⟨⟩
    decide
  have hnone : ∀ later, ([] : Bytes).length < later →
      ¬ MaximalRunAt isHexChar 32 ([] ++ longTail) later :=
    fun later => longTail_no_later_run hdigits
  have hfind : findHexRun longTail (65536 - 32) = some 0 :=
    findHexRun_eq (Nat.zero_le _) hrun hnone
  unfold locateTrailer
  dsimp only
  rw [hregion, length_longTail, hfind, hlength, if_neg (by decide)]
  dsimp only
  rw [hfield, if_pos ⟨by decide, by decide⟩]
  rfl

theorem crossingFile_verified : verifyTarMd5 (zeroHost crossingFile).fs zeroMd5
    (ascii "boot.tar.md5") ⟨true, 512, List.replicate 32 48⟩ = .success := by
  have hdigest : toLowerCopy (hexEncode (zeroMd5 (bootBlock 48)).toList) = List.replicate 32 48 :=
    (zeroMd5_digest _).symm
  rw [← length_bootBlock]
  refine (verifyTarMd5_eq_success_iff (zeroHost_fs _ _) rfl ?_).mpr hdigest
  rw [length_bootBlock]
  decide

/-- The content of it by itself. -/
def blockFile : FileContent := ⟨bootBlock 48, by decide +kernel⟩

/-- The header of the content makes a verified run send a packet. -/
theorem boot_sends {host : Host} {tarPath : Bytes} {file : FileContent}
    (hlz4 : host.lz4 = storedFrames) (hfile : host.fs tarPath = some file)
    (hdetect : detectTarMd5Info host.fs tarPath = .ok ⟨true, 512, List.replicate 32 48⟩)
    (hverify : verifyTarMd5 host.fs host.md5 tarPath ⟨true, 512, List.replicate 32 48⟩ = .success)
    (hcontent : blockFile.bytes.take 512 = file.bytes.take 512) :
    ∃ trace code, (processTarFile host tarPath {} firmwarePit true false).Executes trace code ∧
      sent trace ≠ [] := by
  have hsent : (sent ((memberLoop storedFrames {} firmwarePit true false 512 (memberFuel 512)
      { file := FileStream.openFile blockFile }).run (answeringDevice fun _ _ => []) []).1).isEmpty =
        false := by decide +kernel
  -- Only the content matters to the walk.
  let start : WalkState := { file := FileStream.openFile blockFile }
  have hagree : AgreeOn (Set.Iio 512) start.file.file file := agreeOn_take hcontent
  have hloop : memberLoop storedFrames {} firmwarePit true false 512 (memberFuel 512)
      (start.on file) = _ := memberLoop_on storedFrames {} firmwarePit true false hagree
  refine ⟨_, _, executes_run (answeringDevice fun _ _ => []) [] _, ?_⟩
  rw [processTarFile_verified hfile hdetect rfl hverify, if_neg (by decide), hlz4]
  change sent ((memberLoop storedFrames {} firmwarePit true false 512 (memberFuel 512)
    (start.on file)).run (answeringDevice fun _ _ => []) []).1 ≠ []
  rw [hloop, ne_eq, ← List.isEmpty_iff, hsent]
  exact Bool.false_ne_true

/-- Behind the content no run is isolated or final. -/
theorem crossingFile_no_run {pos : Nat} (hpos : 512 ≤ pos) :
    ¬ (MaximalRunAt isHexChar 32 crossingFile.bytes pos ∨
      pos + 32 = crossingFile.bytes.length ∧
        ∀ c ∈ crossingFile.bytes.drop pos, isHexChar c = true) := by
  have hblock : bootBlock 48 = (bootBlock 48).dropLast ++ [48] := by decide +kernel
  have hfront : (bootBlock 48).dropLast.length < pos := by
    rw [List.length_dropLast, length_bootBlock]
    omega
  have hbytes : crossingFile.bytes = (bootBlock 48).dropLast ++
      (List.replicate 33 48 ++ 0 :: List.replicate 65503 0) := by
    change bootBlock 48 ++ longTail = _
    nth_rewrite 1 [hblock]
    rw [List.append_assoc]
    rfl
  rintro (hrun | ⟨hend, hhex⟩)
  · rw [hbytes] at hrun
    exact longTail_no_later_run (isHexChar_replicate 33) hfront hrun
  · have hlength : crossingFile.bytes.length = 66048 := by
      rw [crossingFile, List.length_append, length_bootBlock, length_longTail]
    have hzeros : (0 : UInt8) :: List.replicate 65503 0 = List.replicate 65503 0 ++ [0] := by
      rw [← List.replicate_succ, List.replicate_succ']
    have hlast : (crossingFile.bytes.drop pos).getLast? = some 0 := by
      rw [List.getLast?_drop, if_neg (by omega), hbytes, hzeros, ← List.append_assoc,
        ← List.append_assoc, List.getLast?_concat]
    have hzero := hhex 0 (List.mem_of_getLast? hlast)
    revert hzero
    decide

/-- A packet is sent, but the digits behind the content are part of a longer run
that is neither isolated nor final. -/
theorem crossing_run_accepted :
    ¬ ∀ (host : Host) (tarPath : Bytes) (file : FileContent) (usb : UsbDevice) (pitTable : PitTable)
      (doFlash allowUnknown : Bool) (trace : UsbTrace) (code : ExitCode),
      endsWithCaseInsensitive tarPath (ascii ".tar.md5") = true → host.fs tarPath = some file →
      (processTarFile host tarPath usb pitTable doFlash allowUnknown).Executes trace code →
      sent trace ≠ [] →
      ∃ info pos, detectTarMd5Info host.fs tarPath = .ok info ∧ info.contentEnd ≤ pos ∧
        (MaximalRunAt isHexChar 32 file.bytes pos ∨
          pos + 32 = file.bytes.length ∧ ∀ c ∈ file.bytes.drop pos, isHexChar c = true) ∧
        toLowerCopy (fieldAt file.bytes pos 32) =
          toLowerCopy (hexEncode (host.md5 (file.bytes.take info.contentEnd)).toList) := by
  intro h
  have hpath : endsWithCaseInsensitive (ascii "boot.tar.md5") (ascii ".tar.md5") = true := by decide
  have hfile := zeroHost_fs crossingFile (ascii "boot.tar.md5")
  have hlz4 : (zeroHost crossingFile).lz4 = storedFrames := rfl
  have hverify : verifyTarMd5 (zeroHost crossingFile).fs (zeroHost crossingFile).md5
      (ascii "boot.tar.md5") ⟨true, 512, List.replicate 32 48⟩ = .success := crossingFile_verified
  have hcontent : blockFile.bytes.take 512 = crossingFile.bytes.take 512 := by
    rw [← length_bootBlock]
    exact List.take_length.trans List.take_left.symm
  have hdetect : detectTarMd5Info (zeroHost crossingFile).fs (ascii "boot.tar.md5") =
      .ok ⟨true, 512, List.replicate 32 48⟩ := by
    rw [detectTarMd5Info_eq hfile, if_pos hpath, crossingFile_detected]
  have hnone : ∀ pos, 512 ≤ pos → _ := fun _ => crossingFile_no_run
  generalize zeroHost crossingFile = host at *
  generalize crossingFile = file at *
  obtain ⟨trace, code, hexec, hsent⟩ := boot_sends hlz4 hfile hdetect hverify hcontent
  obtain ⟨info, pos, hfound, hpos, hrun, -⟩ := h _ _ _ _ _ _ _ trace code hpath hfile hexec hsent
  obtain rfl := Except.ok.inj (hdetect.symm.trans hfound)
  exact hnone pos hpos hrun

end Odin4
