import Mathlib.Data.List.Induction
import Odin4.Archive.TrailerSearch
import Odin4.Foundation.MaximalRun

/-!
# Accepting genuine trailers

A genuine file is an archive followed by a line with its digest. The digest is
found whatever the archive contains. The start of its line is found unless a
line ends inside the part of the archive that is searched along with it.
-/

namespace Odin4

/-! ## Digests in hexadecimal -/

theorem isHexChar_toLower (c : UInt8) : isHexChar (toLower c) = isHexChar c := by
  unfold isHexChar toLower
  grind

theorem isHex32_toLowerCopy (text : Bytes) : isHex32 (toLowerCopy text) = isHex32 text := by
  have hall : (toLowerCopy text).all isHexChar = text.all isHexChar := by
    rw [toLowerCopy, List.all_map]
    exact congrArg text.all (funext isHexChar_toLower)
  rw [isHex32, isHex32, hall, toLowerCopy, List.length_map]

theorem isHexChar_hexDigit {n : Nat} (hn : n < 16) : isHexChar (hexDigit n) = true := by
  revert n
  decide

theorem isHex32_hexEncode (digest : List.Vector UInt8 16) :
    isHex32 (hexEncode digest.toList) = true := by
  have hlength : (hexEncode digest.toList).length = 32 := by
    simp [hexEncode, List.length_flatMap]
  have hall : (hexEncode digest.toList).all isHexChar = true := by
    rw [hexEncode, List.all_flatMap]
    refine List.all_eq_true.mpr fun byte _ => ?_
    have hbyte := byte.toNat_lt
    simp [isHexChar_hexDigit (n := byte.toNat / 16) (by omega),
      isHexChar_hexDigit (n := byte.toNat % 16) (by omega)]
  rw [isHex32, hlength, hall]
  rfl

theorem toLower_hexDigit_inj : ∀ m < 16, ∀ n < 16,
    toLower (hexDigit m) = toLower (hexDigit n) → m = n := by
  decide

/-- Digests can be told apart by their digits in either letter case. -/
theorem toLowerCopy_hexEncode_inj {first second : Bytes}
    (h : toLowerCopy (hexEncode first) = toLowerCopy (hexEncode second)) : first = second := by
  induction first generalizing second with
  | nil =>
      cases second with
      | nil => rfl
      | cons byte rest => simp [hexEncode, toLowerCopy] at h
  | cons byte rest ih =>
      cases second with
      | nil => simp [hexEncode, toLowerCopy] at h
      | cons byte' rest' =>
          have hbyte := byte.toNat_lt
          have hbyte' := byte'.toNat_lt
          simp only [toLowerCopy, hexEncode, List.flatMap_cons, List.cons_append, List.nil_append,
            List.map_cons, List.cons.injEq] at h
          obtain ⟨hhigh, hlow, hrest⟩ := h
          have hdiv := toLower_hexDigit_inj _ (by omega) _ (by omega) hhigh
          have hmod := toLower_hexDigit_inj _ (by omega) _ (by omega) hlow
          have hsame : byte = byte' := UInt8.toNat_inj.mp (by omega)
          rw [hsame, ih hrest]

/-! ## The last isolated run -/

theorem isolatedHexRun_iff {tail : Bytes} {pos : Nat} :
    isolatedHexRun tail pos = true ↔ MaximalRunAt isHexChar 32 tail pos := by
  have hfield : isHex32 (fieldAt tail pos 32) = true ↔ pos + 32 ≤ tail.length ∧
      ∀ c ∈ (tail.drop pos).take 32, isHexChar c = true := by
    rw [isHex32, Bool.and_eq_true, List.all_eq_true, fieldAt, beq_iff_eq, List.length_take,
      List.length_drop]
    exact and_congr_left fun _ => by omega
  rw [maximalRunAt_iff, ← and_assoc, ← hfield, isolatedHexRun, Bool.and_eq_true, Bool.and_eq_true,
    and_assoc]
  refine and_congr_right fun hrun => ?_
  obtain ⟨hlength, -⟩ := hfield.mp hrun
  refine and_congr ?_ ?_
  · cases pos with
    | zero => simp
    | succ pos =>
        have hpos : pos < tail.length := by omega
        simp [List.getLast?_take, hpos]
  · rw [List.head?_drop]
    by_cases hend : tail.length ≤ pos + 32
    · simp [hend]
    · have hend := Nat.not_le.mp hend
      simp [hend]

theorem findHexRun_eq {tail : Bytes} {pos start : Nat} (hstart : pos ≤ start)
    (hrun : MaximalRunAt isHexChar 32 tail pos)
    (hlast : ∀ later, pos < later → ¬ MaximalRunAt isHexChar 32 tail later) :
    findHexRun tail start = some pos := by
  simp only [← isolatedHexRun_iff] at hrun hlast
  induction start with
  | zero =>
      obtain rfl : pos = 0 := Nat.le_zero.mp hstart
      exact if_pos hrun
  | succ start ih =>
      rw [findHexRun]
      obtain rfl | hlt := Nat.eq_or_lt_of_le hstart
      · exact if_pos hrun
      · rw [if_neg (hlast _ hlt), ih (Nat.le_of_lt_succ hlt)]

/-! ## The start of the line -/

theorem findLineStart_le {text : Bytes} {pos start : Nat} (h : findLineStart text pos = some start) :
    start ≤ pos := by
  induction pos with
  | zero => simp [findLineStart] at h
  | succ pos ih =>
      rw [findLineStart] at h
      split at h
      next =>
        obtain rfl := Option.some.inj h
        exact Nat.le_refl _
      next => exact Nat.le_succ_of_le (ih h)

theorem getD_findLineStart_le (text : Bytes) (pos : Nat) :
    (findLineStart text pos).getD pos ≤ pos := by
  cases hline : findLineStart text pos with
  | none => exact Nat.le_refl _
  | some start => exact findLineStart_le hline

theorem findLineStart_snoc (window rest : Bytes) (c : UInt8) :
    findLineStart (window ++ [c] ++ rest) (window ++ [c]).length =
      if c = 10 then some (window ++ [c]).length
      else findLineStart (window ++ c :: rest) window.length := by
  rw [List.length_append, List.length_singleton, findLineStart, List.append_assoc,
    List.singleton_append]
  simp

theorem findLineStart_eq_none {window : Bytes} (rest : Bytes) :
    findLineStart (window ++ rest) window.length = none ↔ 10 ∉ window := by
  induction window using List.reverseRecOn generalizing rest with
  | nil => simp [findLineStart]
  | append_singleton window c ih =>
      rw [findLineStart_snoc]
      split
      next hc => simp [hc]
      next hc => simp [ih, Ne.symm hc]

theorem exists_last_line {text : Bytes} (h : 10 ∈ text) :
    ∃ front line, text = front ++ 10 :: line ∧ 10 ∉ line := by
  obtain ⟨line, front, hreverse, hline⟩ := List.eq_append_cons_of_mem (List.mem_reverse.mpr h)
  refine ⟨front.reverse, line.reverse, ?_, fun hmem => hline (List.mem_reverse.mp hmem)⟩
  have htext := congrArg List.reverse hreverse
  simpa using htext

theorem findLineStart_last {front line : Bytes} (h : 10 ∉ line) (rest : Bytes) :
    findLineStart (front ++ 10 :: line ++ rest) (front ++ 10 :: line).length =
      some (front.length + 1) := by
  induction line using List.reverseRecOn generalizing rest with
  | nil => rw [findLineStart_snoc, if_pos rfl, List.length_append, List.length_singleton]
  | append_singleton line c ih =>
      obtain ⟨hline, hc⟩ := not_or.mp (mt List.mem_append.mpr h)
      have hsnoc : front ++ 10 :: (line ++ [c]) = (front ++ 10 :: line) ++ [c] := by simp
      rw [hsnoc, findLineStart_snoc, if_neg fun h => hc (List.mem_singleton.mpr h.symm)]
      exact ih hline (c :: rest)

/-- The line starts where it is looked for, if no line ends in front of it
except directly. -/
theorem findLineStart_eq_iff (window rest : Bytes) :
    (findLineStart (window ++ rest) window.length).getD window.length = window.length ↔
      (10 ∈ window → window.getLast? = some 10) := by
  induction window using List.reverseRecOn with
  | nil => simp [findLineStart]
  | append_singleton window c =>
      rw [findLineStart_snoc, List.getLast?_concat]
      split
      next hc => simp [hc]
      next hc =>
        have hlast : ¬ some c = some 10 := by simpa using hc
        cases hline : findLineStart (window ++ c :: rest) window.length with
        | none =>
            have hnone := (findLineStart_eq_none _).mp hline
            simp [hnone, hc, Ne.symm hc]
        | some start =>
            have hstart := findLineStart_le hline
            have hmem : 10 ∈ window := by
              by_contra hnone
              rw [(findLineStart_eq_none _).mpr hnone] at hline
              simp at hline
            simp [hmem, hc]
            omega

/-! ## Verification -/

theorem md5Absorb_eq {stream : FileStream} {remaining : Nat} (hok : stream.failed = false)
    (hlen : remaining ≤ stream.rest.length) (hashed : Bytes) :
    md5Absorb stream remaining hashed = some (hashed ++ stream.rest.take remaining) := by
  induction remaining using Nat.strong_induction_on generalizing stream hashed with
  | _ remaining ih =>
      rw [md5Absorb]
      split
      next hzero => simp [hzero]
      next hremaining =>
        have hchunk : min remaining md5BufferSize ≤ stream.rest.length := by omega
        simp only [FileStream.read_of_le hok hchunk, List.length_take_of_le hchunk, ne_eq,
          not_true_eq_false, ↓reduceIte]
        rw [ih _ ?_ (by simpa using hok) ?_]
        · rw [FileStream.rest_advance, List.append_assoc, ← List.take_add,
            Nat.add_sub_cancel' (Nat.min_le_left _ _)]
        · simp only [md5BufferSize]
          omega
        · rw [FileStream.rest_advance, List.length_drop]
          omega

/-- A file is verified exactly if the digest of its content is the expected one. -/
theorem verifyTarMd5_eq_success_iff {fs : FileSystem} {md5 : Md5} {path : Bytes} {file : FileContent}
    {content text expected : Bytes} (hfile : fs path = some file)
    (hbytes : file.bytes = content ++ text) (hcontent : 0 < content.length) :
    verifyTarMd5 fs md5 path ⟨true, content.length, expected⟩ = .success ↔
      toLowerCopy (hexEncode (md5 content).toList) = expected := by
  have hrest : (FileStream.openFile file).rest = content ++ text := hbytes
  have habsorb : md5Absorb (FileStream.openFile file) content.length [] = some content := by
    rw [md5Absorb_eq rfl (by simp [hrest]), hrest, List.take_left, List.nil_append]
  unfold verifyTarMd5
  simp only [Bool.not_true, Bool.false_eq_true, ↓reduceIte, hcontent.ne', hfile, habsorb]
  split
  next h => simp [h]
  next h => simp [h]

/-! ## Genuine trailers -/

/-- The line of a digest: its name contains neither a newline nor a maximal run
of 32 hex digits. -/
structure Md5Trailer (md5 : Md5) (content : Bytes) where
  digest : Bytes
  name : Bytes
  /-- Hexadecimal in either letter case. -/
  digest_eq : toLowerCopy digest = toLowerCopy (hexEncode (md5 content).toList)
  no_newline : 10 ∉ name
  no_run : ¬ HasMaximalRun isHexChar 32 name

namespace Md5Trailer

variable {md5 : Md5} {content : Bytes} (trailer : Md5Trailer md5 content)

def text : Bytes := trailer.digest ++ 32 :: 32 :: (trailer.name ++ [10])

theorem isHex32_digest : isHex32 trailer.digest = true := by
  rw [← isHex32_toLowerCopy, trailer.digest_eq, isHex32_toLowerCopy]
  exact isHex32_hexEncode _

theorem length_digest : trailer.digest.length = 32 := by
  have h := trailer.isHex32_digest
  rw [isHex32, Bool.and_eq_true, beq_iff_eq] at h
  exact h.1

theorem isHexChar_digest : ∀ c ∈ trailer.digest, isHexChar c = true := by
  have h := trailer.isHex32_digest
  rw [isHex32, Bool.and_eq_true, List.all_eq_true] at h
  exact h.2

theorem length_text : trailer.text.length = trailer.name.length + 35 := by
  simp only [text, List.length_append, List.length_cons, List.length_nil, trailer.length_digest]
  omega

/-- The part of the content that is searched along with the trailer. -/
def window : Bytes := content.drop (content.length + trailer.text.length - md5TailLimit)

theorem window_suffix : trailer.window <:+ content := List.drop_suffix _ _

theorem trailerRegion_eq (hlimit : trailer.text.length ≤ md5TailLimit) :
    trailerRegion (content ++ trailer.text) = trailer.window ++ trailer.text := by
  have hstart : (content ++ trailer.text).length -
      min (content ++ trailer.text).length md5TailLimit =
        content.length + trailer.text.length - md5TailLimit := by
    rw [List.length_append]
    omega
  rw [trailerRegion, hstart, List.drop_append_of_le_length (by omega), window]

/-- The digest is a maximal run. -/
theorem run_window (hlast : ∀ c ∈ content.getLast?, isHexChar c = false) :
    MaximalRunAt isHexChar 32 (trailer.window ++ trailer.text) trailer.window.length := by
  refine ⟨_, _, _, rfl, rfl, trailer.length_digest, trailer.isHexChar_digest, fun c hc => ?_, ?_⟩
  · obtain ⟨front, hfront⟩ := trailer.window_suffix
    refine hlast c ?_
    rw [← hfront]
    exact List.mem_getLast?_append_of_mem_getLast? hc
  · rintro _ ⟨⟩
    decide

/-- No maximal run starts behind it. -/
theorem last_run {later : Nat} (hlater : trailer.window.length < later) :
    ¬ MaximalRunAt isHexChar 32 (trailer.window ++ trailer.text) later := by
  intro h
  by_cases hdigest : later ≤ trailer.window.length + trailer.digest.length
  · exact MaximalRunAt.not_within trailer.isHexChar_digest hlater hdigest h
  · rw [text, ← List.append_assoc] at h
    have hlength : (trailer.window ++ trailer.digest).length ≤ later := by
      rw [List.length_append]
      omega
    obtain ⟨_, hname⟩ := (h.behind (by decide) (by decide) hlength).of_cons (by decide) (by decide)
    exact trailer.no_run ⟨_, hname.of_snoc (by decide) (by decide)⟩

/-- The trailer is located from the start of what is taken for its line. -/
theorem locateTrailer_eq (hlimit : trailer.text.length ≤ md5TailLimit)
    (hlast : ∀ c ∈ content.getLast?, isHexChar c = false) :
    locateTrailer (content ++ trailer.text) = .ok ⟨true, content.length - trailer.window.length +
      (findLineStart (trailer.window ++ trailer.text) trailer.window.length).getD
        trailer.window.length, toLowerCopy trailer.digest⟩ := by
  have hregion := trailer.trailerRegion_eq hlimit
  have htext := trailer.length_text
  have hwindow := trailer.window_suffix.length_le
  have hfind : findHexRun (trailer.window ++ trailer.text)
      ((trailer.window ++ trailer.text).length - 32) = some trailer.window.length := by
    refine findHexRun_eq ?_ (trailer.run_window hlast) fun later hlater => trailer.last_run hlater
    rw [List.length_append]
    omega
  have hfield : fieldAt (trailer.window ++ trailer.text) trailer.window.length 32 =
      trailer.digest := by
    rw [fieldAt, List.drop_left, text, ← trailer.length_digest, List.take_left]
  have hline := getD_findLineStart_le (trailer.window ++ trailer.text) trailer.window.length
  have hcut : (content ++ trailer.text).length - (trailer.window ++ trailer.text).length =
      content.length - trailer.window.length := by
    rw [List.length_append, List.length_append]
    omega
  have hlength : (content ++ trailer.text).length = content.length + trailer.text.length :=
    List.length_append
  unfold locateTrailer
  dsimp only
  rw [hregion, hfind]
  dsimp only
  rw [hfield, hcut, hlength, if_neg (by omega), if_pos ⟨trailer.isHex32_digest, by omega⟩]

end Md5Trailer

section Accepted

variable {fs : FileSystem} {md5 : Md5} {path content : Bytes} {file : FileContent}

/-- A genuine file is accepted with its content and its digest if and only if
the searched end of the content holds no newline, or ends with one. -/
theorem genuine_accepted_iff (trailer : Md5Trailer md5 content)
    (hpath : endsWithCaseInsensitive path (ascii ".tar.md5") = true) (hfile : fs path = some file)
    (hbytes : file.bytes = content ++ trailer.text) (hcontent : 512 ≤ content.length)
    (hlast : ∀ c ∈ content.getLast?, isHexChar c = false)
    (hlimit : trailer.text.length ≤ md5TailLimit) :
    (detectTarMd5Info fs path = .ok ⟨true, content.length, toLowerCopy trailer.digest⟩ ∧
      verifyTarMd5 fs md5 path ⟨true, content.length, toLowerCopy trailer.digest⟩ = .success) ↔
    (10 ∈ trailer.window → trailer.window.getLast? = some 10) := by
  have hverify : verifyTarMd5 fs md5 path
      ⟨true, content.length, toLowerCopy trailer.digest⟩ = .success :=
    (verifyTarMd5_eq_success_iff hfile hbytes (by omega)).mpr trailer.digest_eq.symm
  have hwindow := trailer.window_suffix.length_le
  rw [detectTarMd5Info_eq hfile, if_pos hpath, hbytes, trailer.locateTrailer_eq hlimit hlast,
    ← findLineStart_eq_iff trailer.window trailer.text]
  constructor
  · rintro ⟨hinfo, -⟩
    have hend := congrArg TarMd5Info.contentEnd (Except.ok.inj hinfo)
    dsimp only at hend
    omega
  · intro hline
    rw [hline, Nat.sub_add_cancel hwindow]
    exact ⟨rfl, hverify⟩

/-- Where a line ends in the searched part of the content, the content up to its last
line has another digest than the whole of it. -/
def Md5Trailer.TellsApart (trailer : Md5Trailer md5 content) : Prop :=
  10 ∈ trailer.window → ∀ front line, content = front ++ 10 :: line → 10 ∉ line →
    md5 (front ++ [10]) ≠ md5 content

/-- A genuine file is refused where a line ends in the part of its content that is
searched: the content up to there is taken for all of it. -/
theorem genuine_refused (trailer : Md5Trailer md5 content)
    (hpath : endsWithCaseInsensitive path (ascii ".tar.md5") = true) (hfile : fs path = some file)
    (hbytes : file.bytes = content ++ trailer.text)
    (hlast : ∀ c ∈ content.getLast?, isHexChar c = false)
    (hlimit : trailer.text.length ≤ md5TailLimit) (hline : 10 ∈ trailer.window)
    (hapart : trailer.TellsApart) :
    ∃ info, detectTarMd5Info fs path = .ok info ∧ verifyTarMd5 fs md5 path info ≠ .success := by
  obtain ⟨before, line, hwindow, hnone⟩ := exists_last_line hline
  obtain ⟨front, hfront⟩ := trailer.window_suffix
  have hcontent : content = (front ++ before) ++ 10 :: line := by
    rw [← hfront, hwindow, List.append_assoc]
  have hfound : findLineStart (trailer.window ++ trailer.text) trailer.window.length =
      some (before.length + 1) := by
    rw [hwindow]
    exact findLineStart_last hnone trailer.text
  have hend : content.length - trailer.window.length + (before.length + 1) =
      ((front ++ before) ++ [10]).length := by
    have hlength := congrArg List.length hfront
    simp only [List.length_append, List.length_singleton] at hlength ⊢
    omega
  have hcut : ∀ text, content ++ text = ((front ++ before) ++ [10]) ++ (line ++ text) := by
    intro text
    rw [hcontent]
    simp
  have hsplit := hbytes.trans (hcut trailer.text)
  have hdetect : detectTarMd5Info fs path =
      .ok ⟨true, ((front ++ before) ++ [10]).length, toLowerCopy trailer.digest⟩ := by
    rw [detectTarMd5Info_eq hfile, if_pos hpath, hbytes, trailer.locateTrailer_eq hlimit hlast,
      hfound, Option.getD_some, hend]
  refine ⟨_, hdetect, fun hverified => hapart hline _ _ hcontent hnone ?_⟩
  have hpos : 0 < ((front ++ before) ++ [10]).length := by
    rw [List.length_append, List.length_singleton]
    exact Nat.succ_pos _
  have hdigest := (verifyTarMd5_eq_success_iff hfile hsplit hpos).mp hverified
  exact List.Vector.toList_injective (toLowerCopy_hexEncode_inj (hdigest.trans trailer.digest_eq))

end Accepted

/-! ## Two archives of one block -/

def zeroMd5 : Md5 := fun _ => List.Vector.replicate 16 0

theorem zeroMd5_digest (content : Bytes) :
    toLowerCopy (List.replicate 32 48) = toLowerCopy (hexEncode (zeroMd5 content).toList) := by
  unfold zeroMd5
  decide

def zeroTrailer (content : Bytes) : Md5Trailer zeroMd5 content where
  digest := List.replicate 32 48
  name := ascii "AP.tar"
  digest_eq := zeroMd5_digest content
  no_newline := by decide
  no_run := fun ⟨_, hrun⟩ => absurd ((Nat.le_add_left _ _).trans hrun.add_le_length) (by decide)

def zeroBlock : Bytes := List.replicate 512 0

def newlineBlock : Bytes := List.replicate 510 0 ++ [10, 0]

def zeroFile : FileContent := ⟨zeroBlock ++ (zeroTrailer zeroBlock).text, by decide +kernel⟩

def newlineFile : FileContent :=
  ⟨newlineBlock ++ (zeroTrailer newlineBlock).text, by decide +kernel⟩

theorem genuine_accepted_iff_zeros :
    detectTarMd5Info (fun _ => some zeroFile) (ascii "firmware.tar.md5") =
      .ok ⟨true, zeroBlock.length, toLowerCopy (zeroTrailer zeroBlock).digest⟩ ∧
    verifyTarMd5 (fun _ => some zeroFile) zeroMd5 (ascii "firmware.tar.md5")
      ⟨true, zeroBlock.length, toLowerCopy (zeroTrailer zeroBlock).digest⟩ = .success :=
  (genuine_accepted_iff (zeroTrailer zeroBlock) (by decide) rfl rfl (by decide +kernel)
    (by decide +kernel) (by decide +kernel)).mpr (by decide +kernel)

/-- The last byte of the archive but one is a newline: it is taken for the end of
the archive. -/
theorem newline_moves_boundary :
    ¬ ∀ (fs : FileSystem) (md5 : Md5) (path content : Bytes) (file : FileContent)
      (trailer : Md5Trailer md5 content),
      endsWithCaseInsensitive path (ascii ".tar.md5") = true → fs path = some file →
      file.bytes = content ++ trailer.text → 512 ≤ content.length →
      (∀ c ∈ content.getLast?, isHexChar c = false) → trailer.text.length ≤ md5TailLimit →
      detectTarMd5Info fs path = .ok ⟨true, content.length, toLowerCopy trailer.digest⟩ ∧
        verifyTarMd5 fs md5 path ⟨true, content.length, toLowerCopy trailer.digest⟩ = .success := by
  intro h
  have hfirst : detectTarMd5Info (fun _ => some newlineFile) (ascii "firmware.tar.md5") =
      .ok ⟨true, 511, List.replicate 32 48⟩ := by decide +kernel
  obtain ⟨hdetect, -⟩ := h (fun _ => some newlineFile) zeroMd5 (ascii "firmware.tar.md5")
    newlineBlock newlineFile (zeroTrailer newlineBlock) (by decide) rfl rfl (by decide +kernel)
    (by decide +kernel) (by decide +kernel)
  have hend := congrArg TarMd5Info.contentEnd (Except.ok.inj (hfirst.symm.trans hdetect))
  revert hend
  decide +kernel

end Odin4
