import Odin4.Archive.Md5Trailer

/-!
# The search for the MD5 trailer

The search as a function of the contents of a file.
-/

namespace Odin4

/-- The region at the end of a file that is searched for the trailer. -/
def trailerRegion (bytes : Bytes) : Bytes := bytes.drop (bytes.length - min bytes.length md5TailLimit)

/-- What is found in a file whose name asks for a trailer. -/
def locateTrailer (bytes : Bytes) : Except ExitCode TarMd5Info :=
  let tail := trailerRegion bytes
  if bytes.length < 32 then .error .firmware
  else
    match findHexRun tail (tail.length - 32) with
    | none =>
        if isHex32 (tail.drop (tail.length - 32)) then
          .ok ⟨true, bytes.length - 32, toLowerCopy (tail.drop (tail.length - 32))⟩
        else .error .firmware
    | some bestPos =>
        if isHex32 (fieldAt tail bestPos 32) ∧
            bytes.length - tail.length + (findLineStart tail bestPos).getD bestPos < bytes.length then
          .ok ⟨true, bytes.length - tail.length + (findLineStart tail bestPos).getD bestPos,
            toLowerCopy (fieldAt tail bestPos 32)⟩
        else .error .firmware

theorem length_trailerRegion (bytes : Bytes) :
    (trailerRegion bytes).length = min bytes.length md5TailLimit := by
  rw [trailerRegion, List.length_drop]
  omega

theorem read_trailerRegion (file : FileContent) :
    (((FileStream.openFile file).seekg
      (file.bytes.length - min file.bytes.length md5TailLimit : Nat)).read
        (min file.bytes.length md5TailLimit)).1 = trailerRegion file.bytes := by
  have hsize := file.size_lt
  rw [FileStream.seekg_nat rfl (by omega), FileStream.read_of_le rfl]
  · change (trailerRegion file.bytes).take _ = _
    rw [← length_trailerRegion, List.take_length]
  · change _ ≤ (trailerRegion file.bytes).length
    rw [length_trailerRegion]

theorem detectTarMd5Info_eq {fs : FileSystem} {path : Bytes} {file : FileContent}
    (hfile : fs path = some file) :
    detectTarMd5Info fs path =
      if endsWithCaseInsensitive path (ascii ".tar.md5") then locateTrailer file.bytes
      else .ok { contentEnd := file.bytes.length } := by
  unfold detectTarMd5Info
  simp only [hfile, read_trailerRegion]
  cases endsWithCaseInsensitive path (ascii ".tar.md5") with
  | false => rfl
  | true =>
      simp only [Bool.not_true, Bool.false_eq_true, ↓reduceIte, locateTrailer, length_trailerRegion,
        ne_eq, not_true_eq_false]
      split
      next => rfl
      cases findHexRun (trailerRegion file.bytes)
          (min file.bytes.length md5TailLimit - 32) with
      | none =>
          dsimp only
          generalize isHex32 _ = valid
          cases valid <;> rfl
      | some bestPos =>
          dsimp only
          generalize isHex32 _ = valid
          cases valid with
          | false => simp; rfl
          | true =>
              simp only [Bool.not_true, Bool.false_eq_true, ↓reduceIte, true_and]
              split
              next hend =>
                rw [if_neg (Nat.not_lt.mpr hend)]
                rfl
              next hend =>
                rw [if_pos (Nat.not_le.mp hend)]
                rfl

/-- The content ends within the file. -/
theorem detectTarMd5Info_le {fs : FileSystem} {path : Bytes} {info : TarMd5Info}
    (h : detectTarMd5Info fs path = .ok info) :
    ∃ file, fs path = some file ∧ info.contentEnd ≤ file.bytes.length := by
  cases hfile : fs path with
  | none =>
      unfold detectTarMd5Info at h
      simp only [hfile] at h
      cases h
  | some file =>
      refine ⟨file, rfl, ?_⟩
      rw [detectTarMd5Info_eq hfile] at h
      unfold locateTrailer at h
      split at h
      next =>
        dsimp only at h
        split at h
        next => cases h
        split at h
        next =>
          split at h
          next =>
            obtain rfl := Except.ok.inj h
            exact Nat.sub_le _ _
          next => cases h
        next =>
          split at h
          next hvalid =>
            obtain rfl := Except.ok.inj h
            exact hvalid.2.le
          next => cases h
      next =>
        obtain rfl := Except.ok.inj h
        exact Nat.le_refl _

end Odin4
