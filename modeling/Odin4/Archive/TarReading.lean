import Odin4.Archive.OctalExact
import Odin4.Archive.ProcessTar
import Odin4.Archive.TarFormat

/-!
# Reading the TAR format

The reader gets back what the format puts into a header: the numbers, the name
and the kind of the entry.
-/

namespace Odin4

/-! ## Numbers -/

theorem parseOctalU64_field {field : Bytes} {value : Nat} (h : OctalField field value)
    (hlt : value < 2 ^ 64) : parseOctalU64 field = some value := by
  obtain ⟨blanks, digits, ending, rfl, hne, hdigits, hending, rfl⟩ := h
  have hends : ∀ c ∈ ending.head?, endsNumeral c = true :=
    fun c hc => endsNumeral_iff.mpr ((hending c hc).imp_right .inl)
  rw [parseOctalU64_iff, List.append_assoc, octalNumeral_blanks,
    octalNumeral_append hne hdigits hends, ← octalFrom_zero]
  exact ⟨hdigits, hlt, rfl⟩

/-! ## Headers -/

theorem checksumUnsigned_eq (header : Bytes) : checksumUnsigned header = blankedSum header := by
  simp only [checksumUnsigned, checksumBytes, List.map_append, List.sum_append]
  rfl

namespace TarHeader

variable (header : TarHeader)

theorem checksumValid : tarHeaderChecksumValid header.bytes = true := by
  have hlt : blankedSum header.bytes < 2 ^ 64 :=
    Nat.lt_trans (octalField_lt header.checksum_field (length_fieldAt_le _ 148 8)) (by decide)
  rw [tarHeaderChecksumValid, parseOctalU64_field header.checksum_field hlt, checksumUnsigned_eq]
  simp

theorem not_allZeros : isAllZerosBlock header.bytes = false := by
  obtain ⟨c, hmem, hdigit⟩ := header.checksum_field.exists_digit
  have hbytes : c ∈ header.bytes := List.mem_of_mem_drop (List.mem_of_mem_take hmem)
  have hzero : (c == 0) = false := by
    rw [beq_eq_false_iff_ne]
    rintro rfl
    simp [isOctalDigit] at hdigit
  rw [isAllZerosBlock, List.all_eq_false]
  exact ⟨c, hbytes, by simp [hzero]⟩

end TarHeader

/-! ## Names -/

theorem takeWhile_text {text : Bytes} (hnul : 0 ∉ text) (nuls : Nat) :
    (text ++ List.replicate nuls 0).takeWhile (· != 0) = text := by
  rw [List.takeWhile_append_of_pos]
  · cases nuls <;> simp [List.replicate_succ]
  · intro c hmem
    rw [bne_iff_ne]
    rintro rfl
    exact hnul hmem

theorem fieldText_padded {field text : Bytes} {width : Nat}
    (hfield : field.take width = padTo width text) (hnul : 0 ∉ text)
    (hlast : ∀ c ∈ text.getLast?, c ≠ 32 ∧ c ≠ 9) : fieldText field width = text := by
  rw [fieldText, hfield, padTo, takeWhile_text hnul]
  refine trimRight_eq_self fun c hc => ?_
  obtain ⟨hspace, htab⟩ := hlast c hc
  simp [isBlank, hspace, htab]

theorem UsableName.not_blank {name : Bytes} (h : UsableName name) :
    ∀ c ∈ name.getLast?, c ≠ 32 ∧ c ≠ 9 :=
  fun c hc => ⟨(h.last c hc).1, (h.last c hc).2.1⟩

theorem UsableName.sanitize {name : Bytes} (h : UsableName name) : sanitizeTarName name = name := by
  refine trimRight_eq_self fun c hc => ?_
  obtain ⟨-, -, hcr, hlf⟩ := h.last c hc
  have hzero : c ≠ 0 := by
    rintro rfl
    exact h.no_nul (List.mem_of_getLast? hc)
  simp [hzero, hcr, hlf]

theorem TarHeader.Names.headerFilename {header : TarHeader} {name : Bytes} (h : header.Names name)
    (husable : UsableName name) : headerFilename header.bytes = name := by
  unfold Odin4.headerFilename tarFieldString
  cases h with
  | whole hname hinit =>
      have hfield : header.bytes.take 100 = padTo 100 name := hname
      have hempty : fieldText (header.bytes.drop 345) 155 = [] :=
        fieldText_padded (hinit.trans rfl) (by simp) (by simp)
      rw [fieldText_padded hfield husable.no_nul husable.not_blank, hempty]
      simp
  | @split namePrefix rest hmagic hinit hname hdirNonempty hrest hlast =>
      have hnul := husable.no_nul
      simp only [List.mem_append, not_or] at hnul
      have hfield : header.bytes.take 100 = padTo 100 rest := hname
      have hlastRest : ∀ c ∈ rest.getLast?, c ≠ 32 ∧ c ≠ 9 := by
        have hblank := husable.not_blank
        rwa [List.getLast?_append_of_ne_nil _ hrest] at hblank
      rw [if_pos hmagic, fieldText_padded hinit hnul.1.1 hlast,
        fieldText_padded hfield hnul.2 hlastRest]
      simp [hdirNonempty]

/-! ## Entries -/

theorem takeFilename_file (state : WalkState) (header : Bytes) :
    (takeFilename state header).2.file = state.file := by
  unfold takeFilename
  split
  · rfl
  · split <;> rfl

end Odin4
