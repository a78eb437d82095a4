import Mathlib.Algebra.BigOperators.Ring.Finset
import Mathlib.Data.ZMod.Basic
import Odin4.Archive.TarReading
import Odin4.Foundation.ListSum

/-!
# The header checksum

A header is accepted if its checksum field holds one of two sums. Both leave the
same residue modulo 256, so a changed byte is found under either of them.
-/

namespace Odin4

/-! ## Residues -/

/-- The value of a byte modulo 256, signed or not. -/
def byteResidue (c : UInt8) : ZMod 256 := c.toNat

theorem byteResidue_injective : Function.Injective byteResidue := by
  intro c c' h
  have hmod : c.toNat ≡ c'.toNat [MOD 256] := (ZMod.natCast_eq_natCast_iff _ _ _).mp h
  exact UInt8.toNat_inj.mp (hmod.eq_of_lt_of_lt c.toNat_lt c'.toNat_lt)

theorem intCast_signedByte (c : UInt8) : (signedByte c : ZMod 256) = byteResidue c := by
  have hmod : Int.bmod c.toNat 256 ≡ c.toNat [ZMOD (256 : Nat)] := Int.bmod_emod
  have hcast := (ZMod.intCast_eq_intCast_iff _ _ 256).mpr hmod
  rw [Int.cast_natCast] at hcast
  exact hcast

def headerResidue (header : Bytes) : ZMod 256 := ((checksumBytes header).map byteResidue).sum

theorem natCast_checksumUnsigned (header : Bytes) :
    (checksumUnsigned header : ZMod 256) = headerResidue header := by
  rw [checksumUnsigned, Nat.cast_list_sum, List.map_map]
  rfl

theorem intCast_checksumSigned (header : Bytes) :
    (checksumSigned header : ZMod 256) = headerResidue header := by
  rw [checksumSigned, Int.cast_list_sum, List.map_map]
  exact congrArg (fun value => ((checksumBytes header).map value).sum) (funext intCast_signedByte)

/-! ## Accepted headers -/

/-- A header is accepted if its field holds one of the sums. -/
theorem tarHeaderChecksumValid_iff {header : Bytes} : tarHeaderChecksumValid header = true ↔
    ∃ expected, parseOctalU64 (fieldAt header 148 8) = some expected ∧
      (expected = checksumUnsigned header ∨ (expected : Int) = checksumSigned header) := by
  unfold tarHeaderChecksumValid
  cases parseOctalU64 (fieldAt header 148 8) with
  | none => simp
  | some expected =>
      simp only [Bool.or_eq_true, Bool.and_eq_true, beq_iff_eq, decide_eq_true_eq,
        Option.some.injEq, exists_eq_left']
      constructor
      · rintro (hunsigned | ⟨-, hsigned⟩)
        · exact .inl hunsigned
        · exact .inr hsigned
      · rintro (hunsigned | hsigned)
        · exact .inl hunsigned
        · exact .inr ⟨hsigned ▸ Int.natCast_nonneg expected, hsigned⟩

theorem residue_of_valid {header : Bytes} (h : tarHeaderChecksumValid header = true) :
    ∃ expected : Nat, parseOctalU64 (fieldAt header 148 8) = some expected ∧
      (expected : ZMod 256) = headerResidue header := by
  obtain ⟨expected, hparse, hsum⟩ := tarHeaderChecksumValid_iff.mp h
  refine ⟨expected, hparse, ?_⟩
  rcases hsum with hunsigned | hsigned
  · rw [hunsigned, natCast_checksumUnsigned]
  · rw [← intCast_checksumSigned, ← hsigned, Int.cast_natCast]

theorem tarHeaderChecksumValid_of_field {header : Bytes} {value : Nat}
    (hfield : OctalField (fieldAt header 148 8) value)
    (hsum : value = checksumUnsigned header ∨ (value : Int) = checksumSigned header) :
    tarHeaderChecksumValid header = true := by
  have hlt : value < 2 ^ 64 :=
    Nat.lt_trans (octalField_lt hfield (length_fieldAt_le header 148 8)) (by decide)
  exact tarHeaderChecksumValid_iff.mpr ⟨value, parseOctalU64_field hfield hlt, hsum⟩

/-! ## One changed byte -/

section Change

variable {header header' : Bytes} {i : Nat}

theorem getElem?_checksumBytes (hlength : header.length = 512) (j : Nat) :
    (checksumBytes header)[j]? = if 148 ≤ j ∧ j < 156 then some 32 else header[j]? := by
  have hfront : (header.take 148).length = 148 := by rw [List.length_take, hlength]; rfl
  rw [checksumBytes, List.append_assoc]
  by_cases hlow : j < 148
  · rw [List.getElem?_append_left (by omega), List.getElem?_take_of_lt hlow,
      if_neg (by omega)]
  · rw [List.getElem?_append_right (by omega), hfront]
    by_cases hfield : j < 156
    · rw [List.getElem?_append_left (by rw [List.length_replicate]; omega),
        List.getElem?_replicate_of_lt (by omega), if_pos ⟨by omega, hfield⟩]
    · rw [List.getElem?_append_right (by rw [List.length_replicate]; omega),
        List.length_replicate, List.getElem?_drop, if_neg (by omega),
        show 156 + (j - 148 - 8) = j by omega]

theorem fieldAt_of_differsAt (hout : i < 148 ∨ 156 ≤ i) (h : DiffersAt i header header') :
    fieldAt header 148 8 = fieldAt header' 148 8 := by
  apply List.ext_getElem?
  intro j
  rw [fieldAt, fieldAt, List.getElem?_take, List.getElem?_take]
  split
  next hj => rw [List.getElem?_drop, List.getElem?_drop, h.elsewhere (148 + j) (by omega)]
  next => rfl

theorem residue_ne_of_differsAt (hlength : header.length = 512) (hlength' : header'.length = 512)
    (hout : i < 148 ∨ 156 ≤ i) (h : DiffersAt i header header') :
    headerResidue header ≠ headerResidue header' := by
  have hsame : (checksumBytes header).length = (checksumBytes header').length := by
    simp only [checksumBytes, List.length_append, List.length_take, List.length_drop, hlength,
      hlength']
  have hblanked : DiffersAt i (checksumBytes header) (checksumBytes header') := by
    constructor
    · rw [getElem?_checksumBytes hlength, getElem?_checksumBytes hlength', if_neg (by omega),
        if_neg (by omega)]
      exact h.here
    · intro j hj
      rw [getElem?_checksumBytes hlength, getElem?_checksumBytes hlength', h.elsewhere j hj]
  exact sum_map_ne_of_differsAt byteResidue_injective hsame hblanked

theorem tarHeaderChecksumValid_of_differsAt (hlength : header.length = 512)
    (hlength' : header'.length = 512) (hvalid : tarHeaderChecksumValid header = true)
    (hout : i < 148 ∨ 156 ≤ i) (h : DiffersAt i header header') :
    tarHeaderChecksumValid header' = false := by
  rw [Bool.eq_false_iff]
  intro hvalid'
  obtain ⟨expected, hparse, hresidue⟩ := residue_of_valid hvalid
  obtain ⟨expected', hparse', hresidue'⟩ := residue_of_valid hvalid'
  -- The field is untouched, so both sums would have to match one number.
  rw [← fieldAt_of_differsAt hout h, hparse] at hparse'
  obtain rfl := Option.some.inj hparse'
  exact residue_ne_of_differsAt hlength hlength' hout h (hresidue.symm.trans hresidue')

end Change

/-- A header whose field holds one of its sums is accepted, and no header that
differs from an accepted one in a byte outside the field is. -/
theorem tarHeaderChecksum_detects_change :
    (∀ header value, header.length = 512 → OctalField (fieldAt header 148 8) value →
      value = checksumUnsigned header ∨ (value : Int) = checksumSigned header →
      tarHeaderChecksumValid header = true) ∧
    ∀ header header' i, header.length = 512 → header'.length = 512 →
      tarHeaderChecksumValid header = true → i < 148 ∨ 156 ≤ i → DiffersAt i header header' →
      tarHeaderChecksumValid header' = false :=
  ⟨fun _ _ _ => tarHeaderChecksumValid_of_field, fun _ _ _ => tarHeaderChecksumValid_of_differsAt⟩

/-- A header that is empty but for its checksum. -/
def emptyHeader : Bytes :=
  List.replicate 148 0 ++ (octalDigits 6 256 ++ [0, 32]) ++ List.replicate 356 0

/-- One byte of it becomes a negative character. -/
theorem tarHeaderChecksum_detects_change_empty :
    tarHeaderChecksumValid emptyHeader = true ∧
      tarHeaderChecksumValid (emptyHeader.set 0 0xE4) = false := by
  have hfield : OctalField (fieldAt emptyHeader 148 8) 256 := by
    have hdigits : OctalField (octalDigits 6 256 ++ [0, 32]) 256 :=
      octalField_digits (by decide) (by decide) (by simp)
    rwa [emptyHeader, fieldAt_append List.length_replicate (by decide)]
  have hvalid := tarHeaderChecksum_detects_change.1 emptyHeader 256 (by decide +kernel) hfield
    (.inl (by decide +kernel))
  have hdiffers : DiffersAt 0 emptyHeader (emptyHeader.set 0 0xE4) :=
    ⟨by decide +kernel, fun j hj => (List.getElem?_set_ne hj.symm).symm⟩
  exact ⟨hvalid, tarHeaderChecksum_detects_change.2 _ _ 0 (by decide +kernel) (by decide +kernel)
    hvalid (.inl (by decide)) hdiffers⟩

end Odin4
