import Mathlib.Data.List.Infix
import Mathlib.Data.Set.Basic

/-!
# Stripping suffixes

Words from a code are cut off the end of a text as long as there is one. Where
no word of the code ends in another, at most one cut is possible at a time, so
what is left in the end does not depend on how it was found.
-/

namespace Odin4

variable {α : Type*} {code : Set (List α)} {text stem stem' : List α}

/-- No word is empty, and no word ends in another. -/
structure SuffixCode (code : Set (List α)) : Prop where
  nonempty : ∀ word ∈ code, word ≠ []
  eq_of_suffix : ∀ word ∈ code, ∀ longer ∈ code, word <:+ longer → word = longer

/-- No word of the code ends the text. -/
def Bare (code : Set (List α)) (text : List α) : Prop := ∀ word ∈ code, ¬ word <:+ text

/-- What is left of a text when words are cut off as long as there is one. -/
structure Stem (code : Set (List α)) (text stem : List α) : Prop where
  cut : ∃ words : List (List α), (∀ word ∈ words, word ∈ code) ∧ text = stem ++ words.flatten
  bare : Bare code stem

theorem Bare.isStem (h : Bare code text) : Stem code text text :=
  ⟨⟨[], List.forall_mem_nil _, (List.append_nil text).symm⟩, h⟩

/-- One more word at the end leaves the same stem. -/
theorem Stem.append (h : Stem code text stem) {word : List α} (hword : word ∈ code) :
    Stem code (text ++ word) stem := by
  obtain ⟨words, hwords, rfl⟩ := h.cut
  refine ⟨⟨words ++ [word], ?_, ?_⟩, h.bare⟩
  · intro other hother
    rcases List.mem_append.mp hother with hother | hother
    · exact hwords other hother
    · rwa [List.mem_singleton.mp hother]
  · rw [List.flatten_append, List.flatten_singleton, List.append_assoc]

namespace SuffixCode

/-- Only one word can end a text. -/
theorem unique_word (hcode : SuffixCode code) {word other : List α} (hword : word ∈ code)
    (hother : other ∈ code) (h : word <:+ text) (h' : other <:+ text) : word = other := by
  rcases List.suffix_or_suffix_of_suffix h h' with hsuffix | hsuffix
  · exact hcode.eq_of_suffix word hword other hother hsuffix
  · exact (hcode.eq_of_suffix other hother word hword hsuffix).symm

/-- A text has one stem. -/
theorem unique_stem (hcode : SuffixCode code) (h : Stem code text stem)
    (h' : Stem code text stem') : stem = stem' := by
  obtain ⟨⟨words, hwords, htext⟩, hbare⟩ := h
  obtain ⟨⟨words', hwords', htext'⟩, hbare'⟩ := h'
  have hends : ∀ (front : List α) (words : List (List α)) (last : List α),
      last <:+ front ++ (words ++ [last]).flatten := by
    intro front words last
    rw [List.flatten_append, List.flatten_singleton, ← List.append_assoc]
    exact List.suffix_append _ last
  induction words using List.reverseRecOn generalizing text words' with
  | nil =>
      rw [List.flatten_nil, List.append_nil] at htext
      subst htext
      rcases List.eq_nil_or_concat words' with rfl | ⟨front, last, rfl⟩
      · rwa [List.flatten_nil, List.append_nil] at htext'
      · have hlast := hends stem' front last
        rw [← List.concat_eq_append, ← htext'] at hlast
        exact absurd hlast (hbare last (hwords' last (by simp)))
  | append_singleton front last ih =>
      have hlast := hwords last (by simp)
      have hsuffix : last <:+ text := htext ▸ hends stem front last
      rcases List.eq_nil_or_concat words' with rfl | ⟨front', last', rfl⟩
      · rw [List.flatten_nil, List.append_nil] at htext'
        exact absurd (htext' ▸ hsuffix) (hbare' last hlast)
      · rw [List.concat_eq_append] at hwords' htext'
        obtain rfl := hcode.unique_word hlast (hwords' last' (by simp)) hsuffix
          (htext' ▸ hends stem' front' last')
        rw [List.flatten_append, List.flatten_singleton, ← List.append_assoc] at htext htext'
        have hfronts := List.append_cancel_right (htext.symm.trans htext')
        exact ih (fun word h => hwords word (by simp [h])) rfl front'
          (fun word h => hwords' word (by simp [h])) hfronts

/-- A function that takes words off and leaves bare texts alone finds the stem. -/
theorem stem_of_rules (hcode : SuffixCode code) {strip : List α → List α}
    (hcut : ∀ text, ∀ word ∈ code, strip (text ++ word) = strip text)
    (hkeep : ∀ text, Bare code text → strip text = text) (text : List α) :
    Stem code text (strip text) := by
  induction hlength : text.length using Nat.strong_induction_on generalizing text with
  | _ length ih =>
      subst hlength
      by_cases hbare : Bare code text
      · rw [hkeep text hbare]
        exact hbare.isStem
      · obtain ⟨word, hword, front, rfl⟩ : ∃ word ∈ code, word <:+ text := by
          simpa [Bare] using hbare
        have hpos := List.length_pos_iff.mpr (hcode.nonempty word hword)
        rw [hcut front word hword]
        apply Stem.append _ hword
        apply ih front.length _ front rfl
        rw [List.length_append]
        omega

end SuffixCode

end Odin4
