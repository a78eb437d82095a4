import Odin4.Archive.Tar
import Odin4.Foundation.SuffixStripping

/-!
# Names of images

The loop that strips image extensions looks for the last dot of the name and
compares everything behind it. As an extension has no dot but its first byte,
this takes off any extension that ends the name, and what is left is the stem.
-/

namespace Odin4

/-- The known extensions as a code. -/
def imageCode : Set Bytes := {e | e ∈ imageExtensions}

instance (text : Bytes) : Decidable (Bare imageCode text) :=
  inferInstanceAs (Decidable (∀ e ∈ imageExtensions, ¬ e <:+ text))

/-- The only dot of an extension is in front. -/
theorem imageExtensions_dot {e : Bytes} (he : e ∈ imageExtensions) :
    ∃ tail, e = 46 :: tail ∧ 46 ∉ tail := by
  have hall : ∀ e ∈ imageExtensions, e = 46 :: e.tail ∧ 46 ∉ e.tail := by decide
  exact ⟨e.tail, hall e he⟩

theorem suffixCode_image : SuffixCode imageCode where
  nonempty := by
    intro e he
    obtain ⟨tail, rfl, -⟩ := imageExtensions_dot he
    exact List.cons_ne_nil 46 tail
  eq_of_suffix := by
    have hall : ∀ e ∈ imageExtensions, ∀ longer ∈ imageExtensions, e <:+ longer → e = longer := by
      decide
    exact hall

/-! ## The last dot -/

/-- Behind the last dot there is no dot. -/
theorem findLastDot_append {tail : Bytes} (stem : Bytes) (htail : 46 ∉ tail) :
    findLastDot (stem ++ 46 :: tail) = some stem.length := by
  have hrange : (List.range (stem ++ 46 :: tail).length).reverse =
      ((List.range' (stem.length + 1) tail.length).reverse ++ [stem.length]) ++
        (List.range stem.length).reverse := by
    rw [List.length_append, List.length_cons, List.range_eq_range', List.range_eq_range',
      Nat.add_comm tail.length 1, ← Nat.add_assoc, ← List.range'_append_1, Nat.zero_add,
      List.range'_concat]
    simp
  have hbehind : ∀ i ∈ (List.range' (stem.length + 1) tail.length).reverse,
      ¬ ((stem ++ 46 :: tail)[i]? == some 46) = true := by
    intro i hi hdot
    obtain ⟨hlow, -⟩ := List.mem_range'_1.mp (List.mem_reverse.mp hi)
    obtain ⟨k, rfl⟩ := Nat.exists_eq_add_of_le hlow
    rw [beq_iff_eq, List.getElem?_append_right (by omega)] at hdot
    have hmem : (46 :: tail)[k + 1]? = some 46 := by
      rwa [show stem.length + 1 + k - stem.length = k + 1 by omega] at hdot
    exact htail (List.mem_of_getElem? (List.getElem?_cons_succ.symm.trans hmem))
  rw [findLastDot, hrange, List.find?_append, List.find?_append,
    List.find?_eq_none.mpr hbehind]
  simp

/-! ## The loop -/

section Loop

variable {e : Bytes}

/-- An extension that ends the name is taken off. -/
theorem sanitizeFilename_append (he : e ∈ imageExtensions) (stem : Bytes) :
    sanitizeFilename (stem ++ e) = sanitizeFilename stem := by
  obtain ⟨tail, rfl, htail⟩ := imageExtensions_dot he
  have hdot := findLastDot_append stem htail
  have hmatch : imageExtensions.contains ((stem ++ 46 :: tail).drop stem.length) = true := by
    rw [List.drop_left]
    simpa using he
  rw [sanitizeFilename]
  split
  next hnone =>
    rw [hdot] at hnone
    cases hnone
  next i hsome =>
    obtain rfl := Option.some.inj (hdot.symm.trans hsome)
    rw [if_pos hmatch, List.take_left]

/-- A name that ends in no extension is kept, whatever its last dot. -/
theorem sanitizeFilename_bare {name : Bytes} (h : Bare imageCode name) :
    sanitizeFilename name = name := by
  rw [sanitizeFilename]
  split
  next => rfl
  next i hsome =>
    apply if_neg
    intro hmatch
    have hmem : name.drop i ∈ imageExtensions := by simpa using hmatch
    exact h (name.drop i) hmem (List.drop_suffix i name)

theorem stem_sanitizeFilename (name : Bytes) : Stem imageCode name (sanitizeFilename name) :=
  suffixCode_image.stem_of_rules (fun stem _ he => sanitizeFilename_append he stem)
    (fun _ => sanitizeFilename_bare) name

/-- Sanitizing a name strips a maximal run of extensions: the result is the one
prefix that ends in none of them and from which extensions lead back to the
name. So it is idempotent, and one more extension makes no difference. -/
theorem sanitizeFilename_strips (name : Bytes) :
    (∀ stem, Stem imageCode name stem ↔ stem = sanitizeFilename name) ∧
      sanitizeFilename (sanitizeFilename name) = sanitizeFilename name ∧
      ∀ e ∈ imageExtensions, sanitizeFilename (name ++ e) = sanitizeFilename name := by
  have hstem := stem_sanitizeFilename name
  refine ⟨fun stem => ⟨fun h => suffixCode_image.unique_stem h hstem, ?_⟩, ?_, ?_⟩
  · rintro rfl
    exact hstem
  · exact sanitizeFilename_bare hstem.bare
  · intro e he
    exact sanitizeFilename_append he name

example : sanitizeFilename (ascii "a.b.img.xyz..lz4.img") = ascii "a.b.img.xyz." := by
  decide +kernel

end Loop

/-! ## Letter case -/

section Spelling

variable {name name' : Bytes}

theorem sanitizeFilename_start (name : Bytes) : sanitizeFilename name <+: name := by
  obtain ⟨words, -, hname⟩ := (stem_sanitizeFilename name).cut
  exact ⟨words.flatten, hname.symm⟩

/-- Two spellings of a name strip alike if and only if the stem of one of them ends
where that of the other does. -/
theorem sanitizeFilename_alike_iff (halike : toLowerCopy name = toLowerCopy name') :
    toLowerCopy (sanitizeFilename name) = toLowerCopy (sanitizeFilename name') ↔
      Stem imageCode name' (name'.take (sanitizeFilename name).length) := by
  have hstem := stem_sanitizeFilename name'
  constructor
  · intro h
    have hlength : (sanitizeFilename name).length = (sanitizeFilename name').length := by
      simpa [toLowerCopy] using congrArg List.length h
    rwa [hlength, ← List.prefix_iff_eq_take.mp (sanitizeFilename_start name')]
  · intro h
    have htake : toLowerCopy (name.take (sanitizeFilename name).length) =
        toLowerCopy (name'.take (sanitizeFilename name).length) := by
      unfold toLowerCopy at halike ⊢
      rw [List.map_take, List.map_take, halike]
    rwa [suffixCode_image.unique_stem h hstem,
      ← List.prefix_iff_eq_take.mp (sanitizeFilename_start name)] at htake

/-- Extensions in small letters are stripped, whatever the case of the stem. -/
theorem sanitizeFilename_small {stem : Bytes} {words : List Bytes}
    (hwords : ∀ word ∈ words, word ∈ imageExtensions) (hbare : Bare imageCode (toLowerCopy stem)) :
    sanitizeFilename (stem ++ words.flatten) = stem := by
  have hsmall : ∀ e ∈ imageExtensions, toLowerCopy e = e := by decide +kernel
  refine suffixCode_image.unique_stem (stem_sanitizeFilename _) ⟨⟨words, hwords, rfl⟩, ?_⟩
  intro e he hsuffix
  apply hbare e he
  rw [← hsmall e he]
  exact hsuffix.map toLower

end Spelling

end Odin4
