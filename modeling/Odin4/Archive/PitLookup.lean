import Odin4.Archive.ImageNames
import Odin4.Archive.RoundTrip
import Odin4.Foundation.FirstMatch

/-!
# The partition of a file

The lookup takes the first entry of the PIT that agrees with a file in any way:
by its file name, by its file name without image extensions, or by the name of
the partition. Extensions are stripped with regard to case, everything else is
compared without.
-/

namespace Odin4

/-! ## Agreement -/

/-- The name by which a file is looked up: the last component of the path
without image extensions, in lower case. -/
def lookupName (filename : Bytes) : Bytes :=
  toLowerCopy (sanitizeFilename (baseNameFromPath filename))

/-- The entry has a file name, which is the last component of the path. -/
def PitEntry.NamedExactly (entry : PitEntry) (filename : Bytes) : Prop :=
  pitFieldToString entry.fileName ≠ [] ∧
    toLowerCopy (pitFieldToString entry.fileName) = toLowerCopy (baseNameFromPath filename)

/-- The entry has a file name, which is the path or its last component. -/
def PitEntry.NamesFile (entry : PitEntry) (filename : Bytes) : Prop :=
  pitFieldToString entry.fileName ≠ [] ∧
    (toLowerCopy (pitFieldToString entry.fileName) = toLowerCopy (baseNameFromPath filename) ∨
      toLowerCopy (pitFieldToString entry.fileName) = toLowerCopy filename)

/-- One of the names of the entry is `name` once its extensions are stripped. -/
def PitEntry.Carries (entry : PitEntry) (name : Bytes) : Prop :=
  pitFieldToString entry.fileName ≠ [] ∧
      toLowerCopy (sanitizeFilename (pitFieldToString entry.fileName)) = name ∨
    toLowerCopy (sanitizeFilename (pitFieldToString entry.partitionName)) = name

section Agreement

variable {filename : Bytes} {entry : PitEntry}

theorem pitEntryMatches_iff : pitEntryMatches filename entry = true ↔
    entry.NamesFile filename ∨ entry.Carries (lookupName filename) := by
  simp only [pitEntryMatches, PitEntry.NamesFile, PitEntry.Carries, lookupName, Bool.or_eq_true,
    Bool.and_eq_true, Bool.not_eq_true', List.isEmpty_eq_false_iff, beq_iff_eq, ne_eq]
  tauto

theorem PitEntry.NamedExactly.agrees (h : entry.NamedExactly filename) :
    pitEntryMatches filename entry = true :=
  pitEntryMatches_iff.mpr (.inl ⟨h.1, .inl h.2⟩)

theorem PitEntry.NamedExactly.filename_ne_nil (h : entry.NamedExactly filename) :
    filename ≠ [] := by
  rintro rfl
  obtain ⟨hnonempty, heq⟩ := h
  apply hnonempty
  simpa [toLowerCopy, baseNameFromPath] using heq

end Agreement

/-! ## Exact names -/

/-- A file whose name is in the PIT is never unknown. Its entry is the first that
agrees in any way, and has that name if and only if no entry in front of the
first with that name agrees. -/
theorem exact_name_selected_iff {pitTable : PitTable} {filename : Bytes}
    (h : ∃ entry ∈ pitTable.entries, entry.NamedExactly filename) :
    ∃ selected, findPitEntry pitTable filename = some selected ∧
      (∀ allowUnknown state dataSize,
        regularEntry pitTable allowUnknown state filename dataSize = .stop .pit ∧
            selected.identifier ∈ state.usedPartitionIds ∨
          ∃ member next, regularEntry pitTable allowUnknown state filename dataSize =
            .matched member next ∧ member.pitEntry = selected) ∧
      ∃ before exact after, pitTable.entries = before ++ exact :: after ∧
        exact.NamedExactly filename ∧ (∀ entry ∈ before, ¬ entry.NamedExactly filename) ∧
        selected ∈ before ++ [exact] ∧
        (selected.NamedExactly filename ↔ ∀ entry ∈ before,
          ¬ (entry.NamesFile filename ∨ entry.Carries (lookupName filename))) := by
  obtain ⟨before, exact, after, hsplit, hexact, hbefore⟩ := exists_first h
  obtain ⟨selected, hfound, hmem, hiff⟩ := find?_strict_iff hsplit hexact
    (fun entry hentry => PitEntry.NamedExactly.agrees hentry) hbefore
  refine ⟨selected, hfound, fun allowUnknown state dataSize => ?_, before, exact, after, hsplit,
    hexact, hbefore, hmem, ?_⟩
  · have hnonempty : filename.isEmpty = false := by
      simpa using hexact.filename_ne_nil
    have hlookup : findPitEntry pitTable filename = some selected := hfound
    unfold regularEntry
    rw [if_neg (by simp [hnonempty]), hlookup]
    dsimp only
    split
    next hused => exact .inl ⟨rfl, by simpa using hused⟩
    next => exact .inr ⟨_, _, rfl, rfl⟩
  · rw [hiff]
    refine forall₂_congr fun entry _ => ?_
    rw [← pitEntryMatches_iff, Bool.not_eq_true]

/-- A file in a directory, under the name that the PIT has for it. -/
theorem exact_name_selected_recovery : ∃ selected member next,
    findPitEntry firmwarePit (ascii "images/recovery.img") = some selected ∧
      regularEntry firmwarePit false { file := FileStream.openFile bootArchive }
        (ascii "images/recovery.img") 3 = .matched member next ∧ member.pitEntry = selected := by
  have hexact : ∃ entry ∈ firmwarePit.entries, entry.NamedExactly (ascii "images/recovery.img") :=
    ⟨namedEntry 2 (ascii "RECOVERY") (ascii "recovery.img"), by simp [firmwarePit, pitOf],
      by unfold PitEntry.NamedExactly; decide +kernel⟩
  obtain ⟨selected, hfound, hregular, -⟩ := exact_name_selected_iff hexact
  obtain ⟨-, hused⟩ | ⟨member, next, hmatched, hentry⟩ :=
    hregular false { file := FileStream.openFile bootArchive } 3
  · simp at hused
  · exact ⟨selected, member, next, hfound, hmatched, hentry⟩

/-- Two entries in the order in which a stripped name comes first. -/
def shadowedPit : PitTable :=
  pitOf [namedEntry 1 (ascii "PARAM") (ascii "boot.bin"),
    namedEntry 2 (ascii "BOOT") (ascii "boot.img")]

theorem shadowedPit_valid : shadowedPit.Valid := by decide +kernel

/-- The file `boot.img` goes to the partition of `boot.bin`. -/
theorem exact_name_shadowed :
    ¬ ∀ data pitTable filename, parsePitBytes data = some pitTable →
      (∃ entry ∈ pitTable.entries, entry.NamedExactly filename) →
      ∃ selected, findPitEntry pitTable filename = some selected ∧
        selected.NamedExactly filename := by
  intro h
  have hexact : ∃ entry ∈ shadowedPit.entries, entry.NamedExactly (ascii "boot.img") :=
    ⟨namedEntry 2 (ascii "BOOT") (ascii "boot.img"), by simp [shadowedPit, pitOf],
      by unfold PitEntry.NamedExactly; decide +kernel⟩
  obtain ⟨selected, hfound, hselected⟩ := h (shadowedPit.encode ++ []) shadowedPit (ascii "boot.img")
    (parsePitBytes_encode [] shadowedPit_valid) hexact
  have hfirst : findPitEntry shadowedPit (ascii "boot.img") =
      some (namedEntry 1 (ascii "PARAM") (ascii "boot.bin")) := by decide +kernel
  obtain rfl := Option.some.inj (hfirst.symm.trans hfound)
  revert hselected
  unfold PitEntry.NamedExactly
  decide +kernel

/-! ## Letter case -/

theorem isSeparator_toLower (c : UInt8) :
    (toLower c != 47 && toLower c != 92) = (c != 47 && c != 92) := by
  unfold toLower
  grind

theorem toLowerCopy_baseName (path : Bytes) :
    toLowerCopy (baseNameFromPath path) = baseNameFromPath (toLowerCopy path) := by
  have hseparator : (fun c : UInt8 => c != 47 && c != 92) ∘ toLower = fun c => c != 47 && c != 92 := by
    funext c
    exact isSeparator_toLower c
  unfold baseNameFromPath toLowerCopy
  rw [← List.map_reverse, List.takeWhile_map, hseparator, List.map_reverse]

/-- Position of the selected entry. -/
def findPitIndex (pitTable : PitTable) (filename : Bytes) : Option Nat :=
  pitTable.entries.findIdx? (pitEntryMatches filename)

/-- Two entries whose names differ in case only. -/
structure PitEntry.SpelledAlike (entry entry' : PitEntry) : Prop where
  file_eq : toLowerCopy (pitFieldToString entry.fileName) =
    toLowerCopy (pitFieldToString entry'.fileName)
  partition_eq : toLowerCopy (pitFieldToString entry.partitionName) =
    toLowerCopy (pitFieldToString entry'.partitionName)

section Spelling

variable {filename filename' : Bytes} {entry entry' : PitEntry}

theorem PitEntry.namesFile_congr (h : toLowerCopy filename = toLowerCopy filename') :
    entry.NamesFile filename ↔ entry.NamesFile filename' := by
  unfold PitEntry.NamesFile
  rw [toLowerCopy_baseName, toLowerCopy_baseName, h]

theorem PitEntry.SpelledAlike.namesFile_iff (h : entry.SpelledAlike entry') :
    entry.NamesFile filename ↔ entry'.NamesFile filename := by
  have hnil : ∀ text, text = [] ↔ toLowerCopy text = [] := fun text => by simp [toLowerCopy]
  unfold PitEntry.NamesFile
  rw [ne_eq, ne_eq, hnil, hnil (pitFieldToString entry'.fileName), h.file_eq]

/-- Two spellings of a file are looked up under one name if and only if their stems
end at the same place. -/
theorem lookupName_eq_iff (halike : toLowerCopy filename = toLowerCopy filename') :
    lookupName filename = lookupName filename' ↔ Stem imageCode (baseNameFromPath filename')
      ((baseNameFromPath filename').take (sanitizeFilename (baseNameFromPath filename)).length) := by
  apply sanitizeFilename_alike_iff
  rw [toLowerCopy_baseName, toLowerCopy_baseName, halike]

/-- A file whose extensions are in small letters is looked up under its stem. -/
theorem lookupName_small {stem : Bytes} {words : List Bytes}
    (hwords : ∀ word ∈ words, word ∈ imageExtensions) (hbare : Bare imageCode (toLowerCopy stem))
    (hname : baseNameFromPath filename = stem ++ words.flatten) :
    lookupName filename = toLowerCopy stem := by
  rw [lookupName, hname, sanitizeFilename_small hwords hbare]

end Spelling

/-- Case does not matter where the first entry that agrees in one of the two
spellings agrees in both, and so where the stems of the spellings end at the same
place. Only the stripped names can tell spellings apart. -/
theorem lookup_ignores_case_iff (pitTable : PitTable) (filename : Bytes) :
    findPitEntry pitTable filename =
      (findPitIndex pitTable filename).bind (fun i => pitTable.entries[i]?) ∧
    (∀ filename', toLowerCopy filename = toLowerCopy filename' →
      (findPitIndex pitTable filename = findPitIndex pitTable filename' ↔
        Undisputed (fun entry => entry.NamesFile filename)
          (fun entry => entry.Carries (lookupName filename))
          (fun entry => entry.Carries (lookupName filename')) pitTable.entries) ∧
      (Stem imageCode (baseNameFromPath filename') ((baseNameFromPath filename').take
          (sanitizeFilename (baseNameFromPath filename)).length) →
        findPitIndex pitTable filename = findPitIndex pitTable filename')) ∧
    ∀ pitTable' : PitTable, List.Forall₂ PitEntry.SpelledAlike pitTable.entries pitTable'.entries →
      (findPitIndex pitTable filename = findPitIndex pitTable' filename ↔
        Undisputed (fun pair => pair.1.NamesFile filename)
          (fun pair => pair.1.Carries (lookupName filename))
          (fun pair => pair.2.Carries (lookupName filename))
          (pitTable.entries.zip pitTable'.entries)) := by
  refine ⟨List.find?_eq_bind_findIdx?_getElem?, fun filename' halike => ?_,
    fun pitTable' halike => ?_⟩
  · have hiff : findPitIndex pitTable filename = findPitIndex pitTable filename' ↔
        Undisputed (fun entry => entry.NamesFile filename)
          (fun entry => entry.Carries (lookupName filename))
          (fun entry => entry.Carries (lookupName filename')) pitTable.entries := by
      refine findIdx?_eq_iff_undisputed (fun entry _ => pitEntryMatches_iff) fun entry _ => ?_
      rw [pitEntryMatches_iff, PitEntry.namesFile_congr halike]
    refine ⟨hiff, fun hstem => hiff.mpr fun before entry after _ _ => .inr ?_⟩
    rw [(lookupName_eq_iff halike).mpr hstem]
  · have hlength := halike.length_eq
    unfold findPitIndex
    rw [findIdx?_zip_left hlength, findIdx?_zip_right hlength]
    refine findIdx?_eq_iff_undisputed (fun pair _ => pitEntryMatches_iff) fun pair hpair => ?_
    have hpairwise := (List.forall₂_iff_zip.mp halike).2 hpair
    rw [hpairwise.namesFile_iff]
    exact pitEntryMatches_iff

/-- The first name of the PIT, in the case of the PIT and in capitals; and a packed
image in a directory, whose extensions alone are in small letters. -/
theorem lookup_ignores_case_boot :
    Undisputed (fun entry => entry.NamesFile (ascii "boot.img"))
      (fun entry => entry.Carries (lookupName (ascii "boot.img")))
      (fun entry => entry.Carries (lookupName (ascii "BOOT.IMG"))) firmwarePit.entries ∧
    findPitIndex firmwarePit (ascii "images/Boot.img.lz4") =
      findPitIndex firmwarePit (ascii "IMAGES/BOOT.img.lz4") := by
  have halike : toLowerCopy (ascii "images/Boot.img.lz4") =
      toLowerCopy (ascii "IMAGES/BOOT.img.lz4") := by decide
  have hextensions : ∀ word ∈ [ascii ".img", ascii ".lz4"], word ∈ imageExtensions := by decide
  have hbare : Bare imageCode (toLowerCopy (ascii "Boot")) ∧
      Bare imageCode (toLowerCopy (ascii "BOOT")) := by decide +kernel
  have hstem : toLowerCopy (ascii "Boot") = toLowerCopy (ascii "BOOT") := by decide +kernel
  have hname : lookupName (ascii "images/Boot.img.lz4") =
      lookupName (ascii "IMAGES/BOOT.img.lz4") := by
    rw [lookupName_small hextensions hbare.1 (by decide +kernel),
      lookupName_small hextensions hbare.2 (by decide +kernel), hstem]
  exact ⟨((lookup_ignores_case_iff firmwarePit (ascii "boot.img")).2.1 _ (by decide)).1.mp
      (by decide +kernel),
    ((lookup_ignores_case_iff firmwarePit _).2.1 _ halike).2 ((lookupName_eq_iff halike).mp hname)⟩

/-- A PIT with one file. -/
def kernelPit (fileName : Bytes) : PitTable := pitOf [namedEntry 1 (ascii "KERNEL") fileName]

/-- An extension in capitals is not stripped, in the archive or in the PIT. -/
theorem lookup_minds_case :
    ¬ (∀ pitTable filename filename', toLowerCopy filename = toLowerCopy filename' →
        findPitIndex pitTable filename = findPitIndex pitTable filename') ∧
      ¬ ∀ pitTable pitTable' filename,
        List.Forall₂ PitEntry.SpelledAlike pitTable.entries pitTable'.entries →
        findPitIndex pitTable filename = findPitIndex pitTable' filename := by
  constructor
  · intro h
    have hsame := h firmwarePit (ascii "boot.img.lz4") (ascii "BOOT.IMG.LZ4") (by decide)
    revert hsame
    decide +kernel
  · intro h
    have halike : List.Forall₂ PitEntry.SpelledAlike (kernelPit (ascii "boot.img")).entries
        (kernelPit (ascii "boot.IMG")).entries :=
      .cons ⟨by decide +kernel, by decide +kernel⟩ .nil
    have hsame := h _ _ (ascii "boot.img.lz4") halike
    revert hsame
    decide +kernel

end Odin4
