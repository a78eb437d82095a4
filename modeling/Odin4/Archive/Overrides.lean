import Mathlib.Data.List.DropRight
import Odin4.Archive.PaxRecords
import Odin4.Archive.PlacedEntries
import Odin4.Archive.RoundTrip

/-!
# Names given by extension entries

Each header takes the name that is pending, extension headers included. What an
extension gives is therefore for the entry directly behind it, and for no other.
-/

namespace Odin4

open Interaction Program

/-! ## Entries by their bytes -/

/-- The next header is accepted, and these are the data behind it. -/
def EntryAt (contentEnd : Nat) (file : FileStream) (header data : Bytes) : Prop :=
  ∃ size, readHeader contentEnd file = .accepted file.pos header size ∧
    data = (file.advance tarBlockSize).rest.take size

def isExtension (header : Bytes) : Prop :=
  header.getD 156 0 = 76 ∨ header.getD 156 0 = 120 ∨ header.getD 156 0 = 103

/-- An entry of the types `L`, `x` and `g`. -/
structure Extension where
  typeflag : UInt8
  data : Bytes

/-- The name that an extension gives, empty where it gives none. -/
def Extension.name (extension : Extension) : Bytes :=
  if extension.typeflag = 76 then sanitizeTarName (extension.data.takeWhile (· != 0))
  else paxPath extension.data []

/-- What is pending behind a run of extensions. -/
def pendingBehind (extensions : List Extension) : PendingNames :=
  match extensions.getLast? with
  | none => {}
  | some last => if last.typeflag = 76 then ⟨last.name, []⟩ else ⟨[], last.name⟩

/-! ## Turns -/

section Turns

variable {contentEnd : Nat} {pitTable : PitTable} {allowUnknown : Bool} {state next : WalkState}
  {header data : Bytes}

theorem readMember_accepted {offset size : Nat}
    (hheader : readHeader contentEnd state.file = .accepted offset header size) :
    readMember contentEnd pitTable allowUnknown state =
      classifyEntry pitTable allowUnknown state.behindHeader (header.getD 156 0)
        (takeFilename state header).1 size := by
  rw [readMember_eq, hheader]
  dsimp only [enterEntry]
  rw [takeFilename_behind]

/-- The body of an extension is what stands behind its header. -/
theorem readExtension_data {file behind : FileStream} {size : Nat} (hok : file.failed = false)
    (hread : readExtension file size = some (data, behind)) : data = file.rest.take size := by
  obtain ⟨-, hlength, -, rfl, -⟩ : size ≤ extensionLimit ∧ (file.read size).1.length = size ∧
      ((file.read size).2.seekCur (tarPadding size)).failed = false ∧ (file.read size).1 = data ∧
      (file.read size).2.seekCur (tarPadding size) = behind := by
    simpa [readExtension] using hread
  unfold FileStream.read
  simp [hok]

/-- What is pending behind an entry that is skipped. -/
theorem EntryAt.skip_names (h : EntryAt contentEnd state.file header data)
    (hread : readMember contentEnd pitTable allowUnknown state = .skip next) :
    next.names =
      if header.getD 156 0 = 76 then
        { state.names.used with gnuLongName := sanitizeTarName (data.takeWhile (· != 0)) }
      else if header.getD 156 0 = 120 ∨ header.getD 156 0 = 103 then
        { state.names.used with paxPath := paxPath data state.names.used.paxPath }
      else state.names.used := by
  obtain ⟨size, hheader, rfl⟩ := h
  have hok : state.behindHeader.file.failed = false := (readHeader_accepted hheader).good
  -- Skipping the data of an entry uses up the names that were pending.
  have hskipTo : ∀ {file?}, skipTo state.behindHeader file? = .skip next →
      next.names = state.names.used := by
    intro file? hskip
    cases file? with
    | none => cases hskip
    | some file =>
        obtain rfl := MemberStep.skip.inj hskip
        rfl
  rw [readMember_accepted hheader, classifyEntry] at hread
  split
  next hlong =>
    rw [if_pos hlong] at hread
    split at hread
    next => cases hread
    next read file hextension =>
      obtain rfl := MemberStep.skip.inj hread
      rw [readExtension_data hok hextension]
      rfl
  next hlong =>
    rw [if_neg hlong] at hread
    split
    next hpax =>
      rw [if_pos hpax] at hread
      split at hread
      next => cases hread
      next read file hextension =>
        obtain rfl := MemberStep.skip.inj hread
        rw [readExtension_data hok hextension]
        rfl
    next hpax =>
      rw [if_neg hpax] at hread
      split at hread
      next => exact hskipTo hread
      next =>
        unfold regularEntry at hread
        split at hread
        next => cases hread
        split at hread
        next =>
          split at hread
          next => exact hskipTo hread
          next => cases hread
        next => split at hread <;> cases hread

theorem classifyEntry_named {typeflag : UInt8} {filename : Bytes} {dataSize : Nat}
    {member : Member}
    (h : classifyEntry pitTable allowUnknown state typeflag filename dataSize =
      .matched member next) : next.names = state.names ∧ member.filename = filename := by
  unfold classifyEntry at h
  split at h
  next => split at h <;> cases h
  split at h
  next => split at h <;> cases h
  split at h
  next => exact absurd h skipTo_matched
  unfold regularEntry at h
  split at h
  next => cases h
  split at h
  next =>
    split at h
    next => exact absurd h skipTo_matched
    next => cases h
  next =>
    split at h
    next => cases h
    next =>
      obtain ⟨rfl, rfl⟩ := MemberStep.matched.inj h
      exact ⟨rfl, rfl⟩

/-- Behind the header of a member its name is no longer pending. -/
theorem readMember_names {member : Member}
    (hread : readMember contentEnd pitTable allowUnknown state = .matched member next) :
    next.names = state.names.used := by
  obtain ⟨offset, header, dataSize, hheader, -⟩ := turn_accepted hread (by simp)
  rw [readMember_accepted hheader] at hread
  exact (classifyEntry_named hread).1

/-- The transfer of a member leaves the names alone. -/
theorem processMember_names (dec : Lz4Decoder) (usb : UsbDevice) (doFlash : Bool)
    (member : Member) (state : WalkState) :
    Returns (fun result => ∀ done, result = .ok done → done.names = state.names)
      (processMember dec usb doFlash member state) := by
  unfold processMember
  refine returns_bind fun result => ?_
  cases result with
  | error code => exact returns_pure (by simp)
  | ok file =>
      have hkept : ∀ file' done, (Except.ok { state with file := file' } :
          Except ExitCode WalkState) = .ok done → done.names = state.names := by
        intro file' done hdone
        obtain rfl := Except.ok.inj hdone
        rfl
      refine returns_ite (fun _ => returns_pure (by simp)) fun _ => ?_
      refine returns_ite (fun _ => returns_bind fun ended => ?_) fun _ => returns_pure (hkept _)
      exact returns_ite (fun _ => returns_pure (by simp)) fun _ => returns_pure (hkept _)

end Turns

/-! ## Runs of extensions -/

section Runs

variable (dec : Lz4Decoder) (usb : UsbDevice) (pitTable : PitTable) (doFlash allowUnknown : Bool)
variable (contentEnd : Nat) (file : FileStream)

/-- The walk over an archive has come to a state with these extensions directly
in front of it. -/
inductive Reached : List Extension → WalkState → Prop where
  | start : Reached [] { file }
  | extension {extensions state next header data} : Reached extensions state →
      EntryAt contentEnd state.file header data → isExtension header →
      readMember contentEnd pitTable allowUnknown state = .skip next →
      Reached (extensions ++ [⟨header.getD 156 0, data⟩]) next
  | other {extensions state next header data} : Reached extensions state →
      EntryAt contentEnd state.file header data → ¬ isExtension header →
      readMember contentEnd pitTable allowUnknown state = .skip next → Reached [] next
  | member {extensions state next done member trace} : Reached extensions state →
      readMember contentEnd pitTable allowUnknown state = .matched member next →
      (processMember dec usb doFlash member next).Executes trace (.ok done) → Reached [] done

variable {dec usb pitTable doFlash allowUnknown contentEnd file}
variable {extensions : List Extension} {state next : WalkState} {header data : Bytes}

/-- At most one name is pending at a time. -/
theorem pendingBehind_used (extensions : List Extension) : (pendingBehind extensions).used = {} := by
  unfold pendingBehind
  cases extensions.getLast? with
  | none => rfl
  | some last =>
      dsimp only
      split
      next => by_cases h : last.name = [] <;> simp [PendingNames.used, h]
      next => simp [PendingNames.used]

theorem pendingBehind_concat (extensions : List Extension) (last : Extension) :
    pendingBehind (extensions ++ [last]) =
      if last.typeflag = 76 then ⟨last.name, []⟩ else ⟨[], last.name⟩ := by
  unfold pendingBehind
  rw [List.getLast?_concat]

/-- What is pending was given by the extension directly in front. -/
theorem Reached.names
    (h : Reached dec usb pitTable doFlash allowUnknown contentEnd file extensions state) :
    state.names = pendingBehind extensions := by
  induction h with
  | start => rfl
  | @extension extensions state next header data _ hentry hextension hread ih =>
      rw [hentry.skip_names hread, ih, pendingBehind_used, pendingBehind_concat]
      dsimp only [Extension.name]
      split
      next hlong => rfl
      next hlong => rw [if_pos (hextension.resolve_left hlong)]
  | @other extensions state next header data _ hentry hextension hread ih =>
      obtain ⟨hlong, hpax⟩ := not_or.mp hextension
      rw [hentry.skip_names hread, ih, pendingBehind_used, if_neg hlong, if_neg hpax]
      rfl
  | @member extensions state next done member trace _ hread hprocess ih =>
      rw [processMember_names _ _ _ _ _ _ _ hprocess done rfl, readMember_names hread, ih,
        pendingBehind_used]
      rfl

/-- Every state that the loop comes to has been reached so. -/
theorem Reached.comes
    (h : Reached dec usb pitTable doFlash allowUnknown contentEnd file extensions state)
    {trace : UsbTrace} {last : WalkState}
    (hcomes : Comes dec usb pitTable doFlash allowUnknown contentEnd state trace last) :
    ∃ extensions, Reached dec usb pitTable doFlash allowUnknown contentEnd file extensions last := by
  induction hcomes generalizing extensions with
  | here => exact ⟨extensions, h⟩
  | @skip state next last trace hread _ ih =>
      obtain ⟨offset, header, size, hheader, -⟩ := turn_accepted hread (by simp)
      have hentry : EntryAt contentEnd state.file header
          ((state.file.advance tarBlockSize).rest.take size) := by
        refine ⟨size, ?_, rfl⟩
        rw [hheader, (readHeader_accepted hheader).offset_eq]
      by_cases hextension : isExtension header
      · exact ih (.extension h hentry hextension hread)
      · exact ih (.other h hentry hextension hread)
  | matched hread hprocess _ ih => exact ih (.member h hread hprocess)

end Runs

/-! ## The name of a member -/

theorem sanitizeTarName_idem (name : Bytes) :
    sanitizeTarName (sanitizeTarName name) = sanitizeTarName name := by
  unfold sanitizeTarName trimRight
  rw [List.reverse_reverse, List.dropWhile_idempotent _ _]

theorem paxPath_sanitized {text path : Bytes} (h : sanitizeTarName path = path) :
    sanitizeTarName (paxPath text path) = paxPath text path := by
  have hline : ∀ line path, sanitizeTarName path = path →
      sanitizeTarName (paxLine line path) = paxLine line path := by
    intro line path h
    unfold paxLine
    split
    next => exact h
    split
    next => exact h
    split
    next => exact sanitizeTarName_idem _
    next => exact h
  induction text using lines_induction generalizing path with
  | line line hplain =>
      rw [paxPath_line hplain]
      exact hline line path h
  | cons line text hplain ih =>
      rw [paxPath_cons hplain]
      exact ih (hline line path h)

theorem Extension.sanitize_name (extension : Extension) :
    sanitizeTarName extension.name = extension.name := by
  unfold Extension.name
  split
  next => exact sanitizeTarName_idem _
  next => exact paxPath_sanitized rfl

section Names

variable {dec : Lz4Decoder} {usb : UsbDevice} {pitTable : PitTable} {doFlash allowUnknown : Bool}
variable {contentEnd : Nat} {file : FileStream} {extensions : List Extension}
variable {state next : WalkState} {header : Bytes}

/-- The name of an entry behind a run of extensions. -/
theorem takeFilename_reached
    (h : Reached dec usb pitTable doFlash allowUnknown contentEnd file extensions state)
    (header : Bytes) :
    (takeFilename state header).1 =
      match extensions.getLast? with
      | none => sanitizeTarName (headerFilename header)
      | some last =>
          if last.name ≠ [] then last.name else sanitizeTarName (headerFilename header) := by
  rw [takeFilename_pending, h.names]
  unfold pendingBehind
  cases extensions.getLast? with
  | none => rfl
  | some last =>
      dsimp only
      split
      next => simp [last.sanitize_name]
      next => simp [last.sanitize_name]

/-- A regular file has the name that the extension directly in front of it gives,
and its own if no extension of the run gives one. Behind it nothing is pending. -/
theorem override_for_next_entry
    (h : Reached dec usb pitTable doFlash allowUnknown contentEnd file extensions state)
    {offset size : Nat}
    (hheader : readHeader contentEnd state.file = .accepted offset header size)
    (hregular : header.getD 156 0 = 0 ∨ header.getD 156 0 = 48) :
    readMember contentEnd pitTable allowUnknown state = regularEntry pitTable allowUnknown
        state.behindHeader (takeFilename state header).1 size ∧
      (∀ front last, extensions = front ++ [last] → last.name ≠ [] →
        (takeFilename state header).1 = last.name) ∧
      ((∀ extension ∈ extensions, extension.name = []) →
        (takeFilename state header).1 = sanitizeTarName (headerFilename header)) ∧
      (∀ next, readMember contentEnd pitTable allowUnknown state = .skip next →
        next.names = {}) ∧
      ∀ member next done trace,
        readMember contentEnd pitTable allowUnknown state = .matched member next →
        (processMember dec usb doFlash member next).Executes trace (.ok done) →
        done.names = {} := by
  have hname := takeFilename_reached h header
  have hothers : header.getD 156 0 ≠ 76 ∧ ¬ (header.getD 156 0 = 120 ∨ header.getD 156 0 = 103) := by
    rcases hregular with hflag | hflag <;> rw [hflag] <;> decide
  refine ⟨?_, fun front last hlast hgives => ?_, fun hnone => ?_, fun next hread => ?_,
    fun member next done trace hread hprocess => (Reached.member h hread hprocess).names⟩
  · rw [readMember_accepted hheader, classifyEntry, if_neg hothers.1, if_neg hothers.2,
      if_neg (not_not.mpr hregular)]
  · rw [hname, hlast, List.getLast?_concat]
    exact if_pos hgives
  · rw [hname]
    cases hlast : extensions.getLast? with
    | none => rfl
    | some last => exact if_neg (not_not.mpr (hnone last (List.mem_of_getLast? hlast)))
  · have hentry : EntryAt contentEnd state.file header
        ((state.file.advance tarBlockSize).rest.take size) :=
      ⟨size, by rw [hheader, (readHeader_accepted hheader).offset_eq], rfl⟩
    have hextension : ¬ isExtension header := not_or.mpr hothers
    exact (Reached.other h hentry hextension hread).names

/-- The path behind an `x` member is that of its last path record, if the path
stands on one line and no value behind it hides a path. Without path records, and
without hidden paths, there is none. -/
theorem pax_path_taken
    (h : Reached dec usb pitTable doFlash allowUnknown contentEnd file extensions state)
    {records : List PaxRecord} (hentry : EntryAt contentEnd state.file header (paxBody records))
    (hpax : header.getD 156 0 = 120)
    (hread : readMember contentEnd pitTable allowUnknown state = .skip next) :
    (∀ before record after, records = before ++ record :: after → record.IsPath →
      (∀ later ∈ after, ¬ later.IsPath) → record.value ≠ [] →
      (∀ c ∈ record.value.getLast?, c ≠ 0 ∧ c ≠ 13 ∧ c ≠ 10) →
      10 ∉ record.value → (∀ later ∈ after, ¬ HidesPath later.value) →
      next.names = ⟨[], record.value⟩ ∧
        ∀ header, (takeFilename next header).1 = record.value) ∧
    ((∀ record ∈ records, ¬ record.IsPath) → (∀ record ∈ records, ¬ HidesPath record.value) →
      next.names = {} ∧
        ∀ header, (takeFilename next header).1 = sanitizeTarName (headerFilename header)) := by
  have hnames : next.names = ⟨[], paxPath (paxBody records) []⟩ := by
    rw [hentry.skip_names hread, h.names, pendingBehind_used, hpax]
    rfl
  refine ⟨fun before record after hrecords hpath hothers hnonempty hlast hline hplain => ?_,
    fun hothers hplain => ?_⟩
  · have hclean : sanitizeTarName record.value = record.value := by
      refine trimRight_eq_self fun c hc => ?_
      obtain ⟨hnul, hreturn, hnewline⟩ := hlast c hc
      simp [hnul, hreturn, hnewline]
    rw [hrecords, paxPath_last hpath hline fun later hlater => ⟨hothers later hlater,
      hplain later hlater⟩, hclean] at hnames
    refine ⟨hnames, fun header => ?_⟩
    rw [takeFilename_pending, hnames, if_neg (not_not.mpr rfl), if_pos hnonempty, hclean]
  · rw [paxPath_passed fun record hmem => ⟨hothers record hmem, hplain record hmem⟩] at hnames
    refine ⟨hnames, fun header => ?_⟩
    rw [takeFilename_pending, hnames, if_neg (not_not.mpr rfl), if_neg (not_not.mpr rfl)]

end Names

/-! ## Extensions in front of an image -/

/-- The walk over a file has come to a state with these extensions directly in
front of it and these bytes behind it. -/
structure ComesTo (pitTable : PitTable) (file : FileContent) (extensions : List Extension)
    (state : WalkState) (rest : Bytes) : Prop where
  reached : Reached storedFrames {} pitTable true false file.bytes.length
    (FileStream.openFile file) extensions state
  file_eq : state.file.file = file
  good : state.file.failed = false
  rest_eq : state.file.rest = rest

def TarEntry.extension (entry : TarEntry) : Extension := ⟨entry.header.typeflag, entry.data⟩

section Extensions

variable {pitTable : PitTable} {file : FileContent} {extensions : List Extension}
variable {state : WalkState} {entry : TarEntry} {tail : Bytes}

theorem comesTo_start (pitTable : PitTable) (file : FileContent) :
    ComesTo pitTable file [] { file := FileStream.openFile file } file.bytes :=
  ⟨.start, rfl, rfl, rfl⟩

/-- The entry in front of which the walk stands. -/
theorem ComesTo.faces (h : ComesTo pitTable file extensions state (entry.bytes ++ tail)) :
    state.Faces entry ∧
      state.file.pos + tarBlockSize + entry.data.length ≤ file.bytes.length := by
  have hfaces := WalkState.faces_of_rest h.good h.rest_eq
  have hwithin := WalkState.within_of_rest h.rest_eq
  rw [entry.length_bytes, h.file_eq] at hwithin
  exact ⟨hfaces, by omega⟩

theorem ComesTo.header (h : ComesTo pitTable file extensions state (entry.bytes ++ tail)) :
    readHeader file.bytes.length state.file =
      .accepted state.file.pos entry.header.bytes entry.data.length := by
  obtain ⟨hfaces, hlimit⟩ := h.faces
  have hdata := hfaces.size_lt
  have hheader := readHeader_entry hfaces.good hfaces.header_eq
    ((Nat.le_add_right _ _).trans hlimit) (by omega : entry.data.length < 2 ^ 64)
  rwa [if_neg (Nat.not_lt.mpr hlimit)] at hheader

theorem ComesTo.entryAt (h : ComesTo pitTable file extensions state (entry.bytes ++ tail)) :
    EntryAt file.bytes.length state.file entry.header.bytes entry.data := by
  refine ⟨entry.data.length, h.header, ?_⟩
  rw [FileStream.rest_advance]
  exact h.faces.1.data_eq.symm

/-- An extension is read and put in front of the next state. -/
theorem ComesTo.extended (h : ComesTo pitTable file extensions state (entry.bytes ++ tail))
    (hsize : entry.data.length ≤ extensionLimit) (hextension : isExtension entry.header.bytes) :
    ∃ next, readMember file.bytes.length pitTable false state = .skip next ∧
      ComesTo pitTable file (extensions ++ [entry.extension]) next tail := by
  obtain ⟨hfaces, hlimit⟩ := h.faces
  have hirregular : entry.isRegular = false := by
    unfold isExtension at hextension
    unfold TarEntry.isRegular TarHeader.typeflag
    rcases hextension with h | h | h <;> rw [h] <;> rfl
  obtain ⟨next, hskip, hnext, -⟩ : ∃ next, enterEntry pitTable false state entry.header.bytes
      entry.data.length = .skip next ∧ _ := hfaces.skips hirregular fun _ => hsize
  have hread : readMember file.bytes.length pitTable false state = .skip next :=
    (hfaces.enters hlimit).trans hskip
  refine ⟨next, hread, .extension h.reached h.entryAt hextension hread, ?_, ?_, ?_⟩
  · rw [hnext]
    exact h.file_eq
  · rw [hnext]
    exact h.good
  · rw [hnext, FileStream.rest_advance, h.rest_eq, List.drop_left]

/-- By induction on the entries, which are put behind the extensions that were
read before. -/
theorem ComesTo.extendedAll {entries : List TarEntry}
    (hentries : ∀ entry ∈ entries,
      entry.data.length ≤ extensionLimit ∧ isExtension entry.header.bytes)
    (h : ComesTo pitTable file extensions state (entries.flatMap TarEntry.bytes ++ tail)) :
    ∃ next, ComesTo pitTable file (extensions ++ entries.map TarEntry.extension) next tail := by
  induction entries generalizing extensions state with
  | nil => exact ⟨state, by simpa using h⟩
  | cons entry entries ih =>
      rw [List.flatMap_cons, List.append_assoc] at h
      obtain ⟨hsize, hextension⟩ := hentries entry List.mem_cons_self
      obtain ⟨next, -, hnext⟩ := h.extended hsize hextension
      obtain ⟨last, hlast⟩ := ih (fun e he => hentries e (List.mem_cons_of_mem _ he)) hnext
      rw [List.append_assoc, List.singleton_append] at hlast
      exact ⟨last, hlast⟩

end Extensions

/-- An extension of at most 1 MiB. -/
def extensionEntry (typeflag : UInt8) (data : Bytes) (h : data.length ≤ extensionLimit) : TarEntry :=
  .encode typeflag (by decide : (ascii "extension").length ≤ 100) length_no_prefix
    (Nat.lt_of_le_of_lt h (by decide) : data.length < 8 ^ 11)

section Entries

variable {typeflag : UInt8} {data : Bytes} {h : data.length ≤ extensionLimit}

theorem typeflag_extensionEntry (hflag : typeflag = 76 ∨ typeflag = 120 ∨ typeflag = 103) :
    (extensionEntry typeflag data h).header.bytes.getD 156 0 = typeflag ∧
      isExtension (extensionEntry typeflag data h).header.bytes := by
  have hbyte : (extensionEntry typeflag data h).header.bytes.getD 156 0 = typeflag :=
    typeflag_headerBytes typeflag (by decide)
  unfold isExtension
  rw [hbyte]
  exact ⟨rfl, hflag⟩

theorem extension_extensionEntry (hflag : typeflag = 76 ∨ typeflag = 120 ∨ typeflag = 103) :
    (extensionEntry typeflag data h).extension = ⟨typeflag, data⟩ := by
  unfold TarEntry.extension TarHeader.typeflag
  rw [(typeflag_extensionEntry hflag).1]
  rfl

end Entries

/-- The image `boot.img` behind some extensions. -/
def extendedArchive (entries : List TarEntry) (h : (entries.flatMap TarEntry.bytes).length < 2 ^ 62) :
    FileContent where
  bytes := entries.flatMap TarEntry.bytes ++
    (bootMember.entry.bytes ++ List.replicate (2 * tarBlockSize) 0)
  size_lt := by
    have hboot : (bootMember.entry.bytes ++ List.replicate (2 * tarBlockSize) 0).length = 2048 := by
      decide +kernel
    rw [List.length_append, hboot]
    omega

section Archives

variable {entries : List TarEntry} {h : (entries.flatMap TarEntry.bytes).length < 2 ^ 62}
  {file : FileContent}

theorem extendedArchive_start (hfile : file = extendedArchive entries h) :
    ComesTo firmwarePit file [] { file := FileStream.openFile file }
      (entries.flatMap TarEntry.bytes ++
        (bootMember.entry.bytes ++ List.replicate (2 * tarBlockSize) 0)) := by
  rw [hfile]
  exact comesTo_start firmwarePit _

/-- The walk comes to the image with the extensions in front of it. -/
theorem extendedArchive_comesTo (hfile : file = extendedArchive entries h)
    (hentries : ∀ entry ∈ entries,
      entry.data.length ≤ extensionLimit ∧ isExtension entry.header.bytes) :
    ∃ state, ComesTo firmwarePit file (entries.map TarEntry.extension) state
      (bootMember.entry.bytes ++ List.replicate (2 * tarBlockSize) 0) := by
  obtain ⟨state, hstate⟩ := (extendedArchive_start hfile).extendedAll hentries
  rw [List.nil_append] at hstate
  exact ⟨state, hstate⟩

end Archives

theorem bootMember_regular : bootMember.entry.header.bytes.getD 156 0 = 0 ∨
    bootMember.entry.header.bytes.getD 156 0 = 48 := bootMember.regular

/-- The record `18 path=cache.img`. -/
def pathRecord : PaxRecord :=
  ⟨18, ascii "path", ascii "cache.img", by decide, by decide +kernel⟩

/-- Two records in front of it, one of them with a path, and one behind it. -/
def pathRecords : List PaxRecord :=
  [⟨18, ascii "comment", ascii "packed", by decide, by decide +kernel⟩,
    ⟨17, ascii "path", ascii "boot.bin", by decide, by decide +kernel⟩, pathRecord,
    ⟨20, ascii "mtime", ascii "1700000000", by decide, by decide +kernel⟩]

def longNameEntry : TarEntry := extensionEntry 76 (ascii "recovery.img" ++ [0]) (by decide +kernel)

def pathEntry : TarEntry := extensionEntry 120 (paxBody pathRecords) (by decide +kernel)

/-- An `L` member with an `x` member behind it. -/
def namedTwiceArchive : FileContent := extendedArchive [longNameEntry, pathEntry] (by decide +kernel)

theorem isExtension_namedTwice : ∀ entry ∈ [longNameEntry, pathEntry],
    entry.data.length ≤ extensionLimit ∧ isExtension entry.header.bytes := by
  intro entry hentry
  rcases List.mem_pair.mp hentry with rfl | rfl
  · exact ⟨by decide +kernel, (typeflag_extensionEntry (.inl rfl)).2⟩
  · exact ⟨by decide +kernel, (typeflag_extensionEntry (.inr (.inl rfl))).2⟩

/-- The last extension gives the name of the image behind it. -/
theorem override_for_next_entry_path : ∃ state,
    Reached storedFrames {} firmwarePit true false namedTwiceArchive.bytes.length
      (FileStream.openFile namedTwiceArchive)
      [⟨76, ascii "recovery.img" ++ [0]⟩, ⟨120, paxBody pathRecords⟩] state ∧
      (takeFilename state bootMember.entry.header.bytes).1 = ascii "cache.img" := by
  generalize hfile : namedTwiceArchive = file
  obtain ⟨state, hstate⟩ := extendedArchive_comesTo hfile.symm isExtension_namedTwice
  have hreached := hstate.reached
  rw [List.map_cons, List.map_singleton, longNameEntry, pathEntry,
    extension_extensionEntry (.inl rfl), extension_extensionEntry (.inr (.inl rfl))] at hreached
  have hname := (override_for_next_entry hreached hstate.header bootMember_regular).2.1
    [⟨76, ascii "recovery.img" ++ [0]⟩] ⟨120, paxBody pathRecords⟩ rfl
  have hgiven : (⟨120, paxBody pathRecords⟩ : Extension).name = ascii "cache.img" := by
    decide +kernel
  rw [hgiven] at hname
  exact ⟨state, hreached, hname (by decide)⟩

/-- The same path in a `g` member. -/
def globalArchive : FileContent :=
  extendedArchive [extensionEntry 103 (paxBody [pathRecord]) (by decide +kernel)] (by decide +kernel)

/-- The path of a `g` entry is used like that of an `x` entry. -/
theorem global_path_used :
    ¬ ∀ dec usb pitTable doFlash allowUnknown contentEnd file extensions state offset header size,
      Reached dec usb pitTable doFlash allowUnknown contentEnd file extensions state →
      readHeader contentEnd state.file = .accepted offset header size →
      header.getD 156 0 = 0 ∨ header.getD 156 0 = 48 →
      (∀ extension ∈ extensions, extension.typeflag ≠ 120 ∧
        (extension.typeflag = 76 → extension.name = [])) →
      (takeFilename state header).1 = sanitizeTarName (headerFilename header) := by
  intro h
  generalize hfile : globalArchive = file
  obtain ⟨state, hstate⟩ := extendedArchive_comesTo hfile.symm (by
    intro entry hentry
    obtain rfl := List.mem_singleton.mp hentry
    exact ⟨by decide +kernel, (typeflag_extensionEntry (.inr (.inr rfl))).2⟩)
  have hreached := hstate.reached
  rw [List.map_singleton, extension_extensionEntry (.inr (.inr rfl))] at hreached
  have hname := h _ _ _ _ _ _ _ _ _ _ _ _ hreached hstate.header bootMember_regular (by
    intro extension hmem
    obtain rfl := List.mem_singleton.mp hmem
    exact ⟨by decide, by simp⟩)
  have hgiven : (⟨103, paxBody [pathRecord]⟩ : Extension).name = ascii "cache.img" := by
    decide +kernel
  rw [takeFilename_reached hreached] at hname
  revert hname
  simp only [List.getLast?_singleton, hgiven]
  decide +kernel

/-- The path in the last of two path records, behind an `L` member. -/
theorem pax_path_taken_records : ∃ state next,
    Reached storedFrames {} firmwarePit true false namedTwiceArchive.bytes.length
      (FileStream.openFile namedTwiceArchive) [⟨76, ascii "recovery.img" ++ [0]⟩] state ∧
      readMember namedTwiceArchive.bytes.length firmwarePit false state = .skip next ∧
      next.names = ⟨[], ascii "cache.img"⟩ ∧
      (takeFilename next bootMember.entry.header.bytes).1 = ascii "cache.img" := by
  generalize hfile : namedTwiceArchive = file
  have hstart := extendedArchive_start hfile.symm
  rw [List.flatMap_cons, List.flatMap_singleton, List.append_assoc] at hstart
  have hlong := isExtension_namedTwice longNameEntry List.mem_cons_self
  have hpath := isExtension_namedTwice pathEntry (List.mem_cons_of_mem _ List.mem_cons_self)
  obtain ⟨state, -, hstate⟩ := hstart.extended hlong.1 hlong.2
  obtain ⟨next, hread, -⟩ := hstate.extended hpath.1 hpath.2
  have hreached := hstate.reached
  rw [List.nil_append, longNameEntry, extension_extensionEntry (.inl rfl)] at hreached
  have hflag : pathEntry.header.bytes.getD 156 0 = 120 :=
    (typeflag_extensionEntry (.inr (.inl rfl))).1
  have hplain : ∀ later ∈ pathRecords.drop 3, ¬ HidesPath later.value := by
    intro later hlater
    obtain rfl := List.mem_singleton.mp hlater
    exact fun hhides => absurd hhides.newline (by decide +kernel)
  have htaken := (pax_path_taken hreached hstate.entryAt hflag hread).1 (pathRecords.take 2)
    pathRecord (pathRecords.drop 3) rfl (by decide +kernel) (by decide +kernel) (by decide +kernel)
    (by decide +kernel) (by decide +kernel) hplain
  exact ⟨state, next, hreached, hread, htaken.1, htaken.2 _⟩

/-- The record `26 comment=a` with the line `12 path=evil` in its value. -/
def commentRecord : PaxRecord :=
  ⟨26, ascii "comment", ascii "a" ++ [10] ++ ascii "12 path=evil", by decide, by decide +kernel⟩

def commentEntry : TarEntry := extensionEntry 120 (paxBody [commentRecord]) (by decide +kernel)

def commentArchive : FileContent := extendedArchive [commentEntry] (by decide +kernel)

/-- A line in the value of a comment is taken for a path. -/
theorem comment_sets_path :
    ¬ ∀ dec usb pitTable doFlash allowUnknown contentEnd file extensions state next header records,
      Reached dec usb pitTable doFlash allowUnknown contentEnd file extensions state →
      EntryAt contentEnd state.file header (paxBody records) → header.getD 156 0 = 120 →
      readMember contentEnd pitTable allowUnknown state = .skip next →
      (∀ record ∈ records, ¬ record.IsPath) → next.names = {} := by
  intro h
  generalize hfile : commentArchive = file
  have hstart := extendedArchive_start hfile.symm
  rw [List.flatMap_singleton] at hstart
  have hflag : commentEntry.header.bytes.getD 156 0 = 120 ∧
      isExtension commentEntry.header.bytes := typeflag_extensionEntry (.inr (.inl rfl))
  obtain ⟨next, hread, hnext⟩ := hstart.extended (by decide +kernel) hflag.2
  have hnone := h _ _ _ _ _ _ _ _ _ _ _ _ hstart.reached hstart.entryAt hflag.1 hread (by
    intro record hmem
    obtain rfl := List.mem_singleton.mp hmem
    decide)
  have hpath := congrArg PendingNames.paxPath hnext.reached.names
  rw [hnone, List.nil_append, commentEntry, extension_extensionEntry (.inr (.inl rfl))] at hpath
  revert hpath
  decide +kernel

end Odin4
