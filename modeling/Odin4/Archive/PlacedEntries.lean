import Odin4.Archive.TarReading
import Odin4.Archive.Visits

/-!
# Entries in their places

The entries of an archive with their offsets and names, independently of how
they are read: the name of an entry may be given by extension entries in front
of it. Reading an entry whose header and data are there finds it in its place.
-/

namespace Odin4

/-! ## Kinds of entries -/

/-- Regular files. -/
def TarEntry.isRegular (entry : TarEntry) : Bool :=
  entry.header.typeflag == 0 || entry.header.typeflag == 48

/-- Entries whose data belong to the entries behind them. -/
def TarEntry.isExtension (entry : TarEntry) : Bool :=
  entry.header.typeflag == 76 || entry.header.typeflag == 120 || entry.header.typeflag == 103

/-! ## Names -/

/-- The names that extension entries have given to the entries behind them. -/
structure PendingNames where
  gnuLongName : Bytes := []
  paxPath : Bytes := []

namespace PendingNames

/-- The name of the next entry: a long name before a path, and a path before its header. -/
def nameOf (names : PendingNames) (entry : TarEntry) : Bytes :=
  if names.gnuLongName ≠ [] then sanitizeTarName names.gnuLongName
  else if names.paxPath ≠ [] then sanitizeTarName names.paxPath
  else sanitizeTarName (headerFilename entry.header.bytes)

/-- Behind an entry its name is no longer pending. -/
def used (names : PendingNames) : PendingNames :=
  if names.gnuLongName ≠ [] then { names with gnuLongName := [] } else { names with paxPath := [] }

/-- What is pending behind an entry. -/
def past (names : PendingNames) (entry : TarEntry) : PendingNames :=
  if entry.header.typeflag = 76 then
    { names.used with gnuLongName := sanitizeTarName (entry.data.takeWhile (· != 0)) }
  else if entry.header.typeflag = 120 ∨ entry.header.typeflag = 103 then
    { names.used with paxPath := Odin4.paxPath entry.data names.used.paxPath }
  else names.used

end PendingNames

/-! ## Places -/

/-- An entry with its name and the offset of its header. -/
structure PlacedEntry where
  offset : Nat
  name : Bytes
  entry : TarEntry

namespace PlacedEntry

variable (placed : PlacedEntry)

def dataStart : Nat := placed.offset + tarBlockSize

def dataEnd : Nat := placed.dataStart + placed.entry.data.length

end PlacedEntry

/-- The entries one behind the other. -/
def placeEntries (offset : Nat) (names : PendingNames) : List TarEntry → List PlacedEntry
  | [] => []
  | entry :: rest =>
      ⟨offset, names.nameOf entry, entry⟩ ::
        placeEntries (offset + entry.bytes.length) (names.past entry) rest

theorem le_placeEntries {offset : Nat} {names : PendingNames} {entries : List TarEntry} :
    ∀ placed ∈ placeEntries offset names entries, offset ≤ placed.offset := by
  induction entries generalizing offset names with
  | nil => exact List.forall_mem_nil _
  | cons entry rest ih =>
      refine List.forall_mem_cons.mpr ⟨Nat.le_refl _, fun placed hplaced => ?_⟩
      exact (Nat.le_add_right _ _).trans (ih placed hplaced)

/-- The regular entries have the identifiers of the partitions that their names match. -/
inductive Matches (pitTable : PitTable) : List PlacedEntry → (identifiers : List UInt32) → Prop where
  | done : Matches pitTable [] []
  | other {placed : PlacedEntry} {rest : List PlacedEntry} {identifiers : List UInt32} :
      placed.entry.isRegular = false → Matches pitTable rest identifiers →
      Matches pitTable (placed :: rest) identifiers
  | member {placed : PlacedEntry} {rest : List PlacedEntry} {identifiers : List UInt32}
      {pitEntry : PitEntry} :
      placed.entry.isRegular = true → placed.name ≠ [] →
      findPitEntry pitTable placed.name = some pitEntry → Matches pitTable rest identifiers →
      Matches pitTable (placed :: rest) (pitEntry.identifier :: identifiers)

/-! ## Reading an entry -/

def WalkState.names (state : WalkState) : PendingNames :=
  ⟨state.pendingGnuLongName, state.pendingPaxPath⟩

/-- The state behind the header of an entry. -/
def WalkState.behindHeader (state : WalkState) : WalkState where
  file := state.file.advance tarBlockSize
  usedPartitionIds := state.usedPartitionIds
  pendingGnuLongName := state.names.used.gnuLongName
  pendingPaxPath := state.names.used.paxPath

/-- A name is taken when the header is read. -/
theorem takeFilename_behind (state : WalkState) (header : Bytes) :
    takeFilename { state with file := state.file.advance tarBlockSize } header =
      ((takeFilename state header).1, state.behindHeader) := by
  unfold takeFilename WalkState.behindHeader PendingNames.used WalkState.names
  cases hlong : state.pendingGnuLongName with
  | cons c text => simp
  | nil =>
      cases hpath : state.pendingPaxPath with
      | cons c text => simp
      | nil => simp

theorem takeFilename_pending (state : WalkState) (header : Bytes) :
    (takeFilename state header).1 =
      if state.names.gnuLongName ≠ [] then sanitizeTarName state.names.gnuLongName
      else if state.names.paxPath ≠ [] then sanitizeTarName state.names.paxPath
      else sanitizeTarName (headerFilename header) := by
  unfold takeFilename WalkState.names
  cases hlong : state.pendingGnuLongName with
  | cons c text => simp
  | nil =>
      cases hpath : state.pendingPaxPath with
      | cons c text => simp
      | nil => simp

theorem takeFilename_entry (state : WalkState) (entry : TarEntry) :
    takeFilename { state with file := state.file.advance tarBlockSize } entry.header.bytes =
      (state.names.nameOf entry, state.behindHeader) := by
  rw [takeFilename_behind, takeFilename_pending]
  rfl

/-- The header of an entry and its data are there. -/
structure WalkState.Faces (state : WalkState) (entry : TarEntry) : Prop where
  good : state.file.failed = false
  header_eq : state.file.rest.take tarBlockSize = entry.header.bytes
  data_eq : (state.file.rest.drop tarBlockSize).take entry.data.length = entry.data
  room : state.file.pos + entry.bytes.length < 2 ^ 63

section Reading

variable {state : WalkState} {entry : TarEntry} {contentEnd : Nat} {pitTable : PitTable}
  {allowUnknown : Bool}

/-- A header of the format is accepted if its data lie within the content. -/
theorem readHeader_entry {stream : FileStream} (hok : stream.failed = false)
    (hheader : stream.rest.take tarBlockSize = entry.header.bytes)
    (hwithin : stream.pos + tarBlockSize ≤ contentEnd) (hsize : entry.data.length < 2 ^ 64) :
    readHeader contentEnd stream =
      if contentEnd < stream.pos + tarBlockSize + entry.data.length then
        .refused stream.pos entry.header.bytes .firmware
      else .accepted stream.pos entry.header.bytes entry.data.length := by
  have hcount : tarBlockSize ≤ stream.rest.length := by
    have hlength := congrArg List.length hheader
    rw [entry.header.length_eq, List.length_take] at hlength
    omega
  have hnumber : headerSize entry.header.bytes = some entry.data.length := by
    rw [← entry.size_eq]
    exact parseOctalU64_field entry.header.size_field (entry.size_eq ▸ hsize)
  unfold readHeader
  rw [FileStream.tellg, hok, if_neg Bool.false_ne_true]
  dsimp only
  rw [if_neg (Nat.not_lt.mpr hwithin), FileStream.read_of_le hok hcount, hheader]
  dsimp only
  rw [if_neg (not_not.mpr entry.header.length_eq), entry.header.not_allZeros,
    entry.header.checksumValid, hnumber]
  rfl

theorem TarEntry.length_bytes_eq (entry : TarEntry) :
    entry.bytes.length = tarBlockSize + roundUp512 entry.data.length := by
  rw [entry.length_bytes, ← add_tarPadding]
  rfl

theorem enterEntry_entry (state : WalkState) (entry : TarEntry) :
    enterEntry pitTable allowUnknown state entry.header.bytes entry.data.length =
      classifyEntry pitTable allowUnknown state.behindHeader entry.header.typeflag
        (state.names.nameOf entry) entry.data.length := by
  unfold enterEntry
  rw [takeFilename_entry]
  rfl

section Facing

variable (h : state.Faces entry)

include h

theorem WalkState.Faces.behindHeader_good : state.behindHeader.file.failed = false := h.good

/-- The padding leads to the next header. -/
theorem WalkState.Faces.seekPadding :
    (state.behindHeader.file.advance entry.data.length).seekCur (tarPadding entry.data.length) =
      state.file.advance entry.bytes.length := by
  have hroom := h.room
  rw [entry.length_bytes_eq, ← add_tarPadding] at hroom
  have hgood : (state.behindHeader.file.advance entry.data.length).failed = false := h.good
  rw [FileStream.seekCur_nat hgood, WalkState.behindHeader, FileStream.advance_advance,
    FileStream.advance_advance, entry.length_bytes_eq, ← add_tarPadding]
  simp only [WalkState.behindHeader, FileStream.advance_pos]
  omega

theorem WalkState.Faces.seekData :
    state.behindHeader.file.seekCur entry.data.length =
      state.behindHeader.file.advance entry.data.length := by
  have hroom := h.room
  rw [entry.length_bytes_eq, ← add_tarPadding] at hroom
  rw [FileStream.seekCur_nat h.behindHeader_good]
  simp only [WalkState.behindHeader, FileStream.advance_pos]
  omega

theorem WalkState.Faces.size_lt : entry.data.length < 2 ^ 63 := by
  have hroom := h.room
  rw [entry.length_bytes_eq, ← add_tarPadding] at hroom
  omega

theorem WalkState.Faces.readExtension (hlimit : entry.data.length ≤ extensionLimit) :
    readExtension state.behindHeader.file entry.data.length =
      some (entry.data, state.file.advance entry.bytes.length) := by
  have hrest : state.behindHeader.file.rest.take entry.data.length = entry.data := by
    rw [WalkState.behindHeader, FileStream.rest_advance]
    exact h.data_eq
  have hcount : entry.data.length ≤ state.behindHeader.file.rest.length := by
    have hlength := congrArg List.length hrest
    rw [List.length_take] at hlength
    omega
  have hlimit' : ¬ extensionLimit < entry.data.length := Nat.not_lt.mpr hlimit
  unfold Odin4.readExtension
  simp only [hlimit', ↓reduceIte, FileStream.read_of_le h.behindHeader_good hcount, hrest, ne_eq,
    not_true_eq_false, h.seekPadding, FileStream.advance_failed, h.good, Bool.false_eq_true]
  rfl

theorem WalkState.Faces.skipEntryData :
    skipEntryData state.behindHeader.file entry.data.length =
      some (state.file.advance entry.bytes.length) := by
  have hlimit : ¬ streamoffMax < entry.data.length := by
    have hsize := h.size_lt
    simp only [streamoffMax]
    omega
  unfold Odin4.skipEntryData
  simp only [hlimit, ↓reduceIte, h.seekData, h.seekPadding, FileStream.advance_failed, h.good,
    h.behindHeader_good, Bool.false_eq_true]
  rfl

/-- An entry without an image is skipped. -/
theorem WalkState.Faces.skips (hother : entry.isRegular = false)
    (hlimit : entry.isExtension = true → entry.data.length ≤ extensionLimit) :
    ∃ next, enterEntry pitTable allowUnknown state entry.header.bytes entry.data.length =
        .skip next ∧ next.file = state.file.advance entry.bytes.length ∧
      next.names = state.names.past entry ∧ next.usedPartitionIds = state.usedPartitionIds := by
  rw [enterEntry_entry, classifyEntry]
  by_cases hlong : entry.header.typeflag = 76
  · rw [if_pos hlong, h.readExtension (hlimit (by simp [TarEntry.isExtension, hlong]))]
    refine ⟨_, rfl, rfl, ?_, rfl⟩
    rw [PendingNames.past, if_pos hlong]
    rfl
  rw [if_neg hlong]
  by_cases hpax : entry.header.typeflag = 120 ∨ entry.header.typeflag = 103
  · rw [if_pos hpax, h.readExtension (hlimit (by
      rcases hpax with hpax | hpax <;> simp [TarEntry.isExtension, hpax]))]
    refine ⟨_, rfl, rfl, ?_, rfl⟩
    rw [PendingNames.past, if_neg hlong, if_pos hpax]
    rfl
  have hirregular : ¬ (entry.header.typeflag = 0 ∨ entry.header.typeflag = 48) := by
    simpa [TarEntry.isRegular] using hother
  rw [if_neg hpax, if_pos hirregular, h.skipEntryData]
  refine ⟨_, rfl, rfl, ?_, rfl⟩
  rw [PendingNames.past, if_neg hlong, if_neg hpax]
  rfl

omit h in
/-- An extension beyond the limit is refused. -/
theorem enterEntry_refused (hextension : entry.isExtension = true)
    (hlimit : extensionLimit < entry.data.length) :
    enterEntry pitTable allowUnknown state entry.header.bytes entry.data.length =
      .stop .firmware := by
  have hread : ∀ file, readExtension file entry.data.length = none := by
    intro file
    simp [readExtension, hlimit]
  rw [enterEntry_entry, classifyEntry]
  by_cases hlong : entry.header.typeflag = 76
  · rw [if_pos hlong, hread]
  · have hpax : entry.header.typeflag = 120 ∨ entry.header.typeflag = 103 := by
      simpa [TarEntry.isExtension, hlong] using hextension
    rw [if_neg hlong, if_pos hpax, hread]

omit h in
/-- A regular entry of a partition that is still free leads to its data. -/
theorem enterEntry_regular (hregular : entry.isRegular = true)
    (hname : state.names.nameOf entry ≠ []) {pitEntry : PitEntry}
    (hfound : findPitEntry pitTable (state.names.nameOf entry) = some pitEntry)
    (hunused : pitEntry.identifier ∉ state.usedPartitionIds) :
    enterEntry pitTable allowUnknown state entry.header.bytes entry.data.length =
      .matched
        { filename := state.names.nameOf entry, dataSize := entry.data.length, pitEntry
          isLarge := isLargePartition (pitFieldToString pitEntry.partitionName)
          isLz4 := isLz4Name (state.names.nameOf entry) }
        { state.behindHeader with
          usedPartitionIds := pitEntry.identifier :: state.usedPartitionIds } := by
  have hflag : entry.header.typeflag = 0 ∨ entry.header.typeflag = 48 := by
    simpa [TarEntry.isRegular] using hregular
  have hothers : entry.header.typeflag ≠ 76 ∧ entry.header.typeflag ≠ 120 ∧
      entry.header.typeflag ≠ 103 := by
    rcases hflag with hflag | hflag <;> rw [hflag] <;> decide
  rw [enterEntry_entry, classifyEntry, if_neg hothers.1, if_neg (not_or.mpr hothers.2),
    if_neg (not_not.mpr hflag), regularEntry, if_neg (by simpa using hname), hfound]
  dsimp only
  rw [if_neg (by simpa [WalkState.behindHeader] using hunused)]
  rfl

end Facing

end Reading

/-! ## Turns of the walk -/

section Turns

variable {state : WalkState} {entry : TarEntry} {tail : Bytes} {contentEnd : Nat}
  {pitTable : PitTable} {allowUnknown : Bool}

theorem WalkState.Faces.enters (h : state.Faces entry)
    (hwithin : state.file.pos + tarBlockSize + entry.data.length ≤ contentEnd) :
    readMember contentEnd pitTable allowUnknown state =
      enterEntry pitTable allowUnknown state entry.header.bytes entry.data.length := by
  have hsize := h.size_lt
  rw [readMember_eq, readHeader_entry h.good h.header_eq (by omega) (by omega),
    if_neg (Nat.not_lt.mpr hwithin)]

/-- A complete block of zeros is the end. -/
theorem readMember_zeros {contentEnd : Nat} (hok : state.file.failed = false)
    (hwithin : state.file.pos + tarBlockSize ≤ contentEnd)
    (hheader : state.file.rest.take tarBlockSize = List.replicate tarBlockSize 0) :
    readMember contentEnd pitTable allowUnknown state = .stop .success := by
  have hcount : tarBlockSize ≤ state.file.rest.length := by
    have hlength := congrArg List.length hheader
    rw [List.length_take, List.length_replicate] at hlength
    omega
  have hzeros : isAllZerosBlock (List.replicate tarBlockSize 0) = true := by
    rw [isAllZerosBlock, List.all_eq_true]
    intro c hmem
    rw [List.eq_of_mem_replicate hmem]
    rfl
  unfold readMember
  rw [FileStream.tellg, hok, if_neg Bool.false_ne_true]
  dsimp only
  rw [if_neg (Nat.not_lt.mpr hwithin), FileStream.read_of_le hok hcount, hheader]
  dsimp only
  rw [if_neg (not_not.mpr List.length_replicate), if_pos hzeros]

/-- A walk between two members: the file is good and no name is pending. -/
structure WalkState.Between (state : WalkState) (rest : Bytes) : Prop where
  good : state.file.failed = false
  rest_eq : state.file.rest = rest
  no_longName : state.pendingGnuLongName = []
  no_paxPath : state.pendingPaxPath = []

theorem WalkState.Between.names_eq {rest : Bytes} (h : state.Between rest) : state.names = {} := by
  rw [WalkState.names, h.no_longName, h.no_paxPath]

theorem WalkState.within_of_rest (hrest : state.file.rest = entry.bytes ++ tail) :
    state.file.pos + entry.bytes.length ≤ state.file.file.bytes.length := by
  have hlength := congrArg List.length hrest
  rw [FileStream.length_rest, List.length_append] at hlength
  have hpos : 0 < entry.bytes.length := by
    rw [entry.length_bytes]
    exact Nat.add_pos_left (by decide) _
  omega

/-- An entry that the rest of the file starts with is there. -/
theorem WalkState.faces_of_rest (hok : state.file.failed = false)
    (hrest : state.file.rest = entry.bytes ++ tail) : state.Faces entry where
  good := hok
  header_eq := by
    rw [hrest, TarEntry.bytes, List.append_assoc, List.take_left' entry.header.length_eq]
  data_eq := by
    rw [hrest, TarEntry.bytes, List.append_assoc, List.drop_left' entry.header.length_eq, blocks,
      List.append_assoc, List.take_left]
  room := Nat.lt_of_le_of_lt (WalkState.within_of_rest hrest) state.file.file.size_lt

theorem WalkState.behindHeader_rest (hrest : state.file.rest = entry.bytes ++ tail) :
    state.behindHeader.file.rest = blocks entry.data ++ tail := by
  rw [WalkState.behindHeader, FileStream.rest_advance, hrest, TarEntry.bytes, List.append_assoc,
    List.drop_left' entry.header.length_eq]

/-- The next turn is at that entry. -/
theorem readMember_entry (hok : state.file.failed = false)
    (hrest : state.file.rest = entry.bytes ++ tail) :
    readMember state.file.file.bytes.length pitTable allowUnknown state =
      enterEntry pitTable allowUnknown state entry.header.bytes entry.data.length := by
  have hwithin := WalkState.within_of_rest hrest
  rw [entry.length_bytes] at hwithin
  exact (WalkState.faces_of_rest hok hrest).enters (by omega)

variable {name : Bytes}

/-- Behind a long-name entry its text is the name. -/
theorem PendingNames.past_longName {nuls : Nat} (hkind : entry.header.typeflag = 76)
    (husable : UsableName name) (hdata : entry.data = name ++ List.replicate nuls 0) :
    PendingNames.past {} entry = ⟨name, []⟩ := by
  rw [PendingNames.past, if_pos hkind, hdata, takeWhile_text husable.no_nul, husable.sanitize]
  rfl

/-- A long-name entry leaves the name pending. -/
theorem readMember_longName (hlong : entry.LongName name) (husable : UsableName name)
    (hstate : state.Between (entry.bytes ++ tail)) :
    readMember state.file.file.bytes.length pitTable allowUnknown state =
      .skip { state with
        file := state.file.advance entry.bytes.length, pendingGnuLongName := name } := by
  obtain ⟨nuls, hdata⟩ := hlong.body_eq
  have hother : entry.isRegular = false := by simp [TarEntry.isRegular, hlong.typeflag_eq]
  have hpast : state.names.past entry = ⟨name, []⟩ := by
    rw [hstate.names_eq]
    exact PendingNames.past_longName hlong.typeflag_eq husable hdata
  have hfaces := WalkState.faces_of_rest hstate.good hstate.rest_eq
  obtain ⟨next, hstep, hfile, hnames, hused⟩ : ∃ next,
      readMember state.file.file.bytes.length pitTable allowUnknown state = .skip next ∧ _ := by
    rw [readMember_entry hstate.good hstate.rest_eq]
    exact hfaces.skips hother fun _ => hlong.body_le
  rw [hstep]
  rw [hpast] at hnames
  obtain ⟨file, used, longName, paxPath⟩ := next
  obtain ⟨rfl, rfl⟩ := PendingNames.mk.inj hnames
  obtain rfl : file = _ := hfile
  obtain rfl : used = _ := hused
  rw [hstate.no_paxPath]

/-- A regular entry of a known name claims its partition. -/
theorem readMember_regular {pitEntry : PitEntry}
    (hregular : entry.header.typeflag = 0 ∨ entry.header.typeflag = 48)
    (husable : UsableName name) (hok : state.file.failed = false)
    (hrest : state.file.rest = entry.bytes ++ tail) (hname : state.names.nameOf entry = name)
    (hfound : findPitEntry pitTable name = some pitEntry)
    (hunused : pitEntry.identifier ∉ state.usedPartitionIds) :
    readMember state.file.file.bytes.length pitTable allowUnknown state =
      .matched
        { filename := name, dataSize := entry.data.length, pitEntry
          isLarge := isLargePartition (pitFieldToString pitEntry.partitionName)
          isLz4 := isLz4Name name }
        { state.behindHeader with
          usedPartitionIds := pitEntry.identifier :: state.usedPartitionIds } := by
  subst hname
  have hflag : entry.isRegular = true := by simpa [TarEntry.isRegular] using hregular
  rw [readMember_entry hok hrest]
  exact enterEntry_regular hflag husable.nonempty hfound hunused

end Turns

end Odin4
