import Odin4.Archive.Footprint
import Odin4.Archive.RoundTrip

/-!
# Archives as lists of files

A file of an archive is an entry with the extension entry in front of it that
may name it. What a run does with an archive of files depends on their names
and data only, not on the offsets at which they stand: it is the walk over the
list of the files, each of which is dealt with in a file of its own.
-/

namespace Odin4

open Interaction Program

/-! ## Files -/

namespace TarEntry

variable (entry : TarEntry)

/-- An extension entry beyond the limit. -/
def tooLarge : Bool := entry.isExtension && decide (extensionLimit < entry.data.length)

/-- A regular entry is no extension. -/
theorem tooLarge_regular (h : entry.isRegular = true) : entry.tooLarge = false := by
  have hkind : entry.header.typeflag = 0 ∨ entry.header.typeflag = 48 := by
    simpa [isRegular] using h
  rcases hkind with hkind | hkind <;> simp [tooLarge, isExtension, hkind]

theorem size_lt : entry.data.length < 8 ^ 12 := entry.size_eq ▸ entry.header.size_lt

/-- The data of an entry as a file of their own. -/
def image : FileContent := ⟨entry.data, Nat.lt_trans entry.size_lt (by decide)⟩

end TarEntry

/-- An entry of any kind behind at most one extension entry, which is a GNU long
name or a PAX header. As an entry by itself, a global PAX header gives no path. -/
structure NamedFile where
  extension : Option TarEntry
  entry : TarEntry
  extension_kind : ∀ ext ∈ extension, ext.header.typeflag = 76 ∨ ext.header.typeflag = 120
  entry_kind : entry.header.typeflag ≠ 76 ∧ entry.header.typeflag ≠ 120
  no_global_path : entry.header.typeflag = 103 → paxPath entry.data [] = []

namespace NamedFile

variable (file : NamedFile)

/-- What stands in front of the entry. -/
def front : Bytes := file.extension.elim [] TarEntry.bytes

def bytes : Bytes := file.front ++ file.entry.bytes

/-- What the extension entry gives. -/
def pending : PendingNames := file.extension.elim {} (PendingNames.past {})

/-- The name of the file, trimmed as the reader does. -/
def name : Bytes := file.pending.nameOf file.entry

/-- Behind the entry nothing is pending. -/
theorem pending_used : file.pending.used = {} := by
  unfold pending
  cases hext : file.extension with
  | none => rfl
  | some ext =>
      rcases file.extension_kind ext hext with hkind | hkind <;>
        simp [PendingNames.past, PendingNames.used, hkind]

theorem plain (hext : file.extension = none) : file.front = [] ∧ file.pending = {} := by
  unfold front pending
  rw [hext]
  exact ⟨rfl, rfl⟩

theorem extended {ext : TarEntry} (hext : file.extension = some ext) :
    file.front = ext.bytes ∧ file.pending = PendingNames.past {} ext := by
  unfold front pending
  rw [hext]
  exact ⟨rfl, rfl⟩

end NamedFile

/-- The files one after the other, and two blocks of zeros. -/
def namedArchive (files : List NamedFile) : Bytes :=
  files.flatMap NamedFile.bytes ++ List.replicate (2 * tarBlockSize) 0

theorem namedArchive_cons (file : NamedFile) (files : List NamedFile) :
    namedArchive (file :: files) = file.front ++ (file.entry.bytes ++ namedArchive files) := by
  simp only [namedArchive, List.flatMap_cons, NamedFile.bytes, List.append_assoc]

/-! ## Members as files -/

namespace TarMember

/-- A member is a file whose extension is a long name. -/
def file (member : TarMember) : NamedFile where
  extension := member.longName
  entry := member.entry
  extension_kind := by
    intro long hlong
    have hnamed := member.named
    rw [Option.mem_def.mp hlong] at hnamed
    exact .inl hnamed.typeflag_eq
  entry_kind := by rcases member.regular with hkind | hkind <;> simp [hkind]
  no_global_path := by rcases member.regular with hkind | hkind <;> simp [hkind]

theorem file_bytes (member : TarMember) : member.file.bytes = member.bytes := by
  have hbytes : member.file.bytes =
      member.longName.elim [] TarEntry.bytes ++ member.entry.bytes := rfl
  rw [hbytes, TarMember.bytes]
  cases member.longName <;> rfl

theorem file_name (member : TarMember) : member.file.name = member.name := by
  have hnamed := member.named
  have hname : member.file.name =
      (member.longName.elim {} (PendingNames.past {})).nameOf member.entry := rfl
  rw [hname]
  cases hlong : member.longName with
  | none =>
      rw [hlong] at hnamed
      simp [PendingNames.nameOf, TarHeader.Names.headerFilename hnamed member.usable,
        member.usable.sanitize]
  | some long =>
      rw [hlong] at hnamed
      obtain ⟨nuls, hdata⟩ := hnamed.body_eq
      rw [Option.elim_some, PendingNames.past_longName hnamed.typeflag_eq member.usable hdata,
        PendingNames.nameOf, if_pos member.usable.nonempty, member.usable.sanitize]

end TarMember

theorem namedArchive_members (members : List TarMember) :
    namedArchive (members.map (·.file)) = tarArchive members := by
  rw [namedArchive, tarArchive, List.flatMap_map]
  simp only [TarMember.file_bytes]

/-! ## The walk over the files -/

/-- What is done with an entry. -/
inductive EntryAction where
  | stop (code : ExitCode)
  | pass
  | transfer (member : Member)

/-- An entry of this name behind files whose partitions are `used`. -/
def TarEntry.action (pitTable : PitTable) (allowUnknown : Bool) (used : List UInt32) (name : Bytes)
    (entry : TarEntry) : EntryAction :=
  if entry.tooLarge then .stop .firmware
  else if !entry.isRegular then .pass
  else if name.isEmpty then .stop .firmware
  else
    match findPitEntry pitTable name with
    | none => if allowUnknown then .pass else .stop .pit
    | some pitEntry =>
        if used.contains pitEntry.identifier then .stop .pit
        else .transfer
          { filename := name, dataSize := entry.data.length, pitEntry
            isLarge := isLargePartition (pitFieldToString pitEntry.partitionName)
            isLz4 := isLz4Name name }

def NamedFile.action (pitTable : PitTable) (allowUnknown : Bool) (used : List UInt32)
    (file : NamedFile) : EntryAction :=
  if file.extension.any TarEntry.tooLarge then .stop .firmware
  else file.entry.action pitTable allowUnknown used file.name

/-- In front of the data of a member, which have a file of their own. -/
def TarEntry.opened (entry : TarEntry) (member : Member) (used : List UInt32) : WalkState where
  file := FileStream.openFile entry.image
  usedPartitionIds := member.pitEntry.identifier :: used

/-- One file after the other, up to the first that cannot be dealt with. -/
def walkFiles (dec : Lz4Decoder) (usb : UsbDevice) (pitTable : PitTable)
    (doFlash allowUnknown : Bool) : (used : List UInt32) → List NamedFile → Usb ExitCode
  | _, [] => return .success
  | used, file :: rest =>
      match file.action pitTable allowUnknown used with
      | .stop code => return code
      | .pass => walkFiles dec usb pitTable doFlash allowUnknown used rest
      | .transfer member => do
          match ← processMember dec usb doFlash member (file.entry.opened member used) with
          | .error code => return code
          | .ok _ =>
              walkFiles dec usb pitTable doFlash allowUnknown
                (member.pitEntry.identifier :: used) rest

/-! ## Turns -/

/-- The turn in front of an entry behind which no name is pending. -/
def EntryAction.step (action : EntryAction) (state : WalkState) (entry : TarEntry) : MemberStep :=
  match action with
  | .stop code => .stop code
  | .pass => .skip
      { file := state.file.advance entry.bytes.length, usedPartitionIds := state.usedPartitionIds }
  | .transfer member => .matched member
      { file := state.file.advance tarBlockSize
        usedPartitionIds := member.pitEntry.identifier :: state.usedPartitionIds }

section Turns

variable {pitTable : PitTable} {allowUnknown : Bool} {state : WalkState} {tail : Bytes}

section Entries

variable {entry : TarEntry}

theorem WalkState.behindHeader_used (hused : state.names.used = {}) :
    state.behindHeader =
      { file := state.file.advance tarBlockSize, usedPartitionIds := state.usedPartitionIds } := by
  rw [WalkState.behindHeader, hused]

theorem skipTo_entry (hfaces : state.Faces entry) (hused : state.names.used = {}) :
    skipTo state.behindHeader (skipEntryData state.behindHeader.file entry.data.length) =
      EntryAction.pass.step state entry := by
  rw [hfaces.skipEntryData, WalkState.behindHeader_used hused]
  rfl

/-- A global PAX header without a path is passed. -/
theorem classifyEntry_global (hfaces : state.Faces entry) (hused : state.names.used = {})
    (hkind : entry.header.typeflag = 103) (hglobal : paxPath entry.data [] = []) (name : Bytes) :
    classifyEntry pitTable allowUnknown state.behindHeader entry.header.typeflag name
        entry.data.length =
      (entry.action pitTable allowUnknown state.usedPartitionIds name).step state entry := by
  have hextension : entry.isExtension = true := by simp [TarEntry.isExtension, hkind]
  have hother : entry.isRegular = false := by simp [TarEntry.isRegular, hkind]
  have hnotLong : ¬ entry.header.typeflag = 76 := by simp [hkind]
  rw [classifyEntry, if_neg hnotLong, if_pos (.inr hkind), TarEntry.action]
  by_cases hlimit : extensionLimit < entry.data.length
  · have hlarge : entry.tooLarge = true := by simp [TarEntry.tooLarge, hextension, hlimit]
    have hnone : readExtension state.behindHeader.file entry.data.length = none := by
      simp [readExtension, hlimit]
    rw [hnone, if_pos hlarge]
    rfl
  · have hsmall : entry.tooLarge = false := by simp [TarEntry.tooLarge, hlimit]
    rw [hfaces.readExtension (Nat.not_lt.mp hlimit), hsmall, hother,
      WalkState.behindHeader_used hused]
    dsimp only
    rw [hglobal]
    rfl

theorem regularEntry_action (hfaces : state.Faces entry) (hused : state.names.used = {})
    (hregular : entry.isRegular = true) (name : Bytes) :
    regularEntry pitTable allowUnknown state.behindHeader name entry.data.length =
      (entry.action pitTable allowUnknown state.usedPartitionIds name).step state entry := by
  unfold regularEntry TarEntry.action
  rw [entry.tooLarge_regular hregular, hregular]
  simp only [Bool.not_true, Bool.false_eq_true, ↓reduceIte]
  split
  next => rfl
  cases findPitEntry pitTable name with
  | none =>
      cases allowUnknown with
      | false => rfl
      | true => exact skipTo_entry hfaces hused
  | some pitEntry =>
      rw [WalkState.behindHeader_used hused]
      dsimp only
      split <;> rfl

end Entries

/-- A turn at an entry whose name is known, and behind which no name is pending. -/
theorem readMember_action (entry : TarEntry)
    (hkind : entry.header.typeflag ≠ 76 ∧ entry.header.typeflag ≠ 120)
    (hglobal : entry.header.typeflag = 103 → paxPath entry.data [] = [])
    (hok : state.file.failed = false) (hrest : state.file.rest = entry.bytes ++ tail)
    (hused : state.names.used = {}) :
    readMember state.file.file.bytes.length pitTable allowUnknown state =
      (entry.action pitTable allowUnknown state.usedPartitionIds
        (state.names.nameOf entry)).step state entry := by
  have hfaces := WalkState.faces_of_rest hok hrest
  rw [readMember_entry hok hrest, enterEntry_entry]
  by_cases hpax : entry.header.typeflag = 103
  · exact classifyEntry_global hfaces hused hpax (hglobal hpax) _
  have hextension : entry.isExtension = false := by
    simp [TarEntry.isExtension, hkind.1, hkind.2, hpax]
  rw [classifyEntry, if_neg hkind.1, if_neg (not_or.mpr ⟨hkind.2, hpax⟩)]
  cases hregular : entry.isRegular with
  | true =>
      have hflag : entry.header.typeflag = 0 ∨ entry.header.typeflag = 48 := by
        simpa [TarEntry.isRegular] using hregular
      rw [if_neg (not_not.mpr hflag)]
      exact regularEntry_action hfaces hused hregular _
  | false =>
      have hflag : ¬ (entry.header.typeflag = 0 ∨ entry.header.typeflag = 48) := by
        simpa [TarEntry.isRegular] using hregular
      have hsmall : entry.tooLarge = false := by simp [TarEntry.tooLarge, hextension]
      have haction : entry.action pitTable allowUnknown state.usedPartitionIds
          (state.names.nameOf entry) = .pass := by
        simp [TarEntry.action, hsmall, hregular]
      rw [if_pos hflag, haction]
      exact skipTo_entry hfaces hused

/-- The kinds of extension entries that belong to one file. -/
theorem TarEntry.extension_kind {ext : TarEntry}
    (hkind : ext.header.typeflag = 76 ∨ ext.header.typeflag = 120) :
    ext.isExtension = true ∧ ext.isRegular = false := by
  rcases hkind with hkind | hkind <;> simp [isExtension, isRegular, hkind]

/-- Behind an extension entry the walk stands in front of the entry that it names. -/
theorem readMember_extension {ext : TarEntry}
    (hkind : ext.header.typeflag = 76 ∨ ext.header.typeflag = 120)
    (hsmall : ext.tooLarge = false) (hstate : state.Between (ext.bytes ++ tail)) :
    ∃ next, readMember state.file.file.bytes.length pitTable allowUnknown state = .skip next ∧
      next.file = state.file.advance ext.bytes.length ∧ next.file.rest = tail ∧
      next.names = PendingNames.past {} ext ∧ next.usedPartitionIds = state.usedPartitionIds := by
  have hlimit : ext.isExtension = true → ext.data.length ≤ extensionLimit := by
    intro hextension
    simpa [TarEntry.tooLarge, hextension] using hsmall
  have hnames := hstate.names_eq
  obtain ⟨next, hskip, hfile, hnext, hids⟩ : ∃ next,
      readMember state.file.file.bytes.length pitTable allowUnknown state = .skip next ∧ _ := by
    rw [readMember_entry hstate.good hstate.rest_eq]
    exact (WalkState.faces_of_rest hstate.good hstate.rest_eq).skips
      (TarEntry.extension_kind hkind).2 hlimit
  refine ⟨next, hskip, hfile, ?_, hnames ▸ hnext, hids⟩
  rw [hfile, FileStream.rest_advance, hstate.rest_eq, List.drop_left]

/-! ## Files in their places -/

variable (dec : Lz4Decoder) (usb : UsbDevice) (doFlash : Bool)

theorem memberLoop_entry (entry : TarEntry)
    (hkind : entry.header.typeflag ≠ 76 ∧ entry.header.typeflag ≠ 120)
    (hglobal : entry.header.typeflag = 103 → paxPath entry.data [] = [])
    (hok : state.file.failed = false) (hrest : state.file.rest = entry.bytes ++ tail)
    (hused : state.names.used = {}) (fuel : Nat) :
    memberLoop dec usb pitTable doFlash allowUnknown state.file.file.bytes.length (fuel + 1) state =
      match entry.action pitTable allowUnknown state.usedPartitionIds (state.names.nameOf entry) with
      | .stop code => pure code
      | .pass =>
          memberLoop dec usb pitTable doFlash allowUnknown state.file.file.bytes.length fuel
            { file := state.file.advance entry.bytes.length
              usedPartitionIds := state.usedPartitionIds }
      | .transfer member =>
          finishMember dec usb pitTable doFlash allowUnknown state.file.file.bytes.length fuel member
            { file := state.file.advance tarBlockSize
              usedPartitionIds := member.pitEntry.identifier :: state.usedPartitionIds } := by
  rw [memberLoop, readMember_action entry hkind hglobal hok hrest hused]
  cases entry.action pitTable allowUnknown state.usedPartitionIds (state.names.nameOf entry) <;> rfl

/-- An extension entry beyond the limit ends the run. -/
theorem memberLoop_unreadable {ext : TarEntry} (hlarge : ext.tooLarge = true)
    (hstate : state.Between (ext.bytes ++ tail)) (fuel : Nat) :
    memberLoop dec usb pitTable doFlash allowUnknown state.file.file.bytes.length (fuel + 1) state =
      pure .firmware := by
  simp only [TarEntry.tooLarge, Bool.and_eq_true, decide_eq_true_eq] at hlarge
  rw [memberLoop, readMember_entry hstate.good hstate.rest_eq,
    enterEntry_refused hlarge.1 hlarge.2]

/-- The loop deals with a file in one turn or in two. -/
theorem memberLoop_file {file : NamedFile} {fuel : Nat}
    (hstate : state.Between (file.front ++ (file.entry.bytes ++ tail)))
    (hturns : (file.front ++ (file.entry.bytes ++ tail)).length < tarBlockSize * fuel) :
    ∃ fuel', tail.length < tarBlockSize * fuel' ∧
      memberLoop dec usb pitTable doFlash allowUnknown state.file.file.bytes.length fuel state =
        match file.action pitTable allowUnknown state.usedPartitionIds with
        | .stop code => pure code
        | .pass =>
            memberLoop dec usb pitTable doFlash allowUnknown state.file.file.bytes.length fuel'
              { file := state.file.advance file.bytes.length
                usedPartitionIds := state.usedPartitionIds }
        | .transfer member =>
            finishMember dec usb pitTable doFlash allowUnknown state.file.file.bytes.length fuel'
              member
              { file := state.file.advance (file.front.length + tarBlockSize)
                usedPartitionIds := member.pitEntry.identifier :: state.usedPartitionIds } := by
  have hnames := hstate.names_eq
  have hused := file.pending_used
  obtain ⟨fuel, rfl⟩ := exists_turn hturns
  unfold NamedFile.action NamedFile.bytes NamedFile.name
  cases hext : file.extension with
  | none =>
      obtain ⟨hfront, hpending⟩ := file.plain hext
      rw [hfront, List.nil_append] at hstate hturns
      refine ⟨fuel, turns_behind file.entry.block_le hturns, ?_⟩
      rw [memberLoop_entry dec usb doFlash file.entry file.entry_kind file.no_global_path
        hstate.good hstate.rest_eq (by rw [hnames]; rfl), hnames, hpending, hfront]
      simp only [Option.any_none, Bool.false_eq_true, ↓reduceIte, List.nil_append, List.length_nil,
        Nat.zero_add]
  | some ext =>
      obtain ⟨hfront, hpending⟩ := file.extended hext
      rw [hfront] at hstate hturns ⊢
      rw [Option.any_some]
      have hentry := turns_behind ext.block_le hturns
      -- The extension takes a turn of its own.
      obtain ⟨fuel, rfl⟩ := exists_turn hentry
      have hbehind := turns_behind file.entry.block_le hentry
      cases hlarge : ext.tooLarge with
      | true =>
          exact ⟨fuel, hbehind, memberLoop_unreadable dec usb doFlash hlarge hstate _⟩
      | false =>
          obtain ⟨next, hturn, hfile, hrest, hnext, hids⟩ :=
            readMember_extension (file.extension_kind ext hext) hlarge hstate
          have hgood : next.file.failed = false := by rw [hfile]; exact hstate.good
          have hsame : next.file.file = state.file.file := by rw [hfile]; rfl
          rw [← hpending] at hnext
          refine ⟨fuel, hbehind, ?_⟩
          rw [memberLoop_skip dec hturn, ← hsame, memberLoop_entry dec usb doFlash file.entry
            file.entry_kind file.no_global_path hgood hrest (by rw [hnext, hused]), hnext, hids,
            hfile, if_neg Bool.false_ne_true]
          simp only [FileStream.advance_advance, List.length_append]

end Turns

/-! ## Members in their places -/

section Members

variable {entry : TarEntry} {start : FileStream} {tail : Bytes} {member : Member}

/-- In the archive the data stand further on than in a file of their own. -/
theorem TarEntry.agreeAlong_image (hrest : start.rest = blocks entry.data ++ tail) :
    AgreeAlong start.pos ((FileStream.openFile entry.image).ahead entry.data.length) entry.image
      start.file := by
  intro i hi
  have hi : i < entry.data.length := by
    have hupper := hi.2
    simpa [FileStream.openFile] using hupper
  have hplace : start.file.bytes[i + start.pos]? = start.rest[i]? := by
    rw [FileStream.rest, List.getElem?_drop, Nat.add_comm]
  dsimp only
  rw [hplace, hrest, blocks, List.append_assoc, List.getElem?_append_left hi]
  rfl

theorem TarEntry.opened_over (hok : start.failed = false) (used : List UInt32) :
    ((entry.opened member used).advance start.pos).on start.file =
      { file := start, usedPartitionIds := member.pitEntry.identifier :: used } := by
  obtain ⟨file, pos, failed⟩ := start
  obtain rfl : failed = false := hok
  simp [WalkState.on, WalkState.advance, TarEntry.opened, FileStream.openFile, FileStream.on,
    FileStream.advance]

theorem roundUp512_length (data : Bytes) : roundUp512 data.length = (blocks data).length := by
  rw [length_blocks, ← add_tarPadding]
  rfl

variable (dec : Lz4Decoder) {usb : UsbDevice} (doFlash : Bool) (used : List UInt32)

/-- A member of an archive is dealt with as in a file of its own. -/
theorem processMember_placed (hbegun : usb.Begun) (hsize : member.dataSize = entry.data.length)
    (hok : start.failed = false) (hrest : start.rest = blocks entry.data ++ tail)
    (htail : tail ≠ []) :
    processMember dec usb doFlash member
        { file := start, usedPartitionIds := member.pitEntry.identifier :: used } =
      Except.map (fun next => (next.advance start.pos).on start.file) <$>
        processMember dec usb doFlash member (entry.opened member used) := by
  have hlt : member.dataSize < 2 ^ 63 := by
    have hentry := entry.size_lt
    omega
  have hroom : (blocks entry.data).length + start.pos < 2 ^ 63 := by
    have hlength := congrArg List.length hrest
    have hpos := List.length_pos_iff.mpr htail
    have hfile := start.file.size_lt
    rw [FileStream.length_rest, List.length_append] at hlength
    omega
  have hblocks := length_blocks entry.data
  rw [← TarEntry.opened_over hok]
  apply processMember_over usb doFlash start.pos _ hlt
  · refine .inr (?_ : 0 + member.dataSize + start.pos < 2 ^ 63)
    omega
  · intro trace result hexec behind hbehind
    have hadvance : Returns _ (transferMember dec usb doFlash member
      (entry.opened member used).file) := transferMember_advance hbegun rfl hlt doFlash
    obtain ⟨-, rfl⟩ := hadvance trace result hexec behind hbehind
    refine .inr (?_ : 0 + member.dataSize + tarPadding member.dataSize + start.pos < 2 ^ 63)
    rw [Nat.zero_add, add_tarPadding, hsize, roundUp512_length]
    exact hroom
  · rw [hsize]
    exact TarEntry.agreeAlong_image hrest

/-- Behind a member the walk is in front of what follows. -/
theorem processMember_behind (hbegun : usb.Begun) (hsize : member.dataSize = entry.data.length)
    (hok : start.failed = false) :
    Returns (fun result => ∀ next, result = .ok next →
        (next.advance start.pos).on start.file =
          { file := start.advance (blocks entry.data).length
            usedPartitionIds := member.pitEntry.identifier :: used })
      (processMember dec usb doFlash member (entry.opened member used)) := by
  have hlt : member.dataSize < 2 ^ 63 := by
    have hentry := entry.size_lt
    omega
  have hadvance : Returns _ (processMember dec usb doFlash member (entry.opened member used)) :=
    processMember_advance hbegun rfl hlt doFlash
  intro trace result hexec next hnext
  obtain ⟨-, rfl⟩ := hadvance trace result hexec next hnext
  obtain ⟨file, pos, failed⟩ := start
  obtain rfl : failed = false := hok
  rw [hsize, roundUp512_length]
  simp [WalkState.on, WalkState.advance, TarEntry.opened, FileStream.openFile, FileStream.on,
    FileStream.advance, Nat.add_comm pos]

/-- Behind a member that is dealt with in a file of its own, the loop goes on. -/
theorem finishMember_placed {pitTable : PitTable} {allowUnknown : Bool} {contentEnd fuel : Nat}
    (hbegun : usb.Begun) (hsize : member.dataSize = entry.data.length)
    (hok : start.failed = false) (hrest : start.rest = blocks entry.data ++ tail)
    (htail : tail ≠ []) :
    finishMember dec usb pitTable doFlash allowUnknown contentEnd fuel member
        { file := start, usedPartitionIds := member.pitEntry.identifier :: used } = (do
      match ← processMember dec usb doFlash member (entry.opened member used) with
      | .error code => return code
      | .ok _ =>
          memberLoop dec usb pitTable doFlash allowUnknown contentEnd fuel
            { file := start.advance (blocks entry.data).length
              usedPartitionIds := member.pitEntry.identifier :: used }) := by
  rw [finishMember, processMember_placed dec doFlash used hbegun hsize hok hrest htail,
    bind_map_left]
  apply bind_congr_of_returns (processMember_behind dec doFlash used hbegun hsize hok)
  intro result hbehind
  cases result with
  | error code => rfl
  | ok next =>
      dsimp only [Except.map]
      rw [hbehind next rfl]

end Members

/-! ## The walk over an archive -/

section Walks

variable {pitTable : PitTable} {usb : UsbDevice} (dec : Lz4Decoder) (doFlash allowUnknown : Bool)

variable {allowUnknown} in
/-- A file is transferred from an entry of its size. -/
theorem NamedFile.dataSize_eq {file : NamedFile} {used : List UInt32} {member : Member}
    (h : file.action pitTable allowUnknown used = .transfer member) :
    member.dataSize = file.entry.data.length := by
  unfold NamedFile.action TarEntry.action at h
  split at h
  next => cases h
  split at h
  next => cases h
  split at h
  next => cases h
  split at h
  next => cases h
  split at h
  next => split at h <;> cases h
  next =>
    split at h
    next => cases h
    next =>
      obtain rfl := EntryAction.transfer.inj h
      rfl

theorem namedArchive_ne_nil (files : List NamedFile) : namedArchive files ≠ [] := by
  rw [← List.length_pos_iff, namedArchive, List.length_append, List.length_replicate]
  exact Nat.add_pos_right _ (by decide)

/-- The loop over an archive is the walk over its files. -/
theorem memberLoop_files (hbegun : usb.Begun) {files : List NamedFile} {state : WalkState}
    {fuel : Nat} (hstate : state.Between (namedArchive files))
    (hturns : (namedArchive files).length < tarBlockSize * fuel) :
    memberLoop dec usb pitTable doFlash allowUnknown state.file.file.bytes.length fuel state =
      walkFiles dec usb pitTable doFlash allowUnknown state.usedPartitionIds files := by
  induction files generalizing state fuel with
  | nil =>
      exact memberLoop_zeros dec hstate.good hstate.rest_eq (hstate.rest_eq ▸ hturns)
  | cons file files ih =>
      rw [namedArchive_cons] at hstate hturns
      obtain ⟨fuel', hturns', hloop⟩ := memberLoop_file dec usb doFlash hstate hturns
      rw [hloop, walkFiles]
      cases haction : file.action pitTable allowUnknown state.usedPartitionIds with
      | stop code => rfl
      | pass =>
          have hnext : WalkState.Between
              { file := state.file.advance file.bytes.length
                usedPartitionIds := state.usedPartitionIds } (namedArchive files) := by
            refine ⟨hstate.good, ?_, rfl, rfl⟩
            rw [FileStream.rest_advance, hstate.rest_eq, ← List.append_assoc, NamedFile.bytes,
              List.drop_left]
          exact ih hnext hturns'
      | transfer member =>
          have hsize := NamedFile.dataSize_eq haction
          have hgood : (state.file.advance (file.front.length + tarBlockSize)).failed = false :=
            hstate.good
          have hdata : (state.file.advance (file.front.length + tarBlockSize)).rest =
              blocks file.entry.data ++ namedArchive files := by
            rw [FileStream.rest_advance, hstate.rest_eq, ← List.drop_drop, List.drop_left,
              TarEntry.bytes, List.append_assoc, List.drop_left' file.entry.header.length_eq]
          have hnext : WalkState.Between
              { file := (state.file.advance (file.front.length + tarBlockSize)).advance
                  (blocks file.entry.data).length
                usedPartitionIds := member.pitEntry.identifier :: state.usedPartitionIds }
              (namedArchive files) := by
            refine ⟨hgood, ?_, rfl, rfl⟩
            rw [FileStream.rest_advance, hdata, List.drop_left]
          dsimp only
          rw [finishMember_placed dec doFlash _ hbegun hsize hgood hdata (namedArchive_ne_nil files)]
          congr
          funext result
          cases result with
          | error code => rfl
          | ok next => exact ih hnext hturns'

/-- A run with an archive of files is the walk over the files. -/
theorem processTarFile_files {host : Host} {tarPath : Bytes} {file : FileContent}
    {files : List NamedFile} (hbegun : usb.Begun)
    (hplain : endsWithCaseInsensitive tarPath (ascii ".tar.md5") = false)
    (hfile : host.fs tarPath = some file) (hbytes : file.bytes = namedArchive files) :
    processTarFile host tarPath usb pitTable doFlash allowUnknown =
      walkFiles host.lz4 usb pitTable doFlash allowUnknown [] files := by
  have hlong : tarBlockSize ≤ file.bytes.length := by
    rw [hbytes, namedArchive, List.length_append, List.length_replicate]
    omega
  have hstate : WalkState.Between { file := FileStream.openFile file } (namedArchive files) :=
    ⟨rfl, hbytes, rfl, rfl⟩
  rw [processTarFile_plain doFlash allowUnknown hplain hfile hlong]
  exact memberLoop_files host.lz4 doFlash allowUnknown hbegun hstate
    (hbytes ▸ lt_memberFuel (namedArchive files).length)

end Walks

end Odin4
