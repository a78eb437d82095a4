import Odin4.Archive.Footprint
import Odin4.Archive.PlacedEntries
import Odin4.Archive.RoundTrip

/-!
# Truncated archives

The front of an archive is walked like the archive until the cut. A cut in the
data of an entry is noticed. A cut behind the data of an entry is not, as long
as the next header is not complete: the loop takes it for the end.
-/

namespace Odin4

open Interaction Program

/-! ## Fronts of archives -/

/-- The first `cut` bytes of a file. -/
structure FrontOf (whole : FileContent) (cut : Nat) (front : FileContent) : Prop where
  bytes_eq : front.bytes = whole.bytes.take cut
  le : cut ≤ whole.bytes.length

namespace FrontOf

variable {whole front : FileContent} {cut : Nat} (h : FrontOf whole cut front)

include h

theorem length_eq : front.bytes.length = cut := by
  rw [h.bytes_eq, List.length_take_of_le h.le]

theorem agreeOn : AgreeOn (Set.Iio cut) whole front := by
  apply agreeOn_take
  rw [h.bytes_eq, List.take_take, Nat.min_self]

/-- What is within the front is as it was. -/
theorem take_drop {start count : Nat} (hwithin : start + count ≤ cut) :
    (front.bytes.drop start).take count = (whole.bytes.drop start).take count := by
  rw [h.bytes_eq, List.drop_take, List.take_take, Nat.min_eq_left (by omega)]

end FrontOf

/-- An entry that is refused by itself: an extension that is too long, or an LZ4
image that is not accepted. -/
def PlacedEntry.Refused (dec : Lz4Decoder) (whole : FileContent) (placed : PlacedEntry) : Prop :=
  placed.entry.isExtension = true ∧ extensionLimit < placed.entry.data.length ∨
    placed.entry.isRegular = true ∧ isLz4Name placed.name = true ∧
      (lz4Plan dec ⟨whole, placed.dataStart, false⟩ placed.entry.data.length).bind
        (lz4Result dec ⟨whole, placed.dataStart, false⟩ placed.entry.data.length) = none

/-- An entry that the walk does not get past: the cut is in its data, or it is
all there but refused. -/
def PlacedEntry.Stops (dec : Lz4Decoder) (whole : FileContent) (cut : Nat) (placed : PlacedEntry) :
    Prop :=
  placed.dataStart ≤ cut ∧ cut < placed.dataEnd ∨ placed.dataEnd ≤ cut ∧ placed.Refused dec whole

/-! ## The walk over the front -/

/-- The walk over the front has come to an entry, whose partition and those of
the entries behind it are free. -/
structure WalkState.Reaches (pitTable : PitTable) (whole front : FileContent) (zeros : Nat)
    (state : WalkState) (entries : List TarEntry) (identifiers : List UInt32) : Prop where
  good : state.file.failed = false
  file_eq : state.file.file = front
  rest_eq : whole.bytes.drop state.file.pos =
    entries.flatMap TarEntry.bytes ++ List.replicate zeros 0
  pos_le : state.file.pos ≤ whole.bytes.length
  matched : Matches pitTable (placeEntries state.file.pos state.names entries) identifiers
  unused : ∀ identifier ∈ identifiers, identifier ∉ state.usedPartitionIds
  distinct : identifiers.Nodup

section Turns

variable {pitTable : PitTable} {whole front : FileContent} {zeros cut : Nat} {state : WalkState}
  {entry : TarEntry} {rest : List TarEntry} {identifiers : List UInt32} {allowUnknown : Bool}

/-- A turn of the walk at an entry of the archive. -/
inductive EntryTurn (pitTable : PitTable) (whole front : FileContent) (zeros cut : Nat)
    (state : WalkState) (entry : TarEntry) (rest : List TarEntry) (identifiers : List UInt32) :
    MemberStep → Prop where
  /-- The header is not complete, which is taken for the end. -/
  | exhausted : cut < state.file.pos + tarBlockSize →
      EntryTurn pitTable whole front zeros cut state entry rest identifiers (.stop .success)
  | truncated : state.file.pos + tarBlockSize ≤ cut →
      cut < state.file.pos + tarBlockSize + entry.data.length →
      EntryTurn pitTable whole front zeros cut state entry rest identifiers (.stop .firmware)
  | refused : state.file.pos + tarBlockSize + entry.data.length ≤ cut →
      entry.isExtension = true → extensionLimit < entry.data.length →
      EntryTurn pitTable whole front zeros cut state entry rest identifiers (.stop .firmware)
  | skip {next : WalkState} : state.file.pos + tarBlockSize + entry.data.length ≤ cut →
      entry.isRegular = false →
      (entry.isExtension = true → entry.data.length ≤ extensionLimit) →
      next.file = state.file.advance entry.bytes.length → next.names = state.names.past entry →
      next.Reaches pitTable whole front zeros rest identifiers →
      EntryTurn pitTable whole front zeros cut state entry rest identifiers (.skip next)
  | matched {member : Member} {next : WalkState} {more : List UInt32} :
      state.file.pos + tarBlockSize + entry.data.length ≤ cut → entry.isRegular = true →
      member.dataSize = entry.data.length →
      member.isLz4 = isLz4Name (state.names.nameOf entry) →
      next.file = state.file.advance tarBlockSize → next.names = state.names.past entry →
      WalkState.Reaches pitTable whole front zeros
        { next with file := state.file.advance entry.bytes.length } rest more →
      EntryTurn pitTable whole front zeros cut state entry rest identifiers (.matched member next)

theorem TarEntry.not_extension (hregular : entry.isRegular = true) : entry.isExtension = false := by
  have hflag : entry.header.typeflag = 0 ∨ entry.header.typeflag = 48 := by
    simpa [TarEntry.isRegular] using hregular
  rcases hflag with hflag | hflag <;> simp [TarEntry.isExtension, hflag]

theorem PendingNames.past_regular (names : PendingNames) (hregular : entry.isRegular = true) :
    names.past entry = names.used := by
  have hflag : entry.header.typeflag = 0 ∨ entry.header.typeflag = 48 := by
    simpa [TarEntry.isRegular] using hregular
  unfold PendingNames.past
  rcases hflag with hflag | hflag <;> simp [hflag]

namespace WalkState.Reaches

variable (hfront : FrontOf whole cut front)
  (h : state.Reaches pitTable whole front zeros (entry :: rest) identifiers)

include h

theorem entry_eq : whole.bytes.drop state.file.pos =
    entry.bytes ++ (rest.flatMap TarEntry.bytes ++ List.replicate zeros 0) := by
  rw [h.rest_eq, List.flatMap_cons, List.append_assoc]

theorem behindHeader_eq :
    state.file.advance tarBlockSize = ⟨front, state.file.pos + tarBlockSize, false⟩ := by
  rw [FileStream.advance, h.file_eq, h.good]

theorem end_le : state.file.pos + entry.bytes.length ≤ whole.bytes.length := by
  have hlength := congrArg List.length h.entry_eq
  have hpos := h.pos_le
  rw [List.length_drop, List.length_append] at hlength
  omega

include hfront

theorem header_eq (hwithin : state.file.pos + tarBlockSize ≤ cut) :
    state.file.rest.take tarBlockSize = entry.header.bytes := by
  rw [FileStream.rest, h.file_eq, hfront.take_drop hwithin, h.entry_eq, TarEntry.bytes,
    List.append_assoc, List.take_left' entry.header.length_eq]

theorem faces (hwithin : state.file.pos + tarBlockSize + entry.data.length ≤ cut) :
    state.Faces entry where
  good := h.good
  header_eq := h.header_eq hfront (by omega)
  data_eq := by
    rw [FileStream.rest, h.file_eq, List.drop_drop, hfront.take_drop hwithin, ← List.drop_drop,
      h.entry_eq, TarEntry.bytes, List.append_assoc, List.drop_left' entry.header.length_eq, blocks,
      List.append_assoc, List.take_left]
  room := Nat.lt_of_le_of_lt h.end_le whole.size_lt

omit hfront in
/-- Behind an entry the walk has come to the entries behind it. -/
theorem next {next : WalkState} {more : List UInt32}
    (hfile : next.file = state.file.advance entry.bytes.length)
    (hnames : next.names = state.names.past entry)
    (hmatched : Matches pitTable (placeEntries (state.file.pos + entry.bytes.length)
      (state.names.past entry) rest) more)
    (hunused : ∀ identifier ∈ more, identifier ∉ next.usedPartitionIds) (hdistinct : more.Nodup) :
    next.Reaches pitTable whole front zeros rest more where
  good := by
    rw [hfile]
    exact h.good
  file_eq := by
    rw [hfile]
    exact h.file_eq
  rest_eq := by
    rw [hfile, FileStream.advance_pos, ← List.drop_drop, h.entry_eq, List.drop_left]
  pos_le := by
    rw [hfile]
    exact h.end_le
  matched := by
    rw [hfile, hnames]
    exact hmatched
  unused := hunused
  distinct := hdistinct

theorem turn :
    EntryTurn pitTable whole front zeros cut state entry rest identifiers
      (readMember cut pitTable allowUnknown state) := by
  have hsize : entry.data.length < 2 ^ 63 := by
    have hend := h.end_le
    have hlimit := whole.size_lt
    rw [entry.length_bytes] at hend
    omega
  rw [readMember_eq]
  by_cases hheader : cut < state.file.pos + tarBlockSize
  · have habsent : readHeader cut state.file = .absent .success := by
      unfold readHeader
      rw [FileStream.tellg, h.good, if_neg Bool.false_ne_true]
      exact if_pos hheader
    rw [habsent]
    exact .exhausted hheader
  have hheader := Nat.not_lt.mp hheader
  rw [readHeader_entry h.good (h.header_eq hfront hheader) hheader (by omega)]
  by_cases hdata : cut < state.file.pos + tarBlockSize + entry.data.length
  · rw [if_pos hdata]
    exact .truncated hheader hdata
  rw [if_neg hdata]
  have hdata := Nat.not_lt.mp hdata
  have hfaces := h.faces hfront hdata
  dsimp only
  -- The whole entry is in front of the cut. Whether it matches decides the rest.
  cases hmatched : h.matched with
  | other hother hrest =>
      have hother : entry.isRegular = false := hother
      by_cases hlimit : entry.isExtension = true ∧ extensionLimit < entry.data.length
      · rw [enterEntry_refused hlimit.1 hlimit.2]
        exact .refused hdata hlimit.1 hlimit.2
      · have hlimit : entry.isExtension = true → entry.data.length ≤ extensionLimit :=
          fun hextension => Nat.not_lt.mp fun hlong => hlimit ⟨hextension, hlong⟩
        obtain ⟨next, hstep, hfile, hnames, hused⟩ := hfaces.skips hother hlimit
        rw [hstep]
        refine .skip hdata hother hlimit hfile hnames (h.next hfile hnames hrest ?_ h.distinct)
        rw [hused]
        exact h.unused
  | @member _ _ more pitEntry hregular hname hfound hrest =>
      have hregular : entry.isRegular = true := hregular
      obtain ⟨hclaimed, hfree⟩ := List.forall_mem_cons.mp h.unused
      obtain ⟨hnew, hdistinct⟩ := List.nodup_cons.mp h.distinct
      rw [enterEntry_regular hregular hname hfound hclaimed]
      have hnames : state.names.used = state.names.past entry :=
        (state.names.past_regular hregular).symm
      refine .matched hdata hregular rfl rfl rfl hnames (h.next rfl hnames hrest ?_ hdistinct)
      intro identifier hmem hused
      rcases List.mem_cons.mp hused with rfl | hused
      · exact hnew hmem
      · exact hfree identifier hmem hused

end WalkState.Reaches

end Turns

/-! ## Runs over the front -/

section Runs

variable {dec : Lz4Decoder} {usb : UsbDevice} {pitTable : PitTable} {doFlash allowUnknown : Bool}
  {whole front : FileContent} {zeros cut fuel : Nat} {state : WalkState} {entries : List TarEntry}
  {identifiers : List UInt32}

/-- A member that fails does not end the run with success. -/
theorem processMember_error (member : Member) (state : WalkState) :
    Returns (fun result => result ≠ .error .success) (processMember dec usb doFlash member state) := by
  have htransfer : Returns (fun result => result ≠ Except.error ExitCode.success)
      (transferMember dec usb doFlash member state.file) := by
    apply returns_ite
    · intro _
      refine returns_ite (fun _ => returns_pure (by simp)) fun _ => returns_bind fun result => ?_
      cases result with
      | none => exact returns_pure (by cases doFlash <;> simp)
      | some behind => exact returns_pure (by simp)
    · intro _
      apply returns_ite
      · intro _
        exact returns_bind fun _ => returns_ite (fun _ => returns_pure (by simp)) fun _ =>
          returns_pure (by simp)
      · intro _
        exact returns_ite (fun _ => returns_pure (by simp)) fun _ => returns_pure (by simp)
  refine returns_bind_of htransfer fun result hresult => ?_
  cases result with
  | error code => exact returns_pure (by simpa using hresult)
  | ok behind =>
      refine returns_ite (fun _ => returns_pure (by simp)) fun _ => returns_ite (fun _ => ?_) fun _ =>
        returns_pure (by simp)
      exact returns_bind fun ended => returns_ite (fun _ => returns_pure (by simp)) fun _ =>
        returns_pure (by simp)

/-- An LZ4 member that the check does not accept fails. -/
theorem processMember_passes_lz4 {member : Member} (hlz4 : member.isLz4 = true) (state : WalkState) :
    Returns (fun result => ∀ after, result = .ok after →
      (lz4Plan dec state.file member.dataSize).bind
        (lz4Result dec state.file member.dataSize) ≠ none)
      (processMember dec usb doFlash member state) := by
  refine returns_bind_of (transferMember_passes_lz4 usb doFlash hlz4 state.file)
    fun result hresult => ?_
  cases result with
  | error code => exact returns_pure (by simp)
  | ok behind =>
      have hpassed := hresult behind rfl
      intro trace result hexec after hafter
      rw [hpassed]
      exact Option.some_ne_none behind

/-- The check of an image in the front is that of the image in the archive. -/
theorem lz4Check_front (hfront : FrontOf whole cut front) {start size : Nat}
    (hwithin : start + size ≤ cut) :
    (lz4Plan dec ⟨front, start, false⟩ size).bind (lz4Result dec ⟨front, start, false⟩ size) =
      ((lz4Plan dec ⟨whole, start, false⟩ size).bind (lz4Result dec ⟨whole, start, false⟩ size)).map
        (·.on front) := by
  let stream : FileStream := ⟨whole, start, false⟩
  have hagree : AgreeOn (stream.ahead size) stream.file front :=
    hfront.agreeOn.mono fun i hi => Nat.lt_of_lt_of_le hi.2 hwithin
  exact lz4Check_on hagree

theorem not_stops_of_lt {placed : PlacedEntry} (h : cut < placed.dataStart) :
    ¬ placed.Stops dec whole cut := by
  have hend : placed.dataStart ≤ placed.dataEnd := Nat.le_add_right _ _
  rintro (⟨hstart, -⟩ | ⟨hwhole, -⟩)
  · omega
  · omega

/-- A run over the front that succeeds has got past all its entries. -/
theorem memberLoop_success (hbegun : usb.Begun) (hfront : FrontOf whole cut front)
    (h : state.Reaches pitTable whole front zeros entries identifiers) {trace : UsbTrace}
    (hexec : (memberLoop dec usb pitTable doFlash allowUnknown cut fuel state).Executes trace
      .success) :
    ∀ placed ∈ placeEntries state.file.pos state.names entries, ¬ placed.Stops dec whole cut := by
  induction entries generalizing state identifiers fuel trace with
  | nil => exact List.forall_mem_nil _
  | cons entry rest ih =>
      cases fuel with
      | zero => simp [memberLoop] at hexec
      | succ fuel =>
          have hturn : EntryTurn pitTable whole front zeros cut state entry rest identifiers
              (readMember cut pitTable allowUnknown state) := h.turn hfront
          rw [memberLoop] at hexec
          generalize readMember cut pitTable allowUnknown state = step at hexec hturn
          cases hturn with
          -- What is left of the archive is too short for a header, and so for all that follows.
          | exhausted hheader =>
              intro placed hplaced
              apply not_stops_of_lt
              exact Nat.lt_of_lt_of_le hheader (Nat.add_le_add_right (le_placeEntries placed hplaced) _)
          | truncated => simp at hexec
          | refused => simp at hexec
          | skip hdata hother hlimit hfile hnames hnext =>
              have hrest := ih hnext hexec
              rw [hfile, hnames] at hrest
              refine List.forall_mem_cons.mpr ⟨?_, hrest⟩
              rintro (⟨-, hcut⟩ | ⟨-, ⟨hextension, hlong⟩ | ⟨hregular, -⟩⟩)
              · exact absurd hdata (Nat.not_le.mpr hcut)
              · exact absurd (hlimit hextension) (Nat.not_le.mpr hlong)
              · simp [hregular] at hother
          | @matched member next more hdata hregular hsize hlz4 hfile hnames hnext =>
              obtain ⟨first, result, second, -, hmember, hexec⟩ := executes_bind.mp hexec
              cases result with
              | error code =>
                  obtain ⟨-, rfl⟩ := hexec
                  exact absurd rfl (processMember_error member next first _ hmember)
              | ok after =>
                  have hok : next.file.failed = false := by
                    rw [hfile]
                    exact h.good
                  have hlimit : member.dataSize < 2 ^ 63 := by
                    have hcut := hfront.le
                    have hwhole := whole.size_lt
                    omega
                  obtain ⟨-, rfl⟩ := processMember_advance hbegun hok hlimit doFlash first _ hmember
                    after rfl
                  rw [hfile, FileStream.advance_advance, hsize, ← entry.length_bytes_eq] at hexec
                  -- The loop goes on behind the padded data, where the next entry starts.
                  have hrest := ih hnext hexec
                  change ∀ placed ∈ placeEntries (state.file.advance entry.bytes.length).pos next.names
                    rest, _ at hrest
                  rw [hnames] at hrest
                  refine List.forall_mem_cons.mpr ⟨?_, hrest⟩
                  rintro (⟨-, hcut⟩ | ⟨-, ⟨hextension, -⟩ | ⟨-, hname, hrejected⟩⟩)
                  · exact absurd hdata (Nat.not_le.mpr hcut)
                  · simp [entry.not_extension hregular] at hextension
                  · have hpassed := processMember_passes_lz4 (hlz4.trans hname) next first _ hmember
                      _ rfl
                    rw [hfile, hsize, h.behindHeader_eq, lz4Check_front hfront hdata] at hpassed
                    exact hpassed (congrArg (Option.map _) hrejected)

/-- A member that is all there is checked with success, unless it is an LZ4
member that is not accepted. -/
theorem checkEntry_faces {entry : TarEntry} {member : Member} {next : WalkState}
    (hfaces : state.Faces entry) (hsize : member.dataSize = entry.data.length)
    (hfile : next.file = state.file.advance tarBlockSize)
    (hpass : member.isLz4 = true → (lz4Plan dec next.file member.dataSize).bind
      (lz4Result dec next.file member.dataSize) ≠ none) :
    checkEntry dec member next = .ok { next with file := state.file.advance entry.bytes.length } := by
  have hbehind : next.file = state.behindHeader.file := hfile
  have hchecked : checkMember dec member next.file = .ok (next.file.advance member.dataSize) := by
    unfold checkMember
    split
    next hlz4 =>
      obtain ⟨behind, hbehind⟩ := Option.ne_none_iff_exists'.mp (hpass hlz4)
      obtain ⟨plan, hplan, hresult⟩ := Option.bind_eq_some_iff.mp hbehind
      rw [hbehind, (lz4Result_file (lz4Plan_good hplan) hplan hresult).2]
    next =>
      rw [FileStream.toStreamoff_of_lt (hsize ▸ hfaces.size_lt), hbehind, hsize, hfaces.seekData]
      exact if_neg (by simp [hfaces.behindHeader_good])
  unfold checkEntry
  rw [hchecked]
  dsimp only [leaveMember]
  rw [hbehind, hsize, hfaces.seekPadding, if_neg (by simp [hfaces.good])]

/-- Behind the entries the walk is at its end, whether or not a block is left. -/
theorem WalkState.Reaches.ended (hfront : FrontOf whole cut front)
    (h : state.Reaches pitTable whole front zeros [] identifiers) :
    readMember cut pitTable allowUnknown state = .stop .success := by
  by_cases hheader : cut < state.file.pos + tarBlockSize
  · unfold readMember
    rw [FileStream.tellg, h.good, if_neg Bool.false_ne_true]
    exact if_pos hheader
  · have hwithin := Nat.not_lt.mp hheader
    refine readMember_zeros h.good hwithin ?_
    have hrest : whole.bytes.drop state.file.pos = List.replicate zeros 0 := h.rest_eq
    have hlength := congrArg List.length hrest
    have hcut := hfront.le
    rw [List.length_drop, List.length_replicate] at hlength
    rw [FileStream.rest, h.file_eq, hfront.take_drop hwithin, hrest, List.take_replicate,
      Nat.min_eq_left (by omega)]

/-- Behind an entry that is all there, fuel is left for the rest. -/
theorem turns_left {entry : TarEntry} {pos : Nat}
    (hfuel : cut < pos + (fuel + 1) * tarBlockSize)
    (hdata : pos + tarBlockSize + entry.data.length ≤ cut) :
    0 < fuel ∧ cut < pos + entry.bytes.length + fuel * tarBlockSize := by
  rw [Nat.succ_mul] at hfuel
  rw [entry.length_bytes_eq]
  have hpos : 0 < fuel := by
    rcases Nat.eq_zero_or_pos fuel with rfl | hpos
    · omega
    · exact hpos
  exact ⟨hpos, by omega⟩

/-- A front whose entries are got past is checked with success. -/
theorem memberLoop_check_front (hfront : FrontOf whole cut front)
    (h : state.Reaches pitTable whole front zeros entries identifiers)
    (hstops : ∀ placed ∈ placeEntries state.file.pos state.names entries,
      ¬ placed.Stops dec whole cut)
    (hsome : 0 < fuel) (hfuel : cut < state.file.pos + fuel * tarBlockSize) :
    memberLoop dec usb pitTable false allowUnknown cut fuel state = pure .success := by
  induction entries generalizing state identifiers fuel with
  | nil =>
      cases fuel with
      | zero => exact absurd hsome (Nat.lt_irrefl 0)
      | succ fuel => rw [memberLoop, h.ended hfront]
  | cons entry rest ih =>
      cases fuel with
      | zero => exact absurd hsome (Nat.lt_irrefl 0)
      | succ fuel =>
          have hturn : EntryTurn pitTable whole front zeros cut state entry rest identifiers
              (readMember cut pitTable allowUnknown state) := h.turn hfront
          obtain ⟨hhere, hrest⟩ := List.forall_mem_cons.mp hstops
          rw [memberLoop]
          generalize readMember cut pitTable allowUnknown state = step at hturn
          cases hturn with
          | exhausted => rfl
          | truncated hheader hdata => exact absurd (.inl ⟨hheader, hdata⟩) hhere
          | refused hdata hextension hlong =>
              exact absurd (.inr ⟨hdata, .inl ⟨hextension, hlong⟩⟩) hhere
          | skip hdata hother hlimit hfile hnames hnext =>
              obtain ⟨hpos, hturns⟩ := turns_left hfuel hdata
              apply ih hnext
              · rw [hfile, hnames]
                exact hrest
              · exact hpos
              · rw [hfile]
                exact hturns
          | @matched member next more hdata hregular hsize hlz4 hfile hnames hnext =>
              obtain ⟨hpos, hturns⟩ := turns_left hfuel hdata
              -- Its LZ4 data end before the cut, so they are the data of the whole archive.
              have hpass : member.isLz4 = true → (lz4Plan dec next.file member.dataSize).bind
                  (lz4Result dec next.file member.dataSize) ≠ none := by
                intro hpacked hnone
                rw [hfile, hsize, h.behindHeader_eq, lz4Check_front hfront hdata,
                  Option.map_eq_none_iff] at hnone
                exact hhere (.inr ⟨hdata, .inr ⟨hregular, hlz4.symm.trans hpacked, hnone⟩⟩)
              have hchecked := checkEntry_faces (h.faces hfront hdata) hsize hfile hpass
              dsimp only
              rw [processMember_check, hchecked, pure_bind]
              apply ih hnext
              · change ∀ placed ∈ placeEntries (state.file.advance entry.bytes.length).pos next.names
                  rest, _
                rw [hnames]
                exact hrest
              · exact hpos
              · exact hturns

end Runs

/-! ## Archives -/

/-- An archive that ends with blocks of zeros, and whose regular entries all
have a partition of their own. -/
structure MatchedArchive (pitTable : PitTable) where
  entries : List TarEntry
  endBlocks : Nat
  ended : 2 ≤ endBlocks
  identifiers : List UInt32
  matched : Matches pitTable (placeEntries 0 {} entries) identifiers
  distinct : identifiers.Nodup

namespace MatchedArchive

variable {pitTable : PitTable} (archive : MatchedArchive pitTable)

def bytes : Bytes :=
  archive.entries.flatMap TarEntry.bytes ++ List.replicate (archive.endBlocks * tarBlockSize) 0

/-- The entries with their places. -/
def places : List PlacedEntry := placeEntries 0 {} archive.entries

theorem reaches {whole : FileContent} (hwhole : whole.bytes = archive.bytes) (front : FileContent) :
    WalkState.Reaches pitTable whole front (archive.endBlocks * tarBlockSize)
      { file := FileStream.openFile front } archive.entries archive.identifiers where
  good := rfl
  file_eq := rfl
  rest_eq := hwhole
  pos_le := Nat.zero_le _
  matched := archive.matched
  unused := by simp
  distinct := archive.distinct

end MatchedArchive

section Archives

variable {pitTable : PitTable} (archive : MatchedArchive pitTable) {host : Host} {tarPath : Bytes}
  {usb : UsbDevice} {whole front : FileContent} {cut : Nat}

/-- Whatever the device does, the front of an archive is never a success, if and
only if the cut lies in the data of an entry, or an entry in front of it is
refused by itself. -/
theorem front_rejected_iff (hbegun : usb.Begun)
    (hplain : endsWithCaseInsensitive tarPath (ascii ".tar.md5") = false)
    (hwhole : whole.bytes = archive.bytes) (hfront : FrontOf whole cut front)
    (hcut : tarBlockSize ≤ cut) (hfile : host.fs tarPath = some front) (allowUnknown : Bool) :
    (∀ doFlash trace code,
      (processTarFile host tarPath usb pitTable doFlash allowUnknown).Executes trace code →
      code ≠ .success) ↔
    ∃ placed ∈ archive.places, placed.Stops host.lz4 whole cut := by
  have hreaches := archive.reaches hwhole front
  have hlength := hfront.length_eq
  have hprogram : ∀ doFlash, processTarFile host tarPath usb pitTable doFlash allowUnknown =
      memberLoop host.lz4 usb pitTable doFlash allowUnknown cut (memberFuel cut)
        { file := FileStream.openFile front } := by
    intro doFlash
    rw [processTarFile_plain doFlash allowUnknown hplain hfile (hlength ▸ hcut), hlength]
  constructor
  · intro hnever
    by_contra hnone
    have hstops : ∀ placed ∈ archive.places, ¬ placed.Stops host.lz4 whole cut :=
      fun placed hplaced hstop => hnone ⟨placed, hplaced, hstop⟩
    have hfuel : cut < (FileStream.openFile front).pos + memberFuel cut * tarBlockSize := by
      have hturns := lt_memberFuel cut
      rw [Nat.mul_comm] at hturns
      exact hturns.trans_le (Nat.le_add_left _ _)
    have hchecked : memberLoop host.lz4 usb pitTable false allowUnknown cut (memberFuel cut)
        { file := FileStream.openFile front } = pure .success :=
      memberLoop_check_front hfront hreaches hstops (Nat.succ_pos _) hfuel
    refine hnever false [] .success ?_ rfl
    rw [hprogram, hchecked]
    exact ⟨rfl, rfl⟩
  · rintro ⟨placed, hplaced, hstop⟩ doFlash trace code hexec rfl
    rw [hprogram] at hexec
    exact memberLoop_success hbegun hfront hreaches hexec placed hplaced hstop

end Archives

/-! ## A cut between two members -/

def pairEntries : List TarEntry := [bootMember.entry, recoveryMember.entry]

theorem placeEntries_pair :
    placeEntries 0 {} pairEntries = [⟨0, ascii "boot.img", bootMember.entry⟩,
      ⟨1024, ascii "images/recovery.img", recoveryMember.entry⟩] := by
  have hboot : PendingNames.nameOf {} bootMember.entry = ascii "boot.img" := by decide +kernel
  have hrecovery : PendingNames.nameOf (PendingNames.past {} bootMember.entry) recoveryMember.entry =
      ascii "images/recovery.img" := by decide +kernel
  have hlength : 0 + bootMember.entry.bytes.length = 1024 := by decide +kernel
  rw [pairEntries, placeEntries, placeEntries, placeEntries, hboot, hrecovery, hlength]

theorem matches_pair : Matches firmwarePit (placeEntries 0 {} pairEntries) [1, 2] := by
  have hbootRegular : bootMember.entry.isRegular = true := by decide +kernel
  have hrecoveryRegular : recoveryMember.entry.isRegular = true := by decide +kernel
  obtain ⟨boot, hboot, hbootId⟩ : ∃ pitEntry,
      findPitEntry firmwarePit (ascii "boot.img") = some pitEntry ∧ pitEntry.identifier = 1 :=
    ⟨namedEntry 1 (ascii "BOOT") (ascii "boot.img"), by decide +kernel, rfl⟩
  obtain ⟨recovery, hrecovery, hrecoveryId⟩ : ∃ pitEntry,
      findPitEntry firmwarePit (ascii "images/recovery.img") = some pitEntry ∧
        pitEntry.identifier = 2 :=
    ⟨namedEntry 2 (ascii "RECOVERY") (ascii "recovery.img"), by decide +kernel, rfl⟩
  rw [placeEntries_pair, ← hbootId, ← hrecoveryId]
  exact .member hbootRegular (by decide) hboot (.member hrecoveryRegular (by decide) hrecovery .done)

/-- An archive of `boot.img` and `images/recovery.img`. -/
def pairArchive : MatchedArchive firmwarePit where
  entries := pairEntries
  endBlocks := 2
  ended := Nat.le_refl 2
  identifiers := [1, 2]
  matched := matches_pair
  distinct := by decide

def pairFile : FileContent := ⟨pairArchive.bytes, by decide +kernel⟩

/-- The first bytes of the archive. -/
def pairFront (cut : Nat) : FileContent where
  bytes := pairFile.bytes.take cut
  size_lt := (List.length_take_le' cut pairFile.bytes).trans_lt pairFile.size_lt

theorem pairFront_frontOf {cut : Nat} (hcut : cut ≤ 2560) : FrontOf pairFile cut (pairFront cut) :=
  ⟨rfl, hcut.trans (by decide +kernel)⟩

/-- A cut in the data of `boot.img` is noticed. -/
theorem front_rejected_iff_pair :
    ¬ ∃ (doFlash : Bool) (trace : UsbTrace), (processTarFile (archiveHost (pairFront 513))
      (ascii "firmware.tar") {} firmwarePit doFlash false).Executes trace .success := by
  have hbegun : ({} : UsbDevice).Begun := by simp [UsbDevice.Begun, UsbDevice.isOdinLegacy]
  have hplain : endsWithCaseInsensitive (ascii "firmware.tar") (ascii ".tar.md5") = false := by decide
  have hfront : FrontOf pairFile 513 (pairFront 513) := pairFront_frontOf (by decide)
  have hfile := archiveHost_fs (pairFront 513)
  generalize pairFront 513 = front at hfront hfile ⊢
  generalize archiveHost front = host at hfile ⊢
  rintro ⟨doFlash, trace, hexec⟩
  refine (front_rejected_iff pairArchive hbegun hplain rfl hfront (by decide) hfile false).mpr ?_
    doFlash trace _ hexec rfl
  refine ⟨⟨0, ascii "boot.img", bootMember.entry⟩, ?_, .inl ⟨?_, ?_⟩⟩
  · change _ ∈ placeEntries 0 {} pairEntries
    rw [placeEntries_pair]
    exact List.mem_cons_self
  · decide
  · decide

/-- Between two members the end of the file is taken for the end of the archive:
`boot.img` is flashed with success, though `recovery.img` is missing. -/
theorem front_between_members_accepted :
    ¬ ∀ (pitTable : PitTable) (archive : MatchedArchive pitTable) (host : Host) (tarPath : Bytes)
      (usb : UsbDevice) (whole front : FileContent) (cut : Nat), usb.Begun →
      2 ≤ archive.identifiers.length →
      endsWithCaseInsensitive tarPath (ascii ".tar.md5") = false → whole.bytes = archive.bytes →
      FrontOf whole cut front → tarBlockSize ≤ cut → cut < whole.bytes.length →
      (∃ placed ∈ archive.places, placed.entry.isRegular = true ∧ cut < placed.dataEnd) →
      host.fs tarPath = some front →
      ∀ (doFlash allowUnknown : Bool) (trace : UsbTrace) (code : ExitCode),
        (processTarFile host tarPath usb pitTable doFlash allowUnknown).Executes trace code →
        code ≠ .success := by
  intro h
  have hbegun : ({} : UsbDevice).Begun := by simp [UsbDevice.Begun, UsbDevice.isOdinLegacy]
  have hplain : endsWithCaseInsensitive (ascii "firmware.tar") (ascii ".tar.md5") = false := by decide
  have hfront : FrontOf pairFile 1024 (pairFront 1024) := pairFront_frontOf (by decide)
  have hfile := archiveHost_fs (pairFront 1024)
  have hsurvey : surveyTarFile {} firmwarePit false (archiveHost (pairFront 1024))
      (ascii "firmware.tar") false = some (.success, true) := by decide +kernel
  have hshort : 1024 < pairFile.bytes.length := by decide +kernel
  have hmissing : ∃ placed ∈ pairArchive.places, placed.entry.isRegular = true ∧
      1024 < placed.dataEnd := by
    refine ⟨⟨1024, ascii "images/recovery.img", recoveryMember.entry⟩, ?_, ?_, ?_⟩
    · change _ ∈ placeEntries 0 {} pairEntries
      rw [placeEntries_pair]
      exact List.mem_cons_of_mem _ List.mem_cons_self
    · decide +kernel
    · exact Nat.lt_add_right _ (by decide)
  generalize pairFront 1024 = front at hfront hfile hsurvey
  generalize archiveHost front = host at hfile hsurvey
  obtain ⟨xs, code, hexec, rfl⟩ := (processTarFile_surveyed {} firmwarePit false hbegun host
    (ascii "firmware.tar")).attains false .success true hsurvey
  exact h firmwarePit pairArchive host _ _ _ _ _ hbegun (Nat.le_refl 2) hplain rfl hfront (by decide)
    hshort hmissing hfile true false _ _ hexec rfl

end Odin4
