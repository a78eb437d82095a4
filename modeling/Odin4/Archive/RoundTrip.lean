import Odin4.Archive.PlacedEntries
import Odin4.Usb.PitCodec

/-!
# Archives arrive as they were packed

An archive of raw images whose names are found in the PIT is flashed member by
member: the device receives the size, the data and the end of each file, in the
order of the archive, and nothing else.
-/

namespace Odin4

open Interaction Program Dialogue

/-- A member with the first entry of the table that matches its name. -/
structure MatchedMember (pitTable : PitTable) where
  member : TarMember
  pitEntry : PitEntry
  found : findPitEntry pitTable member.name = some pitEntry

/-- The packets of one file: a complete transfer, then its end for the partition. -/
def CarriesFile (identifier : UInt32) (data : Bytes) (packets : List Packet) : Prop :=
  ∃ transfer payloads, packets = transfer ++ [.thor (.endFileTransfer identifier)] ∧
    Delivered transfer data.length payloads ∧ payloads.flatten = data

/-- The packets of some files, one after the other. -/
def CarriesMembers {pitTable : PitTable} (images : List (MatchedMember pitTable))
    (packets : List Packet) : Prop :=
  ∃ scripts, packets = scripts.flatten ∧
    List.Forall₂ (fun image script =>
      CarriesFile image.pitEntry.identifier image.member.entry.data script) images scripts

/-- The last component of the name has the extension of LZ4 images. -/
def EndsInLz4 (name : Bytes) : Prop := ascii ".lz4" <:+ baseNameFromPath name

instance (name : Bytes) : Decidable (EndsInLz4 name) := inferInstanceAs (Decidable (_ <:+ _))

/-- The same in any letter case. -/
def EndsInLz4AnyCase (name : Bytes) : Prop := ascii ".lz4" <:+ toLowerCopy (baseNameFromPath name)

theorem toLower_toLower (c : UInt8) : toLower (toLower c) = toLower c := by
  unfold toLower
  split
  next hupper =>
    have hlow := UInt8.le_iff_toNat_le.mp hupper.1
    have hhigh := UInt8.le_iff_toNat_le.mp hupper.2
    have hsum : (c + 32).toNat = c.toNat + 32 := by
      rw [UInt8.toNat_add]
      change (c.toNat + 32) % 256 = c.toNat + 32
      change c.toNat ≤ 90 at hhigh
      omega
    refine if_neg fun h => ?_
    have hle := UInt8.le_iff_toNat_le.mp h.2
    rw [hsum] at hle
    change c.toNat + 32 ≤ 90 at hle
    change 65 ≤ c.toNat at hlow
    omega
  next => rfl

theorem isLz4Name_iff {name : Bytes} : isLz4Name name = true ↔ EndsInLz4AnyCase name := by
  have hlower : ∀ text n, toLowerCopy ((toLowerCopy text).drop n) = (toLowerCopy text).drop n := by
    intro text n
    simp [toLowerCopy, List.map_drop, Function.comp_def, toLower_toLower]
  have hsuffix : toLowerCopy (ascii ".lz4") = ascii ".lz4" := by decide
  rw [isLz4Name, endsWithCaseInsensitive, Bool.and_eq_true, beq_iff_eq, decide_eq_true_eq, hsuffix,
    hlower, EndsInLz4AnyCase, List.suffix_iff_eq_drop, eq_comm (a := ascii ".lz4")]
  refine and_iff_right_of_imp fun h => ?_
  have hlength := congrArg List.length h
  rw [List.length_drop] at hlength
  omega

/-! ## One member -/

section Member

variable {usb : UsbDevice} (dec : Lz4Decoder) {member : Member} {data tail : Bytes}

/-- The transfer of a raw image that is there in full. -/
theorem transferMember_follows (hthor : usb.protocolMode = .thor) (hraw : member.isLz4 = false)
    (hsize : member.dataSize = data.length) (hsmall : data.length < 8 ^ 11) {file : FileStream}
    (hok : file.failed = false) (hrest : file.rest = data ++ tail) (s : UInt32) :
    Exchanges (transferMember dec usb true member file) fun xs result =>
      ∃ payloads ok,
        Follows (.thor (.filePartSize (UInt64.ofNat data.length)) :: fileParts 0 payloads) s xs ok ∧
        (ok = true → result = .ok (file.advance data.length) ∧
          Delivered (.thor (.filePartSize (UInt64.ofNat data.length)) :: fileParts 0 payloads)
            data.length payloads ∧ payloads.flatten = data) ∧
        (ok = false → result = .error .protocol) := by
  have hmode : usb.isOdinLegacy = false := by simp [UsbDevice.isOdinLegacy, hthor]
  have hlength := congrArg List.length hrest
  rw [List.length_append] at hlength
  unfold transferMember
  rw [hraw, hsize, if_neg Bool.false_ne_true, if_pos rfl]
  refine conducts_bind (flashPartitionStream_follows hmode file data.length member.pitEntry
    member.isLarge s) fun xs result hxs => ?_
  obtain ⟨payloads, ok, hfollows, hlengths, hdone, hgave⟩ := hxs
  obtain ⟨sentAll, file'⟩ := result
  cases sentAll with
  | false =>
      obtain hno | hfailed | hshort := hgave rfl
      · subst hno
        refine conducts_pure ⟨payloads, false, ?_, by simp, fun _ => rfl⟩
        rwa [List.append_nil]
      · simp [hok] at hfailed
      · omega
  | true =>
      obtain ⟨rfl, -, hflatten, hfile, hcount⟩ := hdone rfl
      rw [hrest, List.take_left] at hflatten
      refine conducts_pure ⟨payloads, true, by rwa [List.append_nil], fun _ => ?_, by simp⟩
      refine ⟨by rw [← hfile], ?_, hflatten⟩
      refine delivered_of_script rfl (by omega) ?_ (fun payload hmem => ?_) (by rw [hflatten])
      · rw [List.countP_cons_of_neg (by simp [Packet.isFilePart]), countP_fileParts]
        simp only [thorChunkSize] at hcount
        omega
      · have := (hlengths payload hmem).2
        simp only [thorChunkSize] at this
        omega

theorem transferMember_accepts (hthor : usb.protocolMode = .thor) (hraw : member.isLz4 = false)
    (hsize : member.dataSize = data.length) {file : FileStream} (hok : file.failed = false)
    (hrest : file.rest = data ++ tail) :
    Accepts (transferMember dec usb true member file) fun _ result =>
      ∃ file', result = .ok file' := by
  have hlength := congrArg List.length hrest
  rw [List.length_append] at hlength
  unfold transferMember
  rw [hraw, hsize, if_neg Bool.false_ne_true, if_pos rfl]
  refine admits_bind (flashPartitionStream_accepts hthor hok (by omega) member.pitEntry
    member.isLarge) fun xs result hresult => ?_
  obtain ⟨sentAll, file'⟩ := result
  obtain rfl : sentAll = true := hresult
  exact admits_pure ⟨file', rfl⟩

/-- From the data of a member over its padding to the next header. -/
theorem WalkState.Between.seekPadding {state : WalkState}
    (hstate : state.Between (blocks data ++ tail)) (htail : tail ≠ []) :
    (state.file.advance data.length).seekCur (tarPadding data.length) =
      state.file.advance (blocks data).length := by
  have hgood : (state.file.advance data.length).failed = false := hstate.good
  have hlength := congrArg List.length hstate.rest_eq
  have hpos := List.length_pos_iff.mpr htail
  have hfile := state.file.file.size_lt
  rw [FileStream.length_rest, List.length_append, length_blocks] at hlength
  rw [length_blocks, ← FileStream.advance_advance]
  refine FileStream.seekCur_nat hgood ?_
  change state.file.pos + data.length + padding tarBlockSize data.length < 2 ^ 63
  omega

/-- A member is transferred, finished and left behind. -/
theorem processMember_follows (hthor : usb.protocolMode = .thor) (hraw : member.isLz4 = false)
    (hsize : member.dataSize = data.length) (hsmall : data.length < 8 ^ 11) {state : WalkState}
    (hstate : state.Between (blocks data ++ tail)) (htail : tail ≠ []) (s : UInt32) :
    Exchanges (processMember dec usb true member state) fun xs result =>
      ∃ script ok, Follows script s xs ok ∧
        (ok = true →
          result = .ok { state with file := state.file.advance (blocks data).length } ∧
          CarriesFile member.pitEntry.identifier data script) ∧
        (ok = false → result = .error .protocol) := by
  have hmode : usb.isOdinLegacy = false := by simp [UsbDevice.isOdinLegacy, hthor]
  have hrest := hstate.rest_eq
  rw [blocks, List.append_assoc] at hrest
  unfold processMember
  refine conducts_bind (transferMember_follows dec hthor hraw hsize hsmall hstate.good hrest s)
    fun xs result hxs => ?_
  obtain ⟨payloads, ok, hfollows, hdone, hgave⟩ := hxs
  cases ok with
  | false =>
      rw [hgave rfl]
      exact conducts_pure ⟨_, false, by rwa [List.append_nil], by simp, fun _ => rfl⟩
  | true =>
      obtain ⟨rfl, hdelivered, hflatten⟩ := hdone rfl
      dsimp only
      rw [hsize, hstate.seekPadding htail, if_neg (by simp [hstate.good]), if_pos rfl,
        endFileTransfer, hmode, if_neg Bool.false_ne_true]
      refine conducts_unless (thorExchange_single rfl 0) (fun ys hys => ?_) fun ys hys => ?_
      · exact ⟨_, false, hfollows.append (hys.follows _), by simp, fun _ => rfl⟩
      · refine conducts_pure ⟨_, true, ?_, fun _ => ⟨rfl, _, payloads, rfl, hdelivered, hflatten⟩,
          by simp⟩
        rw [List.append_nil]
        exact hfollows.append (hys.follows _)

theorem processMember_accepts (hthor : usb.protocolMode = .thor) (hraw : member.isLz4 = false)
    (hsize : member.dataSize = data.length) (hsmall : data.length < 8 ^ 11) {state : WalkState}
    (hstate : state.Between (blocks data ++ tail)) (htail : tail ≠ []) :
    Accepts (processMember dec usb true member state) fun _ result =>
      result = .ok { state with file := state.file.advance (blocks data).length } := by
  have hrest := hstate.rest_eq
  rw [blocks, List.append_assoc] at hrest
  unfold processMember
  refine admits_bind ((transferMember_accepts dec hthor hraw hsize hstate.good hrest).and
    (transferMember_follows dec hthor hraw hsize hsmall hstate.good hrest 0)) fun xs result hxs => ?_
  obtain ⟨⟨file', hresult⟩, payloads, ok, -, hdone, hgave⟩ := hxs
  cases ok with
  | false =>
      rw [hgave rfl] at hresult
      simp at hresult
  | true =>
      rw [(hdone rfl).1]
      dsimp only
      rw [hsize, hstate.seekPadding htail, if_neg (by simp [hstate.good]), if_pos rfl,
        endFileTransfer, if_neg (by simp [UsbDevice.isOdinLegacy, hthor])]
      refine admits_bind (thorExchange_accepts _ 0) fun ys ok htrue => ?_
      subst htrue
      exact admits_pure rfl

end Member

/-! ## All members -/

section Walk

variable {pitTable : PitTable} {allowUnknown doFlash : Bool} {usb : UsbDevice} (dec : Lz4Decoder)

/-- What the walk knows of a member when it stands in front of its data. -/
def MatchedMember.walked (image : MatchedMember pitTable) : Member where
  filename := image.member.name
  dataSize := image.member.entry.data.length
  pitEntry := image.pitEntry
  isLarge := isLargePartition (pitFieldToString image.pitEntry.partitionName)
  isLz4 := isLz4Name image.member.name

/-- What the loop does with a member from the front of its data on. -/
def finishMember (usb : UsbDevice) (pitTable : PitTable) (doFlash allowUnknown : Bool)
    (contentEnd fuel : Nat) (member : Member) (state : WalkState) : Usb ExitCode := do
  match ← processMember dec usb doFlash member state with
  | .error code => return code
  | .ok state => memberLoop dec usb pitTable doFlash allowUnknown contentEnd fuel state

theorem memberLoop_matched {contentEnd fuel : Nat} {state next : WalkState} {member : Member}
    (h : readMember contentEnd pitTable allowUnknown state = .matched member next) :
    memberLoop dec usb pitTable doFlash allowUnknown contentEnd (fuel + 1) state =
      finishMember dec usb pitTable doFlash allowUnknown contentEnd fuel member next := by
  rw [memberLoop, h]
  rfl

theorem memberLoop_skip {contentEnd fuel : Nat} {state next : WalkState}
    (h : readMember contentEnd pitTable allowUnknown state = .skip next) :
    memberLoop dec usb pitTable doFlash allowUnknown contentEnd (fuel + 1) state =
      memberLoop dec usb pitTable doFlash allowUnknown contentEnd fuel next := by
  rw [memberLoop, h]

/-- The walk stands in front of these members, which it can all claim, and has
turns left for them. -/
structure WalkState.Ahead (state : WalkState) (images : List (MatchedMember pitTable))
    (fuel : Nat) : Prop where
  between : state.Between (tarArchive (images.map (·.member)))
  distinct : (images.map (·.pitEntry.identifier)).Nodup
  unused : ∀ image ∈ images, image.pitEntry.identifier ∉ state.usedPartitionIds
  turns : (tarArchive (images.map (·.member))).length < tarBlockSize * fuel

variable {state : WalkState} {fuel : Nat}

theorem exists_turn {length : Nat} (h : length < tarBlockSize * fuel) : ∃ n, fuel = n + 1 := by
  cases fuel with
  | zero => simp at h
  | succ n => exact ⟨n, rfl⟩

/-- A block has gone by in a turn. -/
theorem turns_behind {front tail : Bytes} (hfront : tarBlockSize ≤ front.length)
    (hturns : (front ++ tail).length < tarBlockSize * (fuel + 1)) :
    tail.length < tarBlockSize * fuel := by
  rw [List.length_append, Nat.mul_succ] at hturns
  omega

/-- In front of the entry of an image, with its name known, the next turn is at
its data. -/
theorem readMember_image {image : MatchedMember pitTable} {tail : Bytes}
    (hok : state.file.failed = false) (hrest : state.file.rest = image.member.entry.bytes ++ tail)
    (hname : state.names.nameOf image.member.entry = image.member.name)
    (hused : state.names.used = {})
    (hunused : image.pitEntry.identifier ∉ state.usedPartitionIds) :
    ∃ arrived,
      readMember state.file.file.bytes.length pitTable allowUnknown state =
        .matched image.walked arrived ∧
      arrived.Between (blocks image.member.entry.data ++ tail) ∧
      arrived.file.file = state.file.file ∧
      arrived.usedPartitionIds = image.pitEntry.identifier :: state.usedPartitionIds := by
  refine ⟨_, readMember_regular image.member.regular image.member.usable hok hrest hname image.found
    hunused, ⟨hok, WalkState.behindHeader_rest hrest, ?_, ?_⟩, rfl, rfl⟩
  · exact congrArg PendingNames.gnuLongName hused
  · exact congrArg PendingNames.paxPath hused

/-- The loop gets to the data of the next member, in one turn or in two. -/
theorem memberLoop_arrives {image : MatchedMember pitTable} {tail : Bytes}
    (hstate : state.Between (image.member.bytes ++ tail))
    (hunused : image.pitEntry.identifier ∉ state.usedPartitionIds)
    (hturns : (image.member.bytes ++ tail).length < tarBlockSize * fuel) :
    ∃ fuel' arrived,
      memberLoop dec usb pitTable doFlash allowUnknown state.file.file.bytes.length fuel state =
        finishMember dec usb pitTable doFlash allowUnknown state.file.file.bytes.length fuel'
          image.walked arrived ∧
      arrived.Between (blocks image.member.entry.data ++ tail) ∧
      arrived.file.file = state.file.file ∧
      arrived.usedPartitionIds = image.pitEntry.identifier :: state.usedPartitionIds ∧
      tail.length < tarBlockSize * fuel' := by
  have hnamed := image.member.named
  have husable := image.member.usable
  obtain ⟨fuel, rfl⟩ := exists_turn hturns
  unfold TarMember.bytes at hstate hturns
  cases hlong : image.member.longName with
  | none =>
      simp only [hlong] at hstate hturns hnamed
      have hnames := hstate.names_eq
      have hname : state.names.nameOf image.member.entry = image.member.name := by
        rw [hnames, PendingNames.nameOf, if_neg (not_not.mpr rfl), if_neg (not_not.mpr rfl),
          hnamed.headerFilename husable, husable.sanitize]
      have hused : state.names.used = {} := by
        rw [hnames]
        rfl
      obtain ⟨arrived, hread, hbetween, hfile, hclaimed⟩ :=
        readMember_image hstate.good hstate.rest_eq hname hused hunused
      exact ⟨fuel, arrived, memberLoop_matched dec hread, hbetween, hfile, hclaimed,
        turns_behind image.member.entry.block_le hturns⟩
  | some long =>
      simp only [hlong] at hstate hturns hnamed
      rw [List.append_assoc] at hstate hturns
      have hentry := turns_behind long.block_le hturns
      -- The long name takes a turn of its own.
      obtain ⟨fuel, rfl⟩ := exists_turn hentry
      rw [memberLoop_skip dec (readMember_longName hnamed husable hstate)]
      let pending : WalkState := { state with
        file := state.file.advance long.bytes.length, pendingGnuLongName := image.member.name }
      have hok : pending.file.failed = false := hstate.good
      have hrest : pending.file.rest = image.member.entry.bytes ++ tail := by
        rw [FileStream.rest_advance, hstate.rest_eq, List.drop_left]
      have hname : pending.names.nameOf image.member.entry = image.member.name := by
        simp [pending, WalkState.names, PendingNames.nameOf, husable.nonempty, husable.sanitize]
      have hused : pending.names.used = {} := by
        simp [pending, WalkState.names, PendingNames.used, husable.nonempty, hstate.no_paxPath]
      obtain ⟨arrived, hread, hbetween, hfile, hclaimed⟩ :=
        readMember_image hok hrest hname hused hunused
      exact ⟨fuel, arrived, memberLoop_matched dec hread, hbetween, hfile, hclaimed,
        turns_behind image.member.entry.block_le hentry⟩

theorem length_tarArchive (members : List TarMember) :
    2 * tarBlockSize ≤ (tarArchive members).length := by
  rw [tarArchive, List.length_append, List.length_replicate]
  exact Nat.le_add_left _ _

theorem tarArchive_ne_nil (members : List TarMember) : tarArchive members ≠ [] := by
  rw [← List.length_pos_iff]
  exact Nat.lt_of_lt_of_le (by decide) (length_tarArchive members)

variable (allowUnknown doFlash usb) in
/-- From the front of some members the loop gets to the data of the first, and
behind the data it is in front of the others. -/
theorem WalkState.Ahead.next {image : MatchedMember pitTable}
    {images : List (MatchedMember pitTable)} (h : state.Ahead (image :: images) fuel) :
    ∃ fuel' arrived,
      memberLoop dec usb pitTable doFlash allowUnknown state.file.file.bytes.length fuel state =
        finishMember dec usb pitTable doFlash allowUnknown arrived.file.file.bytes.length fuel'
          image.walked arrived ∧
      arrived.Between
        (blocks image.member.entry.data ++ tarArchive (images.map (·.member))) ∧
      WalkState.Ahead { arrived with
        file := arrived.file.advance (blocks image.member.entry.data).length } images fuel' := by
  obtain ⟨hbetween, hdistinct, hunused, hturns⟩ := h
  rw [List.map_cons, tarArchive_cons] at hbetween hturns
  obtain ⟨hfresh, hdistinct⟩ := List.nodup_cons.mp hdistinct
  obtain ⟨fuel', arrived, hloop, harrived, hfile, hused, hturns'⟩ :=
    memberLoop_arrives dec hbetween (hunused image List.mem_cons_self) hturns
  refine ⟨fuel', arrived, by rw [hloop, hfile], harrived, ⟨harrived.good, ?_, harrived.no_longName,
    harrived.no_paxPath⟩, hdistinct, fun other hmem hmem' => ?_, hturns'⟩
  · rw [FileStream.rest_advance, harrived.rest_eq, List.drop_left]
  · rw [hused] at hmem'
    rcases List.mem_cons.mp hmem' with heq | hmem'
    · exact hfresh (List.mem_map.mpr ⟨other, hmem, heq⟩)
    · exact hunused other (List.mem_cons_of_mem _ hmem) hmem'

/-- The blocks at the end of an archive end the walk. -/
theorem memberLoop_zeros (hok : state.file.failed = false)
    (hrest : state.file.rest = List.replicate (2 * tarBlockSize) 0)
    (hturns : state.file.rest.length < tarBlockSize * fuel) :
    memberLoop dec usb pitTable doFlash allowUnknown state.file.file.bytes.length fuel state =
      pure .success := by
  obtain ⟨fuel, rfl⟩ := exists_turn hturns
  have hend : readMember state.file.file.bytes.length pitTable allowUnknown state =
      .stop .success := by
    have hlength := congrArg List.length hrest
    rw [FileStream.length_rest, List.length_replicate] at hlength
    have hblock : tarBlockSize = 512 := rfl
    apply readMember_zeros hok
    · omega
    · rw [hrest]
      exact List.take_replicate
  rw [memberLoop, hend]

theorem WalkState.Ahead.done (h : state.Ahead ([] : List (MatchedMember pitTable)) fuel) :
    memberLoop dec usb pitTable doFlash allowUnknown state.file.file.bytes.length fuel state =
      pure .success :=
  memberLoop_zeros dec h.between.good h.between.rest_eq (h.between.rest_eq ▸ h.turns)

theorem MatchedMember.walked_raw {image : MatchedMember pitTable}
    (h : ¬ EndsInLz4AnyCase image.member.name) : image.walked.isLz4 = false := by
  rw [← Bool.not_eq_true]
  exact fun hlz4 => h (isLz4Name_iff.mp hlz4)

/-- The packets of the members that are left, up to the first refusal. -/
theorem memberLoop_follows (hthor : usb.protocolMode = .thor)
    {images : List (MatchedMember pitTable)}
    (hraw : ∀ image ∈ images, ¬ EndsInLz4AnyCase image.member.name)
    (hstate : state.Ahead images fuel) (s : UInt32) :
    Exchanges
      (memberLoop dec usb pitTable true allowUnknown state.file.file.bytes.length fuel state)
      fun xs code => ∃ packets ok, Follows packets s xs ok ∧
        (ok = true → code = .success ∧ CarriesMembers images packets) ∧
        (ok = false → code = .protocol) := by
  induction images generalizing state fuel s with
  | nil =>
      rw [hstate.done]
      exact conducts_pure ⟨[], true, follows_nil, fun _ => ⟨rfl, [], rfl, .nil⟩, by simp⟩
  | cons image images ih =>
      obtain ⟨fuel', arrived, hloop, harrived, hnext⟩ := hstate.next allowUnknown true usb dec
      rw [hloop]
      refine conducts_bind (processMember_follows dec hthor
        (MatchedMember.walked_raw (hraw image List.mem_cons_self)) rfl image.member.size_lt harrived
        (tarArchive_ne_nil _) s) fun xs result hxs => ?_
      obtain ⟨script, ok, hfollows, hdone, hgave⟩ := hxs
      cases ok with
      | false =>
          rw [hgave rfl]
          exact conducts_pure ⟨script, false, by rwa [List.append_nil], by simp, fun _ => rfl⟩
      | true =>
          obtain ⟨rfl, hcarries⟩ := hdone rfl
          refine (ih (fun other hmem => hraw other (List.mem_cons_of_mem _ hmem)) hnext
            (after s xs)).mono fun ys code hys => ?_
          obtain ⟨packets, ok, hrest, hdone', hgave'⟩ := hys
          refine ⟨script ++ packets, ok, hfollows.append hrest, fun hok => ?_, hgave'⟩
          obtain ⟨hcode, scripts, rfl, hscripts⟩ := hdone' hok
          exact ⟨hcode, script :: scripts, rfl, .cons hcarries hscripts⟩

/-- A device that accepts everything gets all the members. -/
theorem memberLoop_accepts (hthor : usb.protocolMode = .thor)
    {images : List (MatchedMember pitTable)}
    (hraw : ∀ image ∈ images, ¬ EndsInLz4AnyCase image.member.name)
    (hstate : state.Ahead images fuel) :
    Accepts (memberLoop dec usb pitTable true allowUnknown state.file.file.bytes.length fuel state)
      fun _ code => code = .success := by
  induction images generalizing state fuel with
  | nil =>
      rw [hstate.done]
      exact admits_pure rfl
  | cons image images ih =>
      obtain ⟨fuel', arrived, hloop, harrived, hnext⟩ := hstate.next allowUnknown true usb dec
      rw [hloop]
      refine admits_bind (processMember_accepts dec hthor
        (MatchedMember.walked_raw (hraw image List.mem_cons_self)) rfl image.member.size_lt harrived
        (tarArchive_ne_nil _)) fun xs result hresult => ?_
      subst hresult
      exact ih (fun other hmem => hraw other (List.mem_cons_of_mem _ hmem)) hnext

end Walk

/-! ## Archives -/

section Archive

variable {host : Host} {tarPath : Bytes} {pitTable : PitTable} {usb : UsbDevice}

/-- An archive without an MD5 trailer is walked up to its end. -/
theorem processTarFile_plain {file : FileContent} (doFlash allowUnknown : Bool)
    (hplain : endsWithCaseInsensitive tarPath (ascii ".tar.md5") = false)
    (hfile : host.fs tarPath = some file) (hsize : tarBlockSize ≤ file.bytes.length) :
    processTarFile host tarPath usb pitTable doFlash allowUnknown =
      memberLoop host.lz4 usb pitTable doFlash allowUnknown file.bytes.length
        (memberFuel file.bytes.length) { file := FileStream.openFile file } := by
  have hinfo : detectTarMd5Info host.fs tarPath = .ok { contentEnd := file.bytes.length } := by
    unfold detectTarMd5Info
    simp only [hfile, hplain]
    rfl
  have hopen : openArchive host tarPath = .ok (FileStream.openFile file, file.bytes.length) := by
    have hlong : ¬ file.bytes.length < tarBlockSize := Nat.not_lt.mpr hsize
    unfold openArchive
    simp only [hinfo, verifyTarMd5, Bool.not_false, ↓reduceIte, hfile, Bool.false_eq_true, hlong,
      Bind.bind, Except.bind, Pure.pure, Except.pure]
  rw [processTarFile, hopen]

variable {images : List (MatchedMember pitTable)} {file : FileContent}

theorem lt_memberFuel (contentEnd : Nat) : contentEnd < tarBlockSize * memberFuel contentEnd := by
  unfold memberFuel tarBlockSize
  omega

/-- At the beginning of an archive. -/
theorem ahead_openFile (hbytes : file.bytes = tarArchive (images.map (·.member)))
    (hdistinct : (images.map (·.pitEntry.identifier)).Nodup) :
    WalkState.Ahead { file := FileStream.openFile file } images (memberFuel file.bytes.length) where
  between := ⟨rfl, hbytes, rfl, rfl⟩
  distinct := hdistinct
  unused := by simp
  turns := hbytes ▸ lt_memberFuel _

theorem processTarFile_archive (doFlash allowUnknown : Bool)
    (hplain : endsWithCaseInsensitive tarPath (ascii ".tar.md5") = false)
    (hfile : host.fs tarPath = some file)
    (hbytes : file.bytes = tarArchive (images.map (·.member))) :
    processTarFile host tarPath usb pitTable doFlash allowUnknown =
      memberLoop host.lz4 usb pitTable doFlash allowUnknown file.bytes.length
        (memberFuel file.bytes.length) { file := FileStream.openFile file } := by
  refine processTarFile_plain doFlash allowUnknown hplain hfile ?_
  have hlength := length_tarArchive (images.map (·.member))
  rw [hbytes]
  omega

/-- When a Thor device accepts everything, an archive of raw images is flashed
as it was packed. -/
theorem processTarFile_roundTrip (hthor : usb.protocolMode = .thor)
    (hplain : endsWithCaseInsensitive tarPath (ascii ".tar.md5") = false)
    (hfile : host.fs tarPath = some file) (hbytes : file.bytes = tarArchive (images.map (·.member)))
    (hraw : ∀ image ∈ images, ¬ EndsInLz4AnyCase image.member.name)
    (hdistinct : (images.map (·.pitEntry.identifier)).Nodup) (allowUnknown : Bool) (s : UInt32) :
    Exchanges (processTarFile host tarPath usb pitTable true allowUnknown) fun xs code =>
      AllAccepted s xs → code = .success ∧ CarriesMembers images (messages xs) := by
  rw [processTarFile_archive true allowUnknown hplain hfile hbytes]
  refine (memberLoop_follows host.lz4 hthor hraw (ahead_openFile hbytes hdistinct) s).mono
    fun xs code hxs hall => ?_
  obtain ⟨packets, ok, hfollows, hdone, -⟩ := hxs
  obtain rfl := hfollows.eq_true hall
  obtain ⟨hcode, hcarries⟩ := hdone rfl
  exact ⟨hcode, hfollows.completed.2 ▸ hcarries⟩

theorem processTarFile_accepts (hthor : usb.protocolMode = .thor)
    (hplain : endsWithCaseInsensitive tarPath (ascii ".tar.md5") = false)
    (hfile : host.fs tarPath = some file) (hbytes : file.bytes = tarArchive (images.map (·.member)))
    (hraw : ∀ image ∈ images, ¬ EndsInLz4AnyCase image.member.name)
    (hdistinct : (images.map (·.pitEntry.identifier)).Nodup) (allowUnknown : Bool) (s : UInt32) :
    Accepts (processTarFile host tarPath usb pitTable true allowUnknown) fun xs _ =>
      AllAccepted s xs := by
  have hahead := ahead_openFile hbytes hdistinct
  rw [processTarFile_archive true allowUnknown hplain hfile hbytes]
  refine ((memberLoop_accepts host.lz4 hthor hraw hahead).and
    (memberLoop_follows host.lz4 hthor hraw hahead s)).mono fun xs code hxs => ?_
  obtain ⟨rfl, packets, ok, hfollows, -, hgave⟩ := hxs
  cases ok with
  | false => simp at hgave
  | true => exact hfollows.completed.1

/-! ## Three ways to keep a name -/

/-- Three partitions. -/
def firmwarePit : PitTable :=
  pitOf [namedEntry 1 (ascii "BOOT") (ascii "boot.img"),
    namedEntry 2 (ascii "RECOVERY") (ascii "recovery.img"), namedEntry 3 (ascii "CACHE") []]

def bootMember : TarMember :=
  .whole (⟨by decide, by decide, by decide +kernel⟩ : UsableName (ascii "boot.img")) (by decide)
    (by decide : ([1, 2, 3] : Bytes).length < 8 ^ 11)

def recoveryMember : TarMember :=
  .split (⟨by decide, by decide, by decide +kernel⟩ :
      UsableName (ascii "images" ++ [47] ++ ascii "recovery.img"))
    (by decide) (by decide) (by decide) (by decide) (by decide +kernel)
    length_no_data

def cacheMember : TarMember :=
  .long (⟨by decide, by decide, by decide +kernel⟩ : UsableName (ascii "cache.img")) (by decide)
    (by decide : ([7] : Bytes).length < 8 ^ 11)

def firmwareImages : List (MatchedMember firmwarePit) :=
  [⟨bootMember, namedEntry 1 (ascii "BOOT") (ascii "boot.img"), by decide +kernel⟩,
    ⟨recoveryMember, namedEntry 2 (ascii "RECOVERY") (ascii "recovery.img"), by decide +kernel⟩,
    ⟨cacheMember, namedEntry 3 (ascii "CACHE") [], by decide +kernel⟩]

/-- A host with one archive. -/
def archiveHost (file : FileContent) : Host where
  fs path := if path = ascii "firmware.tar" then some file else none
  md5 _ := List.Vector.replicate 16 0
  lz4 := storedFrames

theorem archiveHost_fs (file : FileContent) :
    (archiveHost file).fs (ascii "firmware.tar") = some file := by
  simp [archiveHost]

def firmwareArchive : FileContent :=
  ⟨tarArchive (firmwareImages.map (·.member)), by decide +kernel⟩

/-- An archive with the single image `boot.img`. -/
def bootArchive : FileContent := ⟨tarArchive [bootMember], by decide +kernel⟩

/-- An archive with the single LZ4 image `boot.img.lz4`. -/
def packedArchive : FileContent :=
  ⟨tarArchive [.whole
    (⟨by decide, by decide, by decide +kernel⟩ : UsableName (ascii "boot.img.lz4")) (by decide)
    (by decide : storedFrame.bytes.length < 8 ^ 11)], by decide +kernel⟩

theorem firmwareImages_raw : ∀ image ∈ firmwareImages, ¬ EndsInLz4AnyCase image.member.name := by
  simp only [← isLz4Name_iff]
  decide +kernel

/-- An archive with a name of each kind, and what the device receives. -/
theorem processTarFile_roundTrip_firmware : ∃ xs : List Exchange,
    (processTarFile (archiveHost firmwareArchive) (ascii "firmware.tar") {} firmwarePit true
      false).Executes (xs.flatMap Exchange.events) .success ∧
      CarriesMembers firmwareImages (messages xs) := by
  have hplain : endsWithCaseInsensitive (ascii "firmware.tar") (ascii ".tar.md5") = false := by decide
  have hbytes : firmwareArchive.bytes = tarArchive (firmwareImages.map (·.member)) := rfl
  have hdistinct : (firmwareImages.map (·.pitEntry.identifier)).Nodup := by decide +kernel
  have hthor : ({} : UsbDevice).protocolMode = .thor := rfl
  have hfile := archiveHost_fs firmwareArchive
  generalize archiveHost firmwareArchive = host at hfile ⊢
  obtain ⟨xs, code, hexec, hall⟩ :=
    processTarFile_accepts hthor hplain hfile hbytes firmwareImages_raw hdistinct false 0
  obtain ⟨ys, hys, hpost⟩ := processTarFile_roundTrip hthor hplain hfile hbytes firmwareImages_raw
    hdistinct false 0 _ code hexec
  obtain rfl := exchanges_injective hys
  obtain ⟨rfl, hcarries⟩ := hpost hall
  exact ⟨xs, hexec, hcarries⟩

/-! ## Names in capital letters -/

/-- A raw image of one byte whose name ends in `.LZ4`. -/
def capitalMember : TarMember :=
  .whole (⟨by decide, by decide, by decide +kernel⟩ : UsableName (ascii "boot.LZ4")) (by decide)
    (by decide : ([1] : Bytes).length < 8 ^ 11)

def capitalPit : PitTable := pitOf [namedEntry 1 (ascii "BOOT") (ascii "boot.lz4")]

def capitalImage : MatchedMember capitalPit :=
  ⟨capitalMember, namedEntry 1 (ascii "BOOT") (ascii "boot.lz4"), by decide +kernel⟩

def capitalArchive : FileContent :=
  ⟨tarArchive ([capitalImage].map (·.member)), by decide +kernel⟩

/-- One byte is no LZ4 header. -/
theorem lz4Plan_short (file : FileStream) : lz4Plan storedFrames file 1 = none := by
  have hheader : storedFrames.getFrameInfo storedMachine.start (file.read 1).1 = none :=
    if_pos (.inl (Nat.lt_of_le_of_lt (file.length_read_le 1) (by decide)))
  unfold lz4Plan
  cases htell : file.tellg with
  | none => rfl
  | some pos =>
      change (if (file.read 1).1.length ≠ 1 then none else
        (storedFrames.getFrameInfo storedMachine.start (file.read 1).1).bind _) = none
      rw [hheader, Option.bind_none, ite_self]

/-- An archive that starts with a file of one byte with an LZ4 name. -/
theorem processTarFile_lz4 {image : MatchedMember pitTable}
    (hname : EndsInLz4AnyCase image.member.name) (hdata : image.member.entry.data.length = 1)
    (hthor : usb.protocolMode = .thor) (hlz4 : host.lz4 = storedFrames)
    (hplain : endsWithCaseInsensitive tarPath (ascii ".tar.md5") = false)
    (hfile : host.fs tarPath = some file)
    (hbytes : file.bytes = tarArchive ((image :: images).map (·.member)))
    (hdistinct : ((image :: images).map (·.pitEntry.identifier)).Nodup) (allowUnknown : Bool) :
    processTarFile host tarPath usb pitTable true allowUnknown = pure .protocol := by
  rw [processTarFile_archive true allowUnknown hplain hfile hbytes]
  obtain ⟨fuel, arrived, hloop, -⟩ :=
    (ahead_openFile hbytes hdistinct).next allowUnknown true usb host.lz4
  have htransfer : transferMember host.lz4 usb true image.walked arrived.file =
      pure (.error .protocol) := by
    have hlz4Name : image.walked.isLz4 = true := isLz4Name_iff.mpr hname
    have hsize : image.walked.dataSize = 1 := hdata
    unfold transferMember
    rw [if_pos hlz4Name, if_neg (by simp [UsbDevice.isOdinLegacy, hthor]), hlz4, hsize,
      processLz4Streaming_unplanned _ _ _ _ _ _ (lz4Plan_short _)]
    rfl
  refine hloop.trans ?_
  rw [finishMember, processMember, htransfer]
  rfl

/-- The extension is compared without regard to case: an archive whose only name
does not end in `.lz4` is rejected by the LZ4 reader, though all is accepted. -/
theorem capitalLz4_rejected :
    ¬ ∀ (host : Host) (tarPath : Bytes) (pitTable : PitTable) (usb : UsbDevice)
      (images : List (MatchedMember pitTable)) (file : FileContent), usb.protocolMode = .thor →
      endsWithCaseInsensitive tarPath (ascii ".tar.md5") = false → host.fs tarPath = some file →
      file.bytes = tarArchive (images.map (·.member)) →
      (∀ image ∈ images, ¬ EndsInLz4 image.member.name) →
      (images.map (·.pitEntry.identifier)).Nodup → ∀ (allowUnknown : Bool) (s : UInt32),
      Exchanges (processTarFile host tarPath usb pitTable true allowUnknown) fun xs code =>
        AllAccepted s xs → code = .success ∧ CarriesMembers images (messages xs) := by
  intro h
  have hplain : endsWithCaseInsensitive (ascii "firmware.tar") (ascii ".tar.md5") = false := by decide
  have hname : ∀ image ∈ [capitalImage], ¬ EndsInLz4 image.member.name := by
    decide +kernel
  have hdistinct : ([capitalImage].map (·.pitEntry.identifier)).Nodup := List.nodup_singleton _
  have hlz4 : EndsInLz4AnyCase capitalImage.member.name :=
    isLz4Name_iff.mp (by decide +kernel)
  have hbytes : capitalArchive.bytes = tarArchive ([capitalImage].map (·.member)) := rfl
  have hthor : ({} : UsbDevice).protocolMode = .thor := rfl
  have hfile := archiveHost_fs capitalArchive
  have hdecoder : (archiveHost capitalArchive).lz4 = storedFrames := rfl
  generalize archiveHost capitalArchive = host at hfile hdecoder
  have hrun := processTarFile_lz4 hlz4 (by decide +kernel) hthor hdecoder hplain hfile hbytes
    hdistinct false
  obtain ⟨xs, hxs, hpost⟩ := h host _ _ _ _ _ hthor hplain hfile hbytes hname hdistinct false 0 []
    .protocol (by rw [hrun]; exact ⟨rfl, rfl⟩)
  cases xs with
  | nil => exact absurd (hpost trivial).1 (by decide)
  | cons x rest => simp [Exchange.events] at hxs

end Archive

end Odin4
