import Odin4.Archive.FlashDialogue
import Odin4.Archive.Visits
import Odin4.Usb.Receiving

/-!
# What an archive commits

An archive stands for a list of images: the data of its members, decoded where
they are compressed. Flashing an archive has a device commit these images in their
order, up to the point where the flashing ends. What is needed of the device is
said once for both protocols.
-/

namespace Odin4

open Interaction Program Dialogue

/-! ## Images -/

/-- What the next `size` bytes of a file are decoded to. -/
def lz4Image (dec : Lz4Decoder) (file : FileStream) (size : Nat) : Bytes :=
  match lz4Plan dec file size with
  | none => []
  | some plan => (lz4DecodePass dec size plan).outs.flatten

/-- The image that the data of a member stand for. -/
def memberImage (dec : Lz4Decoder) (member : Member) (file : FileStream) : Bytes :=
  if member.isLz4 then lz4Image dec file member.dataSize else file.rest.take member.dataSize

section Walk

variable (pitTable : PitTable) (allowUnknown : Bool)

/-- The members from `state` on, each with the file at its data, up to what ends the
walk. -/
def walkMembers (contentEnd : Nat) : (fuel : Nat) → WalkState → List (Member × FileStream)
  | 0, _ => []
  | fuel + 1, state =>
      match readMember contentEnd pitTable allowUnknown state with
      | .stop _ => []
      | .skip next => walkMembers contentEnd fuel next
      | .matched member next =>
          (member, next.file) ::
            walkMembers contentEnd fuel
              { next with file := next.file.advance (roundUp512 member.dataSize) }

end Walk

def archiveMembers (host : Host) (pitTable : PitTable) (allowUnknown : Bool) (tarPath : Bytes) :
    List (Member × FileStream) :=
  match openArchive host tarPath with
  | .error _ => []
  | .ok (file, contentEnd) =>
      walkMembers pitTable allowUnknown contentEnd (memberFuel contentEnd) { file }

/-! ## Receivers -/

/-- The commands of a protocol. -/
def ProtocolMode.IsCommand : ProtocolMode → Packet → Prop
  | .thor, packet => ∃ command, packet = .thor command
  | .odinLegacy, packet => ∃ cmd subcmd payload, packet = .odin cmd subcmd payload

/-- A packet that concerns no image. -/
def Packet.IsIdle (mode : ProtocolMode) (packet : Packet) : Prop :=
  (packet = .preamble ∨ mode.IsCommand packet) ∧ packet.isFlashing = false

/-- A device that takes the packets of one protocol and commits images. -/
structure Receiver (mode : ProtocolMode) (State Image : Type) where
  receive : State → Packet → Option State
  committed : State → List Image
  /-- The state between two images, behind those that have been committed. -/
  idle : List Image → State
  /-- What the data of a member are to become. -/
  imageOf : PitEntry → Bytes → Image
  committed_idle : ∀ images, committed (idle images) = images
  receive_idle : ∀ images packet, packet.IsIdle mode →
    receive (idle images) packet = some (idle images)
  /-- The end of the session drops what is not complete. -/
  receive_end : ∀ state packet, mode.IsCommand packet → packet.isEndSession = true →
    receive state packet = some (idle (committed state))
  receive_grows : ∀ state packet next, receive state packet = some next →
    committed state <+: committed next

namespace Receiver

variable {mode : ProtocolMode} {State Image α : Type} (R : Receiver mode State Image)

/-- The images of some members. -/
def images (dec : Lz4Decoder) (members : List (Member × FileStream)) : List Image :=
  members.map fun found => R.imageOf found.1.pitEntry (memberImage dec found.1 found.2)

theorem listen_idle {packets : List Packet} (h : ∀ packet ∈ packets, packet.IsIdle mode)
    (images : List Image) : listen R.receive (R.idle images) packets = some (R.idle images) :=
  listen_fixed fun packet hmem => R.receive_idle images packet (h packet hmem)

/-- At any point less has been committed than in the end. -/
theorem listen_initial {state last : State} {first packets : List Packet}
    (hinit : first <+: packets) (h : listen R.receive state packets = some last) :
    ∃ next, listen R.receive state first = some next ∧ R.committed next <+: R.committed last := by
  obtain ⟨next, rest, hnext, rfl, hrest⟩ := Interaction.listen_initial hinit h
  refine ⟨next, hnext, ?_⟩
  exact listen_relates (fun before behind => R.committed before <+: R.committed behind)
    (fun _ => List.prefix_rfl) (fun _ _ _ hfirst hsecond => hfirst.trans hsecond)
    (fun packet _ before behind => R.receive_grows before packet behind) hrest

/-- A transfer commits the image of its member; one that fails may commit nothing. The
device may still have refused what ends a complete transfer. -/
def Transfers (dec : Lz4Decoder) : Prop :=
  ∀ usb : UsbDevice, usb.protocolMode = mode → usb.Begun → ∀ (member : Member) (state : WalkState),
    member.dataSize < 2 ^ 63 → ∀ committed,
    Takes R.receive (R.idle committed) (processMember dec usb true member state)
      fun result receiver =>
        (R.committed receiver = committed ∧ ∃ code, result = .error code) ∨
        receiver = R.idle (committed ++ [R.imageOf member.pitEntry
          (memberImage dec member state.file)])

/-- Wherever the receiver stands between two images, the program has it commit an
initial part of these, and all of them if it succeeds. -/
def Commits (program : Usb ExitCode) (images : List Image) : Prop :=
  ∀ committed, Takes R.receive (R.idle committed) program fun code receiver =>
    (∃ written, R.committed receiver = committed ++ written ∧ written <+: images) ∧
      (code = .success → receiver = R.idle (committed ++ images))

variable {R}

theorem commits_pure {code : ExitCode} {images : List Image} (h : code = .success → images = []) :
    R.Commits (pure code) images := by
  refine fun committed => hears_pure ⟨⟨[], ?_, List.nil_prefix⟩, fun hcode => ?_⟩
  · rw [R.committed_idle, List.append_nil]
  · rw [h hcode, List.append_nil]

/-- Programs one after the other, up to the first failure. -/
theorem Commits.andThen {first second : Usb ExitCode} {images more : List Image}
    (hfirst : R.Commits first images) (hsecond : R.Commits second more) :
    R.Commits (first >>= fun rc => if rc ≠ .success then pure rc else second) (images ++ more) := by
  refine fun committed => hears_bind (hfirst committed) fun rc receiver hreceived => ?_
  obtain ⟨⟨written, hwritten, hinit⟩, hdone⟩ := hreceived
  refine hears_ite (fun hfailed => hears_pure ⟨⟨written, hwritten, ?_⟩, ?_⟩) fun hgood => ?_
  · exact hinit.trans (List.prefix_append _ _)
  · exact fun hsuccess => absurd hsuccess hfailed
  · obtain rfl := hdone (not_not.mp hgood)
    refine (hsecond _).mono fun code receiver hreceived => ?_
    obtain ⟨⟨later, hlater, hlaterInit⟩, hlaterDone⟩ := hreceived
    refine ⟨⟨images ++ later, by rw [hlater, List.append_assoc], ?_⟩, fun hsuccess => ?_⟩
    · exact (List.prefix_append_right_inj _).mpr hlaterInit
    · rw [hlaterDone hsuccess, List.append_assoc]

/-- The image of a member in front of others. -/
theorem Commits.behind {program : Usb ExitCode} {image : Image} {images : List Image}
    (h : R.Commits program images) (committed : List Image) :
    Takes R.receive (R.idle (committed ++ [image])) program fun code receiver =>
      (∃ written, R.committed receiver = committed ++ written ∧ written <+: image :: images) ∧
        (code = .success → receiver = R.idle (committed ++ image :: images)) := by
  refine (h _).mono fun code receiver hreceived => ?_
  obtain ⟨⟨written, hwritten, hinit⟩, hdone⟩ := hreceived
  refine ⟨⟨image :: written, ?_, List.cons_prefix_cons.mpr ⟨rfl, hinit⟩⟩, fun hsuccess => ?_⟩
  · rw [hwritten, List.append_assoc]
    rfl
  · rw [hdone hsuccess, List.append_assoc]
    rfl

/-! ## Archives -/

section Archives

variable {dec : Lz4Decoder} {usb : UsbDevice} {pitTable : PitTable} {allowUnknown : Bool}

/-- A member, and what follows it where it has been dealt with. -/
theorem Transfers.commits (htransfers : R.Transfers dec) (hmode : usb.protocolMode = mode)
    (hbegun : usb.Begun) {member : Member} {state : WalkState} (hok : state.file.failed = false)
    (hsize : member.dataSize < 2 ^ 63) {rest : Except ExitCode WalkState → Usb ExitCode}
    {more : List Image} (herror : ∀ code, rest (.error code) = pure code)
    (hmore : R.Commits (rest (.ok
      { state with file := state.file.advance (roundUp512 member.dataSize) })) more) :
    R.Commits (processMember dec usb true member state >>= rest)
      (R.imageOf member.pitEntry (memberImage dec member state.file) :: more) := by
  intro committed
  refine hears_bind (((htransfers usb hmode hbegun member state hsize committed).and_returns
    (processMember_code dec usb true member state)).and_returns
    (processMember_advance hbegun hok hsize true)) fun result receiver hreceived => ?_
  obtain ⟨⟨hcases, hcode⟩, hadvance⟩ := hreceived
  cases result with
  | error code =>
      have hfailed : code ≠ .success := fun h => hcode (congrArg _ h)
      rw [herror]
      rcases hcases with ⟨hcommitted, -⟩ | rfl
      · refine hears_pure ⟨⟨[], ?_, List.nil_prefix⟩, fun hsuccess => absurd hsuccess hfailed⟩
        rw [hcommitted, List.append_nil]
      · exact (commits_pure fun hsuccess => absurd hsuccess hfailed).behind committed
  | ok next =>
      obtain ⟨-, rfl⟩ := hadvance next rfl
      rcases hcases with ⟨-, code, hresult⟩ | rfl
      · cases hresult
      · exact hmore.behind committed

/-- By induction on the entries, each of which adds its image if it is a member. -/
theorem memberLoop_commits (htransfers : R.Transfers dec) (hmode : usb.protocolMode = mode)
    (hbegun : usb.Begun) {contentEnd : Nat} (hcontent : contentEnd < 2 ^ 63) (fuel : Nat)
    (state : WalkState) :
    R.Commits (memberLoop dec usb pitTable true allowUnknown contentEnd fuel state)
      (R.images dec (walkMembers pitTable allowUnknown contentEnd fuel state)) := by
  induction fuel generalizing state with
  | zero => exact commits_pure (by simp)
  | succ fuel ih =>
      unfold memberLoop walkMembers
      cases hread : readMember contentEnd pitTable allowUnknown state with
      | stop code => exact commits_pure fun _ => rfl
      | skip next => exact ih next
      | matched member next =>
          obtain ⟨hok, hwithin⟩ := readMember_matched hread
          exact htransfers.commits hmode hbegun hok (Nat.lt_of_le_of_lt hwithin hcontent)
            (fun _ => rfl) (ih _)

theorem processTarFile_commits {host : Host} (htransfers : R.Transfers host.lz4)
    (hmode : usb.protocolMode = mode) (hbegun : usb.Begun) (tarPath : Bytes) :
    R.Commits (processTarFile host tarPath usb pitTable true allowUnknown)
      (R.images host.lz4 (archiveMembers host pitTable allowUnknown tarPath)) := by
  unfold processTarFile archiveMembers
  cases hopen : openArchive host tarPath with
  | error code => exact commits_pure fun _ => rfl
  | ok opened =>
      obtain ⟨file, contentEnd⟩ := opened
      exact memberLoop_commits htransfers hmode hbegun (openArchive_contentEnd hopen) _ _

end Archives

end Receiver

end Odin4
