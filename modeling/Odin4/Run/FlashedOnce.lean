import Odin4.Run.Atomicity

/-!
# Partitions flashed once

Each archive keeps a ledger of the partition identifiers that its members have
claimed. A member that claims an identifier of the ledger ends the run, so one
archive ends the transfer of a partition at most once. The ledger does not
outlive its archive.
-/

namespace Odin4

open Interaction Program Dialogue

/-! ## The partitions whose transfers are ended -/

def Packet.ended? : Packet → Option UInt32
  | .thor (.endFileTransfer partitionId) => some partitionId
  | _ => none

/-- The identifiers in the END_FILE_TRANSFER packets, in order. -/
def endedPartitions (packets : List Packet) : List UInt32 := packets.filterMap Packet.ended?

@[simp] theorem endedPartitions_nil : endedPartitions [] = [] := rfl

@[simp] theorem endedPartitions_append (first second : List Packet) :
    endedPartitions (first ++ second) = endedPartitions first ++ endedPartitions second :=
  List.filterMap_append

theorem endedPartitions_eq_nil {packets : List Packet}
    (h : ∀ packet ∈ packets, packet.ended? = none) : endedPartitions packets = [] :=
  List.filterMap_eq_nil_iff.mpr h

theorem Packet.ended?_of_not_isFlashing {packet : Packet} (h : packet.isFlashing = false) :
    packet.ended? = none := by
  cases packet with
  | thor packet =>
      cases packet with
      | endFileTransfer partitionId => cases h
      | _ => rfl
  | _ => rfl

/-- Where nothing is flashed no transfer is ended. -/
theorem Quiet.endedPartitions {α : Type} {program : Usb α} (h : Quiet program) {trace : UsbTrace}
    {a : α} (hexec : program.Executes trace a) : endedPartitions (sent trace) = [] := by
  apply endedPartitions_eq_nil
  intro packet hpacket
  apply Packet.ended?_of_not_isFlashing
  simpa using List.any_eq_false.mp (h trace a hexec) packet hpacket

/-! ## Members -/

/-- Up to its last part a transfer is not ended. -/
theorem over_transferWords (mode : ProtocolMode) :
    Over (fun packet => packet.ended? = none) mode.transferWords := by
  have hwords : ∀ kind : Packet → Prop, (∀ packet, kind packet → packet.ended? = none) →
      Over (fun packet => packet.ended? = none) (packetWords kind) :=
    fun _ h => over_packetWords h
  cases mode with
  | thor =>
      apply Over.mul
      · apply hwords
        rintro _ ⟨size, rfl⟩
        rfl
      · exact Over.star (over_partWords (fun _ _ => rfl) fun _ => rfl)
  | odinLegacy =>
      apply Over.mul
      · apply Over.mul
        · apply hwords
          rintro _ rfl
          rfl
        · refine Over.star (((hwords _ ?_).mul (Over.star (hwords _ ?_))).mul (hwords _ ?_))
          · rintro _ ⟨size, rfl⟩
            rfl
          · rintro _ ⟨bytes, rfl⟩
            rfl
          · rintro _ ⟨payload, rfl⟩
            rfl
      · apply hwords
        rintro _ rfl
        rfl

section Members

variable {dec : Lz4Decoder} {usb : UsbDevice} {doFlash : Bool} {member : Member}
variable {trace : UsbTrace}

theorem transferMember_ended {file : FileStream} {result : Except ExitCode FileStream}
    (h : (transferMember dec usb doFlash member file).Executes trace result) :
    endedPartitions (sent trace) = [] := by
  cases doFlash with
  | false =>
      rw [transferMember_check] at h
      obtain ⟨rfl, -⟩ := h
      rfl
  | true =>
      obtain ⟨xs, rfl, hturns⟩ := transferMember_flash dec usb member file 0 trace result h
      rw [sent_exchanges]
      apply endedPartitions_eq_nil
      intro packet hpacket
      obtain ⟨x, hx, rfl⟩ := List.mem_map.mp hpacket
      exact orderly_over hturns (over_transferWords _) x hx

theorem endFileTransfer_ended {partitionId : UInt32} {ok : Bool}
    (h : (endFileTransfer usb partitionId).Executes trace ok) :
    (endedPartitions (sent trace)).Sublist [partitionId] := by
  unfold endFileTransfer at h
  split at h
  next =>
    obtain ⟨rfl, -⟩ := h
    exact List.nil_sublist _
  next =>
    obtain ⟨xs, rfl, x, rfl, hpacket, -⟩ := thorExchange_single rfl 0 trace ok h
    rw [sent_exchanges]
    change ([x.packet].filterMap Packet.ended?).Sublist _
    rw [hpacket]
    exact List.Sublist.refl _

/-- A member ends no transfer but its own, and leaves the ledger alone. -/
theorem processMember_ended {state : WalkState} {result : Except ExitCode WalkState}
    (h : (processMember dec usb doFlash member state).Executes trace result) :
    (endedPartitions (sent trace)).Sublist [member.pitEntry.identifier] ∧
      ∀ next, result = .ok next → next.usedPartitionIds = state.usedPartitionIds := by
  obtain ⟨first, transferred, second, rfl, hfirst, hsecond⟩ := executes_bind.mp h
  rw [sent_append, endedPartitions_append, transferMember_ended hfirst, List.nil_append]
  cases transferred with
  | error code =>
      obtain ⟨rfl, rfl⟩ := hsecond
      exact ⟨List.nil_sublist _, by simp⟩
  | ok file =>
      dsimp only at hsecond
      split at hsecond
      next =>
        obtain ⟨rfl, rfl⟩ := hsecond
        exact ⟨List.nil_sublist _, by simp⟩
      split at hsecond
      next =>
        obtain ⟨ending, ok, last, rfl, hending, hlast⟩ := executes_bind.mp hsecond
        have hended := endFileTransfer_ended hending
        split at hlast
        next =>
          obtain ⟨rfl, rfl⟩ := hlast
          rw [List.append_nil]
          exact ⟨hended, by simp⟩
        next =>
          obtain ⟨rfl, rfl⟩ := hlast
          rw [List.append_nil]
          refine ⟨hended, fun next hnext => ?_⟩
          obtain rfl := Except.ok.inj hnext
          rfl
      next =>
        obtain ⟨rfl, rfl⟩ := hsecond
        refine ⟨List.nil_sublist _, fun next hnext => ?_⟩
        obtain rfl := Except.ok.inj hnext
        rfl

end Members

/-! ## The ledger of an archive -/

section Ledger

variable {contentEnd : Nat} {pitTable : PitTable} {allowUnknown : Bool} {state next : WalkState}

@[simp] theorem takeFilename_used (state : WalkState) (header : Bytes) :
    (takeFilename state header).2.usedPartitionIds = state.usedPartitionIds := by
  unfold takeFilename
  split
  · rfl
  split <;> rfl

/-- The name of an entry depends on the pending names and the header only. -/
theorem takeFilename_name (state : WalkState) (file : FileStream) (header : Bytes) :
    (takeFilename { state with file } header).1 = (takeFilename state header).1 := by
  unfold takeFilename
  dsimp only
  split
  · rfl
  split <;> rfl

/-- What reading an entry does to the ledger: a member enters its identifier, which is new. -/
def MemberStep.Enters (used : List UInt32) : MemberStep → Prop
  | .stop _ => True
  | .skip next => next.usedPartitionIds = used
  | .matched member next =>
      member.pitEntry.identifier ∉ used ∧
        next.usedPartitionIds = member.pitEntry.identifier :: used

theorem skipTo_enters (state : WalkState) (file? : Option FileStream) :
    (skipTo state file?).Enters state.usedPartitionIds := by
  cases file? with
  | none => trivial
  | some file => rfl

theorem regularEntry_enters (state : WalkState) (filename : Bytes) (dataSize : Nat) :
    (regularEntry pitTable allowUnknown state filename dataSize).Enters
      state.usedPartitionIds := by
  unfold regularEntry
  split
  next => trivial
  split
  next =>
    split
    next => exact skipTo_enters _ _
    next => trivial
  next pitEntry _ =>
    split
    next => trivial
    next hnew => exact ⟨by simpa using hnew, rfl⟩

theorem classifyEntry_enters (state : WalkState) (typeflag : UInt8) (filename : Bytes)
    (dataSize : Nat) :
    (classifyEntry pitTable allowUnknown state typeflag filename dataSize).Enters
      state.usedPartitionIds := by
  unfold classifyEntry
  split
  next =>
    split
    next => trivial
    next => rfl
  split
  next =>
    split
    next => trivial
    next => rfl
  split
  next => exact skipTo_enters _ _
  next => exact regularEntry_enters _ _ _

theorem readMember_enters (contentEnd : Nat) (state : WalkState) :
    (readMember contentEnd pitTable allowUnknown state).Enters state.usedPartitionIds := by
  rw [readMember_eq]
  cases readHeader contentEnd state.file with
  | absent code => trivial
  | refused offset header code => trivial
  | accepted offset header dataSize =>
      have hused := takeFilename_used
        { state with file := state.file.advance tarBlockSize } header
      dsimp only [enterEntry] at hused ⊢
      generalize takeFilename { state with file := state.file.advance tarBlockSize } header = named
        at hused ⊢
      have hstate : named.2.usedPartitionIds = state.usedPartitionIds := hused
      rw [← hstate]
      exact classifyEntry_enters named.2 _ _ _

/-- The next entry is a regular file that resolves to this PIT entry. -/
def NextMember (contentEnd : Nat) (pitTable : PitTable) (state : WalkState)
    (pitEntry : PitEntry) : Prop :=
  ∃ offset header dataSize, readHeader contentEnd state.file = .accepted offset header dataSize ∧
    (header.getD 156 0 = 0 ∨ header.getD 156 0 = 48) ∧ (takeFilename state header).1 ≠ [] ∧
      findPitEntry pitTable (takeFilename state header).1 = some pitEntry

/-- A member that claims an identifier of the ledger ends the walk. -/
theorem readMember_duplicate {pitEntry : PitEntry}
    (hnext : NextMember contentEnd pitTable state pitEntry)
    (hused : pitEntry.identifier ∈ state.usedPartitionIds) :
    readMember contentEnd pitTable allowUnknown state = .stop .pit := by
  obtain ⟨offset, header, dataSize, hheader, hregular, hname, hfind⟩ := hnext
  have hfilename := takeFilename_name state (state.file.advance tarBlockSize) header
  have hledger := takeFilename_used { state with file := state.file.advance tarBlockSize } header
  have hregular' : header.getD 156 0 ≠ 76 ∧ ¬ (header.getD 156 0 = 120 ∨ header.getD 156 0 = 103) := by
    rcases hregular with h | h <;> rw [h] <;> decide
  rw [readMember_eq, hheader]
  dsimp only [enterEntry] at hfilename hledger ⊢
  rw [classifyEntry, if_neg hregular'.1, if_neg hregular'.2, if_neg (not_not.mpr hregular),
    regularEntry, hfilename, if_neg (by simpa using hname), hfind]
  dsimp only
  rw [hledger, if_pos (by simpa using hused)]

end Ledger

/-! ## One archive -/

section Archive

variable {dec : Lz4Decoder} {usb : UsbDevice} {pitTable : PitTable} {doFlash allowUnknown : Bool}
variable {contentEnd : Nat} {trace : UsbTrace} {code : ExitCode}

/-- The loop ends transfers of distinct partitions, none of them in the ledger. -/
theorem memberLoop_ended {fuel : Nat} {state : WalkState}
    (h : (memberLoop dec usb pitTable doFlash allowUnknown contentEnd fuel state).Executes
      trace code) :
    (endedPartitions (sent trace)).Nodup ∧
      ∀ id ∈ endedPartitions (sent trace), id ∉ state.usedPartitionIds := by
  induction fuel generalizing state trace with
  | zero =>
      obtain ⟨rfl, -⟩ := h
      simp
  | succ fuel ih =>
      rw [memberLoop] at h
      have henters : (readMember contentEnd pitTable allowUnknown state).Enters
          state.usedPartitionIds := readMember_enters contentEnd state
      cases hread : readMember contentEnd pitTable allowUnknown state with
      | stop code' =>
          rw [hread] at h
          obtain ⟨rfl, -⟩ := h
          simp
      | skip next =>
          rw [hread] at h henters
          have hused : next.usedPartitionIds = state.usedPartitionIds := henters
          rw [← hused]
          exact ih h
      | matched member next =>
          rw [hread] at h henters
          obtain ⟨hnew, hnext⟩ := henters
          obtain ⟨first, result, second, rfl, hfirst, hsecond⟩ := executes_bind.mp h
          obtain ⟨hended, hkept⟩ := processMember_ended hfirst
          rw [sent_append, endedPartitions_append]
          have hown : ∀ id ∈ endedPartitions (sent first), id = member.pitEntry.identifier :=
            fun id hid => List.mem_singleton.mp (hended.subset hid)
          have hfirstNodup : (endedPartitions (sent first)).Nodup :=
            hended.nodup (List.nodup_singleton _)
          cases result with
          | error code' =>
              obtain ⟨rfl, -⟩ := hsecond
              rw [sent_nil, endedPartitions_nil, List.append_nil]
              refine ⟨hfirstNodup, fun id hid => ?_⟩
              rw [hown id hid]
              exact hnew
          | ok last =>
              obtain ⟨hnodup, hfresh⟩ := ih hsecond
              rw [hkept last rfl, hnext] at hfresh
              -- The identifier of the member is marked as used before the loop goes on.
              refine ⟨hfirstNodup.append hnodup ?_, fun id hid => ?_⟩
              · intro id hid hlater
                rw [hown id hid] at hlater
                exact hfresh _ hlater List.mem_cons_self
              · rcases List.mem_append.mp hid with hid | hid
                · rw [hown id hid]
                  exact hnew
                · exact fun hold => hfresh id hid (List.mem_cons_of_mem _ hold)

/-- One archive ends the transfer of a partition at most once. -/
theorem processTarFile_ended {host : Host} {tarPath : Bytes}
    (h : (processTarFile host tarPath usb pitTable doFlash allowUnknown).Executes trace code) :
    (endedPartitions (sent trace)).Nodup := by
  unfold processTarFile at h
  cases hopen : openArchive host tarPath with
  | error code' =>
      rw [hopen] at h
      obtain ⟨rfl, -⟩ := h
      simp
  | ok opened =>
      rw [hopen] at h
      exact (memberLoop_ended h).1

end Archive

/-! ## Coming to an entry -/

section Coming

variable {dec : Lz4Decoder} {usb : UsbDevice} {pitTable : PitTable} {doFlash allowUnknown : Bool}
variable {contentEnd : Nat} {state last : WalkState} {trace : UsbTrace}

/-- The ledger holds what it held before and the partitions ended since. -/
theorem Comes.ledger (h : Comes dec usb pitTable doFlash allowUnknown contentEnd state trace last) :
    state.usedPartitionIds ⊆ last.usedPartitionIds ∧
      endedPartitions (sent trace) ⊆ last.usedPartitionIds := by
  induction h with
  | here => exact ⟨fun _ hid => hid, by simp⟩
  | @skip state next last trace hread _ ih =>
      have henters : (readMember contentEnd pitTable allowUnknown state).Enters
          state.usedPartitionIds := readMember_enters contentEnd state
      rw [hread] at henters
      have hused : next.usedPartitionIds = state.usedPartitionIds := henters
      rw [← hused]
      exact ih
  | @matched state next done last member first rest hread hprocess _ ih =>
      have henters : (readMember contentEnd pitTable allowUnknown state).Enters
          state.usedPartitionIds := readMember_enters contentEnd state
      rw [hread] at henters
      obtain ⟨-, hnext⟩ := henters
      obtain ⟨hended, hkept⟩ := processMember_ended hprocess
      have hdone := hkept done rfl
      rw [hnext] at hdone
      rw [hdone] at ih
      refine ⟨fun id hid => ih.1 (List.mem_cons_of_mem _ hid), fun id hid => ?_⟩
      rw [sent_append, endedPartitions_append] at hid
      rcases List.mem_append.mp hid with hid | hid
      · rw [List.mem_singleton.mp (hended.subset hid)]
        exact ih.1 List.mem_cons_self
      · exact ih.2 hid

/-- The loop goes on from the state that it comes to. -/
theorem Comes.executes (hbegun : usb.Begun) (hcontent : contentEnd < 2 ^ 63)
    (h : Comes dec usb pitTable doFlash allowUnknown contentEnd state trace last) {fuel : Nat}
    (hfuel : contentEnd < state.file.pos + tarBlockSize * fuel) :
    ∃ left, contentEnd < last.file.pos + tarBlockSize * left ∧ ∀ rest code,
      (memberLoop dec usb pitTable doFlash allowUnknown contentEnd left last).Executes rest code →
      (memberLoop dec usb pitTable doFlash allowUnknown contentEnd fuel state).Executes
        (trace ++ rest) code := by
  induction h generalizing fuel with
  | here => exact ⟨fuel, hfuel, fun _ _ hexec => hexec⟩
  | @skip state next last trace hread _ ih =>
      obtain ⟨offset, header, dataSize, hheader, hspec⟩ := turn_accepted hread (by simp)
      obtain ⟨turns, rfl⟩ := turn_left hheader hfuel
      rw [Nat.mul_succ] at hfuel
      rw [memberLoop, hread]
      apply ih
      cases hspec with
      | skip _ _ hfile =>
          rw [hfile, FileStream.advance_pos]
          omega
  | @matched state next done last member first rest' hread hprocess _ ih =>
      obtain ⟨offset, header, dataSize, hheader, hspec⟩ := turn_accepted hread (by simp)
      obtain ⟨turns, rfl⟩ := turn_left hheader hfuel
      rw [Nat.mul_succ] at hfuel
      obtain ⟨hgood, hsize⟩ := readMember_matched hread
      obtain ⟨-, hdone⟩ := processMember_advance hbegun hgood (by omega) doFlash first _ hprocess
        done rfl
      have hpos : contentEnd < done.file.pos + tarBlockSize * turns := by
        cases hspec with
        | matched _ _ hfile =>
            rw [hdone]
            dsimp only
            rw [FileStream.advance_pos, hfile, FileStream.advance_pos]
            omega
      obtain ⟨left, hleft, hgoes⟩ := ih hpos
      refine ⟨left, hleft, fun rest code hexec => ?_⟩
      rw [memberLoop, hread, List.append_assoc]
      exact executes_bind.mpr ⟨first, _, _, rfl, hprocess, hgoes rest code hexec⟩

/-- A loop that comes to a second member of a partition it has flashed ends there. -/
theorem Comes.duplicate (hbegun : usb.Begun) (hcontent : contentEnd < 2 ^ 63)
    (h : Comes dec usb pitTable doFlash allowUnknown contentEnd state trace last) {fuel : Nat}
    (hfuel : contentEnd < state.file.pos + tarBlockSize * fuel) {pitEntry : PitEntry}
    (hnext : NextMember contentEnd pitTable last pitEntry)
    (hended : pitEntry.identifier ∈ endedPartitions (sent trace)) :
    (memberLoop dec usb pitTable doFlash allowUnknown contentEnd fuel state).Executes trace .pit := by
  obtain ⟨left, hleft, hgoes⟩ := h.executes hbegun hcontent hfuel
  have hread : readMember contentEnd pitTable allowUnknown last = .stop .pit :=
    readMember_duplicate hnext (h.ledger.2 hended)
  obtain ⟨offset, header, dataSize, hheader, -⟩ := hnext
  obtain ⟨turns, rfl⟩ := turn_left hheader hleft
  have hstop := hgoes [] .pit (by rw [memberLoop, hread]; exact ⟨rfl, rfl⟩)
  rwa [List.append_nil] at hstop

end Coming

/-! ## The whole run -/

/-- Archives are processed one after the other, each in a stretch of its own, up to
the first that does not succeed. -/
inductive ProcessedIn (host : Host) (cfg : OdinConfig) (usb : UsbDevice) (pit : PitTable) :
    List Bytes → List UsbTrace → ExitCode → Prop where
  | none : ProcessedIn host cfg usb pit [] [] .success
  | failed {path rest stretch code} :
      (processTarFile host path usb pit (!cfg.dryRun) cfg.allowUnknown).Executes stretch code →
      code ≠ .success → ProcessedIn host cfg usb pit (path :: rest) [stretch] code
  | passed {path rest stretch stretches code} :
      (processTarFile host path usb pit (!cfg.dryRun) cfg.allowUnknown).Executes stretch .success →
      ProcessedIn host cfg usb pit rest stretches code →
      ProcessedIn host cfg usb pit (path :: rest) (stretch :: stretches) code

/-- A run comes to an entry of an archive: with the events `before` it has come to
the archive, with the events `inArchive` from its beginning to the entry. -/
inductive Arrives (host : Host) (cfg : OdinConfig) :
    (before inArchive : UsbTrace) → (pit : PitTable) → (contentEnd : Nat) → WalkState → Prop where
  | intro {connecting starting earlier inArchive connected usb pit done path rest file contentEnd
      state} :
      (connect cfg).Executes connecting (.ok connected) →
      (hasAnyFirmwareFiles cfg && !verifyFirmwareCompatibility cfg connected.deviceTypeStr) = false →
      (startSession connected).Executes starting (.ok (usb, pit)) →
      archives cfg = done ++ path :: rest →
      (processArchives host usb pit (!cfg.dryRun) cfg.allowUnknown done).Executes earlier .success →
      openArchive host path = .ok (file, contentEnd) →
      Comes host.lz4 usb pit (!cfg.dryRun) cfg.allowUnknown contentEnd { file } inArchive state →
      Arrives host cfg (connecting ++ (starting ++ earlier)) inArchive pit contentEnd state

section Runs

variable {host : Host} {cfg : OdinConfig} {trace : UsbTrace} {rc : ExitCode}

theorem quiet_sendControls (cfg : OdinConfig) (usb : UsbDevice) : Quiet (sendControls cfg usb) := by
  have hcontrol : ∀ mode : ProtocolMode, ∀ controlType,
      Over (fun packet => packet.isFlashing = false) (mode.controlWord controlType) := by
    intro mode controlType
    cases mode with
    | thor => exact over_packetWord rfl
    | odinLegacy =>
        dsimp only [ProtocolMode.controlWord]
        split
        · exact over_packetWord rfl
        · exact over_one
  have hwords : Over (fun packet => packet.isFlashing = false) usb.protocolMode.controlWords :=
    (over_one.add (hcontrol _ _)).mul (over_one.add (hcontrol _ _))
  intro trace ok hexec
  obtain ⟨xs, rfl, hturns⟩ := sendControls_keeping cfg usb 0 trace ok hexec
  rw [sent_exchanges, List.any_eq_false]
  intro packet hpacket
  obtain ⟨x, hx, rfl⟩ := List.mem_map.mp hpacket
  rw [Bool.not_eq_true]
  exact orderly_over hturns hwords x hx

section Stretches

variable {usb : UsbDevice} {pit : PitTable} {paths : List Bytes} {stretches : List UsbTrace}

theorem processArchives_stretches
    (h : (processArchives host usb pit (!cfg.dryRun) cfg.allowUnknown paths).Executes trace rc) :
    ∃ stretches, trace = stretches.flatten ∧ ProcessedIn host cfg usb pit paths stretches rc := by
  induction paths generalizing trace with
  | nil =>
      obtain ⟨rfl, rfl⟩ := h
      exact ⟨[], rfl, .none⟩
  | cons path rest ih =>
      obtain ⟨first, code, second, rfl, hfirst, hsecond⟩ := executes_bind.mp h
      split at hsecond
      next hfailed =>
        obtain ⟨rfl, rfl⟩ := hsecond
        exact ⟨[first], by simp, .failed hfirst hfailed⟩
      next hpassed =>
        obtain ⟨stretches, rfl, hstretches⟩ := ih hsecond
        rw [not_not] at hpassed
        exact ⟨first :: stretches, rfl, .passed (hpassed ▸ hfirst) hstretches⟩

theorem ProcessedIn.length_le {code : ExitCode} (h : ProcessedIn host cfg usb pit paths stretches code) :
    stretches.length ≤ paths.length := by
  induction h with
  | none => exact le_rfl
  | failed => simp
  | passed _ _ ih => simpa using ih

/-- An archive ends the transfer of a partition at most once in its stretch. -/
theorem ProcessedIn.nodup {code : ExitCode} (h : ProcessedIn host cfg usb pit paths stretches code) :
    ∀ stretch ∈ stretches, (endedPartitions (sent stretch)).Nodup := by
  induction h with
  | none => simp
  | failed hexec _ => exact List.forall_mem_singleton.mpr (processTarFile_ended hexec)
  | passed hexec _ ih => exact List.forall_mem_cons.mpr ⟨processTarFile_ended hexec, ih⟩

theorem endedPartitions_flatten (stretches : List UsbTrace) :
    endedPartitions (sent stretches.flatten) =
      stretches.flatMap fun stretch => endedPartitions (sent stretch) := by
  induction stretches with
  | nil => rfl
  | cons stretch rest ih =>
      rw [List.flatten_cons, sent_append, endedPartitions_append, ih, List.flatMap_cons]

/-- Behind the archives no transfer is ended. -/
theorem runSession_stretches (h : (runSession host cfg usb pit).Executes trace rc) :
    ∃ stretches behind code, trace = stretches.flatten ++ behind ∧
      ProcessedIn host cfg usb pit (archives cfg) stretches code ∧
      endedPartitions (sent behind) = [] := by
  obtain ⟨first, code, second, rfl, hfirst, hsecond⟩ := executes_bind.mp h
  obtain ⟨stretches, rfl, hstretches⟩ := processArchives_stretches hfirst
  refine ⟨stretches, second, code, rfl, hstretches, ?_⟩
  have hend := quiet_endSession usb
  have hclose : ∀ last rc, (endSession usb >>= fun ok =>
      if (!ok) = true then pure ExitCode.protocol else pure ExitCode.success : Usb ExitCode).Executes
        last rc → endedPartitions (sent last) = [] := by
    intro last rc hlast
    apply Quiet.endedPartitions (quiet_bind hend fun ok => ?_) hlast
    exact quiet_ite (quiet_pure _) (quiet_pure _)
  split at hsecond
  next => exact (quiet_bind hend fun _ => quiet_pure _).endedPartitions hsecond
  split at hsecond
  next =>
    obtain ⟨controls, ok, last, rfl, hcontrols, hlast⟩ := executes_bind.mp hsecond
    rw [sent_append, endedPartitions_append, (quiet_sendControls cfg usb).endedPartitions hcontrols,
      List.nil_append]
    split at hlast
    next => exact (quiet_bind hend fun _ => quiet_pure _).endedPartitions hlast
    next => exact hclose last rc hlast
  next => exact hclose second rc hsecond

/-- In front of the archives no transfer is ended either. -/
theorem runForDevice_stretches (h : (runForDevice host cfg).Executes trace rc) :
    endedPartitions (sent trace) = [] ∨ ∃ usb pit before stretches behind code,
      trace = before ++ (stretches.flatten ++ behind) ∧ StartsSession cfg trace usb pit ∧
      ProcessedIn host cfg usb pit (archives cfg) stretches code ∧
      endedPartitions (sent trace) =
        stretches.flatMap fun stretch => endedPartitions (sent stretch) := by
  obtain ⟨first, result, rest, rfl, hconnect, hrest⟩ := executes_bind.mp h
  have hfirst := (quiet_connect cfg).endedPartitions hconnect
  rw [sent_append, endedPartitions_append, hfirst, List.nil_append]
  cases result with
  | error code =>
      obtain ⟨rfl, -⟩ := hrest
      exact .inl rfl
  | ok connected =>
      dsimp only at hrest
      split at hrest
      next =>
        obtain ⟨rfl, -⟩ := hrest
        exact .inl rfl
      next hfits =>
        obtain ⟨second, result, third, rfl, hstart, hthird⟩ := executes_bind.mp hrest
        have hsecond := (quiet_startSession connected).endedPartitions hstart
        rw [sent_append, endedPartitions_append, hsecond, List.nil_append]
        cases result with
        | error code =>
            obtain ⟨rfl, -⟩ := hthird
            exact .inl rfl
        | ok started =>
            obtain ⟨stretches, behind, code, rfl, hstretches, hbehind⟩ := runSession_stretches hthird
            refine .inr ⟨started.1, started.2, first ++ second, stretches, behind, code,
              by simp only [List.append_assoc], ?_, hstretches, ?_⟩
            · exact ⟨first, second, _, connected, rfl, hconnect, by simpa using hfits, hstart⟩
            · rw [sent_append, endedPartitions_append, hbehind, List.append_nil,
                endedPartitions_flatten]

end Stretches

/-- What was processed in front of an archive comes first. -/
theorem processArchives_append {usb : UsbDevice} {pit : PitTable} (doFlash allowUnknown : Bool)
    (done more : List Bytes) :
    processArchives host usb pit doFlash allowUnknown (done ++ more) =
      processArchives host usb pit doFlash allowUnknown done >>= fun rc =>
        if rc ≠ .success then pure rc
        else processArchives host usb pit doFlash allowUnknown more := by
  induction done with
  | nil => rfl
  | cons path rest ih =>
      rw [List.cons_append, processArchives, processArchives, bind_assoc]
      refine bind_congr fun rc => ?_
      split
      next hrc =>
        rw [pure_bind, if_pos hrc]
      next => exact ih

/-- Whatever the device does, a run that comes to a second member of a partition
that the archive has flashed fails there: only the session is still ended. -/
theorem Arrives.duplicate {before inArchive rest : UsbTrace} {pit : PitTable} {contentEnd : Nat}
    {state : WalkState} {pitEntry : PitEntry}
    (h : Arrives host cfg before inArchive pit contentEnd state)
    (hnext : NextMember contentEnd pit state pitEntry)
    (hended : pitEntry.identifier ∈ endedPartitions (sent inArchive))
    (hexec : (runForDevice host cfg).Executes (before ++ (inArchive ++ rest)) rc) :
    rc = .pit ∧ ∀ packet ∈ sent rest, packet.isEndSession = true := by
  obtain ⟨hconnect, hcompatible, hstart, harchives, hearlier, hopen, hcomes⟩ := h
  rename_i connecting starting earlier connected usb done path behind file
  have hbegun := startSession_begun connected starting _ hstart usb pit rfl
  have hfuel := lt_memberFuel contentEnd
  have hloop := hcomes.duplicate hbegun (openArchive_contentEnd hopen)
    (Nat.lt_of_lt_of_le hfuel (Nat.le_add_left _ _)) hnext hended
  have hall : (processArchives host usb pit (!cfg.dryRun) cfg.allowUnknown (archives cfg)).Executes
      (earlier ++ inArchive) .pit := by
    rw [harchives, processArchives_append]
    refine executes_bind.mpr ⟨earlier, _, _, rfl, hearlier, ?_⟩
    rw [if_neg (by simp), processArchives, processTarFile, hopen]
    exact executes_bind.mpr ⟨inArchive, _, [], by simp, hloop, by simp⟩
  simp only [List.append_assoc] at hexec
  have hconnected := hconnect.behind hexec
  dsimp only at hconnected
  rw [hcompatible, if_neg Bool.false_ne_true] at hconnected
  have hstarted := hstart.behind hconnected
  dsimp only [runSession] at hstarted
  rw [← List.append_assoc] at hstarted
  have hlast := hall.behind hstarted
  rw [if_pos (by simp)] at hlast
  obtain ⟨closing, ok, last, rfl, hclosing, rfl, rfl⟩ := executes_bind.mp hlast
  refine ⟨rfl, fun packet hpacket => ?_⟩
  obtain ⟨xs, rfl, word, hend, -, z, rfl, rfl, -⟩ := endSession_single usb closing ok hclosing
  rw [List.append_nil, sent_exchanges] at hpacket
  obtain rfl := List.mem_singleton.mp hpacket
  exact hend

/-- Over a whole run each archive that is given ends the transfer of a partition
at most once, in the stretch of the run in which it is processed; a second member
of one archive that resolves to a partition the archive has flashed makes the run
fail before its data are sent. -/
theorem archives_end_partitions_once (h : (runForDevice host cfg).Executes trace rc) :
    (endedPartitions (sent trace) = [] ∨ ∃ usb pit before stretches behind code,
      trace = before ++ (stretches.flatten ++ behind) ∧ StartsSession cfg trace usb pit ∧
      ProcessedIn host cfg usb pit (archives cfg) stretches code ∧
      stretches.length ≤ (archives cfg).length ∧
      (∀ stretch ∈ stretches, (endedPartitions (sent stretch)).Nodup) ∧
      endedPartitions (sent trace) =
        stretches.flatMap fun stretch => endedPartitions (sent stretch)) ∧
    ∀ before inArchive rest pit contentEnd state pitEntry,
      trace = before ++ (inArchive ++ rest) →
      Arrives host cfg before inArchive pit contentEnd state →
      NextMember contentEnd pit state pitEntry →
      pitEntry.identifier ∈ endedPartitions (sent inArchive) →
      rc = .pit ∧ ∀ packet ∈ sent rest, packet.isEndSession = true := by
  constructor
  · refine (runForDevice_stretches h).imp_right ?_
    rintro ⟨usb, pit, before, stretches, behind, code, htrace, hsession, hstretches, hended⟩
    exact ⟨usb, pit, before, stretches, behind, code, htrace, hsession, hstretches,
      hstretches.length_le, hstretches.nodup, hended⟩
  · rintro before inArchive rest pit contentEnd state pitEntry rfl harrives hnext hended
    exact harrives.duplicate hnext hended h

end Runs

/-- An archive with two members for one partition. -/
def doubleArchive : FileContent := ⟨tarArchive [bootMember, bootMember], by decide +kernel⟩

/-- The second member ends the run; the first has been flashed. -/
theorem archives_end_partitions_once_double :
    ((runForDevice (archiveHost doubleArchive) { ap := ascii "firmware.tar" }).run thorDevice []).2 =
      .pit ∧
    endedPartitions (sent ((runForDevice (archiveHost doubleArchive)
      { ap := ascii "firmware.tar" }).run thorDevice []).1) = [1] ∧
    ∃ before behind stretch, ((runForDevice (archiveHost doubleArchive)
        { ap := ascii "firmware.tar" }).run thorDevice []).1 = before ++ (stretch ++ behind) ∧
      endedPartitions (sent stretch) = [1] := by
  have hcode : ((runForDevice (archiveHost doubleArchive)
      { ap := ascii "firmware.tar" }).run thorDevice []).2 = .pit := by decide +kernel
  have hone : endedPartitions (sent ((runForDevice (archiveHost doubleArchive)
      { ap := ascii "firmware.tar" }).run thorDevice []).1) = [1] := by decide +kernel
  have hexec := executes_run thorDevice [] (runForDevice (archiveHost doubleArchive)
    { ap := ascii "firmware.tar" })
  generalize (runForDevice (archiveHost doubleArchive) { ap := ascii "firmware.tar" }).run
    thorDevice [] = outcome at *
  refine ⟨hcode, hone, ?_⟩
  obtain hnone | ⟨usb, pit, before, stretches, behind, code, htrace, -, -, hlength, -, hended⟩ :=
    (archives_end_partitions_once hexec).1
  · rw [hone] at hnone
    cases hnone
  -- One archive was given, so there is at most one stretch.
  rw [hone] at hended
  match stretches, hlength with
  | [], _ => cases hended
  | [stretch], _ =>
      refine ⟨before, behind, stretch, by simpa using htrace, ?_⟩
      simpa using hended.symm

/-! ## One image in two archives -/

/-- A host with one archive under two names. -/
def twinHost (file : FileContent) : Host where
  fs path := if path = ascii "BL.tar" ∨ path = ascii "AP.tar" then some file else none
  md5 _ := List.Vector.replicate 16 0
  lz4 := storedFrames

/-- Every archive starts with an empty ledger: the boot partition is flashed twice. -/
theorem partition_ended_twice :
    ¬ ∀ (host : Host) (cfg : OdinConfig) (trace : UsbTrace) (rc : ExitCode),
      (runForDevice host cfg).Executes trace rc → (endedPartitions (sent trace)).Nodup := by
  intro h
  have hended : endedPartitions (sent ((runForDevice (twinHost bootArchive)
      { bootloader := ascii "BL.tar", ap := ascii "AP.tar" }).run thorDevice []).1) = [1, 1] := by
    decide +kernel
  have hnodup := h _ _ _ _ (executes_run thorDevice [] (runForDevice (twinHost bootArchive)
    { bootloader := ascii "BL.tar", ap := ascii "AP.tar" }))
  rw [hended] at hnodup
  exact absurd hnodup (by decide)

end Odin4
