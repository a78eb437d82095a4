import Odin4.Interaction.Leading
import Odin4.Run.Written
import Odin4.Usb.LegacyWire
import Odin4.Usb.ThorWire

/-!
# The shape of a session

The order of the packets in a session is such that they can be told apart on the
wire, in either protocol: data come where data are due, and a session is not ended in
the middle of a transfer. What a run that succeeds writes behind the preamble is one
whole session, accepted throughout.
-/

namespace Odin4

open Interaction Program Dialogue Computability

/-! ## Words -/

section Words

theorem leads_packetWords {before behind : List Packet → Prop} {kind : Packet → Prop}
    (h : ∀ packet, kind packet → ∀ rest, behind rest → before (packet :: rest)) :
    Leads before behind (packetWords kind) := by
  rintro _ ⟨packet, hkind, rfl⟩ rest hrest
  exact h packet hkind rest hrest

/-- Everything from the Thor handshake to the end of the session. -/
def thorWords (dryRun : Bool) : Language Packet :=
  packetWord (.thor .handshake) * (ProtocolMode.thor.bodyWords dryRun * ProtocolMode.thor.endWords)

theorem leads_commands {kind : Packet → Prop}
    (h : ∀ packet, kind packet → (∃ command, packet = .thor command) ∧ packet.due? = none) :
    Leads (Shaped false) (Shaped false) (packetWords kind) := by
  refine leads_packetWords fun packet hkind rest hrest => ?_
  obtain ⟨hcommand, hdue⟩ := h packet hkind
  refine ⟨hcommand, ?_⟩
  rw [hdue]
  exact hrest

theorem leads_command {command : ThorPacket} (h : (Packet.thor command).due? = none) :
    Leads (Shaped false) (Shaped false) (packetWord (.thor command)) := by
  apply leads_commands
  rintro _ rfl
  exact ⟨⟨command, rfl⟩, h⟩

theorem leads_partWords : Leads (Shaped false) (Shaped false) partWords := by
  rintro _ ⟨index, size, bytes, rfl⟩ rest hrest
  exact ⟨⟨_, rfl⟩, ⟨bytes, rfl⟩, hrest⟩

theorem leads_thorWork (dryRun : Bool) :
    Leads (Shaped false) (Shaped false) (ProtocolMode.thor.workWords dryRun) := by
  cases dryRun with
  | true => exact leads_one
  | false =>
      have hcontrol : ∀ controlType,
          Leads (Shaped false) (Shaped false) (ProtocolMode.thor.controlWord controlType) :=
        fun _ => leads_command rfl
      refine Leads.mul (Leads.star (Leads.mul (Leads.mul (leads_commands ?_) leads_partWords.star)
        (leads_commands ?_))) ((leads_one.add (hcontrol _)).mul (leads_one.add (hcontrol _)))
      · rintro _ ⟨size, rfl⟩
        exact ⟨⟨_, rfl⟩, rfl⟩
      · rintro _ ⟨partitionId, rfl⟩
        exact ⟨⟨_, rfl⟩, rfl⟩

theorem shaped_thorWords {dryRun : Bool} {word : List Packet} (h : word ∈ thorWords dryRun) :
    Shaped false word := by
  have hleads : Leads (Shaped false) (Shaped false) (thorWords dryRun) :=
    (leads_command rfl).mul ((((leads_command rfl).mul
      ((leads_command rfl).mul (leads_command rfl))).mul (leads_thorWork dryRun)).mul
      (leads_command rfl))
  exact hleads.whole h rfl

/-- Everything from the beginning of a legacy session to its end. -/
def legacyWords (dryRun : Bool) : Language Packet :=
  ProtocolMode.odinLegacy.bodyWords dryRun * ProtocolMode.odinLegacy.endWords

theorem leads_between {kind : Packet → Prop} {before behind : Bool}
    (h : ∀ packet, kind packet →
      (packet.isEndSession = true → before = false) ∧ packet.isTransferring = behind) :
    Leads (EndsBetween before) (EndsBetween behind) (packetWords kind) := by
  refine leads_packetWords fun packet hkind rest hrest => ?_
  obtain ⟨hend, rfl⟩ := h packet hkind
  exact ⟨hend, hrest⟩

theorem leads_quiet {packet : Packet} (h : packet.isTransferring = false) :
    Leads (EndsBetween false) (EndsBetween false) (packetWord packet) := by
  apply leads_between
  rintro _ rfl
  exact ⟨fun _ => rfl, h⟩

theorem leads_sequenceWords :
    Leads (EndsBetween false) (EndsBetween false) sequenceWords := by
  have hannounce : Leads (EndsBetween false) (EndsBetween true)
      (packetWords (∃ size, · = .odin 0x66 0x02 (leBytes 4 size))) := by
    apply leads_between
    rintro _ ⟨size, rfl⟩
    exact ⟨fun _ => rfl, rfl⟩
  have hdata : Leads (EndsBetween true) (EndsBetween true)
      (packetWords (∃ bytes, · = .data bytes)) := by
    apply leads_between
    rintro _ ⟨bytes, rfl⟩
    exact ⟨by simp [Packet.isEndSession], rfl⟩
  have hend : Leads (EndsBetween true) (EndsBetween false)
      (packetWords (∃ payload, · = .odin 0x66 0x03 payload)) := by
    apply leads_between
    rintro _ ⟨payload, rfl⟩
    exact ⟨by simp [Packet.isEndSession], rfl⟩
  exact (hannounce.mul hdata.star).mul hend

theorem leads_legacyWork (dryRun : Bool) :
    Leads (EndsBetween false) (EndsBetween false) (ProtocolMode.odinLegacy.workWords dryRun) := by
  cases dryRun with
  | true => exact leads_one
  | false =>
      exact (Leads.star ((((leads_quiet rfl).mul leads_sequenceWords.star).mul
        (leads_quiet rfl)).mul leads_one)).mul
        ((leads_one.add (leads_quiet rfl)).mul (leads_one.add leads_one))

theorem endsBetween_legacyWords {dryRun : Bool} {word : List Packet}
    (h : word ∈ legacyWords dryRun) : EndsBetween false word := by
  have hblocks : Leads (EndsBetween false) (EndsBetween false)
      (packetWords (∃ i, · = .odin 0x65 0x02 (leBytes 4 i))) := by
    apply leads_between
    rintro _ ⟨i, rfl⟩
    exact ⟨fun _ => rfl, rfl⟩
  have hpit : Leads (EndsBetween false) (EndsBetween false) ProtocolMode.odinLegacy.pitWords :=
    ((leads_quiet rfl).mul hblocks.star).mul (leads_quiet rfl)
  have hbegin : Leads (EndsBetween false) (EndsBetween false) ProtocolMode.odinLegacy.beginWords :=
    (leads_quiet rfl).mul (leads_one.add (leads_quiet rfl))
  have hleads : Leads (EndsBetween false) (EndsBetween false) (legacyWords dryRun) :=
    ((leads_one.mul (hbegin.mul hpit)).mul (leads_legacyWork dryRun)).mul (leads_quiet rfl)
  exact hleads.whole h trivial

end Words

/-! ## The size of the parts -/

section Sizes

variable {host : Host} {cfg : OdinConfig} {usb : UsbDevice} {packet : Packet}

/-- What is written to a legacy device, but for the command that tells the size. -/
theorem fitsLegacy_of_speaks (hlegacy : usb.protocolMode = .odinLegacy) (h : usb.Speaks packet)
    (hsize : packet.isPacketSize = false) : packet.FitsLegacy usb.odinFlashPacketSize := by
  rcases h with hcommand | ⟨bytes, rfl, hlength⟩
  · rw [UsbDevice.Commands, hlegacy] at hcommand
    obtain ⟨cmd, subcmd, payload, rfl, hfits⟩ := hcommand
    refine ⟨by simp only [odinPayloadSize]; omega, ?_⟩
    rintro ⟨rfl, rfl⟩
    cases hsize
  · exact hlength hlegacy

/-- The commands that begin a legacy session with parts of a certain size. -/
inductive Begins : (partSize : Nat) → List Packet → Prop
  | old : Begins 131072 [.odin 0x64 0x00 (leBytes 4 0x7FFFFFFF)]
  | told : Begins 1048576
      [.odin 0x64 0x00 (leBytes 4 0x7FFFFFFF), .odin 0x64 0x05 (leBytes 4 1048576)]

theorem Begins.pos {partSize : Nat} {opening : List Packet} (h : Begins partSize opening) :
    0 < partSize := by
  cases h <;> decide

theorem Begins.settles {partSize : Nat} {opening : List Packet} (h : Begins partSize opening)
    (rest : List Packet) : SettlesSize partSize (opening ++ rest) := by
  cases h with
  | old => exact .inl rfl
  | told => exact .inr ⟨_, _, rest, rfl⟩

theorem Begins.fits {partSize : Nat} {opening : List Packet} (h : Begins partSize opening) :
    ∀ packet ∈ opening, packet.FitsLegacy partSize := by
  cases h with
  | old =>
      simp only [List.forall_mem_singleton]
      exact ⟨by decide, by simp⟩
  | told =>
      simp only [List.forall_mem_cons]
      exact ⟨⟨by decide, by simp⟩, ⟨by decide, fun _ => by decide⟩, by simp⟩

theorem odinBeginSession_begins (usb : UsbDevice) :
    Exchanges (odinBeginSession usb) fun xs result =>
      result.1 = true → Begins result.2.odinFlashPacketSize (messages xs) := by
  refine conducts_bind (odinCommand_single (by simp [odinFrameSize]) rfl) fun xs rsp? hxs => ?_
  have hfirst := hxs.messages_eq
  cases rsp? with
  | none => exact conducts_pure (by simp)
  | some rsp =>
      dsimp only
      split
      next => exact conducts_pure (by simp)
      split
      next =>
        refine conducts_pure fun _ => ?_
        rw [List.append_nil, hfirst]
        exact .old
      next =>
        refine conducts_bind (odinCheckedCommand_single (by simp [odinFrameSize]) rfl rfl)
          fun ys ok hys => conducts_pure fun _ => ?_
        rw [List.append_nil, messages_append, hfirst, hys.messages_eq]
        exact .told

theorem startSession_begins (usb : UsbDevice) (hlegacy : usb.protocolMode = .odinLegacy) :
    Exchanges (startSession usb) fun xs result => ∀ usb' pit, result = .ok (usb', pit) →
      ∃ opening rest, messages xs = opening ++ rest ∧
        Begins usb'.odinFlashPacketSize opening ∧ ∀ packet ∈ rest, packet.isPacketSize = false := by
  have hbegin : Exchanges (beginSession usb) fun xs result =>
      result.1 = true → Begins result.2.odinFlashPacketSize (messages xs) := by
    unfold beginSession
    rw [if_pos ((isOdinLegacy_iff usb).mpr hlegacy)]
    exact odinBeginSession_begins usb
  refine conducts_bind hbegin fun begun result hbegun => ?_
  obtain ⟨ok, usb'⟩ := result
  cases ok with
  | false => exact conducts_pure (by simp)
  | true =>
      refine conducts_bind (requestPit_keeping usb' 0) fun xs pit? hxs => ?_
      cases pit? with
      | none => exact conducts_bind (endSession_single usb') fun _ _ _ => conducts_pure (by simp)
      | some pit =>
          refine conducts_pure ?_
          rintro _ _ ⟨⟩
          refine ⟨messages begun, messages xs, by simp [messages_append], hbegun rfl, ?_⟩
          -- Asking for the PIT does not tell a size.
          intro packet hpacket
          obtain ⟨x, hx, rfl⟩ := List.mem_map.mp hpacket
          exact (orderly_over hxs (over_pitWords _) x hx).2.2.2

theorem notSize_of_closes {mode : ProtocolMode} {s : UInt32} {rc : ExitCode} {xs : List Exchange}
    (h : Closes (mode.workWords cfg.dryRun) mode s rc xs) :
    ∀ x ∈ xs, x.packet.isPacketSize = false := by
  obtain ⟨horderly, -, hend, -⟩ := h
  intro x hx
  rcases List.mem_append.mp hx with hx | hx
  · exact (orderly_over horderly (over_workWords _ _) x hx).2.2
  · obtain rfl := List.mem_singleton.mp hx
    exact (over_endWords mode _ hend _ (List.mem_singleton_self _)).2.2.2

end Sizes

/-! ## Runs that succeed -/

/-- A run as the preamble, on whose answer nothing depends but the protocol, and the
exchanges behind it, which carry these packets and have all been accepted. -/
def BehindPreamble (cfg : OdinConfig) (link : UsbTrace) (packets : List Packet) : Prop :=
  ∃ (first : Exchange) (xs : List Exchange),
    link = ⟨.openDevice cfg.devicePath (criteriaFromConfig cfg), true⟩ ::
      (first.events ++ xs.flatMap Exchange.events) ∧
    first.packet = .preamble ∧ AllAccepted (0 : UInt32) xs ∧ messages xs = packets

section Success

variable {host : Host} {cfg : OdinConfig} {link : UsbTrace}

/-- A run that succeeds has had every turn behind the handshake accepted. -/
theorem RunTurns.succeeded {mode : ProtocolMode} {dryRun : Bool} {xs : List Exchange}
    (h : RunTurns mode dryRun .success xs) :
    AllAccepted (0 : UInt32) xs ∧ messages xs ∈ mode.bodyWords dryRun * mode.endWords := by
  cases h with
  | unbegun _ hrc => exact absurd rfl hrc
  | @session device _ hdevice hsession =>
      obtain ⟨hdeviceAll, hdeviceMem⟩ := hdevice.whole trivial
      cases hsession with
      | refused _ _ hrc => exact absurd rfl hrc
      | @opened begun _ hbegun hcloses =>
          obtain ⟨hbegunAll, hbegunMem⟩ := hbegun.whole trivial
          cases hcloses with
          | @intro ys z hwork _ hend haccepted =>
              obtain ⟨hworkAll, hworkMem⟩ := hwork.whole rfl
              constructor
              · exact hdeviceAll.append (hbegunAll.append (hworkAll.append ⟨haccepted rfl, trivial⟩))
              · have hmem := Language.append_mem_mul (Language.append_mem_mul hdeviceMem
                  (Language.append_mem_mul hbegunMem hworkMem)) hend
                have hlast : messages [z] = [z.packet] := rfl
                rw [ProtocolMode.bodyWords_eq]
                simpa [hlast] using hmem

/-- A handshake that finds a Thor device: the preamble, whatever became of it, and the
Thor handshake, which has been answered. -/
theorem handshake_thor (usb : UsbDevice) :
    Exchanges (handshake usb) fun xs result =>
      result.1 = true → result.2.protocolMode = .thor → ∃ first last, xs = [first, last] ∧
        first.packet = .preamble ∧ last.packet = .thor .handshake ∧
        ∀ s, last.accepted s = true := by
  refine conducts_bind odinLegacyHandshake_conducts fun xs legacy hxs => ?_
  cases legacy with
  | true => exact conducts_pure fun _ hmode => by cases hmode
  | false =>
      refine conducts_bind (thorExchangeFull_single rfl) fun ys ok hys => conducts_pure ?_
      -- The preamble was not answered, so the Thor handshake was.
      rintro rfl -
      obtain ⟨last, rfl, hlast, haccepted⟩ := hys
      obtain ⟨first, rfl, hfirst⟩ := List.map_eq_singleton_iff.mp hxs
      exact ⟨first, last, rfl, hfirst, hlast, haccepted⟩

/-- A handshake that finds a legacy device is the preamble. -/
theorem handshake_legacy (usb : UsbDevice) :
    Exchanges (handshake usb) fun xs result =>
      result.1 = true → result.2.protocolMode = .odinLegacy →
        ∃ first, xs = [first] ∧ first.packet = .preamble := by
  refine conducts_bind odinLegacyHandshake_conducts fun xs legacy hxs => ?_
  obtain ⟨first, rfl, hfirst⟩ := List.map_eq_singleton_iff.mp hxs
  cases legacy with
  | true => exact conducts_pure fun _ _ => ⟨first, rfl, hfirst⟩
  | false =>
      refine conducts_bind (thorExchangeFull_single rfl) fun ys ok _ => conducts_pure ?_
      rintro - ⟨⟩

/-- What is written in a legacy session that is gone through fits the size of the parts
with which it has been begun. -/
theorem connectedRun_settles {usb : UsbDevice} {xs : List Exchange}
    (hlegacy : usb.protocolMode = .odinLegacy)
    (hexec : (connectedRun host cfg usb).Executes (xs.flatMap Exchange.events) .success) :
    ∃ partSize, 0 < partSize ∧ SettlesSize partSize (messages xs) ∧
      ∀ packet ∈ messages xs, packet.FitsLegacy partSize := by
  unfold connectedRun requestDeviceType at hexec
  rw [if_pos ((isOdinLegacy_iff usb).mpr hlegacy), pure_bind] at hexec
  dsimp only at hexec
  rw [if_neg (by simp)] at hexec
  split at hexec
  next => cases (executes_pure.mp hexec).2
  next =>
    obtain ⟨first, result, second, hsplit, hfirst, hsecond⟩ := executes_bind.mp hexec
    have hcode := startSession_code _ first result hfirst
    obtain ⟨begun, rfl, hbegins⟩ :=
      startSession_begins { usb with deviceTypeStr := [] } hlegacy first result hfirst
    cases result with
    | error code =>
        obtain ⟨-, rfl⟩ := executes_pure.mp hsecond
        exact absurd rfl hcode
    | ok opened =>
        obtain ⟨usb', pit⟩ := opened
        have hmode : usb'.protocolMode = .odinLegacy :=
          (startSession_mode _ _ _ hfirst usb' pit rfl).trans hlegacy
        obtain ⟨work, rfl, hcloses⟩ := runSession_closes host cfg usb' pit 0 second _ hsecond
        obtain rfl : xs = begun ++ work := exchanges_injective (by rw [hsplit, List.flatMap_append])
        obtain ⟨opening, rest, hbegun, hopening, hrest⟩ := hbegins usb' pit rfl
        have hcommands : ∀ x ∈ begun, x.packet.IsFrame := by
          intro x hx
          have hcommand := allowed_of_writes (writes_startSession _) hfirst x hx
          rwa [UsbDevice.Commands, hlegacy] at hcommand
        refine ⟨usb'.odinFlashPacketSize, hopening.pos, ?_, ?_⟩
        · rw [messages_append, hbegun, List.append_assoc]
          exact hopening.settles _
        · rw [messages_append]
          refine List.forall_mem_append.mpr ⟨fun packet hpacket => ?_, fun packet hpacket => ?_⟩
          · have hmem := hpacket
            rw [hbegun] at hmem
            rcases List.mem_append.mp hmem with hmem | hmem
            · exact hopening.fits packet hmem
            · obtain ⟨x, hx, rfl⟩ := List.mem_map.mp hpacket
              refine fitsLegacy_of_speaks hmode (.inl ?_) (hrest _ hmem)
              rw [UsbDevice.Commands, hmode]
              exact hcommands x hx
          · obtain ⟨x, hx, rfl⟩ := List.mem_map.mp hpacket
            have hspeaks := allowed_of_writes (writes_runSession usb' host cfg pit) hsecond x hx
            exact fitsLegacy_of_speaks hmode hspeaks (notSize_of_closes hcloses x hx)

/-- A run that succeeds is one session behind the preamble. -/
theorem runForDevice_session (hexec : (runForDevice host cfg).Executes link .success) :
    ∃ packets, BehindPreamble cfg link packets ∧
      (.thor .handshake ∈ sent link → packets ∈ thorWords cfg.dryRun) ∧
      (.thor .handshake ∉ sent link → packets ∈ legacyWords cfg.dryRun ∧
        ∃ partSize, 0 < partSize ∧ SettlesSize partSize packets ∧
          ∀ packet ∈ packets, packet.FitsLegacy partSize) := by
  rw [runForDevice_eq] at hexec
  obtain ⟨opening, opened, rest, rfl, hopen, hrest⟩ := executes_bind.mp hexec
  rw [executes_openDevice] at hopen
  subst hopen
  cases opened with
  | false => cases hrest.2
  | true =>
      obtain ⟨shaken, ⟨ok, usb⟩, second, rfl, hhandshake, hconnected⟩ := executes_bind.mp hrest
      cases ok with
      | false => cases hconnected.2
      | true =>
          obtain ⟨xs, rfl, hturns⟩ := connectedRun_turns host cfg usb second .success hconnected
          obtain ⟨hall, hmem⟩ := hturns.succeeded
          cases hmode : usb.protocolMode with
          | odinLegacy =>
              rw [hmode] at hmem
              obtain ⟨hs, rfl, hshaken⟩ := handshake_legacy {} shaken _ hhandshake
              obtain ⟨first, rfl, hfirst⟩ := hshaken rfl hmode
              have hsettles := connectedRun_settles hmode hconnected
              have hlegacy : ∀ packet ∈ messages xs, packet ≠ .thor .handshake := by
                obtain ⟨partSize, -, -, hfits⟩ := hsettles
                rintro _ hpacket rfl
                exact hfits _ hpacket
              refine ⟨messages xs, ⟨first, xs, by simp, hfirst, hall, rfl⟩, fun hthor => ?_,
                fun _ => ⟨hmem, hsettles⟩⟩
              rw [List.singleton_append, sent_open, sent_append, sent_exchanges, sent_exchanges]
                at hthor
              rcases List.mem_append.mp hthor with hthor | hthor
              · have hpreamble : messages [first] = [.preamble] := congrArg (fun p => [p]) hfirst
                rw [hpreamble] at hthor
                cases List.mem_singleton.mp hthor
              · exact absurd rfl (hlegacy _ hthor)
          | thor =>
              rw [hmode] at hmem
              obtain ⟨hs, rfl, hshaken⟩ := handshake_thor {} shaken _ hhandshake
              obtain ⟨first, last, rfl, hfirst, hlast, haccepted⟩ := hshaken rfl hmode
              -- The handshake does not count as a part.
              have hnext : next (0 : UInt32) last = 0 := congrArg (Packet.nextPart 0) hlast
              have hlater : AllAccepted (next (0 : UInt32) last) xs := by
                rw [hnext]
                exact hall
              refine ⟨messages (last :: xs), ⟨first, last :: xs, by simp, hfirst,
                ⟨haccepted 0, hlater⟩, rfl⟩, fun _ => ?_, fun hnot => absurd ?_ hnot⟩
              · have hhandshake : [last.packet] ∈ packetWord (.thor .handshake) :=
                  ⟨last.packet, hlast, rfl⟩
                exact Language.append_mem_mul hhandshake hmem
              · rw [List.singleton_append, sent_open, sent_append, sent_exchanges]
                have hshaken : .thor .handshake ∈ messages [first, last] :=
                  List.mem_cons_of_mem _ (List.mem_singleton.mpr hlast.symm)
                exact List.mem_append_left _ hshaken

end Success

end Odin4
