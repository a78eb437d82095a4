import Odin4.Foundation.Framing
import Odin4.Usb.LegacyReceiver
import Odin4.Usb.PitCodec

/-!
# Legacy packets on the wire

A command is a frame of 1024 bytes that is filled up with zeros, so the other side
does not see where its payload ends; nothing that it reads depends on that. File data
come without a frame: from the announcement of a sequence a device knows how many
bytes are due, and from the beginning of the session how large their parts are.
-/

namespace Odin4

open Interaction

/-! ## Zeros behind a record -/

theorem leNat_append_zeros (field : Bytes) (count : Nat) :
    leNat (field ++ List.replicate count 0) = leNat field := by
  induction field with
  | nil =>
      induction count with
      | zero => rfl
      | succ count ih =>
          have hzeros : leNat (List.replicate count 0) = 0 := ih
          simp [List.replicate_succ, leNat, hzeros]
  | cons byte rest ih => rw [List.cons_append, leNat, leNat, ih]

/-- Behind its end a record reads as zeros. -/
theorem leAt_append_zeros (record : Bytes) (count offset width : Nat) :
    leAt (record ++ List.replicate count 0) offset width = leAt record offset width := by
  rw [leAt, leAt, List.drop_append, List.drop_replicate, List.take_append, List.take_replicate,
    leNat_append_zeros]

/-! ## Frames -/

/-- The part of a frame behind the two command words. -/
def odinPayloadSize : Nat := odinFrameSize - 8

/-- A packet as it arrives: a command with the zeros behind its payload. -/
def Packet.arrived : Packet → Packet
  | .odin cmd subcmd payload =>
      .odin cmd subcmd (payload ++ List.replicate (odinPayloadSize - payload.length) 0)
  | packet => packet

/-- A command that fits into its frame and tells no other size of the parts, or a part
of this size. -/
def Packet.FitsLegacy (partSize : Nat) : Packet → Prop
  | .odin cmd subcmd payload => payload.length ≤ odinPayloadSize ∧
      (cmd = 0x64 ∧ subcmd = 0x05 → leAt payload 0 4 = partSize)
  | .data bytes => bytes.length = partSize
  | _ => False

/-- The frame at the front of the input. -/
def parseFrame (input : Bytes) : Option (Packet × Bytes) :=
  if odinFrameSize ≤ input.length then
    some (.odin (readU32 input 0) (readU32 input 4) (fieldAt input 8 odinPayloadSize),
      input.drop odinFrameSize)
  else none

section Frames

variable {cmd subcmd : UInt32} {payload input rest : Bytes} {packet : Packet}

/-- A word that stands in a record. -/
theorem readU32_leBytes (before rest : Bytes) (value : UInt32) :
    readU32 (before ++ leBytes 4 value.toNat ++ rest) before.length = value := by
  have hsmall : value.toNat % 256 ^ 4 = value.toNat := Nat.mod_eq_of_lt value.toNat_lt
  rw [readU32, leAt_leBytes 4 value.toNat rest rfl, hsmall, UInt32.ofNat_toNat]

theorem encode_full (hfull : payload.length = odinPayloadSize) :
    Packet.encode (.odin cmd subcmd payload) =
      leBytes 4 cmd.toNat ++ leBytes 4 subcmd.toNat ++ payload := by
  simp [Packet.encode, hfull, odinPayloadSize, odinFrameSize]

theorem encode_arrived {partSize : Nat} (h : packet.FitsLegacy partSize) :
    packet.arrived.encode = packet.encode := by
  cases packet with
  | odin cmd subcmd payload =>
      have hfits : payload.length ≤ odinPayloadSize := h.1
      have hfull : (payload ++ List.replicate (odinPayloadSize - payload.length) 0).length =
          odinPayloadSize := by simp [hfits]
      have hzeros : odinFrameSize - (leBytes 4 cmd.toNat ++ leBytes 4 subcmd.toNat ++ payload).length =
          odinPayloadSize - payload.length := by
        simp only [List.length_append, length_leBytes, odinPayloadSize, Nat.sub_sub]
      rw [Packet.arrived, encode_full hfull, Packet.encode, hzeros, List.append_assoc _ payload]
  | _ => rfl

theorem parseFrame_iff : parseFrame input = some (packet, rest) ↔
    (∃ cmd subcmd payload, packet = .odin cmd subcmd payload ∧ payload.length = odinPayloadSize) ∧
      input = packet.encode ++ rest := by
  constructor
  · intro h
    rw [parseFrame] at h
    split at h
    next hlong =>
      obtain ⟨rfl, rfl⟩ := Prod.mk.inj (Option.some.inj h)
      have hlength : (fieldAt input 8 odinPayloadSize).length = odinPayloadSize := length_fieldAt hlong
      refine ⟨⟨_, _, _, rfl, hlength⟩, ?_⟩
      have hcmd : leBytes 4 (readU32 input 0).toNat = fieldAt input 0 4 :=
        encodeU32_readU32 (Nat.le_trans (by decide) hlong)
      have hsubcmd : leBytes 4 (readU32 input 4).toNat = fieldAt input 4 4 :=
        encodeU32_readU32 (Nat.le_trans (by decide) hlong)
      rw [encode_full hlength, hcmd, hsubcmd]
      -- The two words and the payload are the frame cut in three.
      have hwords : fieldAt input 0 4 ++ fieldAt input 4 4 ++ fieldAt input 8 odinPayloadSize =
          fieldAt input 0 odinFrameSize := by
        rw [← fieldAt_add input 0 4 4, ← fieldAt_add input 0 8 odinPayloadSize]
        rfl
      rw [hwords]
      exact (List.take_append_drop odinFrameSize input).symm
    next => cases h
  · rintro ⟨⟨cmd, subcmd, payload, rfl, hfull⟩, rfl⟩
    have hlength : (Packet.encode (.odin cmd subcmd payload)).length = odinFrameSize :=
      Packet.length_encode_odin cmd subcmd (by rw [hfull]; decide)
    have hencode : Packet.encode (.odin cmd subcmd payload) =
        leBytes 4 cmd.toNat ++ leBytes 4 subcmd.toNat ++ payload := encode_full hfull
    have hcmd : readU32 (Packet.encode (.odin cmd subcmd payload) ++ rest) 0 = cmd := by
      have hat := readU32_leBytes [] (leBytes 4 subcmd.toNat ++ payload ++ rest) cmd
      rw [hencode]
      simpa only [List.length_nil, List.nil_append, List.append_assoc] using hat
    have hsubcmd : readU32 (Packet.encode (.odin cmd subcmd payload) ++ rest) 4 = subcmd := by
      have hat := readU32_leBytes (leBytes 4 cmd.toNat) (payload ++ rest) subcmd
      rw [hencode]
      simpa only [length_leBytes, List.append_assoc] using hat
    have hpayload : fieldAt (Packet.encode (.odin cmd subcmd payload) ++ rest) 8 odinPayloadSize =
        payload := by
      rw [hencode]
      exact fieldAt_append (by simp) hfull
    rw [parseFrame, if_pos (by rw [List.length_append, hlength]; omega), hcmd, hsubcmd, hpayload,
      ← hlength, List.drop_left]

end Frames

/-! ## Reading a session -/

/-- What tells the packets apart: the size of the parts, which an old device has
fixed, and the number of bytes of a sequence that are due. -/
structure LegacyReading where
  partSize : Nat := 131072
  due : Nat := 0
deriving DecidableEq, Repr

namespace LegacyReading

/-- The size of the parts is told behind the beginning of the session. -/
def next (reading : LegacyReading) : Packet → LegacyReading
  | .odin cmd subcmd payload =>
      if cmd = 0x64 ∧ subcmd = 0x05 then { reading with partSize := leAt payload 0 4 }
      else if cmd = 0x66 ∧ subcmd = 0x02 then { reading with due := leAt payload 0 4 }
      else reading
  | .data bytes => { reading with due := reading.due - bytes.length }
  | _ => reading

/-- Whole frames, and parts as long as bytes are due. -/
def Expected (reading : LegacyReading) : Packet → Prop
  | .odin _ _ payload => reading.due = 0 ∧ payload.length = odinPayloadSize
  | .data bytes => 0 < reading.due ∧ 0 < reading.partSize ∧ bytes.length = reading.partSize
  | _ => False

def take (reading : LegacyReading) (input : Bytes) : Option (Packet × Bytes) :=
  if reading.due = 0 then parseFrame input
  else if 0 < reading.partSize ∧ reading.partSize ≤ input.length then
    some (.data (input.take reading.partSize), input.drop reading.partSize)
  else none

variable {reading : LegacyReading} {input rest : Bytes} {packet : Packet}

theorem take_iff : reading.take input = some (packet, rest) ↔
    reading.Expected packet ∧ input = packet.encode ++ rest := by
  unfold take
  split
  next hidle =>
    rw [parseFrame_iff]
    refine and_congr_left fun _ => ⟨?_, fun hexpected => ?_⟩
    · rintro ⟨cmd, subcmd, payload, rfl, hfull⟩
      exact ⟨hidle, hfull⟩
    · cases packet with
      | odin cmd subcmd payload => exact ⟨_, _, _, rfl, hexpected.2⟩
      | data bytes => exact absurd hidle (Nat.ne_of_gt hexpected.1)
      | _ => exact hexpected.elim
  next hdue =>
    constructor
    · intro h
      split at h
      next hlong =>
        obtain ⟨rfl, rfl⟩ := Prod.mk.inj (Option.some.inj h)
        exact ⟨⟨Nat.pos_of_ne_zero hdue, hlong.1, List.length_take_of_le hlong.2⟩,
          (List.take_append_drop _ _).symm⟩
      next => cases h
    · rintro ⟨hexpected, rfl⟩
      cases packet with
      | odin cmd subcmd payload => exact absurd hexpected.1 hdue
      | data bytes =>
          obtain ⟨-, hpos, hlength⟩ := hexpected
          rw [if_pos ⟨hpos, by simp [Packet.encode, hlength]⟩, ← hlength]
          simp [Packet.encode]
      | _ => exact hexpected.elim

theorem expected_encode (h : reading.Expected packet) : packet.encode ≠ [] := by
  cases packet with
  | odin cmd subcmd payload => simp [Packet.encode, leBytes]
  | data bytes =>
      obtain ⟨-, hpos, hlength⟩ := h
      exact List.ne_nil_of_length_pos (hlength ▸ hpos)
  | _ => exact h.elim

end LegacyReading

/-- The packets of a legacy session as frames. -/
def legacyFraming : Framing Packet LegacyReading UInt8 where
  encode := Packet.encode
  next := LegacyReading.next
  take := LegacyReading.take
  idle reading := reading.due == 0
  Expected := LegacyReading.Expected
  weight _ := 0
  take_iff := LegacyReading.take_iff
  progress hexpected hencode := absurd hencode (LegacyReading.expected_encode hexpected)

/-! ## What a receiver takes can be told apart -/

/-- Nothing that is read depends on where a payload ends. -/
theorem LegacyReading.next_arrived (reading : LegacyReading) (packet : Packet) :
    reading.next packet.arrived = reading.next packet := by
  cases packet with
  | odin cmd subcmd payload => simp only [Packet.arrived, next, leAt_append_zeros]
  | _ => rfl

theorem LegacyReceiver.receive_arrived (receiver : LegacyReceiver) (packet : Packet) :
    receiver.receive packet.arrived = receiver.receive packet := by
  cases packet with
  | odin cmd subcmd payload =>
      simp only [Packet.arrived, receive, flash, sequenceEnd, leAt_append_zeros]
  | _ => rfl

theorem LegacyReceiver.receiveAll_arrived (receiver : LegacyReceiver) (packets : List Packet) :
    receiver.receiveAll (packets.map Packet.arrived) = receiver.receiveAll packets := by
  induction packets generalizing receiver with
  | nil => rfl
  | cons packet rest ih =>
      rw [receiveAll, receiveAll, List.map_cons, listen_cons, listen_cons, receive_arrived]
      exact Option.bind_congr fun next _ => ih next

/-- File data, and the announcement of a sequence. -/
def Packet.isTransferring : Packet → Bool
  | .data _ => true
  | .odin cmd subcmd _ => cmd == 0x66 && subcmd == 0x02
  | _ => false

/-- A session is not ended while a sequence is under way. -/
def EndsBetween : (transferring : Bool) → List Packet → Prop
  | _, [] => True
  | transferring, packet :: rest =>
      (packet.isEndSession = true → transferring = false) ∧ EndsBetween packet.isTransferring rest

namespace LegacyReceiver

/-- The bytes that a receiver waits for. -/
def due (receiver : LegacyReceiver) : Nat :=
  match receiver.incoming.bind LegacyFile.sequence with
  | none => 0
  | some sequence => sequence.announced - sequence.data.length

variable {receiver next last : LegacyReceiver} {partSize : Nat} {packet : Packet}

theorem stayIdle_due (h : receiver.stayIdle = some next) : receiver.due = 0 ∧ next.due = 0 := by
  unfold stayIdle at h
  split at h
  next => cases h
  next hidle =>
    obtain rfl := Option.some.inj h
    simp [due, Option.not_isSome_iff_eq_none.mp hidle]

theorem openFile_due (h : receiver.openFile = some next) : receiver.due = 0 ∧ next.due = 0 := by
  unfold openFile at h
  split at h
  next => cases h
  next hidle =>
    obtain rfl := Option.some.inj h
    simp [due, Option.not_isSome_iff_eq_none.mp hidle]

theorem announce_due {announced : Nat}
    (h : receiver.updateFile (fun file => file.announce announced) = some next) :
    receiver.due = 0 ∧ next.due = announced := by
  obtain ⟨file, hfile, rfl⟩ := Option.map_eq_some_iff.mp h
  obtain ⟨before, hbefore, hannounce⟩ := Option.bind_eq_some_iff.mp hfile
  unfold LegacyFile.announce at hannounce
  split at hannounce
  next => cases hannounce
  next hnone =>
    obtain rfl := Option.some.inj hannounce
    simp [due, hbefore, Option.not_isSome_iff_eq_none.mp hnone]

theorem take_due {bytes : Bytes}
    (h : receiver.updateFile (fun file => file.take bytes) = some next) :
    bytes.length ≤ receiver.due ∧ next.due = receiver.due - bytes.length := by
  obtain ⟨file, hfile, rfl⟩ := Option.map_eq_some_iff.mp h
  obtain ⟨before, hbefore, htake⟩ := Option.bind_eq_some_iff.mp hfile
  obtain ⟨sequence, hsequence, rfl⟩ := Option.map_eq_some_iff.mp htake
  obtain ⟨hsequence, hroom⟩ := Option.filter_eq_some_iff.mp hsequence
  have hroom : sequence.data.length + bytes.length ≤ sequence.announced := by simpa using hroom
  simp only [due, hbefore, hsequence, Option.bind_some, List.length_append]
  omega

theorem endSequence_due {told : SequenceEnd} (h : receiver.endSequence told = some next) :
    receiver.due = 0 ∧ next.due = 0 := by
  obtain ⟨file, hfile, rfl⟩ := Option.map_eq_some_iff.mp h
  obtain ⟨before, hbefore, hfinish⟩ := Option.bind_eq_some_iff.mp hfile
  obtain ⟨sequence, hsequence, rfl⟩ := Option.map_eq_some_iff.mp hfinish
  obtain ⟨hsequence, hwhole⟩ := Option.filter_eq_some_iff.mp hsequence
  have hwhole : sequence.data.length = sequence.announced := (of_decide_eq_true hwhole).1
  constructor
  · simp [due, hbefore, hsequence, hwhole]
  · split <;> rfl

/-- Commands are taken where no bytes are due, and only an announcement makes some due. -/
theorem command_due {cmd subcmd : UInt32} {payload : Bytes}
    (h : receiver.receive (.odin cmd subcmd payload) = some next)
    (hend : cmd = 0x67 ∧ subcmd = 0x00 → receiver.due = 0) :
    receiver.due = 0 ∧ next.due = if cmd = 0x66 ∧ subcmd = 0x02 then leAt payload 0 4 else 0 := by
  rw [receive] at h
  split at h
  next hcmd =>
    subst hcmd
    unfold flash at h
    -- The flash commands, by their subcommands.
    split at h
    next hopen =>
      subst hopen
      exact openFile_due h
    split at h
    next hannounce =>
      subst hannounce
      exact announce_due h
    next hnot =>
      rw [if_neg fun hboth => hnot hboth.2]
      split at h
      next => exact endSequence_due h
      next => cases h
  next hcmd =>
    rw [if_neg fun hboth => hcmd hboth.1]
    split at h
    next hboth =>
      obtain rfl := Option.some.inj h
      exact ⟨hend hboth, rfl⟩
    next => exact stayIdle_due h

/-- Behind each packet a receiver waits for the bytes that are due then. -/
theorem receive_due (hpart : 0 < partSize) (h : receiver.receive packet = some next)
    (hfits : packet.FitsLegacy partSize) (hend : packet.isEndSession = true → receiver.due = 0) :
    LegacyReading.Expected ⟨partSize, receiver.due⟩ packet.arrived ∧
      LegacyReading.next ⟨partSize, receiver.due⟩ packet = ⟨partSize, next.due⟩ ∧
      (packet.isTransferring = false → next.due = 0) := by
  cases packet with
  | preamble => exact hfits.elim
  | thor command => exact hfits.elim
  -- A receiver takes no more than is due, so a whole part is due here.
  | data bytes =>
      obtain ⟨hroom, hnext⟩ := take_due h
      have hlength : bytes.length = partSize := hfits
      refine ⟨⟨Nat.lt_of_lt_of_le (hlength ▸ hpart) hroom, hpart, hlength⟩, ?_, ?_⟩
      · rw [LegacyReading.next, hnext]
      · simp [Packet.isTransferring]
  | odin cmd subcmd payload =>
      obtain ⟨hfull, hsize⟩ := hfits
      obtain ⟨hidle, hnext⟩ := command_due h (by simpa [Packet.isEndSession] using hend)
      refine ⟨⟨hidle, by simp [hfull]⟩, ?_, fun hquiet => ?_⟩
      · rw [LegacyReading.next, hnext, hidle]
        split
        next htold =>
          obtain ⟨rfl, rfl⟩ := htold
          rw [hsize ⟨rfl, rfl⟩]
          rfl
        next => split <;> rfl
      · rw [hnext, if_neg (by simpa [Packet.isTransferring] using hquiet)]

/-- Packets that make sense to a receiver can be read back as they arrive. By
induction on the packets: bytes are due at most while a sequence is under way. -/
theorem sequence_of_receiveAll {packets : List Packet} {transferring : Bool} (hpart : 0 < partSize)
    (h : receiver.receiveAll packets = some last) (hlast : last.due = 0)
    (hfits : ∀ packet ∈ packets, packet.FitsLegacy partSize)
    (hends : EndsBetween transferring packets) (hquiet : transferring = false → receiver.due = 0) :
    legacyFraming.Sequence ⟨partSize, receiver.due⟩ (packets.map Packet.arrived) := by
  induction packets generalizing receiver transferring with
  | nil =>
      obtain rfl := Option.some.inj h
      exact beq_iff_eq.mpr hlast
  | cons packet rest ih =>
      obtain ⟨hend, hends⟩ := hends
      obtain ⟨hpacket, hrest⟩ := List.forall_mem_cons.mp hfits
      rw [receiveAll, listen_cons] at h
      obtain ⟨next, hnext, h⟩ := Option.bind_eq_some_iff.mp h
      obtain ⟨hexpected, hreading, hbehind⟩ :=
        receive_due hpart hnext hpacket fun hpacket => hquiet (hend hpacket)
      refine ⟨hexpected, ?_⟩
      have hsequence := ih h hrest hends hbehind
      rwa [← hreading, ← LegacyReading.next_arrived] at hsequence

end LegacyReceiver

/-! ## Sessions -/

/-- The size of the parts is that of an old device, or the device is told it right
behind the beginning of the session. -/
def SettlesSize (partSize : Nat) (packets : List Packet) : Prop :=
  partSize = 131072 ∨ ∃ payload told rest,
    packets = .odin 0x64 0x00 payload :: .odin 0x64 0x05 told :: rest

section Sessions

variable {packets : List Packet} {last : LegacyReceiver} {partSize : Nat}

theorem sequence_of_settled (hpart : 0 < partSize) (hsettled : SettlesSize partSize packets)
    (h : LegacyReceiver.receiveAll {} packets = some last) (hlast : last.due = 0)
    (hfits : ∀ packet ∈ packets, packet.FitsLegacy partSize) (hends : EndsBetween false packets) :
    legacyFraming.Sequence {} (packets.map Packet.arrived) := by
  rcases hsettled with rfl | ⟨payload, told, rest, rfl⟩
  · exact LegacyReceiver.sequence_of_receiveAll hpart h hlast hfits hends fun _ => rfl
  · obtain ⟨⟨hpayload, -⟩, hfits⟩ := List.forall_mem_cons.mp hfits
    obtain ⟨⟨htold, hsize⟩, hrest⟩ := List.forall_mem_cons.mp hfits
    refine ⟨⟨rfl, by simp [hpayload]⟩, ⟨rfl, by simp [htold]⟩, ?_⟩
    have hreceived : LegacyReceiver.receiveAll {} rest = some last := h
    have hsequence := LegacyReceiver.sequence_of_receiveAll hpart hreceived hlast hrest hends.2.2
      fun _ => rfl
    -- Neither frame is read by the size of the parts. What follows is read with the new one.
    have hreading : legacyFraming.next
        (legacyFraming.next {} (Packet.arrived (.odin 0x64 0x00 payload)))
        (Packet.arrived (.odin 0x64 0x05 told)) = ⟨partSize, 0⟩ := by
      have hnext : LegacyReading.next {} (.odin 0x64 0x05 told) = ⟨leAt told 0 4, 0⟩ := rfl
      rw [hsize ⟨rfl, rfl⟩] at hnext
      rw [← hnext, ← LegacyReading.next_arrived]
      rfl
    rwa [hreading]

/-- The bytes of a session can be told apart into its packets, as they arrive. -/
theorem readAll_session (hpart : 0 < partSize) (hsettled : SettlesSize partSize packets)
    (h : LegacyReceiver.receiveAll {} packets = some last) (hlast : last.due = 0)
    (hfits : ∀ packet ∈ packets, packet.FitsLegacy partSize) (hends : EndsBetween false packets) :
    legacyFraming.readAll {} (packets.flatMap Packet.encode) =
      some (packets.map Packet.arrived) := by
  have hencode : (packets.map Packet.arrived).flatMap Packet.encode =
      packets.flatMap Packet.encode := by
    rw [List.flatMap_map]
    exact List.flatMap_congr fun packet hpacket => encode_arrived (hfits packet hpacket)
  rw [← hencode]
  exact Framing.readAll_encode (sequence_of_settled hpart hsettled h hlast hfits hends)

end Sessions

end Odin4
