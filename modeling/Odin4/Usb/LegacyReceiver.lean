import Odin4.Usb.LegacyExact
import Odin4.Usb.Receiving

/-!
# The receiving side of legacy transfers

What a legacy device makes of the commands of a session: it collects the parts of
a sequence, cuts the padding off where the sequence ends and commits the image
with the last sequence. Parts that were not announced and an end that does not
fit are refused, and an image without its last sequence is dropped with the
session.
-/

namespace Odin4

open Interaction Program Dialogue

/-- Where an image goes. The images of a modem are not told apart. -/
structure LegacyTarget where
  binaryType : UInt32
  deviceType : UInt32
  identifier : Option UInt32
deriving DecidableEq, Repr

def PitEntry.legacyTarget (pitEntry : PitEntry) : LegacyTarget where
  binaryType := pitEntry.binaryType
  deviceType := pitEntry.deviceType
  identifier := if pitEntry.binaryType = 1 then none else some pitEntry.identifier

/-- What is told at the end of a sequence. -/
structure SequenceEnd where
  target : LegacyTarget
  realSize : Nat
  isLast : Bool
deriving DecidableEq, Repr

/-- A modem image is announced by its first word. -/
def sequenceEnd (payload : Bytes) : SequenceEnd where
  target :=
    { binaryType := UInt32.ofNat (leAt payload 8 4)
      deviceType := UInt32.ofNat (leAt payload 12 4)
      identifier := if leAt payload 0 4 = 1 then none else some (UInt32.ofNat (leAt payload 16 4)) }
  realSize := leAt payload 4 4
  isLast := leAt payload (if leAt payload 0 4 = 1 then 16 else 20) 4 == 1

structure IncomingSequence where
  announced : Nat
  data : Bytes := []
deriving DecidableEq, Repr

/-- An image that is coming in, with the target that its sequences tell. -/
structure LegacyFile where
  image : Bytes := []
  target : Option LegacyTarget := none
  sequence : Option IncomingSequence := none
deriving DecidableEq, Repr

structure LegacyImage where
  target : LegacyTarget
  image : Bytes
deriving DecidableEq, Repr

@[ext]
structure LegacyReceiver where
  incoming : Option LegacyFile := none
  committed : List LegacyImage := []
deriving DecidableEq, Repr

namespace LegacyFile

def announce (file : LegacyFile) (announced : Nat) : Option LegacyFile :=
  if file.sequence.isSome then none else some { file with sequence := some { announced } }

def take (file : LegacyFile) (bytes : Bytes) : Option LegacyFile :=
  (file.sequence.filter fun sequence =>
    decide (sequence.data.length + bytes.length ≤ sequence.announced)).map fun sequence =>
      { file with sequence := some { sequence with data := sequence.data ++ bytes } }

/-- The sequence is there as announced, and for the same target as those before. -/
def finish (file : LegacyFile) (told : SequenceEnd) : Option LegacyFile :=
  (file.sequence.filter fun sequence => decide (sequence.data.length = sequence.announced ∧
    told.realSize ≤ sequence.announced ∧ file.target.getD told.target = told.target)).map
      fun sequence => ⟨file.image ++ sequence.data.take told.realSize, some told.target, none⟩

end LegacyFile

namespace LegacyReceiver

def openFile (receiver : LegacyReceiver) : Option LegacyReceiver :=
  if receiver.incoming.isSome then none else some { receiver with incoming := some {} }

def updateFile (receiver : LegacyReceiver) (change : LegacyFile → Option LegacyFile) :
    Option LegacyReceiver :=
  (receiver.incoming.bind change).map fun file => { receiver with incoming := some file }

def endSequence (receiver : LegacyReceiver) (told : SequenceEnd) : Option LegacyReceiver :=
  (receiver.incoming.bind fun file => file.finish told).map fun file =>
    if told.isLast then ⟨none, receiver.committed ++ [⟨told.target, file.image⟩]⟩
    else { receiver with incoming := some file }

/-- Between two images nothing is changed. -/
def stayIdle (receiver : LegacyReceiver) : Option LegacyReceiver :=
  if receiver.incoming.isSome then none else some receiver

/-- The commands that write. -/
def flash (receiver : LegacyReceiver) (subcmd : UInt32) (payload : Bytes) :
    Option LegacyReceiver :=
  if subcmd = 0x00 then receiver.openFile
  else if subcmd = 0x02 then receiver.updateFile fun file => file.announce (leAt payload 0 4)
  else if subcmd = 0x03 then receiver.endSequence (sequenceEnd payload)
  else none

/-- The state behind a packet, unless the packet is refused. -/
def receive (receiver : LegacyReceiver) : Packet → Option LegacyReceiver
  | .odin cmd subcmd payload =>
      if cmd = 0x66 then receiver.flash subcmd payload
      else if cmd = 0x67 ∧ subcmd = 0x00 then some { receiver with incoming := none }
      else receiver.stayIdle
  | .data bytes => receiver.updateFile fun file => file.take bytes
  | .preamble => receiver.stayIdle
  | .thor _ => none

/-- The state behind some packets. -/
def receiveAll (receiver : LegacyReceiver) (packets : List Packet) : Option LegacyReceiver :=
  listen receive receiver packets

end LegacyReceiver

/-! ## The end of a sequence -/

/-- The words of a record. -/
theorem leAt_words {words : List Nat} {rest : Bytes} {i word : Nat} (hword : words[i]? = some word)
    (hsmall : word < 2 ^ 32) : leAt (words.flatMap (leBytes 4) ++ rest) (4 * i) 4 = word := by
  induction words generalizing i with
  | nil => cases hword
  | cons first words ih =>
      have hsplit : (first :: words).flatMap (leBytes 4) ++ rest =
          [] ++ leBytes 4 first ++ (words.flatMap (leBytes 4) ++ rest) := by simp
      cases i with
      | zero =>
          obtain rfl := Option.some.inj hword
          rw [hsplit, Nat.mul_zero, leAt_leBytes 4 first _ List.length_nil]
          exact Nat.mod_eq_of_lt hsmall
      | succ i =>
          have hstart : 4 * (i + 1) = 4 + 4 * i := by omega
          rw [hsplit, List.nil_append, hstart]
          exact (congrArg leNat (fieldAt_right (length_leBytes 4 first))).trans (ih hword)

/-- The device is told what the program knows. -/
theorem sequenceEnd_payload (pitEntry : PitEntry) {realSize : Nat} (hsize : realSize < 2 ^ 32)
    (isLast : Bool) :
    sequenceEnd (endSequencePayload pitEntry realSize isLast) =
      ⟨pitEntry.legacyTarget, realSize, isLast⟩ := by
  obtain ⟨flag, hflag⟩ : ∃ flag, flag = if isLast then 1 else 0 := ⟨_, rfl⟩
  have hsmall : flag < 2 ^ 32 := by cases isLast <;> simp [hflag]
  have hlast : (flag == 1) = isLast := by cases isLast <;> simp [hflag]
  have hbinary := pitEntry.binaryType.toNat_lt
  have hdevice := pitEntry.deviceType.toNat_lt
  unfold PitEntry.legacyTarget
  by_cases hmodem : pitEntry.binaryType = 1
  · have hpayload : endSequencePayload pitEntry realSize isLast =
        [1, realSize, pitEntry.binaryType.toNat, pitEntry.deviceType.toNat, flag].flatMap
          (leBytes 4) ++ leBytes 12 0 := by
      simp [endSequencePayload, hmodem, hflag]
    rw [hpayload, sequenceEnd, leAt_words (i := 0) rfl (by decide), leAt_words (i := 1) rfl hsize,
      leAt_words (i := 2) rfl hbinary, leAt_words (i := 3) rfl hdevice, if_pos rfl, if_pos rfl,
      if_pos hmodem, leAt_words (i := 4) rfl hsmall, hlast, UInt32.ofNat_toNat, UInt32.ofNat_toNat]
  · have hpayload : endSequencePayload pitEntry realSize isLast =
        [0, realSize, pitEntry.binaryType.toNat, pitEntry.deviceType.toNat,
          pitEntry.identifier.toNat, flag].flatMap (leBytes 4) ++ leBytes 8 0 := by
      simp [endSequencePayload, hmodem, hflag]
    rw [hpayload, sequenceEnd, leAt_words (i := 0) rfl (by decide), leAt_words (i := 1) rfl hsize,
      leAt_words (i := 2) rfl hbinary, leAt_words (i := 3) rfl hdevice, if_neg (by decide),
      if_neg (by decide), if_neg hmodem, leAt_words (i := 4) rfl pitEntry.identifier.toNat_lt,
      leAt_words (i := 5) rfl hsmall, hlast, UInt32.ofNat_toNat, UInt32.ofNat_toNat,
      UInt32.ofNat_toNat]

/-! ## What a packet does -/

namespace LegacyReceiver

variable {receiver next : LegacyReceiver} {packet : Packet}

theorem updateFile_committed {change : LegacyFile → Option LegacyFile}
    (h : receiver.updateFile change = some next) : next.committed = receiver.committed := by
  obtain ⟨file, -, rfl⟩ := Option.map_eq_some_iff.mp h
  rfl

theorem stayIdle_committed (h : receiver.stayIdle = some next) :
    next.committed = receiver.committed := by
  unfold stayIdle at h
  split at h
  next => cases h
  next =>
    obtain rfl := Option.some.inj h
    rfl

theorem flash_grows {subcmd : UInt32} {payload : Bytes}
    (h : receiver.flash subcmd payload = some next) : receiver.committed <+: next.committed := by
  unfold flash at h
  split at h
  next =>
    unfold openFile at h
    split at h
    next => cases h
    next =>
      obtain rfl := Option.some.inj h
      exact List.prefix_rfl
  split at h
  next => rw [updateFile_committed h]
  split at h
  next =>
    obtain ⟨file, -, rfl⟩ := Option.map_eq_some_iff.mp h
    split
    next => exact List.prefix_append _ _
    next => exact List.prefix_rfl
  next => cases h

/-- What has been committed stays. -/
theorem receive_grows (h : receiver.receive packet = some next) :
    receiver.committed <+: next.committed := by
  cases packet with
  | preamble => rw [stayIdle_committed h]
  | thor packet => cases h
  | data bytes => rw [updateFile_committed h]
  | odin cmd subcmd payload =>
      rw [receive] at h
      split at h
      next => exact flash_grows h
      split at h
      next =>
        obtain rfl := Option.some.inj h
        exact List.prefix_rfl
      next => rw [stayIdle_committed h]

end LegacyReceiver

/-! ## Transfers -/

section Transfers

variable {usb : UsbDevice} (size : Nat) (image : Bytes) (target : Option LegacyTarget)
variable (committed : List LegacyImage)

/-- A sequence that is coming in, of an image of which the sequences before are there. -/
def receivingSequence (announced : Nat) (data : Bytes) : LegacyReceiver where
  incoming := some { image, target, sequence := some { announced, data } }
  committed

/-- A part for which there is room. -/
theorem receive_data {announced : Nat} {data bytes : Bytes}
    (hroom : data.length + bytes.length ≤ announced) :
    (receivingSequence image target committed announced data).receive (.data bytes) =
      some (receivingSequence image target committed announced (data ++ bytes)) := by
  simp [receivingSequence, LegacyReceiver.receive, LegacyReceiver.updateFile, LegacyFile.take, hroom]

theorem takes_part {announced flashTimeoutMs : Nat} {index : UInt32} {data bytes : Bytes}
    (hroom : data.length + bytes.length ≤ announced) :
    Takes LegacyReceiver.receive (receivingSequence image target committed announced data)
      (odinSendFilePartAndAck flashTimeoutMs bytes index) fun _ receiver =>
        receiver = receivingSequence image target committed announced (data ++ bytes) :=
  takes_packet (odinSendFilePartAndAck_follows.mono fun _ _ => messages_of_follows)
    (receive_data image target committed hroom)

/-- As long as there is room, parts are taken whatever comes of them. -/
theorem takes_sendLegacyParts {announced parts : Nat} {data : Bytes} (transfer : LegacyTransfer)
    (hroom : data.length + parts * usb.odinFlashPacketSize ≤ announced) :
    Takes LegacyReceiver.receive (receivingSequence image target committed announced data)
      (sendLegacyParts usb size parts transfer) fun _ receiver =>
        ∃ data, receiver = receivingSequence image target committed announced data := by
  induction parts generalizing transfer data with
  | zero => exact hears_pure ⟨data, rfl⟩
  | succ parts ih =>
      rw [Nat.succ_mul] at hroom
      rw [sendLegacyParts]
      generalize hread : (if 0 < min (size - transfer.totalSent) usb.odinFlashPacketSize then
        transfer.stream.read (min (size - transfer.totalSent) usb.odinFlashPacketSize)
        else ([], transfer.stream)) = read
      obtain ⟨bytes, stream⟩ := read
      dsimp only
      refine hears_ite (fun _ => hears_pure ⟨data, rfl⟩) fun hfull => ?_
      obtain ⟨part, hpart⟩ : ∃ part, part =
        bytes ++ List.replicate (usb.odinFlashPacketSize - bytes.length) 0 := ⟨_, rfl⟩
      have hlength : part.length = usb.odinFlashPacketSize := by
        rw [hpart, List.length_append, List.length_replicate]
        omega
      rw [← hpart]
      refine hears_unless (takes_part image target committed (by omega))
        (fun next hnext => ⟨_, hnext⟩) fun next hnext => ?_
      subst hnext
      exact ih _ (by rw [List.length_append]; omega)

/-- The receiver behind the packets of parts for which there is room. -/
theorem listen_partPackets {announced : Nat} {data : Bytes} {payloads : List Bytes}
    (hroom : data.length + payloads.flatten.length ≤ announced) :
    listen LegacyReceiver.receive (receivingSequence image target committed announced data)
        (partPackets payloads) =
      some (receivingSequence image target committed announced (data ++ payloads.flatten)) := by
  induction payloads generalizing data with
  | nil => simp [partPackets]
  | cons payload rest ih =>
      rw [List.flatten_cons, List.length_append] at hroom
      rw [partPackets, List.map_cons, ← partPackets, listen_cons,
        receive_data image target committed (by omega), Option.bind_some,
        ih (by rw [List.length_append]; omega), List.flatten_cons, List.append_assoc]

/-- An image of which some sequences are there. -/
def betweenSequences : LegacyReceiver where
  incoming := some { image, target }
  committed

/-- The receiver behind a sequence, which may be the last one of the image. -/
def behindSequence (image : Bytes) (target : LegacyTarget) (isLast : Bool) : LegacyReceiver :=
  if isLast then ⟨none, committed ++ [⟨target, image⟩]⟩
  else betweenSequences image (some target) committed

theorem receive_announcement {announced : Nat} (hsmall : announced < 2 ^ 32) :
    (betweenSequences image target committed).receive (.odin 0x66 0x02 (leBytes 4 announced)) =
      some (receivingSequence image target committed announced []) := by
  have hread : leAt (leBytes 4 announced) 0 4 = announced := by
    have hat := leAt_leBytes 4 announced [] (List.length_nil (α := UInt8))
    rw [List.nil_append, List.append_nil] at hat
    exact hat.trans (Nat.mod_eq_of_lt hsmall)
  simp [betweenSequences, receivingSequence, LegacyReceiver.receive, LegacyReceiver.flash,
    LegacyReceiver.updateFile, LegacyFile.announce, hread]

theorem receive_sequenceEnd (pitEntry : PitEntry) {announced realSize : Nat} {data : Bytes}
    (isLast : Bool) (hsmall : realSize < 2 ^ 32) (hreal : realSize ≤ announced)
    (hdata : data.length = announced)
    (htarget : target.getD pitEntry.legacyTarget = pitEntry.legacyTarget) :
    (receivingSequence image target committed announced data).receive
        (.odin 0x66 0x03 (endSequencePayload pitEntry realSize isLast)) =
      some (behindSequence committed (image ++ data.take realSize) pitEntry.legacyTarget isLast) := by
  have htold := sequenceEnd_payload pitEntry hsmall isLast
  cases isLast <;>
    simp [receivingSequence, behindSequence, betweenSequences, LegacyReceiver.receive,
      LegacyReceiver.flash, LegacyReceiver.endSequence, LegacyFile.finish, htold, hdata, hreal, htarget]

/-- A sequence is received as a whole or commits nothing. Its end may still be
refused. -/
theorem takes_sendLegacySequence (hlayout : SequenceLayout usb) (pitEntry : PitEntry)
    {realSize : Nat} (isLast : Bool) (transfer : LegacyTransfer)
    (hsmall : realSize + padding usb.odinFlashPacketSize realSize < 2 ^ 32)
    (hdue : transfer.due size (realSize + padding usb.odinFlashPacketSize realSize) = realSize)
    (htarget : target.getD pitEntry.legacyTarget = pitEntry.legacyTarget) :
    Takes LegacyReceiver.receive (betweenSequences image target committed)
      (sendLegacySequence usb pitEntry size realSize isLast transfer) fun next? receiver =>
        next? = none ∧ receiver.committed = committed ∨
        realSize ≤ transfer.stream.rest.length ∧
          receiver = behindSequence committed (image ++ transfer.stream.rest.take realSize)
            pitEntry.legacyTarget isLast ∧
          ∀ next, next? = some next → ∃ parts, next = transfer.move realSize parts := by
  obtain ⟨aligned, haligned⟩ : ∃ n, n = alignedSize usb.odinFlashPacketSize realSize := ⟨_, rfl⟩
  obtain ⟨parts, hparts⟩ : ∃ n, n = aligned / usb.odinFlashPacketSize := ⟨_, rfl⟩
  unfold sendLegacySequence
  rw [← haligned]
  dsimp only
  rw [← hparts]
  rw [alignedSize_eq hlayout.packet_pos hsmall] at haligned
  have hroom : parts * usb.odinFlashPacketSize = aligned := by
    rw [hparts, haligned, Nat.div_mul_cancel (dvd_add_padding hlayout.packet_pos realSize)]
  rw [haligned] at hparts
  have hrequest : Takes LegacyReceiver.receive (betweenSequences image target committed)
      (odinRequestSequenceFlash aligned) fun _ next =>
        next = receivingSequence image target committed aligned [] := by
    refine takes_packet ((odinCheckedCommand_single (by simp [odinFrameSize]) rfl rfl).mono
      fun _ _ => Single.messages_eq) ?_
    exact receive_announcement image target committed (haligned ▸ hsmall)
  refine hears_unless hrequest (fun next hnext => .inl ⟨rfl, by rw [hnext]; rfl⟩) fun next hnext => ?_
  subst hnext
  have hfits : ([] : Bytes).length + parts * usb.odinFlashPacketSize ≤ aligned := by
    rw [List.length_nil, Nat.zero_add, hroom]
  have hsend := (takes_sendLegacyParts size image target committed transfer hfits).and_exchanges
    (sendLegacyParts_follows usb size parts transfer)
  refine hears_bind hsend fun next? receiver hreceived => ?_
  obtain ⟨⟨data, rfl⟩, xs, ⟨payloads, ok, hfollows, hdone, -⟩, hlisten⟩ := hreceived
  cases next? with
  | none => exact hears_pure (.inl ⟨rfl, rfl⟩)
  | some next =>
      obtain ⟨rfl, hsent, rfl⟩ := hdone next rfl
      obtain ⟨hlength, havailable, hcontent, hmoved⟩ := hsent.exact hlayout hparts hdue
      rw [← haligned] at hlength
      -- What has been taken are the parts that were sent.
      rw [hfollows.completed.2, listen_partPackets image target committed (by simp [hlength])]
        at hlisten
      obtain rfl : payloads.flatten = data := by
        simpa [receivingSequence] using Option.some.inj hlisten
      have htake : payloads.flatten.take realSize = transfer.stream.rest.take realSize := by
        rw [hcontent, List.take_append_of_le_length (by rw [List.length_take_of_le havailable]),
          List.take_of_length_le (by rw [List.length_take_of_le havailable])]
      have hend : Takes LegacyReceiver.receive
          (receivingSequence image target committed aligned payloads.flatten)
          (odinEndSequenceFlash usb.odinFlashTimeoutMs pitEntry realSize isLast) fun _ next =>
            next = behindSequence committed (image ++ transfer.stream.rest.take realSize)
              pitEntry.legacyTarget isLast := by
        have hframe : 8 + (endSequencePayload pitEntry realSize isLast).length ≤ odinFrameSize := by
          rw [length_endSequencePayload, odinFrameSize]
          omega
        refine takes_packet ((odinCheckedCommand_single hframe rfl rfl).mono
          fun _ _ => Single.messages_eq) ?_
        rw [receive_sequenceEnd image target committed pitEntry isLast (by omega) (by omega) hlength
          htarget, htake]
      refine hears_unless hend (fun next hnext => .inr ⟨havailable, hnext, by simp⟩)
        fun next hnext => hears_pure (.inr ⟨havailable, hnext, ?_⟩)
      rintro _ ⟨rfl⟩
      exact ⟨parts, by rw [hmoved]⟩

/-- By induction on the sequences: those before the last one are full and told for
the same target, and the last one commits the image. -/
theorem takes_sendLegacySequences (hlayout : SequenceLayout usb) (pitEntry : PitEntry)
    {lastSequence count : Nat} (transfer : LegacyTransfer)
    (hlast : 0 < lastSequence ∧ lastSequence ≤ sequenceBytes usb) (hcount : 0 < count)
    (hsize : transfer.totalSent + (count - 1) * sequenceBytes usb + lastSequence = size)
    (htarget : target.getD pitEntry.legacyTarget = pitEntry.legacyTarget) :
    Takes LegacyReceiver.receive (betweenSequences image target committed)
      (sendLegacySequences usb pitEntry size (sequenceBytes usb) lastSequence count transfer)
      fun next? receiver =>
        next? = none ∧ receiver.committed = committed ∨
        size - transfer.totalSent ≤ transfer.stream.rest.length ∧
          receiver = ⟨none, committed ++ [⟨pitEntry.legacyTarget,
            image ++ transfer.stream.rest.take (size - transfer.totalSent)⟩]⟩ := by
  have hlt := hlayout.bytes_lt
  induction count generalizing transfer image target with
  | zero => omega
  | succ count ih =>
      rw [sendLegacySequences]
      cases count with
      | zero =>
          -- The last sequence is padded. Its end tells how much of it counts.
          have hleft : size - transfer.totalSent = lastSequence := by omega
          have hpadded := add_padding_le hlayout.packet_pos hlast.2 hlayout.packet_dvd
          have hdue : transfer.due size (lastSequence + padding usb.odinFlashPacketSize lastSequence) =
              lastSequence := by
            rw [LegacyTransfer.due, hleft]
            omega
          simp only [hleft, BEq.rfl, ↓reduceIte]
          refine hears_bind (takes_sendLegacySequence size image target committed hlayout pitEntry
            true transfer (by omega) hdue htarget) fun next? receiver hreceived => ?_
          obtain ⟨rfl, hcommitted⟩ | ⟨havailable, hbehind, -⟩ := hreceived
          · exact hears_pure (.inl ⟨rfl, hcommitted⟩)
          · cases next? with
            | none => exact hears_pure (.inr ⟨havailable, hbehind⟩)
            | some next => exact hears_pure (.inr ⟨havailable, hbehind⟩)
      | succ count =>
          -- The sequences before it are full and have no padding.
          have hmul : (count + 1 + 1 - 1) * sequenceBytes usb =
              (count + 1 - 1) * sequenceBytes usb + sequenceBytes usb := Nat.succ_mul _ _
          have hpadding := padding_of_dvd hlayout.packet_dvd
          have hdue : transfer.due size (sequenceBytes usb +
              padding usb.odinFlashPacketSize (sequenceBytes usb)) = sequenceBytes usb := by
            rw [LegacyTransfer.due]
            omega
          have hnotLast : (count + 1 == 0) = false := rfl
          rw [hnotLast, if_neg Bool.false_ne_true, Nat.mod_eq_of_lt hlt]
          refine hears_bind (takes_sendLegacySequence size image target committed hlayout pitEntry
            false transfer (by omega) hdue htarget) fun next? receiver hreceived => ?_
          obtain ⟨rfl, hcommitted⟩ | ⟨havailable, rfl, hnext⟩ := hreceived
          · exact hears_pure (.inl ⟨rfl, hcommitted⟩)
          · cases next? with
            | none => exact hears_pure (.inl ⟨rfl, rfl⟩)
            | some next =>
                obtain ⟨parts, rfl⟩ := hnext next rfl
                have hsplit : size - transfer.totalSent =
                    sequenceBytes usb + (size - (transfer.totalSent + sequenceBytes usb)) := by omega
                have hrest := ih (image ++ transfer.stream.rest.take (sequenceBytes usb))
                  (some pitEntry.legacyTarget) (transfer.move (sequenceBytes usb) parts)
                  (Nat.succ_pos _) (by simp only [LegacyTransfer.move]; omega) rfl
                refine hrest.mono fun last? receiver hreceived => ?_
                simp only [LegacyTransfer.move, FileStream.rest_advance, List.length_drop]
                  at hreceived
                refine hreceived.imp_right fun h => ?_
                obtain ⟨hlength, rfl⟩ := h
                refine ⟨by omega, ?_⟩
                rw [List.append_assoc, ← List.take_add, ← hsplit]

/-- An image is committed as a whole or not at all. -/
theorem takes_flashLegacyStream (hparameters : LegacyParameters usb) (stream : FileStream)
    (hsize : size < 2 ^ 63) (pitEntry : PitEntry) :
    Takes LegacyReceiver.receive ⟨none, committed⟩ (flashLegacyStream usb stream size pitEntry)
      fun result receiver =>
        result.1 = false ∧ receiver.committed = committed ∨
        LegacyFits usb size ∧ size ≤ stream.rest.length ∧
          receiver = ⟨none, committed ++ [⟨pitEntry.legacyTarget, stream.rest.take size⟩]⟩ := by
  have hlayout := hparameters.layout
  have hrequest : Takes LegacyReceiver.receive ⟨none, committed⟩ odinRequestFileFlash fun _ next =>
      next = betweenSequences [] none committed :=
    takes_packet ((odinCheckedCommand_single (by simp [odinFrameSize]) rfl rfl).mono
      fun _ _ => Single.messages_eq) rfl
  have hreset : ∀ image, Takes LegacyReceiver.receive ⟨none, committed ++ [image]⟩
      odinResetFlashCount fun _ next => next = ⟨none, committed ++ [image]⟩ := fun image =>
    takes_packet ((odinCheckedCommand_single (by simp [odinFrameSize]) rfl rfl).mono
      fun _ _ => Single.messages_eq) rfl
  unfold flashLegacyStream
  refine hears_unless hrequest (fun next hnext => .inl ⟨rfl, by rw [hnext]; rfl⟩) fun next hnext => ?_
  subst hnext
  dsimp only
  refine hears_ite (fun _ => hears_pure (.inl ⟨rfl, rfl⟩)) fun hzero => ?_
  refine hears_ite (fun _ => hears_pure (.inl ⟨rfl, rfl⟩)) fun hmany => ?_
  refine hears_ite (fun _ => hears_pure (.inl ⟨rfl, rfl⟩)) fun hlast => ?_
  have hfits : LegacyFits usb size := ⟨hzero, hmany, hlast⟩
  obtain ⟨hone, hmax⟩ := hfits.bounds hlayout hsize
  obtain ⟨-, hpos, -, hsplit, hrange⟩ :=
    legacySequences_spec hlayout.bytes_pos hlayout.bytes_lt hone hmax
  have hsend := takes_sendLegacySequences size [] none committed hlayout pitEntry ⟨stream, 0, 0⟩
    hrange hpos (by simpa using hsplit) rfl
  refine hears_bind hsend fun next? receiver hreceived => ?_
  simp only [Nat.sub_zero, List.nil_append] at hreceived
  obtain ⟨rfl, hcommitted⟩ | ⟨havailable, rfl⟩ := hreceived
  · exact hears_pure (.inl ⟨rfl, hcommitted⟩)
  -- The image is committed even where the reply to its end is refused.
  · cases next? with
    | none => exact hears_pure (.inr ⟨hfits, havailable, rfl⟩)
    | some next =>
        refine hears_bind (hreset _) fun ok receiver hnext => hears_pure ?_
        exact .inr ⟨hfits, havailable, hnext⟩

end Transfers

end Odin4
