import Odin4.Foundation.Padding
import Odin4.Usb.Accepting

/-!
# Exactness of legacy transfers

A legacy transfer that succeeds has cut the image without loss: every sequence
announces its parts, the real sizes add up to the image, and only the last part
is padded. The numbers in the acknowledgements are 32-bit numbers.
-/

namespace Odin4

open Interaction Program Dialogue

/-- The two settings that a begun legacy session can have. -/
def LegacyParameters (usb : UsbDevice) : Prop :=
  usb.odinFlashPacketSize = 131072 ∧ usb.odinFlashSequenceCount = 240 ∨
    usb.odinFlashPacketSize = 1048576 ∧ usb.odinFlashSequenceCount = 30

/-- Bytes of a full sequence. -/
def sequenceBytes (usb : UsbDevice) : Nat := usb.odinFlashPacketSize * usb.odinFlashSequenceCount

/-- What the rest of the code relies on about the settings. -/
structure SequenceLayout (usb : UsbDevice) : Prop where
  packet_pos : 0 < usb.odinFlashPacketSize
  packet_dvd : usb.odinFlashPacketSize ∣ sequenceBytes usb
  bytes_pos : 0 < sequenceBytes usb
  bytes_lt : sequenceBytes usb < 2 ^ 32

theorem LegacyParameters.layout {usb : UsbDevice} (h : LegacyParameters usb) :
    SequenceLayout usb := by
  refine ⟨?_, ⟨_, rfl⟩, ?_, ?_⟩ <;>
    obtain ⟨hsize, hcount⟩ | ⟨hsize, hcount⟩ := h <;> simp [sequenceBytes, hsize, hcount]

theorem alignedSize_eq {packetSize realSize : Nat} (hpacket : 0 < packetSize)
    (hfits : realSize + padding packetSize realSize < 2 ^ 32) :
    alignedSize packetSize realSize = realSize + padding packetSize realSize := by
  unfold alignedSize
  split
  next hzero => rw [padding_of_dvd (Nat.dvd_of_mod_eq_zero hzero), Nat.add_zero]
  next hrest =>
    have hmod := Nat.mod_lt realSize hpacket
    have hpadding : padding packetSize realSize = packetSize - realSize % packetSize :=
      Nat.mod_eq_of_lt (by omega)
    rw [hpadding] at hfits ⊢
    exact Nat.mod_eq_of_lt hfits

/-! ## Sequences -/

section Sequences

variable {usb : UsbDevice} {size : Nat}

/-- All the parts of some sequences. -/
def allPayloads (sequences : List LegacySequence) : List Bytes :=
  sequences.flatMap LegacySequence.payloads

theorem allPayloads_cons (sequence : LegacySequence) (rest : List LegacySequence) :
    allPayloads (sequence :: rest) = sequence.payloads ++ allPayloads rest := rfl

/-- Sequences that carry the first `length` bytes of `bytes`: full ones without
the last flag, and a last one that is padded. -/
structure SequencesExact (usb : UsbDevice) (bytes : Bytes) (length : Nat)
    (sequences : List LegacySequence) : Prop where
  available : length ≤ bytes.length
  full : ∀ sequence ∈ sequences, ∀ payload ∈ sequence.payloads,
    payload.length = usb.odinFlashPacketSize
  content : (allPayloads sequences).flatten = bytes.take length ++
    List.replicate (padding usb.odinFlashPacketSize length) 0
  announced : ∀ sequence ∈ sequences,
    sequence.announced = sequence.payloads.flatten.length ∧
      sequence.announced =
        sequence.realSize + padding usb.odinFlashPacketSize sequence.realSize ∧
      sequence.announced < 2 ^ 32
  real_sum : (sequences.map LegacySequence.realSize).sum = length
  last_only : ∃ init last, sequences = init ++ [last] ∧ last.isLast = true ∧
    ∀ sequence ∈ init, sequence.isLast = false ∧ sequence.realSize = sequenceBytes usb ∧
      sequence.announced = sequenceBytes usb

theorem length_flatten_of_full {payloads : List Bytes} {packetSize : Nat}
    (h : ∀ payload ∈ payloads, payload.length = packetSize) :
    payloads.flatten.length = payloads.length * packetSize := by
  induction payloads with
  | nil => simp
  | cons payload rest ih =>
      rw [List.flatten_cons, List.length_append, h payload List.mem_cons_self,
        ih fun p hp => h p (List.mem_cons_of_mem _ hp), List.length_cons, Nat.succ_mul, Nat.add_comm]

/-- One sequence of `realSize` bytes of the image. -/
theorem PartsSent.exact {realSize parts : Nat} {transfer : LegacyTransfer} {payloads : List Bytes}
    (hlayout : SequenceLayout usb)
    (hparts : parts = (realSize + padding usb.odinFlashPacketSize realSize) /
      usb.odinFlashPacketSize)
    (hdue : transfer.due size (realSize + padding usb.odinFlashPacketSize realSize) = realSize)
    (h : PartsSent usb size parts transfer payloads) :
    payloads.flatten.length = realSize + padding usb.odinFlashPacketSize realSize ∧
      realSize ≤ transfer.stream.rest.length ∧
      payloads.flatten = transfer.stream.rest.take realSize ++
        List.replicate (padding usb.odinFlashPacketSize realSize) 0 ∧
      transfer.due size (parts * usb.odinFlashPacketSize) = realSize := by
  have hroom : parts * usb.odinFlashPacketSize =
      realSize + padding usb.odinFlashPacketSize realSize := by
    rw [hparts, Nat.div_mul_cancel (dvd_add_padding hlayout.packet_pos realSize)]
  obtain ⟨hcount, hfull, havailable, hcontent⟩ := h
  rw [hroom, hdue] at havailable hcontent
  rw [Nat.add_sub_cancel_left] at hcontent
  refine ⟨?_, havailable, hcontent, by rw [hroom, hdue]⟩
  rw [length_flatten_of_full hfull, hcount, hroom]

/-- The last sequence, which is padded. -/
theorem SequencesExact.single {bytes : Bytes} {length aligned : Nat} {payloads : List Bytes}
    (hfull : ∀ payload ∈ payloads, payload.length = usb.odinFlashPacketSize)
    (havailable : length ≤ bytes.length)
    (hlength : payloads.flatten.length = length + padding usb.odinFlashPacketSize length)
    (hcontent : payloads.flatten = bytes.take length ++
      List.replicate (padding usb.odinFlashPacketSize length) 0)
    (haligned : aligned = length + padding usb.odinFlashPacketSize length)
    (hfits : aligned < 2 ^ 32) :
    SequencesExact usb bytes length [⟨aligned, payloads, length, true⟩] where
  available := havailable
  full := by simpa using hfull
  content := by simpa [allPayloads] using hcontent
  announced := List.forall_mem_singleton.mpr ⟨haligned.trans hlength.symm, haligned, hfits⟩
  real_sum := by simp
  last_only := ⟨[], _, rfl, rfl, by simp⟩

/-- A full sequence in front of others. -/
theorem SequencesExact.cons {bytes : Bytes} {length : Nat} {payloads : List Bytes}
    {sequences : List LegacySequence} (hlayout : SequenceLayout usb)
    (hfull : ∀ payload ∈ payloads, payload.length = usb.odinFlashPacketSize)
    (hcontent : payloads.flatten = bytes.take (sequenceBytes usb))
    (havailable : sequenceBytes usb ≤ bytes.length)
    (hrest : SequencesExact usb (bytes.drop (sequenceBytes usb)) length sequences) :
    SequencesExact usb bytes (sequenceBytes usb + length)
      (⟨sequenceBytes usb, payloads, sequenceBytes usb, false⟩ :: sequences) where
  available := by
    have := hrest.available
    rw [List.length_drop] at this
    omega
  full := List.forall_mem_cons.mpr ⟨hfull, hrest.full⟩
  content := by
    rw [allPayloads_cons, List.flatten_append, hrest.content, hcontent, ← List.append_assoc,
      ← List.take_add, padding_add hlayout.packet_dvd]
  announced := by
    refine List.forall_mem_cons.mpr ⟨⟨?_, ?_, hlayout.bytes_lt⟩, hrest.announced⟩
    · rw [hcontent, List.length_take_of_le havailable]
    · rw [padding_of_dvd hlayout.packet_dvd, Nat.add_zero]
  real_sum := by rw [List.map_cons, List.sum_cons, hrest.real_sum]
  last_only := by
    obtain ⟨init, last, rfl, hlast, hinit⟩ := hrest.last_only
    exact ⟨_ :: init, last, rfl, hlast, List.forall_mem_cons.mpr ⟨⟨rfl, rfl, rfl⟩, hinit⟩⟩

/-- The sequences of a transfer whose count and last size fit its size. -/
theorem SequencesSent.exact {lastSequence count : Nat} {transfer next : LegacyTransfer}
    {sequences : List LegacySequence} (hlayout : SequenceLayout usb)
    (hlast : 0 < lastSequence ∧ lastSequence ≤ sequenceBytes usb) (hcount : 0 < count)
    (hsize : transfer.totalSent + (count - 1) * sequenceBytes usb + lastSequence = size)
    (h : SequencesSent usb size (sequenceBytes usb) lastSequence count transfer next sequences) :
    SequencesExact usb transfer.stream.rest (size - transfer.totalSent) sequences ∧
      sequences.length = count ∧
      next.stream = transfer.stream.advance (size - transfer.totalSent) := by
  induction h with
  | done => omega
  | @cons count transfer next payloads rest realSize aligned parts hreal haligned hparts hsent hrest
      ih =>
      have hlt := hlayout.bytes_lt
      have hle : realSize ≤ sequenceBytes usb := by
        rw [hreal]
        split
        · exact hlast.2
        · exact Nat.mod_le _ _
      have hpadded := add_padding_le hlayout.packet_pos hle hlayout.packet_dvd
      rw [alignedSize_eq hlayout.packet_pos (by omega)] at haligned
      rw [haligned] at hparts
      have hfull := hsent.full
      -- Only the last sequence may be padded.
      cases count with
      | zero =>
          obtain rfl : realSize = lastSequence := by simpa using hreal
          have hleft : size - transfer.totalSent = realSize := by omega
          have hdue : transfer.due size
              (realSize + padding usb.odinFlashPacketSize realSize) = realSize := by
            rw [LegacyTransfer.due, hleft]
            omega
          obtain ⟨hlength, havailable, hcontent, hmoved⟩ := hsent.exact hlayout hparts hdue
          cases hrest
          rw [hleft, hmoved]
          exact ⟨.single hfull havailable hlength hcontent haligned (by omega), rfl, rfl⟩
      | succ count =>
          have hreal' : realSize = sequenceBytes usb := by
            rw [hreal, if_neg (by omega), Nat.mod_eq_of_lt hlt]
          have hpadding : padding usb.odinFlashPacketSize realSize = 0 :=
            padding_of_dvd (hreal' ▸ hlayout.packet_dvd)
          have hmul : (count + 1 + 1 - 1) * sequenceBytes usb =
              (count + 1 - 1) * sequenceBytes usb + sequenceBytes usb := Nat.succ_mul _ _
          have hdue : transfer.due size
              (realSize + padding usb.odinFlashPacketSize realSize) = realSize := by
            rw [LegacyTransfer.due]
            omega
          obtain ⟨-, havailable, hcontent, hmoved⟩ := hsent.exact hlayout hparts hdue
          rw [hmoved] at ih
          obtain ⟨hexact, hlength, hstream⟩ := ih (Nat.succ_pos _) (by
            simp only [LegacyTransfer.move]
            omega)
          rw [hpadding, List.replicate_zero, List.append_nil, hreal'] at hcontent
          rw [hpadding, Nat.add_zero] at haligned
          simp only [LegacyTransfer.move, FileStream.rest_advance, FileStream.advance_advance]
            at hexact hstream
          rw [hreal'] at hexact havailable hstream
          have hsplit : size - transfer.totalSent =
              sequenceBytes usb + (size - (transfer.totalSent + sequenceBytes usb)) := by omega
          rw [hsplit, haligned, hreal']
          exact ⟨.cons hlayout hfull hcontent havailable hexact, by simp [hlength], hstream⟩

end Sequences

/-! ## Counting sequences -/

/-- The number of sequences and the size of the last one, without wrapping. -/
theorem legacySequences_spec {sequenceBytes size : Nat} (hpos : 0 < sequenceBytes)
    (hlt : sequenceBytes < 2 ^ 32) (hsize : 1 ≤ size)
    (hmax : size ≤ (2 ^ 32 - 1) * sequenceBytes) :
    legacySequences size sequenceBytes = (size + sequenceBytes - 1) / sequenceBytes ∧
      0 < legacySequences size sequenceBytes ∧ legacySequences size sequenceBytes < 2 ^ 32 ∧
      (legacySequences size sequenceBytes - 1) * sequenceBytes +
        legacyLastSequence size sequenceBytes (legacySequences size sequenceBytes) = size ∧
      0 < legacyLastSequence size sequenceBytes (legacySequences size sequenceBytes) ∧
      legacyLastSequence size sequenceBytes (legacySequences size sequenceBytes) ≤
        sequenceBytes := by
  have hbound : (2 ^ 32 - 1) * sequenceBytes ≤ (2 ^ 32 - 1) * 2 ^ 32 :=
    Nat.mul_le_mul_left _ hlt.le
  have hcount : legacySequences size sequenceBytes =
      (size + sequenceBytes - 1) / sequenceBytes := by
    rw [legacySequences, Nat.mod_eq_of_lt (by omega)]
  have hsplit := Nat.div_add_mod (size + sequenceBytes - 1) sequenceBytes
  have hrest := Nat.mod_lt (size + sequenceBytes - 1) hpos
  have hone : 0 < (size + sequenceBytes - 1) / sequenceBytes := Nat.div_pos (by omega) hpos
  have hmany : (size + sequenceBytes - 1) / sequenceBytes < 2 ^ 32 := by
    rw [Nat.div_lt_iff_lt_mul hpos]
    have hmul : 2 ^ 32 * sequenceBytes = (2 ^ 32 - 1) * sequenceBytes + sequenceBytes := by
      rw [← Nat.succ_mul]
      rfl
    omega
  rw [legacyLastSequence, hcount]
  obtain ⟨n, hn⟩ : ∃ n, (size + sequenceBytes - 1) / sequenceBytes = n + 1 :=
    ⟨_, (Nat.succ_pred_eq_of_pos hone).symm⟩
  rw [hn] at hsplit hmany ⊢
  rw [Nat.mul_succ, Nat.mul_comm sequenceBytes] at hsplit
  simp only [Nat.add_sub_cancel]
  have hpred : size + sequenceBytes - 1 + 1 = size + sequenceBytes := by omega
  generalize size + sequenceBytes - 1 = total at hsplit hrest hpred
  generalize n * sequenceBytes = full at hsplit ⊢
  rw [if_neg (by omega)]
  refine ⟨trivial, by omega, hmany, by omega, by omega, by omega⟩

/-- Sizes in the range of the protocol pass the checks before the first sequence. -/
theorem legacyFits_of_le {usb : UsbDevice} {size : Nat} (hlayout : SequenceLayout usb)
    (hsize : 1 ≤ size) (hmax : size ≤ (2 ^ 32 - 1) * sequenceBytes usb) : LegacyFits usb size := by
  obtain ⟨-, hpos, hlt, -, -, hlast⟩ :=
    legacySequences_spec hlayout.bytes_pos hlayout.bytes_lt hsize hmax
  have hbytes := hlayout.bytes_lt
  have hnonzero := hlayout.bytes_pos
  unfold sequenceBytes at hpos hlt hlast hbytes hnonzero
  exact ⟨by omega, by omega, by omega⟩

/-! ## Acknowledgements -/

/-- The number in the acknowledgement of a legacy file part. -/
def Exchange.partAck? (x : Exchange) : Option Nat :=
  match x.packet, x.reads with
  | .data _, [.bulkReadOnce _ _ (some rsp)] => some (leAt rsp.val 4 4)
  | _, _ => none

/-- The numbers in the acknowledgements of all the parts. -/
def partAcks (xs : List Exchange) : List Nat := xs.filterMap Exchange.partAck?

/-- The numbers of the file parts among some packets, counted from `index`. -/
def partNumbers : (index : UInt32) → List Packet → List Nat
  | _, [] => []
  | index, .data _ :: rest => index.toNat :: partNumbers (index + 1) rest
  | index, packet :: rest => partNumbers (packet.nextPart index) rest

theorem partNumbers_odin (index cmd subcmd : UInt32) (payload : Bytes) (rest : List Packet) :
    partNumbers index (.odin cmd subcmd payload :: rest) =
      partNumbers ((Packet.odin cmd subcmd payload).nextPart index) rest := rfl

theorem partNumbers_append (index : UInt32) (first second : List Packet) :
    partNumbers index (first ++ second) =
      partNumbers index first ++ partNumbers (first.foldl Packet.nextPart index) second := by
  induction first generalizing index with
  | nil => rfl
  | cons packet rest ih =>
      cases packet <;> simp only [List.cons_append, partNumbers, ih, List.foldl_cons, Packet.nextPart]

theorem partNumbers_partPackets (index : UInt32) (payloads : List Bytes) :
    partNumbers index (partPackets payloads) =
      (List.range payloads.length).map fun k => (index + UInt32.ofNat k).toNat := by
  induction payloads generalizing index with
  | nil => rfl
  | cons payload rest ih =>
      have hzero : index + UInt32.ofNat 0 = index := UInt32.add_zero index
      have hnext : ∀ k, index + 1 + UInt32.ofNat k = index + UInt32.ofNat (k + 1) := by
        intro k
        rw [UInt32.ofNat_add]
        ac_rfl
      rw [partPackets, List.map_cons, ← partPackets, partNumbers, ih, List.length_cons,
        List.range_succ_eq_map, List.map_cons, List.map_map]
      simp only [hnext, hzero]
      rfl

theorem partNumbers_sequences (pitEntry : PitEntry) (index : UInt32)
    (sequences : List LegacySequence) :
    partNumbers index (sequences.flatMap (LegacySequence.packets pitEntry)) =
      (List.range (allPayloads sequences).length).map fun k => (index + UInt32.ofNat k).toNat := by
  induction sequences generalizing index with
  | nil => rfl
  | cons sequence rest ih =>
      have hfirst : partNumbers index (sequence.packets pitEntry) =
          (List.range sequence.payloads.length).map fun k => (index + UInt32.ofNat k).toNat := by
        rw [LegacySequence.packets, List.cons_append, partNumbers_odin, partNumbers_append,
          ← partNumbers_partPackets]
        exact List.append_nil _
      have hnext : ∀ k, index + UInt32.ofNat sequence.payloads.length + UInt32.ofNat k =
          index + UInt32.ofNat (sequence.payloads.length + k) := by
        intro k
        rw [UInt32.ofNat_add, UInt32.add_assoc]
      rw [List.flatMap_cons, partNumbers_append, nextPart_sequencePackets, ih, hfirst,
        allPayloads_cons, List.length_append, List.range_add, List.map_append, List.map_map]
      simp only [hnext]
      rfl

/-- Parts are numbered through the whole file, modulo `2 ^ 32`. -/
theorem partNumbers_transfer (pitEntry : PitEntry) (index : UInt32)
    (sequences : List LegacySequence) :
    partNumbers index (legacyTransferPackets pitEntry sequences) =
      (List.range (allPayloads sequences).length).map (· % 2 ^ 32) := by
  rw [legacyTransferPackets, List.cons_append, partNumbers_odin, partNumbers_append]
  have hstart : Packet.nextPart index (.odin 0x66 0x00 []) = 0 := rfl
  rw [hstart, partNumbers_sequences]
  simp only [UInt32.zero_add, UInt32.toNat_ofNat']
  exact List.append_nil _

def UsbRead.isBulk : UsbRead → Bool
  | .bulkReadOnce .. => true
  | .receivePacket .. => false

/-- Accepted parts carry their numbers in their acknowledgements. -/
theorem partAcks_eq {s : UInt32} {xs : List Exchange} (hall : AllAccepted s xs)
    (hbulk : ∀ x ∈ xs, ∀ read ∈ x.reads, read.isBulk = true) :
    partAcks xs = partNumbers s (messages xs) := by
  induction xs generalizing s with
  | nil => rfl
  | cons x rest ih =>
      have htail := ih hall.2 fun y hy => hbulk y (List.mem_cons_of_mem _ hy)
      have hmessages : messages (x :: rest) = x.packet :: messages rest := rfl
      rw [partAcks, List.filterMap_cons, ← partAcks, hmessages]
      have haccepted : x.accepted s = true := hall.1
      have hreads := hbulk x List.mem_cons_self
      have hnext : next s x = x.packet.nextPart s := rfl
      rw [hnext] at htail
      obtain ⟨packet, timeoutMs, written, reads, answered⟩ := x
      cases packet with
      | data bytes =>
          obtain ⟨read, rfl⟩ : ∃ read, reads = [read] := by
            simp only [Exchange.accepted, Packet.replies, Bool.and_eq_true, beq_iff_eq] at haccepted
            exact List.length_eq_one_iff.mp haccepted.1.2
          cases read with
          | receivePacket => simp [UsbRead.isBulk] at hreads
          | bulkReadOnce size readTimeoutMs reply =>
              simp only [Exchange.accepted, Packet.replyAccepted, List.all_cons, List.all_nil,
                Bool.and_true, Bool.and_eq_true] at haccepted
              cases reply with
              | none => simp [partAcknowledged, odinAcknowledged] at haccepted
              | some rsp =>
                  have hnumber : UInt32.ofNat (leAt rsp.val 4 4) = s := by
                    simpa [partAcknowledged] using (Bool.and_eq_true_iff.mp haccepted.2).2
                  have hfits : leAt rsp.val 4 4 < 2 ^ 32 := leAt_lt rsp.val 4 4
                  have hnat : leAt rsp.val 4 4 = s.toNat := by
                    rw [← hnumber, UInt32.toNat_ofNat', Nat.mod_eq_of_lt hfits]
                  simp only [Exchange.partAck?, partNumbers, hnat]
                  exact congrArg _ htail
      | preamble => exact htail
      | thor packet => exact htail
      | odin cmd subcmd payload => exact htail

/-! ## Legacy transfers read only once for each packet -/

/-- The event is not the reception of a packet. -/
def IsBulk (event : UsbEvent) : Prop := ∀ size isControl minSize timeoutMs,
  event.call ≠ .receivePacket size isControl minSize timeoutMs

theorem emits_bulkWriteAll (packet : Packet) (timeoutMs : Nat) :
    Emits IsBulk (bulkWriteAll packet timeoutMs) :=
  emits_perform fun _ _ _ _ _ h => nomatch h

theorem emits_bulkReadOnce (size timeoutMs : Nat) : Emits IsBulk (bulkReadOnce size timeoutMs) := by
  unfold bulkReadOnce
  rw [map_eq_pure_bind]
  exact emits_bind (emits_perform fun _ _ _ _ _ h => nomatch h) fun _ => emits_pure _

theorem emits_odinCheckedCommand (cmd subcmd : UInt32) (payload : Bytes) (timeoutMs : Nat)
    (allowProgress : Bool) :
    Emits IsBulk (odinCheckedCommand cmd subcmd payload timeoutMs allowProgress) := by
  refine emits_bind (emits_ite (fun _ => emits_pure _) fun _ => ?_) fun rsp? => ?_
  · refine emits_bind (emits_bulkWriteAll _ _) fun ok => emits_ite (fun _ => emits_pure _) fun _ => ?_
    refine emits_bind (emits_bulkReadOnce _ _) fun rsp? => ?_
    cases rsp? with
    | none => exact emits_pure _
    | some rsp => exact emits_ite (fun _ => emits_pure _) fun _ => emits_pure _
  · cases rsp? <;> exact emits_pure _

theorem emits_sendLegacyParts (usb : UsbDevice) (size parts : Nat) (transfer : LegacyTransfer) :
    Emits IsBulk (sendLegacyParts usb size parts transfer) := by
  induction parts generalizing transfer with
  | zero => exact emits_pure _
  | succ parts ih =>
      rw [sendLegacyParts]
      refine emits_ite (fun _ => emits_pure _) fun _ => emits_bind ?_ fun ok =>
        emits_ite (fun _ => emits_pure _) fun _ => ih _
      refine emits_bind (emits_bulkWriteAll _ _) fun ok => emits_ite (fun _ => emits_pure _) fun _ => ?_
      refine emits_bind (emits_bulkReadOnce _ _) fun rsp? => ?_
      cases rsp? with
      | none => exact emits_pure _
      | some rsp =>
          exact emits_ite (fun _ => emits_pure _) fun _ =>
            emits_ite (fun _ => emits_pure _) fun _ => emits_pure _

theorem emits_flashLegacyStream (usb : UsbDevice) (stream : FileStream) (size : Nat)
    (pitEntry : PitEntry) : Emits IsBulk (flashLegacyStream usb stream size pitEntry) := by
  have hsequence : ∀ realSize last transfer,
      Emits IsBulk (sendLegacySequence usb pitEntry size realSize last transfer) := by
    intro realSize last transfer
    refine emits_bind (emits_odinCheckedCommand _ _ _ _ _) fun ok =>
      emits_ite (fun _ => emits_pure _) fun _ => ?_
    refine emits_bind (emits_sendLegacyParts _ _ _ _) fun next? => ?_
    cases next? with
    | none => exact emits_pure _
    | some next =>
        exact emits_bind (emits_odinCheckedCommand _ _ _ _ _) fun ok =>
          emits_ite (fun _ => emits_pure _) fun _ => emits_pure _
  have hsequences : ∀ bytes last count transfer,
      Emits IsBulk (sendLegacySequences usb pitEntry size bytes last count transfer) := by
    intro bytes last count
    induction count with
    | zero => exact fun _ => emits_pure _
    | succ count ih =>
        intro transfer
        refine emits_bind (hsequence _ _ _) fun next? => ?_
        cases next? with
        | none => exact emits_pure _
        | some next => exact ih next
  refine emits_bind (emits_odinCheckedCommand _ _ _ _ _) fun ok =>
    emits_ite (fun _ => emits_pure _) fun _ => emits_ite (fun _ => emits_pure _) fun _ =>
      emits_ite (fun _ => emits_pure _) fun _ => emits_ite (fun _ => emits_pure _) fun _ => ?_
  refine emits_bind (hsequences _ _ _ _) fun next? => ?_
  cases next? with
  | none => exact emits_pure _
  | some next => exact emits_bind (emits_odinCheckedCommand _ _ _ _ _) fun _ => emits_pure _

theorem reads_bulk {xs : List Exchange} (h : ∀ event ∈ xs.flatMap Exchange.events, IsBulk event) :
    ∀ x ∈ xs, ∀ read ∈ x.reads, read.isBulk = true := by
  intro x hx read hread
  cases read with
  | bulkReadOnce => rfl
  | receivePacket size isControl minSize timeoutMs reply =>
      have hevent : UsbRead.event (.receivePacket size isControl minSize timeoutMs reply) ∈
          xs.flatMap Exchange.events :=
        List.mem_flatMap.mpr ⟨x, hx, List.mem_cons_of_mem _ (List.mem_map_of_mem hread)⟩
      exact absurd rfl (h _ hevent size isControl minSize timeoutMs)

/-! ## Whole transfers -/

/-- What a successful legacy transfer of the first `size` bytes of `bytes` has
done: the packets are those of exact sequences, whose number does not wrap, and
the parts were acknowledged with their numbers modulo `2 ^ 32`. -/
structure LegacyFlashed (usb : UsbDevice) (pitEntry : PitEntry) (bytes : Bytes) (size : Nat)
    (xs : List Exchange) (sequences : List LegacySequence) : Prop where
  packets : messages xs = legacyTransferPackets pitEntry sequences
  exact : SequencesExact usb bytes size sequences
  count_eq : sequences.length = (size + sequenceBytes usb - 1) / sequenceBytes usb
  count_lt : sequences.length < 2 ^ 32
  acks : partAcks xs = (List.range (allPayloads sequences).length).map (· % 2 ^ 32)

theorem flashLegacyStream_exact {usb : UsbDevice} (hparameters : LegacyParameters usb)
    {stream stream' : FileStream} {size : Nat} (hsize : 1 ≤ size)
    (hmax : size ≤ (2 ^ 32 - 1) * sequenceBytes usb) {pitEntry : PitEntry} {trace : UsbTrace}
    (h : (flashLegacyStream usb stream size pitEntry).Executes trace (true, stream')) :
    ∃ xs sequences, trace = xs.flatMap Exchange.events ∧
      LegacyFlashed usb pitEntry stream.rest size xs sequences := by
  have hlayout := hparameters.layout
  obtain ⟨hcount, hpos, hlt, hsplit, hlast⟩ :=
    legacySequences_spec hlayout.bytes_pos hlayout.bytes_lt hsize hmax
  obtain ⟨xs, rfl, horderly, hdone, -⟩ :=
    flashLegacyStream_conducts usb pitEntry size stream 0 trace _ h
  obtain ⟨-, sequences, next, hmessages, hsent, -⟩ := hdone rfl
  obtain ⟨hexact, hlength, -⟩ := hsent.exact hlayout hlast hpos (by simpa using hsplit)
  refine ⟨xs, sequences, rfl, hmessages, hexact, hlength.trans hcount, hlength ▸ hlt, ?_⟩
  rw [partAcks_eq (horderly.whole rfl).1
    (reads_bulk (emits_flashLegacyStream usb stream size pitEntry _ _ h)), hmessages,
    partNumbers_transfer]

/-- Only sizes in the range of the protocol pass these checks. -/
theorem LegacyFits.bounds {usb : UsbDevice} {size : Nat} (hlayout : SequenceLayout usb)
    (hsize : size < 2 ^ 63) (h : LegacyFits usb size) :
    1 ≤ size ∧ size ≤ (2 ^ 32 - 1) * sequenceBytes usb := by
  obtain ⟨-, hcount, -⟩ := h
  have hpos := hlayout.bytes_pos
  have hlt := hlayout.bytes_lt
  change ¬ (legacySequences size (sequenceBytes usb) = 0 ∨
    0xFFFFFFFF < legacySequences size (sequenceBytes usb)) at hcount
  rw [legacySequences, Nat.mod_eq_of_lt (by omega)] at hcount
  obtain ⟨hsome, hfew⟩ := not_or.mp hcount
  have hone : sequenceBytes usb ≤ size + sequenceBytes usb - 1 := by
    by_contra hless
    exact hsome (Nat.div_eq_of_lt (Nat.not_le.mp hless))
  have hmany : size + sequenceBytes usb - 1 < 2 ^ 32 * sequenceBytes usb := by
    rw [← Nat.div_lt_iff_lt_mul hpos]
    omega
  have hmul : 2 ^ 32 * sequenceBytes usb = (2 ^ 32 - 1) * sequenceBytes usb + sequenceBytes usb := by
    rw [← Nat.succ_mul]
    rfl
  omega

/-- What a legacy transfer that succeeds says about its size and its stream. -/
theorem flashLegacyStream_success {usb : UsbDevice} (hparameters : LegacyParameters usb)
    (stream : FileStream) {size : Nat} (hsize : size < 2 ^ 63) (pitEntry : PitEntry) :
    Exchanges (flashLegacyStream usb stream size pitEntry) fun xs result =>
      result.1 = true → LegacyFits usb size ∧ size ≤ stream.rest.length ∧
        result.2 = stream.advance size ∧
        ∃ sequences, messages xs = legacyTransferPackets pitEntry sequences := by
  refine (flashLegacyStream_conducts usb pitEntry size stream 0).mono fun xs result hxs htrue => ?_
  obtain ⟨-, hdone, -⟩ := hxs
  obtain ⟨hfits, sequences, next, hmessages, hsent, hstream⟩ := hdone htrue
  have hlayout := hparameters.layout
  obtain ⟨hone, hmax⟩ := hfits.bounds hlayout hsize
  obtain ⟨-, hpos, -, hsplit, hlast⟩ :=
    legacySequences_spec hlayout.bytes_pos hlayout.bytes_lt hone hmax
  obtain ⟨hexact, -, hnext⟩ := hsent.exact hlayout hlast hpos (by simpa using hsplit)
  exact ⟨hfits, hexact.available, hstream.trans hnext, sequences, hmessages⟩

/-- A legacy transfer that succeeds partitions the image exactly. -/
theorem flashPartitionStream_exact {usb : UsbDevice} (hlegacy : usb.protocolMode = .odinLegacy)
    (hparameters : LegacyParameters usb) {stream stream' : FileStream} {size : Nat}
    (hsize : 1 ≤ size) (hmax : size ≤ (2 ^ 32 - 1) * sequenceBytes usb) {pitEntry : PitEntry}
    {largePartition : Bool} {trace : UsbTrace}
    (h : (flashPartitionStream usb stream size pitEntry largePartition).Executes trace
      (true, stream')) :
    ∃ xs sequences, trace = xs.flatMap Exchange.events ∧
      LegacyFlashed usb pitEntry stream.rest size xs sequences := by
  unfold flashPartitionStream at h
  rw [if_pos (by simp [UsbDevice.isOdinLegacy, hlegacy])] at h
  exact flashLegacyStream_exact hparameters hsize hmax h

/-! ## A file with more parts than numbers -/

/-- A legacy device of protocol version 1. -/
def legacyDevice : UsbDevice where
  protocolMode := .odinLegacy
  odinFlashTimeoutMs := 60000
  odinFlashPacketSize := 131072
  odinFlashSequenceCount := 240

theorem legacyDevice_parameters : LegacyParameters legacyDevice := .inl ⟨rfl, rfl⟩

def zeroImage (size : Nat) (hsize : size < 2 ^ 63) : FileStream :=
  FileStream.openFile ⟨List.replicate size 0, by rwa [List.length_replicate]⟩

theorem flash_zeroImage {size : Nat} (hsize : size < 2 ^ 63) (hpos : 1 ≤ size)
    (hmax : size ≤ (2 ^ 32 - 1) * sequenceBytes legacyDevice) (pitEntry : PitEntry) :
    ∃ trace stream', (flashPartitionStream legacyDevice (zeroImage size hsize) size pitEntry
      false).Executes trace (true, stream') := by
  have hlen : size ≤ (zeroImage size hsize).rest.length := by
    rw [FileStream.length_rest, zeroImage, FileStream.openFile, List.length_replicate]
    exact le_rfl
  obtain ⟨xs, ⟨ok, stream'⟩, hexec, rfl⟩ := flashLegacyStream_accepts legacyDevice pitEntry
    (legacyFits_of_le legacyDevice_parameters.layout hpos hmax) rfl hlen
  exact ⟨_, stream', hexec⟩

theorem rest_zeroImage {size : Nat} (hsize : size < 2 ^ 63) :
    (zeroImage size hsize).rest = List.replicate size 0 := rfl

/-- An image of two full sequences and five bytes. -/
theorem flashPartitionStream_exact_zeroImage : ∃ xs sequences,
    LegacyFlashed legacyDevice (pitEntryAt [] 0) (List.replicate 62914565 0) 62914565 xs sequences ∧
      sequences.length = 3 := by
  have hsize : 62914565 < 2 ^ 63 := by decide
  have hmax : 62914565 ≤ (2 ^ 32 - 1) * sequenceBytes legacyDevice := by decide
  obtain ⟨trace, stream', hexec⟩ := flash_zeroImage hsize (by decide) hmax (pitEntryAt [] 0)
  obtain ⟨xs, sequences, -, hflashed⟩ :=
    flashPartitionStream_exact rfl legacyDevice_parameters (by decide) hmax hexec
  rw [rest_zeroImage] at hflashed
  exact ⟨xs, sequences, hflashed, hflashed.count_eq.trans (by decide)⟩

/-- The acknowledgements of a file of more than `2 ^ 32` parts do not count up to
the number of its parts. -/
theorem part_numbers_wrap :
    ¬ ∀ (usb : UsbDevice), usb.protocolMode = .odinLegacy → LegacyParameters usb →
      ∀ (stream stream' : FileStream) (size : Nat), 1 ≤ size →
      size ≤ (2 ^ 32 - 1) * sequenceBytes usb → ∀ (pitEntry : PitEntry) (largePartition : Bool)
      (trace : UsbTrace), (flashPartitionStream usb stream size pitEntry largePartition).Executes
        trace (true, stream') →
      ∃ xs sequences, trace = xs.flatMap Exchange.events ∧
        SequencesExact usb stream.rest size sequences ∧
        partAcks xs = List.range (allPayloads sequences).length := by
  intro h
  have hsize : 2 ^ 49 + 1 < 2 ^ 63 := by decide
  have hmax : 2 ^ 49 + 1 ≤ (2 ^ 32 - 1) * sequenceBytes legacyDevice := by decide
  obtain ⟨trace, stream', hexec⟩ := flash_zeroImage hsize (by decide) hmax (pitEntryAt [] 0)
  obtain ⟨xs, sequences, htrace, hexact, hacks⟩ := h legacyDevice rfl legacyDevice_parameters _ _ _
    (by decide) hmax _ _ _ hexec
  obtain ⟨ys, sequences', htrace', hflashed⟩ :=
    flashLegacyStream_exact legacyDevice_parameters (by decide) hmax hexec
  obtain rfl := exchanges_injective (htrace.symm.trans htrace')
  have hparts : 2 ^ 32 < (allPayloads sequences).length := by
    have hfull : ∀ payload ∈ allPayloads sequences, payload.length = 131072 := by
      intro payload hmem
      obtain ⟨sequence, hsequence, hpayload⟩ := List.mem_flatMap.mp hmem
      exact hexact.full sequence hsequence payload hpayload
    have hlength := congrArg List.length hexact.content
    rw [length_flatten_of_full hfull, List.length_append,
      List.length_take_of_le hexact.available] at hlength
    omega
  have hmem : 2 ^ 32 ∈ (List.range (allPayloads sequences').length).map (· % 2 ^ 32) := by
    rw [← hflashed.acks, hacks]
    exact List.mem_range.mpr hparts
  obtain ⟨k, -, hk⟩ := List.mem_map.mp hmem
  have hlt := Nat.mod_lt k (Nat.two_pow_pos 32)
  omega

end Odin4
