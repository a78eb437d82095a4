import Odin4.Usb.Transfer

/-!
# Legacy transfers

A legacy transfer cuts the image into sequences and each sequence into parts
of one packet size. The last part is filled up with zeros.
-/

namespace Odin4

open Interaction Program Dialogue Computability

/-! ## Parts -/

/-- The parts of a sequence as packets. -/
def partPackets (payloads : List Bytes) : List Packet := payloads.map .data

theorem partPackets_mem (payloads : List Bytes) :
    partPackets payloads ∈ (packetWords (∃ bytes, · = .data bytes))∗ := by
  induction payloads with
  | nil => exact Language.nil_mem_kstar _
  | cons payload rest ih =>
      have hle : packetWords (∃ bytes, · = .data bytes) *
          (packetWords (∃ bytes, · = .data bytes))∗ ≤ (packetWords (∃ bytes, · = .data bytes))∗ :=
        mul_kstar_le_kstar
      exact hle (Language.append_mem_mul (mem_packetWords ⟨payload, rfl⟩) ih)

/-- Parts are numbered consecutively. -/
theorem nextPart_partPackets (index : UInt32) (payloads : List Bytes) :
    (partPackets payloads).foldl Packet.nextPart index = index + UInt32.ofNat payloads.length := by
  induction payloads generalizing index with
  | nil => simp [partPackets]
  | cons payload rest ih =>
      rw [partPackets, List.map_cons, List.foldl_cons, ← partPackets, ih, List.length_cons]
      simp only [Packet.nextPart, UInt32.ofNat_add]
      ac_rfl

namespace LegacyTransfer

/-- How many of the next `room` bytes are bytes of the image. -/
def due (transfer : LegacyTransfer) (size room : Nat) : Nat :=
  min (size - transfer.totalSent) room

/-- The state after `parts` parts that carry `sent` bytes of the image. -/
def move (transfer : LegacyTransfer) (sent parts : Nat) : LegacyTransfer where
  stream := transfer.stream.advance sent
  totalSent := transfer.totalSent + sent
  expectedIndex := transfer.expectedIndex + UInt32.ofNat parts

theorem move_move (transfer : LegacyTransfer) (sent parts sent' parts' : Nat) :
    (transfer.move sent parts).move sent' parts' = transfer.move (sent + sent') (parts + parts') := by
  simp only [move, FileStream.advance_advance, UInt32.ofNat_add, Nat.add_assoc, UInt32.add_assoc]

theorem due_add (transfer : LegacyTransfer) (size parts first room : Nat) :
    transfer.due size (first + room) = transfer.due size first +
      (transfer.move (transfer.due size first) parts).due size room := by
  simp only [due, move]
  omega

end LegacyTransfer

/-- `payloads` are `parts` full packets that carry what is due of the image and
zeros behind it. -/
structure PartsSent (usb : UsbDevice) (size parts : Nat) (transfer : LegacyTransfer)
    (payloads : List Bytes) : Prop where
  count : payloads.length = parts
  full : ∀ payload ∈ payloads, payload.length = usb.odinFlashPacketSize
  available : transfer.due size (parts * usb.odinFlashPacketSize) ≤ transfer.stream.rest.length
  content : payloads.flatten =
    transfer.stream.rest.take (transfer.due size (parts * usb.odinFlashPacketSize)) ++
      List.replicate (parts * usb.odinFlashPacketSize -
        transfer.due size (parts * usb.odinFlashPacketSize)) 0

theorem PartsSent.cons {usb : UsbDevice} {size parts : Nat} {transfer : LegacyTransfer}
    {payloads : List Bytes} {due : Nat}
    (hdue : due = min (size - transfer.totalSent) usb.odinFlashPacketSize)
    (hdata : due ≤ transfer.stream.rest.length)
    (hrest : PartsSent usb size parts (transfer.move due 1) payloads) :
    PartsSent usb size (parts + 1) transfer
      ((transfer.stream.rest.take due ++ List.replicate (usb.odinFlashPacketSize - due) 0) ::
        payloads) := by
  obtain ⟨hcount, hfull, havailable, hcontent⟩ := hrest
  have hroom : (parts + 1) * usb.odinFlashPacketSize =
      parts * usb.odinFlashPacketSize + usb.odinFlashPacketSize := Nat.succ_mul _ _
  simp only [LegacyTransfer.due, LegacyTransfer.move, FileStream.rest_advance,
    List.length_drop] at havailable hcontent
  generalize parts * usb.odinFlashPacketSize = room at hroom havailable hcontent
  refine ⟨by simp [hcount], ?_, ?_, ?_⟩
  · refine List.forall_mem_cons.mpr ⟨?_, hfull⟩
    rw [List.length_append, List.length_take_of_le hdata, List.length_replicate]
    omega
  · simp only [LegacyTransfer.due, hroom]
    omega
  · simp only [LegacyTransfer.due, hroom, List.flatten_cons, hcontent]
    by_cases hlast : size - transfer.totalSent ≤ usb.odinFlashPacketSize
    · -- The image ends in this part, so only zeros follow.
      have hnone : min (size - (transfer.totalSent + due)) room = 0 := by omega
      have hall : min (size - transfer.totalSent) (room + usb.odinFlashPacketSize) = due := by omega
      rw [hnone, hall, List.take_zero, List.nil_append, List.append_assoc,
        List.replicate_append_replicate]
      congr 2
      omega
    · have hpad : usb.odinFlashPacketSize - due = 0 := by omega
      have hsum : min (size - transfer.totalSent) (room + usb.odinFlashPacketSize) =
          due + min (size - (transfer.totalSent + due)) room := by omega
      rw [hpad, hsum, List.replicate_zero, List.append_nil, List.take_add, List.append_assoc]
      congr 3
      omega

theorem sendLegacyParts_follows (usb : UsbDevice) (size parts : Nat) (transfer : LegacyTransfer) :
    Exchanges (sendLegacyParts usb size parts transfer) fun xs next? =>
      ∃ payloads ok, Follows (partPackets payloads) transfer.expectedIndex xs ok ∧
        (∀ next, next? = some next → ok = true ∧ PartsSent usb size parts transfer payloads ∧
          next = transfer.move (transfer.due size (parts * usb.odinFlashPacketSize)) parts) ∧
        (next? = none → ok = false ∨ transfer.stream.failed = true ∨
          transfer.stream.rest.length < size - transfer.totalSent) := by
  induction parts generalizing transfer with
  | zero =>
      refine conducts_pure ⟨[], true, follows_nil, ?_, by simp⟩
      rintro _ ⟨rfl⟩
      refine ⟨rfl, ⟨rfl, by simp, by simp [LegacyTransfer.due], by simp [LegacyTransfer.due]⟩, ?_⟩
      simp [LegacyTransfer.due, LegacyTransfer.move]
  | succ parts ih =>
      rw [sendLegacyParts]
      generalize hdue : min (size - transfer.totalSent) usb.odinFlashPacketSize = due
      generalize hread : (if 0 < due then transfer.stream.read due else ([], transfer.stream)) = read
      obtain ⟨data, stream⟩ := read
      dsimp only
      split
      next hlen =>
        have hshort := FileStream.read_if_short (by rw [hread]; exact hlen)
        refine conducts_pure ⟨[], true, follows_nil, by simp, fun _ => .inr ?_⟩
        exact hshort.imp_right fun h => by omega
      next hlen =>
        obtain ⟨hdata, hread'⟩ := FileStream.read_if_full (by rw [hread]; exact not_not.mp hlen)
        obtain ⟨rfl, rfl⟩ := Prod.mk.inj (hread.symm.trans hread')
        rw [List.length_take_of_le hdata]
        refine conducts_unless odinSendFilePartAndAck_follows (fun xs hxs => ?_) fun xs hxs => ?_
        · exact ⟨[_], false, hxs, by simp, by simp⟩
        · refine (ih (transfer.move due 1)).mono fun ys next? hys => ?_
          obtain ⟨payloads, ok, hfollows, hsome, hnone⟩ := hys
          have hafter : after transfer.expectedIndex xs = (transfer.move due 1).expectedIndex := by
            rw [after_exchanges, hxs.completed.2]
            rfl
          refine ⟨_ :: payloads, ok, Follows.append hxs (hafter ▸ hfollows), ?_, ?_⟩
          · intro next hnext
            obtain ⟨hok, hsent, rfl⟩ := hsome next hnext
            refine ⟨hok, hsent.cons hdue.symm hdata, ?_⟩
            have hdue' : transfer.due size usb.odinFlashPacketSize = due := hdue
            rw [LegacyTransfer.move_move, Nat.succ_mul, Nat.add_comm (parts * _),
              transfer.due_add size 1, hdue', Nat.add_comm 1]
          · intro hgave
            obtain h | h | h := hnone hgave
            · exact .inl h
            · exact .inr (.inl h)
            · simp only [LegacyTransfer.move, FileStream.rest_advance, List.length_drop] at h
              exact .inr (.inr (by omega))

/-! ## Sequences -/

/-- One sequence of a transfer: the size announced for its parts, the parts,
and the real size and the flag in the command that ends it. -/
structure LegacySequence where
  announced : Nat
  payloads : List Bytes
  realSize : Nat
  isLast : Bool

def LegacySequence.packets (pitEntry : PitEntry) (sequence : LegacySequence) : List Packet :=
  .odin 0x66 0x02 (leBytes 4 sequence.announced) :: partPackets sequence.payloads ++
    [.odin 0x66 0x03 (endSequencePayload pitEntry sequence.realSize sequence.isLast)]

section Sequences

variable (usb : UsbDevice) (pitEntry : PitEntry) (size : Nat)

theorem nextPart_sequencePackets (index : UInt32) (sequence : LegacySequence) :
    (sequence.packets pitEntry).foldl Packet.nextPart index =
      index + UInt32.ofNat sequence.payloads.length := by
  rw [LegacySequence.packets, List.foldl_append, List.foldl_cons]
  exact nextPart_partPackets index sequence.payloads

theorem length_endSequencePayload (realSize : Nat) (isLast : Bool) :
    (endSequencePayload pitEntry realSize isLast).length = 32 := by
  by_cases htype : pitEntry.binaryType = 1 <;> simp [endSequencePayload, htype]

/-- One sequence: complete, or stopped by a refusal or a short stream. -/
theorem sendLegacySequence_conducts (realSize : Nat) (last : Bool) (transfer : LegacyTransfer)
    {aligned parts : Nat} (haligned : aligned = alignedSize usb.odinFlashPacketSize realSize)
    (hcount : parts = aligned / usb.odinFlashPacketSize) :
    Exchanges (sendLegacySequence usb pitEntry size realSize last transfer) fun xs next? =>
      Orderly sequenceWords transfer.expectedIndex xs (next?.isSome = true) ∧
      (∀ next, next? = some next → ∃ payloads,
        messages xs = LegacySequence.packets pitEntry ⟨aligned, payloads, realSize, last⟩ ∧
        PartsSent usb size parts transfer payloads ∧
        next = transfer.move (transfer.due size (parts * usb.odinFlashPacketSize)) parts) ∧
      (next? = none → ¬ AllAccepted transfer.expectedIndex xs ∨ transfer.stream.failed = true ∨
        transfer.stream.rest.length < size - transfer.totalSent) := by
  unfold sendLegacySequence
  rw [← haligned]
  dsimp only
  rw [← hcount]
  have hdata : ∃ word, word ∈ (packetWords (∃ bytes, · = .data bytes))∗ :=
    ⟨[], Language.nil_mem_kstar _⟩
  have hend : ∃ word, word ∈ packetWords (∃ payload, · = Packet.odin 0x66 0x03 payload) :=
    ⟨_, mem_packetWords ⟨[], rfl⟩⟩
  have hopen : [Packet.odin 0x66 0x02 (leBytes 4 aligned)] ∈
      packetWords (∃ size, · = .odin 0x66 0x02 (leBytes 4 size)) := mem_packetWords ⟨aligned, rfl⟩
  refine conducts_unless (odinCheckedCommand_single (by simp [odinFrameSize]) rfl rfl)
    (fun xs hxs => ?_) fun xs hxs => ?_
  · have hrefused := hxs.follows transfer.expectedIndex
    refine ⟨?_, by simp, fun _ => .inl hrefused.not_allAccepted⟩
    exact ((Orderly.of_follows hrefused hopen).stop hdata not_false).stop hend (by simp)
  have hannounced := hxs.follows transfer.expectedIndex
  have hopened := (Orderly.of_follows hannounced hopen).weaken fun _ : True => rfl
  have hafter : after transfer.expectedIndex xs = transfer.expectedIndex := by
    rw [after_exchanges, hannounced.completed.2]
    rfl
  -- The announcement does not count as a part.
  refine conducts_bind (sendLegacyParts_follows usb size parts transfer) fun ys next? hys => ?_
  obtain ⟨payloads, ok, hparts, hsome, hnone⟩ := hys
  rw [← hafter] at hparts
  have hdelivered := hopened.append (Orderly.of_follows hparts (partPackets_mem _))
  cases next? with
  | none =>
      refine conducts_pure ?_
      rw [List.append_nil]
      refine ⟨hdelivered.stop hend (by simp), by simp, fun _ => (hnone rfl).imp_left ?_⟩
      rintro rfl hall
      exact hparts.not_allAccepted hall.right
  | some next =>
      obtain ⟨rfl, hsent, rfl⟩ := hsome next rfl
      have hscript := hannounced.append hparts
      have hframe : 8 + (endSequencePayload pitEntry realSize last).length ≤ odinFrameSize := by
        rw [length_endSequencePayload, odinFrameSize]
        omega
      refine conducts_unless (odinCheckedCommand_single hframe rfl rfl) (fun zs hzs => ?_)
        fun zs hzs => ?_
      · have hrefused := hzs.follows (after transfer.expectedIndex (xs ++ ys))
        rw [← List.append_assoc]
        refine ⟨?_, by simp, fun _ => .inl fun hall => hrefused.not_allAccepted hall.right⟩
        exact ((hdelivered.weaken fun _ => rfl).append
          (Orderly.of_follows hrefused (mem_packetWords ⟨_, rfl⟩))).weaken (by simp)
      · have hended := hzs.follows (after transfer.expectedIndex (xs ++ ys))
        refine conducts_pure ?_
        rw [List.append_nil, ← List.append_assoc]
        refine ⟨?_, ?_, by simp⟩
        · exact ((hdelivered.weaken fun _ => rfl).append
            (Orderly.of_follows hended (mem_packetWords ⟨_, rfl⟩))).weaken fun _ => rfl
        · rintro _ ⟨rfl⟩
          exact ⟨payloads, (hscript.append hended).completed.2, hsent, rfl⟩

/-- The sequences that lead from one state of a transfer to another. -/
inductive SequencesSent (sequenceBytes lastSequence : Nat) :
    (count : Nat) → LegacyTransfer → LegacyTransfer → List LegacySequence → Prop
  | done {transfer} : SequencesSent sequenceBytes lastSequence 0 transfer transfer []
  | cons {count transfer next payloads rest realSize aligned parts} :
      realSize = (if count = 0 then lastSequence else sequenceBytes % 2 ^ 32) →
      aligned = alignedSize usb.odinFlashPacketSize realSize →
      parts = aligned / usb.odinFlashPacketSize →
      PartsSent usb size parts transfer payloads →
      SequencesSent sequenceBytes lastSequence count
        (transfer.move (transfer.due size (parts * usb.odinFlashPacketSize)) parts) next rest →
      SequencesSent sequenceBytes lastSequence (count + 1) transfer next
        (⟨aligned, payloads, realSize, count == 0⟩ :: rest)

theorem sendLegacySequences_conducts (sequenceBytes lastSequence count : Nat)
    (transfer : LegacyTransfer) :
    Exchanges (sendLegacySequences usb pitEntry size sequenceBytes lastSequence count transfer)
      fun xs next? =>
        Orderly sequenceWords∗ transfer.expectedIndex xs (next?.isSome = true) ∧
        (∀ next, next? = some next → ∃ sequences,
          messages xs = sequences.flatMap (LegacySequence.packets pitEntry) ∧
          SequencesSent usb size sequenceBytes lastSequence count transfer next sequences) ∧
        (next? = none → ¬ AllAccepted transfer.expectedIndex xs ∨ transfer.stream.failed = true ∨
          transfer.stream.rest.length < size - transfer.totalSent) := by
  induction count generalizing transfer with
  | zero =>
      refine conducts_pure ⟨.star_nil, ?_, by simp⟩
      rintro _ ⟨rfl⟩
      exact ⟨[], rfl, .done⟩
  | succ count ih =>
      rw [sendLegacySequences]
      obtain ⟨realSize, hreal⟩ : ∃ n, n = (if (count == 0) = true then lastSequence
        else sequenceBytes % 2 ^ 32) := ⟨_, rfl⟩
      obtain ⟨aligned, haligned⟩ : ∃ n, n = alignedSize usb.odinFlashPacketSize realSize :=
        ⟨_, rfl⟩
      obtain ⟨parts, hparts⟩ : ∃ n, n = aligned / usb.odinFlashPacketSize := ⟨_, rfl⟩
      rw [← hreal]
      refine conducts_bind (sendLegacySequence_conducts usb pitEntry size realSize (count == 0)
        transfer haligned hparts) fun xs next? hxs => ?_
      obtain ⟨horderly, hsome, hnone⟩ := hxs
      cases next? with
      | none =>
          refine conducts_pure ?_
          rw [List.append_nil]
          exact ⟨horderly.star_stop (by simp), by simp, fun _ => hnone rfl⟩
      | some next =>
          obtain ⟨payloads, hmessages, hsent, hnext⟩ := hsome next rfl
          -- The parts of the next sequence are numbered from where this one stopped.
          have hafter : after transfer.expectedIndex xs = next.expectedIndex := by
            rw [after_exchanges, hmessages, nextPart_sequencePackets, hsent.count, hnext]
            rfl
          refine (ih next).mono fun ys last? hys => ?_
          obtain ⟨horderly', hsome', hnone'⟩ := hys
          rw [← hafter] at horderly' hnone'
          refine ⟨(horderly.weaken fun _ => rfl).star_append horderly', ?_, fun hgave => ?_⟩
          · intro last hlast
            obtain ⟨sequences, hmessages', hsequences⟩ := hsome' last hlast
            refine ⟨⟨aligned, payloads, realSize, count == 0⟩ :: sequences, ?_, ?_⟩
            · rw [messages_append, hmessages, hmessages', List.flatMap_cons]
            · simp only [beq_iff_eq] at hreal
              rw [hnext] at hsequences
              exact .cons hreal haligned hparts hsent hsequences
          · obtain h | h | h := hnone' hgave
            · exact .inl fun hall => h hall.right
            · rw [hnext] at h
              exact .inr (.inl h)
            · rw [hnext] at h
              simp only [LegacyTransfer.move, FileStream.rest_advance, List.length_drop] at h
              exact .inr (.inr (by omega))

/-- The size passes the checks that are made before the first sequence. -/
def LegacyFits : Prop :=
  let sequenceBytes := usb.odinFlashPacketSize * usb.odinFlashSequenceCount
  let sequences := legacySequences size sequenceBytes
  sequenceBytes ≠ 0 ∧ ¬ (sequences = 0 ∨ 0xFFFFFFFF < sequences) ∧
    ¬ 0xFFFFFFFF < legacyLastSequence size sequenceBytes sequences

instance : Decidable (LegacyFits usb size) := inferInstanceAs (Decidable (_ ∧ _ ∧ _))

/-- A whole legacy transfer as packets. -/
def legacyTransferPackets (sequences : List LegacySequence) : List Packet :=
  .odin 0x66 0x00 [] :: sequences.flatMap (LegacySequence.packets pitEntry) ++ [.odin 0x64 0x01 []]

theorem flashLegacyStream_conducts (stream : FileStream) (s : UInt32) :
    Exchanges (flashLegacyStream usb stream size pitEntry) fun xs result =>
      Orderly ProtocolMode.odinLegacy.transferWords s xs (result.1 = true) ∧
      (result.1 = true → LegacyFits usb size ∧ ∃ sequences next,
        messages xs = legacyTransferPackets pitEntry sequences ∧
        SequencesSent usb size (usb.odinFlashPacketSize * usb.odinFlashSequenceCount)
          (legacyLastSequence size (usb.odinFlashPacketSize * usb.odinFlashSequenceCount)
            (legacySequences size (usb.odinFlashPacketSize * usb.odinFlashSequenceCount)))
          (legacySequences size (usb.odinFlashPacketSize * usb.odinFlashSequenceCount))
          ⟨stream, 0, 0⟩ next sequences ∧ result.2 = next.stream) ∧
      (result.1 = false → LegacyFits usb size → ¬ AllAccepted s xs ∨ stream.failed = true ∨
        stream.rest.length < size) := by
  have hsequences : ∃ word, word ∈ sequenceWords∗ := ⟨[], Language.nil_mem_kstar _⟩
  have hend : ∃ word, word ∈ packetWord (.odin 0x64 0x01 []) := ⟨_, mem_packetWord⟩
  unfold flashLegacyStream
  refine conducts_unless (odinCheckedCommand_single (by simp [odinFrameSize]) rfl rfl)
    (fun xs hxs => ?_) fun xs hxs => ?_
  · have hrefused := hxs.follows s
    refine ⟨?_, by simp, fun _ _ => .inl hrefused.not_allAccepted⟩
    exact ((Orderly.of_follows hrefused mem_packetWord).stop hsequences not_false).stop hend (by simp)
  have hrequested := hxs.follows s
  have hopened := (Orderly.of_follows hrequested mem_packetWord).weaken fun _ : True => rfl
  have hafter : after s xs = 0 := by
    rw [after_exchanges, hrequested.completed.2]
    rfl
  have hstop : Orderly ProtocolMode.odinLegacy.transferWords s (xs ++ [])
      ((false, stream).1 = true) := by
    rw [List.append_nil]
    exact (hopened.stop hsequences not_false).stop hend (by simp)
  -- The sizes are refused between the request and the first sequence.
  dsimp only
  split
  next hzero => exact conducts_pure ⟨hstop, by simp, fun _ hfits => absurd hzero hfits.1⟩
  rename_i hzero
  split
  next hmany => exact conducts_pure ⟨hstop, by simp, fun _ hfits => absurd hmany hfits.2.1⟩
  rename_i hmany
  split
  next hlast => exact conducts_pure ⟨hstop, by simp, fun _ hfits => absurd hlast hfits.2.2⟩
  rename_i hlast
  refine conducts_bind (sendLegacySequences_conducts usb pitEntry size _ _ _ ⟨stream, 0, 0⟩)
    fun ys next? hys => ?_
  obtain ⟨horderly, hsome, hnone⟩ := hys
  rw [← hafter] at horderly hnone
  have hdelivered := hopened.append horderly
  cases next? with
  | none =>
      refine conducts_pure ?_
      rw [List.append_nil]
      refine ⟨hdelivered.stop hend (by simp), by simp, fun _ _ => (hnone rfl).imp_left ?_⟩
      exact fun h hall => h hall.right
  | some next =>
      obtain ⟨sequences, hmessages, hsent⟩ := hsome next rfl
      have hdone := hdelivered.weaken fun _ : True => rfl
      refine conducts_bind (odinCheckedCommand_single (by simp [odinFrameSize]) rfl rfl)
        fun zs ok hzs => conducts_pure ?_
      have hreset := hzs.follows (after s (xs ++ ys))
      rw [List.append_nil, ← List.append_assoc]
      refine ⟨hdone.append (.of_follows hreset mem_packetWord), ?_, ?_⟩
      · rintro rfl
        refine ⟨⟨hzero, hmany, hlast⟩, sequences, next, ?_, hsent, rfl⟩
        rw [messages_append, messages_append, hrequested.completed.2, hmessages,
          hreset.completed.2, legacyTransferPackets, List.singleton_append]
      · rintro rfl -
        exact .inl fun hall => hreset.not_allAccepted hall.right

end Sequences

/-! ## Both protocols -/

/-- A raw image in Thor mode: the announcement, then the parts. -/
theorem flashPartitionStream_follows {usb : UsbDevice} (hthor : usb.isOdinLegacy = false)
    (stream : FileStream) (size : Nat) (pitEntry : PitEntry) (largePartition : Bool) (s : UInt32) :
    Exchanges (flashPartitionStream usb stream size pitEntry largePartition) fun xs result =>
      ∃ payloads ok,
        Follows (.thor (.filePartSize (UInt64.ofNat size)) :: fileParts 0 payloads) s xs ok ∧
        (∀ payload ∈ payloads, payload ≠ [] ∧ payload.length ≤ thorChunkSize) ∧
        (result.1 = true → ok = true ∧ size ≤ stream.rest.length ∧
          payloads.flatten = stream.rest.take size ∧ result.2 = stream.advance size ∧
          payloads.length * thorChunkSize < size + thorChunkSize) ∧
        (result.1 = false → ok = false ∨ stream.failed = true ∨ stream.rest.length < size) := by
  unfold flashPartitionStream sendFilePartHeader
  simp only [hthor, Bool.false_eq_true, ↓reduceIte]
  refine conducts_unless (thorExchangeFull_single rfl) (fun xs hxs => ?_) fun xs hxs => ?_
  · exact ⟨[], false, hxs.follows s, by simp, by simp, by simp⟩
  · refine (sendChunks_follows largePartition stream size 0 (after s xs)).mono
      fun ys result hys => ?_
    obtain ⟨payloads, ok, hfollows, hrest⟩ := hys
    exact ⟨payloads, ok, (hxs.follows s).append hfollows, hrest⟩

theorem flashPartitionStream_keeping (usb : UsbDevice) (stream : FileStream) (size : Nat)
    (pitEntry : PitEntry) (largePartition : Bool) :
    Keeping usb.protocolMode.transferWords
      (flashPartitionStream usb stream size pitEntry largePartition) (·.1 = true) := by
  intro s
  cases hmode : usb.protocolMode with
  | odinLegacy =>
      unfold flashPartitionStream
      rw [if_pos (by simp [UsbDevice.isOdinLegacy, hmode])]
      exact (flashLegacyStream_conducts usb pitEntry size stream s).mono fun _ _ h => h.1
  | thor =>
      have hthor : usb.isOdinLegacy = false := by simp [UsbDevice.isOdinLegacy, hmode]
      refine (flashPartitionStream_follows hthor stream size pitEntry largePartition s).mono
        fun xs result hxs => ?_
      obtain ⟨payloads, ok, hfollows, -, hdone, -⟩ := hxs
      refine (Orderly.of_follows hfollows ?_).weaken fun h => (hdone h).1
      exact Language.append_mem_mul (mem_packetWords ⟨_, rfl⟩) (fileParts_mem 0 payloads)

end Odin4
