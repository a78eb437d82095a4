import Odin4.Foundation.Framing
import Odin4.Usb.PitCodec
import Odin4.Usb.ThorReceiver

/-!
# Thor packets on the wire

The packets of a session follow one another without anything between them. A
command says how long it is, and the data behind the announcement of a part are
as long as announced, so the other side can tell the packets apart again.
-/

namespace Odin4

/-! ## Reading a command -/

namespace ThorPacket

/-- The command that the type and the fields say. -/
def fields (input : Bytes) : Option ThorPacket :=
  match leAt input 4 2 with
  | 0x0001 => some .handshake
  | 0x0002 => some .deviceType
  | 0x0003 => some (.filePart (readU32 input 8) (readU32 input 12))
  | 0x0004 => some (.endFileTransfer (readU32 input 8))
  | 0x0005 => some .endSession
  | 0x0007 => some .pitFile
  | 0x0008 => some .beginSession
  | 0x0009 => some (.filePartSize (UInt64.ofNat (leAt input 8 8)))
  | 0x000B => some (.control (readU32 input 8))
  | _ => none

/-- A command at the front of the input. -/
def parse (input : Bytes) : Option (ThorPacket × Bytes) := do
  let packet ← fields input
  if packet.encode <+: input then some (packet, input.drop packet.encode.length) else none

/-- The eight bytes in front of the fields. -/
def header (packet : ThorPacket) : Bytes :=
  leBytes 4 (thorPacketHeaderSize + packet.body.length) ++ leBytes 2 packet.packetType ++ leBytes 2 0

@[simp] theorem length_header (packet : ThorPacket) : packet.header.length = 8 := by
  simp [header]

theorem packetType_lt (packet : ThorPacket) : packet.packetType < 256 ^ 2 := by
  cases packet <;> simp [packetType]

theorem leAt_packetType (packet : ThorPacket) (rest : Bytes) :
    leAt (packet.encode ++ rest) 4 2 = packet.packetType := by
  have hsplit : packet.encode ++ rest =
      leBytes 4 (thorPacketHeaderSize + packet.body.length) ++ leBytes 2 packet.packetType ++
        (leBytes 2 0 ++ packet.body ++ rest) := by
    simp only [encode, List.append_assoc]
  rw [hsplit, leAt_leBytes 2 _ _ (length_leBytes 4 _), Nat.mod_eq_of_lt packet.packetType_lt]

/-- A field of the body. -/
theorem leAt_body {packet : ThorPacket} (before after : Bytes) {offset width value : Nat}
    (hbody : packet.body = before ++ leBytes width value ++ after)
    (hoffset : 8 + before.length = offset) (hvalue : value < 256 ^ width) (rest : Bytes) :
    leAt (packet.encode ++ rest) offset width = value := by
  have hsplit : packet.encode ++ rest =
      packet.header ++ before ++ leBytes width value ++ (after ++ rest) := by
    simp only [encode, header, hbody, List.append_assoc]
  rw [hsplit, leAt_leBytes width value _ (by simpa using hoffset), Nat.mod_eq_of_lt hvalue]

theorem readU32_body {packet : ThorPacket} (before after : Bytes) {offset : Nat} {value : UInt32}
    (hbody : packet.body = before ++ leBytes 4 value.toNat ++ after)
    (hoffset : 8 + before.length = offset) (rest : Bytes) :
    readU32 (packet.encode ++ rest) offset = value := by
  rw [readU32, leAt_body before after hbody hoffset value.toNat_lt rest, UInt32.ofNat_toNat]

theorem fields_encode (packet : ThorPacket) (rest : Bytes) :
    fields (packet.encode ++ rest) = some packet := by
  rw [fields, leAt_packetType]
  cases packet with
  | filePart index size =>
      have hindex : readU32 ((filePart index size).encode ++ rest) 8 = index :=
        readU32_body [] (leBytes 4 size.toNat) rfl rfl rest
      have hsize : readU32 ((filePart index size).encode ++ rest) 12 = size :=
        readU32_body (leBytes 4 index.toNat) [] (List.append_nil _).symm (by simp) rest
      simp only [packetType, hindex, hsize]
  | endFileTransfer partitionId =>
      have hid : readU32 ((endFileTransfer partitionId).encode ++ rest) 8 = partitionId :=
        readU32_body [] [] (List.append_nil _).symm rfl rest
      simp only [packetType, hid]
  | filePartSize size =>
      have hsize : leAt ((filePartSize size).encode ++ rest) 8 8 = size.toNat :=
        leAt_body [] [] (List.append_nil _).symm rfl size.toNat_lt rest
      simp only [packetType, hsize, UInt64.ofNat_toNat]
  | control controlType =>
      have htype : readU32 ((control controlType).encode ++ rest) 8 = controlType :=
        readU32_body [] [] (List.append_nil _).symm rfl rest
      simp only [packetType, htype]
  | _ => rfl

theorem parse_iff {input rest : Bytes} {packet : ThorPacket} :
    parse input = some (packet, rest) ↔ input = packet.encode ++ rest := by
  constructor
  · intro h
    obtain ⟨packet', -, h⟩ := Option.bind_eq_some_iff.mp h
    split at h
    next hfront =>
      obtain ⟨rfl, rfl⟩ := Prod.mk.inj (Option.some.inj h)
      exact List.prefix_append_drop hfront
    next => simp at h
  · rintro rfl
    simp [parse, fields_encode]

theorem encode_ne_nil (packet : ThorPacket) : packet.encode ≠ [] := by
  simp [encode, leBytes]

end ThorPacket

/-! ## Reading a session -/

/-- The length of the data that have to come next. -/
def Packet.due? : Packet → Option UInt32
  | .thor (.filePart _ size) => some size
  | _ => none

/-- Commands, and behind the announcement of a part its data. -/
def Packet.IsDue : (due : Option UInt32) → Packet → Prop
  | none, .thor _ => True
  | some size, .data bytes => bytes.length = size.toNat
  | _, _ => False

def takePacket (due : Option UInt32) (input : Bytes) : Option (Packet × Bytes) :=
  match due with
  | none => (ThorPacket.parse input).map fun parsed => (.thor parsed.1, parsed.2)
  | some size =>
      if size.toNat ≤ input.length then
        some (.data (input.take size.toNat), input.drop size.toNat)
      else none

theorem takePacket_iff {due : Option UInt32} {input rest : Bytes} {packet : Packet} :
    takePacket due input = some (packet, rest) ↔
      packet.IsDue due ∧ input = packet.encode ++ rest := by
  cases due with
  | none =>
      constructor
      · intro h
        obtain ⟨⟨command, rest'⟩, hparse, hpair⟩ := Option.map_eq_some_iff.mp h
        obtain ⟨rfl, rfl⟩ := Prod.mk.inj hpair
        exact ⟨trivial, ThorPacket.parse_iff.mp hparse⟩
      · rintro ⟨hdue, hinput⟩
        cases packet with
        | thor command => rw [takePacket, ThorPacket.parse_iff.mpr hinput]; rfl
        | _ => exact hdue.elim
  | some size =>
      constructor
      · intro h
        rw [takePacket] at h
        split at h
        next hlong =>
          obtain ⟨rfl, rfl⟩ := Prod.mk.inj (Option.some.inj h)
          exact ⟨List.length_take_of_le hlong, (List.take_append_drop _ _).symm⟩
        next => cases h
      · rintro ⟨hdue, rfl⟩
        cases packet with
        | data bytes =>
            have hlength : bytes.length = size.toNat := hdue
            rw [takePacket, ← hlength]
            simp [Packet.encode]
        | _ => exact hdue.elim

theorem isDue_progress {due : Option UInt32} {packet : Packet} (h : packet.IsDue due)
    (hencode : packet.encode = []) :
    due.isNone = false ∧ (if packet.due?.isSome then 1 else 0) < if due.isSome then 1 else 0 := by
  cases due with
  | none =>
      cases packet with
      | thor command => exact absurd hencode command.encode_ne_nil
      | _ => exact h.elim
  | some size =>
      cases packet with
      | data bytes => exact ⟨rfl, Nat.one_pos⟩
      | _ => exact h.elim

/-- The packets of a Thor session as frames. -/
def thorFraming : Framing Packet (Option UInt32) UInt8 where
  encode := Packet.encode
  next _ packet := packet.due?
  take := takePacket
  idle due := due.isNone
  Expected due packet := packet.IsDue due
  weight due := if due.isSome then 1 else 0
  take_iff := takePacket_iff
  progress := isDue_progress

/-! ## What a receiver takes can be told apart -/

/-- Data stand behind the announcement of a part and nowhere else. -/
def Shaped : (due : Bool) → List Packet → Prop
  | due, [] => due = false
  | due, packet :: rest =>
      (if due then ∃ bytes, packet = .data bytes else ∃ command, packet = .thor command) ∧
        Shaped packet.due?.isSome rest

/-- The data that a receiver waits for. -/
def ThorReceiver.due (receiver : ThorReceiver) : Option UInt32 :=
  receiver.incoming.bind IncomingFile.due

/-- A receiver waits for data exactly behind the announcement of a part. -/
theorem ThorReceiver.receive_due {receiver next : ThorReceiver} {packet : Packet}
    (h : receiver.receive packet = some next)
    (hshape : if receiver.due.isSome then ∃ bytes, packet = .data bytes
      else ∃ command, packet = .thor command) :
    packet.IsDue receiver.due ∧ next.due = packet.due? := by
  cases hdue : receiver.due with
  | some size =>
      rw [hdue, Option.isSome_some, if_pos rfl] at hshape
      obtain ⟨bytes, rfl⟩ := hshape
      obtain ⟨file, file', hfile, htake, rfl⟩ := updateFile_eq_some.mp h
      have hwaits : file.due = some size := by
        rwa [due, hfile] at hdue
      unfold IncomingFile.take at htake
      rw [hwaits] at htake
      split at htake
      next hlength =>
        obtain rfl := Option.some.inj htake
        exact ⟨(Option.some.inj hlength).symm, rfl⟩
      next => cases htake
  | none =>
      rw [hdue, Option.isSome_none, if_neg Bool.false_ne_true] at hshape
      obtain ⟨command, rfl⟩ := hshape
      refine ⟨trivial, ?_⟩
      cases command with
      | filePartSize size =>
          rw [(startFile_eq_some.mp h).2]
          rfl
      | filePart index size =>
          obtain ⟨file, file', -, hannounce, rfl⟩ := updateFile_eq_some.mp h
          unfold IncomingFile.announce at hannounce
          split at hannounce
          next =>
            obtain rfl := Option.some.inj hannounce
            rfl
          next => cases hannounce
      | endFileTransfer partitionId =>
          obtain ⟨file, -, -, rfl⟩ := commitFile_eq_some.mp h
          rfl
      | endSession =>
          obtain rfl := Option.some.inj h
          rfl
      | _ =>
          rw [(stayIdle_eq_some.mp h).2]
          exact hdue

/-- Packets that make sense to a receiver can be read back from their bytes. -/
theorem ThorReceiver.sequence_of_receiveAll {receiver last : ThorReceiver} {packets : List Packet}
    (h : receiver.receiveAll packets = some last) (hshape : Shaped receiver.due.isSome packets) :
    thorFraming.Sequence receiver.due packets := by
  induction packets generalizing receiver with
  | nil =>
      have hidle : receiver.due.isSome = false := hshape
      change receiver.due.isNone = true
      rwa [← Option.not_isSome, Bool.not_eq_true']
  | cons packet rest ih =>
      obtain ⟨hpacket, hrest⟩ := hshape
      rw [receiveAll_cons] at h
      obtain ⟨next, hnext, h⟩ := Option.bind_eq_some_iff.mp h
      obtain ⟨hisDue, hdue⟩ := receive_due hnext hpacket
      rw [← hdue] at hrest
      have hsequence := ih h hrest
      rw [hdue] at hsequence
      exact ⟨hisDue, hsequence⟩

end Odin4
