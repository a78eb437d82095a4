import Odin4.Archive.Committed
import Odin4.Usb.LegacyReceiver

/-!
# Commits in legacy mode

The receiving side of the legacy protocol is a receiver of images, too. Here the
image is committed by the transfer itself, before the padding behind the data is
passed.
-/

namespace Odin4

open Interaction Program Dialogue

/-! ## Between the images -/

namespace LegacyReceiver

theorem receive_idle {packet : Packet} (h : packet.IsIdle .odinLegacy)
    (committed : List LegacyImage) : receive ⟨none, committed⟩ packet = some ⟨none, committed⟩ := by
  obtain ⟨rfl | ⟨cmd, subcmd, payload, rfl⟩, hflash⟩ := h
  · rfl
  · have hcmd : cmd ≠ 0x66 := by simpa [Packet.isFlashing] using hflash
    rw [receive, if_neg hcmd]
    split <;> rfl

theorem receive_endSession (receiver : LegacyReceiver) {packet : Packet}
    (hcommand : ProtocolMode.IsCommand .odinLegacy packet) (hend : packet.isEndSession = true) :
    receiver.receive packet = some ⟨none, receiver.committed⟩ := by
  obtain ⟨cmd, subcmd, payload, rfl⟩ := hcommand
  obtain ⟨rfl, rfl⟩ : cmd = 0x67 ∧ subcmd = 0x00 := by simpa [Packet.isEndSession] using hend
  rfl

end LegacyReceiver

def legacyReceiver : Receiver .odinLegacy LegacyReceiver LegacyImage where
  receive := LegacyReceiver.receive
  committed := LegacyReceiver.committed
  idle images := ⟨none, images⟩
  imageOf pitEntry image := ⟨pitEntry.legacyTarget, image⟩
  committed_idle _ := rfl
  receive_idle images _ h := LegacyReceiver.receive_idle h images
  receive_end receiver _ hcommand hend := receiver.receive_endSession hcommand hend
  receive_grows _ _ _ h := LegacyReceiver.receive_grows h

/-! ## Members -/

section Members

variable (dec : Lz4Decoder) {usb : UsbDevice} {member : Member} {file : FileStream}
variable (committed : List LegacyImage)

/-- A raw image is committed as a whole or not at all; a compressed one is not sent. -/
theorem takes_transferLegacyMember (hlegacy : usb.isOdinLegacy = true) (hbegun : usb.Begun)
    (hsize : member.dataSize < 2 ^ 63) :
    Takes LegacyReceiver.receive ⟨none, committed⟩ (transferMember dec usb true member file)
      fun result receiver =>
        (receiver.committed = committed ∧ ∃ code, result = .error code) ∨
        receiver = ⟨none, committed ++ [⟨member.pitEntry.legacyTarget,
          memberImage dec member file⟩]⟩ := by
  unfold transferMember
  cases hlz4 : member.isLz4 with
  | true =>
      simp only [hlegacy, Bool.and_true, ↓reduceIte]
      -- An LZ4 member is refused before anything is sent.
      exact hears_pure (.inl ⟨rfl, _, rfl⟩)
  | false =>
      simp only [Bool.false_eq_true, ↓reduceIte]
      unfold flashPartitionStream
      rw [if_pos hlegacy]
      refine hears_bind (takes_flashLegacyStream member.dataSize committed (hbegun hlegacy) file
        hsize member.pitEntry) fun sentAll receiver hreceived => ?_
      obtain ⟨sentAll, file'⟩ := sentAll
      rcases hreceived with ⟨hfailed, hcommitted⟩ | ⟨-, -, rfl⟩
      · obtain rfl : sentAll = false := hfailed
        exact hears_pure (.inl ⟨hcommitted, _, rfl⟩)
      · have himage : file.rest.take member.dataSize = memberImage dec member file := by
          rw [memberImage, hlz4]
          rfl
        rw [himage]
        cases sentAll <;> exact hears_pure (.inr rfl)

theorem legacyReceiver_transfers : legacyReceiver.Transfers dec := by
  intro usb hmode hbegun member state hsize committed
  have hlegacy : usb.isOdinLegacy = true := by simp [UsbDevice.isOdinLegacy, hmode]
  unfold processMember
  refine hears_bind (takes_transferLegacyMember dec committed hlegacy hbegun hsize)
    fun result receiver hreceived => ?_
  rcases hreceived with ⟨hcommitted, code, rfl⟩ | rfl
  · exact hears_pure (.inl ⟨hcommitted, code, rfl⟩)
  · cases result with
    | error code => exact hears_pure (.inr rfl)
    | ok file =>
        dsimp only
        refine hears_ite (fun _ => hears_pure (.inr rfl)) fun _ => ?_
        unfold endFileTransfer
        rw [if_pos rfl, if_pos hlegacy]
        exact hears_pure (.inr rfl)

end Members

end Odin4
