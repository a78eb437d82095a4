import Odin4.Archive.Committed
import Odin4.Usb.ThorReceiver

/-!
# Commits in Thor mode

The receiving side of the Thor protocol is a receiver of images, and the transfer of
a member has it commit the image of the member.
-/

namespace Odin4

open Interaction Program Dialogue

/-! ## Between the files -/

namespace ThorReceiver

theorem receive_idle {packet : Packet} (h : packet.IsIdle .thor) (committed : List PartitionImage) :
    receive ⟨none, committed⟩ packet = some ⟨none, committed⟩ := by
  obtain ⟨rfl | ⟨command, rfl⟩, hflash⟩ := h
  · rfl
  · cases command with
    | filePartSize => cases hflash
    | filePart => cases hflash
    | endFileTransfer => cases hflash
    | _ => rfl

theorem receive_endSession (receiver : ThorReceiver) {packet : Packet}
    (hcommand : ProtocolMode.IsCommand .thor packet) (hend : packet.isEndSession = true) :
    receiver.receive packet = some ⟨none, receiver.committed⟩ := by
  obtain ⟨command, rfl⟩ := hcommand
  cases command with
  | endSession => rfl
  | _ => cases hend

end ThorReceiver

def thorReceiver : Receiver .thor ThorReceiver PartitionImage where
  receive := ThorReceiver.receive
  committed := ThorReceiver.committed
  idle images := ⟨none, images⟩
  imageOf pitEntry image := ⟨pitEntry.identifier, image⟩
  committed_idle _ := rfl
  receive_idle images _ h := ThorReceiver.receive_idle h images
  receive_end receiver _ hcommand hend := receiver.receive_endSession hcommand hend
  receive_grows _ _ _ h := ThorReceiver.receive_grows h

/-! ## Members -/

section Members

variable {dec : Lz4Decoder} {usb : UsbDevice} {member : Member} {file : FileStream}
variable (committed : List PartitionImage)

theorem isOdinLegacy_of_thor (h : usb.protocolMode = .thor) : usb.isOdinLegacy = false := by
  simp [UsbDevice.isOdinLegacy, h]

/-- What the receiver has of a member behind its transfer: the whole image if the
transfer went well, nothing that is committed otherwise. -/
def Received (dec : Lz4Decoder) (member : Member) (file : FileStream)
    (result : Except ExitCode FileStream) (receiver : ThorReceiver) : Prop :=
  receiver.committed = committed ∧ ∀ file', result = .ok file' →
    ∃ incoming, receiver.incoming = some incoming ∧ incoming.IsComplete ∧
      incoming.image = memberImage dec member file

/-- A script of parts that add up to the announced size. -/
theorem received_of_follows {payloads : List Bytes} {size : Nat} {xs : List Exchange} {s : UInt32}
    {ok : Bool} {result : Except ExitCode FileStream}
    (hfollows : Follows (.thor (.filePartSize (UInt64.ofNat size)) :: fileParts 0 payloads) s xs ok)
    (hlengths : ∀ payload ∈ payloads, payload.length < 2 ^ 32)
    (hdone : ∀ file', result = .ok file' → ok = true ∧
      payloads.flatten = memberImage dec member file ∧
      payloads.flatten.length % 2 ^ 64 = size % 2 ^ 64) :
    ∃ receiver, ThorReceiver.receiveAll ⟨none, committed⟩ (messages xs) = some receiver ∧
      Received committed dec member file result receiver := by
  cases result with
  | error code =>
      obtain ⟨receiver, hreceiver, hcommitted⟩ := ThorReceiver.receiveAll_file_initial
        committed _ hlengths hfollows.messages_prefix
      exact ⟨receiver, hreceiver, hcommitted, by simp⟩
  | ok file' =>
      obtain ⟨rfl, himage, hsize⟩ := hdone file' rfl
      obtain ⟨nextIndex, hreceiver⟩ := ThorReceiver.receiveAll_file committed
        (UInt64.ofNat size) hlengths
      rw [hfollows.completed.2]
      refine ⟨_, hreceiver, rfl, fun _ _ => ⟨_, rfl, ⟨rfl, ?_⟩, himage⟩⟩
      apply UInt64.toNat_inj.mp
      rw [UInt64.toNat_ofNat', UInt64.toNat_ofNat']
      exact hsize

variable (dec) in
theorem takes_flashPartitionStream (hthor : usb.protocolMode = .thor)
    (hraw : member.isLz4 = false) :
    Takes ThorReceiver.receive ⟨none, committed⟩
      (flashPartitionStream usb file member.dataSize member.pitEntry member.isLarge)
      fun sentAll => Received committed dec member file
        (if sentAll.1 then .ok sentAll.2 else .error .protocol) := by
  refine takes_exchanges (flashPartitionStream_follows (isOdinLegacy_of_thor hthor) file
    member.dataSize member.pitEntry member.isLarge 0) fun xs sentAll hxs => ?_
  obtain ⟨payloads, ok, hfollows, hsizes, hdone, -⟩ := hxs
  refine received_of_follows committed hfollows (fun payload hmem => ?_) fun file' hresult => ?_
  · have hle := (hsizes payload hmem).2
    simp only [thorChunkSize] at hle
    omega
  · obtain ⟨sentAll, last⟩ := sentAll
    cases sentAll with
    | false => cases hresult
    | true =>
        obtain ⟨rfl, hlength, hflatten, -, -⟩ := hdone rfl
        refine ⟨rfl, ?_, ?_⟩
        · rw [hflatten, memberImage, hraw]
          rfl
        · rw [hflatten, List.length_take_of_le hlength]

theorem takes_processLz4Streaming (hthor : usb.protocolMode = .thor)
    (hlz4 : member.isLz4 = true) :
    Takes ThorReceiver.receive ⟨none, committed⟩
      (processLz4Streaming dec file member.dataSize usb member.isLarge true)
      fun file? => Received committed dec member file (file?.elim (.error .protocol) .ok) := by
  cases hplan : lz4Plan dec file member.dataSize with
  | none =>
      rw [processLz4Streaming_unplanned _ _ _ _ _ _ hplan]
      exact hears_pure ⟨rfl, by simp⟩
  | some plan =>
      refine takes_exchanges (processLz4Streaming_follows dec file member.dataSize
        usb member.isLarge hplan 0) fun xs file? hxs => ?_
      obtain ⟨ok, hfollows, rfl⟩ := hxs
      rw [announcement, isOdinLegacy_of_thor hthor] at hfollows
      refine received_of_follows committed hfollows (fun payload hmem => ?_) fun file' hresult => ?_
      · have hle := (Lz4Decoder.decodePass_outs_le _ payload (List.mem_of_mem_filter hmem)).trans
          (lz4Buffers_outBufSize_le member.dataSize)
        omega
      · cases ok with
        | false => cases hresult
        | true =>
            cases hend : lz4Result dec file member.dataSize plan with
            | none => simp [hend] at hresult
            | some last =>
                -- A pass that comes to a result has put out what was announced.
                have htotal := lz4Result_total hplan hend
                refine ⟨rfl, ?_, ?_⟩
                · simp [memberImage, lz4Image, hlz4, hplan, flatten_delivered]
                · rw [flatten_delivered, ← htotal, Nat.mod_mod]
                  rfl

theorem takes_transferMember (hthor : usb.protocolMode = .thor) :
    Takes ThorReceiver.receive ⟨none, committed⟩ (transferMember dec usb true member file)
      (Received committed dec member file) := by
  unfold transferMember
  cases hlz4 : member.isLz4 with
  | false =>
      simp only [Bool.false_eq_true, ↓reduceIte]
      refine hears_bind (takes_flashPartitionStream dec committed hthor hlz4)
        fun sentAll receiver hreceived => ?_
      obtain ⟨sentAll, file'⟩ := sentAll
      cases sentAll with
      | false => exact hears_pure hreceived
      | true => exact hears_pure hreceived
  | true =>
      simp only [isOdinLegacy_of_thor hthor, Bool.false_and, Bool.false_eq_true, ↓reduceIte]
      refine hears_bind (takes_processLz4Streaming committed hthor hlz4)
        fun file? receiver hreceived => ?_
      cases file? with
      | none => exact hears_pure hreceived
      | some file' => exact hears_pure hreceived

theorem thorReceiver_transfers (dec : Lz4Decoder) : thorReceiver.Transfers dec := by
  intro usb hthor _ member state _ committed
  unfold processMember
  refine hears_bind (takes_transferMember committed hthor) fun result receiver hreceived => ?_
  obtain ⟨hcommitted, hdone⟩ := hreceived
  cases result with
  | error code => exact hears_pure (.inl ⟨hcommitted, code, rfl⟩)
  | ok file =>
      obtain ⟨incoming, hincoming, hcomplete, himage⟩ := hdone file rfl
      dsimp only
      refine hears_ite (fun _ => hears_pure (.inl ⟨hcommitted, _, rfl⟩)) fun _ => ?_
      rw [if_pos rfl]
      have hend : Takes ThorReceiver.receive receiver
          (endFileTransfer usb member.pitEntry.identifier) fun _ next =>
            next = ⟨none, committed ++ [⟨member.pitEntry.identifier,
              memberImage dec member state.file⟩]⟩ := by
        unfold endFileTransfer
        rw [if_neg (by simp [isOdinLegacy_of_thor hthor])]
        refine takes_packet ((thorExchange_single rfl 0).mono fun _ _ => Single.messages_eq) ?_
        obtain ⟨incoming', committed'⟩ := receiver
        obtain rfl : incoming' = some incoming := hincoming
        obtain rfl : committed' = committed := hcommitted
        rw [ThorReceiver.receive_end _ _ hcomplete, himage]
      exact hears_unless hend (fun _ hnext => .inr hnext) fun _ hnext => hears_pure (.inr hnext)

end Members

end Odin4
