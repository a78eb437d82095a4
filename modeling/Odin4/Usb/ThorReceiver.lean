import Odin4.Interaction.Listener
import Odin4.Usb.Transfer

/-!
# The receiving side

What a Thor device makes of the packets of a session: it collects the parts of a
file in their order and commits the file to a partition when the transfer is
ended. A packet that does not fit is refused, and a file that is not ended is
dropped with the session.
-/

namespace Odin4

open Interaction

/-- A file that is coming in, with counters as wide as their fields. -/
structure IncomingFile where
  size : UInt64
  image : Bytes := []
  nextIndex : UInt32 := 0
  /-- The length of the data that come next, if a part has been announced. -/
  due : Option UInt32 := none
deriving DecidableEq, Repr

/-- What has been written to a partition. -/
structure PartitionImage where
  partitionId : UInt32
  image : Bytes
deriving DecidableEq, Repr

@[ext]
structure ThorReceiver where
  incoming : Option IncomingFile := none
  committed : List PartitionImage := []
deriving DecidableEq, Repr

namespace IncomingFile

def announce (file : IncomingFile) (index length : UInt32) : Option IncomingFile :=
  if file.due = none ∧ index = file.nextIndex then some { file with due := some length } else none

def take (file : IncomingFile) (bytes : Bytes) : Option IncomingFile :=
  if file.due.map UInt32.toNat = some bytes.length then
    some { file with image := file.image ++ bytes, nextIndex := file.nextIndex + 1, due := none }
  else none

/-- The file is there as it was announced. -/
def IsComplete (file : IncomingFile) : Prop :=
  file.due = none ∧ UInt64.ofNat file.image.length = file.size

instance (file : IncomingFile) : Decidable file.IsComplete := inferInstanceAs (Decidable (_ ∧ _))

end IncomingFile

namespace ThorReceiver

def startFile (receiver : ThorReceiver) (size : UInt64) : Option ThorReceiver :=
  if receiver.incoming.isSome then none else some { receiver with incoming := some { size } }

def updateFile (receiver : ThorReceiver) (change : IncomingFile → Option IncomingFile) :
    Option ThorReceiver :=
  (receiver.incoming.bind change).map fun file => { receiver with incoming := some file }

def commitFile (receiver : ThorReceiver) (partitionId : UInt32) : Option ThorReceiver :=
  (receiver.incoming.filter fun file => decide file.IsComplete).map fun file =>
    { incoming := none, committed := receiver.committed ++ [⟨partitionId, file.image⟩] }

/-- Between two files nothing is changed. -/
def stayIdle (receiver : ThorReceiver) : Option ThorReceiver :=
  if receiver.incoming.isSome then none else some receiver

/-- The state behind a packet, unless the packet is refused. -/
def receive (receiver : ThorReceiver) : Packet → Option ThorReceiver
  | .thor (.filePartSize size) => receiver.startFile size
  | .thor (.filePart index length) => receiver.updateFile fun file => file.announce index length
  | .data bytes => receiver.updateFile fun file => file.take bytes
  | .thor (.endFileTransfer partitionId) => receiver.commitFile partitionId
  | .thor .endSession => some { receiver with incoming := none }
  | .thor _ | .preamble => receiver.stayIdle
  | .odin .. => none

/-- The state behind some packets. -/
def receiveAll (receiver : ThorReceiver) (packets : List Packet) : Option ThorReceiver :=
  listen receive receiver packets

variable {receiver : ThorReceiver} {packets : List Packet} {packet : Packet}

@[simp] theorem receiveAll_nil : receiver.receiveAll [] = some receiver := rfl

theorem receiveAll_cons : receiver.receiveAll (packet :: packets) =
    (receiver.receive packet).bind fun next => next.receiveAll packets :=
  listen_cons

/-! ## What a packet does -/

section Steps

variable {receiver next : ThorReceiver}

theorem startFile_eq_some {size : UInt64} : receiver.startFile size = some next ↔
    receiver.incoming = none ∧ next = { receiver with incoming := some { size } } := by
  unfold startFile
  split
  next hbusy =>
    obtain ⟨file, hfile⟩ := Option.isSome_iff_exists.mp hbusy
    simp [hfile]
  next hidle => simp [Option.not_isSome_iff_eq_none.mp hidle, eq_comm]

theorem updateFile_eq_some {change : IncomingFile → Option IncomingFile} :
    receiver.updateFile change = some next ↔ ∃ file file', receiver.incoming = some file ∧
      change file = some file' ∧ next = { receiver with incoming := some file' } := by
  constructor
  · intro h
    obtain ⟨file', hbind, rfl⟩ := Option.map_eq_some_iff.mp h
    obtain ⟨file, hfile, hchange⟩ := Option.bind_eq_some_iff.mp hbind
    exact ⟨file, file', hfile, hchange, rfl⟩
  · rintro ⟨file, file', hfile, hchange, rfl⟩
    rw [updateFile, hfile, Option.bind_some, hchange]
    rfl

theorem commitFile_eq_some {partitionId : UInt32} :
    receiver.commitFile partitionId = some next ↔ ∃ file, receiver.incoming = some file ∧
      file.IsComplete ∧ next = ⟨none, receiver.committed ++ [⟨partitionId, file.image⟩]⟩ := by
  constructor
  · intro h
    obtain ⟨file, hfilter, rfl⟩ := Option.map_eq_some_iff.mp h
    obtain ⟨hfile, hcomplete⟩ := Option.filter_eq_some_iff.mp hfilter
    exact ⟨file, hfile, of_decide_eq_true hcomplete, rfl⟩
  · rintro ⟨file, hfile, hcomplete, rfl⟩
    have hfilter : receiver.incoming.filter (fun file => decide file.IsComplete) = some file :=
      Option.filter_eq_some_iff.mpr ⟨hfile, decide_eq_true hcomplete⟩
    rw [commitFile, hfilter]
    rfl

theorem stayIdle_eq_some : receiver.stayIdle = some next ↔
    receiver.incoming = none ∧ next = receiver := by
  unfold stayIdle
  split
  next hbusy =>
    obtain ⟨file, hfile⟩ := Option.isSome_iff_exists.mp hbusy
    simp [hfile]
  next hidle => simp [Option.not_isSome_iff_eq_none.mp hidle, eq_comm]

end Steps

/-- Only the end of a transfer commits anything. -/
theorem receive_committed (h : receiver.receive packet = some next)
    (hend : ∀ partitionId, packet ≠ .thor (.endFileTransfer partitionId)) :
    next.committed = receiver.committed := by
  cases packet with
  | preamble => rw [(stayIdle_eq_some.mp h).2]
  | odin cmd subcmd payload => cases h
  | data bytes =>
      obtain ⟨file, file', -, -, rfl⟩ := updateFile_eq_some.mp h
      rfl
  | thor packet =>
      cases packet with
      | filePartSize size => rw [(startFile_eq_some.mp h).2]
      | filePart index length =>
          obtain ⟨file, file', -, -, rfl⟩ := updateFile_eq_some.mp h
          rfl
      | endFileTransfer partitionId => exact absurd rfl (hend partitionId)
      | endSession =>
          obtain rfl := Option.some.inj h
          rfl
      | _ => rw [(stayIdle_eq_some.mp h).2]

theorem receiveAll_committed (h : receiver.receiveAll packets = some next)
    (hend : ∀ packet ∈ packets, ∀ partitionId, packet ≠ .thor (.endFileTransfer partitionId)) :
    next.committed = receiver.committed :=
  listen_relates (fun before behind : ThorReceiver => behind.committed = before.committed)
    (fun _ => rfl) (fun _ _ _ hfirst hsecond => hsecond.trans hfirst)
    (fun packet hmem _ _ hnext => receive_committed hnext (hend packet hmem)) h

/-- What has been committed stays. -/
theorem receive_grows (h : receiver.receive packet = some next) :
    receiver.committed <+: next.committed := by
  by_cases hend : ∃ partitionId, packet = .thor (.endFileTransfer partitionId)
  · obtain ⟨partitionId, rfl⟩ := hend
    obtain ⟨file, -, -, rfl⟩ := commitFile_eq_some.mp h
    exact List.prefix_append _ _
  · rw [receive_committed h fun partitionId hpacket => hend ⟨partitionId, hpacket⟩]

theorem receiveAll_grows (h : receiver.receiveAll packets = some next) :
    receiver.committed <+: next.committed :=
  listen_relates (fun before behind : ThorReceiver => before.committed <+: behind.committed)
    (fun _ => List.prefix_rfl) (fun _ _ _ hfirst hsecond => hfirst.trans hsecond)
    (fun _ _ _ _ hnext => receive_grows hnext) h

/-- At any point less has been committed than in the end. -/
theorem receiveAll_initial (hinit : first <+: packets)
    (h : receiver.receiveAll packets = some last) :
    ∃ next, receiver.receiveAll first = some next ∧ next.committed <+: last.committed := by
  obtain ⟨next, rest, hnext, rfl, hrest⟩ := listen_initial hinit h
  exact ⟨next, hnext, receiveAll_grows hrest⟩

/-! ## Files -/

variable (committed : List PartitionImage) {payloads : List Bytes}

/-- The parts of a file add up to its image. -/
theorem receiveAll_fileParts (size : UInt64) (image : Bytes) (index : UInt32)
    (hlengths : ∀ payload ∈ payloads, payload.length < 2 ^ 32) :
    ∃ nextIndex, receiveAll ⟨some { size, image, nextIndex := index }, committed⟩
        (fileParts index payloads) =
      some ⟨some { size, image := image ++ payloads.flatten, nextIndex }, committed⟩ := by
  induction payloads generalizing image index with
  | nil => exact ⟨index, by simp [fileParts]⟩
  | cons payload rest ih =>
      obtain ⟨hlength, hrest⟩ := List.forall_mem_cons.mp hlengths
      have hdue : (UInt32.ofNat payload.length).toNat = payload.length := by
        rw [UInt32.toNat_ofNat']
        exact Nat.mod_eq_of_lt hlength
      have hannounce : receive ⟨some { size, image, nextIndex := index }, committed⟩
          (.thor (.filePart index (UInt32.ofNat payload.length))) = some ⟨some
            { size, image, nextIndex := index, due := some (UInt32.ofNat payload.length) },
            committed⟩ :=
        updateFile_eq_some.mpr ⟨_, _, rfl, if_pos ⟨rfl, rfl⟩, rfl⟩
      have htake : receive ⟨some
          { size, image, nextIndex := index, due := some (UInt32.ofNat payload.length) },
          committed⟩ (.data payload) =
          some ⟨some { size, image := image ++ payload, nextIndex := index + 1 }, committed⟩ :=
        updateFile_eq_some.mpr ⟨_, _, rfl, if_pos (congrArg some hdue), rfl⟩
      obtain ⟨nextIndex, hparts⟩ := ih (image ++ payload) (index + 1) hrest
      refine ⟨nextIndex, ?_⟩
      rw [fileParts, receiveAll_cons, hannounce, Option.bind_some, receiveAll_cons, htake,
        Option.bind_some, hparts, List.flatten_cons, List.append_assoc]

/-- A file is received from its announcement on. -/
theorem receiveAll_file (size : UInt64)
    (hlengths : ∀ payload ∈ payloads, payload.length < 2 ^ 32) :
    ∃ nextIndex, receiveAll ⟨none, committed⟩
        (.thor (.filePartSize size) :: fileParts 0 payloads) =
      some ⟨some { size, image := payloads.flatten, nextIndex }, committed⟩ := by
  obtain ⟨nextIndex, hparts⟩ := receiveAll_fileParts committed size [] 0 hlengths
  exact ⟨nextIndex, receiveAll_cons.trans hparts⟩

theorem fileParts_ne_end (index : UInt32) (payloads : List Bytes) :
    ∀ packet ∈ fileParts index payloads,
      ∀ partitionId, packet ≠ .thor (.endFileTransfer partitionId) := by
  induction payloads generalizing index with
  | nil => simp [fileParts]
  | cons payload rest ih =>
      rw [fileParts]
      exact List.forall_mem_cons.mpr ⟨by simp, List.forall_mem_cons.mpr ⟨by simp, ih _⟩⟩

/-- A file that is broken off has not been committed. -/
theorem receiveAll_file_initial (size : UInt64)
    (hlengths : ∀ payload ∈ payloads, payload.length < 2 ^ 32)
    (hinit : packets <+: .thor (.filePartSize size) :: fileParts 0 payloads) :
    ∃ receiver, receiveAll ⟨none, committed⟩ packets = some receiver ∧
      receiver.committed = committed := by
  obtain ⟨nextIndex, hfile⟩ := receiveAll_file committed size hlengths
  obtain ⟨receiver, hreceiver, -⟩ := receiveAll_initial hinit hfile
  refine ⟨receiver, hreceiver, receiveAll_committed hreceiver fun packet hpacket => ?_⟩
  rcases List.mem_cons.mp (hinit.subset hpacket) with rfl | hpart
  · simp
  · exact fileParts_ne_end _ _ packet hpart

/-- The end of a complete file commits its image. -/
theorem receive_end {file : IncomingFile} (partitionId : UInt32) (hcomplete : file.IsComplete) :
    receive ⟨some file, committed⟩ (.thor (.endFileTransfer partitionId)) =
      some ⟨none, committed ++ [⟨partitionId, file.image⟩]⟩ :=
  commitFile_eq_some.mpr ⟨file, rfl, hcomplete, rfl⟩

end ThorReceiver

end Odin4
