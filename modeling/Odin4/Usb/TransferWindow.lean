import Odin4.Foundation.FileWindow
import Odin4.Usb.Device

/-!
# What a transfer reads

In either protocol the transfer of an image reads nothing but the bytes of the
image. From two files with the same image it is the same program, wherever the
image stands in them.
-/

namespace Odin4

open Interaction Program

variable {file : FileContent} (shift : Nat)

/-! ## Thor -/

section Chunks

variable {stream : FileStream} (largePartition : Bool) {remaining : Nat}

theorem sendChunks_file (stream : FileStream) (remaining : Nat) (index : UInt32) :
    Returns (·.2.file = stream.file) (sendChunks largePartition stream remaining index) := by
  induction remaining using Nat.strong_induction_on generalizing stream index with
  | _ remaining ih =>
      rw [sendChunks]
      split
      next => exact returns_pure rfl
      next hpos =>
        apply returns_ite
        · intro _
          exact returns_pure (FileStream.read_file _)
        · intro _
          refine returns_bind fun ok => returns_ite (fun _ => ?_) fun _ => ?_
          · exact returns_pure (FileStream.read_file _)
          · have hrest := ih (remaining - min thorChunkSize remaining)
              (by simp only [thorChunkSize]; omega)
              (stream.read (min thorChunkSize remaining)).2 (index + 1)
            rwa [FileStream.read_file] at hrest

theorem sendChunks_over (h : AgreeAlong shift (stream.ahead remaining) stream.file file)
    (index : UInt32) :
    sendChunks largePartition ((stream.advance shift).on file) remaining index =
      Prod.map id (fun behind => (behind.advance shift).on file) <$>
        sendChunks largePartition stream remaining index := by
  induction remaining using Nat.strong_induction_on generalizing stream index with
  | _ remaining ih =>
      have hchunk : min thorChunkSize remaining ≤ remaining := Nat.min_le_right _ _
      have hread := FileStream.read_over shift (h.mono (FileStream.ahead_mono hchunk))
      rw [sendChunks, sendChunks]
      split
      next => rfl
      next hpos =>
        dsimp only
        rw [hread]
        split
        next => rfl
        next =>
          rw [map_bind]
          refine bind_congr fun ok => ?_
          cases ok with
          | false => rfl
          | true =>
              apply ih (remaining - min thorChunkSize remaining)
              · simp only [thorChunkSize]
                omega
              · rw [FileStream.read_file]
                exact h.mono (FileStream.ahead_read (by omega))

end Chunks

/-! ## Legacy -/

namespace LegacyTransfer

def on (transfer : LegacyTransfer) (file : FileContent) : LegacyTransfer :=
  { transfer with stream := transfer.stream.on file }

def advance (transfer : LegacyTransfer) (count : Nat) : LegacyTransfer :=
  { transfer with stream := transfer.stream.advance count }

/-- What is left of the image in the file. -/
def ahead (transfer : LegacyTransfer) (size : Nat) : Set Nat :=
  transfer.stream.ahead (size - transfer.totalSent)

/-- Further on in the same image. -/
structure Moved (size : Nat) (transfer next : LegacyTransfer) : Prop where
  file_eq : next.stream.file = transfer.stream.file
  ahead_le : next.ahead size ⊆ transfer.ahead size

variable {size : Nat} {transfer next third : LegacyTransfer}

theorem Moved.refl : Moved size transfer transfer := ⟨rfl, subset_rfl⟩

theorem Moved.trans (h : Moved size transfer next) (h' : Moved size next third) :
    Moved size transfer third :=
  ⟨h'.file_eq.trans h.file_eq, h'.ahead_le.trans h.ahead_le⟩

theorem Moved.agree {shift : Nat} (h : Moved size transfer next)
    (hagree : AgreeAlong shift (transfer.ahead size) transfer.stream.file file) :
    AgreeAlong shift (next.ahead size) next.stream.file file := by
  rw [h.file_eq]
  exact hagree.mono h.ahead_le

end LegacyTransfer

section Sequences

variable (usb : UsbDevice) {size : Nat} {transfer : LegacyTransfer}

/-- The read of one part, which is left out behind the end of the image. -/
theorem partRead_moved (index : UInt32) {due : Nat} (hdue : due ≤ size - transfer.totalSent) :
    transfer.Moved size
      ⟨(if 0 < due then transfer.stream.read due else ([], transfer.stream)).2,
        transfer.totalSent + due, index⟩ := by
  split
  next =>
    refine ⟨FileStream.read_file _, FileStream.ahead_read ?_⟩
    dsimp only
    omega
  next =>
    refine ⟨rfl, FileStream.ahead_mono ?_⟩
    dsimp only
    omega

theorem sendLegacyParts_moved (parts : Nat) (transfer : LegacyTransfer) :
    Returns (fun next? => ∀ next, next? = some next → transfer.Moved size next)
      (sendLegacyParts usb size parts transfer) := by
  induction parts generalizing transfer with
  | zero =>
      refine returns_pure fun next hnext => ?_
      obtain rfl := Option.some.inj hnext
      exact .refl
  | succ parts ih =>
      apply returns_ite
      · intro _
        exact returns_pure (by simp)
      · intro _
        refine returns_bind fun ok => returns_ite (fun _ => returns_pure (by simp)) fun _ => ?_
        intro trace result hexec next hnext
        exact (partRead_moved _ (Nat.min_le_left _ _)).trans (ih _ trace result hexec next hnext)

theorem sendLegacyParts_over (parts : Nat)
    (h : AgreeAlong shift (transfer.ahead size) transfer.stream.file file) :
    sendLegacyParts usb size parts ((transfer.advance shift).on file) =
      Option.map (fun next => (next.advance shift).on file) <$>
        sendLegacyParts usb size parts transfer := by
  induction parts generalizing transfer with
  | zero => rfl
  | succ parts ih =>
      obtain ⟨stream, totalSent, index⟩ := transfer
      have hdue : min (size - totalSent) usb.odinFlashPacketSize ≤ size - totalSent :=
        Nat.min_le_left _ _
      have hnext := (partRead_moved (index + 1) hdue).agree h
      change sendLegacyParts usb size (parts + 1)
        ⟨(stream.advance shift).on file, totalSent, index⟩ = _
      rw [sendLegacyParts, sendLegacyParts]
      dsimp only at hnext ⊢
      rw [FileStream.read_if_over shift (h.mono (FileStream.ahead_mono hdue))]
      generalize (if 0 < min (size - totalSent) usb.odinFlashPacketSize then
        stream.read (min (size - totalSent) usb.odinFlashPacketSize) else ([], stream)) = read
          at hnext ⊢
      obtain ⟨data, behind⟩ := read
      dsimp only [Prod.map, id]
      split
      next => rfl
      next =>
        rw [map_bind]
        refine bind_congr fun ok => ?_
        cases ok with
        | false => rfl
        | true => exact ih hnext

theorem sendLegacySequence_moved (pitEntry : PitEntry) (realSize : Nat) (last : Bool)
    (transfer : LegacyTransfer) :
    Returns (fun next? => ∀ next, next? = some next → transfer.Moved size next)
      (sendLegacySequence usb pitEntry size realSize last transfer) := by
  refine returns_bind fun ok => returns_ite (fun _ => returns_pure (by simp)) fun _ => ?_
  refine returns_bind_of (sendLegacyParts_moved usb _ transfer) fun next? hnext => ?_
  cases next? with
  | none => exact returns_pure (by simp)
  | some next =>
      exact returns_bind fun ended => returns_ite (fun _ => returns_pure (by simp)) fun _ =>
        returns_pure hnext

theorem sendLegacySequence_over (pitEntry : PitEntry) (realSize : Nat) (last : Bool)
    (h : AgreeAlong shift (transfer.ahead size) transfer.stream.file file) :
    sendLegacySequence usb pitEntry size realSize last ((transfer.advance shift).on file) =
      Option.map (fun next => (next.advance shift).on file) <$>
        sendLegacySequence usb pitEntry size realSize last transfer := by
  unfold sendLegacySequence
  rw [map_bind]
  refine bind_congr fun ok => ?_
  cases ok with
  | false => rfl
  | true =>
      simp only [Bool.not_true, Bool.false_eq_true, ↓reduceIte]
      rw [sendLegacyParts_over shift usb _ h, map_bind, bind_map_left]
      refine bind_congr fun next? => ?_
      cases next? with
      | none => rfl
      | some next =>
          dsimp only [Option.map_some]
          rw [map_bind]
          refine bind_congr fun ended => ?_
          cases ended <;> rfl

theorem sendLegacySequences_moved (pitEntry : PitEntry) (sequenceBytes lastSequence count : Nat)
    (transfer : LegacyTransfer) :
    Returns (fun next? => ∀ next, next? = some next → transfer.Moved size next)
      (sendLegacySequences usb pitEntry size sequenceBytes lastSequence count transfer) := by
  induction count generalizing transfer with
  | zero =>
      refine returns_pure fun next hnext => ?_
      obtain rfl := Option.some.inj hnext
      exact .refl
  | succ count ih =>
      refine returns_bind_of (sendLegacySequence_moved usb pitEntry _ _ transfer)
        fun next? hnext => ?_
      cases next? with
      | none => exact returns_pure (by simp)
      | some next =>
          intro trace result hexec last hlast
          exact (hnext next rfl).trans (ih next trace result hexec last hlast)

theorem sendLegacySequences_over (pitEntry : PitEntry) (sequenceBytes lastSequence count : Nat)
    (h : AgreeAlong shift (transfer.ahead size) transfer.stream.file file) :
    sendLegacySequences usb pitEntry size sequenceBytes lastSequence count
        ((transfer.advance shift).on file) =
      Option.map (fun next => (next.advance shift).on file) <$>
        sendLegacySequences usb pitEntry size sequenceBytes lastSequence count transfer := by
  induction count generalizing transfer with
  | zero => rfl
  | succ count ih =>
      rw [sendLegacySequences, sendLegacySequences,
        sendLegacySequence_over shift usb pitEntry _ _ h, map_bind, bind_map_left]
      refine bind_congr_of_returns (sendLegacySequence_moved usb pitEntry _ _ transfer)
        fun next? hnext => ?_
      cases next? with
      | none => rfl
      | some next => exact ih ((hnext next rfl).agree h)

end Sequences

/-! ## Images -/

section Images

variable (usb : UsbDevice) {stream : FileStream} {size : Nat} (pitEntry : PitEntry)
  (largePartition : Bool)

theorem flashLegacyStream_file (stream : FileStream) (size : Nat) :
    Returns (·.2.file = stream.file) (flashLegacyStream usb stream size pitEntry) := by
  refine returns_bind fun ok => returns_ite (fun _ => returns_pure rfl) fun _ => ?_
  apply returns_ite
  · intro _
    exact returns_pure rfl
  · intro _
    apply returns_ite
    · intro _
      exact returns_pure rfl
    · intro _
      refine returns_ite (fun _ => returns_pure rfl) fun _ => ?_
      refine returns_bind_of (sendLegacySequences_moved usb pitEntry _ _ _ ⟨stream, 0, 0⟩)
        fun last? hlast => ?_
      cases last? with
      | none => exact returns_pure rfl
      | some last => exact returns_bind fun ok => returns_pure (hlast last rfl).file_eq

theorem flashLegacyStream_over (h : AgreeAlong shift (stream.ahead size) stream.file file) :
    flashLegacyStream usb ((stream.advance shift).on file) size pitEntry =
      Prod.map id (fun behind => (behind.advance shift).on file) <$>
        flashLegacyStream usb stream size pitEntry := by
  let start : LegacyTransfer := ⟨stream, 0, 0⟩
  have hstart : AgreeAlong shift (start.ahead size) start.stream.file file := h
  unfold flashLegacyStream
  rw [map_bind]
  refine bind_congr fun ok => ?_
  cases ok with
  | false => rfl
  | true =>
      simp only [Bool.not_true, Bool.false_eq_true, ↓reduceIte]
      split
      next => rfl
      split
      next => rfl
      split
      next => rfl
      next =>
        change (sendLegacySequences usb pitEntry size _ _ _ ((start.advance shift).on file) >>= _) = _
        rw [sendLegacySequences_over shift usb pitEntry _ _ _ hstart, map_bind, bind_map_left]
        refine bind_congr fun last? => ?_
        cases last? with
        | none => rfl
        | some last =>
            dsimp only [Option.map_some]
            rw [map_bind]
            rfl

theorem flashPartitionStream_file (stream : FileStream) (size : Nat) :
    Returns (·.2.file = stream.file)
      (flashPartitionStream usb stream size pitEntry largePartition) :=
  returns_ite (fun _ => flashLegacyStream_file usb pitEntry stream size) fun _ =>
    returns_bind fun _ => returns_ite (fun _ => returns_pure rfl) fun _ =>
      sendChunks_file largePartition stream size 0

theorem flashPartitionStream_over (h : AgreeAlong shift (stream.ahead size) stream.file file) :
    flashPartitionStream usb ((stream.advance shift).on file) size pitEntry largePartition =
      Prod.map id (fun behind => (behind.advance shift).on file) <$>
        flashPartitionStream usb stream size pitEntry largePartition := by
  unfold flashPartitionStream
  split
  next => exact flashLegacyStream_over shift usb pitEntry h
  next =>
    rw [map_bind]
    refine bind_congr fun ok => ?_
    cases ok with
    | false => rfl
    | true => exact sendChunks_over shift largePartition h 0

end Images

end Odin4
