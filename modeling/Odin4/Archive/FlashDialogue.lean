import Odin4.Archive.Visits

/-!
# Flashing an archive as a dialogue

The file transfers of an archive as words of the session language.
-/

namespace Odin4

open Interaction Program Dialogue Computability

/-- A result that lets the archive go on. -/
def goesOn {α : Type} (result : Except ExitCode α) : Prop := ∃ a, result = .ok a

theorem not_goesOn {α : Type} {result : Except ExitCode α} (h : ¬ goesOn result) :
    ∃ code, result = .error code := by
  cases result with
  | error code => exact ⟨code, rfl⟩
  | ok a => exact absurd ⟨a, rfl⟩ h

theorem exists_mem_transferWords (mode : ProtocolMode) : ∃ word, word ∈ mode.transferWords := by
  cases mode with
  | thor =>
      exact ⟨_, Language.append_mem_mul (mem_packetWords ⟨0, rfl⟩) (Language.nil_mem_kstar _)⟩
  | odinLegacy =>
      exact ⟨_, Language.append_mem_mul (Language.append_mem_mul mem_packetWord
        (Language.nil_mem_kstar _)) mem_packetWord⟩

section Flash

variable (dec : Lz4Decoder) (usb : UsbDevice)

theorem processLz4Streaming_keeping (hthor : usb.protocolMode = .thor) (file : FileStream)
    (compressedSize : Nat) (largePartition : Bool) :
    Keeping usb.protocolMode.transferWords
      (processLz4Streaming dec file compressedSize usb largePartition true) (·.isSome = true) := by
  cases hplan : lz4Plan dec file compressedSize with
  | none =>
      rw [processLz4Streaming_unplanned _ _ _ _ _ _ hplan]
      exact keeps_stop (exists_mem_transferWords _) (by simp)
  | some plan =>
      intro s
      refine (processLz4Streaming_follows dec file compressedSize usb largePartition hplan s).mono
        fun xs result hxs => ?_
      obtain ⟨ok, hfollows, hresult⟩ := hxs
      have hannounce : announcement usb plan.uncompressedSize =
          .thor (.filePartSize (UInt64.ofNat plan.uncompressedSize)) := by
        simp [announcement, UsbDevice.isOdinLegacy, hthor]
      rw [hannounce] at hfollows
      refine (Orderly.of_follows hfollows ?_).weaken fun hsome => ?_
      · rw [hthor]
        exact Language.append_mem_mul (mem_packetWords ⟨_, rfl⟩) (fileParts_mem 0 _)
      · cases ok with
        | true => rfl
        | false => simp [hresult] at hsome

theorem transferMember_flash (member : Member) (file : FileStream) :
    Keeping usb.protocolMode.transferWords (transferMember dec usb true member file) goesOn := by
  have hstop : ∀ code, ¬ goesOn (Except.error code : Except ExitCode FileStream) := by
    rintro code ⟨_, h⟩
    cases h
  rw [← mul_one usb.protocolMode.transferWords]
  unfold transferMember
  split
  next =>
    split
    next =>
      rw [mul_one]
      exact keeps_stop (exists_mem_transferWords _) (hstop _)
    next hthor =>
      have hmode : usb.protocolMode = .thor := by
        cases hmode : usb.protocolMode with
        | thor => rfl
        | odinLegacy => simp [UsbDevice.isOdinLegacy, hmode] at hthor
      refine keeps_bind (processLz4Streaming_keeping dec usb hmode _ _ _) ⟨[], rfl⟩
        (fun file? hnone => ?_) fun file? hsome => ?_
      · obtain rfl : file? = none := by simpa using hnone
        exact ⟨_, rfl, hstop _⟩
      · obtain ⟨file, rfl⟩ := Option.isSome_iff_exists.mp hsome
        exact keeps_pure _
  next =>
    refine keeps_bind (flashPartitionStream_keeping usb _ _ _ _) ⟨[], rfl⟩
      (fun result hfalse => ?_) fun result htrue => ?_
    · obtain ⟨ok, file⟩ := result
      obtain rfl : ok = false := by simpa using hfalse
      exact ⟨_, rfl, hstop _⟩
    · obtain ⟨ok, file⟩ := result
      obtain rfl : ok = true := htrue
      exact keeps_pure _

theorem processMember_flash (member : Member) (state : WalkState) :
    Keeping usb.protocolMode.fileWords (processMember dec usb true member state) goesOn := by
  have hstop : ∀ code, ¬ goesOn (Except.error code : Except ExitCode WalkState) := by
    rintro code ⟨_, h⟩
    cases h
  refine keeps_bind (transferMember_flash dec usb member state.file) (exists_mem_finishWords _)
    (fun result herror => ?_) fun result hok => ?_
  · obtain ⟨code, rfl⟩ := not_goesOn herror
    exact ⟨_, rfl, hstop code⟩
  obtain ⟨file, rfl⟩ := hok
  dsimp only
  refine keeps_ite (fun _ => keeps_stop (exists_mem_finishWords _) (hstop _)) fun _ => ?_
  simp only [↓reduceIte]
  rw [← mul_one usb.protocolMode.finishWords]
  exact keeps_unless (endFileTransfer_keeping usb _) ⟨[], rfl⟩ (hstop _) (keeps_pure _)

theorem transferMember_code (doFlash : Bool) (member : Member) (file : FileStream) :
    Returns (· ≠ .error .success) (transferMember dec usb doFlash member file) := by
  refine returns_ite (fun _ => ?_) fun _ => returns_ite (fun _ => ?_) fun _ => ?_
  · refine returns_ite (fun _ => returns_pure (by simp)) fun _ => returns_bind fun file? => ?_
    cases file? with
    | none => exact returns_pure (by cases doFlash <;> simp)
    | some file => exact returns_pure (by simp)
  · refine returns_bind fun result => ?_
    exact returns_ite (fun _ => returns_pure (by simp)) fun _ => returns_pure (by simp)
  · exact returns_ite (fun _ => returns_pure (by simp)) fun _ => returns_pure (by simp)

/-- A member that is given up is given up with a failure. -/
theorem processMember_code (doFlash : Bool) (member : Member) (state : WalkState) :
    Returns (· ≠ .error .success) (processMember dec usb doFlash member state) := by
  refine returns_bind_of (transferMember_code dec usb doFlash member state.file)
    fun result hresult => ?_
  cases result with
  | error code => exact returns_pure fun h => hresult (by simpa using h)
  | ok file =>
      refine returns_ite (fun _ => returns_pure (by simp)) fun _ => ?_
      refine returns_ite (fun _ => returns_bind fun ok => ?_) fun _ => returns_pure (by simp)
      exact returns_ite (fun _ => returns_pure (by simp)) fun _ => returns_pure (by simp)

theorem memberLoop_flash (pitTable : PitTable) (allowUnknown : Bool) (contentEnd fuel : Nat)
    (state : WalkState) :
    Keeping usb.protocolMode.fileWords∗
      (memberLoop dec usb pitTable true allowUnknown contentEnd fuel state) (· = .success) := by
  have hnil : ∃ word, word ∈ usb.protocolMode.fileWords∗ := ⟨[], Language.nil_mem_kstar _⟩
  induction fuel generalizing state with
  | zero => exact keeps_stop hnil (by simp)
  | succ fuel ih =>
      rw [memberLoop]
      cases readMember contentEnd pitTable allowUnknown state with
      | stop code => exact fun _ => conducts_pure .star_nil
      | skip next => exact ih next
      | matched member next =>
          refine (keeps_bind_of (processMember_flash dec usb member next)
            (processMember_code dec usb true member next) hnil
            (fun result hcode herror => ?_) fun result _ hok => ?_).mono mul_kstar_le_kstar
          · obtain ⟨code, rfl⟩ := not_goesOn herror
            exact ⟨code, rfl, fun h => hcode (h ▸ rfl)⟩
          · obtain ⟨next, rfl⟩ := hok
            exact ih next

/-- A flashed archive is a sequence of file transfers, all accepted if it succeeds. -/
theorem processTarFile_flash (host : Host) (tarPath : Bytes) (pitTable : PitTable)
    (allowUnknown : Bool) :
    Keeping usb.protocolMode.fileWords∗
      (processTarFile host tarPath usb pitTable true allowUnknown) (· = .success) := by
  unfold processTarFile
  cases openArchive host tarPath with
  | error code => exact fun _ => conducts_pure .star_nil
  | ok opened => exact memberLoop_flash _ _ _ _ _ _ _

end Flash

end Odin4
