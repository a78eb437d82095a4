import Odin4.Usb.Session

/-!
# File transfers

What the transfer of one image sends in either protocol: the parts, their
numbers and sizes, and how they are cut from the image.
-/

namespace Odin4

open Interaction Program Dialogue Computability

/-! ## Thor parts -/

/-- The packets of consecutive parts, numbered from `index`. -/
def fileParts : (index : UInt32) → (payloads : List Bytes) → List Packet
  | _, [] => []
  | index, payload :: rest =>
      .thor (.filePart index (UInt32.ofNat payload.length)) :: .data payload ::
        fileParts (index + 1) rest

theorem fileParts_mem (index : UInt32) (payloads : List Bytes) :
    fileParts index payloads ∈ partWords∗ := by
  induction payloads generalizing index with
  | nil => exact Language.nil_mem_kstar _
  | cons payload rest ih =>
      have hpart : [.thor (.filePart index (UInt32.ofNat payload.length)), .data payload] ∈
          partWords := ⟨_, _, _, rfl⟩
      have hle : partWords * partWords∗ ≤ partWords∗ := mul_kstar_le_kstar
      exact hle (Language.append_mem_mul hpart (ih (index + 1)))

theorem sendFilePartChunk_follows (data : Bytes) (index : UInt32) (largePartition : Bool)
    (s : UInt32) :
    Exchanges (sendFilePartChunk data index largePartition)
      (Follows (fileParts index [data]) s) := by
  refine conducts_unless (thorExchange_single rfl 0) (fun xs hxs => ?_) fun xs hxs => ?_
  · exact (hxs.follows s).stop
  · refine Conducts.mono (?_ : Exchanges _ (Single (.data data))) fun ys ok hys => ?_
    · exact exchanges_bulkWriteAll (single_unsent _ _) (answering_response rfl)
    · exact (hxs.follows s).append (hys.follows _)

/-- A part in front of others; a last part is followed by none. -/
theorem partCount_cons {count remaining : Nat} (hpos : 0 < remaining)
    (hcount : count * thorChunkSize < remaining - min thorChunkSize remaining + thorChunkSize) :
    (count + 1) * thorChunkSize < remaining + thorChunkSize := by
  rw [Nat.add_mul, Nat.one_mul]
  rcases Nat.lt_or_ge thorChunkSize remaining with hlt | hle
  · rw [Nat.min_eq_left (Nat.le_of_lt hlt)] at hcount
    omega
  · rw [Nat.min_eq_right hle, Nat.sub_self, Nat.zero_add] at hcount
    obtain rfl : count = 0 := by
      by_contra hmore
      exact absurd hcount (Nat.not_lt.mpr (Nat.le_mul_of_pos_left _ (Nat.pos_of_ne_zero hmore)))
    omega

/-- The parts of a raw image. When the transfer succeeds they are the image,
cut into chunks; otherwise a part was refused or the stream came up short. -/
theorem sendChunks_follows (largePartition : Bool) (stream : FileStream) (remaining : Nat)
    (index s : UInt32) :
    Exchanges (sendChunks largePartition stream remaining index) fun xs result =>
      ∃ payloads ok, Follows (fileParts index payloads) s xs ok ∧
        (∀ payload ∈ payloads, payload ≠ [] ∧ payload.length ≤ thorChunkSize) ∧
        (result.1 = true → ok = true ∧ remaining ≤ stream.rest.length ∧
          payloads.flatten = stream.rest.take remaining ∧ result.2 = stream.advance remaining ∧
          payloads.length * thorChunkSize < remaining + thorChunkSize) ∧
        (result.1 = false →
          ok = false ∨ stream.failed = true ∨ stream.rest.length < remaining) := by
  induction remaining using Nat.strong_induction_on generalizing stream index s with
  | _ remaining ih =>
      rw [sendChunks]
      split
      next hzero =>
        subst hzero
        exact conducts_pure ⟨[], true, follows_nil, by simp, by simp [thorChunkSize], by simp⟩
      next hremaining =>
        dsimp only
        have hpos : 0 < min thorChunkSize remaining := by
          simp only [thorChunkSize]
          omega
        split
        -- A short read sends nothing and ends the transfer.
        next hshort =>
          refine conducts_pure ⟨[], true, follows_nil, by simp, by simp, fun _ => .inr ?_⟩
          obtain hfailed | hlen := FileStream.read_short hshort
          · exact .inl hfailed
          · exact .inr (by omega)
        next hfull =>
          obtain ⟨hok, hlen⟩ := FileStream.read_full hpos (not_not.mp hfull)
          simp only [FileStream.read_of_le hok hlen]
          have hchunk : stream.rest.take (min thorChunkSize remaining) ≠ [] ∧
              (stream.rest.take (min thorChunkSize remaining)).length ≤ thorChunkSize := by
            rw [← List.length_pos_iff, List.length_take]
            omega
          refine conducts_unless (sendFilePartChunk_follows _ _ _ s) (fun xs hxs => ?_)
            fun xs hxs => ?_
          · exact ⟨[_], false, hxs, List.forall_mem_singleton.mpr hchunk, by simp, by simp⟩
          · refine (ih _ (by omega) (stream.advance _) (index + 1) (after s xs)).mono
              fun ys result hys => ?_
            obtain ⟨payloads, ok, hfollows, hsizes, hdone, hgave⟩ := hys
            refine ⟨_ :: payloads, ok, hxs.append hfollows, ?_, ?_, ?_⟩
            · exact List.forall_mem_cons.mpr ⟨hchunk, hsizes⟩
            · intro htrue
              obtain ⟨hok', hrest, hflatten, hstream, hcount⟩ := hdone htrue
              simp only [FileStream.rest_advance, List.length_drop] at hrest
              refine ⟨hok', by omega, ?_, ?_, ?_⟩
              · rw [List.flatten_cons, hflatten, FileStream.rest_advance, ← List.take_add]
                congr 1
                omega
              · rw [hstream, FileStream.advance_advance]
                congr 1
                omega
              · exact partCount_cons (Nat.pos_of_ne_zero hremaining) hcount
            · intro hfalse
              obtain h | h | h := hgave hfalse
              · exact .inl h
              · exact .inr (.inl h)
              · simp only [FileStream.rest_advance, List.length_drop] at h
                exact .inr (.inr (by omega))

end Odin4
