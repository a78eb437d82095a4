import Mathlib.Data.List.Chain
import Mathlib.Order.CompletePartialOrder
import Mathlib.Order.Interval.Set.Disjoint
import Odin4.Archive.Footprint
import Odin4.Archive.RoundTrip

/-!
# Bounds of the walk

Whatever the bytes of an archive, the headers that are read lie one behind the
other, each behind the data of the one before and their padding, and nothing
is read outside of them and outside of the content.
-/

namespace Odin4

open Interaction Program

/-! ## Visits of a content -/

/-- The visit of a header that lies, with its data, within the content. -/
structure Visit.Within (contentEnd : Nat) (file : FileContent) (visit : Visit) : Prop where
  header_eq : visit.header = (file.bytes.drop visit.offset).take tarBlockSize
  header_le : visit.offset + tarBlockSize ≤ contentEnd
  data_le : visit.offset + tarBlockSize + visit.dataSize?.getD 0 ≤ contentEnd
  size_eq : ∀ size, visit.dataSize? = some size → headerSize visit.header = some size

/-- The next header stands behind the padded data of this one. -/
def Visit.Next (visit next : Visit) : Prop :=
  ∃ size, headerSize visit.header = some size ∧
    next.offset = visit.offset + tarBlockSize + roundUp512 size

/-- The visits of a walk that starts at an offset. -/
inductive VisitsFrom (contentEnd : Nat) (file : FileContent) : (offset : Nat) → List Visit → Prop where
  | done {offset : Nat} : VisitsFrom contentEnd file offset []
  | last {visit : Visit} :
      visit.Within contentEnd file → VisitsFrom contentEnd file visit.offset [visit]
  | next {visit : Visit} {size : Nat} {rest : List Visit} :
      visit.Within contentEnd file → visit.dataSize? = some size →
      VisitsFrom contentEnd file (visit.offset + tarBlockSize + roundUp512 size) rest →
      VisitsFrom contentEnd file visit.offset (visit :: rest)

/-- The arithmetic of a visit stays in range: positions and sums in 64 unsigned
bits, and the casts to signed offsets keep their values. -/
structure Visit.Unwrapped (usb : UsbDevice) (visit : Visit) : Prop where
  header_lt : visit.offset + tarBlockSize < 2 ^ 64
  size_lt : ∀ size, headerSize visit.header = some size → size < 8 ^ 12
  next_lt : ∀ size, visit.dataSize? = some size →
    visit.offset + tarBlockSize + roundUp512 size + tarBlockSize < 2 ^ 64
  cast_size : ∀ size, visit.dataSize? = some size → toStreamoff size = size
  cast_padding : ∀ size, visit.dataSize? = some size → toStreamoff (tarPadding size) = tarPadding size
  sequences_lt : ∀ size, visit.dataSize? = some size → usb.isOdinLegacy = true →
    size + sequenceBytes usb < 2 ^ 64

/-- The bytes of a header and those of its data. -/
def Visit.ranges (visit : Visit) : List (Set Nat) := [visit.headerRange, visit.dataRange]

/-- A walk over a content: the headers are chained from its start, what is read
lies within the content and is read once, and no arithmetic wraps. -/
structure InBounds (usb : UsbDevice) (contentEnd : Nat) (file : FileContent)
    (visits : List Visit) : Prop where
  within : ∀ visit ∈ visits, visit.Within contentEnd file
  first : ∀ visit ∈ visits.head?, visit.offset = 0
  next : visits.IsChain Visit.Next
  bounded : ∀ range ∈ visits.flatMap Visit.ranges, range ⊆ Set.Ico 0 contentEnd
  disjoint : (visits.flatMap Visit.ranges).Pairwise Disjoint
  unwrapped : ∀ visit ∈ visits, visit.Unwrapped usb
  count : visits.length ≤ contentEnd / tarBlockSize

section Visits

variable {contentEnd offset : Nat} {file : FileContent} {visits : List Visit} {visit : Visit}

theorem le_roundUp512 (size : Nat) : size ≤ roundUp512 size := by
  unfold roundUp512
  omega

theorem Visit.ranges_disjoint (visit : Visit) : visit.ranges.Pairwise Disjoint :=
  List.pairwise_pair.mpr Set.Ico_disjoint_Ico_same

/-- A visit reads from its header to the end of its data. -/
theorem Visit.ranges_subset (visit : Visit) :
    ∀ range ∈ visit.ranges,
      range ⊆ Set.Ico visit.offset (visit.offset + tarBlockSize + visit.dataSize?.getD 0) := by
  intro range hrange
  simp only [Visit.ranges, List.mem_cons, List.not_mem_nil, or_false] at hrange
  rcases hrange with rfl | rfl
  · exact Set.Ico_subset_Ico_right (Nat.le_add_right _ _)
  · exact Set.Ico_subset_Ico_left (Nat.le_add_right _ _)

namespace VisitsFrom

theorem within (h : VisitsFrom contentEnd file offset visits) :
    ∀ visit ∈ visits, visit.Within contentEnd file := by
  induction h with
  | done => simp
  | last hhere => exact List.forall_mem_singleton.mpr hhere
  | next hhere hsize hrest ih => exact List.forall_mem_cons.mpr ⟨hhere, ih⟩

theorem head (h : VisitsFrom contentEnd file offset visits) :
    ∀ visit ∈ visits.head?, visit.offset = offset := by
  cases h <;> simp

theorem chain (h : VisitsFrom contentEnd file offset visits) : visits.IsChain Visit.Next := by
  induction h with
  | done => exact List.isChain_nil
  | last hhere => exact List.isChain_singleton _
  | @next visit size rest hhere hsize hrest ih =>
      cases rest with
      | nil => exact List.isChain_singleton _
      | cons next rest =>
          refine List.isChain_cons_cons.mpr ⟨⟨size, hhere.size_eq size hsize, ?_⟩, ih⟩
          exact hrest.head next rfl

/-- No visit lies before the start of the walk. -/
theorem from_offset (h : VisitsFrom contentEnd file offset visits) :
    ∀ visit ∈ visits, offset ≤ visit.offset := by
  induction h with
  | done => simp
  | last hhere => simp
  | next hhere hsize hrest ih =>
      refine List.forall_mem_cons.mpr ⟨Nat.le_refl _, fun visit hvisit => ?_⟩
      exact Nat.le_trans (by omega) (ih visit hvisit)

theorem disjoint (h : VisitsFrom contentEnd file offset visits) :
    (visits.flatMap Visit.ranges).Pairwise Disjoint := by
  induction h with
  | done => exact List.Pairwise.nil
  | @last visit hhere =>
      rw [List.flatMap_singleton]
      exact visit.ranges_disjoint
  | @next visit size rest hhere hsize hrest ih =>
      rw [List.flatMap_cons]
      refine List.pairwise_append.mpr ⟨visit.ranges_disjoint, ih, fun range hrange other hother => ?_⟩
      obtain ⟨later, hlater, hother⟩ := List.mem_flatMap.mp hother
      have hbehind := hrest.from_offset later hlater
      have hround := le_roundUp512 size
      have hend : visit.offset + tarBlockSize + visit.dataSize?.getD 0 ≤ later.offset := by
        rw [hsize, Option.getD_some]
        omega
      exact (Set.Iio_disjoint_Ici hend).mono
        ((visit.ranges_subset range hrange).trans Set.Ico_subset_Iio_self)
        ((later.ranges_subset other hother).trans Set.Ico_subset_Ici_self)

/-- Every header takes a block of the content. -/
theorem length_le (h : VisitsFrom contentEnd file offset visits) :
    visits.length * tarBlockSize ≤ contentEnd - offset := by
  induction h with
  | done => simp
  | last hhere =>
      have hle := hhere.header_le
      simp only [List.length_singleton]
      omega
  | next hhere hsize hrest ih =>
      have hle := hhere.header_le
      rw [List.length_cons, Nat.succ_mul]
      omega

end VisitsFrom

theorem Visit.Within.bounded (h : visit.Within contentEnd file) :
    ∀ range ∈ visit.ranges, range ⊆ Set.Ico 0 contentEnd := by
  intro range hrange
  exact (visit.ranges_subset range hrange).trans (Set.Ico_subset_Ico (Nat.zero_le _) h.data_le)

theorem Visit.Within.unwrapped (h : visit.Within contentEnd file) (hcontent : contentEnd < 2 ^ 63)
    {usb : UsbDevice} (hbegun : usb.Begun) : visit.Unwrapped usb := by
  have hheader := h.header_le
  have hsize : ∀ size, visit.dataSize? = some size → size < 8 ^ 12 :=
    fun size hsize => headerSize_lt (h.size_eq size hsize)
  refine ⟨by omega, fun size hparsed => headerSize_lt hparsed, fun size haccepted => ?_,
    fun size haccepted => ?_, fun size haccepted => ?_, fun size haccepted hlegacy => ?_⟩
  · have hlt := hsize size haccepted
    unfold roundUp512 tarBlockSize at *
    omega
  · have hlt := hsize size haccepted
    exact FileStream.toStreamoff_of_lt (by omega)
  · apply FileStream.toStreamoff_of_lt
    unfold tarPadding
    omega
  · have hlt := hsize size haccepted
    have hbytes := (hbegun hlegacy).layout.bytes_lt
    omega

theorem VisitsFrom.inBounds (h : VisitsFrom contentEnd file 0 visits) (hcontent : contentEnd < 2 ^ 63)
    {usb : UsbDevice} (hbegun : usb.Begun) : InBounds usb contentEnd file visits where
  within := h.within
  first := h.head
  next := h.chain
  bounded := fun range hrange => by
    obtain ⟨visit, hvisit, hrange⟩ := List.mem_flatMap.mp hrange
    exact (h.within visit hvisit).bounded range hrange
  disjoint := h.disjoint
  unwrapped := fun visit hvisit => (h.within visit hvisit).unwrapped hcontent hbegun
  count := (Nat.le_div_iff_mul_le (by decide)).mpr h.length_le

end Visits

/-! ## The loop -/

section Loop

variable {dec : Lz4Decoder} {usb : UsbDevice} {pitTable : PitTable} {doFlash allowUnknown : Bool}
  {contentEnd : Nat}

theorem Accepted.within {stream : FileStream} {offset dataSize : Nat} {header : Bytes}
    (h : Accepted contentEnd stream offset header dataSize) (member? : Option Member) :
    Visit.Within contentEnd stream.file ⟨offset, header, some dataSize, member?⟩ where
  header_eq := by
    rw [h.header_eq, ← h.offset_eq]
    rfl
  header_le := (Nat.le_add_right _ _).trans h.fits
  data_le := h.fits
  size_eq := fun size hsize => by
    obtain rfl := Option.some.inj hsize
    exact h.size_eq

/-- A walk that ends with the header it has just read. -/
theorem visitsFrom_stop {start : FileStream} {header : HeaderStep} {code : ExitCode}
    (h : TurnSpec contentEnd start header (.stop code)) :
    VisitsFrom contentEnd start.file start.pos (header.visits none) := by
  cases h with
  | absent => exact .done
  | @refused offset header _ hok hpos hheader hwithin =>
      subst hpos
      have hbytes : header = (start.file.bytes.drop start.pos).take tarBlockSize := by
        rw [hheader, FileStream.read, if_neg (by simp [hok])]
        rfl
      have hhere : Visit.Within contentEnd start.file ⟨start.pos, header, none, none⟩ :=
        ⟨hbytes, hwithin, hwithin, by simp⟩
      exact .last hhere
  | stopped haccepted =>
      obtain rfl := haccepted.offset_eq
      exact .last (haccepted.within none)

theorem visitLoop_visitsFrom (hbegun : usb.Begun) (hcontent : contentEnd < 2 ^ 63)
    {fuel : Nat} {state : WalkState} {trace : UsbTrace} {walk : Walk}
    (hexec : (visitLoop dec usb pitTable doFlash allowUnknown contentEnd fuel state).Executes
      trace walk) :
    VisitsFrom contentEnd state.file.file state.file.pos walk.visits := by
  induction fuel generalizing state trace walk with
  | zero =>
      obtain ⟨-, rfl⟩ := hexec
      exact .done
  | succ fuel ih =>
      have hspec := readMember_spec contentEnd pitTable allowUnknown state
      rw [visitLoop] at hexec
      cases hstep : readMember contentEnd pitTable allowUnknown state with
      | stop code =>
          rw [hstep] at hexec hspec
          obtain ⟨-, rfl⟩ := hexec
          exact visitsFrom_stop hspec
      | skip next =>
          rw [hstep] at hexec hspec
          obtain ⟨rest, hrest, rfl⟩ := executes_map.mp hexec
          have hbehind := ih hrest
          generalize readHeader contentEnd state.file = header at hspec
          cases hspec with
          | skip haccepted hgood hfile =>
              obtain rfl := haccepted.offset_eq
              rw [hfile, FileStream.advance_pos, ← Nat.add_assoc] at hbehind
              exact .next (haccepted.within none) rfl hbehind
      | matched member next =>
          rw [hstep] at hexec hspec
          obtain ⟨first, result, second, -, hmember, hexec⟩ := executes_bind.mp hexec
          generalize readHeader contentEnd state.file = header at hspec hexec
          cases hspec with
          | matched haccepted hsize hfile =>
              obtain rfl := haccepted.offset_eq
              subst hsize
              have hwithin := haccepted.within (some member)
              have hfits := haccepted.fits
              cases result with
              | error code =>
                  obtain ⟨-, rfl⟩ := hexec
                  exact .last hwithin
              | ok after =>
                  obtain ⟨rest, hrest, rfl⟩ := executes_map.mp hexec
                  have hbehind := ih hrest
                  have hok : next.file.failed = false := by
                    rw [hfile]
                    exact haccepted.good
                  -- However the member was sent, the stream is behind its padded data.
                  obtain ⟨-, rfl⟩ := processMember_advance hbegun hok (by omega) doFlash
                    first _ hmember after rfl
                  dsimp only at hbehind
                  rw [hfile, FileStream.advance_advance, FileStream.advance_pos,
                    ← Nat.add_assoc] at hbehind
                  exact .next hwithin rfl hbehind

/-- Every turn takes a block, so fuel for all blocks of the content is never used up. -/
theorem visitLoop_fuel (hbegun : usb.Begun) (hcontent : contentEnd < 2 ^ 63) {fuel : Nat}
    {state : WalkState} (hsome : 0 < fuel)
    (hfuel : contentEnd < state.file.pos + fuel * tarBlockSize) (more : Nat) :
    visitLoop dec usb pitTable doFlash allowUnknown contentEnd (fuel + more) state =
      visitLoop dec usb pitTable doFlash allowUnknown contentEnd fuel state := by
  induction fuel generalizing state with
  | zero => exact absurd hsome (Nat.lt_irrefl 0)
  | succ fuel ih =>
      have hblock : 0 < tarBlockSize := by decide
      have hspec := readMember_spec contentEnd pitTable allowUnknown state
      -- Behind an accepted header there is less content, and fuel for it.
      have hrest : ∀ offset header dataSize, Accepted contentEnd state.file offset header dataSize →
          ∀ next : WalkState, next.file = state.file.advance (tarBlockSize + roundUp512 dataSize) →
          visitLoop dec usb pitTable doFlash allowUnknown contentEnd (fuel + more) next =
            visitLoop dec usb pitTable doFlash allowUnknown contentEnd fuel next := by
        intro offset header dataSize haccepted next hnext
        have hfits := haccepted.fits
        rw [← haccepted.offset_eq] at hfits
        rw [Nat.succ_mul] at hfuel
        have hleft : 0 < fuel := by
          rcases Nat.eq_zero_or_pos fuel with rfl | hpos
          · omega
          · exact hpos
        apply ih hleft
        rw [hnext, FileStream.advance_pos]
        omega
      rw [Nat.add_right_comm, visitLoop, visitLoop]
      cases hstep : readMember contentEnd pitTable allowUnknown state with
      | stop code => rfl
      | skip next =>
          rw [hstep] at hspec
          dsimp only
          congr 1
          generalize readHeader contentEnd state.file = header at hspec
          cases hspec with
          | skip haccepted hgood hfile => exact hrest _ _ _ haccepted next hfile
      | matched member next =>
          rw [hstep] at hspec
          dsimp only
          generalize readHeader contentEnd state.file = header at hspec ⊢
          cases hspec with
          | matched haccepted hsize hfile =>
              have hfits := haccepted.fits
              have hok : next.file.failed = false := by
                rw [hfile]
                exact haccepted.good
              refine bind_congr_of_returns
                (processMember_advance hbegun hok (by omega) doFlash) fun result hresult => ?_
              cases result with
              | error code => rfl
              | ok after =>
                  dsimp only
                  rw [hrest _ _ _ haccepted after]
                  rw [(hresult after rfl).2, hfile, FileStream.advance_advance, hsize]

end Loop

/-! ## Archives -/

/-- Every run over an archive walks it in bounds. It depends on nothing but the
headers and data that it visits, and it is never cut short for want of fuel. -/
theorem processTarFile_inBounds {host : Host} {tarPath : Bytes} {usb : UsbDevice}
    {pitTable : PitTable} {doFlash allowUnknown : Bool} (hbegun : usb.Begun)
    {trace : UsbTrace} {code : ExitCode}
    (hexec : (processTarFile host tarPath usb pitTable doFlash allowUnknown).Executes trace code) :
    ∃ visits,
      (visitTarFile usb pitTable doFlash allowUnknown host tarPath).Executes trace ⟨visits, code⟩ ∧
      (∀ reason, openArchive host tarPath = .error reason → visits = []) ∧
      ∀ stream contentEnd, openArchive host tarPath = .ok (stream, contentEnd) →
        contentEnd ≤ stream.file.bytes.length ∧ InBounds usb contentEnd stream.file visits ∧
        (∀ file, AgreeAt visits stream.file file →
          (visitLoop host.lz4 usb pitTable doFlash allowUnknown contentEnd (memberFuel contentEnd)
            { file := stream.on file }).Executes trace ⟨visits, code⟩) ∧
        ∀ more,
          visitLoop host.lz4 usb pitTable doFlash allowUnknown contentEnd
              (memberFuel contentEnd + more) { file := stream } =
            visitLoop host.lz4 usb pitTable doFlash allowUnknown contentEnd (memberFuel contentEnd)
              { file := stream } := by
  obtain ⟨visits, hvisits⟩ := executes_visitTarFile usb pitTable doFlash allowUnknown hexec
  refine ⟨visits, hvisits, fun reason hopen => ?_, fun stream contentEnd hopen => ?_⟩
  · unfold visitTarFile at hvisits
    rw [hopen] at hvisits
    exact (Walk.mk.inj hvisits.2).1
  · obtain ⟨file, -, rfl, -, hend⟩ := openArchive_ok hopen
    have hcontent : contentEnd < 2 ^ 63 := Nat.lt_of_le_of_lt hend file.size_lt
    unfold visitTarFile at hvisits
    rw [hopen] at hvisits
    have hfrom := visitLoop_visitsFrom hbegun hcontent hvisits
    refine ⟨hend, hfrom.inBounds hcontent hbegun, fun file' hagree => ?_, fun more => ?_⟩
    · exact visitLoop_on host.lz4 usb pitTable doFlash allowUnknown hvisits hagree
    · apply visitLoop_fuel hbegun hcontent (Nat.succ_pos _)
      have hblocks := Nat.lt_div_mul_add (a := contentEnd) (show 0 < tarBlockSize by decide)
      simp only [FileStream.openFile, Nat.succ_mul]
      omega

/-- Three raw members on a device that accepts everything. -/
theorem processTarFile_inBounds_firmware : ∃ trace visits,
    (visitTarFile {} firmwarePit true false (archiveHost firmwareArchive)
      (ascii "firmware.tar")).Executes trace ⟨visits, .success⟩ ∧
    ∀ stream contentEnd,
      openArchive (archiveHost firmwareArchive) (ascii "firmware.tar") = .ok (stream, contentEnd) →
      InBounds {} contentEnd stream.file visits := by
  have hsurvey : surveyTarFile {} firmwarePit false (archiveHost firmwareArchive)
      (ascii "firmware.tar") false = some (.success, true) := by decide +kernel
  have hbegun : ({} : UsbDevice).Begun := by simp [UsbDevice.Begun, UsbDevice.isOdinLegacy]
  generalize archiveHost firmwareArchive = host at hsurvey ⊢
  obtain ⟨xs, code, hexec, rfl⟩ := (processTarFile_surveyed {} firmwarePit false hbegun host
    (ascii "firmware.tar")).attains false .success true hsurvey
  obtain ⟨visits, hvisits, -, hbounds⟩ := processTarFile_inBounds hbegun hexec
  exact ⟨_, visits, hvisits, fun stream contentEnd hopen => (hbounds stream contentEnd hopen).2.1⟩

end Odin4
