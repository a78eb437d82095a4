import Mathlib.Data.List.DropRight
import Odin4.Usb.Pit

/-!
# The layout of the partition information table

A table is laid out as a header of 28 bytes and one record of 132 bytes for
each entry. Parsing is exact: it accepts the layouts of valid tables, whatever
follows them, and nothing else, and it reads nothing behind the bytes it got.
-/

namespace Odin4

/-! ## Layout -/

def encodeU32 (value : UInt32) : Bytes := leBytes 4 value.toNat

def encodeU16 (value : UInt16) : Bytes := leBytes 2 value.toNat

/-- The record of an entry. -/
def PitEntry.encode (entry : PitEntry) : Bytes :=
  encodeU32 entry.binaryType ++ (encodeU32 entry.deviceType ++ (encodeU32 entry.identifier ++
    (encodeU32 entry.attributes ++ (encodeU32 entry.updateAttributes ++
      (encodeU32 entry.blockSizeOrOffset ++ (encodeU32 entry.blockCount ++
        (encodeU32 entry.fileOffset ++ (encodeU32 entry.fileSize ++
          (entry.partitionName.toList ++ (entry.fileName.toList ++ entry.fotaName.toList))))))))))

def PitTable.encodeHeader (table : PitTable) : Bytes :=
  leBytes 4 0x12349876 ++ (encodeU32 table.entryCount ++ (encodeU32 table.unknown1 ++
    (encodeU32 table.unknown2 ++ (encodeU16 table.unknown3 ++ (encodeU16 table.unknown4 ++
      (encodeU16 table.unknown5 ++ (encodeU16 table.unknown6 ++ (encodeU16 table.unknown7 ++
        encodeU16 table.unknown8))))))))

def PitTable.encode (table : PitTable) : Bytes :=
  table.encodeHeader ++ table.entries.flatMap PitEntry.encode

/-- Printable characters other than the path separators. -/
def PrintableName (text : Bytes) : Prop := ∀ c ∈ text, 0x20 ≤ c ∧ c ≤ 0x7E ∧ c ≠ 47 ∧ c ≠ 92

/-- The name in a fixed field: up to the first NUL, without trailing blanks. -/
def nameText (field : List.Vector UInt8 32) : Bytes :=
  (field.toList.takeWhile (· != 0)).rdropWhile isBlank

structure PitEntry.Valid (entry : PitEntry) : Prop where
  partition_nonempty : nameText entry.partitionName ≠ []
  partition_printable : PrintableName (nameText entry.partitionName)
  file_printable : PrintableName (nameText entry.fileName)
  identifier_ne : entry.identifier ≠ 0

structure PitTable.Valid (table : PitTable) : Prop where
  header_size : table.headerSize = 28
  count_eq : table.entryCount.toNat = table.entries.length
  count_pos : 1 ≤ table.entries.length
  count_le : table.entries.length ≤ 512
  entries_valid : ∀ entry ∈ table.entries, entry.Valid
  identifiers : (table.entries.map PitEntry.identifier).Nodup

instance (text : Bytes) : Decidable (PrintableName text) :=
  inferInstanceAs (Decidable (∀ c ∈ text, _))

instance (entry : PitEntry) : Decidable entry.Valid :=
  decidable_of_iff (nameText entry.partitionName ≠ [] ∧
      PrintableName (nameText entry.partitionName) ∧ PrintableName (nameText entry.fileName) ∧
      entry.identifier ≠ 0)
    ⟨fun ⟨hnonempty, hpartition, hfile, hne⟩ => ⟨hnonempty, hpartition, hfile, hne⟩,
      fun h => ⟨h.partition_nonempty, h.partition_printable, h.file_printable, h.identifier_ne⟩⟩

instance (table : PitTable) : Decidable table.Valid :=
  decidable_of_iff (table.headerSize = 28 ∧ table.entryCount.toNat = table.entries.length ∧
      1 ≤ table.entries.length ∧ table.entries.length ≤ 512 ∧
      (∀ entry ∈ table.entries, entry.Valid) ∧ (table.entries.map PitEntry.identifier).Nodup)
    ⟨fun ⟨hheader, hcount, hpos, hle, hentries, hidentifiers⟩ =>
        ⟨hheader, hcount, hpos, hle, hentries, hidentifiers⟩,
      fun h => ⟨h.header_size, h.count_eq, h.count_pos, h.count_le, h.entries_valid,
        h.identifiers⟩⟩

/-- The table whose header is read from `data`. -/
def pitTableAt (data : Bytes) (entries : List PitEntry) : PitTable where
  entryCount := readU32 data 4
  headerSize := 28
  unknown1 := readU32 data 8
  unknown2 := readU32 data 12
  unknown3 := readU16 data 16
  unknown4 := readU16 data 18
  unknown5 := readU16 data 20
  unknown6 := readU16 data 22
  unknown7 := readU16 data 24
  unknown8 := readU16 data 26
  entries

@[simp] theorem length_encodeU32 (value : UInt32) : (encodeU32 value).length = 4 := length_leBytes 4 _

@[simp] theorem length_encodeU16 (value : UInt16) : (encodeU16 value).length = 2 := length_leBytes 2 _

theorem leNat_encodeU32 (value : UInt32) : leNat (encodeU32 value) = value.toNat := by
  have hlt : value.toNat < 256 ^ 4 := value.toNat_lt
  rw [encodeU32, leNat_leBytes, Nat.mod_eq_of_lt hlt]

theorem leNat_encodeU16 (value : UInt16) : leNat (encodeU16 value) = value.toNat := by
  have hlt : value.toNat < 256 ^ 2 := value.toNat_lt
  rw [encodeU16, leNat_leBytes, Nat.mod_eq_of_lt hlt]

theorem encodeU32_injective {first second : UInt32} (h : encodeU32 first = encodeU32 second) :
    first = second := by
  apply UInt32.toNat_inj.mp
  rw [← leNat_encodeU32, h, leNat_encodeU32]

theorem encodeU16_injective {first second : UInt16} (h : encodeU16 first = encodeU16 second) :
    first = second := by
  apply UInt16.toNat_inj.mp
  rw [← leNat_encodeU16, h, leNat_encodeU16]

@[simp] theorem PitEntry.length_encode (entry : PitEntry) : entry.encode.length = pitEntrySize := by
  simp [encode, pitEntrySize]

@[simp] theorem PitTable.length_encodeHeader (table : PitTable) :
    table.encodeHeader.length = pitHeaderSize := by
  simp [encodeHeader, pitHeaderSize]

theorem length_flatMap_encode (entries : List PitEntry) :
    (entries.flatMap PitEntry.encode).length = entries.length * pitEntrySize := by
  simp [List.length_flatMap]

theorem PitEntry.encode_injective {first second : PitEntry} (h : first.encode = second.encode) :
    first = second := by
  unfold encode at h
  obtain ⟨hbinary, h⟩ := List.append_inj h (by simp)
  obtain ⟨hdevice, h⟩ := List.append_inj h (by simp)
  obtain ⟨hidentifier, h⟩ := List.append_inj h (by simp)
  obtain ⟨hattributes, h⟩ := List.append_inj h (by simp)
  obtain ⟨hupdate, h⟩ := List.append_inj h (by simp)
  obtain ⟨hsize, h⟩ := List.append_inj h (by simp)
  obtain ⟨hcount, h⟩ := List.append_inj h (by simp)
  obtain ⟨hoffset, h⟩ := List.append_inj h (by simp)
  obtain ⟨hfileSize, h⟩ := List.append_inj h (by simp)
  obtain ⟨hpartition, h⟩ := List.append_inj h (by simp)
  obtain ⟨hfile, hfota⟩ := List.append_inj h (by simp)
  cases first
  cases second
  rw [PitEntry.mk.injEq]
  exact ⟨encodeU32_injective hbinary, encodeU32_injective hdevice, encodeU32_injective hidentifier,
    encodeU32_injective hattributes, encodeU32_injective hupdate, encodeU32_injective hsize,
    encodeU32_injective hcount, encodeU32_injective hoffset, encodeU32_injective hfileSize,
    Subtype.ext hpartition, Subtype.ext hfile, Subtype.ext hfota⟩

/-! ## Reading back what was laid out -/

section Reading

variable {data : Bytes} {offset : Nat}

theorem encodeU32_readU32 (h : offset + 4 ≤ data.length) :
    encodeU32 (readU32 data offset) = fieldAt data offset 4 := by
  have hlt : leAt data offset 4 < 2 ^ 32 := leAt_lt data offset 4
  rw [encodeU32, readU32, UInt32.toNat_ofNat_of_lt' hlt, leBytes_leAt h]

theorem encodeU16_readU16 (h : offset + 2 ≤ data.length) :
    encodeU16 (readU16 data offset) = fieldAt data offset 2 := by
  have hlt : leAt data offset 2 < 2 ^ 16 := leAt_lt data offset 2
  rw [encodeU16, readU16, UInt16.toNat_ofNat_of_lt' hlt, leBytes_leAt h]

theorem toList_readName (h : offset + 32 ≤ data.length) :
    (readName data offset).toList = fieldAt data offset 32 := by
  apply List.ext_getElem
  · rw [List.Vector.toList_length, length_fieldAt h]
  · intro i hi hi'
    have hlt : offset + i < data.length := by
      rw [List.Vector.toList_length] at hi
      omega
    simp only [readName, List.Vector.toList_ofFn, List.getElem_ofFn, fieldAt, List.getElem_take,
      List.getElem_drop, List.getD_eq_getElem?_getD, List.getElem?_eq_getElem hlt, Option.getD_some]

/-- The record of an entry that was read is what was read. -/
theorem encode_pitEntryAt (h : offset + pitEntrySize ≤ data.length) :
    (pitEntryAt data offset).encode = fieldAt data offset pitEntrySize := by
  unfold pitEntrySize at h ⊢
  unfold PitEntry.encode pitEntryAt
  dsimp only
  rw [encodeU32_readU32 (by omega), encodeU32_readU32 (by omega), encodeU32_readU32 (by omega),
    encodeU32_readU32 (by omega), encodeU32_readU32 (by omega), encodeU32_readU32 (by omega),
    encodeU32_readU32 (by omega), encodeU32_readU32 (by omega), encodeU32_readU32 (by omega),
    toList_readName (by omega), toList_readName (by omega), toList_readName (by omega)]
  simp only [← fieldAt_add]

/-- A record that was laid out is read as its entry. -/
theorem pitEntryAt_encode (front : Bytes) (entry : PitEntry) (back : Bytes)
    (hoffset : front.length = offset) :
    pitEntryAt (front ++ (entry.encode ++ back)) offset = entry := by
  apply PitEntry.encode_injective
  rw [encode_pitEntryAt, ← List.append_assoc]
  · exact fieldAt_append hoffset entry.length_encode
  · rw [List.length_append, List.length_append, entry.length_encode]
    omega

/-- The header that was read is the header there is. -/
theorem encodeHeader_pitTableAt (entries : List PitEntry) (h : pitHeaderSize ≤ data.length)
    (hmagic : readU32 data 0 = 0x12349876) :
    (pitTableAt data entries).encodeHeader = fieldAt data 0 pitHeaderSize := by
  unfold pitHeaderSize at h ⊢
  have hfirst : leBytes 4 0x12349876 = fieldAt data 0 4 := by
    rw [← encodeU32_readU32 (by omega), hmagic]
    rfl
  unfold PitTable.encodeHeader pitTableAt
  dsimp only
  rw [hfirst, encodeU32_readU32 (by omega), encodeU32_readU32 (by omega),
    encodeU32_readU32 (by omega), encodeU16_readU16 (by omega), encodeU16_readU16 (by omega),
    encodeU16_readU16 (by omega), encodeU16_readU16 (by omega), encodeU16_readU16 (by omega),
    encodeU16_readU16 (by omega)]
  -- The ten fields are adjacent.
  change _ = fieldAt data 0 (4 + (4 + (4 + (4 + (2 + (2 + (2 + (2 + (2 + 2)))))))))
  rw [fieldAt_add, fieldAt_add, fieldAt_add, fieldAt_add, fieldAt_add, fieldAt_add, fieldAt_add,
    fieldAt_add, fieldAt_add]

/-- The records from number `i` on. -/
def pitEntriesAt (data : Bytes) (i count : Nat) : List PitEntry :=
  (List.range' i count).map fun j => pitEntryAt data (pitHeaderSize + j * pitEntrySize)

theorem pitEntriesAt_succ (data : Bytes) (i count : Nat) :
    pitEntriesAt data i (count + 1) =
      pitEntryAt data (pitHeaderSize + i * pitEntrySize) :: pitEntriesAt data (i + 1) count := by
  rw [pitEntriesAt, List.range'_succ, List.map_cons, pitEntriesAt]

@[simp] theorem length_pitEntriesAt (data : Bytes) (i count : Nat) :
    (pitEntriesAt data i count).length = count := by
  simp [pitEntriesAt]

theorem encode_pitEntriesAt {i count : Nat}
    (h : pitHeaderSize + (i + count) * pitEntrySize ≤ data.length) :
    (pitEntriesAt data i count).flatMap PitEntry.encode =
      fieldAt data (pitHeaderSize + i * pitEntrySize) (count * pitEntrySize) := by
  induction count generalizing i with
  | zero => simp [pitEntriesAt, fieldAt]
  | succ count ih =>
      have hrecord : pitHeaderSize + i * pitEntrySize + pitEntrySize ≤ data.length := by
        simp only [pitEntrySize] at h ⊢
        omega
      have hnext : pitHeaderSize + (i + 1) * pitEntrySize =
          pitHeaderSize + i * pitEntrySize + pitEntrySize := by
        rw [Nat.succ_mul, Nat.add_assoc]
      rw [pitEntriesAt_succ, List.flatMap_cons, encode_pitEntryAt hrecord, Nat.succ_mul,
        Nat.add_comm (count * pitEntrySize), fieldAt_add, ih, hnext]
      have hsum : i + 1 + count = i + (count + 1) := by omega
      rwa [hsum]

/-- Records that were laid out are read as their entries. -/
theorem pitEntriesAt_encode (entries : List PitEntry) (front back : Bytes) {i : Nat}
    (hfront : front.length = pitHeaderSize + i * pitEntrySize) :
    pitEntriesAt (front ++ (entries.flatMap PitEntry.encode ++ back)) i entries.length = entries := by
  induction entries generalizing front i with
  | nil => rfl
  | cons entry rest ih =>
      have hnext : (front ++ entry.encode).length = pitHeaderSize + (i + 1) * pitEntrySize := by
        rw [List.length_append, hfront, entry.length_encode, Nat.succ_mul, Nat.add_assoc]
      rw [List.length_cons, pitEntriesAt_succ, List.flatMap_cons, List.append_assoc entry.encode,
        pitEntryAt_encode front entry _ hfront, ← List.append_assoc front, ih _ hnext]

end Reading

/-! ## Acceptance -/

theorem extractField_eq (field : List.Vector UInt8 32) : extractField field = nameText field := by
  have hall : field.toList.take 32 = field.toList :=
    List.take_of_length_le (Nat.le_of_eq field.toList_length)
  rw [extractField, fieldText, hall, nameText, trimRight, List.rdropWhile]

theorem isValidPitString_iff {text : Bytes} : isValidPitString text = true ↔ PrintableName text := by
  simp only [isValidPitString, PrintableName, List.all_eq_true, Bool.and_eq_true, decide_eq_true_eq,
    bne_iff_ne, and_assoc]

/-- The product of two 32-bit numbers does not overflow. -/
theorem blockProductOverflows_eq_false (entry : PitEntry) : blockProductOverflows entry = false := by
  have hsize := entry.blockSizeOrOffset.toNat_lt
  have hcount := entry.blockCount.toNat_lt
  have hproduct : entry.blockSizeOrOffset.toNat * entry.blockCount.toNat < 2 ^ 64 :=
    calc
      _ < 2 ^ 32 * 2 ^ 32 := Nat.mul_lt_mul'' hsize hcount
      _ = 2 ^ 64 := by decide
  unfold blockProductOverflows
  dsimp only
  rw [Nat.mod_eq_of_lt hproduct]
  by_cases hzero : entry.blockSizeOrOffset.toNat = 0
  · simp [hzero]
  · rw [Nat.mul_div_cancel_left _ (Nat.pos_of_ne_zero hzero)]
    simp

theorem pitEntryValid_iff {seen : List UInt32} {entry : PitEntry} :
    pitEntryValid seen entry = true ↔ entry.Valid ∧ entry.identifier ∉ seen := by
  simp only [pitEntryValid, extractField_eq, blockProductOverflows_eq_false, Bool.and_eq_true,
    Bool.or_eq_true, Bool.not_eq_true', List.isEmpty_iff, List.isEmpty_eq_false_iff,
    isValidPitString_iff, bne_iff_ne, List.contains_eq_mem, decide_eq_false_iff_not, and_true]
  constructor
  · rintro ⟨⟨⟨⟨hnonempty, hpartition⟩, hfile⟩, hne⟩, hseen⟩
    refine ⟨⟨hnonempty, hpartition, ?_, hne⟩, hseen⟩
    rcases hfile with hempty | hfile
    · rw [hempty]
      intro c hc
      simp at hc
    · exact hfile
  · rintro ⟨⟨hnonempty, hpartition, hfile, hne⟩, hseen⟩
    exact ⟨⟨⟨⟨hnonempty, hpartition⟩, .inr hfile⟩, hne⟩, hseen⟩

/-- The entries are accepted if they are valid and their identifiers are new. -/
theorem parsePitEntries_eq_some {data : Bytes} {count i : Nat} {seen : List UInt32}
    {entries : List PitEntry} :
    parsePitEntries data count i seen = some entries ↔
      entries = pitEntriesAt data i count ∧ (∀ entry ∈ entries, entry.Valid) ∧
        (entries.map PitEntry.identifier).Nodup ∧ ∀ entry ∈ entries, entry.identifier ∉ seen := by
  induction count generalizing i seen entries with
  | zero =>
      simp only [parsePitEntries, pitEntriesAt, List.range'_zero, List.map_nil]
      constructor
      · intro h
        obtain rfl := Option.some.inj h
        simp
      · rintro ⟨rfl, -⟩
        rfl
  | succ count ih =>
      rw [parsePitEntries, pitEntriesAt_succ]
      generalize pitEntryAt data (pitHeaderSize + i * pitEntrySize) = entry
      constructor
      · intro h
        split at h
        next hvalid =>
          obtain ⟨hentry, hnew⟩ := pitEntryValid_iff.mp hvalid
          obtain ⟨rest, hrest, rfl⟩ := Option.map_eq_some_iff.mp h
          obtain ⟨rfl, hall, hdistinct, hunseen⟩ := ih.mp hrest
          refine ⟨rfl, List.forall_mem_cons.mpr ⟨hentry, hall⟩, ?_, ?_⟩
          · rw [List.map_cons, List.nodup_cons]
            refine ⟨fun hmem => ?_, hdistinct⟩
            obtain ⟨other, hother, heq⟩ := List.mem_map.mp hmem
            exact hunseen other hother (heq ▸ List.mem_cons_self)
          · intro other hother hmem
            rcases List.mem_cons.mp hother with rfl | hother
            · exact hnew hmem
            · exact hunseen other hother (List.mem_cons_of_mem _ hmem)
        next => simp at h
      · rintro ⟨rfl, hall, hdistinct, hunseen⟩
        obtain ⟨hentry, hall⟩ := List.forall_mem_cons.mp hall
        obtain ⟨hnew, hunseen⟩ := List.forall_mem_cons.mp hunseen
        rw [List.map_cons, List.nodup_cons] at hdistinct
        rw [if_pos (pitEntryValid_iff.mpr ⟨hentry, hnew⟩)]
        refine congrArg (Option.map _) (ih.mpr ⟨rfl, hall, hdistinct.2, fun other hother hmem => ?_⟩)
        rcases List.mem_cons.mp hmem with heq | hmem
        · exact hdistinct.1 (List.mem_map.mpr ⟨other, hother, heq⟩)
        · exact hunseen other hother hmem

/-- The number of records that a header announces. -/
def announcedEntries (data : Bytes) : Nat := leAt data 4 4

/-- What makes parsing succeed. -/
structure AcceptablePit (data : Bytes) : Prop where
  header : pitHeaderSize ≤ data.length
  magic : leAt data 0 4 = 0x12349876
  count_pos : 1 ≤ announcedEntries data
  count_le : announcedEntries data ≤ 512
  records : pitHeaderSize + pitEntrySize * announcedEntries data ≤ data.length
  valid : ∀ i < announcedEntries data,
    (pitEntryAt data (pitHeaderSize + i * pitEntrySize)).Valid
  distinct : ∀ i < announcedEntries data, ∀ j < i,
    (pitEntryAt data (pitHeaderSize + i * pitEntrySize)).identifier ≠
      (pitEntryAt data (pitHeaderSize + j * pitEntrySize)).identifier

theorem toNat_readU32 (data : Bytes) (offset : Nat) : (readU32 data offset).toNat = leAt data offset 4 :=
  UInt32.toNat_ofNat_of_lt' (leAt_lt data offset 4)

theorem nodup_map_range_iff {α : Type} (f : Nat → α) (count : Nat) :
    ((List.range count).map f).Nodup ↔ ∀ i < count, ∀ j < i, f i ≠ f j := by
  rw [List.nodup_map_iff_inj_on List.nodup_range]
  constructor
  · intro h i hi j hj heq
    have hij := h i (List.mem_range.mpr hi) j (List.mem_range.mpr (hj.trans hi)) heq
    omega
  · intro h i hi j hj heq
    rcases Nat.lt_trichotomy i j with hlt | rfl | hlt
    · exact absurd heq.symm (h j (List.mem_range.mp hj) i hlt)
    · rfl
    · exact absurd heq (h i (List.mem_range.mp hi) j hlt)

/-- Distinct records, by their numbers. -/
theorem nodup_identifiers_iff {data : Bytes} {count : Nat} :
    ((pitEntriesAt data 0 count).map PitEntry.identifier).Nodup ↔
      ∀ i < count, ∀ j < i, (pitEntryAt data (pitHeaderSize + i * pitEntrySize)).identifier ≠
        (pitEntryAt data (pitHeaderSize + j * pitEntrySize)).identifier := by
  rw [pitEntriesAt, List.map_map, ← List.range_eq_range', nodup_map_range_iff]
  rfl

/-- Parsing gives the records that are announced, if they are acceptable. -/
theorem parsePitBytes_eq_some {data : Bytes} {table : PitTable} :
    parsePitBytes data = some table ↔
      AcceptablePit data ∧ table = pitTableAt data (pitEntriesAt data 0 (announcedEntries data)) := by
  have hmagic : readU32 data 0 = 0x12349876 ↔ leAt data 0 4 = 0x12349876 := by
    rw [← UInt32.toNat_inj, toNat_readU32]
    rfl
  have hcount : readU32 data 4 = 0 ∨ 512 < readU32 data 4 ↔
      ¬ (1 ≤ announcedEntries data ∧ announcedEntries data ≤ 512) := by
    rw [← UInt32.toNat_inj, UInt32.lt_iff_toNat_lt, toNat_readU32, announcedEntries]
    change leAt data 4 4 = 0 ∨ 512 < leAt data 4 4 ↔ _
    omega
  have hall : (∀ entry ∈ pitEntriesAt data 0 (announcedEntries data), entry.Valid) ↔
      ∀ i < announcedEntries data,
        (pitEntryAt data (pitHeaderSize + i * pitEntrySize)).Valid := by
    simp [pitEntriesAt]
  have hannounced : leAt data 4 4 = announcedEntries data := rfl
  unfold parsePitBytes
  simp only [hmagic, ne_eq, hcount, toNat_readU32, hannounced]
  constructor
  · intro h
    split at h
    next => simp at h
    next hheader =>
      split at h
      next => simp at h
      next hid =>
        split at h
        next => simp at h
        next hrange =>
          split at h
          next => simp at h
          next hrecords =>
            obtain ⟨hpos, hle⟩ := not_not.mp hrange
            obtain ⟨entries, hparse, rfl⟩ := Option.map_eq_some_iff.mp h
            obtain ⟨rfl, hvalid, hdistinct, -⟩ := parsePitEntries_eq_some.mp hparse
            refine ⟨⟨Nat.not_lt.mp hheader, not_not.mp hid, hpos, hle, ?_, hall.mp hvalid,
              nodup_identifiers_iff.mp hdistinct⟩, rfl⟩
            rw [Nat.mul_comm]
            exact Nat.not_lt.mp hrecords
  · rintro ⟨hpit, rfl⟩
    have hrecords := hpit.records
    rw [Nat.mul_comm] at hrecords
    have hparse : parsePitEntries data (announcedEntries data) 0 [] =
        some (pitEntriesAt data 0 (announcedEntries data)) :=
      parsePitEntries_eq_some.mpr ⟨rfl, hall.mpr hpit.valid,
        nodup_identifiers_iff.mpr hpit.distinct, by simp⟩
    rw [if_neg (Nat.not_lt.mpr hpit.header), if_neg (not_not.mpr hpit.magic),
      if_neg (not_not.mpr ⟨hpit.count_pos, hpit.count_le⟩), if_neg (Nat.not_lt.mpr hrecords)]
    exact congrArg (Option.map _) hparse

/-! ## Reading what was written -/

/-- What is read of a table is laid out as the bytes that were accepted. -/
theorem encode_of_parsePitBytes {data : Bytes} {table : PitTable}
    (h : parsePitBytes data = some table) :
    table.encode = data.take (pitHeaderSize + pitEntrySize * announcedEntries data) := by
  obtain ⟨hpit, rfl⟩ := parsePitBytes_eq_some.mp h
  have hmagic : readU32 data 0 = 0x12349876 := by
    rw [← UInt32.toNat_inj, toNat_readU32, hpit.magic]
    rfl
  have hrecords : pitHeaderSize + (0 + announcedEntries data) * pitEntrySize ≤ data.length := by
    rw [Nat.zero_add, Nat.mul_comm]
    exact hpit.records
  rw [PitTable.encode, encodeHeader_pitTableAt _ hpit.header hmagic]
  change _ ++ (pitEntriesAt data 0 (announcedEntries data)).flatMap PitEntry.encode = _
  rw [encode_pitEntriesAt hrecords, Nat.zero_mul, Nat.mul_comm pitEntrySize]
  have hjoin := fieldAt_add data 0 pitHeaderSize (announcedEntries data * pitEntrySize)
  rw [Nat.zero_add] at hjoin
  rw [Nat.add_zero, ← hjoin, fieldAt, List.drop_zero]

section Encoded

variable (table : PitTable) (suffix : Bytes)

theorem length_encode : table.encode.length = pitHeaderSize + table.entries.length * pitEntrySize := by
  rw [PitTable.encode, List.length_append, table.length_encodeHeader, length_flatMap_encode]

theorem pitEntriesAt_tableEncode :
    pitEntriesAt (table.encode ++ suffix) 0 table.entries.length = table.entries := by
  rw [PitTable.encode, List.append_assoc]
  apply pitEntriesAt_encode
  rw [table.length_encodeHeader, Nat.zero_mul, Nat.add_zero]

variable {table}

theorem announcedEntries_encode (hcount : table.entryCount.toNat = table.entries.length) :
    announcedEntries (table.encode ++ suffix) = table.entries.length := by
  have hfield : fieldAt (table.encode ++ suffix) 4 4 = encodeU32 table.entryCount := by
    rw [PitTable.encode, PitTable.encodeHeader, List.append_assoc, List.append_assoc,
      List.append_assoc, ← List.append_assoc]
    exact fieldAt_append (length_leBytes 4 _) (length_encodeU32 _)
  have hvalue : leNat (fieldAt (table.encode ++ suffix) 4 4) = table.entryCount.toNat := by
    rw [hfield, leNat_encodeU32]
  rw [← hcount, ← hvalue]
  rfl

/-- The layout of a valid table is acceptable, whatever follows it. -/
theorem acceptablePit_encode (htable : table.Valid) : AcceptablePit (table.encode ++ suffix) := by
  have hlength := length_encode table
  have hentries := pitEntriesAt_tableEncode table suffix
  have hcount := announcedEntries_encode suffix htable.count_eq
  constructor
  · rw [List.length_append, hlength]
    omega
  · have hfield : fieldAt (table.encode ++ suffix) 0 4 = leBytes 4 0x12349876 := by
      rw [PitTable.encode, PitTable.encodeHeader, List.append_assoc, List.append_assoc,
        ← List.nil_append (leBytes 4 0x12349876 ++ _), ← List.append_assoc]
      exact fieldAt_append rfl (length_leBytes 4 _)
    change leNat (fieldAt (table.encode ++ suffix) 0 4) = _
    rw [hfield]
    decide
  · rw [hcount]
    exact htable.count_pos
  · rw [hcount]
    exact htable.count_le
  · rw [hcount, List.length_append, hlength, Nat.mul_comm]
    omega
  · intro i hi
    rw [hcount] at hi
    apply htable.entries_valid
    rw [← hentries]
    exact List.mem_map.mpr ⟨i, List.mem_range'_1.mpr (by omega), rfl⟩
  · apply nodup_identifiers_iff.mp
    rw [hcount, hentries]
    exact htable.identifiers

/-- A table is determined by its layout, up to what the layout leaves out. -/
theorem encodeHeader_injective {first second : PitTable}
    (h : first.encodeHeader = second.encodeHeader) (hsize : first.headerSize = second.headerSize)
    (hentries : first.entries = second.entries) : first = second := by
  unfold PitTable.encodeHeader at h
  obtain ⟨-, h⟩ := List.append_inj h (by simp)
  obtain ⟨hcount, h⟩ := List.append_inj h (by simp)
  obtain ⟨h1, h⟩ := List.append_inj h (by simp)
  obtain ⟨h2, h⟩ := List.append_inj h (by simp)
  obtain ⟨h3, h⟩ := List.append_inj h (by simp)
  obtain ⟨h4, h⟩ := List.append_inj h (by simp)
  obtain ⟨h5, h⟩ := List.append_inj h (by simp)
  obtain ⟨h6, h⟩ := List.append_inj h (by simp)
  obtain ⟨h7, h8⟩ := List.append_inj h (by simp)
  cases first
  cases second
  rw [PitTable.mk.injEq]
  exact ⟨encodeU32_injective hcount, hsize, encodeU32_injective h1, encodeU32_injective h2,
    encodeU16_injective h3, encodeU16_injective h4, encodeU16_injective h5, encodeU16_injective h6,
    encodeU16_injective h7, encodeU16_injective h8, hentries⟩

theorem parsePitBytes_encode (htable : table.Valid) :
    parsePitBytes (table.encode ++ suffix) = some table := by
  have hpit := acceptablePit_encode suffix htable
  have hcount := announcedEntries_encode suffix htable.count_eq
  have hmagic : readU32 (table.encode ++ suffix) 0 = 0x12349876 := by
    rw [← UInt32.toNat_inj, toNat_readU32, hpit.magic]
    rfl
  rw [parsePitBytes_eq_some]
  refine ⟨hpit, encodeHeader_injective ?_ htable.header_size ?_⟩
  · rw [encodeHeader_pitTableAt _ hpit.header hmagic, PitTable.encode, List.append_assoc, fieldAt,
      List.drop_zero, ← table.length_encodeHeader, List.take_left]
  · rw [hcount]
    exact (pitEntriesAt_tableEncode table suffix).symm

end Encoded

/-! ## Reading with bounds -/

section Checked

variable (data : Bytes)

/-- A value read from `width` bytes, unless one of them is behind the buffer. -/
def readChecked {α : Type} (value : α) (offset width : Nat) : Option α :=
  if offset + width ≤ data.length then some value else none

def pitEntryChecked (offset : Nat) : Option PitEntry := do
  let binaryType ← readChecked data (readU32 data offset) offset 4
  let deviceType ← readChecked data (readU32 data (offset + 4)) (offset + 4) 4
  let identifier ← readChecked data (readU32 data (offset + 8)) (offset + 8) 4
  let attributes ← readChecked data (readU32 data (offset + 12)) (offset + 12) 4
  let updateAttributes ← readChecked data (readU32 data (offset + 16)) (offset + 16) 4
  let blockSizeOrOffset ← readChecked data (readU32 data (offset + 20)) (offset + 20) 4
  let blockCount ← readChecked data (readU32 data (offset + 24)) (offset + 24) 4
  let fileOffset ← readChecked data (readU32 data (offset + 28)) (offset + 28) 4
  let fileSize ← readChecked data (readU32 data (offset + 32)) (offset + 32) 4
  let partitionName ← readChecked data (readName data (offset + 36)) (offset + 36) 32
  let fileName ← readChecked data (readName data (offset + 68)) (offset + 68) 32
  let fotaName ← readChecked data (readName data (offset + 100)) (offset + 100) 32
  some { binaryType, deviceType, identifier, attributes, updateAttributes, blockSizeOrOffset,
         blockCount, fileOffset, fileSize, partitionName, fileName, fotaName }

def parsePitEntriesChecked : (count i : Nat) → (seenIdentifiers : List UInt32) →
    Option (Option (List PitEntry))
  | 0, _, _ => some (some [])
  | count + 1, i, seen => do
      let entry ← pitEntryChecked data (pitHeaderSize + i * pitEntrySize)
      if pitEntryValid seen entry then
        let rest ← parsePitEntriesChecked count (i + 1) (entry.identifier :: seen)
        some (rest.map (entry :: ·))
      else some none

/-- `parsePitBytes`, stopping without a result at a read behind the buffer. -/
def parsePitChecked : Option (Option PitTable) :=
  if data.length < pitHeaderSize then some none
  else do
    let fileId ← readChecked data (readU32 data 0) 0 4
    if fileId ≠ 0x12349876 then some none
    else do
      let entryCount ← readChecked data (readU32 data 4) 4 4
      if entryCount = 0 ∨ 512 < entryCount then some none
      else do
        let unknown1 ← readChecked data (readU32 data 8) 8 4
        let unknown2 ← readChecked data (readU32 data 12) 12 4
        let unknown3 ← readChecked data (readU16 data 16) 16 2
        let unknown4 ← readChecked data (readU16 data 18) 18 2
        let unknown5 ← readChecked data (readU16 data 20) 20 2
        let unknown6 ← readChecked data (readU16 data 22) 22 2
        let unknown7 ← readChecked data (readU16 data 24) 24 2
        let unknown8 ← readChecked data (readU16 data 26) 26 2
        if data.length < pitHeaderSize + entryCount.toNat * pitEntrySize then some none
        else do
          let entries ← parsePitEntriesChecked data entryCount.toNat 0 []
          some (entries.map fun entries =>
            { entryCount, headerSize := 28, unknown1, unknown2, unknown3, unknown4, unknown5,
              unknown6, unknown7, unknown8, entries })

variable {data}

theorem readChecked_eq {α : Type} {value : α} {offset width : Nat}
    (h : offset + width ≤ data.length) : readChecked data value offset width = some value :=
  if_pos h

theorem pitEntryChecked_eq {offset : Nat} (h : offset + pitEntrySize ≤ data.length) :
    pitEntryChecked data offset = some (pitEntryAt data offset) := by
  unfold pitEntrySize at h
  unfold pitEntryChecked
  rw [readChecked_eq (by omega), readChecked_eq (by omega), readChecked_eq (by omega),
    readChecked_eq (by omega), readChecked_eq (by omega), readChecked_eq (by omega),
    readChecked_eq (by omega), readChecked_eq (by omega), readChecked_eq (by omega),
    readChecked_eq (by omega), readChecked_eq (by omega), readChecked_eq (by omega)]
  rfl

theorem parsePitEntriesChecked_eq {count i : Nat} {seen : List UInt32}
    (h : pitHeaderSize + (i + count) * pitEntrySize ≤ data.length) :
    parsePitEntriesChecked data count i seen = some (parsePitEntries data count i seen) := by
  induction count generalizing i seen with
  | zero => rfl
  | succ count ih =>
      have hrecord : pitHeaderSize + i * pitEntrySize + pitEntrySize ≤ data.length := by
        simp only [pitEntrySize] at h ⊢
        omega
      have hrest : pitHeaderSize + (i + 1 + count) * pitEntrySize ≤ data.length := by
        simp only [pitEntrySize] at h ⊢
        omega
      rw [parsePitEntriesChecked, parsePitEntries, pitEntryChecked_eq hrecord, Option.bind_eq_bind,
        Option.bind_some]
      split
      · rw [ih hrest]
        rfl
      · rfl

/-- No read is behind the buffer. -/
theorem parsePitChecked_eq (data : Bytes) : parsePitChecked data = some (parsePitBytes data) := by
  unfold parsePitChecked parsePitBytes
  by_cases hheader : data.length < pitHeaderSize
  · rw [if_pos hheader, if_pos hheader]
  rw [if_neg hheader, if_neg hheader, readChecked_eq (by unfold pitHeaderSize at hheader; omega),
    Option.bind_eq_bind, Option.bind_some]
  by_cases hmagic : readU32 data 0 ≠ 0x12349876
  · rw [if_pos hmagic, if_pos hmagic]
  rw [if_neg hmagic, if_neg hmagic, readChecked_eq (by unfold pitHeaderSize at hheader; omega),
    Option.bind_eq_bind, Option.bind_some]
  dsimp only
  by_cases hrange : readU32 data 4 = 0 ∨ 512 < readU32 data 4
  · rw [if_pos hrange, if_pos hrange]
  rw [if_neg hrange, if_neg hrange]
  unfold pitHeaderSize at hheader
  rw [readChecked_eq (by omega), readChecked_eq (by omega), readChecked_eq (by omega),
    readChecked_eq (by omega), readChecked_eq (by omega), readChecked_eq (by omega),
    readChecked_eq (by omega), readChecked_eq (by omega)]
  by_cases hrecords : data.length < 28 + (readU32 data 4).toNat * pitEntrySize
  · simp only [pitHeaderSize, hrecords, if_true, Option.bind_eq_bind, Option.bind_some]
  · have hentries : pitHeaderSize + (0 + (readU32 data 4).toNat) * pitEntrySize ≤ data.length := by
      rw [Nat.zero_add]
      exact Nat.not_lt.mp hrecords
    simp only [pitHeaderSize, hrecords, if_false, Option.bind_eq_bind, Option.bind_some,
      parsePitEntriesChecked_eq hentries]

end Checked

/-- Parsing is exact: it accepts the acceptable byte strings, gives the table
whose layout they begin with, reads back every valid table, and stays inside
what it was given. -/
theorem parsePitBytes_exact :
    (∀ data : Bytes, ((parsePitBytes data).isSome ↔ AcceptablePit data) ∧
      (∀ table, parsePitBytes data = some table →
        table.entries = pitEntriesAt data 0 (announcedEntries data) ∧
        table.entries.length = announcedEntries data ∧
        table.encode = data.take (pitHeaderSize + pitEntrySize * announcedEntries data)) ∧
      parsePitChecked data = some (parsePitBytes data)) ∧
    ∀ table : PitTable, table.Valid →
      ∀ suffix : Bytes, parsePitBytes (table.encode ++ suffix) = some table := by
  constructor
  · intro data
    refine ⟨?_, ?_, parsePitChecked_eq data⟩
    · constructor
      · intro h
        obtain ⟨table, htable⟩ := Option.isSome_iff_exists.mp h
        exact (parsePitBytes_eq_some.mp htable).1
      · intro hpit
        exact Option.isSome_iff_exists.mpr ⟨_, parsePitBytes_eq_some.mpr ⟨hpit, rfl⟩⟩
    · intro table htable
      obtain ⟨-, heq⟩ := parsePitBytes_eq_some.mp htable
      have hentries : table.entries = pitEntriesAt data 0 (announcedEntries data) := by
        rw [heq]
        rfl
      refine ⟨hentries, ?_, encode_of_parsePitBytes htable⟩
      rw [hentries, length_pitEntriesAt]
  · intro table htable suffix
    exact parsePitBytes_encode suffix htable

/-! ## Tables of names -/

/-- A table entry with a partition and its image. -/
def namedEntry (identifier : UInt32) (partitionName fileName : Bytes) : PitEntry :=
  { pitEntryAt [] 0 with
    identifier, partitionName := readName partitionName 0, fileName := readName fileName 0 }

def pitOf (entries : List PitEntry) : PitTable where
  entryCount := UInt32.ofNat entries.length
  headerSize := 28
  unknown1 := 0
  unknown2 := 0
  unknown3 := 0
  unknown4 := 0
  unknown5 := 0
  unknown6 := 0
  unknown7 := 0
  unknown8 := 0
  entries

/-- Two partitions with their images. -/
def systemTable : PitTable :=
  pitOf [namedEntry 1 (ascii "SYSTEM") (ascii "system.img"),
    namedEntry 2 (ascii "BOOT") (ascii "boot.img")]

theorem parsePitBytes_exact_systemTable :
    parsePitBytes (systemTable.encode ++ [0]) = some systemTable :=
  parsePitBytes_exact.2 systemTable (by decide +kernel) [0]

end Odin4
