import Odin4.Archive.Tar
import Odin4.Foundation.Octal
import Odin4.Foundation.Padding

/-!
# The TAR format

What an archive of regular files is, independently of how it is read: header
blocks with octal numbers and a checksum, data filled up to whole blocks, and
names that are kept in the header or in an entry of their own.
-/

namespace Odin4

/-! ## Fields and blocks -/

/-- Text in a field of the given width, filled up with NUL. -/
def padTo (width : Nat) (text : Bytes) : Bytes := text ++ List.replicate (width - text.length) 0

/-- Data filled up to the next block boundary. -/
def blocks (data : Bytes) : Bytes := data ++ List.replicate (padding tarBlockSize data.length) 0

/-- The sum of the bytes of a header, whose checksum field counts as blanks. -/
def blankedSum (header : Bytes) : Nat :=
  ((header.take 148).map UInt8.toNat).sum + 8 * 32 + ((header.drop 156).map UInt8.toNat).sum

theorem length_padTo {width : Nat} {text : Bytes} (h : text.length ≤ width) :
    (padTo width text).length = width := by
  rw [padTo, List.length_append, List.length_replicate]
  omega

theorem length_blocks (data : Bytes) :
    (blocks data).length = data.length + padding tarBlockSize data.length := by
  rw [blocks, List.length_append, List.length_replicate]

theorem sum_toNat_le (text : Bytes) : (text.map UInt8.toNat).sum ≤ 255 * text.length := by
  induction text with
  | nil => exact Nat.le_refl 0
  | cons c rest ih =>
      have hc := c.toNat_lt
      simp only [List.map_cons, List.sum_cons, List.length_cons]
      omega

/-! ## Headers and entries -/

/-- A header block. Its size and its checksum are octal, and the checksum is right. -/
structure TarHeader where
  bytes : Bytes
  size : Nat
  length_eq : bytes.length = tarBlockSize
  size_field : OctalField (fieldAt bytes 124 12) size
  checksum_field : OctalField (fieldAt bytes 148 8) (blankedSum bytes)

/-- The size field has twelve bytes. -/
theorem TarHeader.size_lt (header : TarHeader) : header.size < 8 ^ 12 :=
  octalField_lt header.size_field (length_fieldAt_le _ _ _)

def TarHeader.typeflag (header : TarHeader) : UInt8 := header.bytes.getD 156 0

/-- A header followed by the data it announces. -/
structure TarEntry where
  header : TarHeader
  data : Bytes
  size_eq : header.size = data.length

def TarEntry.bytes (entry : TarEntry) : Bytes := entry.header.bytes ++ blocks entry.data

theorem TarEntry.length_bytes (entry : TarEntry) :
    entry.bytes.length =
      tarBlockSize + (entry.data.length + padding tarBlockSize entry.data.length) := by
  rw [bytes, List.length_append, entry.header.length_eq, length_blocks]

theorem TarEntry.block_le (entry : TarEntry) : tarBlockSize ≤ entry.bytes.length := by
  rw [entry.length_bytes]
  exact Nat.le_add_right _ _

/-! ## Names -/

/-- The header gives the name by itself: in the name field, or split at a slash
between the prefix and the name field of the ustar format. -/
inductive TarHeader.Names (header : TarHeader) : (name : Bytes) → Prop where
  | whole {name : Bytes} (hname : fieldAt header.bytes 0 100 = padTo 100 name)
      (hinit : fieldAt header.bytes 345 155 = List.replicate 155 0) : header.Names name
  | split {namePrefix rest : Bytes} (hmagic : fieldAt header.bytes 257 5 = ascii "ustar")
      (hinit : fieldAt header.bytes 345 155 = padTo 155 namePrefix)
      (hname : fieldAt header.bytes 0 100 = padTo 100 rest)
      (hdirNonempty : namePrefix ≠ []) (hrest : rest ≠ [])
      (hlast : ∀ c ∈ namePrefix.getLast?, c ≠ 32 ∧ c ≠ 9) :
      header.Names (namePrefix ++ [47] ++ rest)

/-- An entry whose data are the name of the entry behind it. -/
structure TarEntry.LongName (entry : TarEntry) (name : Bytes) : Prop where
  typeflag_eq : entry.header.typeflag = 76
  body_eq : ∃ nuls, entry.data = name ++ List.replicate nuls 0
  body_le : entry.data.length ≤ 2 ^ 20

/-- Names that survive the conventions of character fields. -/
structure UsableName (name : Bytes) : Prop where
  nonempty : name ≠ []
  no_nul : 0 ∉ name
  last : ∀ c ∈ name.getLast?, c ≠ 32 ∧ c ≠ 9 ∧ c ≠ 13 ∧ c ≠ 10

/-- A regular file, named by its own header or by a long-name entry in front of it. -/
structure TarMember where
  name : Bytes
  longName : Option TarEntry
  entry : TarEntry
  usable : UsableName name
  regular : entry.header.typeflag = 0 ∨ entry.header.typeflag = 48
  size_lt : entry.data.length < 8 ^ 11
  named : match longName with
    | none => entry.header.Names name
    | some long => long.LongName name

def TarMember.bytes (member : TarMember) : Bytes :=
  match member.longName with
  | none => member.entry.bytes
  | some long => long.bytes ++ member.entry.bytes

/-- The members one after the other, and two blocks of zeros. -/
def tarArchive (members : List TarMember) : Bytes :=
  members.flatMap TarMember.bytes ++ List.replicate (2 * tarBlockSize) 0

theorem tarArchive_cons (member : TarMember) (members : List TarMember) :
    tarArchive (member :: members) = member.bytes ++ tarArchive members := by
  rw [tarArchive, tarArchive, List.flatMap_cons, List.append_assoc]

/-! ## Writing headers -/

section Encode

variable (name namePrefix : Bytes) (typeflag : UInt8) (size : Nat)

def headerFront : Bytes :=
  padTo 100 name ++ List.replicate 24 0 ++ (octalDigits 11 size ++ [0]) ++ List.replicate 12 0

def headerBack : Bytes :=
  [typeflag] ++ List.replicate 100 0 ++ ascii "ustar" ++ List.replicate 83 0 ++
    padTo 155 namePrefix ++ List.replicate 12 0

def headerSum : Nat :=
  ((headerFront name size).map UInt8.toNat).sum + 8 * 32 +
    ((headerBack namePrefix typeflag).map UInt8.toNat).sum

def headerBytes : Bytes :=
  headerFront name size ++ (octalDigits 6 (headerSum name namePrefix typeflag size) ++ [0, 32]) ++
    headerBack namePrefix typeflag

variable {name namePrefix size}

theorem length_headerFront (hname : name.length ≤ 100) : (headerFront name size).length = 148 := by
  simp only [headerFront, List.length_append, length_padTo hname, List.length_replicate,
    length_octalDigits, List.length_singleton]

theorem length_headerBack (hinit : namePrefix.length ≤ 155) :
    (headerBack namePrefix typeflag).length = 356 := by
  simp only [headerBack, List.length_append, length_padTo hinit, List.length_replicate,
    List.length_singleton]
  rfl

theorem headerSum_lt (hname : name.length ≤ 100) (hinit : namePrefix.length ≤ 155) :
    headerSum name namePrefix typeflag size < 8 ^ 6 := by
  have hfront := sum_toNat_le (headerFront name size)
  have hback := sum_toNat_le (headerBack namePrefix typeflag)
  rw [length_headerFront hname] at hfront
  rw [length_headerBack typeflag hinit] at hback
  unfold headerSum
  omega

theorem blankedSum_headerBytes (hname : name.length ≤ 100) :
    blankedSum (headerBytes name namePrefix typeflag size) =
      headerSum name namePrefix typeflag size := by
  have hfront : (headerFront name size).length = 148 := length_headerFront hname
  rw [blankedSum, headerBytes, List.drop_left' (by simp [hfront]), List.append_assoc,
    List.take_left' hfront]
  rfl

theorem length_headerBytes (hname : name.length ≤ 100) (hinit : namePrefix.length ≤ 155) :
    (headerBytes name namePrefix typeflag size).length = tarBlockSize := by
  simp [headerBytes, length_headerFront hname, length_headerBack typeflag hinit, tarBlockSize]

theorem fieldAt_headerBytes_front {offset width : Nat} (hname : name.length ≤ 100)
    (h : offset + width ≤ 148) :
    fieldAt (headerBytes name namePrefix typeflag size) offset width =
      fieldAt (headerFront name size) offset width := by
  have hfront : (headerFront name size).length = 148 := length_headerFront hname
  rw [headerBytes, fieldAt_left (by rw [List.length_append]; omega), fieldAt_left (by omega)]

theorem fieldAt_headerBytes_back {offset width : Nat} (hname : name.length ≤ 100) :
    fieldAt (headerBytes name namePrefix typeflag size) (156 + offset) width =
      fieldAt (headerBack namePrefix typeflag) offset width := by
  rw [headerBytes, fieldAt_right]
  simp [length_headerFront hname]

theorem size_headerBytes (hname : name.length ≤ 100) :
    fieldAt (headerBytes name namePrefix typeflag size) 124 12 = octalDigits 11 size ++ [0] := by
  rw [fieldAt_headerBytes_front typeflag hname (by decide), headerFront]
  exact fieldAt_append (by simp [length_padTo hname]) (by simp)

theorem name_headerBytes (hname : name.length ≤ 100) :
    fieldAt (headerBytes name namePrefix typeflag size) 0 100 = padTo 100 name := by
  rw [fieldAt_headerBytes_front typeflag hname (by decide), headerFront]
  rw [List.append_assoc, List.append_assoc]
  exact fieldAt_append (List.length_nil : ([] : Bytes).length = 0) (length_padTo hname)

theorem prefix_headerBytes (hname : name.length ≤ 100) (hinit : namePrefix.length ≤ 155) :
    fieldAt (headerBytes name namePrefix typeflag size) 345 155 = padTo 155 namePrefix := by
  have hback : fieldAt (headerBack namePrefix typeflag) 189 155 = padTo 155 namePrefix := by
    refine fieldAt_append ?_ (length_padTo hinit)
    simp only [List.length_append, List.length_replicate, List.length_singleton]
    rfl
  change fieldAt _ (156 + 189) 155 = _
  rw [fieldAt_headerBytes_back typeflag hname, hback]

theorem magic_headerBytes (hname : name.length ≤ 100) :
    fieldAt (headerBytes name namePrefix typeflag size) 257 5 = ascii "ustar" := by
  have hback : fieldAt (headerBack namePrefix typeflag) 101 5 = ascii "ustar" := by
    have hustar : (ascii "ustar").length = 5 := rfl
    rw [headerBack, fieldAt_left, fieldAt_left]
    · exact fieldAt_append (by simp) rfl
    all_goals
      simp only [List.length_append, List.length_replicate, List.length_singleton, hustar]
      omega
  change fieldAt _ (156 + 101) 5 = _
  rw [fieldAt_headerBytes_back typeflag hname, hback]

theorem typeflag_headerBytes (hname : name.length ≤ 100) :
    (headerBytes name namePrefix typeflag size).getD 156 0 = typeflag := by
  have hbefore : (headerFront name size ++
      (octalDigits 6 (headerSum name namePrefix typeflag size) ++ [0, 32])).length = 156 := by
    simp [length_headerFront hname]
  rw [headerBytes, List.getD_eq_getElem?_getD, List.getElem?_append_right (Nat.le_of_eq hbefore),
    hbefore]
  rfl

/-- Every name, prefix and size that fit their fields have a header. -/
def TarHeader.encode (typeflag : UInt8) (hname : name.length ≤ 100)
    (hinit : namePrefix.length ≤ 155) (hsize : size < 8 ^ 11) : TarHeader where
  bytes := headerBytes name namePrefix typeflag size
  size := size
  length_eq := length_headerBytes typeflag hname hinit
  size_field := by
    rw [size_headerBytes typeflag hname]
    exact octalField_digits (by decide) hsize (by simp)
  checksum_field := by
    rw [blankedSum_headerBytes typeflag hname, headerBytes,
      fieldAt_append (length_headerFront hname) (by simp)]
    exact octalField_digits (by decide) (headerSum_lt typeflag hname hinit) (by simp)

theorem TarHeader.encode_whole (typeflag : UInt8) (hname : name.length ≤ 100)
    (hinit : ([] : Bytes).length ≤ 155) (hsize : size < 8 ^ 11) :
    (TarHeader.encode typeflag hname hinit hsize).Names name :=
  .whole (name_headerBytes typeflag hname) (prefix_headerBytes typeflag hname hinit)

theorem TarHeader.encode_split (typeflag : UInt8) (hname : name.length ≤ 100)
    (hinit : namePrefix.length ≤ 155) (hsize : size < 8 ^ 11) (hnonempty : name ≠ [])
    (hdirNonempty : namePrefix ≠ [])
    (hlast : ∀ c ∈ namePrefix.getLast?, c ≠ 32 ∧ c ≠ 9) :
    (TarHeader.encode typeflag hname hinit hsize).Names (namePrefix ++ [47] ++ name) :=
  .split (magic_headerBytes typeflag hname) (prefix_headerBytes typeflag hname hinit)
    (name_headerBytes typeflag hname) hdirNonempty hnonempty hlast

end Encode

/-! ## Writing entries -/

section Entries

variable {name namePrefix data : Bytes}

def TarEntry.encode (typeflag : UInt8) (hname : name.length ≤ 100)
    (hinit : namePrefix.length ≤ 155) (hdata : data.length < 8 ^ 11) : TarEntry :=
  ⟨.encode typeflag hname hinit hdata, data, rfl⟩

theorem length_no_prefix : ([] : Bytes).length ≤ 155 := by decide

theorem length_no_data : ([] : Bytes).length < 8 ^ 11 := by decide

/-- A file whose name fits the name field. -/
def TarMember.whole (husable : UsableName name) (hname : name.length ≤ 100)
    (hdata : data.length < 8 ^ 11) : TarMember where
  name := name
  longName := none
  entry := .encode 48 hname length_no_prefix hdata
  usable := husable
  regular := .inr (typeflag_headerBytes 48 hname)
  size_lt := hdata
  named := TarHeader.encode_whole 48 hname length_no_prefix hdata

/-- A file whose name is split between the prefix and the name field. -/
def TarMember.split (husable : UsableName (namePrefix ++ [47] ++ name)) (hname : name.length ≤ 100)
    (hinit : namePrefix.length ≤ 155) (hnonempty : name ≠ []) (hdirNonempty : namePrefix ≠ [])
    (hlast : ∀ c ∈ namePrefix.getLast?, c ≠ 32 ∧ c ≠ 9) (hdata : data.length < 8 ^ 11) :
    TarMember where
  name := namePrefix ++ [47] ++ name
  longName := none
  entry := .encode 48 hname hinit hdata
  usable := husable
  regular := .inr (typeflag_headerBytes 48 hname)
  size_lt := hdata
  named := TarHeader.encode_split 48 hname hinit hdata hnonempty hdirNonempty hlast

/-- A file with a long name, of which its own header holds the beginning. -/
def TarMember.long (husable : UsableName name) (hname : name.length < 2 ^ 20)
    (hdata : data.length < 8 ^ 11) : TarMember where
  name := name
  longName := some (.encode 76 (by decide : (ascii "././@LongLink").length ≤ 100)
    length_no_prefix
    (by rw [List.length_append, List.length_singleton]; omega : (name ++ [0]).length < 8 ^ 11))
  entry := .encode 48 (List.length_take_le 100 name) length_no_prefix hdata
  usable := husable
  regular := .inr (typeflag_headerBytes 48 (List.length_take_le 100 name))
  size_lt := hdata
  named := {
    typeflag_eq := typeflag_headerBytes 76 (by decide)
    body_eq := ⟨1, rfl⟩
    body_le := by
      change (name ++ [0]).length ≤ 2 ^ 20
      rw [List.length_append, List.length_singleton]
      omega }

end Entries


end Odin4
