import Odin4.Foundation.ByteString

/-!
# TAR headers and member names

Field decoding, checksums and the name functions of the archive reader, over
512-byte headers as byte strings.
-/

namespace Odin4

def tarBlockSize : Nat := 512

/-- Bytes that follow `size` bytes of data up to the next block boundary. -/
def tarPadding (size : Nat) : Nat := (512 - size % 512) % 512

/-! ## Text -/

def isHexChar (c : UInt8) : Bool :=
  (48 ≤ c && c ≤ 57) || (97 ≤ c && c ≤ 102) || (65 ≤ c && c ≤ 70)

def isHex32 (text : Bytes) : Bool := text.length == 32 && text.all isHexChar

def toLowerCopy (text : Bytes) : Bytes := text.map toLower

def endsWithCaseInsensitive (text suffix : Bytes) : Bool :=
  decide (suffix.length ≤ text.length) &&
    toLowerCopy (text.drop (text.length - suffix.length)) == toLowerCopy suffix

def tarFieldString (field : Bytes) (maxLen : Nat) : Bytes := fieldText field maxLen

/-- Drop trailing NUL, newline and carriage return. -/
def sanitizeTarName (name : Bytes) : Bytes :=
  trimRight (fun c => c == 0 || c == 10 || c == 13) name

/-- What follows the last slash or backslash. -/
def baseNameFromPath (path : Bytes) : Bytes :=
  (path.reverse.takeWhile fun c => c != 47 && c != 92).reverse

/-- Position of the last dot. -/
def findLastDot (name : Bytes) : Option Nat :=
  (List.range name.length).reverse.find? fun i => name[i]? == some 46

theorem findLastDot_lt {name : Bytes} {i : Nat} (h : findLastDot name = some i) :
    i < name.length := by
  have hmem := List.mem_of_find?_eq_some h
  simpa using hmem

def imageExtensions : List Bytes := [ascii ".lz4", ascii ".ext4", ascii ".img", ascii ".bin"]

/-- Strip known image extensions as long as the name ends in one. -/
def sanitizeFilename (filename : Bytes) : Bytes :=
  match _h : findLastDot filename with
  | none => filename
  | some lastDot =>
      if imageExtensions.contains (filename.drop lastDot) then
        sanitizeFilename (filename.take lastDot)
      else filename
termination_by filename.length
decreasing_by
  have := findLastDot_lt _h
  rw [List.length_take]
  omega

/-! ## Octal fields -/

/-- Accumulate octal digits up to a terminator. The 64-bit shift is undone to
detect an overflow. -/
def parseOctalDigits : Bytes → (out : Nat) → Option Nat
  | [], out => some out
  | c :: rest, out =>
      if c = 0 ∨ c = 32 ∨ c = 9 then some out
      else if c < 48 ∨ 55 < c then none
      else
        let next := (out * 8 + (c.toNat - 48)) % 2 ^ 64
        if next / 8 = out then parseOctalDigits rest next else none

/-- `none` is a malformed or overflowing field; an empty field is zero. -/
def parseOctalU64 (field : Bytes) : Option Nat :=
  parseOctalDigits (field.dropWhile isBlank) 0

/-! ## Header blocks -/

def isAllZerosBlock (header : Bytes) : Bool := header.all (· == 0)

/-- The header with its checksum field read as blanks. -/
def checksumBytes (header : Bytes) : Bytes :=
  header.take 148 ++ List.replicate 8 32 ++ header.drop 156

def checksumUnsigned (header : Bytes) : Nat := ((checksumBytes header).map UInt8.toNat).sum

/-- The value of a byte as a signed character. -/
def signedByte (c : UInt8) : Int := Int.bmod c.toNat 256

def checksumSigned (header : Bytes) : Int := ((checksumBytes header).map signedByte).sum

/-- Either sum is accepted, as both are in use. -/
def tarHeaderChecksumValid (header : Bytes) : Bool :=
  match parseOctalU64 (fieldAt header 148 8) with
  | none => false
  | some expected =>
      expected == checksumUnsigned header ||
        (decide (0 ≤ checksumSigned header) && (expected : Int) == checksumSigned header)

/-- The name in the header itself, with the prefix of the ustar format. -/
def headerFilename (header : Bytes) : Bytes :=
  let name := tarFieldString header 100
  if fieldAt header 257 5 = ascii "ustar" then
    let namePrefix := tarFieldString (header.drop 345) 155
    if namePrefix.isEmpty then name else namePrefix ++ [47] ++ name
  else name

end Odin4
