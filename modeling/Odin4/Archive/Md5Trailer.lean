import Odin4.Archive.Tar
import Odin4.Foundation.FileStream
import Odin4.OdinTypes

/-!
# The MD5 trailer of a `.tar.md5` file

The trailer is a text line behind the archive: the digest of everything before
it in hexadecimal, then a file name. It is located from the end of the file.
-/

namespace Odin4

/-- Files by path; `none` cannot be opened. -/
abbrev FileSystem := Bytes → Option FileContent

/-- A digest function on byte strings. -/
abbrev Md5 := Bytes → List.Vector UInt8 16

structure TarMd5Info where
  hasMd5 : Bool := false
  contentEnd : Nat := 0
  expectedMd5 : Bytes := []
deriving DecidableEq, Repr

/-! ## Locating the trailer -/

/-- Thirty-two hex digits at `pos` with no hex digit on either side. -/
def isolatedHexRun (tail : Bytes) (pos : Nat) : Bool :=
  isHex32 (fieldAt tail pos 32) &&
    (pos == 0 || !isHexChar (tail.getD (pos - 1) 0)) &&
    (decide (tail.length ≤ pos + 32) || !isHexChar (tail.getD (pos + 32) 0))

/-- The last isolated run at a position of at most `pos`. -/
def findHexRun (tail : Bytes) : (pos : Nat) → Option Nat
  | 0 => if isolatedHexRun tail 0 then some 0 else none
  | pos + 1 => if isolatedHexRun tail (pos + 1) then some (pos + 1) else findHexRun tail pos

/-- The position after the last newline before `pos`. -/
def findLineStart (tail : Bytes) : (pos : Nat) → Option Nat
  | 0 => none
  | pos + 1 => if tail.getD pos 0 = 10 then some (pos + 1) else findLineStart tail pos

/-- Length of the region at the end of the file that is searched. -/
def md5TailLimit : Nat := 65536

def detectTarMd5Info (fs : FileSystem) (filePath : Bytes) : Except ExitCode TarMd5Info := do
  let some file := fs filePath | throw .firmware
  let fileSize := file.bytes.length
  if !endsWithCaseInsensitive filePath (ascii ".tar.md5") then
    return { contentEnd := fileSize }
  if fileSize < 32 then throw .firmware
  let tailLen := min fileSize md5TailLimit
  let (tail, _) := ((FileStream.openFile file).seekg (fileSize - tailLen : Nat)).read tailLen
  if tail.length ≠ tailLen then throw .firmware
  match findHexRun tail (tail.length - 32) with
  | none =>
      let last32 := tail.drop (tail.length - 32)
      if !isHex32 last32 then throw .firmware
      return { hasMd5 := true, contentEnd := fileSize - 32, expectedMd5 := toLowerCopy last32 }
  | some bestPos =>
      let md5 := fieldAt tail bestPos 32
      if !isHex32 md5 then throw .firmware
      let lineStart := (findLineStart tail bestPos).getD bestPos
      let trailerStart := (fileSize - tailLen) + lineStart
      if fileSize ≤ trailerStart then throw .firmware
      return { hasMd5 := true, contentEnd := trailerStart, expectedMd5 := toLowerCopy md5 }

/-! ## Verifying the digest -/

def hexDigit (n : Nat) : UInt8 := UInt8.ofNat (if n < 10 then 48 + n else 55 + n)

/-- Upper-case hexadecimal encoding. -/
def hexEncode (digest : Bytes) : Bytes :=
  digest.flatMap fun byte => [hexDigit (byte.toNat / 16), hexDigit (byte.toNat % 16)]

def md5BufferSize : Nat := 1024 * 1024

/-- Read `remaining` further bytes through the buffer; the hash has already
absorbed `hashed`. -/
def md5Absorb (stream : FileStream) (remaining : Nat) (hashed : Bytes) : Option Bytes :=
  if _h : remaining = 0 then some hashed
  else
    let toRead := min remaining md5BufferSize
    let (buf, stream) := stream.read toRead
    if buf.length ≠ toRead then none
    else md5Absorb stream (remaining - toRead) (hashed ++ buf)
termination_by remaining
decreasing_by
  simp only [md5BufferSize]
  omega

def verifyTarMd5 (fs : FileSystem) (md5 : Md5) (filePath : Bytes) (info : TarMd5Info) :
    ExitCode :=
  if !info.hasMd5 then .success
  else if info.contentEnd = 0 then .firmware
  else
    match fs filePath with
    | none => .firmware
    | some file =>
        match md5Absorb (FileStream.openFile file) info.contentEnd [] with
        | none => .firmware
        | some hashed =>
            if toLowerCopy (hexEncode (md5 hashed).toList) = info.expectedMd5 then .success
            else .firmware

def checkMd5Signature (fs : FileSystem) (md5 : Md5) (filePath : Bytes) : Bool :=
  match detectTarMd5Info fs filePath with
  | .error _ => false
  | .ok info => verifyTarMd5 fs md5 filePath info == .success

end Odin4
