import Odin4.Archive.Lz4Streaming
import Odin4.Archive.Md5Trailer

/-!
# Walking an archive

The archive is read header by header. Reading a header and deciding what to do
with the entry is a function of the file, the PIT and the state of the walk;
only the transfer of a matched member involves the device.
-/

namespace Odin4

open Interaction Program

/-- What a run takes from its host: the files, the digest and the LZ4 library. -/
structure Host where
  fs : FileSystem
  md5 : Md5
  lz4 : Lz4Decoder

/-- The variables that live across the entries of one archive. -/
structure WalkState where
  file : FileStream
  usedPartitionIds : List UInt32 := []
  pendingGnuLongName : Bytes := []
  pendingPaxPath : Bytes := []

/-- A regular entry with its partition. -/
structure Member where
  filename : Bytes
  dataSize : Nat
  pitEntry : PitEntry
  isLarge : Bool
  isLz4 : Bool

/-- What the walk does after reading a header. -/
inductive MemberStep where
  /-- Leave the loop with this result. -/
  | stop (code : ExitCode)
  /-- Go on with the next header. -/
  | skip (state : WalkState)
  /-- Transfer or check the data that follows. -/
  | matched (member : Member) (state : WalkState)

/-! ## Names -/

/-- The name of the entry. A pending long name takes precedence over a pending
PAX path, and both over the header; the one that is used is cleared. -/
def takeFilename (state : WalkState) (header : Bytes) : Bytes × WalkState :=
  if !state.pendingGnuLongName.isEmpty then
    (sanitizeTarName state.pendingGnuLongName, { state with pendingGnuLongName := [] })
  else if !state.pendingPaxPath.isEmpty then
    (sanitizeTarName state.pendingPaxPath, { state with pendingPaxPath := [] })
  else (sanitizeTarName (headerFilename header), state)

/-- The path after one PAX line: behind the first blank, a key up to `=`. -/
def paxLine (line pendingPath : Bytes) : Bytes :=
  -- The length in front of the blank is not used.
  match line.dropWhile (· != 32) with
  | [] => pendingPath
  | _ :: kv =>
      match kv.dropWhile (· != 61) with
      | [] => pendingPath
      | _ :: val =>
          if kv.takeWhile (· != 61) = ascii "path" then sanitizeTarName val else pendingPath

/-- The path after all lines of a PAX body. -/
def paxPath (pax pendingPath : Bytes) : Bytes :=
  if _h : pax = [] then pendingPath
  else
    let pendingPath := paxLine (pax.takeWhile (· != 10)) pendingPath
    match _hrest : pax.dropWhile (· != 10) with
    | [] => pendingPath
    | _ :: rest => paxPath rest pendingPath
termination_by pax.length
decreasing_by
  have hsuffix : pax.dropWhile (· != 10) <:+ pax := List.dropWhile_suffix _
  have hle := hsuffix.length_le
  rw [_hrest, List.length_cons] at hle
  omega

/-! ## Entries that are not transferred -/

/-- Body limit of the extension entries. -/
def extensionLimit : Nat := 1024 * 1024

/-- Read the body of an extension entry and move to the next header. -/
def readExtension (file : FileStream) (dataSize : Nat) : Option (Bytes × FileStream) := do
  if extensionLimit < dataSize then none
  let (buf, file) := file.read dataSize
  if buf.length ≠ dataSize then none
  let file := file.seekCur (tarPadding dataSize)
  if file.failed then none
  return (buf, file)

def skipEntryData (file : FileStream) (size : Nat) : Option FileStream := do
  if streamoffMax < size then none
  let file := file.seekCur size
  if file.failed then none
  let file := file.seekCur (tarPadding size)
  if file.failed then none
  return file

/-- Go on at `file?`, or give up where it is missing. -/
def skipTo (state : WalkState) (file? : Option FileStream) : MemberStep :=
  match file? with
  | none => .stop .firmware
  | some file => .skip { state with file }

/-! ## PIT lookup -/

def pitFieldToString (field : List.Vector UInt8 32) : Bytes := fieldText field.toList 32

/-- Name comparison of an archive entry with a PIT entry. -/
def pitEntryMatches (filename : Bytes) (entry : PitEntry) : Bool :=
  let basename := baseNameFromPath filename
  let baseNameSanitized := toLowerCopy (sanitizeFilename basename)
  let pitFile := pitFieldToString entry.fileName
  let pitPart := pitFieldToString entry.partitionName
  (!pitFile.isEmpty && (toLowerCopy (sanitizeFilename pitFile) == baseNameSanitized ||
      toLowerCopy pitFile == toLowerCopy basename)) ||
    toLowerCopy (sanitizeFilename pitPart) == baseNameSanitized ||
    (!pitFile.isEmpty && toLowerCopy pitFile == toLowerCopy filename)

/-- The first matching entry. -/
def findPitEntry (pitTable : PitTable) (filename : Bytes) : Option PitEntry :=
  pitTable.entries.find? (pitEntryMatches filename)

def isLargePartition (partitionName : Bytes) : Bool :=
  let partUpper := partitionName.map toUpper
  partUpper == ascii "SYSTEM" || partUpper == ascii "USERDATA" || partUpper == ascii "SUPER"

def isLz4Name (filename : Bytes) : Bool :=
  endsWithCaseInsensitive (toLowerCopy (baseNameFromPath filename)) (ascii ".lz4")

/-- A regular entry: find its partition and claim the partition identifier. -/
def regularEntry (pitTable : PitTable) (allowUnknown : Bool) (state : WalkState)
    (filename : Bytes) (dataSize : Nat) : MemberStep :=
  if filename.isEmpty then .stop .firmware
  else
    match findPitEntry pitTable filename with
    | none =>
        if allowUnknown then skipTo state (skipEntryData state.file dataSize) else .stop .pit
    | some pitEntry =>
        if state.usedPartitionIds.contains pitEntry.identifier then .stop .pit
        else
          .matched
            { filename, dataSize, pitEntry
              isLarge := isLargePartition (pitFieldToString pitEntry.partitionName)
              isLz4 := isLz4Name filename }
            { state with usedPartitionIds := pitEntry.identifier :: state.usedPartitionIds }

/-! ## One header -/

/-- What to do with an entry whose header has been read and checked. -/
def classifyEntry (pitTable : PitTable) (allowUnknown : Bool) (state : WalkState)
    (typeflag : UInt8) (filename : Bytes) (dataSize : Nat) : MemberStep :=
  -- A long name in the GNU format.
  if typeflag = 76 then
    match readExtension state.file dataSize with
    | none => .stop .firmware
    | some (longName, file) =>
        .skip { state with
          file, pendingGnuLongName := sanitizeTarName (longName.takeWhile (· != 0)) }
  else if typeflag = 120 ∨ typeflag = 103 then
    match readExtension state.file dataSize with
    | none => .stop .firmware
    | some (pax, file) =>
        .skip { state with file, pendingPaxPath := paxPath pax state.pendingPaxPath }
  else if ¬ (typeflag = 0 ∨ typeflag = 48) then
    skipTo state (skipEntryData state.file dataSize)
  else regularEntry pitTable allowUnknown state filename dataSize

/-- Read the next header and decide what to do with its entry. -/
def readMember (contentEnd : Nat) (pitTable : PitTable) (allowUnknown : Bool)
    (state : WalkState) : MemberStep :=
  match state.file.tellg with
  | none => .stop .firmware
  | some pos =>
      -- What is too short for a header ends the loop without an error.
      if contentEnd < pos + tarBlockSize then .stop .success
      else
        let (header, file) := state.file.read tarBlockSize
        if header.length ≠ tarBlockSize then .stop .firmware
        else if isAllZerosBlock header then .stop .success
        else if !tarHeaderChecksumValid header then .stop .firmware
        else
          match parseOctalU64 (fieldAt header 124 12) with
          | none => .stop .firmware
          | some dataSize =>
              let (filename, state) := takeFilename { state with file } header
              match state.file.tellg with
              | none => .stop .firmware
              | some dataStart =>
                  if contentEnd < dataStart ∨ contentEnd - dataStart < dataSize then
                    .stop .firmware
                  else
                    classifyEntry pitTable allowUnknown state (header.getD 156 0) filename dataSize

/-! ## Members -/

/-- Flash the data of a member, or check it without flashing. -/
def transferMember (dec : Lz4Decoder) (usb : UsbDevice) (doFlash : Bool) (member : Member)
    (file : FileStream) : Usb (Except ExitCode FileStream) := do
  if member.isLz4 then
    -- In legacy mode LZ4 images are refused, but not by a check.
    if usb.isOdinLegacy && doFlash then return .error .protocol
    let some file ← processLz4Streaming dec file member.dataSize usb member.isLarge doFlash
      | return .error (if doFlash then .protocol else .firmware)
    return .ok file
  else if doFlash then
    let (ok, file) ←
      flashPartitionStream usb file member.dataSize member.pitEntry member.isLarge
    if !ok then return .error .protocol
    return .ok file
  else
    -- A check moves over the data without reading them.
    let file := file.seekCur (toStreamoff member.dataSize)
    if file.failed then return .error .firmware
    return .ok file

/-- Transfer a member, move to the next header and finish the transfer. -/
def processMember (dec : Lz4Decoder) (usb : UsbDevice) (doFlash : Bool) (member : Member)
    (state : WalkState) : Usb (Except ExitCode WalkState) := do
  match ← transferMember dec usb doFlash member state.file with
  | .error code => return .error code
  | .ok file =>
      let file := file.seekCur (tarPadding member.dataSize)
      if file.failed then return .error .firmware
      if doFlash then
        if !(← endFileTransfer usb member.pitEntry.identifier) then return .error .protocol
      return .ok { state with file }

/-- The loop over the entries. Every turn moves forward by at least one block,
so `fuel` turns reach the end of a content of fewer than `fuel` blocks. -/
def memberLoop (dec : Lz4Decoder) (usb : UsbDevice) (pitTable : PitTable)
    (doFlash allowUnknown : Bool) (contentEnd : Nat) : (fuel : Nat) → WalkState → Usb ExitCode
  | 0, _ => return .firmware
  | fuel + 1, state =>
      match readMember contentEnd pitTable allowUnknown state with
      | .stop code => return code
      | .skip state => memberLoop dec usb pitTable doFlash allowUnknown contentEnd fuel state
      | .matched member state => do
          match ← processMember dec usb doFlash member state with
          | .error code => return code
          | .ok state => memberLoop dec usb pitTable doFlash allowUnknown contentEnd fuel state

/-- Turns that suffice for a content of the given length. -/
def memberFuel (contentEnd : Nat) : Nat := contentEnd / tarBlockSize + 1

/-- Where the content of an archive ends, or the reason to reject the file. -/
def openArchive (host : Host) (tarPath : Bytes) : Except ExitCode (FileStream × Nat) := do
  let md5Info ← detectTarMd5Info host.fs tarPath
  match verifyTarMd5 host.fs host.md5 tarPath md5Info with
  | .success => pure ()
  | code => throw code
  let some file := host.fs tarPath | throw .firmware
  -- The trailer is no part of the content.
  let contentEnd := if md5Info.hasMd5 then md5Info.contentEnd else file.bytes.length
  if contentEnd < tarBlockSize then throw .firmware
  return (FileStream.openFile file, contentEnd)

def processTarFile (host : Host) (tarPath : Bytes) (usb : UsbDevice) (pitTable : PitTable)
    (doFlash allowUnknown : Bool) : Usb ExitCode :=
  match openArchive host tarPath with
  | .error code => return code
  | .ok (file, contentEnd) =>
      memberLoop host.lz4 usb pitTable doFlash allowUnknown contentEnd (memberFuel contentEnd)
        { file }

end Odin4
