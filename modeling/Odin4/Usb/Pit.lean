import Odin4.OdinTypes

/-!
# Parsing the partition information table

The PIT comes from the device. It is accepted as a whole or not at all.
-/

namespace Odin4

section Parse

variable (data : Bytes)

def readU32 (offset : Nat) : UInt32 := UInt32.ofNat (leAt data offset 4)

def readU16 (offset : Nat) : UInt16 := UInt16.ofNat (leAt data offset 2)

/-- The fixed name field copied from `offset`. -/
def readName (offset : Nat) : List.Vector UInt8 32 :=
  List.Vector.ofFn fun i => data.getD (offset + i) 0

def extractField (field : List.Vector UInt8 32) : Bytes := fieldText field.toList 32

/-- Printable ASCII without path separators. -/
def isValidPitString (text : Bytes) : Bool :=
  text.all fun c => 0x20 ≤ c && c ≤ 0x7E && c != 47 && c != 92

def pitHeaderSize : Nat := 28

def pitEntrySize : Nat := 132

def pitEntryAt (offset : Nat) : PitEntry where
  binaryType := readU32 data offset
  deviceType := readU32 data (offset + 4)
  identifier := readU32 data (offset + 8)
  attributes := readU32 data (offset + 12)
  updateAttributes := readU32 data (offset + 16)
  blockSizeOrOffset := readU32 data (offset + 20)
  blockCount := readU32 data (offset + 24)
  fileOffset := readU32 data (offset + 28)
  fileSize := readU32 data (offset + 32)
  partitionName := readName data (offset + 36)
  fileName := readName data (offset + 68)
  fotaName := readName data (offset + 100)

/-- The overflow test on block size and block count, in 64-bit arithmetic. -/
def blockProductOverflows (entry : PitEntry) : Bool :=
  let a := entry.blockSizeOrOffset.toNat
  let b := entry.blockCount.toNat
  b != 0 && a != 0 && a * b % 2 ^ 64 / a != b

/-- The checks on one entry, given the identifiers of the entries before it. -/
def pitEntryValid (seenIdentifiers : List UInt32) (entry : PitEntry) : Bool :=
  let partName := extractField entry.partitionName
  let fileName := extractField entry.fileName
  !partName.isEmpty && isValidPitString partName &&
    (fileName.isEmpty || isValidPitString fileName) &&
    entry.identifier != 0 && !seenIdentifiers.contains entry.identifier &&
    !blockProductOverflows entry

/-- Read `count` further entries, the next of which is number `i`. -/
def parsePitEntries : (count i : Nat) → (seenIdentifiers : List UInt32) → Option (List PitEntry)
  | 0, _, _ => some []
  | count + 1, i, seen =>
      let entry := pitEntryAt data (pitHeaderSize + i * pitEntrySize)
      if pitEntryValid seen entry then
        (parsePitEntries count (i + 1) (entry.identifier :: seen)).map (entry :: ·)
      else none

def parsePitBytes : Option PitTable :=
  if data.length < pitHeaderSize then none
  else if readU32 data 0 ≠ 0x12349876 then none
  else
    let entryCount := readU32 data 4
    if entryCount = 0 ∨ 512 < entryCount then none
    else if data.length < pitHeaderSize + entryCount.toNat * pitEntrySize then none
    else
      (parsePitEntries data entryCount.toNat 0 []).map fun entries =>
        { entryCount
          headerSize := 28
          unknown1 := readU32 data 8
          unknown2 := readU32 data 12
          unknown3 := readU16 data 16
          unknown4 := readU16 data 18
          unknown5 := readU16 data 20
          unknown6 := readU16 data 22
          unknown7 := readU16 data 24
          unknown8 := readU16 data 26
          entries }

end Parse

end Odin4
