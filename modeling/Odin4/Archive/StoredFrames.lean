import Odin4.Archive.Lz4Streaming
import Odin4.Foundation.ByteMachine

/-!
# LZ4 frames of stored blocks

The part of the frame format that needs no decompression: the frame header with
its checksum, blocks that are stored as they are, and the end mark. A frame that
uses anything else is an error here. The decoder is a byte machine.
-/

namespace Odin4

/-! ## The header checksum -/

def rotateLeft (h : UInt32) (r : UInt32) : UInt32 := h <<< r ||| h >>> (32 - r)

def xxhPrime1 : UInt32 := 2654435761

def xxhPrime2 : UInt32 := 2246822519

def xxhPrime3 : UInt32 := 3266489917

def xxhPrime4 : UInt32 := 668265263

def xxhPrime5 : UInt32 := 374761393

/-- Mix in four bytes at a time, and what is left byte by byte. -/
def xxhFinalize (h : UInt32) : Bytes → UInt32
  | a :: b :: c :: d :: rest =>
      let word := UInt32.ofNat (leNat [a, b, c, d])
      xxhFinalize (rotateLeft (h + word * xxhPrime3) 17 * xxhPrime4) rest
  | byte :: rest =>
      xxhFinalize (rotateLeft (h + byte.toUInt32 * xxhPrime5) 11 * xxhPrime1) rest
  | [] => h

/-- XXH32 with seed zero of fewer than 16 bytes. -/
def xxh32Short (data : Bytes) : UInt32 :=
  let h := xxhFinalize (xxhPrime5 + UInt32.ofNat data.length) data
  let h := (h ^^^ h >>> 15) * xxhPrime2
  let h := (h ^^^ h >>> 13) * xxhPrime3
  h ^^^ h >>> 16

def headerChecksum (header : Bytes) : UInt8 := (xxh32Short header >>> 8).toUInt8

/-! ## The frame header -/

/-- Size of a header without content size. -/
def minFHSize : Nat := 7

def lz4FrameMagic : Nat := 0x184D2204

/-- The size of a header, known from its fifth byte. -/
def frameHeaderSize (header : Bytes) : Nat :=
  if (header.getD 4 0 >>> 3) &&& 1 = 1 then minFHSize + 8 else minFHSize

/-- The content size of a complete header, zero if it has none. Only frames
without checksums and dictionary are taken. -/
def decodeHeader (header : Bytes) : Option Nat :=
  let flg := header.getD 4 0
  let bd := header.getD 5 0
  let blockSizeID := bd >>> 4
  let size := frameHeaderSize header
  if leAt header 0 4 ≠ lz4FrameMagic then none
  else if flg >>> 6 ≠ 1 ∨ flg &&& 0x17 ≠ 0 then none
  else if blockSizeID < 4 ∨ 7 < blockSizeID ∨ bd &&& 0x0F ≠ 0 then none
  else if headerChecksum (fieldAt header 4 (size - 5)) ≠ header.getD (size - 1) 0 then none
  else some (if size = minFHSize then 0 else leAt header 6 8)

/-- The largest block that a header allows. -/
def maxBlockSize (header : Bytes) : Nat := 4 ^ ((header.getD 5 0 >>> 4).toNat + 4)

/-! ## The machine -/

inductive StoredPhase where
  /-- Collecting the frame header. -/
  | header (bytes : Bytes)
  /-- Collecting the header of a block. -/
  | blockHeader (bytes : Bytes)
  /-- Inside a stored block with so many bytes left. -/
  | block (left : Nat)
  | ended
deriving DecidableEq

/-- The declared content size, the largest block and the output so far. -/
structure StoredState where
  phase : StoredPhase
  contentSize : Nat
  blockLimit : Nat
  produced : Nat
deriving DecidableEq

/-- The size field of a block has its top bit set where the block is stored. -/
def blockStored : Nat := 2 ^ 31

/-- The state behind a complete frame header. -/
def afterHeader (header : Bytes) : Option StoredState :=
  (decodeHeader header).map fun contentSize =>
    ⟨.blockHeader [], contentSize, maxBlockSize header, 0⟩

/-- A complete block header: the end mark, or the size of a stored block. A
declared content size is compared with the output at the end mark. -/
def afterBlockHeader (state : StoredState) (size : Nat) : Option StoredState :=
  if size = 0 then
    if state.contentSize ≠ 0 ∧ state.contentSize ≠ state.produced then none
    else some { state with phase := .ended }
  else if size ≤ blockStored ∨ state.blockLimit < size - blockStored then none
  else some { state with phase := .block (size - blockStored) }

def storedStep (state : StoredState) (byte : UInt8) : Option (StoredState × Option UInt8) :=
  match state.phase with
  | .header bytes =>
      let bytes := bytes ++ [byte]
      if bytes.length < minFHSize ∨ bytes.length < frameHeaderSize bytes then
        some ({ state with phase := .header bytes }, none)
      else (afterHeader bytes).map fun next => (next, none)
  | .blockHeader bytes =>
      let bytes := bytes ++ [byte]
      if bytes.length < 4 then some ({ state with phase := .blockHeader bytes }, none)
      else (afterBlockHeader state (leNat bytes)).map fun next => (next, none)
  | .block left =>
      let phase := if left ≤ 1 then .blockHeader [] else .block (left - 1)
      some ({ state with phase, produced := state.produced + 1 }, some byte)
  | .ended => none

def storedMachine : ByteMachine where
  State := StoredState
  start := ⟨.header [], 0, 0, 0⟩
  step := storedStep
  ended state := state.phase == .ended

/-- The decoder for frames of stored blocks. -/
def storedFrames : Lz4Decoder where
  toStreamDecoder := storedMachine.decoder
  getFrameInfo _ src :=
    if src.length < minFHSize ∨ src.length < frameHeaderSize src then none
    else (afterHeader (src.take (frameHeaderSize src))).map fun state =>
      (state, ⟨UInt64.ofNat state.contentSize⟩)

instance : DecidableEq storedFrames.Ctx := inferInstanceAs (DecidableEq StoredState)

/-! ## Writing frames -/

/-- A header with content size and blocks of at most 64 KiB. -/
def frameHeader (contentSize : Nat) : Bytes :=
  let descriptor := [0x68, 0x40] ++ leBytes 8 contentSize
  leBytes 4 lz4FrameMagic ++ descriptor ++ [headerChecksum descriptor]

def storedBlock (payload : Bytes) : Bytes := leBytes 4 (blockStored + payload.length) ++ payload

def endMark : Bytes := leBytes 4 0

/-- Splitting input and output does not matter for these frames. -/
theorem storedFrames_decodesTo :
    storedFrames.DecodesTo (storedMachine.content storedMachine.start) :=
  storedMachine.decodesTo

end Odin4
