import Odin4.Foundation.ByteString

/-!
# Input file streams

The stream state of a binary input file: its contents, the read position and
the fail state. A read that comes up short sets the fail state; while it is
set, reads deliver nothing, positions cannot be told and seeks are ignored.
Offsets are signed 64-bit numbers, so no position reaches `2 ^ 63`.
-/

namespace Odin4

/-- The contents of a file. Its size is a signed 64-bit offset. -/
structure FileContent where
  bytes : Bytes
  size_lt : bytes.length < 2 ^ 63
deriving DecidableEq

/-- The largest stream offset. -/
def streamoffMax : Nat := 2 ^ 63 - 1

/-- Conversion of an unsigned 64-bit number to a signed stream offset. -/
def toStreamoff (n : Nat) : Int := Int.bmod n (2 ^ 64)

structure FileStream where
  file : FileContent
  pos : Nat
  failed : Bool
deriving DecidableEq

namespace FileStream

/-- A freshly opened stream. -/
def openFile (file : FileContent) : FileStream := ⟨file, 0, false⟩

def tellg (stream : FileStream) : Option Nat :=
  if stream.failed then none else some stream.pos

def clear (stream : FileStream) : FileStream := { stream with failed := false }

/-- Move to an absolute position. Seeking past the end of the file is not an error. -/
def seekg (stream : FileStream) (target : Int) : FileStream :=
  if stream.failed then stream
  else if 0 ≤ target ∧ target ≤ streamoffMax then { stream with pos := target.toNat }
  else { stream with failed := true }

/-- Move relative to the current position. -/
def seekCur (stream : FileStream) (offset : Int) : FileStream :=
  stream.seekg (stream.pos + offset)

/-- The bytes between the current position and the end of the file. -/
def rest (stream : FileStream) : Bytes := stream.file.bytes.drop stream.pos

/-- Read up to `count` bytes. Fewer than `count` sets the fail state. -/
def read (stream : FileStream) (count : Nat) : Bytes × FileStream :=
  if stream.failed then ([], stream)
  else
    let data := stream.rest.take count
    (data, { stream with pos := stream.pos + data.length, failed := decide (data.length < count) })

/-- A stream further on in its file. -/
def advance (stream : FileStream) (count : Nat) : FileStream :=
  { stream with pos := stream.pos + count }

/-! ## Basic laws -/

section Laws

variable {stream : FileStream}

@[simp] theorem advance_file (count : Nat) : (stream.advance count).file = stream.file := rfl

@[simp] theorem advance_pos (count : Nat) : (stream.advance count).pos = stream.pos + count := rfl

@[simp] theorem advance_failed (count : Nat) : (stream.advance count).failed = stream.failed := rfl

@[simp] theorem advance_zero : stream.advance 0 = stream := rfl

@[simp] theorem advance_advance (first second : Nat) :
    (stream.advance first).advance second = stream.advance (first + second) := by
  simp [advance, Nat.add_assoc]

@[simp] theorem rest_advance (count : Nat) : (stream.advance count).rest = stream.rest.drop count := by
  simp [rest]

@[simp] theorem seekg_file (target : Int) : (stream.seekg target).file = stream.file := by
  unfold seekg
  split
  · rfl
  · split <;> rfl

@[simp] theorem seekCur_file (offset : Int) : (stream.seekCur offset).file = stream.file :=
  seekg_file _

@[simp] theorem read_file (count : Nat) : (stream.read count).2.file = stream.file := by
  unfold read
  split <;> rfl

/-- A stream at a position inside the range of offsets. -/
theorem seekg_nat (hok : stream.failed = false) {target : Nat} (htarget : target < 2 ^ 63) :
    stream.seekg target = { stream with pos := target } := by
  unfold seekg streamoffMax
  rw [if_neg (by simp [hok]), if_pos (by omega)]
  simp

theorem seekCur_nat (hok : stream.failed = false) {offset : Nat}
    (htarget : stream.pos + offset < 2 ^ 63) :
    stream.seekCur offset = stream.advance offset := by
  have hsum : ((stream.pos : Int) + (offset : Int)) = ((stream.pos + offset : Nat) : Int) := by
    omega
  rw [seekCur, hsum, seekg_nat hok htarget, advance]

/-- A seek that succeeds has moved a good stream. -/
theorem seekCur_good {offset : Nat} (hgood : (stream.seekCur offset).failed = false) :
    stream.failed = false ∧ stream.pos + offset < 2 ^ 63 ∧
      stream.seekCur offset = stream.advance offset := by
  unfold seekCur seekg at hgood
  split at hgood
  next hfailed => exact absurd hgood (by simp [hfailed])
  next hok =>
    have hok : stream.failed = false := by simpa using hok
    split at hgood
    next hrange =>
      have htarget : stream.pos + offset < 2 ^ 63 := by
        have hmax := hrange.2
        simp only [streamoffMax] at hmax
        omega
      exact ⟨hok, htarget, seekCur_nat hok htarget⟩
    next => simp at hgood

theorem toStreamoff_of_lt {n : Nat} (hn : n < 2 ^ 63) : toStreamoff n = n := by
  unfold toStreamoff
  rw [Int.bmod_eq_of_le_mul_two] <;> omega

@[simp] theorem length_rest : stream.rest.length = stream.file.bytes.length - stream.pos := by
  simp [rest]

/-- A read that finds all the bytes it wants leaves a good stream behind it. -/
theorem read_of_le (hok : stream.failed = false) {count : Nat}
    (hcount : count ≤ stream.rest.length) :
    stream.read count = (stream.rest.take count, stream.advance count) := by
  have hlen : (stream.rest.take count).length = count := List.length_take_of_le hcount
  unfold read
  rw [if_neg (by simp [hok])]
  simp [hlen, hok, advance]

/-- What a read that was served in full says about the stream. -/
theorem read_full {count : Nat} (hpos : 0 < count) (hlen : (stream.read count).1.length = count) :
    stream.failed = false ∧ count ≤ stream.rest.length := by
  cases hfailed : stream.failed with
  | true =>
      simp only [read, hfailed, ↓reduceIte, List.length_nil] at hlen
      omega
  | false =>
      simp only [read, hfailed, Bool.false_eq_true, ↓reduceIte, List.length_take] at hlen
      exact ⟨rfl, by omega⟩

/-- Why a read comes up short. -/
theorem read_short {count : Nat} (hlen : (stream.read count).1.length ≠ count) :
    stream.failed = true ∨ stream.rest.length < count := by
  by_contra hgood
  obtain ⟨hok, hcount⟩ := not_or.mp hgood
  rw [read_of_le (by simpa using hok) (Nat.not_lt.mp hcount)] at hlen
  exact hlen (List.length_take_of_le (Nat.not_lt.mp hcount))

/-- A read moves by what it delivers. -/
theorem read_pos (count : Nat) :
    (stream.read count).2.pos = stream.pos + (stream.read count).1.length := by
  unfold read
  split <;> simp

theorem length_read_le_rest (count : Nat) :
    (stream.read count).1.length ≤ stream.rest.length := by
  unfold read
  split
  · exact Nat.zero_le _
  · exact List.length_take_le' _ _

/-- A read never delivers more than was asked for. -/
theorem length_read_le (count : Nat) : (stream.read count).1.length ≤ count := by
  unfold read
  split
  · simp
  · simp only [List.length_take]
    omega

/-- Going back in the same file. -/
theorem clear_seekg_pos {target : FileStream} (hok : target.failed = false)
    (hfile : stream.file = target.file) (hgood : (stream.clear.seekg target.pos).failed = false) :
    stream.clear.seekg target.pos = target := by
  obtain ⟨file, pos, failed⟩ := target
  obtain rfl : stream.file = file := hfile
  obtain rfl : failed = false := hok
  unfold seekg at hgood ⊢
  simp only [clear, Bool.false_eq_true, ↓reduceIte] at hgood ⊢
  split at hgood
  next hrange => rw [if_pos hrange, Int.toNat_natCast]
  next => simp at hgood

/-- A stream that has failed only because it met the end of its file. -/
def Sound (stream : FileStream) : Prop := stream.failed = true → stream.rest = []

theorem sound_of_good (hok : stream.failed = false) : stream.Sound := by
  intro hfailed
  simp [hok] at hfailed

/-- Reads take what is left of a sound stream bit by bit. -/
theorem Sound.read (h : stream.Sound) (count : Nat) :
    (stream.read count).1 = stream.rest.take count ∧
      (stream.read count).2.rest = stream.rest.drop count ∧ (stream.read count).2.Sound := by
  unfold FileStream.read
  split
  next hfailed => simp [h hfailed, h]
  next =>
    have hrest : (stream.advance (stream.rest.take count).length).rest = stream.rest.drop count := by
      rw [rest_advance, List.length_take]
      rcases Nat.le_total count stream.rest.length with hle | hle
      · rw [Nat.min_eq_left hle]
      · rw [Nat.min_eq_right hle, List.drop_eq_nil_of_le hle, List.drop_length]
    refine ⟨rfl, hrest, fun hshort => ?_⟩
    have hlen : stream.rest.length ≤ count := by
      have hless : (stream.rest.take count).length < count := of_decide_eq_true hshort
      rw [List.length_take] at hless
      omega
    exact hrest.trans (List.drop_eq_nil_of_le hlen)

/-- A read that is only made where there is something to read. -/
theorem read_if_full {count : Nat}
    (hlen : (if 0 < count then stream.read count else ([], stream)).1.length = count) :
    count ≤ stream.rest.length ∧
      (if 0 < count then stream.read count else ([], stream)) =
        (stream.rest.take count, stream.advance count) := by
  split at hlen
  next hpos =>
    obtain ⟨hok, hcount⟩ := read_full hpos hlen
    exact ⟨hcount, by rw [if_pos hpos, read_of_le hok hcount]⟩
  next hzero =>
    obtain rfl : count = 0 := by omega
    exact ⟨Nat.zero_le _, by simp⟩

theorem read_if_of_le (hok : stream.failed = false) {count : Nat}
    (hcount : count ≤ stream.rest.length) :
    (if 0 < count then stream.read count else ([], stream)) =
      (stream.rest.take count, stream.advance count) := by
  split
  next => exact read_of_le hok hcount
  next hzero =>
    obtain rfl : count = 0 := by omega
    simp

theorem read_if_short {count : Nat}
    (hlen : (if 0 < count then stream.read count else ([], stream)).1.length ≠ count) :
    stream.failed = true ∨ stream.rest.length < count := by
  split at hlen
  next => exact read_short hlen
  next hzero => exact absurd (by simp; omega) hlen

end Laws

end FileStream

end Odin4
