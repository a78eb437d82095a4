import Mathlib.Data.Set.Function
import Mathlib.Order.Interval.Set.LinearOrder
import Odin4.Foundation.FileStream

/-!
# Windows of files

A stream in one file behaves like a stream in another file as long as it reads
where the two have the same bytes: at the same position, or at positions that
all are shifted by the same distance.
-/

namespace Odin4

/-- Two files have the same bytes in a window. -/
def AgreeOn (window : Set Nat) (file file' : FileContent) : Prop :=
  Set.EqOn (file.bytes[·]?) (file'.bytes[·]?) window

/-- The bytes of a window stand `shift` positions further on in another file. -/
def AgreeAlong (shift : Nat) (window : Set Nat) (file file' : FileContent) : Prop :=
  Set.EqOn (file.bytes[·]?) (file'.bytes[· + shift]?) window

theorem AgreeAlong.mono {shift : Nat} {window wider : Set Nat} {file file' : FileContent}
    (h : AgreeAlong shift wider file file') (hle : window ⊆ wider) :
    AgreeAlong shift window file file' :=
  Set.EqOn.mono hle h

/-- Positions up to `upper` stay in the range of offsets when they are shifted. -/
def Room (shift upper : Nat) : Prop := shift = 0 ∨ upper + shift < 2 ^ 63

theorem room_zero (upper : Nat) : Room 0 upper := .inl rfl

theorem Room.lt {shift upper pos : Nat} (h : Room shift upper) (hle : pos ≤ upper)
    (hpos : pos < 2 ^ 63) : pos + shift < 2 ^ 63 := by
  rcases h with rfl | hroom
  · exact hpos
  · omega

theorem AgreeOn.mono {window wider : Set Nat} {file file' : FileContent}
    (h : AgreeOn wider file file') (hle : window ⊆ wider) : AgreeOn window file file' :=
  Set.EqOn.mono hle h

/-- Files with a common front have the same bytes in it. -/
theorem agreeOn_take {file file' : FileContent} {count : Nat}
    (h : file.bytes.take count = file'.bytes.take count) : AgreeOn (Set.Iio count) file file' := by
  intro i hi
  have hi : i < count := hi
  dsimp only
  rw [← List.getElem?_take_of_lt hi, h, List.getElem?_take_of_lt hi]

namespace FileStream

/-- The stream in another file. -/
def on (stream : FileStream) (file : FileContent) : FileStream := { stream with file }

/-- The next `count` bytes of a stream. -/
def ahead (stream : FileStream) (count : Nat) : Set Nat := Set.Ico stream.pos (stream.pos + count)

variable {stream : FileStream} {file : FileContent}

@[simp] theorem on_file : (stream.on file).file = file := rfl

@[simp] theorem on_pos : (stream.on file).pos = stream.pos := rfl

@[simp] theorem on_failed : (stream.on file).failed = stream.failed := rfl

@[simp] theorem on_tellg : (stream.on file).tellg = stream.tellg := rfl

@[simp] theorem on_clear : (stream.on file).clear = stream.clear.on file := rfl

@[simp] theorem on_seekg (target : Int) :
    (stream.on file).seekg target = (stream.seekg target).on file := by
  by_cases hfailed : stream.failed = true
  · simp only [seekg, on_failed, hfailed, ↓reduceIte]
  · by_cases hrange : 0 ≤ target ∧ target ≤ streamoffMax
    · simp only [seekg, on_failed, hfailed, hrange]
      rfl
    · simp only [seekg, on_failed, hfailed, hrange, ↓reduceIte]
      rfl

@[simp] theorem on_seekCur (offset : Int) :
    (stream.on file).seekCur offset = (stream.seekCur offset).on file := on_seekg _

theorem ahead_mono {first second : Nat} (hle : first ≤ second) :
    stream.ahead first ⊆ stream.ahead second :=
  Set.Ico_subset_Ico_right (Nat.add_le_add_left hle _)

/-- What lies ahead behind a read was ahead before it. -/
theorem ahead_read {count left total : Nat} (hle : count + left ≤ total) :
    (stream.read count).2.ahead left ⊆ stream.ahead total := by
  have hlength := stream.length_read_le count
  simp only [ahead, read_pos]
  exact Set.Ico_subset_Ico (Nat.le_add_right _ _) (by omega)

/-- A shifted stream reads the same bytes, and nothing but the bytes ahead. -/
theorem read_over (shift : Nat) {count : Nat}
    (h : AgreeAlong shift (stream.ahead count) stream.file file) :
    ((stream.advance shift).on file).read count =
      ((stream.read count).1, ((stream.read count).2.advance shift).on file) := by
  have hdata : ((stream.advance shift).on file).rest.take count = stream.rest.take count := by
    apply List.ext_getElem?
    intro i
    simp only [rest, on_file, on_pos, advance_pos, List.getElem?_take, List.getElem?_drop]
    by_cases hi : i < count
    · have hagree := h ⟨Nat.le_add_right stream.pos i, Nat.add_lt_add_left hi _⟩
      rw [if_pos hi, if_pos hi, Nat.add_right_comm]
      exact hagree.symm
    · rw [if_neg hi, if_neg hi]
  unfold read
  rw [on_failed, advance_failed]
  split
  next => rfl
  next =>
    rw [hdata, on, on, advance, advance]
    dsimp only
    rw [Nat.add_right_comm]

/-- A read that is only made where there is something to read. -/
theorem read_if_over (shift : Nat) {count : Nat}
    (h : AgreeAlong shift (stream.ahead count) stream.file file) :
    (if 0 < count then ((stream.advance shift).on file).read count
        else ([], (stream.advance shift).on file)) =
      Prod.map id (fun behind => (behind.advance shift).on file)
        (if 0 < count then stream.read count else ([], stream)) := by
  split
  next => exact read_over shift h
  next => rfl

/-- A read in another file with the same bytes at the same place. -/
theorem read_on {count : Nat} (h : AgreeOn (stream.ahead count) stream.file file) :
    (stream.on file).read count = ((stream.read count).1, (stream.read count).2.on file) :=
  read_over 0 h

/-! ## Seeking in a shifted stream -/

section Seeks

variable {shift : Nat}

theorem advance_tellg : (stream.advance shift).tellg = stream.tellg.map (· + shift) := by
  unfold tellg
  rw [advance_failed]
  split <;> rfl

theorem advance_clear : (stream.advance shift).clear = stream.clear.advance shift := rfl

/-- Shifted targets are met by shifted streams. -/
theorem advance_seekg {target : Nat} (hroom : target < 2 ^ 63 → target + shift < 2 ^ 63) :
    (stream.advance shift).seekg (target + shift : Nat) =
      (stream.seekg target).advance shift := by
  cases hfailed : stream.failed with
  | true => simp [seekg, hfailed]
  | false =>
      have hgood : (stream.advance shift).failed = false := hfailed
      by_cases htarget : target < 2 ^ 63
      · rw [seekg_nat hgood (hroom htarget), seekg_nat hfailed htarget]
        rfl
      · have hbeyond : ¬ ((0 : Int) ≤ target ∧ (target : Int) ≤ streamoffMax) := by
          simp only [streamoffMax]
          omega
        have hbeyond' : ¬ ((0 : Int) ≤ (target + shift : Nat) ∧
            ((target + shift : Nat) : Int) ≤ streamoffMax) := by
          simp only [streamoffMax]
          omega
        rw [seekg, if_neg (by simp [hfailed]), if_neg hbeyond', seekg, if_neg (by simp [hfailed]),
          if_neg hbeyond]
        rfl

/-- To go back in a shifted stream is to go back further on. -/
theorem rewind_over {start upper : Nat} (hroom : Room shift upper) (hstart : start ≤ upper) :
    ((stream.advance shift).on file).clear.seekg (start + shift : Nat) =
      ((stream.clear.seekg start).advance shift).on file := by
  rw [on_clear, on_seekg, advance_clear, advance_seekg (hroom.lt hstart)]

theorem advance_seekCur {offset : Nat} (hroom : stream.failed = false →
    stream.pos + offset < 2 ^ 63 → stream.pos + offset + shift < 2 ^ 63) :
    (stream.advance shift).seekCur offset = (stream.seekCur offset).advance shift := by
  cases hfailed : stream.failed with
  | true => simp [seekCur, seekg, hfailed]
  | false =>
      have htarget : ((stream.advance shift).pos : Int) + (offset : Int) =
          ((stream.pos + offset + shift : Nat) : Int) := by
        rw [advance_pos]
        omega
      have hsame : (stream.pos : Int) + (offset : Int) = ((stream.pos + offset : Nat) : Int) := by
        omega
      rw [seekCur, htarget, advance_seekg (hroom hfailed), seekCur, hsame]

/-- A skip to a place that is not beyond `upper`. -/
theorem advance_seekOff {offset upper : Nat} (hroom : Room shift upper)
    (hupper : stream.failed = false → stream.pos + offset ≤ upper)
    (hoffset : ¬ streamoffMax < offset) :
    (stream.advance shift).seekCur (toStreamoff offset) =
      (stream.seekCur (toStreamoff offset)).advance shift := by
  simp only [streamoffMax] at hoffset
  rw [toStreamoff_of_lt (by omega)]
  apply advance_seekCur
  intro hgood htarget
  exact hroom.lt (hupper hgood) htarget

theorem seekg_pos {target : Nat} (hgood : (stream.seekg target).failed = false) :
    (stream.seekg target).pos = target := by
  unfold seekg at hgood ⊢
  split at hgood
  next hfailed => simp [hfailed] at hgood
  next hok =>
    split at hgood
    next hrange => simp [hok, hrange]
    next => simp at hgood

end Seeks

end FileStream

end Odin4
