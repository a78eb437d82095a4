import Mathlib.Data.List.TakeWhile
import Mathlib.Data.Nat.Digits.Defs
import Odin4.Archive.ProcessTar

/-!
# PAX records

A PAX body is a sequence of records, each with its own length in front. The
reader does not use the lengths: it cuts the body at newlines and takes the last
line that looks like a path record.
-/

namespace Odin4

/-! ## The format -/

/-- A number in decimal digits. -/
def decimalDigits (n : Nat) : Bytes := ((Nat.digits 10 n).map fun d => UInt8.ofNat (48 + d)).reverse

/-- A record `<length> <key>=<value>` with a newline behind it. The length counts
the whole record. -/
structure PaxRecord where
  length : Nat
  key : Bytes
  value : Bytes
  key_plain : 61 ∉ key ∧ 10 ∉ key
  length_eq : length = (decimalDigits length).length + key.length + value.length + 3

namespace PaxRecord

variable (record : PaxRecord)

/-- What stands in front of the value. -/
def front : Bytes := decimalDigits record.length ++ [32] ++ record.key ++ [61]

def bytes : Bytes := record.front ++ record.value ++ [10]

theorem length_bytes : record.bytes.length = record.length := by
  have hlength := record.length_eq
  simp only [bytes, front, List.length_append, List.length_singleton]
  omega

/-- The record gives a path. -/
def IsPath : Prop := record.key = ascii "path"

instance : Decidable record.IsPath := inferInstanceAs (Decidable (record.key = ascii "path"))

end PaxRecord

def paxBody (records : List PaxRecord) : Bytes := records.flatMap PaxRecord.bytes

/-- Behind a newline the text goes on like a path record, whatever the number. -/
def HidesPath (text : Bytes) : Prop :=
  ∃ front number rest, text = front ++ [10] ++ number ++ ascii " path=" ++ rest ∧
    32 ∉ number ∧ 10 ∉ number

theorem HidesPath.behind {text : Bytes} (h : HidesPath text) (front : Bytes) :
    HidesPath (front ++ text) := by
  obtain ⟨before, number, rest, rfl, hnumber⟩ := h
  exact ⟨front ++ before, number, rest, by simp, hnumber⟩

theorem HidesPath.newline {text : Bytes} (h : HidesPath text) : 10 ∈ text := by
  obtain ⟨front, number, rest, rfl, -⟩ := h
  simp

theorem decimalDigits_plain (n : Nat) : ∀ c ∈ decimalDigits n, c ≠ 32 ∧ c ≠ 10 := by
  intro c hc
  obtain ⟨d, hd, rfl⟩ := List.mem_map.mp (List.mem_reverse.mp hc)
  have hdigits : ∀ d < 10, UInt8.ofNat (48 + d) ≠ 32 ∧ UInt8.ofNat (48 + d) ≠ 10 := by decide
  exact hdigits d (Nat.digits_lt_base (by decide) hd)

/-! ## One line -/

section Lines

variable {line : Bytes} {path : Bytes}

theorem dropWhile_ne {c : UInt8} {front rest : Bytes} (h : c ∉ front) :
    (front ++ c :: rest).dropWhile (· != c) = c :: rest := by
  rw [List.dropWhile_append_of_pos (by
    intro b hb
    simpa using fun heq : b = c => h (heq ▸ hb))]
  simp

theorem takeWhile_ne {c : UInt8} {front rest : Bytes} (h : c ∉ front) :
    (front ++ c :: rest).takeWhile (· != c) = front := by
  rw [List.takeWhile_append_of_pos (by
    intro b hb
    simpa using fun heq : b = c => h (heq ▸ hb))]
  simp

theorem takeWhile_ne_of_notMem {c : UInt8} {text : Bytes} (h : c ∉ text) :
    text.takeWhile (· != c) = text ∧ text.dropWhile (· != c) = [] := by
  have hall : ∀ b ∈ text, (b != c) = true := by
    intro b hb
    simpa using fun heq : b = c => h (heq ▸ hb)
  exact ⟨List.takeWhile_eq_self_iff.mpr hall, List.dropWhile_eq_nil_iff.mpr hall⟩

/-- The first line of a record. -/
theorem paxLine_record {number key value : Bytes} (hnumber : 32 ∉ number) (hkey : 61 ∉ key) :
    paxLine (number ++ [32] ++ key ++ [61] ++ value) path =
      if key = ascii "path" then sanitizeTarName value else path := by
  have hline : number ++ [32] ++ key ++ [61] ++ value = number ++ 32 :: (key ++ 61 :: value) := by
    simp
  unfold paxLine
  rw [hline, dropWhile_ne hnumber]
  dsimp only
  rw [dropWhile_ne hkey, takeWhile_ne hkey]

/-- Any other line changes nothing. -/
theorem paxLine_other (h : ∀ number rest, line = number ++ ascii " path=" ++ rest → 32 ∈ number) :
    paxLine line path = path := by
  by_cases hblank : (32 : UInt8) ∈ line
  · obtain ⟨number, kv, rfl, hnumber⟩ := List.eq_append_cons_of_mem hblank
    unfold paxLine
    rw [dropWhile_ne hnumber]
    dsimp only
    by_cases hequals : (61 : UInt8) ∈ kv
    · obtain ⟨key, value, rfl, hkey⟩ := List.eq_append_cons_of_mem hequals
      rw [dropWhile_ne hkey, takeWhile_ne hkey]
      dsimp only
      split
      next hpath =>
        refine absurd (h number value ?_) hnumber
        rw [hpath]
        simp [ascii]
      next => rfl
    · rw [(takeWhile_ne_of_notMem hequals).2]
  · unfold paxLine
    rw [(takeWhile_ne_of_notMem hblank).2]

end Lines

/-! ## Bodies -/

section Bodies

variable {text rest path : Bytes}

theorem paxPath_nil (path : Bytes) : paxPath [] path = path := by
  rw [paxPath]
  rfl

theorem paxPath_line (h : 10 ∉ text) : paxPath text path = paxLine text path := by
  rw [paxPath]
  split
  next hnil =>
    subst hnil
    rfl
  next =>
    obtain ⟨htake, hdrop⟩ := takeWhile_ne_of_notMem h
    rw [htake]
    split
    next => rfl
    next heq => simp [hdrop] at heq

theorem paxPath_cons {line : Bytes} (h : 10 ∉ line) (rest path : Bytes) :
    paxPath (line ++ 10 :: rest) path = paxPath rest (paxLine line path) := by
  rw [paxPath, dif_neg (by simp), takeWhile_ne h]
  dsimp only
  split
  next heq => simp [dropWhile_ne h] at heq
  next heq =>
    rw [dropWhile_ne h] at heq
    obtain ⟨-, rfl⟩ := List.cons.inj heq
    rfl

/-- A text is one line, or a line in front of a shorter text. -/
theorem lines_induction {motive : Bytes → Prop} (line : ∀ line, 10 ∉ line → motive line)
    (cons : ∀ line rest, 10 ∉ line → motive rest → motive (line ++ 10 :: rest)) (text : Bytes) :
    motive text := by
  induction hlength : text.length using Nat.strong_induction_on generalizing text with
  | _ length ih =>
      by_cases hnewline : (10 : UInt8) ∈ text
      · obtain ⟨front, rest, rfl, hfront⟩ := List.eq_append_cons_of_mem hnewline
        refine cons front rest hfront (ih rest.length ?_ rest rfl)
        rw [← hlength, List.length_append, List.length_cons]
        omega
      · exact line text hnewline

/-- What stands in front of a newline is read first. -/
theorem paxPath_append (text rest path : Bytes) :
    paxPath (text ++ 10 :: rest) path = paxPath rest (paxPath text path) := by
  induction text using lines_induction generalizing path with
  | line line hline => rw [paxPath_cons hline, paxPath_line hline]
  | cons line text hline ih =>
      rw [List.append_assoc, List.cons_append, paxPath_cons hline, ih, paxPath_cons hline]

/-- A text in which no line reads like a path record. -/
theorem paxPath_other (h : ¬ HidesPath (10 :: text)) : paxPath text path = path := by
  have hfirst : ∀ {line rest : Bytes}, 10 ∉ line → ¬ HidesPath (10 :: (line ++ rest)) →
      paxLine line path = path := by
    intro line rest hline h
    refine paxLine_other fun number value heq => ?_
    by_contra hnumber
    refine h ⟨[], number, value ++ rest, by simp [heq], hnumber, fun hmem => hline ?_⟩
    rw [heq]
    simp [hmem]
  induction text using lines_induction with
  | line line hline =>
      rw [paxPath_line hline]
      rw [← List.append_nil line] at h
      exact hfirst hline h
  | cons line rest hline ih =>
      rw [paxPath_cons hline, hfirst hline h]
      exact ih fun hrest => h (by simpa using hrest.behind (10 :: line))

end Bodies

/-! ## Records -/

section Records

variable {record : PaxRecord} {records before after : List PaxRecord} {path : Bytes}

theorem PaxRecord.front_line (record : PaxRecord) (value : Bytes) (h : 10 ∉ value) :
    10 ∉ record.front ++ value := by
  have hdigits := decimalDigits_plain record.length
  intro hmem
  simp only [PaxRecord.front, List.mem_append, List.mem_singleton] at hmem
  obtain (((hmem | hmem) | hmem) | hmem) | hmem := hmem
  · exact (hdigits 10 hmem).2 rfl
  · cases hmem
  · exact record.key_plain.2 hmem
  · cases hmem
  · exact h hmem

theorem PaxRecord.paxLine_front (record : PaxRecord) (value path : Bytes) :
    paxLine (record.front ++ value) path =
      if record.IsPath then sanitizeTarName value else path :=
  paxLine_record (fun hmem => (decimalDigits_plain record.length 32 hmem).1 rfl)
    record.key_plain.1

/-- A path on one line is taken. -/
theorem PaxRecord.IsPath.taken (hpath : record.IsPath) (hline : 10 ∉ record.value) :
    paxPath (record.front ++ record.value) path = sanitizeTarName record.value := by
  rw [paxPath_line (record.front_line _ hline), record.paxLine_front, if_pos hpath]

/-- A record with another key changes nothing unless it hides a path. -/
theorem PaxRecord.passed (hother : ¬ record.IsPath) (hplain : ¬ HidesPath record.value) :
    paxPath (record.front ++ record.value) path = path := by
  by_cases hnewline : (10 : UInt8) ∈ record.value
  · obtain ⟨line, rest, hvalue, hline⟩ := List.eq_append_cons_of_mem hnewline
    rw [hvalue, ← List.append_assoc, paxPath_cons (record.front_line _ hline),
      record.paxLine_front, if_neg hother]
    apply paxPath_other
    intro hrest
    apply hplain
    rw [hvalue]
    exact hrest.behind line
  · rw [paxPath_line (record.front_line _ hnewline), record.paxLine_front, if_neg hother]

theorem paxPath_records (records : List PaxRecord) (rest path : Bytes) :
    paxPath (paxBody records ++ rest) path =
      paxPath rest (records.foldl (fun path record => paxPath (record.front ++ record.value) path)
        path) := by
  induction records generalizing path with
  | nil => rfl
  | cons record records ih =>
      have hbody : paxBody (record :: records) ++ rest =
          record.front ++ record.value ++ 10 :: (paxBody records ++ rest) := by
        simp [paxBody, PaxRecord.bytes]
      rw [hbody, paxPath_append, ih]
      rfl

/-- Records that give no path. -/
theorem paxPath_passed
    (h : ∀ record ∈ records, ¬ record.IsPath ∧ ¬ HidesPath record.value) :
    paxPath (paxBody records) path = path := by
  rw [← List.append_nil (paxBody records), paxPath_records, paxPath_nil]
  induction records generalizing path with
  | nil => rfl
  | cons record records ih =>
      obtain ⟨⟨hother, hplain⟩, hrest⟩ := List.forall_mem_cons.mp h
      rw [List.foldl_cons, PaxRecord.passed hother hplain]
      exact ih hrest

/-- The last path of a body. -/
theorem paxPath_last (hpath : record.IsPath) (hline : 10 ∉ record.value)
    (hafter : ∀ later ∈ after, ¬ later.IsPath ∧ ¬ HidesPath later.value) :
    paxPath (paxBody (before ++ record :: after)) path = sanitizeTarName record.value := by
  have hbody : paxBody (before ++ record :: after) =
      paxBody (before ++ [record]) ++ paxBody after := by
    simp [paxBody]
  rw [hbody, paxPath_records, paxPath_passed hafter, List.foldl_append, List.foldl_cons,
    List.foldl_nil, hpath.taken hline]

end Records

end Odin4
