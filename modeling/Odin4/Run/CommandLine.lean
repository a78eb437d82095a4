import Mathlib.Data.List.TakeWhile
import Odin4.Foundation.Numeral
import Odin4.Interaction.LabelledSteps
import Odin4.OdinTypes

/-!
# The command line

The arguments are read from left to right. A command line is a sequence of
options, each of which changes the settings, up to its end or up to an option
that ends it.
-/

namespace Odin4

open Interaction

/-! ## Numbers -/

/-- Whether there is a minus sign, and the text behind the sign. -/
def splitSign (text : Bytes) : Bool × Bytes :=
  if text.head? = some 45 then (true, text.tail)
  else if text.head? = some 43 then (false, text.tail)
  else (false, text)

/-- The number in base ten at the front of a text behind blanks and a sign, and how
many characters it takes. Numbers must fit into 32 bits. -/
def stoi (s : Bytes) : Option (Int × Nat) :=
  let signed := splitSign (s.dropWhile isSpace)
  let digits := signed.2.takeWhile (isDigit 10)
  let value : Int :=
    if signed.1 then -(numeralValue 10 digits : Int) else numeralValue 10 digits
  if digits.isEmpty then none
  else if value < -2147483648 ∨ 2147483647 < value then none
  else some (value, s.length - (signed.2.length - digits.length))

def parseInt (s : Bytes) : Option Int :=
  match stoi s with
  | none => none
  | some (v, idx) => if idx ≠ s.length then none else some v

/-- Up to four hexadecimal digits with or without a mark in front. -/
def parseHexU16 (s : Bytes) : Option UInt16 :=
  let v := if s.take 2 = ascii "0x" ∨ s.take 2 = ascii "0X" then s.drop 2 else s
  if v.isEmpty || decide (4 < v.length) then none
  else if !v.all (isDigit 16) then none
  else some (UInt16.ofNat (numeralValue 16 v))

/-- Blanks, a sign or none, and digits. -/
def IntNumeral (s : Bytes) (value : Int) : Prop :=
  ∃ blanks sign digits, s = blanks ++ (sign ++ digits) ∧ blanks.all isSpace = true ∧
    digits ≠ [] ∧ digits.all (isDigit 10) = true ∧
    (sign = [45] ∧ value = -(numeralValue 10 digits : Int) ∨
      (sign = [] ∨ sign = [43]) ∧ value = numeralValue 10 digits)

/-- A mark or none, and one to four digits. -/
def HexNumeral (s : Bytes) (value : UInt16) : Prop :=
  ∃ mark digits, s = mark ++ digits ∧ (mark = [] ∨ mark = ascii "0x" ∨ mark = ascii "0X") ∧
    0 < digits.length ∧ digits.length ≤ 4 ∧ digits.all (isDigit 16) = true ∧
    value.toNat = numeralValue 16 digits

theorem hexDigits_iff {digits : Bytes} {value : UInt16} :
    (if digits.isEmpty || decide (4 < digits.length) then none
      else if !digits.all (isDigit 16) then none
      else some (UInt16.ofNat (numeralValue 16 digits))) = some value ↔
    0 < digits.length ∧ digits.length ≤ 4 ∧ digits.all (isDigit 16) = true ∧
      value.toNat = numeralValue 16 digits := by
  cases hall : digits.all (isDigit 16) with
  | false => simp
  | true =>
      by_cases hlength : digits.length ≤ 4
      · have hlt : numeralValue 16 digits < 2 ^ 16 :=
          calc numeralValue 16 digits < 16 ^ digits.length := numeralValue_lt hall
            _ ≤ 16 ^ 4 := Nat.pow_le_pow_right (by decide) hlength
        have hvalue : UInt16.ofNat (numeralValue 16 digits) = value ↔
            value.toNat = numeralValue 16 digits := by
          rw [← UInt16.toNat_inj, UInt16.toNat_ofNat_of_lt' hlt, eq_comm]
        cases digits with
        | nil => simp
        | cons c rest => simp [hvalue]
      · simp [hlength, Nat.lt_of_not_le hlength]

theorem parseHexU16_iff {s : Bytes} {value : UInt16} :
    parseHexU16 s = some value ↔ HexNumeral s value := by
  unfold parseHexU16
  dsimp only
  rw [hexDigits_iff]
  split
  next hmark =>
    constructor
    · intro hdigits
      exact ⟨s.take 2, s.drop 2, (List.take_append_drop 2 s).symm, .inr hmark, hdigits⟩
    · rintro ⟨mark, digits, rfl, rfl | rfl | rfl, hdigits⟩
      · -- The second character of a mark is no digit.
        exfalso
        obtain ⟨-, -, hall, -⟩ := hdigits
        rw [List.nil_append] at hmark
        have htaken := List.all_eq_true.mp hall
        rcases hmark with hmark | hmark
        · have hmem : (120 : UInt8) ∈ digits := List.mem_of_mem_take (by rw [hmark]; decide)
          exact absurd (htaken 120 hmem) (by decide)
        · have hmem : (88 : UInt8) ∈ digits := List.mem_of_mem_take (by rw [hmark]; decide)
          exact absurd (htaken 88 hmem) (by decide)
      · exact hdigits
      · exact hdigits
  next hmark =>
    constructor
    · intro hdigits
      exact ⟨[], s, rfl, .inl rfl, hdigits⟩
    · rintro ⟨mark, digits, rfl, rfl | rfl | rfl, hdigits⟩
      · exact hdigits
      · exact absurd (.inl rfl) hmark
      · exact absurd (.inr rfl) hmark

theorem isDigit_ten {c : UInt8} (h : isDigit 10 c = true) : 48 ≤ c ∧ c ≤ 57 := by
  have hvalue : digitValue c < 10 := of_decide_eq_true h
  unfold digitValue at hvalue
  simp only [UInt8.le_iff_toNat_le] at hvalue ⊢
  have hnine : (57 : UInt8).toNat = 57 := rfl
  have hupper : (65 : UInt8).toNat = 65 := rfl
  have hlower : (97 : UInt8).toNat = 97 := rfl
  split at hvalue
  · assumption
  · split at hvalue
    · omega
    · split at hvalue <;> omega

/-- No sign or blank is a digit. -/
theorem isDigit_ne {c d : UInt8} (h : isDigit 10 c = true) (hd : d < 48) : c ≠ d := by
  rintro rfl
  exact absurd (isDigit_ten h).1 (UInt8.not_le.mpr hd)

theorem isSpace_digit {c : UInt8} (h : isDigit 10 c = true) : isSpace c = false := by
  have hlow := (isDigit_ten h).1
  rw [isSpace, Bool.or_eq_false_iff, beq_eq_false_iff_ne, Bool.and_eq_false_iff]
  refine ⟨isDigit_ne h (by decide), .inr (decide_eq_false ?_)⟩
  exact UInt8.not_le.mpr (UInt8.lt_of_lt_of_le (by decide) hlow)

theorem splitSign_sound (text : Bytes) :
    ∃ sign, text = sign ++ (splitSign text).2 ∧
      (sign = [45] ∧ (splitSign text).1 = true ∨
        (sign = [] ∨ sign = [43]) ∧ (splitSign text).1 = false) := by
  unfold splitSign
  cases text with
  | nil => exact ⟨[], rfl, .inr ⟨.inl rfl, rfl⟩⟩
  | cons c rest =>
      by_cases hminus : c = 45
      · exact ⟨[45], by simp [hminus], .inl (by simp [hminus])⟩
      · by_cases hplus : c = 43
        · exact ⟨[43], by simp [hplus], .inr (by simp [hplus])⟩
        · exact ⟨[], by simp [hminus, hplus], .inr (by simp [hminus, hplus])⟩

theorem splitSign_digits {sign digits : Bytes} (hdigits : digits.all (isDigit 10) = true)
    (hsign : sign = [] ∨ sign = [43] ∨ sign = [45]) :
    splitSign (sign ++ digits) = (sign == [45], digits) := by
  rcases hsign with rfl | rfl | rfl
  · cases digits with
    | nil => rfl
    | cons c rest =>
        rw [List.all_cons, Bool.and_eq_true] at hdigits
        have hminus := isDigit_ne hdigits.1 (show (45 : UInt8) < 48 by decide)
        have hplus := isDigit_ne hdigits.1 (show (43 : UInt8) < 48 by decide)
        simp [splitSign, hminus, hplus]
  · rfl
  · rfl

theorem stoi_eq_some {s : Bytes} {value : Int} {idx : Nat} (h : stoi s = some (value, idx)) :
    ∃ blanks sign digits rest, s = blanks ++ (sign ++ (digits ++ rest)) ∧
      idx = s.length - rest.length ∧ IntNumeral (blanks ++ (sign ++ digits)) value ∧
      -2147483648 ≤ value ∧ value ≤ 2147483647 := by
  unfold stoi at h
  dsimp only at h
  obtain ⟨sign, hsigned, hsign⟩ := splitSign_sound (s.dropWhile isSpace)
  generalize splitSign (s.dropWhile isSpace) = signed at h hsigned hsign
  obtain ⟨hdigits, h⟩ := Option.ite_none_left_eq_some.mp h
  obtain ⟨hrange, h⟩ := Option.ite_none_left_eq_some.mp h
  obtain ⟨hvalue, hidx⟩ := Prod.mk.inj (Option.some.inj h)
  have htext : signed.2 = signed.2.takeWhile (isDigit 10) ++ signed.2.dropWhile (isDigit 10) :=
    List.takeWhile_append_dropWhile.symm
  have hall : (signed.2.takeWhile (isDigit 10)).all (isDigit 10) = true := List.all_takeWhile
  generalize signed.2.takeWhile (isDigit 10) = digits at *
  generalize signed.2.dropWhile (isDigit 10) = rest at htext
  refine ⟨s.takeWhile isSpace, sign, digits, rest, ?_, ?_, ?_, by omega⟩
  · rw [← htext, ← hsigned, List.takeWhile_append_dropWhile]
  · rw [← hidx, htext, List.length_append, Nat.add_sub_cancel_left]
  · refine ⟨s.takeWhile isSpace, sign, digits, rfl, List.all_takeWhile, by simpa using hdigits, hall, ?_⟩
    rcases hsign with ⟨hminus, hnegative⟩ | ⟨hplus, hnegative⟩
    · rw [hnegative] at hvalue
      exact .inl ⟨hminus, hvalue.symm⟩
    · rw [hnegative] at hvalue
      exact .inr ⟨hplus, hvalue.symm⟩

theorem stoi_of_numeral {s : Bytes} {value : Int} (h : IntNumeral s value)
    (hlow : -2147483648 ≤ value) (hhigh : value ≤ 2147483647) : stoi s = some (value, s.length) := by
  obtain ⟨blanks, sign, digits, rfl, hblanks, hne, hdigits, hvalue⟩ := h
  have hsign : sign = [] ∨ sign = [43] ∨ sign = [45] := by
    rcases hvalue with ⟨hminus, -⟩ | ⟨hplus, -⟩
    · exact .inr (.inr hminus)
    · exact hplus.imp_right .inl
  obtain ⟨c, rest, hfront, hc⟩ : ∃ c rest, sign ++ digits = c :: rest ∧ isSpace c = false := by
    obtain ⟨d, more, rfl⟩ := List.exists_cons_of_ne_nil hne
    rcases hsign with rfl | rfl | rfl
    · rw [List.all_cons, Bool.and_eq_true] at hdigits
      exact ⟨d, more, rfl, isSpace_digit hdigits.1⟩
    · exact ⟨43, d :: more, rfl, rfl⟩
    · exact ⟨45, d :: more, rfl, rfl⟩
  have hdrop : (blanks ++ (sign ++ digits)).dropWhile isSpace = sign ++ digits := by
    rw [List.dropWhile_append_of_pos (List.all_eq_true.mp hblanks), hfront,
      List.dropWhile_cons_of_neg (by simp [hc])]
  have htake : digits.takeWhile (isDigit 10) = digits :=
    List.takeWhile_eq_self_iff.mpr (List.all_eq_true.mp hdigits)
  have hnumber : (if (sign == [45]) = true then -(numeralValue 10 digits : Int)
      else numeralValue 10 digits) = value := by
    rcases hvalue with ⟨rfl, rfl⟩ | ⟨rfl | rfl, rfl⟩
    · rfl
    · rfl
    · rfl
  unfold stoi
  dsimp only
  rw [hdrop, splitSign_digits hdigits hsign, htake, if_neg (by simpa using hne), hnumber,
    if_neg (by omega), Nat.sub_self, Nat.sub_zero]

/-- A text is a number exactly if nothing is left behind its digits. -/
theorem parseInt_iff {s : Bytes} {value : Int} :
    parseInt s = some value ↔ IntNumeral s value ∧ -2147483648 ≤ value ∧ value ≤ 2147483647 := by
  constructor
  · intro h
    unfold parseInt at h
    split at h
    next => cases h
    next v idx hstoi =>
      obtain ⟨hidx, h⟩ := Option.ite_none_left_eq_some.mp h
      obtain rfl := Option.some.inj h
      obtain ⟨blanks, sign, digits, rest, hs, hused, hnumeral, hrange⟩ := stoi_eq_some hstoi
      obtain rfl : rest = [] := by
        have hlength := congrArg List.length hs
        simp only [List.length_append] at hlength
        rw [← List.length_eq_zero_iff]
        omega
      rw [List.append_nil] at hs
      exact ⟨hs ▸ hnumeral, hrange⟩
  · rintro ⟨hnumeral, hlow, hhigh⟩
    rw [parseInt, stoi_of_numeral hnumeral hlow hhigh]
    exact if_neg (not_not_intro rfl)

/-! ## Options -/

/-- How much is logged, from nothing but errors to everything. -/
inductive LogLevel where
  | error
  | warn
  | info
  | verbose
  | debug
deriving DecidableEq, Repr

structure LogFlags where
  quiet : Bool := false
  verbose : Bool := false
  debug : Bool := false
deriving DecidableEq, Repr

def LogFlags.level (flags : LogFlags) : LogLevel :=
  if flags.debug then .debug
  else if flags.verbose then .verbose
  else if flags.quiet then .error
  else .info

/-- What the arguments before the current one have set. -/
structure Settings where
  cfg : OdinConfig := {}
  log : LogFlags := {}
deriving DecidableEq, Repr

/-- Options without a value. -/
inductive Switch where
  | quiet
  | verbose
  | debug
  | reboot
  | redownload
  | checkOnly
  | allowUnknown
deriving DecidableEq, Repr

namespace Switch

def all : List Switch := [quiet, verbose, debug, reboot, redownload, checkOnly, allowUnknown]

def word : Switch → Bytes
  | quiet => ascii "--quiet"
  | verbose => ascii "--verbose"
  | debug => ascii "--debug"
  | reboot => ascii "--reboot"
  | redownload => ascii "--redownload"
  | checkOnly => ascii "--check-only"
  | allowUnknown => ascii "--allow-unknown"

def set (settings : Settings) : Switch → Settings
  | quiet => { settings with log := { quiet := true, verbose := false, debug := false } }
  -- Debugging is not switched off again.
  | verbose => { settings with log := { settings.log with verbose := true, quiet := false } }
  | debug => { settings with log := { debug := true, verbose := true, quiet := false } }
  | reboot => { settings with cfg := { settings.cfg with reboot := true } }
  | redownload => { settings with cfg := { settings.cfg with redownload := true } }
  | checkOnly => { settings with cfg := { settings.cfg with dryRun := true } }
  | allowUnknown => { settings with cfg := { settings.cfg with allowUnknown := true } }

end Switch

/-- Options with a value. -/
inductive ValueOption where
  | vid
  | pid
  | usbInterface
  | bootloader
  | ap
  | cp
  | csc
  | ums
  | devicePath
deriving DecidableEq, Repr

namespace ValueOption

def all : List ValueOption :=
  [vid, pid, usbInterface, bootloader, ap, cp, csc, ums, devicePath]

def word : ValueOption → Bytes
  | vid => ascii "--vid"
  | pid => ascii "--pid"
  | usbInterface => ascii "--usb-interface"
  | bootloader => ascii "-b"
  | ap => ascii "-a"
  | cp => ascii "-c"
  | csc => ascii "-s"
  | ums => ascii "-u"
  | devicePath => ascii "-d"

/-- The settings with the value, unless it is refused. -/
def set (settings : Settings) (value : Bytes) : ValueOption → Option Settings
  | vid => do
      let v ← parseHexU16 value
      return { settings with cfg := { settings.cfg with hasVid := true, vid := v } }
  | pid => do
      let p ← parseHexU16 value
      return { settings with cfg := { settings.cfg with hasPid := true, pid := p } }
  | usbInterface => do
      let n ← parseInt value
      if n < 0 ∨ 255 < n then none
      else some { settings with cfg := { settings.cfg with hasUsbInterface := true, usbInterface := n } }
  | bootloader => some { settings with cfg := { settings.cfg with bootloader := value } }
  | ap => some { settings with cfg := { settings.cfg with ap := value } }
  | cp => some { settings with cfg := { settings.cfg with cp := value } }
  | csc => some { settings with cfg := { settings.cfg with csc := value } }
  | ums => some { settings with cfg := { settings.cfg with ums := value } }
  | devicePath => some { settings with cfg := { settings.cfg with devicePath := value } }

end ValueOption

/-- What the arguments ask for. -/
inductive Command where
  /-- Nothing: help, version or licence are shown, or a mistake is reported. -/
  | leave (rc : ExitCode)
  | list (settings : Settings)
  | run (settings : Settings)
deriving DecidableEq, Repr

/-- Options that show a text and end the command line. -/
def isShown (arg : Bytes) : Bool := arg == ascii "-h" || arg == ascii "-v" || arg == ascii "-w"

/-- The loop over the arguments. No two options have the same word. -/
def parseArguments (settings : Settings) : List Bytes → Command
  | [] => .run settings
  | arg :: rest =>
      if isShown arg then .leave .success
      else
        match Switch.all.find? fun switch => switch.word == arg with
        | some switch => parseArguments (switch.set settings) rest
        | none =>
            if arg = ascii "-l" then .list settings
            else
              match ValueOption.all.find? fun option => option.word == arg with
              | some option =>
                  match rest with
                  | [] => .leave .usage
                  | value :: rest =>
                      match option.set settings value with
                      | none => .leave .usage
                      | some settings => parseArguments settings rest
              | none =>
                  if arg.head? = some 45 then .leave .usage
                  -- Other words are passed over.
                  else parseArguments settings rest

/-! ## The grammar -/

/-- An option with its value, or a word that is passed over. -/
inductive CliOption where
  | switch (which : Switch)
  | value (which : ValueOption) (text : Bytes)
  | other (word : Bytes)
deriving DecidableEq, Repr

namespace CliOption

def words : CliOption → List Bytes
  | switch which => [which.word]
  | value which text => [which.word, text]
  | other word => [word]

end CliOption

/-- The value is a number where one is asked for, and stands in the settings. -/
def ValueOption.Sets (settings : Settings) (text : Bytes) (settings' : Settings) :
    ValueOption → Prop
  | vid => ∃ v, HexNumeral text v ∧
      settings' = { settings with cfg := { settings.cfg with hasVid := true, vid := v } }
  | pid => ∃ p, HexNumeral text p ∧
      settings' = { settings with cfg := { settings.cfg with hasPid := true, pid := p } }
  | usbInterface => ∃ n, IntNumeral text n ∧ 0 ≤ n ∧ n ≤ 255 ∧
      settings' =
        { settings with cfg := { settings.cfg with hasUsbInterface := true, usbInterface := n } }
  | option => option.set settings text = some settings'

def CliOption.Sets (settings : Settings) (option : CliOption) (settings' : Settings) : Prop :=
  match option with
  | switch which => settings' = which.set settings
  | value which text => which.Sets settings text settings'
  | other word => word.head? ≠ some 45 ∧ settings' = settings

/-- Words that begin like an option without being one. -/
structure IsUnknown (arg : Bytes) : Prop where
  dash : arg.head? = some 45
  shown : isShown arg = false
  switch : ∀ which : Switch, which.word ≠ arg
  list : arg ≠ ascii "-l"
  value : ∀ which : ValueOption, which.word ≠ arg

/-- How a command line ends behind its options. -/
inductive Ends (settings : Settings) : List Bytes → Command → Prop where
  | run : Ends settings [] (.run settings)
  | list (rest : List Bytes) : Ends settings (ascii "-l" :: rest) (.list settings)
  | shown {arg : Bytes} (rest : List Bytes) (h : isShown arg = true) :
      Ends settings (arg :: rest) (.leave .success)
  | unknown {arg : Bytes} (rest : List Bytes) (h : IsUnknown arg) :
      Ends settings (arg :: rest) (.leave .usage)
  | missing (which : ValueOption) : Ends settings [which.word] (.leave .usage)
  | refused (which : ValueOption) (text : Bytes) (rest : List Bytes)
      (h : ∀ settings', ¬ which.Sets settings text settings') :
      Ends settings (which.word :: text :: rest) (.leave .usage)

/-! ## Reading an option -/

section Reading

variable {settings settings' : Settings} {arg text : Bytes} {rest tail : List Bytes}

theorem ValueOption.set_iff {which : ValueOption} :
    which.set settings text = some settings' ↔ which.Sets settings text settings' := by
  have hhex : ∀ put : UInt16 → Settings, (parseHexU16 text >>= fun v => pure (put v)) =
      some settings' ↔ ∃ v, HexNumeral text v ∧ settings' = put v := by
    intro put
    simp only [Option.bind_eq_bind, Option.bind_eq_some_iff, Option.pure_def, Option.some.injEq,
      parseHexU16_iff, @eq_comm _ (put _)]
  cases which with
  | vid => exact hhex _
  | pid => exact hhex _
  | usbInterface =>
      simp only [ValueOption.set, ValueOption.Sets, Option.bind_eq_bind, Option.bind_eq_some_iff,
        parseInt_iff, Option.ite_none_left_eq_some, Option.some.injEq]
      apply exists_congr
      intro n
      constructor
      · rintro ⟨⟨hnumeral, -⟩, hrange, rfl⟩
        exact ⟨hnumeral, by omega, by omega, rfl⟩
      · rintro ⟨hnumeral, hlow, hhigh, rfl⟩
        exact ⟨⟨hnumeral, by omega, by omega⟩, by omega, rfl⟩
  | _ => rfl

theorem find_switch (which : Switch) :
    (Switch.all.find? fun switch => switch.word == which.word) = some which := by
  cases which <;> rfl

theorem find_value (which : ValueOption) :
    (ValueOption.all.find? fun option => option.word == which.word) = some which := by
  cases which <;> rfl

theorem find_switch_none (h : ∀ which : Switch, which.word ≠ arg) :
    (Switch.all.find? fun switch => switch.word == arg) = none := by
  simp [h]

theorem find_value_none (h : ∀ which : ValueOption, which.word ≠ arg) :
    (ValueOption.all.find? fun option => option.word == arg) = none := by
  simp [h]

theorem parseArguments_switch (which : Switch) :
    parseArguments settings (which.word :: rest) = parseArguments (which.set settings) rest := by
  have hshown : isShown which.word = false := by cases which <;> rfl
  rw [parseArguments, hshown, find_switch]
  rfl

/-- The word of an option with a value is none of the other words. -/
theorem ValueOption.word_apart (which : ValueOption) : isShown which.word = false ∧
    (Switch.all.find? fun switch => switch.word == which.word) = none ∧
      which.word ≠ ascii "-l" := by
  cases which <;> decide

theorem parseArguments_missing (which : ValueOption) :
    parseArguments settings [which.word] = .leave .usage := by
  obtain ⟨hshown, hswitch, hlist⟩ := which.word_apart
  rw [parseArguments, hshown, hswitch, find_value]
  simp only [Bool.false_eq_true, if_false, hlist]

theorem parseArguments_set {which : ValueOption} (h : which.set settings text = some settings') :
    parseArguments settings (which.word :: text :: rest) = parseArguments settings' rest := by
  obtain ⟨hshown, hswitch, hlist⟩ := which.word_apart
  rw [parseArguments, hshown, hswitch, find_value]
  simp only [Bool.false_eq_true, if_false, hlist, h]

theorem parseArguments_refused {which : ValueOption} (h : which.set settings text = none) :
    parseArguments settings (which.word :: text :: rest) = .leave .usage := by
  obtain ⟨hshown, hswitch, hlist⟩ := which.word_apart
  rw [parseArguments, hshown, hswitch, find_value]
  simp only [Bool.false_eq_true, if_false, hlist, h]

theorem parseArguments_other (hdash : arg.head? ≠ some 45) :
    parseArguments settings (arg :: rest) = parseArguments settings rest := by
  have hne : ∀ word : Bytes, word.head? = some 45 → word ≠ arg := by
    rintro word hword rfl
    exact hdash hword
  have hshown : isShown arg = false := by
    simp only [isShown, Bool.or_eq_false_iff, beq_eq_false_iff_ne]
    exact ⟨⟨(hne _ rfl).symm, (hne _ rfl).symm⟩, (hne _ rfl).symm⟩
  have hswitch : ∀ which : Switch, which.word ≠ arg := fun which => hne _ (by cases which <;> rfl)
  have hvalue : ∀ which : ValueOption, which.word ≠ arg := fun which =>
    hne _ (by cases which <;> rfl)
  have hlist : arg ≠ ascii "-l" := (hne _ rfl).symm
  rw [parseArguments, hshown, find_switch_none hswitch, find_value_none hvalue]
  simp only [Bool.false_eq_true, if_false, hlist, hdash]

/-- An option is read as it is meant. -/
theorem parseArguments_words {option : CliOption} (h : option.Sets settings settings') :
    parseArguments settings (option.words ++ rest) = parseArguments settings' rest := by
  cases option with
  | switch which =>
      obtain rfl : settings' = which.set settings := h
      exact parseArguments_switch which
  | value which text =>
      exact parseArguments_set (ValueOption.set_iff.mpr h)
  | other word =>
      obtain ⟨hdash, rfl⟩ := h
      exact parseArguments_other hdash

theorem parseArguments_ends {command : Command} (h : Ends settings tail command) :
    parseArguments settings tail = command := by
  cases h with
  | run => rfl
  | list rest => rfl
  | shown rest h => rw [parseArguments, if_pos h]
  | unknown rest h =>
      rw [parseArguments, h.shown, find_switch_none h.switch, find_value_none h.value]
      simp only [Bool.false_eq_true, if_false, h.list, h.dash, if_true]
  | missing which => exact parseArguments_missing which
  | refused which text rest h =>
      refine parseArguments_refused (Option.eq_none_iff_forall_ne_some.mpr fun settings' hset => ?_)
      exact h settings' (ValueOption.set_iff.mp hset)

/-- A command line begins with an option or ends. -/
theorem option_or_end (settings : Settings) (args : List Bytes) :
    (∃ option settings' rest, args = CliOption.words option ++ rest ∧
      option.Sets settings settings') ∨ ∃ command, Ends settings args command := by
  cases args with
  | nil => exact .inr ⟨_, .run⟩
  | cons arg rest =>
      by_cases hshown : isShown arg = true
      · exact .inr ⟨_, .shown rest hshown⟩
      by_cases hswitch : ∃ which : Switch, which.word = arg
      · obtain ⟨which, rfl⟩ := hswitch
        exact .inl ⟨.switch which, _, rest, rfl, rfl⟩
      by_cases hlist : arg = ascii "-l"
      · subst hlist
        exact .inr ⟨_, .list rest⟩
      by_cases hvalue : ∃ which : ValueOption, which.word = arg
      · obtain ⟨which, rfl⟩ := hvalue
        cases rest with
        | nil => exact .inr ⟨_, .missing which⟩
        | cons text rest =>
            by_cases hsets : ∃ settings', which.Sets settings text settings'
            · obtain ⟨settings', hsets⟩ := hsets
              exact .inl ⟨.value which text, settings', rest, rfl, hsets⟩
            · exact .inr ⟨_, .refused which text rest (not_exists.mp hsets)⟩
      by_cases hdash : arg.head? = some 45
      · exact .inr ⟨_, .unknown rest ⟨hdash, Bool.not_eq_true _ ▸ hshown, not_exists.mp hswitch,
          hlist, not_exists.mp hvalue⟩⟩
      · exact .inl ⟨.other arg, settings, rest, rfl, hdash, rfl⟩

end Reading

/-- A command line is read as a sequence of options and an end, and nothing else is. -/
theorem parseArguments_iff {settings : Settings} {args : List Bytes} {command : Command} :
    parseArguments settings args = command ↔
      ∃ options tail settings', args = options.flatMap CliOption.words ++ tail ∧
        Steps CliOption.Sets settings options settings' ∧ Ends settings' tail command := by
  constructor
  · intro hparse
    induction hlength : args.length using Nat.strong_induction_on generalizing settings args with
    | _ length ih =>
        subst hlength
        rcases option_or_end settings args with ⟨option, settings', rest, rfl, hsets⟩ | ⟨command', hends⟩
        · rw [parseArguments_words hsets] at hparse
          have hshorter : rest.length < (option.words ++ rest).length := by
            rw [List.length_append]
            cases option <;> simp [CliOption.words]
          obtain ⟨options, tail, last, rfl, hsteps, hends⟩ := ih _ hshorter hparse rfl
          refine ⟨option :: options, tail, last, ?_, ⟨settings', hsets, hsteps⟩, hends⟩
          rw [List.flatMap_cons, List.append_assoc]
        · obtain rfl := hparse.symm.trans (parseArguments_ends hends)
          exact ⟨[], args, settings, rfl, Steps.refl _, hends⟩
  · rintro ⟨options, tail, settings', rfl, hsteps, hends⟩
    induction options generalizing settings with
    | nil =>
        obtain rfl := hsteps
        exact parseArguments_ends hends
    | cons option rest ih =>
        obtain ⟨middle, hsets, hrest⟩ := hsteps
        rw [List.flatMap_cons, List.append_assoc, parseArguments_words hsets]
        exact ih hrest

/-! ## What a command line sets -/

/-- The text that an option gives for `which`. -/
def CliOption.textFor (which : ValueOption) : CliOption → Option Bytes
  | value option text => if option = which then some text else none
  | _ => none

/-- The path that the option stands for. -/
def ValueOption.path? (cfg : OdinConfig) : ValueOption → Option Bytes
  | bootloader => some cfg.bootloader
  | ap => some cfg.ap
  | cp => some cfg.cp
  | csc => some cfg.csc
  | ums => some cfg.ums
  | devicePath => some cfg.devicePath
  | _ => none

/-- Whether there is such a number, and which numerals denote it. -/
def ValueOption.number? (cfg : OdinConfig) : ValueOption → Option (Bool × (Bytes → Prop))
  | vid => some (cfg.hasVid, fun text => HexNumeral text cfg.vid)
  | pid => some (cfg.hasPid, fun text => HexNumeral text cfg.pid)
  | usbInterface => some (cfg.hasUsbInterface, fun text =>
      IntNumeral text cfg.usbInterface ∧ 0 ≤ cfg.usbInterface ∧ cfg.usbInterface ≤ 255)
  | _ => none

/-- The text that was last given for `which`. -/
def lastText (which : ValueOption) (options : List CliOption) : Option Bytes :=
  (options.filterMap (CliOption.textFor which)).getLast?

/-- The part of the configuration that the switch turns on. -/
def Switch.isOn? (cfg : OdinConfig) : Switch → Option Bool
  | reboot => some cfg.reboot
  | redownload => some cfg.redownload
  | checkOnly => some cfg.dryRun
  | allowUnknown => some cfg.allowUnknown
  | _ => none

/-- The options behind the last `--quiet`, the last one first. -/
def sinceQuiet (options : List CliOption) : List CliOption :=
  options.reverse.takeWhile (· != .switch .quiet)

/-- The loudest level asked for since the last request to be quiet. -/
def requestedLevel (options : List CliOption) : LogLevel :=
  if .switch .debug ∈ sinceQuiet options then .debug
  else if .switch .verbose ∈ sinceQuiet options then .verbose
  else if .switch .quiet ∈ options then .error
  else .info

/-- A path or number is the last one that was given, a switch stays on, and the
level is the loudest since the last request to be quiet. -/
structure Means (options : List CliOption) (settings : Settings) : Prop where
  paths : ∀ which path, which.path? settings.cfg = some path →
    path = (lastText which options).getD []
  numbers : ∀ which has stands, which.number? settings.cfg = some (has, stands) →
    has = (lastText which options).isSome ∧ ∀ text ∈ lastText which options, stands text
  switches : ∀ which isOn, which.isOn? settings.cfg = some isOn →
    isOn = decide (.switch which ∈ options)
  level : settings.log.level = requestedLevel options

section Meaning

variable {settings settings' : Settings} {option : CliOption} {options : List CliOption}

theorem CliOption.Sets.path?_eq (h : option.Sets settings settings') (which : ValueOption) :
    which.path? settings'.cfg =
      (which.path? settings.cfg).map fun path => (option.textFor which).getD path := by
  cases option with
  | switch switch =>
      obtain rfl := h
      cases switch <;> cases which <;> rfl
  | other word =>
      obtain ⟨-, rfl⟩ := h
      cases which <;> rfl
  | value option text =>
      cases option with
      | vid =>
          obtain ⟨v, -, rfl⟩ := h
          cases which <;> rfl
      | pid =>
          obtain ⟨p, -, rfl⟩ := h
          cases which <;> rfl
      | usbInterface =>
          obtain ⟨n, -, -, -, rfl⟩ := h
          cases which <;> rfl
      | _ =>
          obtain rfl := Option.some.inj h
          cases which <;> rfl

theorem lastText_concat (which : ValueOption) (options : List CliOption) (option : CliOption) :
    lastText which (options ++ [option]) = (option.textFor which).or (lastText which options) := by
  rw [lastText, List.filterMap_append]
  cases htext : option.textFor which with
  | none => simp [htext, lastText]
  | some text => simp [htext]

theorem CliOption.Sets.number?_cases (h : option.Sets settings settings') {which : ValueOption}
    {has : Bool} {stands : Bytes → Prop} (hnumber : which.number? settings'.cfg = some (has, stands)) :
    option.textFor which = none ∧ which.number? settings.cfg = some (has, stands) ∨
      ∃ text, option.textFor which = some text ∧ has = true ∧ stands text := by
  cases option with
  | switch switch =>
      obtain rfl := h
      refine .inl ⟨rfl, ?_⟩
      cases switch <;> exact hnumber
  | other word =>
      obtain ⟨-, rfl⟩ := h
      exact .inl ⟨rfl, hnumber⟩
  | value option text =>
      by_cases hwhich : option = which
      · subst hwhich
        refine .inr ⟨text, if_pos rfl, ?_⟩
        cases option with
        | vid =>
            obtain ⟨v, hnumeral, rfl⟩ := h
            obtain ⟨rfl, rfl⟩ := Prod.mk.inj (Option.some.inj hnumber)
            exact ⟨rfl, hnumeral⟩
        | pid =>
            obtain ⟨p, hnumeral, rfl⟩ := h
            obtain ⟨rfl, rfl⟩ := Prod.mk.inj (Option.some.inj hnumber)
            exact ⟨rfl, hnumeral⟩
        | usbInterface =>
            obtain ⟨n, hnumeral, hlow, hhigh, rfl⟩ := h
            obtain ⟨rfl, rfl⟩ := Prod.mk.inj (Option.some.inj hnumber)
            exact ⟨rfl, hnumeral, hlow, hhigh⟩
        | _ => cases hnumber
      · refine .inl ⟨if_neg hwhich, ?_⟩
        cases option with
        | vid =>
            obtain ⟨v, -, rfl⟩ := h
            cases which <;> first | exact hnumber | exact absurd rfl hwhich
        | pid =>
            obtain ⟨p, -, rfl⟩ := h
            cases which <;> first | exact hnumber | exact absurd rfl hwhich
        | usbInterface =>
            obtain ⟨n, -, -, -, rfl⟩ := h
            cases which <;> first | exact hnumber | exact absurd rfl hwhich
        | _ =>
            obtain rfl := Option.some.inj h
            cases which <;> exact hnumber

/-- A value turns nothing on and does not change what is logged. -/
theorem ValueOption.Sets.keeps {which : ValueOption} {text : Bytes}
    (h : which.Sets settings text settings') : settings'.log = settings.log ∧
      ∀ switch : Switch, switch.isOn? settings'.cfg = switch.isOn? settings.cfg := by
  cases which with
  | vid =>
      obtain ⟨v, -, rfl⟩ := h
      exact ⟨rfl, fun _ => rfl⟩
  | pid =>
      obtain ⟨p, -, rfl⟩ := h
      exact ⟨rfl, fun _ => rfl⟩
  | usbInterface =>
      obtain ⟨n, -, -, -, rfl⟩ := h
      exact ⟨rfl, fun _ => rfl⟩
  | _ =>
      obtain rfl := Option.some.inj h
      exact ⟨rfl, fun _ => rfl⟩

theorem CliOption.Sets.isOn?_eq (h : option.Sets settings settings') (which : Switch) :
    which.isOn? settings'.cfg =
      (which.isOn? settings.cfg).map fun isOn => isOn || decide (option = .switch which) := by
  cases option with
  | switch switch =>
      obtain rfl := h
      cases switch <;> cases which <;> simp [Switch.isOn?, Switch.set]
  | value option text => simp [(ValueOption.Sets.keeps h).2 which]
  | other word =>
      obtain ⟨-, rfl⟩ := h
      simp

theorem sinceQuiet_concat (options : List CliOption) (option : CliOption) :
    sinceQuiet (options ++ [option]) =
      if option = .switch .quiet then [] else option :: sinceQuiet options := by
  rw [sinceQuiet, List.reverse_concat, List.takeWhile_cons]
  by_cases hquiet : option = .switch .quiet
  · simp [hquiet]
  · simp [hquiet, sinceQuiet]

/-- The flags as they follow from the options. -/
def flagsOf (options : List CliOption) : LogFlags where
  debug := decide (.switch .debug ∈ sinceQuiet options)
  verbose := decide (.switch .verbose ∈ sinceQuiet options ∨ .switch .debug ∈ sinceQuiet options)
  quiet := decide (.switch .quiet ∈ options ∧ .switch .verbose ∉ sinceQuiet options ∧
    .switch .debug ∉ sinceQuiet options)

theorem level_flagsOf (options : List CliOption) :
    (flagsOf options).level = requestedLevel options := by
  unfold flagsOf LogFlags.level requestedLevel
  by_cases hdebug : .switch .debug ∈ sinceQuiet options
  · simp [hdebug]
  · by_cases hverbose : .switch .verbose ∈ sinceQuiet options
    · simp [hdebug, hverbose]
    · simp [hdebug, hverbose]

theorem CliOption.Sets.flagsOf_eq (h : option.Sets settings settings')
    (hlog : settings.log = flagsOf options) : settings'.log = flagsOf (options ++ [option]) := by
  have hkeep : (∀ switch : Switch, option ≠ .switch switch) →
      flagsOf (options ++ [option]) = flagsOf options := by
    intro hnone
    unfold flagsOf
    rw [sinceQuiet_concat, if_neg (hnone .quiet)]
    simp [(hnone _).symm]
  cases option with
  | switch switch =>
      obtain rfl := h
      cases switch <;>
        simp [Switch.set, hlog, flagsOf, sinceQuiet_concat]
  | value option text =>
      rw [hkeep (fun _ => nofun), (ValueOption.Sets.keeps h).1, hlog]
  | other word =>
      obtain ⟨-, rfl⟩ := h
      rw [hkeep (fun _ => nofun), hlog]

/-- What the options mean, by induction from the first to the last. -/
theorem means_of_steps (h : Steps CliOption.Sets {} options settings) : Means options settings := by
  suffices hmeans : Means options settings ∧ settings.log = flagsOf options from hmeans.1
  induction options using List.reverseRecOn generalizing settings with
  | nil =>
      obtain rfl := h
      refine ⟨⟨fun which path hpath => ?_, fun which has stands hnumber => ?_,
        fun which isOn hisOn => ?_, rfl⟩, rfl⟩
      · cases which <;> cases hpath <;> rfl
      · cases which <;> cases hnumber <;> exact ⟨rfl, by simp [lastText]⟩
      · cases which <;> cases hisOn <;> rfl
  | append_singleton options option ih =>
      obtain ⟨middle, hfirst, last, hlast, rfl⟩ := h.of_append
      obtain ⟨hmeans, hlog⟩ := ih hfirst
      have hflags := hlast.flagsOf_eq hlog
      refine ⟨⟨fun which path hpath => ?_, fun which has stands hnumber => ?_,
        fun which isOn hisOn => ?_, ?_⟩, hflags⟩
      · rw [hlast.path?_eq] at hpath
        obtain ⟨earlier, hearlier, rfl⟩ := Option.map_eq_some_iff.mp hpath
        rw [hmeans.paths which earlier hearlier, lastText_concat]
        cases option.textFor which <;> rfl
      · rw [lastText_concat]
        rcases hlast.number?_cases hnumber with ⟨hnone, hearlier⟩ | ⟨text, hsome, rfl, hstands⟩
        · rw [hnone]
          exact hmeans.numbers which has stands hearlier
        · rw [hsome]
          exact ⟨rfl, fun _ htext => Option.some.inj htext ▸ hstands⟩
      · rw [hlast.isOn?_eq] at hisOn
        obtain ⟨earlier, hearlier, rfl⟩ := Option.map_eq_some_iff.mp hisOn
        rw [hmeans.switches which earlier hearlier]
        simp [eq_comm]
      · rw [hflags, level_flagsOf]

end Meaning

/-- A command line is accepted to its end exactly if it consists of options that can be
carried out one after the other. The settings are then what the options mean. -/
theorem parseArguments_means {args : List Bytes} {settings : Settings} :
    parseArguments {} args = .run settings ↔
      ∃ options, args = options.flatMap CliOption.words ∧
        Steps CliOption.Sets {} options settings ∧ Means options settings := by
  rw [parseArguments_iff]
  constructor
  · rintro ⟨options, tail, last, rfl, hsteps, hends⟩
    cases hends
    exact ⟨options, List.append_nil _, hsteps, means_of_steps hsteps⟩
  · rintro ⟨options, rfl, hsteps, -⟩
    exact ⟨options, [], settings, (List.append_nil _).symm, hsteps, .run⟩

/-- Two archives for one slot, and a request to be quiet between two levels. -/
def busyArguments : List Bytes :=
  [ascii "--debug", ascii "-a", ascii "x.tar", ascii "--quiet", ascii "--vid", ascii "0x4e8",
    ascii "-a", ascii "y.tar", ascii "--verbose"]

theorem parseArguments_means_busy : ∃ options settings,
    busyArguments = options.flatMap CliOption.words ∧
      Steps CliOption.Sets {} options settings ∧ Means options settings ∧
        settings.cfg.ap = ascii "y.tar" ∧ settings.cfg.vid = 0x4E8 ∧
          settings.log.level = .verbose := by
  have hparse : parseArguments {} busyArguments =
      .run { cfg := { ap := ascii "y.tar", hasVid := true, vid := 0x4E8 }
             log := { verbose := true } } := by decide +kernel
  obtain ⟨options, hwords, hsteps, hmeans⟩ := parseArguments_means.mp hparse
  exact ⟨options, _, hwords, hsteps, hmeans, rfl, rfl, rfl⟩

end Odin4
