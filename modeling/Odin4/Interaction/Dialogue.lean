import Mathlib.Computability.Language
import Mathlib.Order.CompletePartialOrder
import Odin4.Interaction.Program

/-!
# Dialogues

A dialogue is a sequence of turns. A turn carries one message of the speaking
party and either is accepted by the other side or is not, depending on a state
that the turns drive. Two things are said about dialogues here: which messages
they carry, as words of a language, and that the speaker stops at the first
turn that is not accepted.
-/

namespace Odin4.Interaction

/-- Turns that carry a message and are accepted or not in a state. -/
class Dialogue (Turn : Type) (Message State : outParam Type) where
  message : Turn → Message
  next : State → Turn → State
  accepted : State → Turn → Bool

namespace Dialogue

variable {Turn Message State : Type} [Dialogue Turn Message State]
variable {s : State} {xs ys : List Turn} {ok : Bool}

def messages (turns : List Turn) : List Message := turns.map message

/-- The state after some turns. -/
def after (s : State) (turns : List Turn) : State := turns.foldl next s

/-- Every turn is accepted. -/
def AllAccepted : State → List Turn → Prop
  | _, [] => True
  | s, turn :: rest => accepted s turn = true ∧ AllAccepted (next s turn) rest

/-- Nothing follows a turn that is not accepted. -/
def FailStop : State → List Turn → Prop
  | _, [] => True
  | s, turn :: rest => if accepted s turn then FailStop (next s turn) rest else rest = []

@[simp] theorem messages_nil : messages ([] : List Turn) = [] := rfl

@[simp] theorem messages_append : messages (xs ++ ys) = messages xs ++ messages ys :=
  List.map_append

theorem after_append : after s (xs ++ ys) = after (after s xs) ys := List.foldl_append

theorem AllAccepted.append (hfirst : AllAccepted s xs) (hsecond : AllAccepted (after s xs) ys) :
    AllAccepted s (xs ++ ys) := by
  induction xs generalizing s with
  | nil => exact hsecond
  | cons turn rest ih => exact ⟨hfirst.1, ih hfirst.2 hsecond⟩

theorem AllAccepted.right (h : AllAccepted s (xs ++ ys)) : AllAccepted (after s xs) ys := by
  induction xs generalizing s with
  | nil => exact h
  | cons turn rest ih => exact ih h.2

theorem AllAccepted.left (h : AllAccepted s (xs ++ ys)) : AllAccepted s xs := by
  induction xs generalizing s with
  | nil => trivial
  | cons turn rest ih => exact ⟨h.1, ih h.2⟩

theorem AllAccepted.exists_accepted (h : AllAccepted s xs) {turn : Turn} (hmem : turn ∈ xs) :
    ∃ state, accepted state turn = true := by
  induction xs generalizing s with
  | nil => simp at hmem
  | cons first rest ih =>
      rcases List.mem_cons.mp hmem with rfl | hmem
      · exact ⟨s, h.1⟩
      · exact ih h.2 hmem

theorem FailStop.append (hfirst : AllAccepted s xs) (hsecond : FailStop (after s xs) ys) :
    FailStop s (xs ++ ys) := by
  induction xs generalizing s with
  | nil => exact hsecond
  | cons turn rest ih =>
      simp only [List.cons_append, FailStop, hfirst.1, ↓reduceIte]
      exact ih hfirst.2 hsecond

/-- The turns after a refused one, wherever it stands. -/
theorem FailStop.eq_nil {turn : Turn} (h : FailStop s (xs ++ turn :: ys))
    (hrefused : accepted (after s xs) turn = false) : ys = [] := by
  induction xs generalizing s with
  | nil =>
      have hrefused : accepted s turn = false := hrefused
      simpa [FailStop, hrefused] using h
  | cons first rest ih =>
      rw [List.cons_append, FailStop] at h
      split at h
      next => exact ih h hrefused
      next => simp at h

/-- All that was said before some turn was accepted. -/
theorem FailStop.before {turn : Turn} (h : FailStop s (xs ++ turn :: ys)) : AllAccepted s xs := by
  induction xs generalizing s with
  | nil => trivial
  | cons first rest ih =>
      rw [List.cons_append, FailStop] at h
      split at h
      next hfirst => exact ⟨hfirst, ih h⟩
      next => simp at h

/-- A turn of a sequence in two parts stands in one of them. -/
theorem split_at_turn {first second before rest : List Turn} {turn : Turn}
    (h : first ++ second = before ++ turn :: rest) :
    (∃ tail, first = before ++ turn :: tail ∧ rest = tail ++ second) ∨
      ∃ start, before = first ++ start ∧ second = start ++ turn :: rest := by
  obtain ⟨start, hbefore, hsecond⟩ | ⟨tail, hfirst, hrest⟩ := List.append_eq_append_iff.mp h
  · exact .inr ⟨start, hbefore, hsecond⟩
  · cases tail with
    | nil => exact .inr ⟨[], by simpa using hfirst.symm, by simpa using hrest.symm⟩
    | cons turn' tail =>
        obtain ⟨rfl, rfl⟩ := List.cons.inj hrest
        exact .inl ⟨tail, hfirst, rfl⟩

/-! ## Scripts -/

/-- The turns carry out `script` and stop at the first that is not accepted;
`ok` tells whether the script has been completed. -/
def Follows : List Message → State → List Turn → Bool → Prop
  | [], _, turns, ok => turns = [] ∧ ok = true
  | line :: script, s, turns, ok =>
      ∃ turn rest, turns = turn :: rest ∧ message turn = line ∧
        if accepted s turn then Follows script (next s turn) rest ok else rest = [] ∧ ok = false

variable {script rest : List Message}

theorem follows_nil : Follows [] s ([] : List Turn) true := ⟨rfl, rfl⟩

/-- A script of one line. -/
theorem follows_single {turn : Turn} (hok : accepted s turn = ok) :
    Follows [message turn] s [turn] ok := by
  refine ⟨turn, [], rfl, rfl, ?_⟩
  cases ok <;> simp [hok, Follows]

theorem Follows.append (hfirst : Follows script s xs true)
    (hsecond : Follows rest (after s xs) ys ok) : Follows (script ++ rest) s (xs ++ ys) ok := by
  induction script generalizing s xs with
  | nil =>
      obtain ⟨rfl, -⟩ := hfirst
      exact hsecond
  | cons line script ih =>
      obtain ⟨turn, tail, rfl, hline, htail⟩ := hfirst
      refine ⟨turn, tail ++ ys, rfl, hline, ?_⟩
      split at htail
      next hturn =>
        rw [if_pos hturn]
        exact ih htail hsecond
      next => simp at htail

/-- A script that was given up is given up in every longer script. -/
theorem Follows.stop (h : Follows script s xs false) : Follows (script ++ rest) s xs false := by
  induction script generalizing s xs with
  | nil => simp [Follows] at h
  | cons line script ih =>
      obtain ⟨turn, tail, rfl, hline, htail⟩ := h
      refine ⟨turn, tail, rfl, hline, ?_⟩
      split at htail
      next hturn =>
        rw [if_pos hturn]
        exact ih htail
      next hturn =>
        rw [if_neg hturn]
        exact htail

theorem Follows.failStop (h : Follows script s xs ok) : FailStop s xs := by
  induction script generalizing s xs with
  | nil =>
      obtain ⟨rfl, -⟩ := h
      trivial
  | cons line script ih =>
      obtain ⟨turn, tail, rfl, -, htail⟩ := h
      split at htail
      next hturn =>
        simp only [FailStop, hturn, ↓reduceIte]
        exact ih htail
      next hturn => simpa [FailStop, hturn] using htail.1

theorem Follows.messages_prefix (h : Follows script s xs ok) : messages xs <+: script := by
  induction script generalizing s xs with
  | nil =>
      obtain ⟨rfl, -⟩ := h
      exact List.nil_prefix
  | cons line script ih =>
      obtain ⟨turn, tail, rfl, hline, htail⟩ := h
      have hcons : messages (turn :: tail) = line :: messages tail := by rw [← hline]; rfl
      rw [hcons]
      split at htail
      next => exact List.cons_prefix_cons.mpr ⟨rfl, ih htail⟩
      next =>
        obtain ⟨rfl, -⟩ := htail
        exact List.cons_prefix_cons.mpr ⟨rfl, List.nil_prefix⟩

/-- A completed script has been said word for word, and accepted throughout. -/
theorem Follows.completed (h : Follows script s xs true) :
    AllAccepted s xs ∧ messages xs = script := by
  induction script generalizing s xs with
  | nil =>
      obtain ⟨rfl, -⟩ := h
      exact ⟨trivial, rfl⟩
  | cons line script ih =>
      obtain ⟨turn, tail, rfl, hline, htail⟩ := h
      split at htail
      next hturn =>
        obtain ⟨hall, hmessages⟩ := ih htail
        refine ⟨⟨hturn, hall⟩, ?_⟩
        rw [← hline, ← hmessages]
        rfl
      next => simp at htail

/-- Where every turn is accepted the script is completed. -/
theorem Follows.eq_true (h : Follows script s xs ok) (hall : AllAccepted s xs) : ok = true := by
  induction script generalizing s xs with
  | nil => exact h.2
  | cons line script ih =>
      obtain ⟨turn, tail, rfl, -, htail⟩ := h
      rw [if_pos hall.1] at htail
      exact ih htail hall.2

theorem Follows.not_allAccepted (h : Follows script s xs false) : ¬ AllAccepted s xs :=
  fun hall => Bool.false_ne_true (h.eq_true hall)

/-! ## Languages of messages -/

/-- Every message of every word is `allowed`. -/
def Over (allowed : Message → Prop) (words : Language Message) : Prop :=
  ∀ word ∈ words, ∀ m ∈ word, allowed m

/-- In every word a `marked` message directly follows a `leading` one. -/
def Preceded (marked leading : Message → Prop) (words : Language Message) : Prop :=
  ∀ word ∈ words, ∀ before m rest, word = before ++ m :: rest → marked m →
    ∃ first l, before = first ++ [l] ∧ leading l

section Closure

variable {words more : Language Message} {allowed marked leading : Message → Prop}

theorem over_one : Over allowed (1 : Language Message) := by
  rintro _ rfl m hm
  simp at hm

theorem Over.mul (hwords : Over allowed words) (hmore : Over allowed more) :
    Over allowed (words * more) := by
  rintro _ ⟨first, hfirst, second, hsecond, rfl⟩ m hm
  rcases List.mem_append.mp hm with hm | hm
  · exact hwords first hfirst m hm
  · exact hmore second hsecond m hm

theorem Over.add (hwords : Over allowed words) (hmore : Over allowed more) :
    Over allowed (words + more) := by
  rintro word (hword | hword)
  · exact hwords word hword
  · exact hmore word hword

theorem Over.star (hwords : Over allowed words) : Over allowed (KStar.kstar words) := by
  rintro _ ⟨parts, rfl, hparts⟩ m hm
  obtain ⟨part, hpart, hm⟩ := List.mem_flatten.mp hm
  exact hwords part (hparts part hpart) m hm

theorem Over.mono {wider : Message → Prop} (h : Over allowed words)
    (hwider : ∀ m, allowed m → wider m) : Over wider words :=
  fun word hword m hm => hwider m (h word hword m hm)

theorem Over.preceded (h : Over (fun m => ¬ marked m) words) : Preceded marked leading words := by
  rintro _ hword before m rest rfl hmarked
  exact absurd hmarked (h _ hword m (by simp))

/-- All messages lead, and none that is marked comes first. -/
theorem Over.preceded_of_head (h : Over leading words)
    (hhead : ∀ m rest, m :: rest ∈ words → ¬ marked m) : Preceded marked leading words := by
  rintro _ hword before m rest rfl hmarked
  rcases List.eq_nil_or_concat before with rfl | ⟨first, l, rfl⟩
  · exact absurd hmarked (hhead m rest hword)
  · exact ⟨first, l, List.concat_eq_append, h _ hword l (by simp)⟩

theorem Preceded.mul (hwords : Preceded marked leading words)
    (hmore : Preceded marked leading more) : Preceded marked leading (words * more) := by
  rintro _ ⟨first, hfirst, second, hsecond, rfl⟩ before m rest hsplit hmarked
  obtain ⟨tail, rfl, hsecondSplit⟩ | ⟨tail, rfl, hrest⟩ := List.append_eq_append_iff.mp hsplit
  · obtain ⟨start, l, rfl, hl⟩ := hmore _ hsecond tail m rest hsecondSplit hmarked
    exact ⟨first ++ start, l, by simp, hl⟩
  · cases tail with
    | nil =>
        obtain ⟨start, l, h, hl⟩ := hmore _ hsecond [] m rest hrest.symm hmarked
        simp at h
    | cons m' tail =>
        obtain ⟨rfl, -⟩ := List.cons.inj hrest
        exact hwords _ hfirst before m tail rfl hmarked

theorem Preceded.star (hwords : Preceded marked leading words) :
    Preceded marked leading (KStar.kstar words) := by
  rintro _ ⟨parts, rfl, hparts⟩
  induction parts with
  | nil => exact over_one.preceded [] rfl
  | cons part parts ih =>
      have hrest : Preceded marked leading ({parts.flatten} : Language Message) := by
        rintro _ rfl
        exact ih fun part hpart => hparts part (List.mem_cons_of_mem _ hpart)
      exact (hwords.mul hrest) _
        (Language.append_mem_mul (hparts part List.mem_cons_self) rfl)

end Closure

/-- The turns stop at a refusal and carry an initial part of a word; where
`complete` holds they were all accepted and carry a whole word. -/
structure Orderly (words : Language Message) (s : State) (turns : List Turn)
    (complete : Prop) : Prop where
  failStop : FailStop s turns
  initial : ∃ word ∈ words, messages turns <+: word
  whole : complete → AllAccepted s turns ∧ messages turns ∈ words

namespace Orderly

variable {words more : Language Message} {complete weaker : Prop}

theorem nil : Orderly (1 : Language Message) s ([] : List Turn) complete where
  failStop := trivial
  initial := ⟨[], rfl, List.nil_prefix⟩
  whole _ := ⟨trivial, rfl⟩

/-- Nothing has been said of a word yet. -/
theorem unbegun (hwords : ∃ word, word ∈ words) (hnot : ¬ complete) :
    Orderly words s ([] : List Turn) complete := by
  obtain ⟨word, hword⟩ := hwords
  exact ⟨trivial, ⟨word, hword, List.nil_prefix⟩, fun h => absurd h hnot⟩

theorem of_follows (h : Follows script s xs ok) (hmem : script ∈ words) :
    Orderly words s xs (ok = true) where
  failStop := h.failStop
  initial := ⟨script, hmem, h.messages_prefix⟩
  whole hok := by
    subst hok
    obtain ⟨hall, hmessages⟩ := h.completed
    exact ⟨hall, hmessages ▸ hmem⟩

/-- A single turn. -/
theorem single {turn : Turn} (hmem : [message turn] ∈ words)
    (hcomplete : complete → accepted s turn = true) : Orderly words s [turn] complete where
  failStop := by
    by_cases h : accepted s turn <;> simp [FailStop, h]
  initial := ⟨_, hmem, List.prefix_rfl⟩
  whole h := ⟨⟨hcomplete h, trivial⟩, hmem⟩

theorem weaken (h : Orderly words s xs complete) (himp : weaker → complete) :
    Orderly words s xs weaker :=
  ⟨h.failStop, h.initial, fun hweaker => h.whole (himp hweaker)⟩

theorem mono (h : Orderly words s xs complete) (hle : words ≤ more) :
    Orderly more s xs complete := by
  obtain ⟨word, hmem, hinit⟩ := h.initial
  exact ⟨h.failStop, ⟨word, hle hmem, hinit⟩,
    fun hcomplete => ⟨(h.whole hcomplete).1, hle (h.whole hcomplete).2⟩⟩

theorem append (hfirst : Orderly words s xs True) (hsecond : Orderly more (after s xs) ys complete) :
    Orderly (words * more) s (xs ++ ys) complete := by
  obtain ⟨hall, hmem⟩ := hfirst.whole trivial
  obtain ⟨word, hword, hinit⟩ := hsecond.initial
  refine ⟨FailStop.append hall hsecond.failStop, ?_, ?_⟩
  · refine ⟨messages xs ++ word, Language.append_mem_mul hmem hword, ?_⟩
    rw [messages_append]
    exact (List.prefix_append_right_inj _).mpr hinit
  · intro hcomplete
    obtain ⟨hsecondAll, hsecondMem⟩ := hsecond.whole hcomplete
    rw [messages_append]
    exact ⟨hall.append hsecondAll, Language.append_mem_mul hmem hsecondMem⟩

/-- A second part that may be left out. -/
theorem star_nil : Orderly (KStar.kstar words) s ([] : List Turn) complete :=
  nil.mono fun _ h => h ▸ Language.nil_mem_kstar words

/-- One more word in front of a repetition. -/
theorem star_append (hfirst : Orderly words s xs True)
    (hsecond : Orderly (KStar.kstar words) (after s xs) ys complete) :
    Orderly (KStar.kstar words) s (xs ++ ys) complete :=
  (hfirst.append hsecond).mono mul_kstar_le_kstar

/-- Giving up within the first part of a word. -/
theorem stop (h : Orderly words s xs complete) (hmore : ∃ word, word ∈ more) (hnot : ¬ weaker) :
    Orderly (words * more) s xs weaker := by
  obtain ⟨word, hword, hinit⟩ := h.initial
  obtain ⟨tail, htail⟩ := hmore
  exact ⟨h.failStop, ⟨word ++ tail, Language.append_mem_mul hword htail,
    hinit.trans (List.prefix_append _ _)⟩, fun hweaker => absurd hweaker hnot⟩

/-- A repetition that ends within a word. -/
theorem star_stop (h : Orderly words s xs complete) (hnot : ¬ complete) :
    Orderly (KStar.kstar words) s xs complete :=
  (h.stop ⟨[], Language.nil_mem_kstar words⟩ hnot).mono mul_kstar_le_kstar

/-- What directly precedes a turn whose message never comes first. -/
theorem preceded {marked leading : Message → Prop} {turn : Turn}
    (h : Orderly words s (xs ++ turn :: ys) complete) (hwords : Preceded marked leading words)
    (hmarked : marked (message turn)) :
    ∃ first last, xs = first ++ [last] ∧ leading (message last) ∧
      accepted (after s first) last = true := by
  obtain ⟨word, hword, tail, htail⟩ := h.initial
  have hsplit : word = messages xs ++ message turn :: (messages ys ++ tail) := by
    rw [← htail, messages_append, List.append_assoc]
    rfl
  obtain ⟨start, l, hstart, hleading⟩ := hwords word hword _ _ _ hsplit hmarked
  obtain ⟨first, rest, rfl, rfl, hlast⟩ := List.map_eq_append_iff.mp hstart
  obtain ⟨last, rfl, rfl⟩ := List.map_eq_singleton_iff.mp hlast
  exact ⟨first, last, rfl, hleading, h.failStop.before.right.1⟩

end Orderly

end Dialogue

/-! ## Programs whose executions are dialogues -/

namespace Program

variable {Call : Type} {Reply : Call → Type} {α β Turn : Type}
variable {events : Turn → Trace Call Reply}

/-- Every execution consists of the events of some turns, of which together
with the result `post` holds. -/
def Conducts (events : Turn → Trace Call Reply) (program : Program Call Reply α)
    (post : List Turn → α → Prop) : Prop :=
  ∀ trace a, program.Executes trace a → ∃ turns, trace = turns.flatMap events ∧ post turns a

theorem Conducts.mono {program : Program Call Reply α} {post weaker : List Turn → α → Prop}
    (h : Conducts events program post) (himp : ∀ turns a, post turns a → weaker turns a) :
    Conducts events program weaker := by
  intro trace a hexec
  obtain ⟨turns, htrace, hpost⟩ := h trace a hexec
  exact ⟨turns, htrace, himp turns a hpost⟩

theorem conducts_pure {a : α} {post : List Turn → α → Prop} (h : post [] a) :
    Conducts events (pure a : Program Call Reply α) post := by
  rintro _ _ ⟨rfl, rfl⟩
  exact ⟨[], rfl, h⟩

theorem conducts_bind {program : Program Call Reply α} {f : α → Program Call Reply β}
    {post : List Turn → α → Prop} {final : List Turn → β → Prop}
    (hprogram : Conducts events program post)
    (hnext : ∀ turns a, post turns a →
      Conducts events (f a) fun rest b => final (turns ++ rest) b) :
    Conducts events (program >>= f) final := by
  intro trace b hexec
  obtain ⟨first, a, second, rfl, hfirst, hsecond⟩ := executes_bind.mp hexec
  obtain ⟨turns, rfl, hpost⟩ := hprogram first a hfirst
  obtain ⟨rest, rfl, hfinal⟩ := hnext turns a hpost second b hsecond
  exact ⟨turns ++ rest, List.flatMap_append.symm, hfinal⟩

/-- Give up with `early` unless the first program succeeds. -/
theorem conducts_unless {program : Program Call Reply Bool} {early : α}
    {next : Program Call Reply α} {post : List Turn → Bool → Prop}
    {final : List Turn → α → Prop} (hprogram : Conducts events program post)
    (hearly : ∀ turns, post turns false → final turns early)
    (hnext : ∀ turns, post turns true →
      Conducts events next fun rest a => final (turns ++ rest) a) :
    Conducts events (program >>= fun ok => if (!ok) = true then pure early else next) final := by
  refine conducts_bind hprogram fun turns ok hpost => ?_
  cases ok with
  | false => exact conducts_pure (by rw [List.append_nil]; exact hearly turns hpost)
  | true => exact hnext turns hpost

theorem Conducts.and_result {program : Program Call Reply α} {post : List Turn → α → Prop}
    {fact : α → Prop} (h : Conducts events program post)
    (hfact : Returns fact program) :
    Conducts events program fun turns a => post turns a ∧ fact a := by
  intro trace a hexec
  obtain ⟨turns, htrace, hpost⟩ := h trace a hexec
  exact ⟨turns, htrace, hpost, hfact trace a hexec⟩

/-! ## Programs that have a certain execution -/

/-- Some execution consists of the events of some turns, of which together with
the result `post` holds. -/
def Admits (events : Turn → Trace Call Reply) (program : Program Call Reply α)
    (post : List Turn → α → Prop) : Prop :=
  ∃ turns a, program.Executes (turns.flatMap events) a ∧ post turns a

theorem admits_pure {a : α} {post : List Turn → α → Prop} (h : post [] a) :
    Admits events (pure a : Program Call Reply α) post :=
  ⟨[], a, ⟨rfl, rfl⟩, h⟩

theorem admits_bind {program : Program Call Reply α} {f : α → Program Call Reply β}
    {post : List Turn → α → Prop} {final : List Turn → β → Prop}
    (hprogram : Admits events program post)
    (hnext : ∀ turns a, post turns a → Admits events (f a) fun rest b => final (turns ++ rest) b) :
    Admits events (program >>= f) final := by
  obtain ⟨turns, a, hexec, hpost⟩ := hprogram
  obtain ⟨rest, b, hexec', hfinal⟩ := hnext turns a hpost
  refine ⟨turns ++ rest, b, executes_bind.mpr ⟨_, a, _, ?_, hexec, hexec'⟩, hfinal⟩
  exact List.flatMap_append

theorem Admits.mono {program : Program Call Reply α} {post weaker : List Turn → α → Prop}
    (h : Admits events program post) (himp : ∀ turns a, post turns a → weaker turns a) :
    Admits events program weaker := by
  obtain ⟨turns, a, hexec, hpost⟩ := h
  exact ⟨turns, a, hexec, himp turns a hpost⟩

/-! ## Programs that keep to a language -/

section Keeps

open Dialogue

variable {Message State : Type} [Dialogue Turn Message State]

/-- In every state the executions carry an initial part of a word and stop at a
refusal; where the result is `complete`, all was accepted and the word is whole. -/
def Keeps (events : Turn → Trace Call Reply) (words : Language Message)
    (program : Program Call Reply α) (complete : α → Prop) : Prop :=
  ∀ s : State, Conducts events program fun turns a => Orderly words s turns (complete a)

variable {words more : Language Message} {complete : α → Prop} {final : β → Prop}

theorem keeps_pure (a : α) : Keeps events (1 : Language Message) (pure a) complete :=
  fun _ => conducts_pure .nil

/-- Giving up before the first message. -/
theorem keeps_stop {a : α} (hwords : ∃ word, word ∈ words) (hnot : ¬ complete a) :
    Keeps events words (pure a) complete := by
  exact fun s => conducts_pure (.unbegun hwords hnot)

theorem Keeps.mono {program : Program Call Reply α} (h : Keeps events words program complete)
    (hle : words ≤ more) : Keeps events more program complete :=
  fun s => (h s).mono fun _ _ hturns => hturns.mono hle

/-- A first part that may be left out. -/
theorem Keeps.after_optional {program : Program Call Reply α}
    (h : Keeps events more program complete) :
    Keeps events ((1 + words) * more) program complete :=
  h.mono fun word hword => ⟨[], .inl rfl, word, hword, rfl⟩

/-- The second part is reached only from a complete first part; otherwise the
program returns at once. `fact` is what is known of the first result anyway. -/
theorem keeps_bind_of {program : Program Call Reply α} {f : α → Program Call Reply β}
    {fact : α → Prop} (hprogram : Keeps events words program complete)
    (hfact : Returns fact program) (hmore : ∃ word, word ∈ more)
    (hstop : ∀ a, fact a → ¬ complete a → ∃ b, f a = pure b ∧ ¬ final b)
    (hnext : ∀ a, fact a → complete a → Keeps events more (f a) final) :
    Keeps events (words * more) (program >>= f) final := by
  intro s
  refine conducts_bind ((hprogram s).and_result hfact) fun turns a hturns => ?_
  obtain ⟨horderly, hknown⟩ := hturns
  by_cases hcomplete : complete a
  · refine (hnext a hknown hcomplete (Dialogue.after s turns)).mono fun rest b hrest => ?_
    exact (horderly.weaken fun _ => hcomplete).append hrest
  · obtain ⟨b, hreturn, hnot⟩ := hstop a hknown hcomplete
    rw [hreturn]
    refine conducts_pure ?_
    rw [List.append_nil]
    exact horderly.stop hmore hnot

theorem keeps_bind {program : Program Call Reply α} {f : α → Program Call Reply β}
    (hprogram : Keeps events words program complete) (hmore : ∃ word, word ∈ more)
    (hstop : ∀ a, ¬ complete a → ∃ b, f a = pure b ∧ ¬ final b)
    (hnext : ∀ a, complete a → Keeps events more (f a) final) :
    Keeps events (words * more) (program >>= f) final :=
  keeps_bind_of hprogram (fun _ _ _ => trivial) hmore (fun a _ => hstop a) (fun a _ => hnext a)

/-- Give up unless the first part succeeds. -/
theorem keeps_unless {program : Program Call Reply Bool} {next : Program Call Reply β} {early : β}
    (hprogram : Keeps events words program (· = true)) (hmore : ∃ word, word ∈ more)
    (hearly : ¬ final early) (hnext : Keeps events more next final) :
    Keeps events (words * more)
      (program >>= fun ok => if (!ok) = true then pure early else next) final := by
  refine keeps_bind hprogram hmore (fun ok hok => ?_) fun ok hok => ?_
  · rw [Bool.not_eq_true] at hok
    subst hok
    exact ⟨early, rfl, hearly⟩
  · subst hok
    exact hnext

theorem keeps_ite {condition : Prop} [Decidable condition] {first second : Program Call Reply α}
    (hfirst : condition → Keeps events words first complete)
    (hsecond : ¬ condition → Keeps events words second complete) :
    Keeps events words (if condition then first else second) complete := by
  split
  next h => exact hfirst h
  next h => exact hsecond h

/-- A last step that performs nothing. -/
theorem keeps_map {program : Program Call Reply α} {f : α → β}
    (hprogram : Keeps events words program complete) (hfinal : ∀ a, final (f a) → complete a) :
    Keeps events words (program >>= fun a => pure (f a)) final := by
  intro s
  refine conducts_bind (hprogram s) fun turns a hturns => conducts_pure ?_
  rw [List.append_nil]
  exact hturns.weaken (hfinal a)

end Keeps

end Program

end Odin4.Interaction
