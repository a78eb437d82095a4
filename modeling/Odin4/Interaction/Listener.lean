import Mathlib.Data.List.Infix
import Odin4.Interaction.Program

/-!
# Listeners

A listener takes messages one after the other, each in its present state, or
refuses one that does not fit. What a program makes a listener do is said by a
triple: from this state it takes everything that the program shows, whatever the
replies, and its state behind is related to the result.
-/

namespace Odin4.Interaction

/-! ## Sequences of messages -/

section Messages

variable {State Message : Type} (take : State → Message → Option State)

/-- The state behind some messages, unless one of them is refused. -/
def listen (s : State) (messages : List Message) : Option State := messages.foldlM take s

variable {take} {s next last : State} {message : Message} {first second messages : List Message}

@[simp] theorem listen_nil : listen take s [] = some s := rfl

theorem listen_cons : listen take s (message :: messages) =
    (take s message).bind fun next => listen take next messages :=
  List.foldlM_cons

theorem listen_append : listen take s (first ++ second) =
    (listen take s first).bind fun next => listen take next second :=
  List.foldlM_append

theorem listen_trans (hfirst : listen take s first = some next)
    (hsecond : listen take next second = some last) :
    listen take s (first ++ second) = some last := by
  rw [listen_append, hfirst, Option.bind_some, hsecond]

/-- Messages none of which changes the state. -/
theorem listen_fixed (h : ∀ message ∈ messages, take s message = some s) :
    listen take s messages = some s := by
  induction messages with
  | nil => rfl
  | cons message rest ih =>
      obtain ⟨hmessage, hrest⟩ := List.forall_mem_cons.mp h
      rw [listen_cons, hmessage, Option.bind_some, ih hrest]

/-- What relates the states around each message relates those around them all. -/
theorem listen_relates (related : State → State → Prop) (hrefl : ∀ s, related s s)
    (htrans : ∀ s next last, related s next → related next last → related s last)
    (hstep : ∀ message ∈ messages, ∀ s next, take s message = some next → related s next)
    (h : listen take s messages = some last) : related s last := by
  induction messages generalizing s with
  | nil =>
      obtain rfl := Option.some.inj h
      exact hrefl s
  | cons message rest ih =>
      obtain ⟨hmessage, hrest⟩ := List.forall_mem_cons.mp hstep
      rw [listen_cons] at h
      obtain ⟨next, hnext, h⟩ := Option.bind_eq_some_iff.mp h
      exact htrans s next last (hmessage s next hnext) (ih hrest h)

/-- Whoever takes all the messages has taken the first ones. -/
theorem listen_initial (hinit : first <+: messages) (h : listen take s messages = some last) :
    ∃ next rest, listen take s first = some next ∧ messages = first ++ rest ∧
      listen take next rest = some last := by
  obtain ⟨rest, rfl⟩ := hinit
  rw [listen_append] at h
  obtain ⟨next, hnext, hrest⟩ := Option.bind_eq_some_iff.mp h
  exact ⟨next, rest, hnext, rfl, hrest⟩

end Messages

/-! ## Programs -/

section Programs

open Program

variable {Call : Type} {Reply : Call → Type} {State Message α β : Type}
variable (view : Event Call Reply → Option Message) (take : State → Message → Option State)

/-- From `s` the listener takes what every execution of the program shows, and
`post` holds of the result and the state behind. -/
def Hears (s : State) (program : Program Call Reply α) (post : α → State → Prop) : Prop :=
  ∀ trace a, program.Executes trace a →
    ∃ next, listen take s (trace.filterMap view) = some next ∧ post a next

variable {view take} {s : State} {post : α → State → Prop}

theorem hears_pure {a : α} (h : post a s) : Hears view take s (pure a) post := by
  rintro _ _ ⟨rfl, rfl⟩
  exact ⟨s, rfl, h⟩

theorem hears_bind {program : Program Call Reply α} {f : α → Program Call Reply β}
    {more : β → State → Prop} (hprogram : Hears view take s program post)
    (hnext : ∀ a next, post a next → Hears view take next (f a) more) :
    Hears view take s (program >>= f) more := by
  intro trace b hexec
  obtain ⟨first, a, second, rfl, hfirst, hsecond⟩ := executes_bind.mp hexec
  obtain ⟨next, hlisten, hpost⟩ := hprogram first a hfirst
  obtain ⟨last, hlast, hmore⟩ := hnext a next hpost second b hsecond
  rw [List.filterMap_append]
  exact ⟨last, listen_trans hlisten hlast, hmore⟩

theorem Hears.mono {program : Program Call Reply α} {weaker : α → State → Prop}
    (h : Hears view take s program post) (himp : ∀ a next, post a next → weaker a next) :
    Hears view take s program weaker := by
  intro trace a hexec
  obtain ⟨next, hlisten, hpost⟩ := h trace a hexec
  exact ⟨next, hlisten, himp a next hpost⟩

/-- What is known of the results may be used. -/
theorem Hears.and_returns {program : Program Call Reply α} {fact : α → Prop}
    (h : Hears view take s program post) (hreturns : Returns fact program) :
    Hears view take s program fun a next => post a next ∧ fact a := by
  intro trace a hexec
  obtain ⟨next, hlisten, hpost⟩ := h trace a hexec
  exact ⟨next, hlisten, hpost, hreturns trace a hexec⟩

theorem hears_ite {condition : Prop} [Decidable condition] {first second : Program Call Reply α}
    (hfirst : condition → Hears view take s first post)
    (hsecond : ¬ condition → Hears view take s second post) :
    Hears view take s (if condition then first else second) post := by
  split
  next h => exact hfirst h
  next h => exact hsecond h

/-- A step that gives up early when it is refused. -/
theorem hears_unless {program : Program Call Reply Bool} {early : α}
    {rest : Program Call Reply α} {known : Bool → State → Prop}
    (hprogram : Hears view take s program known)
    (hearly : ∀ next, known false next → post early next)
    (hrest : ∀ next, known true next → Hears view take next rest post) :
    Hears view take s (program >>= fun ok => if (!ok) = true then pure early else rest) post := by
  refine hears_bind hprogram fun ok next hknown => ?_
  cases ok with
  | false => exact hears_pure (hearly next hknown)
  | true => exact hrest next hknown

end Programs

end Odin4.Interaction
