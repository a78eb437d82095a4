import Mathlib.Data.List.Basic

/-!
# Programs that call an environment

A program is a finite tree: it either returns or performs one call and
branches on the reply. The environment is not part of the program. An
execution records every call with the reply that was given, so a statement
about all executions is a statement about every behaviour of the environment.
-/

namespace Odin4.Interaction

/-- A program over the calls `Call`, where the call `c` is answered by a value
of `Reply c`. -/
inductive Program (Call : Type) (Reply : Call → Type) (α : Type) where
  | done (result : α)
  | call (request : Call) (next : Reply request → Program Call Reply α)

/-- One performed call together with the reply of the environment. -/
structure Event (Call : Type) (Reply : Call → Type) where
  call : Call
  reply : Reply call

/-- The calls of an execution, in the order in which they were performed. -/
abbrev Trace (Call : Type) (Reply : Call → Type) := List (Event Call Reply)

/-- A deterministic environment answers from everything that happened so far. -/
abbrev Environment (Call : Type) (Reply : Call → Type) :=
  Trace Call Reply → (request : Call) → Reply request

namespace Program

variable {Call : Type} {Reply : Call → Type} {α β γ : Type}

/-- Sequential composition: the results of the first program select the second. -/
def bind : Program Call Reply α → (α → Program Call Reply β) → Program Call Reply β
  | .done a, f => f a
  | .call request next, f => .call request fun reply => (next reply).bind f

instance : Monad (Program Call Reply) where
  pure := .done
  bind := bind

/-- Perform a single call and return the reply. -/
def perform (request : Call) : Program Call Reply (Reply request) :=
  .call request .done

theorem bind_eq (program : Program Call Reply α) (f : α → Program Call Reply β) :
    program >>= f = program.bind f := rfl

theorem bind_done (program : Program Call Reply α) : program.bind .done = program := by
  induction program with
  | done a => rfl
  | call request next ih => exact congrArg (Program.call request) (funext ih)

protected theorem bind_assoc (program : Program Call Reply α) (f : α → Program Call Reply β)
    (g : β → Program Call Reply γ) :
    (program.bind f).bind g = program.bind fun a => (f a).bind g := by
  induction program with
  | done a => rfl
  | call request next ih => exact congrArg (Program.call request) (funext ih)

instance : LawfulMonad (Program Call Reply) :=
  LawfulMonad.mk' _ bind_done (fun _ _ => rfl) Program.bind_assoc

/-! ## Executions -/

/-- `program.Executes trace result` holds when some environment answers the
calls of `program` as `trace` records and the program then returns `result`. -/
def Executes : Program Call Reply α → Trace Call Reply → α → Prop
  | .done a, trace, result => trace = [] ∧ result = a
  | .call request next, trace, result =>
      ∃ reply rest, trace = ⟨request, reply⟩ :: rest ∧ (next reply).Executes rest result

@[simp] theorem executes_pure {a result : α} {trace : Trace Call Reply} :
    (pure a : Program Call Reply α).Executes trace result ↔ trace = [] ∧ result = a :=
  Iff.rfl

theorem executes_pure_pair {a x : α} {b y : β} {trace : Trace Call Reply} :
    (pure (a, b) : Program Call Reply (α × β)).Executes trace (x, y) ↔
      trace = [] ∧ x = a ∧ y = b := by
  rw [executes_pure, Prod.mk.injEq]

@[simp] theorem executes_perform {request : Call} {trace : Trace Call Reply}
    {reply : Reply request} :
    (perform request : Program Call Reply (Reply request)).Executes trace reply ↔
      trace = [⟨request, reply⟩] := by
  constructor
  · rintro ⟨_, _, rfl, rfl, rfl⟩
    rfl
  · rintro rfl
    exact ⟨reply, [], rfl, rfl, rfl⟩

/-- An execution of a composition splits into executions of its two parts. -/
theorem executes_bind {program : Program Call Reply α} {f : α → Program Call Reply β}
    {trace : Trace Call Reply} {result : β} :
    (program >>= f).Executes trace result ↔
      ∃ first a second, trace = first ++ second ∧ program.Executes first a ∧
        (f a).Executes second result := by
  rw [bind_eq]
  induction program generalizing trace with
  | done a =>
      constructor
      · intro h
        exact ⟨[], a, trace, rfl, ⟨rfl, rfl⟩, h⟩
      · rintro ⟨_, _, second, rfl, ⟨rfl, rfl⟩, h⟩
        exact h
  | call request next ih =>
      constructor
      · rintro ⟨reply, rest, rfl, h⟩
        obtain ⟨first, a, second, rfl, hfirst, hsecond⟩ := (ih reply).mp h
        exact ⟨_ :: first, a, second, rfl, ⟨reply, first, rfl, hfirst⟩, hsecond⟩
      · rintro ⟨_, a, second, rfl, ⟨reply, first, rfl, hfirst⟩, hsecond⟩
        exact ⟨reply, first ++ second, rfl, (ih reply).mpr ⟨first, a, second, rfl, hfirst, hsecond⟩⟩

theorem executes_map {program : Program Call Reply α} {f : α → β}
    {trace : Trace Call Reply} {result : β} :
    (f <$> program).Executes trace result ↔ ∃ a, program.Executes trace a ∧ result = f a := by
  rw [map_eq_pure_bind, executes_bind]
  constructor
  · rintro ⟨first, a, _, rfl, hfirst, rfl, rfl⟩
    exact ⟨a, by simpa using hfirst, rfl⟩
  · rintro ⟨a, h, rfl⟩
    exact ⟨trace, a, [], (List.append_nil _).symm, h, rfl, rfl⟩

/-- Run a program against a deterministic environment that has already seen `past`. -/
def run (environment : Environment Call Reply) (past : Trace Call Reply) :
    Program Call Reply α → Trace Call Reply × α
  | .done a => ([], a)
  | .call request next =>
      let event : Event Call Reply := ⟨request, environment past request⟩
      let rest := run environment (past ++ [event]) (next event.reply)
      (event :: rest.1, rest.2)

/-- What a deterministic environment produces is an execution. -/
theorem executes_run (environment : Environment Call Reply) (past : Trace Call Reply)
    (program : Program Call Reply α) :
    program.Executes (program.run environment past).1 (program.run environment past).2 := by
  induction program generalizing past with
  | done a => exact ⟨rfl, rfl⟩
  | call request next ih => exact ⟨_, _, rfl, ih _ _⟩

theorem run_bind (environment : Environment Call Reply) (past : Trace Call Reply)
    (program : Program Call Reply α) (f : α → Program Call Reply β) :
    (program >>= f).run environment past =
      ((program.run environment past).1 ++ ((f (program.run environment past).2).run environment
        (past ++ (program.run environment past).1)).1,
        ((f (program.run environment past).2).run environment
          (past ++ (program.run environment past).1)).2) := by
  induction program generalizing past with
  | done a => simp [run, bind_eq, Program.bind]
  | call request next ih =>
      rw [bind_eq, Program.bind, run, run]
      simp only [← bind_eq, ih, List.append_assoc, List.cons_append, List.nil_append]

/-- Two executions that see the same replies are one execution. -/
theorem Executes.unique {program : Program Call Reply α} {first second rest rest' : Trace Call Reply}
    {a b : α} (h : program.Executes first a) (h' : program.Executes second b)
    (htrace : first ++ rest = second ++ rest') : first = second ∧ a = b := by
  induction program generalizing first second with
  | done c =>
      obtain ⟨rfl, rfl⟩ := h
      obtain ⟨rfl, rfl⟩ := h'
      exact ⟨rfl, rfl⟩
  | call request next ih =>
      obtain ⟨reply, first, rfl, h⟩ := h
      obtain ⟨reply', second, rfl, h'⟩ := h'
      simp only [List.cons_append, List.cons.injEq, Event.mk.injEq, true_and] at htrace
      obtain ⟨hreply, hrest⟩ := htrace
      obtain rfl := eq_of_heq hreply
      obtain ⟨rfl, rfl⟩ := ih reply h h' hrest
      exact ⟨rfl, rfl⟩

/-- What a composition does behind a known execution of its first part. -/
theorem Executes.behind {program : Program Call Reply α} {f : α → Program Call Reply β}
    {first rest : Trace Call Reply} {a : α} {result : β} (hfirst : program.Executes first a)
    (h : (program >>= f).Executes (first ++ rest) result) : (f a).Executes rest result := by
  obtain ⟨first', a', rest', htrace, hfirst', hrest⟩ := executes_bind.mp h
  obtain ⟨rfl, rfl⟩ := hfirst.unique hfirst' htrace
  rw [List.append_cancel_left htrace]
  exact hrest

/-! ## Programs whose results satisfy a predicate -/

/-- Every result of every execution satisfies `fact`. -/
def Returns (fact : α → Prop) (program : Program Call Reply α) : Prop :=
  ∀ trace result, program.Executes trace result → fact result

theorem returns_pure {fact : α → Prop} {a : α} (h : fact a) :
    Returns fact (pure a : Program Call Reply α) := by
  rintro _ _ ⟨-, rfl⟩
  exact h

theorem returns_bind_of {known : α → Prop} {fact : β → Prop} {program : Program Call Reply α}
    {f : α → Program Call Reply β} (hprogram : Returns known program)
    (hnext : ∀ a, known a → Returns fact (f a)) : Returns fact (program >>= f) := by
  intro trace result hexec
  obtain ⟨first, a, second, -, hfirst, hsecond⟩ := executes_bind.mp hexec
  exact hnext a (hprogram first a hfirst) second result hsecond

/-- Only the last part of a composition returns. -/
theorem returns_bind {fact : β → Prop} {program : Program Call Reply α}
    {f : α → Program Call Reply β} (hnext : ∀ a, Returns fact (f a)) :
    Returns fact (program >>= f) :=
  returns_bind_of (fun _ _ _ => trivial : Returns (fun _ => True) program) fun a _ => hnext a

theorem returns_ite {fact : α → Prop} {condition : Prop} [Decidable condition]
    {first second : Program Call Reply α} (hfirst : condition → Returns fact first)
    (hsecond : ¬ condition → Returns fact second) :
    Returns fact (if condition then first else second) := by
  split
  next h => exact hfirst h
  next h => exact hsecond h

/-- Continuations need to agree only where the first part can return. -/
theorem bind_congr_of_returns {known : α → Prop} {program : Program Call Reply α}
    {f g : α → Program Call Reply β} (hknown : Returns known program)
    (hnext : ∀ a, known a → f a = g a) : program >>= f = program >>= g := by
  rw [bind_eq, bind_eq]
  induction program with
  | done a => exact hnext a (hknown [] a ⟨rfl, rfl⟩)
  | call request next ih =>
      refine congrArg (Program.call request) (funext fun reply => ih reply ?_)
      exact fun trace a hexec => hknown _ a ⟨reply, trace, rfl, hexec⟩

/-! ## Programs all of whose events satisfy a predicate -/

/-- Every event of every execution satisfies `allowed`. -/
def Emits (allowed : Event Call Reply → Prop) (program : Program Call Reply α) : Prop :=
  ∀ trace result, program.Executes trace result → ∀ event ∈ trace, allowed event

variable {allowed : Event Call Reply → Prop}

theorem emits_pure (a : α) : Emits allowed (pure a : Program Call Reply α) := by
  rintro _ _ ⟨rfl, rfl⟩ event hmem
  simp at hmem

theorem emits_perform {request : Call} (h : ∀ reply, allowed ⟨request, reply⟩) :
    Emits allowed (perform request : Program Call Reply (Reply request)) := by
  intro trace reply hexec event hmem
  rw [executes_perform] at hexec
  subst hexec
  rw [List.mem_singleton.mp hmem]
  exact h reply

/-- Only what the first part can return matters to the second. -/
theorem emits_bind_of {known : α → Prop} {program : Program Call Reply α}
    {f : α → Program Call Reply β} (hprogram : Emits allowed program)
    (hknown : Returns known program) (hnext : ∀ a, known a → Emits allowed (f a)) :
    Emits allowed (program >>= f) := by
  intro trace result hexec event hmem
  obtain ⟨first, a, second, rfl, hfirst, hsecond⟩ := executes_bind.mp hexec
  rcases List.mem_append.mp hmem with hmem | hmem
  · exact hprogram first a hfirst event hmem
  · exact hnext a (hknown first a hfirst) second result hsecond event hmem

theorem emits_bind {program : Program Call Reply α} {f : α → Program Call Reply β}
    (hprogram : Emits allowed program) (hnext : ∀ a, Emits allowed (f a)) :
    Emits allowed (program >>= f) :=
  emits_bind_of hprogram (fun _ _ _ => trivial : Returns (fun _ => True) program) fun a _ => hnext a

theorem emits_ite {condition : Prop} [Decidable condition] {first second : Program Call Reply α}
    (hfirst : condition → Emits allowed first) (hsecond : ¬ condition → Emits allowed second) :
    Emits allowed (if condition then first else second) := by
  split
  next h => exact hfirst h
  next h => exact hsecond h

/-- A call followed by a program that depends on its reply. -/
theorem emits_perform_bind {request : Call} {f : Reply request → Program Call Reply α}
    (h : ∀ reply, allowed ⟨request, reply⟩) (hnext : ∀ reply, Emits allowed (f reply)) :
    Emits allowed (perform request >>= f) :=
  emits_bind (emits_perform h) hnext

/-- A step that gives up early when it is refused. -/
theorem emits_unless {program : Program Call Reply Bool} {early : α} {next : Program Call Reply α}
    (hprogram : Emits allowed program) (hnext : Emits allowed next) :
    Emits allowed (program >>= fun ok => if (!ok) = true then pure early else next) :=
  emits_bind hprogram fun _ => emits_ite (fun _ => emits_pure early) fun _ => hnext

/-- A step that gives up early when there is no answer. -/
theorem emits_some {program : Program Call Reply (Option α)} {next : Option α → Program Call Reply β}
    {early : β} (hprogram : Emits allowed program) (hnone : next none = pure early)
    (hsome : ∀ a, Emits allowed (next (some a))) : Emits allowed (program >>= next) := by
  refine emits_bind hprogram fun answer? => ?_
  cases answer? with
  | none =>
      rw [hnone]
      exact emits_pure early
  | some answer => exact hsome answer

/-- Nothing is kept of events none of which counts. -/
theorem Emits.filterMap_eq_nil {f : Event Call Reply → Option β} {program : Program Call Reply α}
    {trace : Trace Call Reply} {a : α} (h : Emits (fun event => f event = none) program)
    (hexec : program.Executes trace a) : trace.filterMap f = [] :=
  List.filterMap_eq_nil_iff.mpr fun event hmem => h trace a hexec event hmem

theorem Emits.mono {wider : Event Call Reply → Prop} {program : Program Call Reply α}
    (hprogram : Emits allowed program) (hwider : ∀ event, allowed event → wider event) :
    Emits wider program :=
  fun trace result hexec event hmem => hwider event (hprogram trace result hexec event hmem)

end Program

end Odin4.Interaction
