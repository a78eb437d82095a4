import Odin4.Interaction.Program

/-!
# Programs whose calls have known answers

The answers to some calls may be known beforehand. A program that performs no
others has one result, which is found without an environment.
-/

namespace Odin4.Interaction

variable {Call : Type} {Reply : Call → Type} {α β : Type}

/-- Every call of the trace whose answer is known was answered so. -/
def AnsweredAs (known : (request : Call) → Option (Reply request))
    (trace : Trace Call Reply) : Prop :=
  ∀ event ∈ trace, ∀ reply, known event.call = some reply → event.reply = reply

theorem answeredAs_append {known : (request : Call) → Option (Reply request)}
    {first second : Trace Call Reply} : AnsweredAs known (first ++ second) ↔
      AnsweredAs known first ∧ AnsweredAs known second :=
  List.forall_mem_append

namespace Program

variable (known : (request : Call) → Option (Reply request))

/-- The result of a program all of whose calls have known answers. -/
def evaluate : Program Call Reply α → Option α
  | .done a => some a
  | .call request next => (known request).bind fun reply => (next reply).evaluate

@[simp] theorem evaluate_pure (a : α) : (pure a : Program Call Reply α).evaluate known = some a :=
  rfl

@[simp] theorem evaluate_perform (request : Call) :
    (perform request : Program Call Reply (Reply request)).evaluate known = known request := by
  change ((known request).bind fun reply => some reply) = known request
  cases known request <;> rfl

@[simp] theorem evaluate_bind (program : Program Call Reply α) (f : α → Program Call Reply β) :
    (program >>= f).evaluate known =
      (program.evaluate known).bind fun a => (f a).evaluate known := by
  rw [bind_eq]
  induction program with
  | done a => rfl
  | call request next ih =>
      change ((known request).bind fun reply => ((next reply).bind f).evaluate known) = _
      rw [funext ih, evaluate, Option.bind_assoc]

variable {known}

/-- An execution that was answered as known returns the known result, and all of
its calls are known. -/
theorem Executes.evaluated {program : Program Call Reply α} {trace : Trace Call Reply} {a b : α}
    (h : program.Executes trace b) (hanswered : AnsweredAs known trace)
    (hevaluate : program.evaluate known = some a) :
    b = a ∧ ∀ event ∈ trace, known event.call ≠ none := by
  induction program generalizing trace with
  | done c =>
      obtain ⟨rfl, rfl⟩ := h
      exact ⟨Option.some.inj hevaluate, by simp⟩
  | call request next ih =>
      obtain ⟨reply, rest, rfl, hrest⟩ := h
      obtain ⟨answer, hknown, hnext⟩ := Option.bind_eq_some_iff.mp hevaluate
      obtain ⟨hfirst, hanswered⟩ := List.forall_mem_cons.mp hanswered
      obtain rfl := hfirst answer hknown
      obtain ⟨rfl, hcalls⟩ := ih _ hrest hanswered hnext
      refine ⟨rfl, List.forall_mem_cons.mpr ⟨?_, hcalls⟩⟩
      rw [hknown]
      exact Option.some_ne_none _

/-- An environment that answers as known. -/
theorem answeredAs_run {environment : Environment Call Reply}
    (h : ∀ past request reply, known request = some reply → environment past request = reply)
    (program : Program Call Reply α) (past : Trace Call Reply) :
    AnsweredAs known (program.run environment past).1 := by
  induction program generalizing past with
  | done a => simp [run, AnsweredAs]
  | call request next ih =>
      intro event hmem
      rcases List.mem_cons.mp hmem with rfl | hmem
      · exact h past request
      · exact ih _ _ event hmem

end Program

end Odin4.Interaction
