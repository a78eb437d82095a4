import Odin4.Interaction.LabelledSteps
import Odin4.Interaction.Program

/-!
# Calls carried out by programs

A handler carries out every call of one interface by a program over another,
and may keep a state from call to call. With a handler a program over the first
interface becomes a program over the second. Its executions are those of the
original program in which every call stands for the calls that carried it out.
-/

namespace Odin4.Interaction

variable {Call Call' : Type} {Reply : Call → Type} {Reply' : Call' → Type} {State α β : Type}

/-- How the calls of one interface are carried out over another. -/
abbrev Handler (Call : Type) (Reply : Call → Type) (Call' : Type) (Reply' : Call' → Type)
    (State : Type) :=
  (request : Call) → State → Program Call' Reply' (Reply request × State)

/-- A call with its reply, and the calls that carried it out. -/
structure CarriedCall (Call : Type) (Reply : Call → Type) (Call' : Type)
    (Reply' : Call' → Type) where
  event : Event Call Reply
  below : Trace Call' Reply'

/-- The handler carries out one call and moves to another state. -/
def Handler.CarriesOut (handler : Handler Call Reply Call' Reply' State) (s : State)
    (carried : CarriedCall Call Reply Call' Reply') (s' : State) : Prop :=
  (handler carried.event.call s).Executes carried.below (carried.event.reply, s')

namespace Program

/-- Carry out every call of a program by the handler. -/
def implement (handler : Handler Call Reply Call' Reply' State) :
    Program Call Reply α → State → Program Call' Reply' (α × State)
  | .done a, s => pure (a, s)
  | .call request next, s => do
      let outcome ← handler request s
      (next outcome.1).implement handler outcome.2

variable {handler : Handler Call Reply Call' Reply' State} {program : Program Call Reply α}
variable {s s' : State} {trace : Trace Call' Reply'} {a : α}

/-- An execution with a handler is an execution of the original program in which
every call has been carried out in turn. -/
theorem executes_implement : (program.implement handler s).Executes trace (a, s') ↔
    ∃ carried : List (CarriedCall Call Reply Call' Reply'),
      Steps handler.CarriesOut s carried s' ∧
        program.Executes (carried.map CarriedCall.event) a ∧
          trace = carried.flatMap CarriedCall.below := by
  induction program generalizing s trace with
  | done b =>
      constructor
      · rintro ⟨rfl, hresult⟩
        obtain ⟨rfl, rfl⟩ := Prod.mk.inj hresult
        exact ⟨[], Steps.refl _, ⟨rfl, rfl⟩, rfl⟩
      · rintro ⟨carried, hsteps, ⟨hnil, rfl⟩, rfl⟩
        obtain rfl := List.map_eq_nil_iff.mp hnil
        obtain rfl := hsteps
        exact ⟨rfl, rfl⟩
  | call request next ih =>
      constructor
      · intro hexec
        obtain ⟨first, ⟨reply, middle⟩, second, rfl, hfirst, hsecond⟩ := executes_bind.mp hexec
        obtain ⟨carried, hsteps, hnext, rfl⟩ := (ih reply).mp hsecond
        exact ⟨⟨⟨request, reply⟩, first⟩ :: carried, ⟨middle, hfirst, hsteps⟩,
          ⟨reply, _, rfl, hnext⟩, rfl⟩
      · rintro ⟨carried, hsteps, ⟨reply, rest, hevents, hnext⟩, rfl⟩
        obtain ⟨⟨event, below⟩, carried, rfl, hevent, rfl⟩ := List.map_eq_cons_iff.mp hevents
        obtain rfl : event = ⟨request, reply⟩ := hevent
        obtain ⟨middle, hfirst, hsteps⟩ := hsteps
        exact executes_bind.mpr ⟨below, (reply, middle), _, rfl, hfirst,
          (ih reply).mpr ⟨carried, hsteps, hnext, rfl⟩⟩

end Program

end Odin4.Interaction
