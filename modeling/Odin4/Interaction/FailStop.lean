import Odin4.Interaction.Program

/-!
# Programs that stop at a failure

Some events count as failures. A program stops at them if none of its executions
goes on behind one, and the result then says so.
-/

namespace Odin4.Interaction.Program

variable {Call : Type} {Reply : Call → Type} {α β : Type}
variable {failing : Event Call Reply → Prop} {failed : α → Prop} {final : β → Prop}

/-- Nothing follows a failing event, and the result is a failure. -/
def StopsAt (failing : Event Call Reply → Prop) (failed : α → Prop)
    (program : Program Call Reply α) : Prop :=
  ∀ trace a, program.Executes trace a → ∀ before event after,
    trace = before ++ event :: after → failing event → after = [] ∧ failed a

theorem stopsAt_pure (a : α) : StopsAt failing failed (pure a : Program Call Reply α) := by
  rintro trace result ⟨rfl, -⟩ before event after htrace
  simp at htrace

theorem stopsAt_perform {request : Call} {failed : Reply request → Prop}
    (h : ∀ reply, failing ⟨request, reply⟩ → failed reply) :
    StopsAt failing failed (perform request : Program Call Reply (Reply request)) := by
  intro trace reply hexec before event after htrace hfailing
  rw [executes_perform] at hexec
  rw [hexec] at htrace
  obtain ⟨rfl, htrace⟩ | ⟨rest, rfl, hrest⟩ := List.cons_eq_append_iff.mp htrace
  · obtain ⟨rfl, rfl⟩ := List.cons.inj htrace
    exact ⟨rfl, h reply hfailing⟩
  · simp at hrest

/-- A failure of the first part is passed on at once. -/
theorem stopsAt_bind {program : Program Call Reply α} {f : α → Program Call Reply β}
    (hprogram : StopsAt failing failed program)
    (hstop : ∀ a, failed a → ∃ b, f a = pure b ∧ final b)
    (hnext : ∀ a, StopsAt failing final (f a)) : StopsAt failing final (program >>= f) := by
  intro trace b hexec before event after htrace hfailing
  obtain ⟨first, a, second, rfl, hfirst, hsecond⟩ := executes_bind.mp hexec
  obtain ⟨tail, rfl, hrest⟩ | ⟨tail, rfl, hfirstSplit⟩ := List.append_eq_append_iff.mp htrace
  · exact hnext a _ b hsecond tail event after hrest hfailing
  · cases tail with
    | nil => exact hnext a _ b hsecond [] event after hfirstSplit.symm hfailing
    | cons event' tail =>
        obtain ⟨rfl, rfl⟩ := List.cons.inj hfirstSplit
        obtain ⟨rfl, hfailed⟩ := hprogram _ a hfirst before event tail rfl hfailing
        obtain ⟨b', hreturn, hfinal⟩ := hstop a hfailed
        rw [hreturn] at hsecond
        obtain ⟨rfl, rfl⟩ := hsecond
        exact ⟨rfl, hfinal⟩

theorem stopsAt_map {program : Program Call Reply α} {f : α → β}
    (h : StopsAt failing failed program) (hfinal : ∀ a, failed a → final (f a)) :
    StopsAt failing final (f <$> program) := by
  rw [map_eq_pure_bind]
  exact stopsAt_bind h (fun a ha => ⟨f a, rfl, hfinal a ha⟩) fun a => stopsAt_pure (f a)

theorem stopsAt_ite {condition : Prop} [Decidable condition] {first second : Program Call Reply α}
    (hfirst : condition → StopsAt failing failed first)
    (hsecond : ¬ condition → StopsAt failing failed second) :
    StopsAt failing failed (if condition then first else second) := by
  split
  next h => exact hfirst h
  next h => exact hsecond h

end Odin4.Interaction.Program
