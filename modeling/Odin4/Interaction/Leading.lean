import Mathlib.Computability.Language

/-!
# What words lead from

Properties of whole sequences of messages that are shown from the end to the
front: each word of a language, put in front of a sequence with one property, makes
a sequence with another one.
-/

namespace Odin4.Interaction

variable {Message : Type}

/-- In front of what is as `behind` says, a word makes what is as `before` says. -/
def Leads (before behind : List Message → Prop) (words : Language Message) : Prop :=
  ∀ word ∈ words, ∀ rest, behind rest → before (word ++ rest)

section Rules

variable {before between behind : List Message → Prop} {words more : Language Message}

theorem leads_one : Leads before before 1 := by
  rintro _ rfl rest hrest
  exact hrest

theorem Leads.mul (hwords : Leads before between words) (hmore : Leads between behind more) :
    Leads before behind (words * more) := by
  rintro _ ⟨first, hfirst, second, hsecond, rfl⟩ rest hrest
  rw [List.append_assoc]
  exact hwords first hfirst _ (hmore second hsecond rest hrest)

theorem Leads.add (hwords : Leads before behind words) (hmore : Leads before behind more) :
    Leads before behind (words + more) := by
  rintro word (hword | hword)
  · exact hwords word hword
  · exact hmore word hword

/-- By induction on the parts of a word. -/
theorem Leads.star (hwords : Leads before before words) :
    Leads before before (KStar.kstar words) := by
  rintro _ ⟨parts, rfl, hparts⟩ rest hrest
  induction parts with
  | nil => exact hrest
  | cons part parts ih =>
      rw [List.flatten_cons, List.append_assoc]
      exact hwords part (hparts part List.mem_cons_self) _
        (ih fun other hother => hparts other (List.mem_cons_of_mem _ hother))

theorem Leads.whole {word : List Message} (h : Leads before behind words) (hword : word ∈ words)
    (hnil : behind []) : before word := by
  have hbefore := h word hword [] hnil
  rwa [List.append_nil] at hbefore

end Rules

end Odin4.Interaction
