import Mathlib.Data.List.Basic

/-!
This file contains the past operator "since" for a list of events.
-/

namespace Alpamayo

variable {A : Type} {starts : List A → A → Prop} {holds : A → Prop} {events : List A} {last : A}

/-- An event satisfied the first predicate, which may look at the events before it, and all events after
it satisfied the second one. -/
def Since (starts : List A → A → Prop) (holds : A → Prop) (events : List A) : Prop :=
  ∃ before event after, events = before ++ event :: after ∧ starts before event ∧
    ∀ later ∈ after, holds later

@[simp] theorem not_since_nil : ¬ Since starts holds [] := by
  rintro ⟨before, event, after, same, -⟩
  simp at same

/-- The last event starts the period or continues it. -/
theorem since_concat : Since starts holds (events ++ [last]) ↔
    starts events last ∨ (Since starts holds events ∧ holds last) := by
  constructor
  · rintro ⟨before, event, after, same, started, kept⟩
    rcases List.eq_nil_or_concat after with rfl | ⟨start, final, rfl⟩
    · obtain ⟨rfl, rfl⟩ := List.append_singleton_inj.mp same
      exact Or.inl started
    · rw [List.concat_eq_append, ← List.cons_append, ← List.append_assoc] at same
      obtain ⟨rfl, rfl⟩ := List.append_singleton_inj.mp same
      exact Or.inr ⟨⟨before, event, start, rfl, started, fun later member =>
        kept later (by simp [member])⟩, kept last (by simp)⟩
  · rintro (started | ⟨⟨before, event, after, rfl, started, kept⟩, continued⟩)
    · exact ⟨events, last, [], rfl, started, by simp⟩
    · refine ⟨before, event, after ++ [last], by simp, started, ?_⟩
      intro later member
      rcases List.mem_append.mp member with member | member
      · exact kept later member
      · rw [List.mem_singleton.mp member]
        exact continued

/-- Weaker predicates hold since the same event. -/
theorem Since.mono {starts' : List A → A → Prop} {holds' : A → Prop}
    (since : Since starts holds events)
    (weaker : ∀ before event, starts before event → starts' before event)
    (kept : ∀ event, holds event → holds' event) : Since starts' holds' events := by
  obtain ⟨before, event, after, same, started, continued⟩ := since
  exact ⟨before, event, after, same, weaker before event started,
    fun later member => kept later (continued later member)⟩

end Alpamayo
