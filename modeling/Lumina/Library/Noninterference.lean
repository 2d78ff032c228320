import Mathlib.Data.List.Basic

/-!
# Noninterference

A deterministic system executes events and answers each of them.  An observer makes some of the
events.  If the events of the others do not change what the observer sees, and what it sees decides
what its own events do to it, then the answers to its events are the same as if the others had made
none.

The two conditions may assume that the events to come are admissible, which is asked of the whole
list of events, and must then be so for what is left of it.
-/

namespace Noninterference

section Purge

variable {σ ε ω : Type} (step : ε → σ → σ × ω) (own : ε → Bool)

/-- The answers to the events of the observer. -/
def answers : List ε → σ → List ω
  | [], _ => []
  | e :: es, s =>
      if own e then (step e s).2 :: answers es (step e s).1 else answers es (step e s).1

/-- The state after a list of events. -/
def after : List ε → σ → σ
  | [], s => s
  | e :: es, s => after es (step e s).1

/-- The events of the observer. -/
def purge (es : List ε) : List ε := es.filter own

variable {step own}

/-- What makes the events of others invisible: `sees` relates states that the observer cannot tell
apart, and `admissible` is what is known of a state and the events to come. -/
structure Unwinding (step : ε → σ → σ × ω) (own : ε → Bool) (sees : σ → σ → Prop)
    (admissible : List ε → σ → Prop) : Prop where
  next : ∀ e es s, admissible (e :: es) s → admissible es (step e s).1
  respects : ∀ e es s, own e = false → admissible (e :: es) s → ∀ t, sees s t → sees (step e s).1 t
  consistent : ∀ e es es' s t, own e = true → admissible (e :: es) s → admissible (e :: es') t →
    sees s t → sees (step e s).1 (step e t).1 ∧ (step e s).2 = (step e t).2

/-- The answers to the observer, and what it sees in the end, are those of a run with its own events
alone. -/
theorem answers_purge {sees : σ → σ → Prop} {admissible : List ε → σ → Prop}
    (h : Unwinding step own sees admissible) (es : List ε) {s t : σ} (same : sees s t)
    (hs : admissible es s) (ht : admissible (purge own es) t) :
  answers step own es s = answers step own (purge own es) t ∧
    sees (after step es s) (after step (purge own es) t)
  := by
  induction es generalizing s t with
  | nil => exact ⟨rfl, same⟩
  | cons e es ih =>
    cases mine : own e with
    | true =>
      have split : purge own (e :: es) = e :: purge own es := List.filter_cons_of_pos mine
      rw [split] at ht ⊢
      obtain ⟨next, answer⟩ := h.consistent e es (purge own es) s t mine hs ht same
      obtain ⟨answers, final⟩ := ih next (h.next e es s hs) (h.next e _ t ht)
      refine ⟨?_, final⟩
      unfold Noninterference.answers
      rw [if_pos mine, if_pos mine, answer, answers]
    | false =>
      have stop : ¬ own e = true := by
        rw [mine]
        exact Bool.false_ne_true
      have split : purge own (e :: es) = purge own es := List.filter_cons_of_neg stop
      rw [split] at ht ⊢
      obtain ⟨answers, final⟩ := ih (h.respects e es s mine hs t same) (h.next e es s hs) ht
      refine ⟨?_, final⟩
      conv_lhs => unfold Noninterference.answers
      rw [if_neg stop, answers]

end Purge

end Noninterference
