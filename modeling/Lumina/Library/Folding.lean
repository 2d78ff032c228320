import Mathlib.Data.List.Forall2

/-!
# Folds whose steps keep something as long as nothing goes wrong

`Throughout f Ok s l`: as the fold of `f` goes through `l` from `s`, each step that it takes is in
order.  Where a step keeps a property exactly if it is in order, the property holds at the end of a
fold exactly if it holds at the beginning and the steps are in order throughout.
-/

namespace Folding

variable {σ α β : Type} (f : σ → α → σ)

/-- Every step that the fold takes is in order. -/
def Throughout (Ok : σ → α → Prop) (s : σ) (l : List α) : Prop :=
  ∀ before a after, l = before ++ a :: after → Ok (before.foldl f s) a

theorem throughout_nil (Ok : σ → α → Prop) (s : σ) :
  Throughout f Ok s []
  := by
  intro before a after eq
  exact absurd eq.symm (List.append_ne_nil_of_right_ne_nil _ (List.cons_ne_nil _ _))

theorem throughout_cons (Ok : σ → α → Prop) (s : σ) (a : α) (l : List α) :
  Throughout f Ok s (a :: l) ↔ Ok s a ∧ Throughout f Ok (f s a) l
  := by
  constructor
  · intro h
    refine ⟨h [] a l rfl, ?_⟩
    rintro before b after rfl
    exact h (a :: before) b after rfl
  · rintro ⟨first, rest⟩ before b after eq
    cases before with
    | nil =>
      obtain ⟨rfl, rfl⟩ := List.cons.inj eq
      exact first
    | cons a' before =>
      obtain ⟨rfl, rfl⟩ := List.cons.inj eq
      exact rest before b after rfl

variable {f}

/-- A property that a step keeps exactly if it is in order. -/
theorem foldl_iff_throughout {Sound Good : σ → Prop} {Ok : σ → α → Prop} {l : List α}
    (sound : ∀ s, ∀ a ∈ l, Sound s → Sound (f s a))
    (step : ∀ s, ∀ a ∈ l, Sound s → (Good (f s a) ↔ Good s ∧ Ok s a)) {s : σ} (h : Sound s) :
  Good (l.foldl f s) ↔ Good s ∧ Throughout f Ok s l
  := by
  induction l generalizing s with
  | nil => exact ⟨fun good => ⟨good, throughout_nil f Ok s⟩, And.left⟩
  | cons a l ih =>
    have here := step s a List.mem_cons_self h
    have there := ih (fun s b mem => sound s b (List.mem_cons_of_mem a mem))
      (fun s b mem => step s b (List.mem_cons_of_mem a mem)) (sound s a List.mem_cons_self h)
    rw [List.foldl_cons, there, here, throughout_cons, and_assoc]

/-- One more pair of entries of two lists that correspond. -/
theorem forall₂_concat {R : α → β → Prop} {l : List α} {l' : List β} {a : α} {b : β} :
  List.Forall₂ R (l ++ [a]) (l' ++ [b]) ↔ List.Forall₂ R l l' ∧ R a b
  := by
  rw [← List.forall₂_reverse_iff, List.reverse_concat, List.reverse_concat, List.forall₂_cons,
    List.forall₂_reverse_iff, and_comm]

end Folding
