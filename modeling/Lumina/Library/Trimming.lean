import Mathlib.Data.List.DropRight
import Mathlib.Data.List.Induction

/-!
# Trimming

What is dropped at the beginning of a list, and at its end.
-/

namespace Trimming

variable {α : Type} {p q : α → Bool}

/-- If all that a filter removes is trimmed, it may be removed before. -/
theorem filter_dropWhile (h : ∀ a, q a = false → p a = true) (l : List α) :
  (l.dropWhile p).filter q = (l.filter q).dropWhile p
  := by
  induction l with
  | nil => rfl
  | cons a l ih =>
    cases hp : p a with
    | true =>
      rw [List.dropWhile_cons_of_pos hp, ih, List.filter_cons]
      split_ifs
      · rw [List.dropWhile_cons_of_pos hp]
      · rfl
    | false =>
      have kept : q a = true := by
        by_contra removed
        rw [h a (Bool.not_eq_true _ ▸ removed)] at hp
        cases hp
      have stop : ¬ p a = true := by
        rw [hp]
        exact Bool.false_ne_true
      rw [List.dropWhile_cons_of_neg stop, List.filter_cons, if_pos kept,
        List.dropWhile_cons_of_neg stop]

theorem filter_rdropWhile (h : ∀ a, q a = false → p a = true) (l : List α) :
  (l.rdropWhile p).filter q = (l.filter q).rdropWhile p
  := by
  rw [List.rdropWhile, List.filter_reverse, filter_dropWhile h, List.filter_reverse, List.rdropWhile]

theorem rdropWhile_append_of_forall {l₂ : List α} (h : ∀ a ∈ l₂, p a = true) (l₁ : List α) :
  (l₁ ++ l₂).rdropWhile p = l₁.rdropWhile p
  := by
  induction l₂ using List.reverseRecOn with
  | nil => rw [List.append_nil]
  | append_singleton l₂ a ih =>
    rw [← List.append_assoc, List.rdropWhile_concat_pos _ _ _ (h a (by simp)),
      ih fun b hb => h b (List.mem_append_left [a] hb)]

/-- Nothing is trimmed before something that is kept. -/
theorem rdropWhile_append_of_exists {l₂ : List α} (h : ∃ a ∈ l₂, p a = false) (l₁ : List α) :
  (l₁ ++ l₂).rdropWhile p = l₁ ++ l₂.rdropWhile p
  := by
  induction l₂ using List.reverseRecOn with
  | nil =>
    obtain ⟨a, ha, -⟩ := h
    cases ha
  | append_singleton l₂ a ih =>
    cases hp : p a with
    | true =>
      rw [← List.append_assoc, List.rdropWhile_concat_pos _ _ _ hp,
        List.rdropWhile_concat_pos _ _ _ hp]
      apply ih
      obtain ⟨b, hb, kept⟩ := h
      rcases List.mem_append.mp hb with hb | hb
      · exact ⟨b, hb, kept⟩
      · rw [List.mem_singleton.mp hb, hp] at kept
        cases kept
    | false =>
      have stop : ¬ p a = true := by
        rw [hp]
        exact Bool.false_ne_true
      rw [← List.append_assoc, List.rdropWhile_concat_neg _ _ _ stop,
        List.rdropWhile_concat_neg _ _ _ stop, List.append_assoc]

/-- The two ends may be trimmed in either order. -/
theorem rdropWhile_dropWhile (p q : α → Bool) (l : List α) :
  (l.dropWhile p).rdropWhile q = (l.rdropWhile q).dropWhile p
  := by
  induction l using List.reverseRecOn with
  | nil => rfl
  | append_singleton l a ih =>
    rw [List.rdropWhile_concat, List.dropWhile_append]
    cases hq : q a with
    | true =>
      rw [if_pos rfl, ← ih]
      split_ifs with all
      · rw [List.isEmpty_iff.mp all]
        apply List.rdropWhile_eq_nil_iff.mpr
        intro b hb
        rw [List.mem_singleton.mp ((List.dropWhile_sublist p).subset hb), hq]
      · exact List.rdropWhile_concat_pos _ _ _ hq
    | false =>
      have stop : ¬ q a = true := by
        rw [hq]
        exact Bool.false_ne_true
      rw [if_neg Bool.false_ne_true, List.dropWhile_append]
      split_ifs with all
      · cases hp : p a with
        | true =>
          rw [List.dropWhile_cons_of_pos hp]
          rfl
        | false =>
          rw [List.dropWhile_cons_of_neg (by rw [hp]; exact Bool.false_ne_true)]
          exact List.rdropWhile_concat_neg q [] a stop
      · exact List.rdropWhile_concat_neg _ _ _ stop

end Trimming
