import Mathlib.Algebra.GroupWithZero.Nat
import Mathlib.Data.List.Infix
import Mathlib.Data.Nat.Notation
import Mathlib.Order.Basic

/-!
# Occurrences of a pattern in a text

How often a pattern occurs in a text that is put together from others, and what is left of it when
it is replaced.  An element that is not in the pattern keeps the occurrences on its two sides apart.
-/

namespace Occurrences

variable {α : Type*}

section

variable [DecidableEq α]

/-- The number of places in a text where a pattern occurs that is not empty. -/
def occurrences (pattern : List α) : List α → ℕ
  | [] => 0
  | c :: text => (if pattern <+: c :: text then 1 else 0) + occurrences pattern text

theorem occurrences_cons_of_absent {pattern text : List α} {c : α}
    (h : ¬ pattern <+: c :: text) :
  occurrences pattern (c :: text) = occurrences pattern text
  := by
  rw [occurrences, if_neg h, Nat.zero_add]

theorem occurrences_eq_zero_iff {pattern text : List α} (nonempty : pattern ≠ []) :
  occurrences pattern text = 0 ↔ ¬ pattern <:+: text
  := by
  induction text with
  | nil =>
    constructor
    · intro _ inside
      exact nonempty (List.infix_nil.mp inside)
    · exact fun _ => rfl
  | cons c text ih =>
    rw [List.infix_cons_iff, occurrences, not_or, ← ih]
    split_ifs with here
    · constructor
      · intro zero
        exact absurd zero (by omega)
      · intro h
        exact absurd here h.1
    · rw [Nat.zero_add]
      exact (and_iff_right here).symm

/-- A text that lacks an element of the pattern has no occurrence. -/
theorem occurrences_eq_zero {pattern text : List α} {x : α} (h : x ∈ pattern) (lacks : x ∉ text) :
  occurrences pattern text = 0
  := by
  apply (occurrences_eq_zero_iff (List.ne_nil_of_mem h)).mpr
  intro inside
  exact lacks (inside.subset h)

end

/-! ### The parts of a text -/

theorem prefix_append_cons {pattern : List α} {x : α} (h : x ∉ pattern) (a b : List α) :
  pattern <+: a ++ x :: b ↔ pattern <+: a
  := by
  induction a generalizing pattern with
  | nil =>
    rw [List.nil_append, List.prefix_cons_iff, List.prefix_nil]
    constructor
    · rintro (none | ⟨rest, rfl, -⟩)
      · exact none
      · exact absurd List.mem_cons_self h
    · exact Or.inl
  | cons c a ih =>
    rw [List.cons_append, List.prefix_cons_iff, List.prefix_cons_iff]
    apply or_congr_right
    apply exists_congr
    intro rest
    apply and_congr_right
    rintro rfl
    exact ih (List.not_mem_of_not_mem_cons h)

theorem prefix_append_of_getLast {pattern : List α} (nonempty : pattern ≠ []) (a : List α)
    {b : List α} (h : ∀ c ∈ b, pattern.getLast? ≠ some c) :
  pattern <+: a ++ b ↔ pattern <+: a
  := by
  induction b using List.reverseRecOn with
  | nil => rw [List.append_nil]
  | append_singleton b c ih =>
    rw [List.forall_mem_append, List.forall_mem_singleton] at h
    rw [← List.append_assoc, List.prefix_concat_iff, ih h.1]
    apply or_iff_right
    rintro rfl
    exact h.2 List.getLast?_concat

section

variable [DecidableEq α]

theorem occurrences_append_cons {pattern : List α} {x : α} (h : x ∉ pattern)
    (nonempty : pattern ≠ []) (a b : List α) :
  occurrences pattern (a ++ x :: b) = occurrences pattern a + occurrences pattern b
  := by
  induction a with
  | nil =>
    rw [List.nil_append, occurrences, Nat.zero_add]
    apply occurrences_cons_of_absent
    have only := prefix_append_cons h [] b
    rw [List.nil_append, List.prefix_nil] at only
    exact mt only.mp nonempty
  | cons c a ih =>
    have same := prefix_append_cons h (c :: a) b
    rw [List.cons_append] at same
    rw [List.cons_append, occurrences, occurrences, ih, Nat.add_assoc]
    simp only [same]

/-- What cannot end the pattern adds no occurrence after a text. -/
theorem occurrences_append_of_getLast {pattern : List α} (nonempty : pattern ≠ []) (a : List α)
    {b : List α} (h : ∀ c ∈ b, pattern.getLast? ≠ some c) :
  occurrences pattern (a ++ b) = occurrences pattern a
  := by
  induction a with
  | nil =>
    apply occurrences_eq_zero (List.getLast_mem nonempty)
    intro mem
    exact h _ mem (List.getLast?_eq_some_getLast nonempty)
  | cons c a ih =>
    have same := prefix_append_of_getLast nonempty (c :: a) h
    rw [List.cons_append] at same
    rw [List.cons_append, occurrences, occurrences, ih]
    simp only [same]

/-- What cannot begin the pattern adds no occurrence before a text. -/
theorem occurrences_append_of_head {pattern : List α} (nonempty : pattern ≠ []) {a : List α}
    (b : List α) (h : ∀ c ∈ a, pattern.head? ≠ some c) :
  occurrences pattern (a ++ b) = occurrences pattern b
  := by
  induction a with
  | nil => rw [List.nil_append]
  | cons c a ih =>
    rw [List.forall_mem_cons] at h
    rw [List.cons_append, occurrences_cons_of_absent, ih h.2]
    intro begins
    rcases List.prefix_cons_iff.mp begins with none | ⟨rest, rfl, -⟩
    · exact nonempty none
    · exact h.1 rfl

end

/-! ### Words apart from a pattern -/

/-- A word that takes part in no occurrence of a pattern: it cannot begin before an element that is
not in the pattern, and it cannot end after it. -/
def Inert (pattern word : List α) : Prop :=
  ∃ before x after, word = before ++ x :: after ∧ x ∉ pattern ∧
    (∀ c ∈ before, pattern.getLast? ≠ some c) ∧ ∀ c ∈ after, pattern.head? ≠ some c

section

variable [DecidableEq α]

theorem Inert.occurrences_append {pattern word : List α} (h : Inert pattern word)
    (nonempty : pattern ≠ []) (a b : List α) :
  occurrences pattern (a ++ word ++ b) = occurrences pattern a + occurrences pattern b
  := by
  obtain ⟨before, x, after, rfl, foreign, ends, begins⟩ := h
  rw [List.append_assoc, List.append_assoc, ← List.append_assoc, List.cons_append,
    occurrences_append_cons foreign nonempty, occurrences_append_of_getLast nonempty a ends,
    occurrences_append_of_head nonempty b begins]

theorem Inert.occurrences_intercalate {pattern sep : List α} (h : Inert pattern sep)
    (nonempty : pattern ≠ []) (texts : List (List α)) :
  occurrences pattern (sep.intercalate texts) = (texts.map (occurrences pattern)).sum
  := by
  induction texts with
  | nil => rfl
  | cons text texts ih =>
    cases texts with
    | nil => rw [List.intercalate_singleton, List.map_singleton, List.sum_singleton]
    | cons next texts =>
      rw [List.intercalate_cons_cons, h.occurrences_append nonempty, ih, ← List.sum_cons,
        ← List.map_cons]

/-! ### Replacement -/

/-- The replacement of a pattern that is not empty, from a place in a text on; the elements of the
last occurrence are skipped. -/
def replaceFrom (old new : List α) : (skip : ℕ) → List α → List α
  | _, [] => []
  | skip + 1, _ :: text => replaceFrom old new skip text
  | 0, c :: text =>
      if old <+: c :: text then new ++ replaceFrom old new (old.length - 1) text
      else c :: replaceFrom old new 0 text

/-- The occurrences of a pattern are replaced by a word, from the left to the right. -/
def replace (old new text : List α) : List α :=
  replaceFrom old new 0 text

/-- An end of a pattern before which nothing is replaced is there in the text. -/
theorem prefix_of_prefix_replaceFrom {pattern old new last text : List α}
    (inert : Inert pattern new) (nonempty : last ≠ []) (suffix : last <:+ pattern)
    (h : last <+: replaceFrom old new 0 text) :
  last <+: text
  := by
  induction text generalizing last with
  | nil => exact h
  | cons c text ih =>
    unfold replaceFrom at h
    split_ifs at h
    · exfalso
      obtain ⟨before, x, after, rfl, foreign, ends, -⟩ := inert
      have lacks : x ∉ last := fun mem => foreign (suffix.subset mem)
      rw [List.append_assoc, List.cons_append, prefix_append_cons lacks] at h
      -- the last element of the pattern would be before the foreign one
      have mem : last.getLast nonempty ∈ before := h.subset (List.getLast_mem nonempty)
      apply ends _ mem
      obtain ⟨first, rfl⟩ := suffix
      rw [List.getLast?_append_of_ne_nil _ nonempty]
      exact List.getLast?_eq_some_getLast nonempty
    · rcases List.prefix_cons_iff.mp h with none | ⟨rest, rfl, begins⟩
      · exact absurd none nonempty
      · apply List.cons_prefix_cons.mpr
        refine ⟨rfl, ?_⟩
        by_cases none : rest = []
        · rw [none]
          exact List.nil_prefix
        · exact ih none (List.IsSuffix.trans (List.suffix_cons c rest) suffix) begins

/-- Where the replaced pattern occurs with each occurrence of another one, none is left of that. -/
theorem occurrences_replaceFrom {pattern old new : List α} (inert : Inert pattern new)
    (nonempty : pattern ≠ []) (skip : ℕ) (text : List α)
    (h : ∀ rest, rest <:+ text → pattern <+: rest → old <+: rest) :
  occurrences pattern (replaceFrom old new skip text) = 0
  := by
  induction text generalizing skip with
  | nil =>
    rw [replaceFrom.eq_def]
    rfl
  | cons c text ih =>
    have after := fun skip =>
      ih skip fun rest suffix => h rest (suffix.trans (List.suffix_cons c text))
    cases skip with
    | succ skip => exact after skip
    | zero =>
      unfold replaceFrom
      split_ifs with here
      · have apart := inert.occurrences_append nonempty [] (replaceFrom old new (old.length - 1) text)
        rw [List.nil_append] at apart
        rw [apart, after]
        rfl
      · rw [occurrences_cons_of_absent, after]
        intro begins
        apply here
        apply h _ List.suffix_rfl
        rcases List.prefix_cons_iff.mp begins with none | ⟨rest, rfl, more⟩
        · exact absurd none nonempty
        · apply List.cons_prefix_cons.mpr
          refine ⟨rfl, ?_⟩
          by_cases none : rest = []
          · rw [none]
            exact List.nil_prefix
          · exact prefix_of_prefix_replaceFrom inert none (List.suffix_cons c rest) more

/-- A pattern that is replaced by a word that takes no part in it does not occur any more. -/
theorem occurrences_replace {old new : List α} (inert : Inert old new) (nonempty : old ≠ [])
    (text : List α) :
  occurrences old (replace old new text) = 0
  := occurrences_replaceFrom inert nonempty 0 text fun _ _ begins => begins

/-- The replacement of one pattern does not bring back another one. -/
theorem occurrences_replace_of_eq_zero {pattern old new text : List α}
    (inert : Inert pattern new) (nonempty : pattern ≠ []) (h : occurrences pattern text = 0) :
  occurrences pattern (replace old new text) = 0
  := by
  apply occurrences_replaceFrom inert nonempty
  intro rest suffix begins
  have inside : pattern <:+: text := begins.isInfix.trans suffix.isInfix
  exact absurd inside ((occurrences_eq_zero_iff nonempty).mp h)

end

end Occurrences
