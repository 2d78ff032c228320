import Mathlib.Data.Finset.Card
import Mathlib.Data.List.Nodup
import Mathlib.Logic.Relation

/-!
# First occurrences

The loop that keeps of a list the first occurrence of each item, and what becomes of the result when
an item is repeated or moved to the front.
-/

namespace Distinct

variable {α : Type*}

section

variable [DecidableEq α]

/-- The items that are not seen yet, each once. -/
def firsts : (seen : Finset α) → List α → List α
  | _, [] => []
  | seen, x :: l => if x ∈ seen then firsts seen l else x :: firsts (insert x seen) l

variable {seen : Finset α} {l l' : List α} {x : α}

@[simp]
theorem firsts_nil : firsts seen [] = [] := rfl

theorem firsts_append (seen : Finset α) (l m : List α) :
  firsts seen (l ++ m) = firsts seen l ++ firsts (seen ∪ l.toFinset) m
  := by
  induction l generalizing seen with
  | nil => simp
  | cons x l ih =>
    rw [List.cons_append, firsts, firsts]
    have union : insert x seen ∪ l.toFinset = seen ∪ (x :: l).toFinset := by
      rw [List.toFinset_cons, Finset.insert_union, Finset.union_insert]
    split_ifs with known
    · have same : seen ∪ l.toFinset = seen ∪ (x :: l).toFinset := by
        rw [← union, Finset.insert_eq_self.mpr known]
      rw [ih, same]
    · rw [ih, union, List.cons_append]

theorem mem_firsts : x ∈ firsts seen l ↔ x ∈ l ∧ x ∉ seen := by
  induction l generalizing seen with
  | nil => simp
  | cons y l ih =>
    rw [firsts]
    split_ifs with known
    · rw [ih, List.mem_cons]
      constructor
      · exact fun h => ⟨.inr h.1, h.2⟩
      · rintro ⟨rfl | h, new⟩
        · exact absurd known new
        · exact ⟨h, new⟩
    · rw [List.mem_cons, List.mem_cons, ih, Finset.mem_insert, not_or]
      constructor
      · rintro (rfl | ⟨h, -, new⟩)
        · exact ⟨.inl rfl, known⟩
        · exact ⟨.inr h, new⟩
      · rintro ⟨h, new⟩
        by_cases same : x = y
        · exact .inl same
        · exact .inr ⟨h.resolve_left same, same, new⟩

theorem nodup_firsts (seen : Finset α) (l : List α) :
  (firsts seen l).Nodup
  := by
  induction l generalizing seen with
  | nil => exact List.nodup_nil
  | cons x l ih =>
    rw [firsts]
    split_ifs with known
    · exact ih seen
    · apply List.nodup_cons.mpr
      refine ⟨fun later => ?_, ih _⟩
      exact (mem_firsts.mp later).2 (Finset.mem_insert_self x seen)

/-- A list without repetitions is kept as it is. -/
theorem firsts_of_nodup (distinct : l.Nodup) (fresh : ∀ x ∈ l, x ∉ seen) :
  firsts seen l = l
  := by
  induction l generalizing seen with
  | nil => rfl
  | cons x l ih =>
    obtain ⟨notLater, distinct⟩ := List.nodup_cons.mp distinct
    rw [firsts, if_neg (fresh x List.mem_cons_self), ih distinct]
    intro y hy
    rw [Finset.mem_insert, not_or]
    refine ⟨?_, fresh y (List.mem_cons_of_mem x hy)⟩
    rintro rfl
    exact notLater hy

theorem firsts_prefix (h : l <+: l') :
  firsts seen l <+: firsts seen l'
  := by
  obtain ⟨m, rfl⟩ := h
  rw [firsts_append]
  exact List.prefix_append _ _

/-! ### Repetitions -/

/-- An item of a list is put into it once more, somewhere after its first place. -/
inductive RepeatsOne : List α → List α → Prop
  | insert (x : α) (before after : List α) (listed : x ∈ before) :
      RepeatsOne (before ++ after) (before ++ x :: after)

/-- Some items are repeated. -/
def Repeats : List α → List α → Prop :=
  Relation.ReflTransGen RepeatsOne

/-- A repetition that is not cut off is not kept. -/
theorem firsts_insert {before : List α} (listed : x ∈ before) (after : List α) :
  firsts seen (before ++ x :: after) = firsts seen (before ++ after)
  := by
  have known : x ∈ seen ∪ before.toFinset :=
    Finset.mem_union_right seen (List.mem_toFinset.mpr listed)
  rw [firsts_append, firsts_append, firsts, if_pos known]

theorem firsts_of_repeats (h : Repeats l l') :
  firsts seen l' = firsts seen l
  := by
  induction h with
  | refl => rfl
  | tail _ one ih =>
    cases one with
    | insert x before after listed => rw [firsts_insert listed, ih]

/-- Below a cut, a repetition only pushes items out. -/
theorem firsts_take_of_repeats (h : Repeats l l') (n : ℕ) :
  firsts seen (l'.take n) <+: firsts seen (l.take n)
  := by
  induction h with
  | refl => exact List.prefix_rfl
  | tail _ one ih =>
    apply List.IsPrefix.trans _ ih
    cases one with
    | insert x before after listed =>
      rw [List.take_append, List.take_append]
      cases rest : n - before.length with
      | zero =>
        rw [List.take_zero, List.take_zero]
      | succ m =>
        have whole : before.take n = before := List.take_of_length_le (by omega)
        rw [whole, List.take_succ_cons, firsts_insert listed]
        apply firsts_prefix
        exact (List.prefix_append_right_inj before).mpr (List.take_prefix_take_left (by omega))

end

/-! ### Promotions -/

/-- An item of a list that satisfies a predicate is moved to an earlier place. -/
inductive Promotes (p : α → Prop) : List α → List α → Prop
  | move (x : α) (before passed after : List α) (good : p x) :
      Promotes p (before ++ (passed ++ x :: after)) (before ++ x :: (passed ++ after))

theorem Promotes.perm {p : α → Prop} {l l' : List α} (h : Promotes p l l') :
  l.Perm l'
  := by
  cases h with
  | move x before passed after good => exact List.perm_middle.append_left before

/-- What is moved to the front of a list makes up for what it pushes out. -/
theorem countP_take_middle (p : α → Bool) {x : α} (good : p x) (l m : List α) (n : ℕ) :
  ((l ++ x :: m).take (n + 1)).countP p ≤ ((x :: (l ++ m)).take (n + 1)).countP p
  := by
  induction l generalizing n with
  | nil => exact le_rfl
  | cons y l ih =>
    rw [List.cons_append, List.cons_append, List.take_succ_cons, List.take_succ_cons,
      List.countP_cons, List.countP_cons_of_pos good]
    cases n with
    | zero =>
      rw [List.take_zero, List.take_zero]
      split_ifs <;> simp
    | succ n =>
      have rest := ih n
      rw [List.take_succ_cons, List.countP_cons_of_pos good] at rest
      rw [List.take_succ_cons, List.countP_cons]
      omega

end Distinct
