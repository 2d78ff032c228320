import Mathlib.Data.List.DropRight
import Mathlib.Data.List.Induction
import Mathlib.Order.Defs.LinearOrder
import Mathlib.Order.Lattice

/-!
# Nested headings

Headings one after another, each with a level: the smaller the level, the further out is the heading.
A stack holds those that are open, and a new heading closes all that are not further out than itself.
What is made of an item may depend on those before it, such as the headings that enclose it.
-/

namespace Nesting

variable {κ α : Type} [LinearOrder κ]

/-- The stack after one more heading; its innermost one is the last. -/
def push (stack : List (κ × α)) (h : κ × α) : List (κ × α) :=
  stack.rdropWhile (fun e => h.1 ≤ e.1) ++ [h]

/-- The headings that no later one closes. -/
def enclosing : List (κ × α) → List (κ × α)
  | [] => []
  | h :: hs => if ∀ later ∈ hs, h.1 < later.1 then h :: enclosing hs else enclosing hs

theorem mem_of_mem_enclosing {hs : List (κ × α)} {h : κ × α} (hh : h ∈ enclosing hs) :
  h ∈ hs
  := by
  induction hs with
  | nil => cases hh
  | cons k hs ih =>
    rw [enclosing] at hh
    split_ifs at hh
    · rcases List.mem_cons.mp hh with rfl | hh
      · exact List.mem_cons_self
      · exact List.mem_cons_of_mem k (ih hh)
    · exact List.mem_cons_of_mem k (ih hh)

/-- The enclosing headings lie one in another. -/
theorem pairwise_enclosing (hs : List (κ × α)) :
  (enclosing hs).Pairwise fun h k => h.1 < k.1
  := by
  induction hs with
  | nil => exact .nil
  | cons h hs ih =>
    rw [enclosing]
    split_ifs with outer
    · exact .cons (fun k hk => outer k (mem_of_mem_enclosing hk)) ih
    · exact ih

/-- One more heading closes those that are not further out. -/
theorem enclosing_concat (hs : List (κ × α)) (h : κ × α) :
  enclosing (hs ++ [h]) = (enclosing hs).filter (fun e => e.1 < h.1) ++ [h]
  := by
  induction hs with
  | nil => rfl
  | cons k hs ih =>
    have split : (∀ later ∈ hs ++ [h], k.1 < later.1) ↔
        (∀ later ∈ hs, k.1 < later.1) ∧ k.1 < h.1 := by
      rw [List.forall_mem_append, List.forall_mem_singleton]
    rw [List.cons_append, enclosing, enclosing, ih]
    simp only [split]
    by_cases outer : ∀ later ∈ hs, k.1 < later.1
    · by_cases below : k.1 < h.1
      · rw [if_pos ⟨outer, below⟩, if_pos outer, List.filter_cons, if_pos (decide_eq_true below)]
        rfl
      · rw [if_neg fun both => below both.2, if_pos outer, List.filter_cons,
          if_neg fun h => below (of_decide_eq_true h)]
    · rw [if_neg fun both => outer both.1, if_neg outer]

theorem rdropWhile_eq_filter {stack : List (κ × α)} (nested : stack.Pairwise fun h k => h.1 < k.1)
    (level : κ) :
  stack.rdropWhile (fun e => level ≤ e.1) = stack.filter fun e => e.1 < level
  := by
  induction stack using List.reverseRecOn with
  | nil => rfl
  | append_singleton stack e ih =>
    obtain ⟨nested, -, below⟩ := List.pairwise_append.mp nested
    rw [List.filter_append]
    by_cases closed : level ≤ e.1
    · have kept : [e].filter (fun e => decide (e.1 < level)) = [] := by
        rw [List.filter_cons, if_neg fun h => not_lt_of_ge closed (of_decide_eq_true h)]
        rfl
      rw [kept, List.append_nil, ← ih nested]
      exact List.rdropWhile_concat_pos _ _ _ (decide_eq_true closed)
    · have inner := lt_of_not_ge closed
      have outer : ∀ k ∈ stack, decide (k.1 < level) = true := fun k hk =>
        decide_eq_true ((below k hk e (List.mem_singleton.mpr rfl)).trans inner)
      have kept : [e].filter (fun e => decide (e.1 < level)) = [e] := by
        rw [List.filter_cons, if_pos (decide_eq_true inner)]
        rfl
      rw [kept, List.filter_eq_self.mpr outer]
      exact List.rdropWhile_concat_neg _ _ _ fun h => closed (of_decide_eq_true h)

/-- A stack that holds the enclosing headings still does after one more. -/
theorem push_enclosing (hs : List (κ × α)) (h : κ × α) :
  push (enclosing hs) h = enclosing (hs ++ [h])
  := by
  rw [push, rdropWhile_eq_filter (pairwise_enclosing hs), enclosing_concat]

/-- Which headings enclose depends on the levels alone. -/
theorem enclosing_map {β : Type} (f : α → β) (hs : List (κ × α)) :
  enclosing (hs.map (Prod.map id f)) = (enclosing hs).map (Prod.map id f)
  := by
  induction hs with
  | nil => rfl
  | cons h hs ih =>
    have outer : (∀ later ∈ hs.map (Prod.map id f), (Prod.map id f h).1 < later.1) ↔
        ∀ later ∈ hs, h.1 < later.1 := List.forall_mem_map
    rw [List.map_cons, enclosing, enclosing, ih]
    by_cases open' : ∀ later ∈ hs, h.1 < later.1
    · rw [if_pos open', if_pos (outer.mpr open'), List.map_cons]
    · rw [if_neg open', if_neg fun all => open' (outer.mp all)]

/-! ### Items after others -/

section

variable {ι β : Type}

/-- What is made of each item after those before it. -/
def mapAfter (f : List ι → ι → β) (before : List ι) : List ι → List β
  | [] => []
  | i :: items => f before i :: mapAfter f (before ++ [i]) items

theorem length_mapAfter (f : List ι → ι → β) (before items : List ι) :
  (mapAfter f before items).length = items.length
  := by
  induction items generalizing before with
  | nil => rfl
  | cons i items ih => exact congrArg (· + 1) (ih (before ++ [i]))

theorem mapAfter_concat (f : List ι → ι → β) (before items : List ι) (i : ι) :
  mapAfter f before (items ++ [i]) = mapAfter f before items ++ [f (before ++ items) i]
  := by
  induction items generalizing before with
  | nil =>
    rw [List.append_nil]
    rfl
  | cons j items ih =>
    rw [List.cons_append, mapAfter, ih, mapAfter, List.append_assoc, List.singleton_append]
    rfl

/-- Something is done to the results that may as well be done to the items. -/
theorem map_mapAfter_map {f : List ι → ι → β} {g : β → β} {h : ι → ι}
    (same : ∀ before i, g (f before i) = f (before.map h) (h i)) (before items : List ι) :
  (mapAfter f before items).map g = mapAfter f (before.map h) (items.map h)
  := by
  induction items generalizing before with
  | nil => rfl
  | cons i items ih =>
    rw [mapAfter, List.map_cons, same, ih, List.map_append, List.map_cons, List.map_cons, mapAfter]
    rfl

/-- What does not depend on the items before. -/
theorem map_mapAfter {γ : Type} {f : List ι → ι → β} {g : β → γ} {h : ι → γ}
    (same : ∀ before i, g (f before i) = h i) (before items : List ι) :
  (mapAfter f before items).map g = items.map h
  := by
  induction items generalizing before with
  | nil => rfl
  | cons i items ih => rw [mapAfter, List.map_cons, List.map_cons, same, ih]

/-- The items are numbered in their order. -/
theorem map_mapAfter_range' {f : List ι → ι → β} {g : β → ℕ}
    (same : ∀ before i, g (f before i) = before.length) (before items : List ι) :
  (mapAfter f before items).map g = List.range' before.length items.length
  := by
  induction items generalizing before with
  | nil => rfl
  | cons i items ih =>
    rw [mapAfter, List.map_cons, same, ih, List.length_append, List.length_singleton,
      List.length_cons, List.range'_succ]

end

end Nesting
