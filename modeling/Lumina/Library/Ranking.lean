import Mathlib.Data.List.Nodup
import Mathlib.Data.List.Perm.Basic

/-!
# Places in a ranking

In a list that is sorted by a strict order, the place of an item is the number of items before it.
An item does not move back when no other item comes to be before it.
-/

namespace Ranking

variable {α : Type} [DecidableEq α] {r r' : α → α → Prop} [DecidableRel r] [DecidableRel r']
  {l l' : List α} {x : α}

theorem idxOf_eq_countP (asymm : ∀ y z, r y z → ¬r z y) (sorted : l.Pairwise r) (hx : x ∈ l) :
  l.idxOf x = l.countP (r · x)
  := by
  induction l with
  | nil => cases hx
  | cons y l ih =>
    obtain ⟨first, rest⟩ := List.pairwise_cons.mp sorted
    by_cases here : y = x
    · subst here
      have irrefl : ¬r y y := fun h => asymm y y h h
      have none : l.countP (r · y) = 0 := by
        rw [List.countP_eq_zero]
        intro z hz h
        exact asymm y z (first z hz) (of_decide_eq_true h)
      rw [List.idxOf_cons_self, List.countP_cons, none, if_neg (by simpa using irrefl)]
    · have later : x ∈ l := (List.mem_cons.mp hx).resolve_left fun h => here h.symm
      rw [List.idxOf_cons_ne _ here, List.countP_cons, ih rest later,
        if_pos (decide_eq_true (first x later))]

/-- Two rankings of the same items: where nothing new is before an item, its place is not later. -/
theorem idxOf_le (asymm : ∀ y z, r y z → ¬r z y) (asymm' : ∀ y z, r' y z → ¬r' z y)
    (sorted : l.Pairwise r) (sorted' : l'.Pairwise r') (same : l.Perm l') (hx : x ∈ l)
    (before : ∀ y ∈ l, r' y x → r y x) :
  l'.idxOf x ≤ l.idxOf x
  := by
  rw [idxOf_eq_countP asymm sorted hx, idxOf_eq_countP asymm' sorted' (same.mem_iff.mp hx),
    ← same.countP_eq]
  apply List.countP_mono_left
  intro y hy h
  exact decide_eq_true (before y hy (of_decide_eq_true h))

end Ranking
