import Mathlib.Data.List.Count
import Mathlib.Data.List.DropRight
import Mathlib.Data.List.Sort
import Mathlib.Order.Defs.LinearOrder

/-!
# Pages of a sorted table

A table is a list of rows in any order, sorted by a key that is unique.  Its first page has the rows
that few others precede, and its newest rows are the last ones.
-/

namespace Paging

variable {α κ : Type} [LinearOrder κ] (key : α → κ)

/-- The rows in the order of their keys. -/
def sorted (rows : List α) : List α :=
  rows.mergeSort fun a b => decide (key a ≤ key b)

/-- How many rows come before one. -/
def preceding (rows : List α) (a : α) : ℕ :=
  rows.countP fun b => decide (key b < key a)

theorem sorted_perm (rows : List α) :
  (sorted key rows).Perm rows
  := List.mergeSort_perm rows _

@[simp]
theorem mem_sorted {rows : List α} {a : α} :
  a ∈ sorted key rows ↔ a ∈ rows
  := (sorted_perm key rows).mem_iff

theorem pairwise_sorted {rows : List α} (unique : (rows.map key).Nodup) :
  (sorted key rows).Pairwise (key · < key ·)
  := by
  have ordered : (sorted key rows).Pairwise fun a b => decide (key a ≤ key b) = true := by
    apply List.pairwise_mergeSort
    · intro a b c hab hbc
      exact decide_eq_true ((of_decide_eq_true hab).trans (of_decide_eq_true hbc))
    · intro a b
      simpa using le_total (key a) (key b)
  have distinct : (sorted key rows).Pairwise fun a b => key a ≠ key b := by
    rw [← List.pairwise_map (R := (· ≠ ·)), ← List.nodup_iff_pairwise_ne]
    exact ((sorted_perm key rows).map key).nodup_iff.mpr unique
  exact (ordered.and distinct).imp fun h => lt_of_le_of_ne (of_decide_eq_true h.1) h.2

/-! ### The first rows of a sorted list -/

section

variable {key} {L : List α}

/-- A row is among the first ones if fewer come before it. -/
theorem mem_take_iff (h : L.Pairwise (key · < key ·)) {a : α} (ha : a ∈ L) (n : ℕ) :
  a ∈ L.take n ↔ preceding key L a < n
  := by
  induction L generalizing n with
  | nil => cases ha
  | cons b L ih =>
    obtain ⟨least, rest⟩ := List.pairwise_cons.mp h
    cases n with
    | zero => simp
    | succ n =>
      rw [List.take_succ_cons, List.mem_cons]
      unfold preceding
      rw [List.countP_cons]
      obtain rfl | inside := List.mem_cons.mp ha
      · have none : L.countP (fun b => decide (key b < key a)) = 0 := by
          rw [List.countP_eq_zero]
          intro b hb
          simpa using (least b hb).le
        simp [none]
      · have before : key b < key a := least a inside
        have other : a ≠ b := by
          rintro rfl
          exact lt_irrefl _ before
        rw [if_pos (decide_eq_true before), Nat.add_lt_add_iff_right]
        exact (or_iff_right other).trans (ih rest inside n)

/-- The row that is found is the first one with the property. -/
theorem find?_eq_some_iff_first (h : L.Pairwise (key · < key ·)) {p : α → Bool} {a : α}
    (ha : a ∈ L) (hp : p a = true) :
  L.find? p = some a ↔ ∀ b ∈ L, p b = true → ¬ key b < key a
  := by
  induction L with
  | nil => cases ha
  | cons b L ih =>
    obtain ⟨least, rest⟩ := List.pairwise_cons.mp h
    by_cases hb : p b = true
    · rw [List.find?_cons_of_pos hb, Option.some.injEq]
      constructor
      · rintro rfl c hc _ before
        obtain rfl | hc := List.mem_cons.mp hc
        · exact lt_irrefl _ before
        · exact lt_asymm before (least c hc)
      · intro first
        obtain rfl | inside := List.mem_cons.mp ha
        · rfl
        · exact absurd (least a inside) (first b List.mem_cons_self hb)
    · rw [List.find?_cons_of_neg hb]
      have inside : a ∈ L := by
        obtain rfl | inside := List.mem_cons.mp ha
        · exact absurd hp hb
        · exact inside
      rw [ih rest inside, List.forall_mem_cons]
      exact (and_iff_right fun hb' => absurd hb' hb).symm

end

/-! ### The first rows of a table -/

variable {key} {rows : List α}

theorem mem_take_sorted_iff (unique : (rows.map key).Nodup) {a : α} (ha : a ∈ rows) (n : ℕ) :
  a ∈ (sorted key rows).take n ↔ preceding key rows a < n
  := by
  rw [mem_take_iff (pairwise_sorted key unique) ((mem_sorted key).mpr ha) n]
  unfold preceding
  rw [(sorted_perm key rows).countP_eq]

/-- A row is found in the first ones if it is among them and no earlier row has the property. -/
theorem find?_take_sorted_iff (unique : (rows.map key).Nodup) {p : α → Bool} {a : α}
    (ha : a ∈ rows) (hp : p a = true) (n : ℕ) :
  ((sorted key rows).take n).find? p = some a ↔
    preceding key rows a < n ∧ ∀ b ∈ rows, p b = true → ¬ key b < key a
  := by
  have ordered := pairwise_sorted key unique
  rw [← mem_take_sorted_iff unique ha]
  constructor
  · intro found
    have inside := List.mem_of_find?_eq_some found
    use inside
    intro b hb hpb before
    have first := (find?_eq_some_iff_first (ordered.sublist (List.take_sublist n _)) inside hp).mp
      found
    apply first b _ hpb before
    rw [mem_take_sorted_iff unique hb]
    have fewer : preceding key rows b ≤ preceding key rows a := by
      apply List.countP_mono_left
      intro c _ hc
      exact decide_eq_true ((of_decide_eq_true hc).trans before)
    exact fewer.trans_lt ((mem_take_sorted_iff unique ha n).mp inside)
  · rintro ⟨inside, first⟩
    apply (find?_eq_some_iff_first (ordered.sublist (List.take_sublist n _)) inside hp).mpr
    intro b hb
    exact first b ((mem_sorted key).mp (List.mem_of_mem_take hb))

/-! ### The last rows of a table -/

/-- `sorted(rows.order_by("-key")[:n], key)`. -/
def newest (key : α → κ) (rows : List α) (n : ℕ) : List α :=
  sorted key ((rows.mergeSort fun a b => decide (key b ≤ key a)).take n)

/-- Two lists in order with the same rows are the same. -/
theorem eq_of_perm {xs ys : List α} (same : xs.Perm ys) (hx : xs.Pairwise (key · < key ·))
    (hy : ys.Pairwise (key · < key ·)) :
  xs = ys
  := by
  apply same.eq_of_pairwise _ hx hy
  intro a b _ _ hab hba
  exact absurd hba (lt_asymm hab)

/-- The newest rows are the last ones in the order of the keys. -/
theorem newest_eq (unique : (rows.map key).Nodup) (n : ℕ) :
  newest key rows n = (sorted key rows).rtake n
  := by
  have ordered := pairwise_sorted key unique
  have descending : rows.mergeSort (fun a b => decide (key b ≤ key a)) =
      (sorted key rows).reverse := by
    have unique' : (rows.map (OrderDual.toDual ∘ key)).Nodup := by
      rw [← List.map_map]
      exact unique.map OrderDual.toDual.injective
    have dual := pairwise_sorted (OrderDual.toDual ∘ key) unique'
    apply eq_of_perm (κ := κᵒᵈ) ?_ dual
    · exact List.pairwise_reverse.mpr ordered
    · exact (List.mergeSort_perm rows _).trans
        ((sorted_perm key rows).symm.trans (List.reverse_perm _).symm)
  have last : ((sorted key rows).rtake n).Pairwise (key · < key ·) :=
    ordered.sublist (List.drop_sublist _ _)
  have same : (sorted key ((sorted key rows).reverse.take n)).Perm ((sorted key rows).rtake n) := by
    rw [List.rtake_eq_reverse_take_reverse]
    exact (sorted_perm key _).trans (List.reverse_perm _).symm
  rw [newest, descending]
  apply eq_of_perm same _ last
  apply pairwise_sorted
  have sorted' : ((sorted key rows).reverse.map key).Nodup := by
    rw [List.map_reverse, List.nodup_reverse]
    exact ((sorted_perm key rows).map key).nodup_iff.mpr unique
  exact sorted'.sublist ((List.take_sublist n _).map key)

theorem getLast_mem_rtake {L : List α} (nonempty : L ≠ []) {n : ℕ} (positive : 0 < n) :
  L.getLast nonempty ∈ L.rtake n
  := by
  obtain ⟨n, rfl⟩ := Nat.exists_eq_add_one.mpr positive
  have last : L.rtake (n + 1) = L.dropLast.rtake n ++ [L.getLast nonempty] := by
    conv_lhs => rw [← List.dropLast_append_getLast nonempty]
    exact List.rtake_concat_succ ..
  rw [last]
  exact List.mem_append_right _ (List.mem_singleton_self _)

/-- No element of a list in order comes after the last one. -/
theorem not_getLast_lt {L : List α} (h : L.Pairwise (key · < key ·)) (nonempty : L ≠ []) {a : α}
    (ha : a ∈ L) :
  ¬ key (L.getLast nonempty) < key a
  := by
  rw [← List.dropLast_append_getLast nonempty] at h ha
  rcases List.mem_append.mp ha with early | last
  · exact lt_asymm ((List.pairwise_append.mp h).2.2 a early _ List.mem_cons_self)
  · rw [List.mem_singleton.mp last]
    exact lt_irrefl _

/-- Those of the last elements that have a property are the last ones that have it exactly if all are
among them, provided that one of the last elements does not have it. -/
theorem filter_rtake_eq_iff {L : List α} (distinct : L.Nodup) {p : α → Bool} {n : ℕ} {a : α}
    (inside : a ∈ L.rtake n) (ha : p a = false) :
  (L.rtake n).filter p = (L.filter p).rtake n ↔ ∀ b ∈ L, p b = true → b ∈ L.rtake n
  := by
  have split : L.rdrop n ++ L.rtake n = L := List.take_append_drop _ L
  have parts : L.filter p = (L.rdrop n).filter p ++ (L.rtake n).filter p := by
    rw [← List.filter_append, split]
  have short : (L.rtake n).length ≤ n := by
    unfold List.rtake
    rw [List.length_drop]
    omega
  have fewer : ((L.rtake n).filter p).length < (L.rtake n).length := by
    apply List.length_filter_lt_length_iff_exists.mpr
    exact ⟨a, inside, by simp [ha]⟩
  have length : ((L.filter p).rtake n).length = min n (L.filter p).length := by
    unfold List.rtake
    rw [List.length_drop]
    omega
  constructor
  · intro same b hb hpb
    rw [← split, List.mem_append] at hb
    refine hb.resolve_left fun early => ?_
    have some : 0 < ((L.rdrop n).filter p).length :=
      List.length_pos_of_mem (List.mem_filter.mpr ⟨early, hpb⟩)
    have lengths := congrArg List.length same
    rw [length, parts, List.length_append] at lengths
    omega
  · intro all
    have none : (L.rdrop n).filter p = [] := by
      apply List.filter_eq_nil_iff.mpr
      intro b early hpb
      have hb : b ∈ L := split ▸ List.mem_append_left _ early
      rw [← split] at distinct
      exact List.disjoint_of_nodup_append distinct early (all b hb hpb)
    have whole : ((L.rtake n).filter p).rtake n = (L.rtake n).filter p := by
      rw [List.rtake, Nat.sub_eq_zero_of_le (fewer.le.trans short), List.drop_zero]
    rw [parts, none, List.nil_append, whole]

end Paging
