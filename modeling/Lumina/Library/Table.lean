import Mathlib.Algebra.BigOperators.Group.List.Basic
import Mathlib.Data.List.Nodup

/-!
# Tables as lists of rows

An update changes the rows that satisfy a condition and keeps the others.  The last sections are
about counting, how many rows of one table are reached from the selected rows of another one
through a key, each key at most once, and about sums and collections, when one row is replaced.
-/

namespace Table

variable {ρ κ τ : Type}

/-- The rows after an update of those that satisfy `p`. -/
def update (p : ρ → Bool) (f : ρ → ρ) (rows : List ρ) : List ρ :=
  rows.map fun row => if p row then f row else row

@[simp]
theorem update_nil (p : ρ → Bool) (f : ρ → ρ) : update p f [] = [] := rfl

/-- A row after an update is an old row, updated if the condition holds of it. -/
theorem mem_update {p : ρ → Bool} {f : ρ → ρ} {rows : List ρ} {row : ρ} :
  row ∈ update p f rows ↔ ∃ old ∈ rows, row = if p old then f old else old
  := by
  unfold update
  rw [List.mem_map]
  constructor
  all_goals
    rintro ⟨old, hold, h⟩
    exact ⟨old, hold, h.symm⟩

/-- What an update does not change of any row, it does not change of the table. -/
theorem map_update {p : ρ → Bool} {f : ρ → ρ} (g : ρ → κ) (hf : ∀ row, g (f row) = g row)
    (rows : List ρ) :
  (update p f rows).map g = rows.map g
  := by
  unfold update
  rw [List.map_map]
  apply List.map_congr_left
  intro row _
  rw [Function.comp_apply]
  split
  · apply hf
  · rfl

/-- An update of other columns than those that are selected and looked at. -/
theorem map_filter_update {p q : ρ → Bool} {f : ρ → ρ} (g : ρ → κ) (hq : ∀ row, q (f row) = q row)
    (hg : ∀ row, g (f row) = g row) (rows : List ρ) :
  ((update p f rows).filter q).map g = (rows.filter q).map g
  := by
  induction rows with
  | nil => rfl
  | cons row rows ih =>
    have tail : update p f (row :: rows) = (if p row then f row else row) :: update p f rows := rfl
    have same : q (if p row then f row else row) = q row := by
      split
      · apply hq
      · rfl
    rw [tail, List.filter_cons, List.filter_cons, same]
    split
    · rw [List.map_cons, List.map_cons, ih]
      congr 1
      split
      · apply hg
      · rfl
    · apply ih

/-- An update of other columns than those that a query looks at: the query finds the same row,
updated. -/
theorem find?_update {p q : ρ → Bool} {f : ρ → ρ} (hf : ∀ row, q (f row) = q row)
    (rows : List ρ) :
  (update p f rows).find? q = (rows.find? q).map fun row => if p row then f row else row
  := by
  unfold update
  rw [List.find?_map]
  congr 2
  funext row
  rw [Function.comp_apply]
  split
  · apply hf
  · rfl

/-- Two rows of a table with a unique key are the same row when their keys are. -/
theorem eq_of_key {rows : List ρ} {key : ρ → κ} (unique : (rows.map key).Nodup) {a b : ρ}
    (ha : a ∈ rows) (hb : b ∈ rows) (h : key a = key b) :
  a = b
  := by
  apply List.inj_on_of_nodup_map unique ha hb h

/-- The rows after one has been added at the end. -/
theorem of_getElem?_concat {rows : List ρ} {new row : ρ} {i : ℕ}
    (h : (rows ++ [new])[i]? = some row) :
  rows[i]? = some row ∨ (i = rows.length ∧ row = new)
  := by
  rw [List.getElem?_append] at h
  split at h
  · exact Or.inl h
  · obtain ⟨below, -⟩ := List.getElem?_eq_some_iff.mp h
    rw [List.length_singleton] at below
    have last := List.mem_singleton.mp (List.mem_of_getElem? h)
    exact Or.inr ⟨by omega, last⟩

/-- The rows after one has been replaced. -/
theorem of_getElem?_set {rows : List ρ} {new row : ρ} {i j : ℕ}
    (h : (rows.set i new)[j]? = some row) :
  (j = i ∧ row = new) ∨ (j ≠ i ∧ rows[j]? = some row)
  := by
  by_cases same : i = j
  · subst same
    obtain ⟨below, -⟩ := List.getElem?_eq_some_iff.mp h
    rw [List.length_set] at below
    rw [List.getElem?_set_self below] at h
    exact Or.inl ⟨rfl, (Option.some.inj h).symm⟩
  · rw [List.getElem?_set_ne same] at h
    exact Or.inr ⟨Ne.symm same, h⟩

/-- What holds of a row goes on to hold of one, if the new row keeps it. -/
theorem any_set_of {p : ρ → Bool} {rows : List ρ} {i : ℕ} {old new : ρ}
    (at_ : rows[i]? = some old) (keeps : p old = true → p new = true)
    (h : rows.any p = true) :
  (rows.set i new).any p = true
  := by
  obtain ⟨row, mem, holds⟩ := List.any_eq_true.mp h
  obtain ⟨j, at_j⟩ := List.mem_iff_getElem?.mp mem
  apply List.any_eq_true.mpr
  by_cases same : i = j
  · subst same
    have below := (List.getElem?_eq_some_iff.mp at_).1
    refine ⟨new, List.mem_of_getElem? (List.getElem?_set_self below), keeps ?_⟩
    rwa [← Option.some.inj (at_j.symm.trans at_)]
  · refine ⟨row, List.mem_of_getElem? (i := j) ?_, holds⟩
    rwa [List.getElem?_set_ne same]

theorem any_or_any_set {p : ρ → Bool} {rows : List ρ} {i : ℕ} {old new : ρ}
    (at_ : rows[i]? = some old) (h : rows.any p = true) :
  p old = true ∨ (rows.set i new).any p = true
  := by
  by_cases holds : p old = true
  · exact Or.inl holds
  · exact Or.inr (any_set_of at_ (fun yes => absurd yes holds) h)

theorem any_set_self {p : ρ → Bool} {rows : List ρ} {i : ℕ} {old new : ρ}
    (at_ : rows[i]? = some old) (holds : p new = true) :
  (rows.set i new).any p = true
  := by
  have below := (List.getElem?_eq_some_iff.mp at_).1
  exact List.any_eq_true.mpr ⟨new, List.mem_of_getElem? (List.getElem?_set_self below), holds⟩

theorem any_of_set {p : ρ → Bool} {rows : List ρ} {i : ℕ} {new : ρ}
    (h : (rows.set i new).any p = true) :
  p new = true ∨ rows.any p = true
  := by
  obtain ⟨row, mem, holds⟩ := List.any_eq_true.mp h
  rcases List.mem_or_eq_of_mem_set mem with old | rfl
  · exact Or.inr (List.any_eq_true.mpr ⟨row, old, holds⟩)
  · exact Or.inl holds

theorem any_set_iff {p : ρ → Bool} {rows : List ρ} {i : ℕ} {old new : ρ}
    (at_ : rows[i]? = some old) (keeps : p old = true → p new = true) :
  (rows.set i new).any p = true ↔ rows.any p = true ∨ p new = true
  := by
  constructor
  · exact fun h => (any_of_set h).symm
  · rintro (h | holds)
    · exact any_set_of at_ keeps h
    · exact any_set_self at_ holds

section Counting

variable [DecidableEq κ]

/-- The rows of a table and the rows of another one that refer to them through a unique key:
there are as many of the latter as there are rows referred to. -/
theorem countP_references {rows : List ρ} {refs : List τ} {key : ρ → κ} {ref : τ → κ}
    {p : ρ → Bool} (uniqueRows : (rows.map key).Nodup) (uniqueRefs : (refs.map ref).Nodup) :
  refs.countP (fun r => rows.any fun row => p row && decide (key row = ref r)) =
    rows.countP fun row => p row && decide (key row ∈ refs.map ref)
  := by
  rw [List.countP_eq_length_filter, List.countP_eq_length_filter]
  rw [← List.length_map ref, ← List.length_map key]
  apply List.Perm.length_eq
  rw [List.perm_ext_iff_of_nodup]
  · intro k
    rw [List.mem_map, List.mem_map]
    constructor
    · rintro ⟨r, hr, rfl⟩
      rw [List.mem_filter, List.any_eq_true] at hr
      obtain ⟨hr, row, hrow, h⟩ := hr
      rw [Bool.and_eq_true, decide_eq_true_eq] at h
      refine ⟨row, ?_, h.2⟩
      rw [List.mem_filter, Bool.and_eq_true, decide_eq_true_eq, List.mem_map]
      exact ⟨hrow, h.1, r, hr, h.2.symm⟩
    · rintro ⟨row, hrow, rfl⟩
      rw [List.mem_filter, Bool.and_eq_true, decide_eq_true_eq, List.mem_map] at hrow
      obtain ⟨hrow, hp, r, hr, h⟩ := hrow
      refine ⟨r, ?_, h⟩
      rw [List.mem_filter, List.any_eq_true]
      refine ⟨hr, row, hrow, ?_⟩
      rw [Bool.and_eq_true, decide_eq_true_eq]
      exact ⟨hp, h.symm⟩
  · apply List.Sublist.nodup _ uniqueRefs
    apply List.filter_sublist.map
  · apply List.Sublist.nodup _ uniqueRows
    apply List.filter_sublist.map

/-- Counting by cases. -/
theorem countP_and_not_add (p q : ρ → Bool) (rows : List ρ) :
  rows.countP (fun row => p row && q row) + rows.countP (fun row => p row && !q row) =
    rows.countP p
  := by
  induction rows with
  | nil => rfl
  | cons row rows ih =>
    simp only [List.countP_cons]
    cases p row
    all_goals cases q row
    all_goals simp only [Bool.and_true, Bool.and_false, Bool.not_true, Bool.not_false,
      if_true, Bool.false_eq_true, if_false]
    all_goals omega

end Counting

section Sums

variable {M : Type} [AddCommMonoid M]

/-- The sum over a table after one row has been replaced. -/
theorem sum_map_set (f : ρ → M) {rows : List ρ} {i : ℕ} {old : ρ} (new : ρ)
    (h : rows[i]? = some old) :
  ((rows.set i new).map f).sum + f old = (rows.map f).sum + f new
  := by
  induction rows generalizing i with
  | nil => cases h
  | cons row rows ih =>
    cases i with
    | zero =>
      cases h
      rw [List.set_cons_zero, List.map_cons, List.map_cons, List.sum_cons, List.sum_cons]
      rw [add_right_comm, add_comm (f new), add_right_comm]
    | succ i =>
      rw [List.set_cons_succ, List.map_cons, List.map_cons, List.sum_cons, List.sum_cons]
      rw [add_assoc, add_assoc, ih h]

end Sums

/-- What is collected from a table after one row has been replaced. -/
theorem flatMap_set_perm (f : ρ → List κ) {rows : List ρ} {i : ℕ} {old : ρ} (new : ρ)
    (h : rows[i]? = some old) :
  ((rows.set i new).flatMap f ++ f old).Perm (rows.flatMap f ++ f new)
  := by
  induction rows generalizing i with
  | nil => cases h
  | cons row rows ih =>
    cases i with
    | zero =>
      cases h
      rw [List.set_cons_zero, List.flatMap_cons, List.flatMap_cons, List.append_assoc]
      exact List.perm_append_comm.trans (List.perm_append_comm.append_right (f new))
    | succ i =>
      rw [List.set_cons_succ, List.flatMap_cons, List.flatMap_cons, List.append_assoc,
        List.append_assoc]
      exact (ih h).append_left (f row)

end Table
