import Mathlib.Algebra.BigOperators.Group.List.Basic
import Mathlib.Data.List.Dedup

/-!
# Grouping rows and summing over the groups

`groupSums` is the table with one row for each key that occurs, and the sum over the rows with that
key.  Grouping such a table again by a function of the key gives the table that grouping the rows
themselves by that function gives, up to the order of the rows.
-/

namespace Grouping

variable {ρ κ γ M : Type} [DecidableEq κ] [DecidableEq γ] [AddCommMonoid M]

/-- The sum over the rows of one group. -/
def groupSum (key : ρ → κ) (value : ρ → M) (rows : List ρ) (k : κ) : M :=
  ((rows.filter fun row => key row = k).map value).sum

/-- The groups, each with its sum. -/
def groupSums (key : ρ → κ) (value : ρ → M) (rows : List ρ) : List (κ × M) :=
  (rows.map key).dedup.map fun k => (k, groupSum key value rows k)

section Groups

variable (key : ρ → κ) (value : ρ → M)

@[simp]
theorem groupSum_nil (k : κ) : groupSum key value [] k = 0 := rfl

theorem groupSum_cons (row : ρ) (rows : List ρ) (k : κ) :
  groupSum key value (row :: rows) k =
    (if key row = k then value row else 0) + groupSum key value rows k
  := by
  unfold groupSum
  rw [List.filter_cons]
  by_cases h : key row = k
  · rw [if_pos h, if_pos (decide_eq_true h), List.map_cons, List.sum_cons]
  · rw [if_neg h, if_neg (by rwa [decide_eq_true_eq]), zero_add]

theorem groupSum_append (rows rows' : List ρ) (k : κ) :
  groupSum key value (rows ++ rows') k = groupSum key value rows k + groupSum key value rows' k
  := by
  unfold groupSum
  rw [List.filter_append, List.map_append, List.sum_append]

theorem groupSum_perm {rows rows' : List ρ} (h : rows.Perm rows') (k : κ) :
  groupSum key value rows k = groupSum key value rows' k
  := by
  apply List.Perm.sum_eq
  apply List.Perm.map
  apply h.filter

/-- Rows of other groups do not count. -/
theorem groupSum_filter {p : ρ → Bool} {k : κ} (hp : ∀ row, key row = k → p row = true)
    (rows : List ρ) :
  groupSum key value (rows.filter p) k = groupSum key value rows k
  := by
  unfold groupSum
  rw [List.filter_filter]
  congr 3
  funext row
  by_cases h : key row = k
  · rw [hp row h, Bool.and_true]
  · rw [decide_eq_false h, Bool.false_and]

theorem mem_groupSums {rows : List ρ} {k : κ} {m : M} :
  (k, m) ∈ groupSums key value rows ↔ k ∈ rows.map key ∧ groupSum key value rows k = m
  := by
  unfold groupSums
  rw [List.mem_map]
  constructor
  · rintro ⟨k', hk', h⟩
    cases h
    exact ⟨List.mem_dedup.mp hk', rfl⟩
  · rintro ⟨hk, rfl⟩
    exact ⟨k, List.mem_dedup.mpr hk, rfl⟩

theorem map_fst_groupSums (rows : List ρ) :
  (groupSums key value rows).map Prod.fst = (rows.map key).dedup
  := by
  unfold groupSums
  rw [List.map_map]
  apply List.map_id

theorem nodup_groupSums (rows : List ρ) :
  ((groupSums key value rows).map Prod.fst).Nodup
  := by
  rw [map_fst_groupSums]
  apply List.nodup_dedup

theorem groupSums_perm {rows rows' : List ρ} (h : rows.Perm rows') :
  (groupSums key value rows).Perm (groupSums key value rows')
  := by
  have same : groupSum key value rows = groupSum key value rows' := by
    funext k
    apply groupSum_perm key value h
  unfold groupSums
  rw [same]
  apply List.Perm.map
  apply List.Perm.dedup
  apply h.map

/-- A table without repeated keys is the table of the groups if it has the same rows. -/
theorem perm_groupSums {table : List (κ × M)} {rows : List ρ}
    (unique : (table.map Prod.fst).Nodup)
    (h : ∀ k m, (k, m) ∈ table ↔ k ∈ rows.map key ∧ groupSum key value rows k = m) :
  table.Perm (groupSums key value rows)
  := by
  rw [List.perm_ext_iff_of_nodup unique.of_map (nodup_groupSums key value rows).of_map]
  rintro ⟨k, m⟩
  rw [h, mem_groupSums]

end Groups

section Regrouping

variable (key : ρ → κ) (value : ρ → M)

/-- A row counts once among the groups, if its group is one of them. -/
theorem sum_map_ite {keys : List κ} (unique : keys.Nodup) (k : κ) (m : M) :
  (keys.map fun k' => if k = k' then m else 0).sum = if k ∈ keys then m else 0
  := by
  induction keys with
  | nil => rfl
  | cons k' keys ih =>
    obtain ⟨fresh, unique⟩ := List.nodup_cons.mp unique
    rw [List.map_cons, List.sum_cons, ih unique]
    by_cases h : k = k'
    · subst h
      rw [if_pos rfl, if_neg fresh, if_pos List.mem_cons_self, add_zero]
    · rw [if_neg h, zero_add]
      congr 1
      rw [List.mem_cons, eq_iff_iff]
      exact ⟨Or.inr, fun hk => hk.resolve_left h⟩

/-- The sum over some groups is the sum over the rows of these groups. -/
theorem sum_map_groupSum {keys : List κ} (unique : keys.Nodup) (rows : List ρ) :
  (keys.map (groupSum key value rows)).sum =
    ((rows.filter fun row => key row ∈ keys).map value).sum
  := by
  induction rows with
  | nil =>
    have zero : groupSum key value [] = fun _ => 0 := rfl
    rw [zero, List.map_const', List.sum_replicate, nsmul_zero]
    rfl
  | cons row rows ih =>
    have cons : groupSum key value (row :: rows) =
        fun k => (if key row = k then value row else 0) + groupSum key value rows k := by
      funext k
      apply groupSum_cons
    rw [cons, List.sum_map_add, ih, sum_map_ite unique, List.filter_cons]
    by_cases h : key row ∈ keys
    · rw [if_pos h, if_pos (decide_eq_true h), List.map_cons, List.sum_cons]
    · rw [if_neg h, if_neg (by rwa [decide_eq_true_eq]), zero_add]

/-- The sum over the groups that a coarser key puts together. -/
theorem groupSum_groupSums (coarse : κ → γ) (rows : List ρ) (c : γ) :
  groupSum (fun group => coarse group.1) Prod.snd (groupSums key value rows) c =
    groupSum (fun row => coarse (key row)) value rows c
  := by
  have groups : ((groupSums key value rows).filter fun group => coarse group.1 = c).map Prod.snd =
      ((rows.map key).dedup.filter fun k => coarse k = c).map (groupSum key value rows) := by
    unfold groupSums
    rw [List.filter_map, List.map_map]
    rfl
  have unique : ((rows.map key).dedup.filter fun k => coarse k = c).Nodup :=
    (List.nodup_dedup _).filter _
  have sums : groupSum (fun group => coarse group.1) Prod.snd (groupSums key value rows) c =
      (((groupSums key value rows).filter fun group => coarse group.1 = c).map Prod.snd).sum := rfl
  rw [sums, groups, sum_map_groupSum key value unique]
  unfold groupSum
  congr 2
  apply List.filter_congr
  intro row hrow
  rw [decide_eq_decide, List.mem_filter, List.mem_dedup, decide_eq_true_eq]
  exact ⟨And.right, fun h => ⟨List.mem_map_of_mem hrow, h⟩⟩

omit [DecidableEq γ] in
theorem mem_map_groupSums (coarse : κ → γ) {rows : List ρ} {c : γ} :
  c ∈ (groupSums key value rows).map (fun group => coarse group.1) ↔
    c ∈ rows.map fun row => coarse (key row)
  := by
  have keys : (groupSums key value rows).map (fun group => coarse group.1) =
      (rows.map key).dedup.map coarse := by
    rw [← map_fst_groupSums key value, List.map_map]
    rfl
  rw [keys, List.mem_map, List.mem_map]
  constructor
  · rintro ⟨k, hk, rfl⟩
    obtain ⟨row, hrow, rfl⟩ := List.mem_map.mp (List.mem_dedup.mp hk)
    exact ⟨row, hrow, rfl⟩
  · rintro ⟨row, hrow, rfl⟩
    exact ⟨key row, List.mem_dedup.mpr (List.mem_map_of_mem hrow), rfl⟩

/-- Grouping the groups again is grouping the rows by the coarser key. -/
theorem regroup (coarse : κ → γ) (rows : List ρ) :
  (groupSums (fun group => coarse group.1) Prod.snd (groupSums key value rows)).Perm
    (groupSums (fun row => coarse (key row)) value rows)
  := by
  apply perm_groupSums
  · apply nodup_groupSums
  · intro c m
    rw [mem_groupSums, mem_map_groupSums, groupSum_groupSums]

end Regrouping

end Grouping
