import Mathlib.Data.List.Basic
import Mathlib.Data.List.Induction
import Mathlib.Data.List.Nodup
import Mathlib.Data.Nat.Notation

/-!
# Dictionaries

A dictionary of Python as the list of its members in the order in which the keys were set first.
A loop that changes the value at the key of each row groups the rows by their keys.
-/

namespace Dict

variable {κ ν : Type*} [DecidableEq κ]

/-- `d[k] = v`. -/
def set (k : κ) (v : ν) : List (κ × ν) → List (κ × ν)
  | [] => [(k, v)]
  | (k', v') :: d => if k' = k then (k, v) :: d else (k', v') :: set k v d

/-- The dictionary of a list of pairs, where a later pair counts more. -/
def ofPairs (pairs : List (κ × ν)) : List (κ × ν) :=
  pairs.foldl (fun d (k, v) => set k v d) []

theorem lookup_cons_ne {k k' : κ} (h : k' ≠ k) (v : ν) (d : List (κ × ν)) :
  ((k', v) :: d).lookup k = d.lookup k
  := by
  rw [List.lookup_cons, beq_false_of_ne h.symm]

theorem lookup_set_self (k : κ) (v : ν) (d : List (κ × ν)) :
  (set k v d).lookup k = some v
  := by
  induction d with
  | nil => exact List.lookup_cons_self
  | cons member d ih =>
    rw [set]
    split_ifs with same
    · exact List.lookup_cons_self
    · rw [lookup_cons_ne same, ih]

theorem lookup_set_of_ne {k k' : κ} (h : k' ≠ k) (v : ν) (d : List (κ × ν)) :
  (set k v d).lookup k' = d.lookup k'
  := by
  induction d with
  | nil => exact lookup_cons_ne h.symm v []
  | cons member d ih =>
    rw [set]
    split_ifs with same
    · rw [lookup_cons_ne h.symm, lookup_cons_ne (same.symm ▸ h.symm)]
    · by_cases here : member.1 = k'
      · subst here
        rw [List.lookup_cons_self, List.lookup_cons_self]
      · rw [lookup_cons_ne here, lookup_cons_ne here, ih]

/-- The values of different keys, which are put before other members. -/
theorem map_lookup_zip {keys : List κ} {values : List ν} (distinct : keys.Nodup)
    (same : keys.length = values.length) (d : List (κ × ν)) :
  keys.map (fun k => (keys.zip values ++ d).lookup k) = values.map some
  := by
  induction keys generalizing values with
  | nil => rw [List.length_eq_zero_iff.mp same.symm, List.map_nil, List.map_nil]
  | cons k keys ih =>
    obtain ⟨v, values, rfl⟩ := List.exists_cons_of_length_eq_add_one same.symm
    obtain ⟨fresh, distinct⟩ := List.nodup_cons.mp distinct
    have others : ∀ k' ∈ keys, ((k :: keys).zip (v :: values) ++ d).lookup k' =
        (keys.zip values ++ d).lookup k' := by
      intro k' hk'
      apply lookup_cons_ne
      rintro rfl
      exact fresh hk'
    rw [List.map_cons, List.map_congr_left others, ih distinct (Nat.succ.inj same), List.map_cons]
    congr 1
    exact List.lookup_cons_self

/-- A key is not set again to the value that it has. -/
theorem set_of_lookup {k : κ} {v : ν} {d : List (κ × ν)} (h : d.lookup k = some v) :
  set k v d = d
  := by
  induction d with
  | nil => cases h
  | cons member d ih =>
    rw [set]
    split_ifs with same
    · subst same
      rw [List.lookup_cons_self] at h
      rw [← Option.some.inj h]
    · rw [lookup_cons_ne same] at h
      rw [ih h]

/-- Two keys are not set again to the values that they have. -/
theorem set_set_again {k k' : κ} (h : k ≠ k') (v v' : ν) (d : List (κ × ν)) :
  set k' v' (set k v (set k' v' (set k v d))) = set k' v' (set k v d)
  := by
  have first : (set k' v' (set k v d)).lookup k = some v := by
    rw [lookup_set_of_ne h, lookup_set_self]
  rw [set_of_lookup first, set_of_lookup (lookup_set_self k' v' _)]

theorem set_of_fresh {k : κ} {d : List (κ × ν)} (h : k ∉ d.map Prod.fst) (v : ν) :
  set k v d = d ++ [(k, v)]
  := by
  induction d with
  | nil => rfl
  | cons member d ih =>
    rw [List.map_cons, List.mem_cons, not_or] at h
    rw [set, if_neg (Ne.symm h.1), ih h.2, List.cons_append]

theorem foldl_set_of_nodup {d pairs : List (κ × ν)} (h : ((d ++ pairs).map Prod.fst).Nodup) :
  pairs.foldl (fun d (k, v) => set k v d) d = d ++ pairs
  := by
  induction pairs generalizing d with
  | nil =>
    rw [List.append_nil]
    rfl
  | cons pair pairs ih =>
    have fresh : pair.1 ∉ d.map Prod.fst := by
      rw [List.map_append, List.nodup_append] at h
      exact fun earlier => h.2.2 _ earlier _ List.mem_cons_self rfl
    have added : set pair.1 pair.2 d = d ++ [pair] := set_of_fresh fresh pair.2
    rw [← List.singleton_append, ← List.append_assoc] at h
    rw [List.foldl_cons]
    dsimp only
    rw [added, ih h, List.append_assoc, List.singleton_append]

/-- Pairs with different keys are a dictionary already. -/
theorem ofPairs_of_nodup {pairs : List (κ × ν)} (h : (pairs.map Prod.fst).Nodup) :
  ofPairs pairs = pairs
  := foldl_set_of_nodup (d := []) h

/-- The value of a key is that of the last pair with it. -/
theorem lookup_ofPairs (pairs : List (κ × ν)) (k : κ) :
  (ofPairs pairs).lookup k = pairs.reverse.lookup k
  := by
  induction pairs using List.reverseRecOn with
  | nil => rfl
  | append_singleton pairs pair ih =>
    have last : ofPairs (pairs ++ [pair]) = set pair.1 pair.2 (ofPairs pairs) := by
      unfold ofPairs
      rw [List.foldl_append]
      rfl
    rw [last, List.reverse_concat]
    by_cases same : pair.1 = k
    · subst same
      rw [lookup_set_self, List.lookup_cons_self]
    · rw [lookup_set_of_ne (Ne.symm same), ih]
      exact (lookup_cons_ne same pair.2 pairs.reverse).symm

/-! ### Grouping -/

section

variable {ρ : Type*}

theorem set_map (k : κ) (v : ν) (g : κ → ν) {keys : List κ} (distinct : keys.Nodup) :
  set k v (keys.map fun k' => (k', g k')) =
    if k ∈ keys then keys.map fun k' => (k', if k' = k then v else g k')
    else keys.map (fun k' => (k', g k')) ++ [(k, v)]
  := by
  induction keys with
  | nil => rfl
  | cons k' keys ih =>
    obtain ⟨fresh, distinct⟩ := List.nodup_cons.mp distinct
    rw [List.map_cons, set, ih distinct]
    by_cases same : k' = k
    · subst same
      have others : ∀ k ∈ keys, (k, if k = k' then v else g k) = (k, g k) := by
        intro k hk
        rw [if_neg]
        rintro rfl
        exact fresh hk
      rw [if_pos rfl, if_pos List.mem_cons_self, List.map_cons, if_pos rfl,
        List.map_congr_left others]
    · have later : k ∈ k' :: keys ↔ k ∈ keys :=
        List.mem_cons.trans (or_iff_right fun h => same h.symm)
      rw [if_neg same]
      simp only [later]
      split_ifs
      · rw [List.map_cons, if_neg same]
      · rfl

theorem lookup_map (k : κ) (g : κ → ν) (keys : List κ) :
  (keys.map fun k' => (k', g k')).lookup k = if k ∈ keys then some (g k) else none
  := by
  induction keys with
  | nil => rfl
  | cons k' keys ih =>
    rw [List.map_cons]
    by_cases same : k' = k
    · subst same
      rw [List.lookup_cons_self, if_pos List.mem_cons_self]
    · have later : k ∈ k' :: keys ↔ k ∈ keys :=
        List.mem_cons.trans (or_iff_right fun h => same h.symm)
      rw [lookup_cons_ne same, ih]
      simp only [later]

theorem eraseDups_concat (keys : List κ) (k : κ) :
  (keys ++ [k]).eraseDups = if k ∈ keys then keys.eraseDups else keys.eraseDups ++ [k]
  := by
  rw [List.eraseDups_append]
  split_ifs with seen
  · have none : [k].removeAll keys = [] := by
      simp [List.removeAll, seen]
    rw [none, List.eraseDups_nil, List.append_nil]
  · have one : [k].removeAll keys = [k] := by
      simp [List.removeAll, seen]
    rw [one]
    rfl

theorem nodup_eraseDups (keys : List κ) :
  keys.eraseDups.Nodup
  := by
  induction keys using List.reverseRecOn with
  | nil => exact List.nodup_nil
  | append_singleton keys k ih =>
    rw [eraseDups_concat]
    split_ifs with seen
    · exact ih
    · apply List.nodup_append.mpr
      refine ⟨ih, List.nodup_singleton k, ?_⟩
      rintro k' hk' _ ⟨⟩ rfl
      · exact seen (List.mem_eraseDups.mp hk')
      · contradiction

/-- The rows of each key in their order, under the keys in the order of their first rows. -/
theorem foldl_set (key : ρ → κ) (step : ν → ρ → ν) (zero : ν) (rows : List ρ) :
  rows.foldl (fun d row => set (key row) (step ((d.lookup (key row)).getD zero) row) d) [] =
    (rows.map key).eraseDups.map fun k => (k, (rows.filter fun row => key row = k).foldl step zero)
  := by
  induction rows using List.reverseRecOn with
  | nil => rfl
  | append_singleton rows row ih =>
    have value (k : κ) : ((rows ++ [row]).filter fun row => key row = k).foldl step zero =
        if k = key row then step ((rows.filter fun row => key row = k).foldl step zero) row
        else (rows.filter fun row => key row = k).foldl step zero := by
      rw [List.filter_append, List.foldl_append]
      by_cases same : k = key row
      · rw [if_pos same, List.filter_cons_of_pos (by simp [same])]
        rfl
      · rw [if_neg same, List.filter_cons_of_neg (by simpa using Ne.symm same)]
        rfl
    rw [List.foldl_append, ih, List.foldl_cons, List.foldl_nil, lookup_map,
      set_map _ _ _ (nodup_eraseDups _), List.map_append, List.map_singleton, eraseDups_concat]
    simp only [List.mem_eraseDups, value]
    split_ifs with seen
    · apply List.map_congr_left
      intro k hk
      split_ifs with same
      · rw [same, Option.getD_some]
      · rfl
    · have fresh : rows.filter (fun row' => key row' = key row) = [] := by
        apply List.filter_eq_nil_iff.mpr
        intro row' hrow' same
        exact seen (List.mem_map.mpr ⟨row', hrow', of_decide_eq_true same⟩)
      rw [List.map_append, List.map_singleton, if_pos rfl, fresh]
      congr 1
      apply List.map_congr_left
      intro k hk
      rw [if_neg]
      rintro rfl
      exact seen (List.mem_eraseDups.mp hk)

end

end Dict
