import Lumina.Library.Paging

/-!
# Walking through a table by keys

A page has the first rows after a cursor, in the order of their keys, and the key of its last row as
the next cursor, if one more row was found.  The walk from the first page on ends, and it goes
through the table in order.
-/

namespace Keyset

open Paging (eq_of_perm sorted pairwise_sorted sorted_perm)

variable {α κ : Type} [LinearOrder κ] (key : α → κ)

/-- The rows after a cursor. -/
def after (cursor : Option κ) (rows : List α) : List α :=
  match cursor with
  | none => rows
  | some k => rows.filter fun a => decide (k < key a)

/-- A page, and the next cursor. -/
def page (rows : List α) (limit : ℕ) (cursor : Option κ) : List α × Option κ :=
  let found := (sorted key (after key cursor rows)).take (limit + 1)
  if found.length ≤ limit then (found, none)
  else (found.take limit, (found.take limit).getLast?.map key)

/-- The rows of the pages that follow a cursor, if some number of them is enough. -/
def walk {κ : Type} (page : Option κ → List α × Option κ) : ℕ → Option κ → Option (List α)
  | 0, _ => none
  | n + 1, cursor =>
      match page cursor with
      | (items, none) => some items
      | (items, some next) => (walk page n (some next)).map (items ++ ·)

section

variable {key} {rows : List α}

omit [LinearOrder κ] in
theorem nodup_filter (unique : (rows.map key).Nodup) (p : α → Bool) :
  ((rows.filter p).map key).Nodup
  := unique.sublist (List.filter_sublist.map key)

theorem nodup_after (unique : (rows.map key).Nodup) (cursor : Option κ) :
  ((after key cursor rows).map key).Nodup
  := by
  cases cursor with
  | none => exact unique
  | some k => exact nodup_filter unique _

theorem sorted_filter (unique : (rows.map key).Nodup) (p : α → Bool) :
  sorted key (rows.filter p) = (sorted key rows).filter p
  := by
  have same := (sorted_perm key _).trans ((sorted_perm key rows).filter p).symm
  have first := pairwise_sorted key (nodup_filter unique p)
  have second := (pairwise_sorted key unique).filter p
  exact eq_of_perm same first second

/-- The rows that come after one of a list in order are the ones behind it. -/
theorem filter_lt_getElem {L : List α} (ordered : L.Pairwise (key · < key ·)) {i : ℕ}
    (hi : i < L.length) :
  (L.filter fun a => decide (key L[i] < key a)) = L.drop (i + 1)
  := by
  induction L generalizing i with
  | nil => cases hi
  | cons a L ih =>
    obtain ⟨least, ordered⟩ := List.pairwise_cons.mp ordered
    cases i with
    | zero =>
      rw [List.getElem_cons_zero, List.filter_cons_of_neg (by simp), List.drop_succ_cons,
        List.drop_zero, List.filter_eq_self]
      exact fun b hb => decide_eq_true (least b hb)
    | succ i =>
      have inside : i < L.length := Nat.lt_of_succ_lt_succ hi
      have before : ¬ decide (key L[i] < key a) = true := by
        rw [decide_eq_true_eq]
        exact lt_asymm (least _ (List.getElem_mem inside))
      rw [List.getElem_cons_succ, List.drop_succ_cons, ← ih ordered inside]
      exact List.filter_cons_of_neg before

/-- The rows after a row that comes after a cursor. -/
theorem after_after {cursor : Option κ} {a : α} (h : a ∈ after key cursor rows) :
  after key (some (key a)) rows = (after key cursor rows).filter fun b => decide (key a < key b)
  := by
  cases cursor with
  | none => rfl
  | some k =>
    have before : k < key a := of_decide_eq_true (List.mem_filter.mp h).2
    unfold after
    rw [List.filter_filter]
    apply List.filter_congr
    intro b _
    rw [← Bool.decide_and, decide_eq_decide]
    exact ⟨fun h => ⟨h, before.trans h⟩, And.left⟩

/-- What follows the page of a cursor is what comes after its last row. -/
theorem sorted_after_getElem (unique : (rows.map key).Nodup) {cursor : Option κ} {i : ℕ}
    (hi : i < (sorted key (after key cursor rows)).length) :
  sorted key (after key (some (key (sorted key (after key cursor rows))[i])) rows) =
    (sorted key (after key cursor rows)).drop (i + 1)
  := by
  have inside : (sorted key (after key cursor rows))[i] ∈ after key cursor rows :=
    (Paging.mem_sorted key).mp (List.getElem_mem hi)
  rw [after_after inside, sorted_filter (nodup_after unique cursor)]
  exact filter_lt_getElem (pairwise_sorted key (nodup_after unique cursor)) hi

/-- The walk from a cursor ends and goes through the rows after it, in order. -/
theorem walk_from (unique : (rows.map key).Nodup) {limit : ℕ} (positive : 0 < limit)
    (cursor : Option κ) {n : ℕ} (enough : (after key cursor rows).length < n) :
  walk (page key rows limit) n cursor = some (sorted key (after key cursor rows))
  := by
  induction n generalizing cursor with
  | zero => cases enough
  | succ n ih =>
    have length : (sorted key (after key cursor rows)).length = (after key cursor rows).length :=
      (sorted_perm key _).length_eq
    by_cases last : (sorted key (after key cursor rows)).length ≤ limit
    · have all : (sorted key (after key cursor rows)).take (limit + 1) =
          sorted key (after key cursor rows) := List.take_of_length_le (by omega)
      rw [walk, page, all, if_pos last]
    · have more : ¬ ((sorted key (after key cursor rows)).take (limit + 1)).length ≤ limit := by
        rw [List.length_take]
        omega
      have inside : limit - 1 < (sorted key (after key cursor rows)).length := by omega
      have next : ((sorted key (after key cursor rows)).take limit).getLast? =
          some (sorted key (after key cursor rows))[limit - 1] := by
        rw [List.getLast?_eq_getElem?, List.length_take, Nat.min_eq_left (by omega),
          List.getElem?_take_of_lt (by omega), List.getElem?_eq_getElem inside]
      have follow := sorted_after_getElem unique inside
      rw [Nat.sub_add_cancel positive] at follow
      have fewer := congrArg List.length follow
      rw [(sorted_perm key _).length_eq, List.length_drop] at fewer
      rw [walk, page, if_neg more, List.take_take, Nat.min_eq_left (by omega), next,
        Option.map_some]
      dsimp only
      rw [ih (some _) (by omega), follow, Option.map_some, List.take_append_drop]

end

end Keyset
