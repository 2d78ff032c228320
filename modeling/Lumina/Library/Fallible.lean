import Mathlib.Data.List.Forall2

/-!
# Computations that may fail

What a sequence of computations comes to: its result is that of all of them, and its error that of
the first one that fails.
-/

namespace Fallible

variable {α β ε ε' : Type}

/-- What is not there is an error. -/
def orRaise (e : ε) (a : Option α) : Except ε α :=
  a.elim (.error e) .ok

theorem ok_of_orRaise {e : ε} {o : Option α} {a : α} (h : orRaise e o = .ok a) :
  o = some a
  := by
  cases o with
  | none => cases h
  | some b =>
    cases h
    rfl

theorem error_of_orRaise {e e' : ε} {o : Option α} (h : orRaise e o = .error e') :
  o = none ∧ e' = e
  := by
  cases o with
  | none => exact ⟨rfl, (Except.error.inj h).symm⟩
  | some a => cases h

theorem ok_of_bind {x : Except ε α} {f : α → Except ε β} {b : β} (h : x.bind f = .ok b) :
  ∃ a, x = .ok a ∧ f a = .ok b
  := by
  cases x with
  | error e => cases h
  | ok a => exact ⟨a, rfl, h⟩

theorem error_of_bind {x : Except ε α} {f : α → Except ε β} {e : ε} (h : x.bind f = .error e) :
  x = .error e ∨ ∃ a, x = .ok a ∧ f a = .error e
  := by
  cases x with
  | error e' => exact .inl (congrArg Except.error (Except.error.inj h))
  | ok a => exact .inr ⟨a, rfl, h⟩

theorem ok_of_map {x : Except ε α} {f : α → β} {b : β} (h : x.map f = .ok b) :
  ∃ a, x = .ok a ∧ f a = b
  := by
  cases x with
  | error e => cases h
  | ok a =>
    cases h
    exact ⟨a, rfl, rfl⟩

theorem ok_of_mapError {x : Except ε α} {f : ε → ε'} {a : α} (h : x.mapError f = .ok a) :
  x = .ok a
  := by
  cases x with
  | error e => cases h
  | ok b =>
    cases h
    rfl

theorem toOption_mapError (f : ε → ε') (x : Except ε α) :
  (x.mapError f).toOption = x.toOption
  := by
  cases x with
  | error e => rfl
  | ok a => rfl

theorem mapM_eq_ok_iff {f : α → Except ε β} {xs : List α} {ys : List β} :
  xs.mapM f = .ok ys ↔ List.Forall₂ (fun x y => f x = .ok y) xs ys
  := by
  induction xs generalizing ys with
  | nil =>
    rw [List.mapM_nil]
    constructor
    · rintro ⟨⟩
      exact .nil
    · rintro ⟨⟩
      rfl
  | cons x xs ih =>
    rw [List.mapM_cons]
    constructor
    · intro h
      obtain ⟨y, head, h⟩ := ok_of_bind h
      obtain ⟨others, tail, h⟩ := ok_of_bind h
      cases h
      exact .cons head (ih.mp tail)
    · rintro ⟨⟩
      rename_i y ys head tail
      rw [head, ih.mpr tail]
      rfl

theorem mapM_of_ok {f : α → Except ε β} {g : α → β} {xs : List α} (h : ∀ x ∈ xs, f x = .ok (g x)) :
  xs.mapM f = .ok (xs.map g)
  := by
  rw [mapM_eq_ok_iff, List.forall₂_map_right_iff, List.forall₂_same]
  exact h

/-- Nothing is collected if nothing is found anywhere. -/
theorem mapM_flatten_eq_nil {f : α → Except ε (List β)} {xs : List α} :
  (∃ ys, xs.mapM f = .ok ys ∧ ys.flatten = []) ↔ ∀ x ∈ xs, f x = .ok []
  := by
  constructor
  · rintro ⟨ys, h, none⟩ x hx
    have pairs := mapM_eq_ok_iff.mp h
    clear h
    induction pairs with
    | nil => cases hx
    | cons head _ ih =>
      rw [List.flatten_cons, List.append_eq_nil_iff] at none
      rcases List.mem_cons.mp hx with rfl | hx
      · rw [head, none.1]
      · exact ih none.2 hx
  · intro h
    refine ⟨_, mapM_of_ok h, ?_⟩
    simp

theorem error_of_mapM {f : α → Except ε β} {xs : List α} {e : ε} (h : xs.mapM f = .error e) :
  ∃ x ∈ xs, f x = .error e
  := by
  induction xs with
  | nil => cases h
  | cons x xs ih =>
    rw [List.mapM_cons] at h
    rcases error_of_bind h with head | ⟨y, _, h⟩
    · exact ⟨x, List.mem_cons_self, head⟩
    rcases error_of_bind h with tail | ⟨ys, _, h⟩
    · obtain ⟨x', hx, error⟩ := ih tail
      exact ⟨x', List.mem_cons_of_mem x hx, error⟩
    · cases h

/-- All of a list is mapped if each of its elements is. -/
theorem mapM_isOk_iff {f : α → Except ε β} {xs : List α} :
  (∃ ys, xs.mapM f = .ok ys) ↔ ∀ x ∈ xs, ∃ y, f x = .ok y
  := by
  constructor
  · rintro ⟨ys, h⟩ x hx
    have pairs := mapM_eq_ok_iff.mp h
    clear h
    induction pairs with
    | nil => cases hx
    | cons head _ ih =>
      rcases List.mem_cons.mp hx with rfl | hx
      · exact ⟨_, head⟩
      · exact ih hx
  · intro h
    cases result : xs.mapM f with
    | ok ys => exact ⟨ys, rfl⟩
    | error e =>
      obtain ⟨x, hx, failed⟩ := error_of_mapM result
      obtain ⟨y, hy⟩ := h x hx
      rw [hy] at failed
      cases failed

theorem error_of_foldlM {f : β → α → Except ε β} {xs : List α} {b : β} {e : ε}
    (h : xs.foldlM f b = .error e) :
  ∃ b', ∃ x ∈ xs, f b' x = .error e
  := by
  induction xs generalizing b with
  | nil => cases h
  | cons x xs ih =>
    rw [List.foldlM_cons] at h
    rcases error_of_bind h with head | ⟨b', _, h⟩
    · exact ⟨b, x, List.mem_cons_self, head⟩
    · obtain ⟨b'', x', hx, error⟩ := ih h
      exact ⟨b'', x', List.mem_cons_of_mem x hx, error⟩

/-- A loop that computes something of each element, and changes a value with it. -/
theorem foldlM_map {γ : Type} (f : α → Except ε β) (g : γ → β → γ) (xs : List α) (c : γ) :
  xs.foldlM (fun c x => (f x).map (g c)) c = (xs.mapM f).map fun ys => ys.foldl g c
  := by
  induction xs generalizing c with
  | nil => rfl
  | cons x xs ih =>
    rw [List.foldlM_cons, List.mapM_cons]
    cases f x with
    | error e => rfl
    | ok y =>
      change xs.foldlM (fun c x => (f x).map (g c)) (g c y) = _
      rw [ih]
      cases xs.mapM f with
      | error e => rfl
      | ok ys => rfl

end Fallible
