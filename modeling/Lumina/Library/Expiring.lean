import Mathlib.Data.Nat.Notation
import Mathlib.Logic.Function.Basic

/-!
# Keys that expire

A store of keys, each with a value and a moment from which on it is gone.  A key does not expire
early, and a value that has been read has not expired.
-/

/-- A value and the moment it expires. -/
structure Entry (α : Type) where
  value : α
  expiresAt : ℕ
deriving DecidableEq

/-- The entries of the keys.  One that has expired may still be there, but it is not read. -/
abbrev Expiring (κ α : Type) := κ → Option (Entry α)

namespace Expiring

variable {κ α : Type} [DecidableEq κ]

/-- The value of a key at a moment. -/
def get (keys : Expiring κ α) (now : ℕ) (k : κ) : Option α :=
  (keys k).bind fun e => if now < e.expiresAt then some e.value else none

def set (keys : Expiring κ α) (k : κ) (value : α) (expiresAt : ℕ) : Expiring κ α :=
  Function.update keys k (some ⟨value, expiresAt⟩)

def del (keys : Expiring κ α) (k : κ) : Expiring κ α :=
  Function.update keys k none

omit [DecidableEq κ] in
theorem get_eq_some_iff {keys : Expiring κ α} {now : ℕ} {k : κ} {value : α} :
  keys.get now k = some value ↔ ∃ expiresAt, keys k = some ⟨value, expiresAt⟩ ∧ now < expiresAt
  := by
  unfold get
  rw [Option.bind_eq_some_iff]
  constructor
  · rintro ⟨⟨value', expiresAt⟩, found, live⟩
    split at live
    · case isTrue lt =>
      cases live
      exact ⟨expiresAt, found, lt⟩
    · cases live
  · rintro ⟨expiresAt, found, lt⟩
    exact ⟨⟨value, expiresAt⟩, found, if_pos lt⟩

omit [DecidableEq κ] in
theorem get_eq_none_of_none {keys : Expiring κ α} {k : κ} (h : keys k = none) (now : ℕ) :
  keys.get now k = none
  := by
  unfold get
  rw [h]
  rfl

omit [DecidableEq κ] in
/-- An entry whose moment has come is not read. -/
theorem get_eq_none_of_le {keys : Expiring κ α} {k : κ} {e : Entry α} (h : keys k = some e)
    {now : ℕ} (le : e.expiresAt ≤ now) :
  keys.get now k = none
  := by
  unfold get
  rw [h, Option.bind_some, if_neg (Nat.not_lt.mpr le)]

omit [DecidableEq κ] in
/-- As time passes, a key is gone or keeps its value. -/
theorem get_later (keys : Expiring κ α) {now now' : ℕ} (k : κ) (le : now ≤ now') :
  keys.get now' k = none ∨ keys.get now' k = keys.get now k
  := by
  cases found : keys.get now' k with
  | none => exact Or.inl rfl
  | some value =>
    right
    obtain ⟨expiresAt, entry, lt⟩ := get_eq_some_iff.mp found
    exact (get_eq_some_iff.mpr ⟨expiresAt, entry, Nat.lt_of_le_of_lt le lt⟩).symm

omit [DecidableEq κ] in
/-- A key that is gone does not come back. -/
theorem get_eq_none_mono {keys : Expiring κ α} {now now' : ℕ} {k : κ} (le : now ≤ now')
    (h : keys.get now k = none) :
  keys.get now' k = none
  := by
  obtain gone | same := keys.get_later k le
  · exact gone
  · exact same.trans h

omit [DecidableEq κ] in
/-- Only the entry of a key matters to its value. -/
theorem get_congr {keys keys' : Expiring κ α} {k : κ} (h : keys' k = keys k) (now : ℕ) :
  keys'.get now k = keys.get now k
  := by
  unfold get
  rw [h]

@[simp]
theorem set_self (keys : Expiring κ α) (k : κ) (value : α) (expiresAt : ℕ) :
  keys.set k value expiresAt k = some ⟨value, expiresAt⟩
  := by
  apply Function.update_self

theorem set_of_ne (keys : Expiring κ α) {k k' : κ} (h : k' ≠ k) (value : α) (expiresAt : ℕ) :
  keys.set k value expiresAt k' = keys k'
  := by
  apply Function.update_of_ne h

@[simp]
theorem del_self (keys : Expiring κ α) (k : κ) :
  keys.del k k = none
  := by
  apply Function.update_self

theorem del_of_ne (keys : Expiring κ α) {k k' : κ} (h : k' ≠ k) :
  keys.del k k' = keys k'
  := by
  apply Function.update_of_ne h

/-- A deletion leaves no entry that was not there before. -/
theorem of_del {keys : Expiring κ α} {k k' : κ} {e : Entry α} (h : keys.del k k' = some e) :
  k' ≠ k ∧ keys k' = some e
  := by
  by_cases same : k' = k
  · rw [same, del_self] at h
    cases h
  · rw [del_of_ne keys same] at h
    exact ⟨same, h⟩

end Expiring
