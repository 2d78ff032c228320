import Mathlib.Data.List.Infix
import Mathlib.Data.Nat.Notation

/-!
# Scanning a text for a pattern

What `findall` and a global `exec` do: the text is read from its beginning, a match is taken where
there is one, and the search goes on behind it.
-/

namespace Scanning

variable {α β : Type}

/-- What a pattern finds at the beginning of a text, and how that is written there. -/
structure Pattern (α β : Type) where
  find : List α → Option β
  spell : β → List α
  sound : ∀ {text b}, find text = some b → spell b <+: text
  ne_nil : ∀ b, spell b ≠ []

namespace Pattern

variable (P : Pattern α β)

/-- The characters and the matches of a text; `skip` characters of a match are still to come. -/
def scan : (skip : ℕ) → List α → List (α ⊕ β)
  | _, [] => []
  | skip + 1, _ :: text => scan skip text
  | 0, c :: text =>
      match P.find (c :: text) with
      | some b => .inr b :: scan ((P.spell b).length - 1) text
      | none => .inl c :: scan 0 text

/-- What is written for characters and matches. -/
def write (pieces : List (α ⊕ β)) : List α :=
  pieces.flatMap (Sum.elim (fun c => [c]) P.spell)

theorem scan_skip (skip : ℕ) (text : List α) :
  P.scan skip text = P.scan 0 (text.drop skip)
  := by
  induction text generalizing skip with
  | nil =>
    rw [List.drop_nil, scan, scan]
  | cons c text ih =>
    cases skip with
    | zero => rfl
    | succ skip => rw [scan, ih, List.drop_succ_cons]

/-- A text is taken apart into characters where nothing is found, and matches. -/
@[elab_as_elim]
theorem pieceInduction {motive : List α → Prop} (nil : motive [])
    (char : ∀ c text, P.find (c :: text) = none → motive text → motive (c :: text))
    (found : ∀ b text, P.find (P.spell b ++ text) = some b → motive text →
      motive (P.spell b ++ text))
    (text : List α) :
  motive text
  := by
  induction h : text.length using Nat.strongRecOn generalizing text with
  | ind n ih =>
    cases text with
    | nil => exact nil
    | cons c text =>
      cases hfind : P.find (c :: text) with
      | none =>
        have shorter : text.length < n := by
          rw [← h]
          exact Nat.lt_succ_self _
        exact char c text hfind (ih _ shorter text rfl)
      | some b =>
        obtain ⟨after, split⟩ := P.sound hfind
        have positive := List.length_pos_iff.mpr (P.ne_nil b)
        have shorter : after.length < n := by
          rw [← h, ← split, List.length_append]
          omega
        rw [← split] at hfind ⊢
        exact found b after hfind (ih _ shorter after rfl)

variable {P} {text : List α} {b : β}

theorem scan_of_some (h : P.find (P.spell b ++ text) = some b) :
  P.scan 0 (P.spell b ++ text) = .inr b :: P.scan 0 text
  := by
  obtain ⟨c, rest, first⟩ := List.exists_cons_of_ne_nil (P.ne_nil b)
  rw [first, List.cons_append] at h
  rw [first, List.cons_append, scan, h]
  dsimp only
  rw [scan_skip, first, List.length_cons, Nat.add_sub_cancel, List.drop_left]

theorem scan_of_none {c : α} (h : P.find (c :: text) = none) :
  P.scan 0 (c :: text) = .inl c :: P.scan 0 text
  := by
  rw [scan, h]

/-- The first piece tells what is found. -/
theorem find_of_scan_eq {piece : α ⊕ β} {pieces : List (α ⊕ β)}
    (h : P.scan 0 text = piece :: pieces) :
  P.find text = piece.getRight?
  := by
  induction text using P.pieceInduction with
  | nil => cases h
  | char c text none _ =>
    rw [scan_of_none none] at h
    obtain ⟨rfl, -⟩ := List.cons.inj h
    exact none
  | found b text found _ =>
    rw [scan_of_some found] at h
    obtain ⟨rfl, -⟩ := List.cons.inj h
    exact found

/-- The pieces of a text are the text. -/
theorem write_scan (P : Pattern α β) (text : List α) :
  P.write (P.scan 0 text) = text
  := by
  induction text using P.pieceInduction with
  | nil => rfl
  | char c text none ih =>
    rw [scan_of_none none, write, List.flatMap_cons, ← write, ih]
    rfl
  | found b text found ih =>
    rw [scan_of_some found, write, List.flatMap_cons, ← write, ih]
    rfl

/-- After some pieces the rest is scanned from its beginning. -/
theorem scan_drop_write {front back : List (α ⊕ β)} (h : P.scan 0 text = front ++ back) :
  P.scan 0 (text.drop (P.write front).length) = back
  := by
  induction text using P.pieceInduction generalizing front with
  | nil =>
    obtain ⟨rfl, rfl⟩ := List.append_eq_nil_iff.mp h.symm
    rfl
  | char c text none ih =>
    cases front with
    | nil => exact h
    | cons piece front =>
      rw [scan_of_none none] at h
      obtain ⟨rfl, rest⟩ := List.cons.inj h
      exact ih rest
  | found b text found ih =>
    cases front with
    | nil => exact h
    | cons piece front =>
      rw [scan_of_some found] at h
      obtain ⟨rfl, rest⟩ := List.cons.inj h
      rw [write, List.flatMap_cons, List.length_append, ← List.drop_drop]
      change P.scan 0 (((P.spell b ++ text).drop (P.spell b).length).drop _) = _
      rw [List.drop_left]
      exact ih rest

/-- A text after which nothing else is found ends the scan. -/
theorem scan_append {tail : List α}
    (front : ∀ s, s ≠ [] → s <:+ text → P.find (s ++ tail) = P.find s)
    (back : ∀ s, s <:+ tail → P.find s = none) :
  P.scan 0 (text ++ tail) = P.scan 0 text ++ tail.map .inl
  := by
  induction text using P.pieceInduction with
  | nil =>
    rw [List.nil_append, scan, List.nil_append]
    clear front
    induction tail with
    | nil => rw [scan, List.map_nil]
    | cons c tail ih =>
      rw [scan_of_none (back _ List.suffix_rfl),
        ih fun s hs => back s (hs.trans (List.suffix_cons c tail)), List.map_cons]
  | char c text none ih =>
    have none' := (front _ (List.cons_ne_nil c text) List.suffix_rfl).trans none
    rw [List.cons_append] at none' ⊢
    rw [scan_of_none none', scan_of_none none,
      ih fun s hs suffix => front s hs (suffix.trans (List.suffix_cons c text)), List.cons_append]
  | found b text found ih =>
    have found' := (front _ (List.append_ne_nil_of_left_ne_nil (P.ne_nil b) text)
      List.suffix_rfl).trans found
    rw [List.append_assoc] at found' ⊢
    rw [scan_of_some found', scan_of_some found,
      ih fun s hs suffix => front s hs (suffix.trans (List.suffix_append _ text)), List.cons_append]

/-- Two patterns that find the same in a text scan it alike. -/
theorem scan_congr {Q : Pattern α β} (spell : P.spell = Q.spell)
    (same : ∀ s, s <:+ text → P.find s = Q.find s) :
  P.scan 0 text = Q.scan 0 text
  := by
  induction text using P.pieceInduction with
  | nil => rw [scan, scan]
  | char c text none ih =>
    have none' := (same _ List.suffix_rfl).symm.trans none
    rw [scan_of_none none, scan_of_none none',
      ih fun s suffix => same s (suffix.trans (List.suffix_cons c text))]
  | found b text found ih =>
    have found' := (same _ List.suffix_rfl).symm.trans found
    rw [scan_of_some found, ih fun s suffix => same s (suffix.trans (List.suffix_append _ text))]
    rw [spell] at found' ⊢
    rw [scan_of_some found']

end Pattern

end Scanning
