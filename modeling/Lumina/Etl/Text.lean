import Mathlib.Data.List.DropRight
import Mathlib.Data.List.ModifyLast
import Mathlib.Data.Nat.Notation

/-!
# Pieces of text

How the chunker takes a text apart: at the boundaries of sentences, which `re.split` finds, and by
brute force at every so many characters.  Whatever the pieces are, they are the text again when they
are put together.
-/

namespace Lumina.Etl

abbrev Text := List Char

/-! ### White space -/

/-- `str.isspace`, which is also `\s` of a pattern. -/
def isSpace (c : Char) : Bool :=
  let n := c.toNat
  (0x09 ≤ n && n ≤ 0x0D) || (0x1C ≤ n && n ≤ 0x20) || n = 0x85 || n = 0xA0 || n = 0x1680 ||
    (0x2000 ≤ n && n ≤ 0x200A) || n = 0x2028 || n = 0x2029 || n = 0x202F || n = 0x205F || n = 0x3000

def rstrip (text : Text) : Text :=
  text.rdropWhile isSpace

def strip (text : Text) : Text :=
  rstrip (text.dropWhile isSpace)

/-- The characters that are not white space. -/
def solid (text : Text) : Text :=
  text.filter fun c => !isSpace c

/-! ### Sentences -/

/-- What `_SENTENCE_BOUNDARY` may match after a character and before a text, its alternatives in
order.  The repetitions are greedy. -/
def boundaryMatches (previous : Option Char) (text : Text) : List Text :=
  let spaces := text.takeWhile isSpace
  let newlines := text.takeWhile (· = '\n')
  (if previous.any (['。', '！', '？', '；', '!', '?', ';'].contains ·) then [spaces] else []) ++
    (if previous.any (['.', '!', '?'].contains ·) ∧ spaces ≠ [] then [spaces] else []) ++
    if newlines ≠ [] then [newlines] else []

/-- `split`, from a place in a text on: the text between the matches and the matches in turn.  After
an empty match, the next one at the same place is not empty. -/
def splitUpTo : (n : ℕ) → (previous : Option Char) → (mustAdvance : Bool) → (segment text : Text) →
    List Text
  | 0, _, _, segment, text => [segment ++ text]
  | n + 1, previous, mustAdvance, segment, text =>
      match (boundaryMatches previous text).find? fun m => !(mustAdvance && m.isEmpty) with
      | some m =>
          segment :: m ::
            splitUpTo n (m.getLast?.or previous) m.isEmpty [] (text.drop m.length)
      | none =>
          match text with
          | [] => [segment]
          | c :: text => splitUpTo n (some c) false (segment ++ [c]) text

/-- `_SENTENCE_BOUNDARY.split`: at each place there are at most two steps, a match and a character. -/
def splitBoundary (text : Text) : List Text :=
  splitUpTo (2 * text.length + 2) none false [] text

/-- The sentences so far, and the spaces at the beginning. -/
structure Sentences where
  parts : List Text := []
  pending : Text := []

/-- One more piece; spaces go to the sentence before them. -/
def Sentences.push (s : Sentences) (piece : Text) : Sentences :=
  if piece = [] then s
  else if strip piece ≠ [] then { parts := s.parts ++ [s.pending ++ piece], pending := [] }
  else if s.parts ≠ [] then
    { s with parts := s.parts.modifyLast (· ++ piece) }
  else { s with pending := s.pending ++ piece }

/-- `_sentences`. -/
def sentences (text : Text) : List Text :=
  let s := (splitBoundary text).foldl Sentences.push {}
  let parts :=
    if s.pending ≠ [] ∧ s.parts ≠ [] then s.parts.modifyLast (· ++ s.pending)
    else if s.pending ≠ [] then s.parts ++ [s.pending]
    else s.parts
  if parts = [] then [text] else parts

/-- The slices of a text at every so many characters; `n` bounds their number. -/
def slicesUpTo (step : ℕ) : (n : ℕ) → Text → List Text
  | 0, _ => []
  | n + 1, text =>
      if text = [] then [] else text.take step :: slicesUpTo step n (text.drop step)

/-! ### The pieces are the text -/

theorem solid_append (s t : Text) :
  solid (s ++ t) = solid s ++ solid t
  := List.filter_append s t

theorem solid_eq_nil {text : Text} (h : ∀ c ∈ text, isSpace c = true) :
  solid text = []
  := by
  apply List.filter_eq_nil_iff.mpr
  intro c hc
  rw [h c hc]
  decide

theorem solid_dropWhile (text : Text) :
  solid (text.dropWhile isSpace) = solid text
  := by
  have spaces : solid (text.takeWhile isSpace) = [] := by
    apply solid_eq_nil
    exact fun c hc => List.mem_takeWhile_imp hc
  calc
    solid (text.dropWhile isSpace) =
        solid (text.takeWhile isSpace ++ text.dropWhile isSpace) := by
      rw [solid_append, spaces, List.nil_append]
    _ = solid text := by rw [List.takeWhile_append_dropWhile]

theorem solid_rstrip (text : Text) :
  solid (rstrip text) = solid text
  := by
  have spaces : solid (text.rtakeWhile isSpace) = [] := by
    apply solid_eq_nil
    exact fun c hc => List.mem_rtakeWhile_imp hc
  calc
    solid (rstrip text) = solid (rstrip text ++ text.rtakeWhile isSpace) := by
      rw [solid_append, spaces, List.append_nil]
    _ = solid text := by
      unfold rstrip
      rw [List.rdropWhile_append_rtakeWhile]

theorem solid_strip (text : Text) :
  solid (strip text) = solid text
  := by
  unfold strip
  rw [solid_rstrip, solid_dropWhile]

theorem isSpace_of_solid_eq_nil {text : Text} (h : solid text = []) :
  ∀ c ∈ text, isSpace c = true
  := by
  intro c hc
  have visible : ¬ (!isSpace c) = true := List.filter_eq_nil_iff.mp h c hc
  rwa [Bool.not_eq_true', Bool.not_eq_false] at visible

/-- A text is blank if there is nothing left when it is stripped. -/
theorem strip_eq_nil_iff {text : Text} :
  strip text = [] ↔ solid text = []
  := by
  constructor
  · intro h
    rw [← solid_strip, h]
    rfl
  · intro h
    have spaces : text.dropWhile isSpace = [] :=
      List.dropWhile_eq_nil_iff.mpr (isSpace_of_solid_eq_nil h)
    rw [strip, spaces]
    rfl

theorem prefix_of_mem_boundaryMatches {previous : Option Char} {text m : Text}
    (h : m ∈ boundaryMatches previous text) :
  m <+: text
  := by
  have spaces : text.takeWhile isSpace <+: text := List.takeWhile_prefix _
  have newlines : text.takeWhile (· = '\n') <+: text := List.takeWhile_prefix _
  simp only [boundaryMatches, List.mem_append, List.mem_ite_nil_right, List.mem_singleton] at h
  rcases h with (⟨-, rfl⟩ | ⟨-, rfl⟩) | ⟨-, rfl⟩
  · exact spaces
  · exact spaces
  · exact newlines

/-- The text between the matches and the matches are the text. -/
theorem flatten_splitUpTo (n : ℕ) (previous : Option Char) (mustAdvance : Bool)
    (segment text : Text) :
  (splitUpTo n previous mustAdvance segment text).flatten = segment ++ text
  := by
  induction n generalizing previous mustAdvance segment text with
  | zero => exact List.append_nil _
  | succ n ih =>
    rw [splitUpTo.eq_def]
    dsimp only
    split
    · rename_i m found
      obtain ⟨rest, rfl⟩ := prefix_of_mem_boundaryMatches (List.mem_of_find?_eq_some found)
      rw [List.flatten_cons, List.flatten_cons, ih, List.nil_append, List.drop_left]
    · cases text with
      | nil =>
        dsimp only
        rw [List.flatten_singleton, List.append_nil]
      | cons c text =>
        dsimp only
        rw [ih, List.append_assoc, List.singleton_append]

/-- The number of steps that `splitBoundary` allows is enough: with more of them the pieces are
the same. -/
theorem splitUpTo_eq_of_le {n n' : ℕ} (previous : Option Char) (mustAdvance : Bool)
    (segment text : Text) (enough : 2 * text.length + (if mustAdvance then 1 else 2) ≤ n)
    (more : n ≤ n') :
  splitUpTo n' previous mustAdvance segment text = splitUpTo n previous mustAdvance segment text
  := by
  induction n generalizing n' previous mustAdvance segment text with
  | zero => split_ifs at enough <;> omega
  | succ n ih =>
    obtain ⟨n', rfl⟩ : ∃ k, n' = k + 1 := ⟨n' - 1, by omega⟩
    rw [splitUpTo.eq_def (n' + 1), splitUpTo.eq_def (n + 1)]
    dsimp only
    split
    · rename_i m found
      obtain ⟨rest, rfl⟩ := prefix_of_mem_boundaryMatches (List.mem_of_find?_eq_some found)
      have advances := List.find?_some found
      have fewer : 2 * ((m ++ rest).drop m.length).length + (if m.isEmpty then 1 else 2) ≤ n := by
        rw [List.drop_left]
        rw [List.length_append] at enough
        cases m with
        | nil => cases mustAdvance <;> simp_all
        | cons c m =>
          rw [List.length_cons] at enough
          split_ifs at enough ⊢ <;> simp at * <;> omega
      rw [ih _ _ _ _ fewer (by omega)]
    · cases text with
      | nil => rfl
      | cons c text =>
        dsimp only
        rw [List.length_cons] at enough
        apply ih
        · split_ifs at enough ⊢ <;> omega
        · omega

theorem flatten_splitBoundary (text : Text) :
  (splitBoundary text).flatten = text
  := flatten_splitUpTo _ none false [] text

theorem flatten_modifyLast_append {parts : List Text} (h : parts ≠ []) (piece : Text) :
  (parts.modifyLast (· ++ piece)).flatten = parts.flatten ++ piece
  := by
  obtain ⟨init, last, rfl⟩ := List.eq_nil_or_concat' parts |>.resolve_left h
  rw [List.modifyLast_concat, List.flatten_concat, List.flatten_concat, List.append_assoc]

/-- The text of the sentences so far; no spaces wait once there is a sentence. -/
structure Sentences.Hold (s : Sentences) (text : Text) : Prop where
  text : s.pending ++ s.parts.flatten = text
  pending : s.parts ≠ [] → s.pending = []

theorem Sentences.Hold.push {s : Sentences} {text : Text} (h : s.Hold text) (piece : Text) :
  (s.push piece).Hold (text ++ piece)
  := by
  obtain ⟨rfl, waits⟩ := h
  unfold Sentences.push
  split_ifs with empty visible parts
  · subst empty
    rw [List.append_nil]
    exact ⟨rfl, waits⟩
  · constructor
    · dsimp only
      rw [List.flatten_concat, List.nil_append]
      by_cases none : s.parts = []
      · rw [none, List.flatten_nil, List.nil_append, List.append_nil]
      · rw [waits none, List.nil_append, List.nil_append]
    · exact fun _ => rfl
  · constructor
    · dsimp only
      rw [flatten_modifyLast_append parts, List.append_assoc]
    · exact fun _ => waits parts
  · rw [not_not] at parts
    constructor
    · dsimp only
      rw [parts, List.flatten_nil, List.append_nil, List.append_nil]
    · exact fun some => absurd parts some

theorem Sentences.Hold.foldl_push {s : Sentences} {text : Text} (h : s.Hold text)
    (pieces : List Text) :
  (pieces.foldl Sentences.push s).Hold (text ++ pieces.flatten)
  := by
  induction pieces generalizing s text with
  | nil => rwa [List.flatten_nil, List.append_nil]
  | cons piece pieces ih =>
    rw [List.flatten_cons, ← List.append_assoc]
    exact ih (h.push piece)

/-- The sentences are the text. -/
theorem flatten_sentences (text : Text) :
  (sentences text).flatten = text
  := by
  have start : Sentences.Hold {} [] := ⟨rfl, fun h => absurd rfl h⟩
  have stop := start.foldl_push (splitBoundary text)
  rw [List.nil_append, flatten_splitBoundary] at stop
  obtain ⟨whole, waits⟩ := stop
  unfold sentences
  generalize (splitBoundary text).foldl Sentences.push {} = s at *
  dsimp only
  by_cases parts : s.parts = []
  · rw [parts, List.flatten_nil, List.append_nil] at whole
    by_cases pending : s.pending = []
    · rw [pending] at whole
      simp [parts, pending, ← whole]
    · rw [whole] at pending
      simp [parts, whole, pending]
  · rw [waits parts, List.nil_append] at whole
    simp [parts, waits parts, whole]

theorem solid_ne_nil_iff {text : Text} :
  solid text ≠ [] ↔ ∃ c ∈ text, isSpace c = false
  := by
  simp [solid]

/-- The sentences so far are visible, and what waits is not. -/
structure Sentences.Visible (s : Sentences) : Prop where
  parts : ∀ part ∈ s.parts, solid part ≠ []
  pending : solid s.pending = []

theorem Sentences.Visible.push {s : Sentences} (h : s.Visible) (piece : Text) :
  (s.push piece).Visible
  := by
  unfold Sentences.push
  split_ifs with empty visible some
  · exact h
  · rw [Ne, strip_eq_nil_iff] at visible
    refine ⟨fun part hp => ?_, rfl⟩
    rcases List.mem_append.mp hp with hp | hp
    · exact h.parts part hp
    · rw [List.mem_singleton.mp hp, solid_append, h.pending]
      exact visible
  · refine ⟨fun part hp => ?_, h.pending⟩
    obtain ⟨init, last, split⟩ := List.eq_nil_or_concat' s.parts |>.resolve_left some
    dsimp only at hp
    rw [split, List.modifyLast_concat] at hp
    rcases List.mem_append.mp hp with hp | hp
    · exact h.parts part (split ▸ List.mem_append_left _ hp)
    · have seen := h.parts last (split ▸ List.mem_append_right _ (List.mem_singleton_self last))
      rw [List.mem_singleton.mp hp, solid_append]
      exact List.append_ne_nil_of_left_ne_nil seen _
  · rw [not_not, strip_eq_nil_iff] at visible
    refine ⟨h.parts, ?_⟩
    dsimp only
    rw [solid_append, h.pending, visible, List.nil_append]

theorem Sentences.Visible.foldl_push {s : Sentences} (h : s.Visible) (pieces : List Text) :
  (pieces.foldl Sentences.push s).Visible
  := by
  induction pieces generalizing s with
  | nil => exact h
  | cons piece pieces ih => exact ih (h.push piece)

theorem sentences_ne_nil (text : Text) :
  sentences text ≠ []
  := by
  unfold sentences
  dsimp only
  split_ifs <;> simp_all

/-- Every sentence of a text that is not blank can be seen. -/
theorem solid_ne_nil_of_mem_sentences {text : Text} (visible : solid text ≠ []) :
  ∀ sentence ∈ sentences text, solid sentence ≠ []
  := by
  have start : Sentences.Visible {} := ⟨fun _ h => (nomatch h), rfl⟩
  have seen := start.foldl_push (splitBoundary text)
  have held := (⟨rfl, fun h => absurd rfl h⟩ : Sentences.Hold {} []).foldl_push (splitBoundary text)
  rw [List.nil_append, flatten_splitBoundary] at held
  unfold sentences
  generalize (splitBoundary text).foldl Sentences.push {} = s at *
  have some : s.parts ≠ [] := by
    intro none
    have whole := held.text
    rw [none, List.flatten_nil, List.append_nil] at whole
    exact visible (whole ▸ seen.pending)
  have waits := held.pending some
  simpa [waits, some] using seen.parts

/-- The sentences of a text are the text, there is at least one, and they can all be seen if
anything in the text can. -/
theorem sentences_lossless (text : Text) :
  (sentences text).flatten = text ∧ sentences text ≠ [] ∧
    ((∃ c ∈ text, isSpace c = false) →
      ∀ sentence ∈ sentences text, ∃ c ∈ sentence, isSpace c = false)
  := by
  refine ⟨flatten_sentences text, sentences_ne_nil text, fun visible sentence mem => ?_⟩
  exact solid_ne_nil_iff.mp
    (solid_ne_nil_of_mem_sentences (solid_ne_nil_iff.mpr visible) sentence mem)

theorem sentences_lossless_sample :
  sentences " \n好。 Hi.\nYes".toList = [" \n好。 ".toList, "Hi.\n".toList, "Yes".toList] ∧
    ∀ sentence ∈ sentences " \n好。 Hi.\nYes".toList, ∃ c ∈ sentence, isSpace c = false
  := ⟨by decide +kernel, (sentences_lossless _).2.2 ⟨'好', by decide +kernel, rfl⟩⟩

theorem flatten_slicesUpTo {step : ℕ} (pos : 0 < step) (n : ℕ) (text : Text)
    (enough : text.length ≤ n) :
  (slicesUpTo step n text).flatten = text
  := by
  induction n generalizing text with
  | zero => exact (List.eq_nil_of_length_eq_zero (Nat.le_zero.mp enough)).symm
  | succ n ih =>
    unfold slicesUpTo
    split_ifs with empty
    · exact empty.symm
    · have shorter : (text.drop step).length ≤ n := by
        rw [List.length_drop]
        omega
      rw [List.flatten_cons, ih _ shorter, List.take_append_drop]

end Lumina.Etl
