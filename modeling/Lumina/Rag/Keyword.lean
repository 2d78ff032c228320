import Lumina.Rag.Pipeline
import Mathlib

/-!
# The terms of the full-text search

The keyword route searches for the identifiers of a question, and has nothing to say about one that
has none.  In a question of letters, punctuation and spaces, the identifiers are the words with a
capital letter after the first one.
-/

namespace Lumina.Rag

open Etl (Text)

/-- The terms of a question. -/
def questionTerms (text : Text) : List Text :=
  let text := text.take maxFtsQueryChars
  ftsTerms [] (tokensUpTo text.length text)

theorem buildFtsQuery_eq (text : Text) :
  buildFtsQuery text =
    [' ', 'O', 'R', ' '].intercalate ((questionTerms text).map fun term => ['"'] ++ term ++ ['"'])
  := rfl

theorem buildFtsQuery_eq_nil_iff {text : Text} :
  buildFtsQuery text = [] ↔ questionTerms text = []
  := by
  rw [buildFtsQuery_eq]
  cases questionTerms text with
  | nil => simp
  | cons term terms => cases terms <;> simp [List.intercalate]

/-! ### The tokens -/

theorem isTermChar_of_isAlpha {c : Char} (h : c.isAlpha) : isTermChar c := by
  simp [isTermChar, Char.isAlphanum, h]

theorem isTermChar_of_isDigit {c : Char} (h : c.isDigit) : isTermChar c := by
  simp [isTermChar, Char.isAlphanum, h]

/-- A token is a piece of the text, and begins with a letter unless it is a number. -/
structure IsToken (text token : Text) : Prop where
  inside : token <:+: text
  chars : ∀ c ∈ token, isTermChar c
  start : ∃ c rest, token = c :: rest ∧ rest ≠ [] ∧ (c.isAlpha ∨ c.isDigit)

theorem IsToken.of_suffix {text text' token : Text} (h : IsToken text' token)
    (later : text' <:+ text) :
  IsToken text token
  := ⟨h.inside.trans later.isInfix, h.chars, h.start⟩

theorem isToken_of_mem {n : ℕ} {text token : Text} (h : token ∈ tokensUpTo n text) :
  IsToken text token
  := by
  induction n generalizing text with
  | zero => simp [tokensUpTo] at h
  | succ n ih =>
    cases text with
    | nil => simp [tokensUpTo] at h
    | cons c text =>
      rw [tokensUpTo] at h
      split_ifs at h with word number
      · obtain ⟨letter, some⟩ := Bool.and_eq_true_iff.mp word
        rcases List.mem_cons.mp h with rfl | h
        · constructor
          · exact ((List.prefix_cons_inj c).mpr (List.takeWhile_prefix _)).isInfix
          · rintro d (_ | ⟨_, hd⟩)
            · exact isTermChar_of_isAlpha letter
            · exact List.mem_takeWhile_imp hd
          · exact ⟨c, _, rfl, by simpa using some, .inl letter⟩
        · exact (ih h).of_suffix ((List.drop_suffix _ _).trans (List.suffix_cons c text))
      · obtain ⟨digit, some⟩ := Bool.and_eq_true_iff.mp number
        rcases List.mem_cons.mp h with rfl | h
        · constructor
          · exact ((List.prefix_cons_inj c).mpr (List.takeWhile_prefix _)).isInfix
          · rintro d (_ | ⟨_, hd⟩)
            · exact isTermChar_of_isDigit digit
            · exact isTermChar_of_isDigit (List.mem_takeWhile_imp hd)
          · exact ⟨c, _, rfl, by simpa using some, .inr digit⟩
        · exact (ih h).of_suffix ((List.drop_suffix _ _).trans (List.suffix_cons c text))
      · exact (ih h).of_suffix (List.suffix_cons c text)

/-! ### The loop -/

/-- Terms are compared letter by letter. -/
local instance lawful_term : LawfulBEq Text := inferInstance

/-- The terms after one token more. -/
def pushTerm (terms : List Text) (token : Text) : List Text :=
  if isDistinctive token && token ∉ terms then terms ++ [token] else terms

theorem ftsTerms_cons (terms : List Text) (token : Text) (tokens : List Text) :
  ftsTerms terms (token :: tokens) =
    if maxFtsTerms ≤ (pushTerm terms token).length then pushTerm terms token
    else ftsTerms (pushTerm terms token) tokens
  := rfl

/-- What the loop keeps of its terms. -/
structure Terms (tokens terms : List Text) : Prop where
  nodup : terms.Nodup
  length : terms.length ≤ maxFtsTerms
  tokens : ∀ term ∈ terms, term ∈ tokens

theorem Terms.pushTerm {all terms : List Text} {token : Text} (h : Terms all terms)
    (room : terms.length < maxFtsTerms) (hmem : token ∈ all) :
  Terms all (pushTerm terms token)
  := by
  unfold Rag.pushTerm
  split_ifs with new
  · have absent : token ∉ terms := of_decide_eq_true (Bool.and_eq_true_iff.mp new).2
    constructor
    · rw [← List.concat_eq_append]
      exact h.nodup.concat absent
    · rw [List.length_append, List.length_singleton]
      exact room
    · intro term hterm
      rcases List.mem_append.mp hterm with hterm | hterm
      · exact h.tokens term hterm
      · rwa [List.mem_singleton.mp hterm]
  · exact h

theorem Terms.ftsTerms {all terms tokens : List Text} (h : Terms all terms)
    (room : terms.length < maxFtsTerms) (sub : tokens ⊆ all) :
  Terms all (ftsTerms terms tokens)
  := by
  induction tokens generalizing terms with
  | nil => exact h
  | cons token tokens ih =>
    have next := h.pushTerm room (sub List.mem_cons_self)
    rw [ftsTerms_cons]
    split_ifs with full
    · exact next
    · exact ih next (not_le.mp full) (List.subset_of_cons_subset sub)

theorem terms_questionTerms (text : Text) :
  Terms (tokensUpTo (text.take maxFtsQueryChars).length (text.take maxFtsQueryChars))
    (questionTerms text)
  := by
  have start (tokens : List Text) : Terms tokens [] := ⟨List.nodup_nil, Nat.zero_le _, nofun⟩
  exact (start _).ftsTerms (by decide) (List.Subset.refl _)

theorem mem_pushTerm_of_mem {terms : List Text} {term : Text} (h : term ∈ terms) (token : Text) :
  term ∈ pushTerm terms token
  := by
  unfold pushTerm
  split_ifs
  · exact List.mem_append_left _ h
  · exact h

/-- The terms that the loop has are not lost. -/
theorem mem_ftsTerms_of_mem {terms : List Text} {term : Text} (h : term ∈ terms)
    (tokens : List Text) :
  term ∈ ftsTerms terms tokens
  := by
  induction tokens generalizing terms with
  | nil => exact h
  | cons token tokens ih =>
    have kept := mem_pushTerm_of_mem h token
    rw [ftsTerms_cons]
    split_ifs
    · exact kept
    · exact ih kept

/-- There is no term only if no token is distinctive. -/
theorem ftsTerms_eq_nil_iff {tokens : List Text} :
  ftsTerms [] tokens = [] ↔ ∀ token ∈ tokens, isDistinctive token = false
  := by
  induction tokens with
  | nil => exact iff_of_true rfl nofun
  | cons token tokens ih =>
    rw [ftsTerms_cons, List.forall_mem_cons, ← ih]
    cases distinctive : isDistinctive token with
    | false => simp [pushTerm, distinctive, maxFtsTerms]
    | true =>
      have first : token ∈ ftsTerms [token] tokens := mem_ftsTerms_of_mem List.mem_cons_self tokens
      simp [pushTerm, distinctive, maxFtsTerms, List.ne_nil_of_mem first]

/-! ### Plain questions -/

/-- Letters, punctuation and spaces, where no mark of an identifier is glued to a word. -/
structure PlainProse (text : Text) : Prop where
  letters : ∀ c ∈ text, c.isDigit = false ∧ c ≠ '_'
  words : text.IsChain fun a b => a.isAlpha → b ≠ '.' ∧ b ≠ '-'

/-- No word has a capital letter after its first one. -/
def PlainWords (text : Text) : Prop :=
  text.IsChain fun a b => a.isAlpha → b.isUpper = false

instance (text : Text) : Decidable (PlainWords text) :=
  inferInstanceAs (Decidable (List.IsChain _ text))

theorem PlainProse.of_infix {text piece : Text} (h : PlainProse text) (inside : piece <:+: text) :
  PlainProse piece
  := ⟨fun c hc => h.letters c (inside.subset hc), List.IsChain.infix h.words inside⟩

theorem isLower_of_isTermChar {c : Char} (term : isTermChar c)
    (letter : c.isDigit = false ∧ c ≠ '_') (mark : c ≠ '.' ∧ c ≠ '-') (small : c.isUpper = false) :
  c.isLower
  := by
  simpa [isTermChar, Char.isAlphanum, Char.isAlpha, letter, mark, small] using term

/-- In plain words there are only small letters after a letter. -/
theorem isLower_of_plain {c : Char} {rest : Text} (start : c.isAlpha)
    (plain : PlainProse (c :: rest)) (words : PlainWords (c :: rest)) (chars : ∀ d ∈ rest, isTermChar d) :
  ∀ d ∈ rest, d.isLower
  := by
  induction rest generalizing c with
  | nil => exact nofun
  | cons d rest ih =>
    have lower : d.isLower :=
      isLower_of_isTermChar (chars d List.mem_cons_self)
        (plain.letters d (List.mem_cons_of_mem c List.mem_cons_self))
        ((List.isChain_cons_cons.mp plain.words).1 start)
        ((List.isChain_cons_cons.mp words).1 start)
    have others := ih (by simp [Char.isAlpha, lower])
      (plain.of_infix (List.suffix_cons c _).isInfix) (List.isChain_cons_cons.mp words).2
      (fun e he => chars e (List.mem_cons_of_mem d he))
    rintro e (_ | ⟨_, he⟩)
    · exact lower
    · exact others e he

theorem isUpper_eq_false_of_isLower {c : Char} (h : c.isLower) : c.isUpper = false := by
  simp only [Char.isLower, Char.isUpper, Bool.and_eq_true, decide_eq_true_eq,
    decide_eq_false_iff_not, ge_iff_le, UInt32.le_iff_toNat_le] at h ⊢
  have : 'Z'.val.toNat = 90 := rfl
  have : 'a'.val.toNat = 97 := rfl
  omega

theorem isDigit_eq_false_of_isAlpha {c : Char} (h : c.isAlpha) : c.isDigit = false := by
  simp only [Char.isAlpha, Char.isLower, Char.isUpper, Char.isDigit, Bool.or_eq_true,
    Bool.and_eq_true, decide_eq_true_eq, Bool.and_eq_false_iff, decide_eq_false_iff_not, ge_iff_le,
    UInt32.le_iff_toNat_le] at h ⊢
  have : '9'.val.toNat = 57 := rfl
  have : 'A'.val.toNat = 65 := rfl
  have : 'a'.val.toNat = 97 := rfl
  omega

/-- A letter is no mark of an identifier. -/
theorem ne_mark_of_isAlpha {c : Char} (h : c.isAlpha) : c ≠ '_' ∧ c ≠ '.' ∧ c ≠ '-' := by
  refine ⟨?_, ?_, ?_⟩
  all_goals
    rintro rfl
    exact absurd h (by decide)

/-- A letter and small letters are no identifier. -/
theorem isDistinctive_eq_false {c : Char} {rest : Text} (start : c.isAlpha) (some : rest ≠ [])
    (lower : ∀ d ∈ rest, d.isLower) :
  isDistinctive (c :: rest) = false
  := by
  have letter : ∀ d ∈ c :: rest, d.isAlpha := by
    rintro d (_ | ⟨_, hd⟩)
    · exact start
    · simp [Char.isAlpha, lower d hd]
  have digits : (c :: rest).any Char.isDigit = false :=
    List.any_eq_false.mpr fun d hd => by simp [isDigit_eq_false_of_isAlpha (letter d hd)]
  have marks : (c :: rest).any (fun c => c = '_' || c = '.' || c = '-') = false :=
    List.any_eq_false.mpr fun d hd => by simp [ne_mark_of_isAlpha (letter d hd)]
  have capitals : rest.any Char.isUpper = false :=
    List.any_eq_false.mpr fun d hd => by simp [isUpper_eq_false_of_isLower (lower d hd)]
  obtain ⟨d, hd⟩ := List.exists_mem_of_ne_nil rest some
  have small : (c :: rest).all (fun c => !c.isLower) = false :=
    List.all_eq_false.mpr ⟨d, List.mem_cons_of_mem c hd, by simp [lower d hd]⟩
  rw [isDistinctive, digits, marks, small, List.tail_cons, capitals]
  rfl

/-- The tokens of a plain question are no identifiers if its words are plain. -/
theorem isDistinctive_eq_false_of_isToken {text token : Text} (plain : PlainProse text)
    (words : PlainWords text) (h : IsToken text token) :
  isDistinctive token = false
  := by
  obtain ⟨c, rest, rfl, some, letter | digit⟩ := h.start
  · apply isDistinctive_eq_false letter some
    apply isLower_of_plain letter (plain.of_infix h.inside) ( List.IsChain.infix words h.inside)
    exact fun d hd => h.chars d (List.mem_cons_of_mem c hd)
  · have absent := (plain.letters c (h.inside.subset List.mem_cons_self)).1
    rw [absent] at digit
    cases digit

/-- A text without capital letters, apart from the first character. -/
theorem plainWords_of_tail {text : Text} (h : ∀ c ∈ text.tail, c.isUpper = false) :
  PlainWords text
  := by
  induction text with
  | nil => exact List.isChain_nil
  | cons c text ih =>
    apply List.isChain_cons.mpr
    constructor
    · exact fun d hd _ => h d (List.mem_of_mem_head? hd)
    · exact ih fun d hd => h d (List.mem_of_mem_tail hd)

theorem isTermChar_of_isUpper {c : Char} (h : c.isUpper) : isTermChar c := by
  simp [isTermChar, Char.isAlphanum, Char.isAlpha, h]

theorem drop_length_takeWhile {α : Type*} (p : α → Bool) (l : List α) :
  l.drop (l.takeWhile p).length = l.dropWhile p
  := by
  induction l with
  | nil => rfl
  | cons a l ih =>
    cases h : p a with
    | true =>
      rw [List.takeWhile_cons_of_pos h, List.dropWhile_cons_of_pos h, ← ih]
      rfl
    | false =>
      rw [List.takeWhile_cons_of_neg (by simp [h]), List.dropWhile_cons_of_neg (by simp [h])]
      rfl

/-- The character after a token is no capital letter. -/
theorem isUpper_of_mem_head? {text : Text} {c : Char} (h : c ∈ (text.dropWhile isTermChar).head?) :
  c.isUpper = false
  := by
  have stop : isTermChar c = false := by
    have := List.head?_dropWhile_not isTermChar text
    rwa [h] at this
  apply Bool.eq_false_iff.mpr
  intro upper
  rw [isTermChar_of_isUpper upper] at stop
  cases stop

theorem isUpper_of_mem_tail {token : Text} (h : isDistinctive token = false) {c : Char}
    (hc : c ∈ token.tail) :
  c.isUpper = false
  := by
  have tail := (Bool.or_eq_false_iff.mp h).2
  exact Bool.eq_false_iff.mpr (List.any_eq_false.mp tail c hc)

/-- A token that begins with a digit is an identifier. -/
theorem isDistinctive_of_isDigit {c : Char} (h : c.isDigit) (rest : Text) :
  isDistinctive (c :: rest) = true
  := by
  simp [isDistinctive, h]

/-- A question has an identifier where a word has a capital letter after its first one. -/
theorem plainWords_of_tokens {n : ℕ} {text : Text} (enough : text.length ≤ n)
    (h : ∀ token ∈ tokensUpTo n text, isDistinctive token = false) :
  PlainWords text
  := by
  induction n generalizing text with
  | zero =>
    rw [List.eq_nil_of_length_eq_zero (Nat.le_zero.mp enough)]
    exact List.isChain_nil
  | succ n ih =>
    cases text with
    | nil => exact List.isChain_nil
    | cons c text =>
      rw [List.length_cons] at enough
      rw [tokensUpTo] at h
      split_ifs at h with word number
      · obtain ⟨token, others⟩ := List.forall_mem_cons.mp h
        rw [drop_length_takeWhile] at others
        have whole : c :: text =
            (c :: text.takeWhile isTermChar) ++ text.dropWhile isTermChar := by
          rw [List.cons_append, List.takeWhile_append_dropWhile]
        rw [whole]
        apply List.IsChain.append
        · exact plainWords_of_tail fun d hd => isUpper_of_mem_tail token hd
        · exact ih ((List.dropWhile_suffix isTermChar).length_le.trans (by omega)) others
        · exact fun _ _ d hd _ => isUpper_of_mem_head? hd
      · have token := h _ List.mem_cons_self
        rw [isDistinctive_of_isDigit (Bool.and_eq_true_iff.mp number).1] at token
        cases token
      · apply List.isChain_cons.mpr
        constructor
        · intro d hd letter
          have alone : text.takeWhile isTermChar = [] := by
            simpa [letter] using word
          apply isUpper_of_mem_head?
          rwa [← drop_length_takeWhile, alone]
        · exact ih (by omega) h

/-- A question of letters, punctuation and spaces, without marks glued to a word, has a query only
if one of its words has a capital letter after its first one.  Whatever the question is, its terms
are different tokens, not more than allowed, in double quotes that none of them can close. -/
theorem buildFtsQuery_plain (text : Text) :
  (PlainProse text →
    (buildFtsQuery text = [] ↔ PlainWords (text.take maxFtsQueryChars))) ∧
  buildFtsQuery text =
    [' ', 'O', 'R', ' '].intercalate ((questionTerms text).map fun term => ['"'] ++ term ++ ['"']) ∧
  (questionTerms text).Nodup ∧
  (questionTerms text).length ≤ maxFtsTerms ∧
  ∀ term ∈ questionTerms text, IsToken text term ∧ '"' ∉ term ∧ '\\' ∉ term
  := by
  have terms := terms_questionTerms text
  have first : text.take maxFtsQueryChars <:+: text := (List.take_prefix _ text).isInfix
  refine ⟨?_, buildFtsQuery_eq text, terms.nodup, terms.length, ?_⟩
  · intro plain
    rw [buildFtsQuery_eq_nil_iff, questionTerms, ftsTerms_eq_nil_iff]
    constructor
    · exact plainWords_of_tokens le_rfl
    · intro words token h
      exact isDistinctive_eq_false_of_isToken (plain.of_infix first) words (isToken_of_mem h)
  · intro term h
    have token := isToken_of_mem (terms.tokens term h)
    refine ⟨⟨token.inside.trans first, token.chars, token.start⟩, ?_, ?_⟩
    · exact fun quote => absurd (token.chars _ quote) (by decide)
    · exact fun escape => absurd (token.chars _ escape) (by decide)

theorem buildFtsQuery_plain_why :
  buildFtsQuery "Why is it slow?".toList = []
  := by
  have letters : "Why is it slow?".toList.all fun c => !c.isDigit && c ≠ '_' := by decide
  refine ((buildFtsQuery_plain _).1 ⟨fun c hc => ?_, by decide⟩).mpr (by decide)
  simpa using List.all_eq_true.mp letters c hc

/-- A question of words and spaces that speaks, for one of its words has only capital letters. -/
theorem not_abstains :
  ¬ ∀ text : Text, (∀ c ∈ text, c.isAlpha ∨ c = ' ' ∨ c = '?') → buildFtsQuery text = []
  := by
  intro h
  have words : "What is an API?".toList.all fun c => c.isAlpha || c = ' ' || c = '?' := by decide
  refine absurd (h "What is an API?".toList fun c hc => ?_) (by decide)
  simpa [or_assoc] using List.all_eq_true.mp words c hc

end Lumina.Rag
