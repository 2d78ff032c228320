import Lumina.Etl.MarkdownLoader

/-!
# The paragraphs of a plain text

Blank lines separate the paragraphs of a text.  The blocks are exactly the paragraphs: between them
there is nothing but white space with a blank line in it, and within them there is no blank line.
-/

namespace Lumina.Etl.PlainText

open Knowledge (Block DomainError)
open Lines (consLine)
open MarkdownLoader (Assembly LoadResult)

/-! ### The loader -/

/-- `[ \t\r\f\v]` -/
def isInline (c : Char) : Bool :=
  c = ' ' || c = '\t' || c = '\r' || c.toNat = 0x0C || c.toNat = 0x0B

/-- The rest of a text that begins with a match of `_BLANK_LINE`. -/
def afterBlankLine : Text → Option Text
  | '\n' :: rest =>
      match rest.dropWhile isInline with
      | '\n' :: after => some after
      | _ => none
  | _ => none

/-- `_BLANK_LINE.split`, in so many steps. -/
def splitUpTo : ℕ → Text → List Text
  | 0, text => [text]
  | _ + 1, [] => [[]]
  | n + 1, c :: text =>
      match afterBlankLine (c :: text) with
      | some after => [] :: splitUpTo n after
      | none => consLine c (splitUpTo n text)

/-- `_BLANK_LINE.split` -/
def split (text : Text) : List Text := splitUpTo (text.length + 1) text

/-- The body of the loop. -/
def place (a : Assembly) (paragraph : Text) : Assembly :=
  let stripped := strip paragraph
  if stripped = [] then a else a.add .paragraph stripped []

def blocksOf (text : Text) : List Block := ((split text).foldl place {}).blocks

def load (content : List UInt8) : Except DomainError LoadResult :=
  match Knowledge.decodeText content with
  | none => .error (MarkdownLoader.extractionFailed "純文字解碼失敗（非 UTF-8）" "UnicodeDecodeError")
  | some text =>
      let text := text.map Char.ofNat
      .ok (blocksOf text, [("char_count", .int text.length)])

/-! ### Paragraphs -/

def Blank (text : Text) : Prop := ∀ c ∈ text, isSpace c = true

/-- A match of `_BLANK_LINE`. -/
def IsBlankLine (text : Text) : Prop :=
  ∃ inline : Text, (∀ c ∈ inline, isInline c = true) ∧ text = '\n' :: (inline ++ ['\n'])

/-- There is a blank line in the text. -/
def Apart (text : Text) : Prop := ∃ line, IsBlankLine line ∧ line <:+: text

/-- A text without white space at its ends, and without a blank line. -/
structure Paragraph (text : Text) : Prop where
  nonempty : text ≠ []
  stripped : strip text = text
  whole : ¬ Apart text

/-- The paragraphs of a text. -/
inductive Paragraphs : Text → List Text → Prop where
  | none {text : Text} (h : Blank text) : Paragraphs text []
  | last {before p after : Text} (first : Blank before) (paragraph : Paragraph p)
      (rest : Blank after) : Paragraphs (before ++ p ++ after) [p]
  | more {before p gap text q : Text} {ps : List Text} (first : Blank before)
      (paragraph : Paragraph p) (blank : Blank gap) (apart : Apart gap)
      (rest : Paragraphs text (q :: ps)) : Paragraphs (before ++ p ++ gap ++ text) (p :: q :: ps)

theorem Blank.append {a b : Text} (ha : Blank a) (hb : Blank b) :
  Blank (a ++ b)
  := by
  intro c mem
  rcases List.mem_append.mp mem with mem | mem
  · exact ha c mem
  · exact hb c mem

theorem Apart.append_left {text : Text} (h : Apart text) (before : Text) :
  Apart (before ++ text)
  := by
  obtain ⟨line, is, inside⟩ := h
  exact ⟨line, is, inside.trans (List.suffix_append _ _).isInfix⟩

theorem Apart.widen {a b : Text} (h : Apart a) (inside : a <:+: b) :
  Apart b
  := by
  obtain ⟨line, is, within⟩ := h
  exact ⟨line, is, within.trans inside⟩

/-- White space at the beginning changes nothing. -/
theorem Paragraphs.prepend {text : Text} {ps : List Text} (h : Paragraphs text ps) {space : Text}
    (blank : Blank space) :
  Paragraphs (space ++ text) ps
  := by
  cases h with
  | none rest => exact .none (blank.append rest)
  | last first paragraph rest =>
    rw [List.append_assoc, ← List.append_assoc, ← List.append_assoc]
    exact .last (blank.append first) paragraph rest
  | more first paragraph gap apart rest =>
    rw [List.append_assoc, List.append_assoc, ← List.append_assoc, ← List.append_assoc,
      ← List.append_assoc]
    exact .more (blank.append first) paragraph gap apart rest

/-! ### There are no other paragraphs -/

theorem Paragraph.head_visible {p : Text} (h : Paragraph p) {c : Char} (head : p.head? = some c) :
  isSpace c = false
  := by
  have begins : (strip p).head? = some c := by
    rw [h.stripped]
    exact head
  exact isSpace_head?_strip begins

theorem Paragraph.last_visible {p : Text} (h : Paragraph p) {c : Char}
    (last : p.getLast? = some c) :
  isSpace c = false
  := by
  have ends : c ∈ (strip p).getLast? := by
    rw [h.stripped]
    exact last
  exact isSpace_getLast?_rstrip ends

/-- The first paragraph begins with the first visible character. -/
theorem takeWhile_before {before p : Text} (first : Blank before) (paragraph : Paragraph p)
    (tail : Text) :
  (before ++ p ++ tail).takeWhile isSpace = before
  := by
  obtain ⟨c, rest, rfl⟩ := List.exists_cons_of_ne_nil paragraph.nonempty
  have visible := paragraph.head_visible rfl
  rw [List.append_assoc, List.takeWhile_append_of_pos first, List.cons_append,
    List.takeWhile_cons_of_neg (by rw [visible]; exact Bool.false_ne_true), List.append_nil]

/-- What follows a paragraph has a blank line before anything visible. -/
def Ends (tail : Text) : Prop :=
  ∀ front, front <+: tail → ∀ c, front.getLast? = some c → isSpace c = false → Apart front

theorem ends_blank {tail : Text} (blank : Blank tail) : Ends tail := by
  intro front begins c last visible
  have space := blank c (begins.subset (List.mem_of_getLast? last))
  rw [visible] at space
  cases space

theorem ends_gap {gap text : Text} (blank : Blank gap) (apart : Apart gap) :
  Ends (gap ++ text)
  := by
  intro front begins c last visible
  rcases List.prefix_or_prefix_of_prefix begins (List.prefix_append gap text) with inside | beyond
  · exact ends_blank blank front inside c last visible
  · exact apart.widen beyond.isInfix

theorem Paragraphs.uncons {text p : Text} {ps : List Text} (h : Paragraphs text (p :: ps)) :
  ∃ before tail, Blank before ∧ Paragraph p ∧ Ends tail ∧ text = before ++ p ++ tail ∧
    Paragraphs tail ps
  := by
  cases h with
  | last first paragraph rest =>
    exact ⟨_, _, first, paragraph, ends_blank rest, rfl, .none rest⟩
  | more first paragraph blank apart rest =>
    exact ⟨_, _, first, paragraph, ends_gap blank apart, List.append_assoc _ _ _,
      rest.prepend blank⟩

/-- A paragraph is not longer than another one at the same place. -/
theorem eq_nil_of_ends {p q tail tail' x : Text} (paragraph : Paragraph q) (ends : Ends tail)
    (longer : q = p ++ x) (same : tail = x ++ tail') :
  x = []
  := by
  by_contra nonempty
  have last : x.getLast? = some (x.getLast nonempty) := List.getLast?_eq_getLast_of_ne_nil nonempty
  have visible : isSpace (x.getLast nonempty) = false := by
    apply paragraph.last_visible
    rw [longer, List.getLast?_append_of_ne_nil p nonempty, last]
  have apart := ends x ⟨tail', same.symm⟩ _ last visible
  exact paragraph.whole (apart.widen ⟨p, [], by rw [longer, List.append_nil]⟩)

theorem Paragraphs.not_blank {text p : Text} {ps : List Text} (h : Paragraphs text (p :: ps)) :
  ¬ Blank text
  := by
  obtain ⟨before, tail, first, paragraph, ends, rfl, rest⟩ := h.uncons
  intro blank
  obtain ⟨c, rest, rfl⟩ := List.exists_cons_of_ne_nil paragraph.nonempty
  have visible := paragraph.head_visible rfl
  rw [blank c (List.mem_append_left _ (List.mem_append_right _ List.mem_cons_self))] at visible
  cases visible

theorem Paragraphs.blank {text : Text} (h : Paragraphs text []) :
  Blank text
  := by
  cases h with
  | none blank => exact blank

/-- A text has its paragraphs in one way only. -/
theorem Paragraphs.unique {text : Text} {ps qs : List Text} (h : Paragraphs text ps)
    (h' : Paragraphs text qs) :
  ps = qs
  := by
  induction ps generalizing text qs with
  | nil =>
    cases qs with
    | nil => rfl
    | cons q qs => exact absurd h.blank h'.not_blank
  | cons p ps ih =>
    cases qs with
    | nil => exact absurd h'.blank h.not_blank
    | cons q qs =>
      obtain ⟨before, tail, first, paragraph, ends, rfl, rest⟩ := h.uncons
      obtain ⟨before', tail', first', paragraph', ends', same, rest'⟩ := h'.uncons
      have begins : before = before' := by
        rw [← takeWhile_before first paragraph tail, same, takeWhile_before first' paragraph' tail']
      rw [← begins, List.append_assoc, List.append_assoc, List.append_cancel_left_eq] at same
      obtain ⟨x, longer, tails⟩ | ⟨x, longer, tails⟩ := List.append_eq_append_iff.mp same
      · cases eq_nil_of_ends paragraph' ends longer tails
        rw [List.append_nil] at longer
        rw [List.nil_append] at tails
        rw [tails] at rest
        rw [longer, ih rest rest']
      · cases eq_nil_of_ends paragraph ends' longer tails
        rw [List.append_nil] at longer
        rw [List.nil_append] at tails
        rw [tails] at rest'
        rw [longer, ih rest rest']

/-! ### The matches -/

theorem isSpace_of_isInline {c : Char} (h : isInline c = true) :
  isSpace c = true
  := by
  unfold isInline at h
  simp only [Bool.or_eq_true, decide_eq_true_eq] at h
  unfold isSpace
  rcases h with (((rfl | rfl) | rfl) | feed) | tab
  · decide
  · decide
  · decide
  · rw [feed]
    decide
  · rw [tab]
    decide

theorem not_isInline_newline : isInline '\n' = false := by decide

theorem IsBlankLine.blank {line : Text} (h : IsBlankLine line) :
  Blank line
  := by
  obtain ⟨inline, inside, rfl⟩ := h
  intro c mem
  rcases List.mem_cons.mp mem with rfl | mem
  · decide
  · rcases List.mem_append.mp mem with mem | mem
    · exact isSpace_of_isInline (inside c mem)
    · rw [List.mem_singleton.mp mem]
      decide

theorem afterBlankLine_eq_some_iff {text after : Text} :
  afterBlankLine text = some after ↔ ∃ line, IsBlankLine line ∧ text = line ++ after
  := by
  constructor
  · intro h
    unfold afterBlankLine at h
    split at h
    · case h_1 rest =>
      split at h
      · case h_1 after' found =>
        cases h
        refine ⟨'\n' :: (rest.takeWhile isInline ++ ['\n']), ⟨_, fun c mem => ?_, rfl⟩, ?_⟩
        · exact List.mem_takeWhile_imp mem
        · have whole := List.takeWhile_append_dropWhile (p := isInline) (l := rest)
          rw [found] at whole
          rw [List.cons_append, List.append_assoc, List.singleton_append, whole]
      · cases h
    · cases h
  · rintro ⟨line, ⟨inline, inside, rfl⟩, rfl⟩
    have rest : (inline ++ ['\n'] ++ after).dropWhile isInline = '\n' :: after := by
      rw [List.append_assoc, List.dropWhile_append_of_pos inside]
      exact List.dropWhile_cons_of_neg (by rw [not_isInline_newline]; exact Bool.false_ne_true)
    rw [List.cons_append, afterBlankLine, rest]
    rfl

/-! ### The pieces -/

/-- Pieces without blank lines, with one between each two of them. -/
inductive Pieces : Text → List Text → Prop where
  | one {piece : Text} (whole : ¬ Apart piece) : Pieces piece [piece]
  | cons {piece line text : Text} {pieces : List Text} (whole : ¬ Apart piece)
      (is : IsBlankLine line) (rest : Pieces text pieces) :
      Pieces (piece ++ line ++ text) (piece :: pieces)

theorem not_apart_nil : ¬ Apart [] := by
  rintro ⟨line, ⟨inline, -, rfl⟩, inside⟩
  cases List.infix_nil.mp inside

/-- One more character before a piece, if no blank line begins there. -/
theorem not_apart_cons {c : Char} {piece : Text} (after : Text) (whole : ¬ Apart piece)
    (none : afterBlankLine (c :: (piece ++ after)) = none) :
  ¬ Apart (c :: piece)
  := by
  rintro ⟨line, is, inside⟩
  rcases List.infix_cons_iff.mp inside with ⟨rest, begins⟩ | within
  · have found : afterBlankLine (c :: (piece ++ after)) = some (rest ++ after) :=
      afterBlankLine_eq_some_iff.mpr ⟨line, is, by
        rw [← List.append_assoc, begins, List.cons_append]⟩
    rw [none] at found
    cases found
  · exact whole ⟨line, is, within⟩

theorem Pieces.consLine {c : Char} {text : Text} {pieces : List Text} (h : Pieces text pieces)
    (none : afterBlankLine (c :: text) = none) :
  Pieces (c :: text) (Lines.consLine c pieces)
  := by
  cases h with
  | one whole =>
    refine .one (not_apart_cons [] whole ?_)
    rw [List.append_nil]
    exact none
  | @cons piece line text pieces whole is rest =>
    refine .cons (not_apart_cons (line ++ text) whole ?_) is rest
    rw [← List.append_assoc]
    exact none

theorem length_after {text after : Text} (h : afterBlankLine text = some after) :
  after.length < text.length
  := by
  obtain ⟨line, ⟨inline, -, rfl⟩, rfl⟩ := afterBlankLine_eq_some_iff.mp h
  rw [List.length_append, List.length_cons]
  omega

theorem pieces_splitUpTo {n : ℕ} {text : Text} (enough : text.length < n) :
  Pieces text (splitUpTo n text)
  := by
  induction n generalizing text with
  | zero => cases enough
  | succ n ih =>
    cases text with
    | nil => exact .one not_apart_nil
    | cons c text =>
      rw [splitUpTo]
      cases found : afterBlankLine (c :: text) with
      | some after =>
        have shorter := length_after found
        obtain ⟨line, is, whole⟩ := afterBlankLine_eq_some_iff.mp found
        rw [whole]
        exact Pieces.cons not_apart_nil is (ih (by omega))
      | none =>
        have shorter : text.length < n := by
          rw [List.length_cons] at enough
          omega
        exact (ih shorter).consLine found

theorem pieces_split (text : Text) :
  Pieces text (split text)
  := pieces_splitUpTo (Nat.lt_succ_self _)

/-! ### From pieces to paragraphs -/

/-- The pieces that are not blank, stripped. -/
def keep (pieces : List Text) : List Text := (pieces.map strip).filter (· ≠ [])

theorem exists_margins (text : Text) :
  ∃ before after, Blank before ∧ Blank after ∧ text = before ++ strip text ++ after
  := by
  refine ⟨text.takeWhile isSpace, (text.dropWhile isSpace).rtakeWhile isSpace,
    fun c mem => List.mem_takeWhile_imp mem, fun c mem => List.mem_rtakeWhile_imp mem, ?_⟩
  unfold strip rstrip
  rw [List.append_assoc, List.rdropWhile_append_rtakeWhile, List.takeWhile_append_dropWhile]

theorem blank_of_strip {text : Text} (h : strip text = []) :
  Blank text
  := isSpace_of_solid_eq_nil (strip_eq_nil_iff.mp h)

theorem paragraph_strip {piece : Text} (some : strip piece ≠ []) (whole : ¬ Apart piece) :
  Paragraph (strip piece)
  := ⟨some, MarkdownLoader.strip_strip piece, fun apart => whole (apart.widen <| strip_infix piece)⟩

theorem keep_cons_of_blank {piece : Text} (empty : strip piece = []) (pieces : List Text) :
  keep (piece :: pieces) = keep pieces
  := by
  unfold keep
  rw [List.map_cons, List.filter_cons_of_neg (by rw [empty]; decide)]

theorem keep_cons {piece : Text} (some : strip piece ≠ []) (pieces : List Text) :
  keep (piece :: pieces) = strip piece :: keep pieces
  := by
  unfold keep
  rw [List.map_cons, List.filter_cons_of_pos (by simpa using some)]

theorem paragraphs_of_pieces {text : Text} {pieces : List Text} (h : Pieces text pieces) :
  Paragraphs text (keep pieces)
  := by
  induction h with
  | @one piece whole =>
    by_cases empty : strip piece = []
    · rw [keep_cons_of_blank empty]
      exact .none (blank_of_strip empty)
    · rw [keep_cons empty]
      obtain ⟨before, after, first, rest, margins⟩ := exists_margins piece
      have paragraphs := Paragraphs.last first (paragraph_strip empty whole) rest
      rw [← margins] at paragraphs
      exact paragraphs
  | @cons piece line text pieces whole is rest ih =>
    by_cases empty : strip piece = []
    · rw [keep_cons_of_blank empty]
      exact ih.prepend ((blank_of_strip empty).append is.blank)
    · rw [keep_cons empty]
      obtain ⟨before, after, first, last, margins⟩ := exists_margins piece
      have paragraph := paragraph_strip empty whole
      have whole' : piece ++ line ++ text = before ++ strip piece ++ (after ++ line) ++ text := by
        conv_lhs => rw [margins]
        simp only [List.append_assoc]
      rw [whole']
      cases kept : keep pieces with
      | nil =>
        rw [kept] at ih
        rw [List.append_assoc]
        exact .last first paragraph ((last.append is.blank).append ih.blank)
      | cons q ps =>
        rw [kept] at ih
        refine .more first paragraph (last.append is.blank) ?_ ih
        exact Apart.append_left ⟨line, is, List.infix_rfl⟩ after

/-! ### The blocks -/

/-- The blocks are the pieces that are kept, numbered. -/
theorem blocks_foldl (pieces : List Text) (a : Assembly) :
  ∃ new, (pieces.foldl place a).blocks = a.blocks ++ new ∧
    new.map (·.text.toList) = keep pieces ∧ (∀ b ∈ new, b.type = .paragraph) ∧
    new.map (·.position) = (List.range' a.blocks.length new.length).map ({ order := · })
  := by
  induction pieces generalizing a with
  | nil => exact ⟨[], (List.append_nil _).symm, rfl, nofun, rfl⟩
  | cons piece pieces ih =>
    rw [List.foldl_cons]
    obtain ⟨new, whole, texts, types, positions⟩ := ih (place a piece)
    unfold place at whole positions ⊢
    by_cases empty : strip piece = []
    · rw [if_pos empty] at whole positions ⊢
      rw [keep_cons_of_blank empty]
      exact ⟨new, whole, texts, types, positions⟩
    · rw [if_neg empty] at whole positions ⊢
      rw [keep_cons empty]
      refine ⟨_ :: new, whole.trans (List.append_assoc _ _ _), ?_, ?_, ?_⟩
      · rw [List.map_cons, texts, String.toList_ofList]
      · intro b mem
        rcases List.mem_cons.mp mem with rfl | mem
        · rfl
        · exact types b mem
      · rw [List.map_cons, positions]
        show _ :: (List.range' (a.blocks ++ [_]).length new.length).map _ = _
        rw [List.length_append, List.length_singleton, List.length_cons, List.range'_succ]
        rfl

/-- The blocks of a text are exactly its paragraphs, in order: nothing but white space is lost,
and no two paragraphs are one. -/
theorem load_paragraphs {content : List UInt8} {codes : PyJson.Str}
    (decoded : Knowledge.decodeText content = some codes) :
  ∃ blocks sourceMeta, load content = .ok (blocks, sourceMeta) ∧
    (∀ ps, Paragraphs (codes.map Char.ofNat) ps ↔ ps = blocks.map (·.text.toList)) ∧
    (∀ b ∈ blocks, b.type = .paragraph) ∧
    blocks.map (·.position) = (List.range blocks.length).map ({ order := · })
  := by
  have loaded : load content = .ok (blocksOf (codes.map Char.ofNat),
      [("char_count", .int (codes.map Char.ofNat).length)]) := by
    unfold load
    rw [decoded]
  obtain ⟨new, whole, texts, types, positions⟩ :=
    blocks_foldl (split (codes.map Char.ofNat)) {}
  have blocks : blocksOf (codes.map Char.ofNat) = new := whole
  rw [blocks] at loaded
  refine ⟨new, _, loaded, ?_, types, ?_⟩
  · have paragraphs := paragraphs_of_pieces (pieces_split (codes.map Char.ofNat))
    rw [texts]
    intro ps
    constructor
    · exact fun h => h.unique paragraphs
    · rintro rfl
      exact paragraphs
  · rw [positions, List.range_eq_range']
    rfl

/-- A blank line with a space in it. -/
theorem load_paragraphs_sample :
  ∃ blocks sourceMeta, load [97, 10, 32, 10, 98] = .ok (blocks, sourceMeta) ∧
    (∀ ps, Paragraphs ([97, 10, 32, 10, 98].map Char.ofNat) ps ↔ ps = blocks.map (·.text.toList)) ∧
    (∀ b ∈ blocks, b.type = .paragraph) ∧
    blocks.map (·.position) = (List.range blocks.length).map ({ order := · })
  := by
  have decoded : Knowledge.decodeText [97, 10, 32, 10, 98] = some [97, 10, 32, 10, 98] := by decide
  exact load_paragraphs decoded

end Lumina.Etl.PlainText
