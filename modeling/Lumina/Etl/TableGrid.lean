import Lumina.Etl.MarkdownTable

/-!
# The grid of a table

Which tables keep the grid of their rows: the writer adds a line for each line boundary that is left
in a cell, a column for each pipe that was escaped before, and a newline for each mark of one.
-/

namespace Lumina.Etl

open Lines (Open consLine isLineBreak splitLines)

/-! ### Escaped cells -/

theorem isSpace_of_isMargin {c : Char} (h : isMargin c) : isSpace c :=
  (Bool.and_eq_true_iff.mp h).1

theorem escapeChar_of_margin {c : Char} (h : isMargin c) :
  escapeChar c = [c]
  := by
  obtain ⟨space, other⟩ := Bool.and_eq_true_iff.mp h
  have pipe : c ≠ '|' := by
    rintro rfl
    exact absurd space (by decide)
  rw [escapeChar, if_neg pipe, if_neg (of_decide_eq_true other)]

/-- What is written for a character that is no margin begins and ends with something visible. -/
theorem escapeChar_of_not_margin {c : Char} (h : isMargin c = false) :
  ∃ front last, escapeChar c = front ++ [last] ∧ isSpace last = false ∧
    isSpace ((front ++ [last]).head (by simp)) = false
  := by
  unfold escapeChar
  split_ifs with pipe newline
  · exact ⟨['\\'], '|', rfl, by decide, by decide⟩
  · exact ⟨['<', 'b', 'r'], '>', rfl, by decide, by decide⟩
  · have visible : isSpace c = false := by
      rwa [isMargin, decide_eq_true newline, Bool.and_true] at h
    exact ⟨[], c, rfl, visible, visible⟩

theorem dropWhile_flatMap_escapeChar (cell : Text) :
  (cell.flatMap escapeChar).dropWhile isSpace = (cell.dropWhile isMargin).flatMap escapeChar
  := by
  induction cell with
  | nil => rfl
  | cons c cell ih =>
    rw [List.flatMap_cons]
    cases margin : isMargin c with
    | true =>
      rw [escapeChar_of_margin margin, List.singleton_append,
        List.dropWhile_cons_of_pos (isSpace_of_isMargin margin), ih,
        List.dropWhile_cons_of_pos margin]
    | false =>
      obtain ⟨front, last, written, -, first⟩ := escapeChar_of_not_margin margin
      rw [List.dropWhile_cons_of_neg (by simp [margin]), List.flatMap_cons, written]
      cases front with
      | nil => exact List.dropWhile_cons_of_neg (by simpa using first)
      | cons d front => exact List.dropWhile_cons_of_neg (by simpa using first)

theorem rdropWhile_flatMap_escapeChar (cell : Text) :
  (cell.flatMap escapeChar).rdropWhile isSpace = (cell.rdropWhile isMargin).flatMap escapeChar
  := by
  induction cell using List.reverseRecOn with
  | nil => rfl
  | append_singleton cell c ih =>
    rw [List.flatMap_append, List.flatMap_singleton]
    cases margin : isMargin c with
    | true =>
      rw [escapeChar_of_margin margin,
        List.rdropWhile_concat_pos _ _ _ (isSpace_of_isMargin margin), ih,
        List.rdropWhile_concat_pos _ _ _ margin]
    | false =>
      obtain ⟨front, last, written, visible, -⟩ := escapeChar_of_not_margin margin
      rw [List.rdropWhile_concat_neg _ _ _ (by simp [margin]), List.flatMap_append,
        List.flatMap_singleton, written, ← List.append_assoc,
        List.rdropWhile_concat_neg _ _ _ (by simp [visible])]

/-- The margins go, and then the rest is escaped. -/
theorem escapeCell_eq (cell : Text) :
  escapeCell cell = (trimCell cell).flatMap escapeChar
  := by
  rw [escapeCell, strip, dropWhile_flatMap_escapeChar, rstrip, rdropWhile_flatMap_escapeChar,
    trimCell]

theorem splitWords_trimCell (cell : Text) :
  splitWords (trimCell cell) = splitWords cell
  := by
  rw [trimCell, splitWords_rdropWhile (fun _ => isSpace_of_isMargin),
    splitWords_dropWhile (fun _ => isSpace_of_isMargin)]

theorem isSpace_head?_escapeCell {cell : Text} {c : Char} (h : c ∈ (escapeCell cell).head?) :
  isSpace c = false
  := isSpace_head?_strip h

theorem isSpace_getLast?_escapeCell {cell : Text} {c : Char} (h : c ∈ (escapeCell cell).getLast?) :
  isSpace c = false
  := isSpace_getLast?_rstrip h

/-- A cell that is written is stripped already. -/
theorem strip_escapeCell (cell : Text) :
  strip (escapeCell cell) = escapeCell cell
  := strip_eq_self (fun _ => isSpace_head?_escapeCell) (fun _ => isSpace_getLast?_escapeCell)

/-! ### Line boundaries -/

theorem isLineBreak_escapeChar {c d : Char} (h : d ∈ escapeChar c) (newline : isLineBreak d) :
  d = c ∧ c ≠ '\n'
  := by
  unfold escapeChar at h
  split_ifs at h with pipe breaks
  · simp only [List.mem_cons, List.not_mem_nil, or_false] at h
    obtain rfl | rfl := h
    all_goals exact absurd newline (by decide)
  · simp only [List.mem_cons, List.not_mem_nil, or_false] at h
    obtain rfl | rfl | rfl | rfl := h
    all_goals exact absurd newline (by decide)
  · exact ⟨List.mem_singleton.mp h, breaks⟩

/-- The line boundaries that are left in a cell are those other than newlines. -/
theorem isLineBreak_escapeCell_iff (cell : Text) :
  (∀ c ∈ escapeCell cell, isLineBreak c = false) ↔
    ∀ c ∈ trimCell cell, isLineBreak c → c = '\n'
  := by
  rw [escapeCell_eq]
  constructor
  · intro h c hc newline
    by_contra other
    have pipe : c ≠ '|' := by
      rintro rfl
      exact absurd newline (by decide)
    have written : c ∈ escapeChar c := by
      rw [escapeChar, if_neg pipe, if_neg other]
      exact List.mem_singleton_self c
    rw [h c (List.mem_flatMap.mpr ⟨c, hc, written⟩)] at newline
    cases newline
  · intro h d hd
    obtain ⟨c, hc, written⟩ := List.mem_flatMap.mp hd
    apply Bool.eq_false_iff.mpr
    intro newline
    obtain ⟨rfl, other⟩ := isLineBreak_escapeChar written newline
    exact other (h d hc newline)

/-! ### Pipes -/

theorem unescapedPipes_append (escaped : Bool) (a b : Text) :
  unescapedPipes escaped (a ++ b) =
    unescapedPipes escaped a + unescapedPipes (a.foldl escapes escaped) b
  := by
  induction a generalizing escaped with
  | nil => exact (Nat.zero_add _).symm
  | cons c a ih =>
    rw [List.cons_append, unescapedPipes, ih, unescapedPipes, List.foldl_cons, Nat.add_assoc]

/-- The number of pipes that are escaped. -/
def escapedPipes : (escaped : Bool) → Text → ℕ
  | _, [] => 0
  | escaped, c :: text =>
      (if c = '|' && escaped then 1 else 0) + escapedPipes (escapes escaped c) text

theorem escapes_of_ne {c : Char} (h : c ≠ '\\') (escaped : Bool) :
  escapes escaped c = false
  := by
  rw [escapes, decide_eq_false h, Bool.false_and]

theorem escapes_backslash (escaped : Bool) :
  escapes escaped '\\' = !escaped
  := rfl

/-- A pipe that is escaped already is not any more when it is escaped again. -/
theorem unescapedPipes_flatMap_escapeChar (escaped : Bool) (text : Text) :
  unescapedPipes escaped (text.flatMap escapeChar) = escapedPipes escaped text
  := by
  induction text generalizing escaped with
  | nil => rfl
  | cons c text ih =>
    rw [List.flatMap_cons, unescapedPipes_append, ih, escapedPipes]
    by_cases pipe : c = '|'
    · subst pipe
      cases escaped
      all_goals rfl
    · by_cases newline : c = '\n'
      · subst newline
        cases escaped
        all_goals rfl
      · have same : escapeChar c = [c] := by rw [escapeChar, if_neg pipe, if_neg newline]
        rw [same, unescapedPipes, unescapedPipes, decide_eq_false pipe]
        rfl

theorem escapes_foldl_concat (escaped : Bool) (text : Text) (c : Char) (h : c ≠ '\\') :
  (text ++ [c]).foldl escapes escaped = false
  := by
  rw [List.foldl_append]
  exact escapes_of_ne h _

/-- The backslashes before a place in a cell. -/
theorem foldl_escapes_eq (text : Text) :
  text.foldl escapes false = decide (Odd (text.rtakeWhile (· = '\\')).length)
  := by
  induction text using List.reverseRecOn with
  | nil => rfl
  | append_singleton text c ih =>
    rw [List.foldl_append, List.foldl_cons, List.foldl_nil, ih]
    by_cases backslash : c = '\\'
    · subst backslash
      rw [List.rtakeWhile_concat_pos _ _ _ (by decide), escapes_backslash, List.length_append,
        List.length_singleton, ← decide_not]
      exact decide_eq_decide.mpr Nat.odd_add_one.symm
    · rw [List.rtakeWhile_concat_neg _ _ _ (by simpa using backslash), escapes_of_ne backslash]
      rfl

/-- There is no escaped pipe if no place before a pipe is escaped. -/
theorem escapedPipes_eq_zero_iff (escaped : Bool) (text : Text) :
  escapedPipes escaped text = 0 ↔
    ∀ before rest, text = before ++ '|' :: rest → before.foldl escapes escaped = false
  := by
  induction text generalizing escaped with
  | nil => simp [escapedPipes]
  | cons c text ih =>
    rw [escapedPipes, Nat.add_eq_zero_iff, ih]
    constructor
    · rintro ⟨here, later⟩ before rest same
      cases before with
      | nil =>
        obtain ⟨rfl, -⟩ := List.cons.inj same
        cases escaped with
        | false => rfl
        | true => cases here
      | cons d before =>
        rw [List.cons_append] at same
        obtain ⟨rfl, tail⟩ := List.cons.inj same
        exact later before rest tail
    · intro h
      constructor
      · split_ifs with pipe
        · obtain ⟨pipe, escaped⟩ := Bool.and_eq_true_iff.mp pipe
          have free := h [] text (by rw [of_decide_eq_true pipe]; rfl)
          rw [List.foldl_nil, escaped] at free
          cases free
        · rfl
      · intro before rest same
        exact h (c :: before) rest (by rw [same]; rfl)

/-- The pipes of a cell are no columns if and only if none was escaped before. -/
theorem unescapedPipes_escapeCell_iff (cell : Text) :
  unescapedPipes false (escapeCell cell) = 0 ↔
    ∀ before rest, trimCell cell = before ++ '|' :: rest →
      Even (before.rtakeWhile (· = '\\')).length
  := by
  rw [escapeCell_eq, unescapedPipes_flatMap_escapeChar, escapedPipes_eq_zero_iff]
  apply forall₂_congr
  intro before rest
  apply imp_congr_right
  intro _
  rw [foldl_escapes_eq, decide_eq_false_iff_not, Nat.not_odd_iff_even]

/-! ### Marks of newlines -/

/-- A text with a newline in place of each mark of one. -/
def readMarks : Text → Text
  | [] => []
  | '<' :: 'b' :: 'r' :: '>' :: text => '\n' :: readMarks text
  | c :: text => c :: readMarks text

theorem head?_flatMap_escapeChar (text : Text) :
  (text.flatMap escapeChar).head? ≠ some '|'
  := by
  cases text with
  | nil => exact nofun
  | cons c text =>
    rw [List.flatMap_cons]
    rw [escapeChar]
    split_ifs with pipe newline
    · exact fun same => absurd (Option.some.inj same) (by decide)
    · exact fun same => absurd (Option.some.inj same) (by decide)
    · exact fun same => pipe (Option.some.inj same)

/-- A character that begins no escape is written for itself. -/
theorem eq_cons_of_flatMap_escapeChar {text rest : Text} {d : Char}
    (h : text.flatMap escapeChar = d :: rest) (backslash : d ≠ '\\') (mark : d ≠ '<') :
  ∃ text', text = d :: text' ∧ text'.flatMap escapeChar = rest
  := by
  cases text with
  | nil => cases h
  | cons c text =>
    rw [List.flatMap_cons, escapeChar] at h
    split_ifs at h with pipe newline
    · exact absurd (List.cons.inj h).1.symm backslash
    · exact absurd (List.cons.inj h).1.symm mark
    · obtain ⟨rfl, same⟩ := List.cons.inj h
      exact ⟨text, rfl, same⟩

theorem readCell_flatMap_escapeChar (text : Text) :
  readCell (text.flatMap escapeChar) = readMarks text
  := by
  fun_induction readMarks text with
  | case1 => rfl
  | case2 text ih =>
    change readCell ('<' :: 'b' :: 'r' :: '>' :: text.flatMap escapeChar) = _
    rw [readCell, ih]
  | case3 c text other ih =>
    rw [List.flatMap_cons, escapeChar, ← ih]
    split_ifs with pipe newline
    · rw [pipe]
      rfl
    · rw [newline]
      rfl
    · apply readCell.eq_4
      · rintro rest rfl same
        have same : text.flatMap escapeChar = '|' :: rest := same
        exact head?_flatMap_escapeChar text (by rw [same]; rfl)
      · rintro rest rfl same
        obtain ⟨text₁, rfl, same₁⟩ := eq_cons_of_flatMap_escapeChar same (by decide) (by decide)
        obtain ⟨text₂, rfl, same₂⟩ := eq_cons_of_flatMap_escapeChar same₁ (by decide) (by decide)
        obtain ⟨text₃, rfl, -⟩ := eq_cons_of_flatMap_escapeChar same₂ (by decide) (by decide)
        exact other text₃ rfl rfl

/-- A cell is read with a newline in place of each mark that it had. -/
theorem readCell_escapeCell (cell : Text) :
  readCell (escapeCell cell) = readMarks (trimCell cell)
  := by
  rw [escapeCell_eq, readCell_flatMap_escapeChar]

theorem readMarks_eq_self {text : Text} (h : ¬ ['<', 'b', 'r', '>'] <:+: text) :
  readMarks text = text
  := by
  fun_induction readMarks text with
  | case1 => rfl
  | case2 text ih => exact absurd ⟨[], text, rfl⟩ h
  | case3 c text other ih =>
    rw [List.infix_cons_iff, not_or] at h
    rw [ih h.2]

theorem length_solid_cons (c : Char) (text : Text) :
  (solid (c :: text)).length = (solid text).length + if isSpace c then 0 else 1
  := by
  unfold solid
  cases space : isSpace c with
  | true => rw [List.filter_cons_of_neg (by simp [space])]; rfl
  | false => rw [List.filter_cons_of_pos (by simp [space])]; rfl

/-- A mark that is read as a newline is lost. -/
theorem length_solid_readMarks (text : Text) :
  (solid (readMarks text)).length ≤ (solid text).length ∧
  (['<', 'b', 'r', '>'] <:+: text → (solid (readMarks text)).length < (solid text).length)
  := by
  fun_induction readMarks text with
  | case1 => exact ⟨le_rfl, fun h => absurd h (by decide)⟩
  | case2 text ih =>
    have marks : (solid ('<' :: 'b' :: 'r' :: '>' :: text)).length = (solid text).length + 4 := rfl
    have newline : (solid ('\n' :: readMarks text)).length = (solid (readMarks text)).length := rfl
    have := ih.1
    constructor
    all_goals omega
  | case3 c text other ih =>
    rw [length_solid_cons, length_solid_cons]
    refine ⟨Nat.add_le_add_right ih.1 _, fun h => Nat.add_lt_add_right (ih.2 ?_) _⟩
    rcases List.infix_cons_iff.mp h with ⟨rest, same⟩ | later
    · obtain ⟨rfl, tail⟩ := List.cons.inj same
      exact (other rest rfl tail.symm).elim
    · exact later

theorem flatten_splitWords_eq (text : Text) :
  (splitWords text).flatten = (splitWord text).1 ++ (splitWord text).2.flatten
  := by
  rw [splitWords]
  dsimp only
  split_ifs with none
  · rw [none, List.nil_append]
  · rw [List.flatten_cons]

/-- The words have all that is no white space. -/
theorem flatten_splitWords (text : Text) :
  (splitWords text).flatten = solid text
  := by
  induction text with
  | nil => rfl
  | cons c text ih =>
    rw [flatten_splitWords_eq]
    cases space : isSpace c with
    | true =>
      rw [splitWord_of_space space, List.nil_append, ih]
      exact (List.filter_cons_of_neg (by simp [space])).symm
    | false =>
      rw [splitWord_of_visible space, List.cons_append, ← flatten_splitWords_eq, ih]
      exact (List.filter_cons_of_pos (by simp [space])).symm

/-- The words of a cell are read if and only if it has no mark of a newline. -/
theorem splitWords_readCell_iff (cell : Text) :
  splitWords (readCell (escapeCell cell)) = splitWords cell ↔
    ¬ ['<', 'b', 'r', '>'] <:+: trimCell cell
  := by
  rw [readCell_escapeCell, ← splitWords_trimCell cell]
  constructor
  · intro same mark
    have less := (length_solid_readMarks (trimCell cell)).2 mark
    rw [← flatten_splitWords, ← flatten_splitWords, same] at less
    exact lt_irrefl _ less
  · intro h
    rw [readMarks_eq_self h]

/-! ### Lines of cells -/

/-- What a line has for a cell, the pipe before it included. -/
def cellPiece (cell : Text) : Text :=
  '|' :: ' ' :: (cell ++ [' '])

theorem tableLine_eq {cells : List Text} (h : cells ≠ []) :
  tableLine cells = cells.flatMap cellPiece ++ ['|']
  := by
  induction cells with
  | nil => exact absurd rfl h
  | cons cell cells ih =>
    cases cells with
    | nil => simp [tableLine, cellPiece]
    | cons next cells =>
      have rest := ih (List.cons_ne_nil next cells)
      rw [List.flatMap_cons, List.append_assoc, ← rest]
      simp [tableLine, cellPiece, List.intercalate_cons_cons]

theorem unescapedPipes_cellPiece (cell rest : Text) :
  unescapedPipes false (cellPiece cell ++ rest) =
    unescapedPipes false cell + 1 + unescapedPipes false rest
  := by
  have closed : (cell ++ [' ']).foldl escapes false = false :=
    escapes_foldl_concat false cell ' ' (by decide)
  change 1 + (0 + unescapedPipes false (cell ++ [' '] ++ rest)) = _
  rw [unescapedPipes_append, closed, unescapedPipes_append]
  change 1 + (0 + (unescapedPipes false cell + 0 + _)) = _
  omega

/-- A line has a pipe more than cells, if there is no other one in the cells. -/
theorem unescapedPipes_tableLine {cells : List Text} (h : cells ≠ []) :
  unescapedPipes false (tableLine cells) =
    cells.length + 1 + (cells.map (unescapedPipes false)).sum
  := by
  rw [tableLine_eq h]
  clear h
  induction cells with
  | nil => rfl
  | cons cell cells ih =>
    rw [List.flatMap_cons, List.append_assoc, unescapedPipes_cellPiece, ih, List.length_cons,
      List.map_cons, List.sum_cons]
    omega

/-- The text before a pipe that is not escaped. -/
theorem splitCells_append_pipe {escaped : Bool} {piece : Text}
    (h : unescapedPipes escaped piece = 0) (closed : piece.foldl escapes escaped = false)
    (rest : Text) :
  splitCells escaped (piece ++ '|' :: rest) = piece :: splitCells false rest
  := by
  induction piece generalizing escaped with
  | nil =>
    rw [List.foldl_nil] at closed
    rw [closed]
    rfl
  | cons c piece ih =>
    rw [unescapedPipes, Nat.add_eq_zero_iff] at h
    have other : ¬ (c = '|' && !escaped) := by
      intro pipe
      rw [if_pos pipe] at h
      cases h.1
    rw [List.cons_append, splitCells, if_neg other, ih h.2 closed]
    rfl

theorem splitCells_cells {cells : List Text}
    (h : ∀ cell ∈ cells, unescapedPipes false cell = 0) :
  splitCells false (cells.flatMap cellPiece ++ ['|']) =
    [] :: (cells.map (fun cell => ' ' :: (cell ++ [' '])) ++ [[]])
  := by
  induction cells with
  | nil => rfl
  | cons cell cells ih =>
    obtain ⟨head, others⟩ := List.forall_mem_cons.mp h
    have rest := ih others
    obtain ⟨later, pipe⟩ : ∃ later, cells.flatMap cellPiece ++ ['|'] = '|' :: later := by
      cases cells with
      | nil => exact ⟨[], rfl⟩
      | cons next cells => exact ⟨_, rfl⟩
    have plain : unescapedPipes false (' ' :: (cell ++ [' '])) = 0 := by
      change 0 + unescapedPipes false (cell ++ [' ']) = 0
      rw [unescapedPipes_append, head]
      rfl
    have closed : (' ' :: (cell ++ [' '])).foldl escapes false = false :=
      escapes_foldl_concat false (' ' :: cell) ' ' (by decide)
    rw [pipe] at rest
    have rest : splitCells false later = _ := (List.cons.inj rest).2
    rw [List.flatMap_cons, List.append_assoc, pipe]
    change [] :: splitCells false ((' ' :: (cell ++ [' '])) ++ '|' :: later) = _
    rw [splitCells_append_pipe plain closed, rest]
    rfl

theorem strip_margins (cell : Text) :
  strip (' ' :: (cell ++ [' '])) = strip cell
  := by
  rw [strip, List.dropWhile_cons_of_pos (by decide), List.dropWhile_append, strip]
  split_ifs with blank
  · rw [List.isEmpty_iff.mp blank]
    rfl
  · exact List.rdropWhile_concat_pos _ _ _ (by decide)

/-- A line is read as its cells. -/
theorem readLine_tableLine {cells : List Text} (some : cells ≠ [])
    (h : ∀ cell ∈ cells, unescapedPipes false cell = 0) (stripped : ∀ cell ∈ cells, strip cell = cell) :
  readLine (tableLine cells) = cells.map readCell
  := by
  rw [tableLine_eq some, readLine, splitCells_cells h, List.tail_cons, List.dropLast_concat,
    List.map_map]
  apply List.map_congr_left
  intro cell hc
  rw [Function.comp_apply, strip_margins, stripped cell hc]

theorem open_tableLine (cells : List Text) :
  Open (tableLine cells)
  := by
  refine ⟨'|', ?_, by decide⟩
  unfold tableLine
  rw [show [' ', '|'] = [' '] ++ ['|'] from rfl, ← List.append_assoc, Option.mem_def,
    List.getLast?_concat]

/-- The line boundaries of a line are those of its cells. -/
theorem isLineBreak_tableLine_iff (cells : List Text) :
  (∀ c ∈ tableLine cells, isLineBreak c = false) ↔
    ∀ cell ∈ cells, ∀ c ∈ cell, isLineBreak c = false
  := by
  by_cases none : cells = []
  · subst none
    have plain : (tableLine []).all (!isLineBreak ·) := by decide
    exact iff_of_true (by simpa using plain) nofun
  · rw [tableLine_eq none]
    constructor
    · intro h cell hcell c hc
      apply h
      apply List.mem_append_left
      exact List.mem_flatMap.mpr ⟨cell, hcell, by simp [cellPiece, hc]⟩
    · intro h c hc
      rcases List.mem_append.mp hc with hc | hc
      · obtain ⟨cell, hcell, hc⟩ := List.mem_flatMap.mp hc
        simp only [cellPiece, List.mem_cons, List.mem_append, List.not_mem_nil, or_false] at hc
        rcases hc with rfl | rfl | hc | rfl
        · rfl
        · rfl
        · exact h cell hcell c hc
        · rfl
      · rw [List.mem_singleton.mp hc]
        rfl

/-! ### The grid -/

section

variable {width : ℕ} {row : List Text}

theorem length_padRow (h : row.length ≤ width) :
  (padRow width row).length = width
  := by
  rw [padRow, List.length_append, List.length_map, List.length_replicate]
  omega

theorem forall_mem_padRow {P : Text → Prop} (nil : P []) :
  (∀ cell ∈ padRow width row, P cell) ↔ ∀ cell ∈ row, P (escapeCell cell)
  := by
  constructor
  · intro h cell hc
    exact h _ (List.mem_append_left _ (List.mem_map_of_mem hc))
  · intro h cell hc
    rcases List.mem_append.mp hc with hc | hc
    · obtain ⟨raw, hraw, rfl⟩ := List.mem_map.mp hc
      exact h raw hraw
    · rw [List.eq_of_mem_replicate hc]
      exact nil

theorem length_le_tableWidth {rows : List (List Text)} (h : row ∈ rows) :
  row.length ≤ tableWidth rows
  := by
  induction rows with
  | nil => cases h
  | cons first rows ih =>
    change row.length ≤ max first.length (tableWidth rows)
    rcases List.mem_cons.mp h with rfl | h
    · exact le_max_left _ _
    · exact (ih h).trans (le_max_right _ _)

/-- A row has its pipes if and only if its cells have none. -/
theorem unescapedPipes_padRow_iff (some : 0 < width) (h : row.length ≤ width) :
  unescapedPipes false (tableLine (padRow width row)) = width + 1 ↔
    ∀ cell ∈ row, unescapedPipes false (escapeCell cell) = 0
  := by
  have length := length_padRow h
  have cells : padRow width row ≠ [] := by
    apply List.ne_nil_of_length_pos
    rwa [length]
  have each : (∀ cell ∈ padRow width row, unescapedPipes false cell = 0) ↔
      ∀ cell ∈ row, unescapedPipes false (escapeCell cell) = 0 := forall_mem_padRow rfl
  rw [unescapedPipes_tableLine cells, length, ← each, Nat.add_eq_left,
    List.sum_eq_zero_iff_forall_eq_nat, List.forall_mem_map]

/-- A row has its words if and only if its cells have them. -/
theorem words_padRow_iff :
  ((padRow width row).map readCell).map splitWords = (fullRow width row).map splitWords ↔
    ∀ cell ∈ row, splitWords (readCell (escapeCell cell)) = splitWords cell
  := by
  have padding (n : ℕ) : ((List.replicate n []).map readCell).map splitWords =
      (List.replicate n []).map splitWords := by
    rw [List.map_replicate, readCell]
  rw [padRow, fullRow, List.map_append, List.map_append, List.map_append, padding,
    List.append_left_inj, List.map_map, List.map_map, List.map_inj_left]
  exact Iff.rfl

end

theorem open_of_mem_tableLines {width : ℕ} {header : List Text} {body : List (List Text)}
    {line : Text} (h : line ∈ tableLines width header body) :
  Open line
  := by
  rcases List.mem_cons.mp h with rfl | h
  · exact open_tableLine _
  · rcases List.mem_cons.mp h with rfl | h
    · exact open_tableLine _
    · obtain ⟨row, -, rfl⟩ := List.mem_map.mp h
      exact open_tableLine _

/-- What holds of all lines of a table. -/
theorem forall_mem_tableLines {P : Text → Prop} {width : ℕ} {header : List Text}
    {body : List (List Text)} :
  (∀ line ∈ tableLines width header body, P line) ↔
    P (tableLine (List.replicate width ['-', '-', '-'])) ∧
    ∀ row ∈ header :: body, P (tableLine (padRow width row))
  := by
  rw [tableLines, List.forall_mem_cons, List.forall_mem_cons, List.forall_mem_map,
    List.forall_mem_cons]
  tauto

/-- A table has its lines if and only if no other line boundary is left in a cell. -/
theorem length_splitLines_table_iff (header : List Text) (body : List (List Text)) :
  (splitLines (rowsToMarkdownTable (header :: body))).length = (header :: body).length + 1 ↔
    ∀ line ∈ tableLines (tableWidth (header :: body)) header body,
      ∀ c ∈ line, isLineBreak c = false
  := by
  rw [← Lines.length_splitLines_intercalate_iff fun line => open_of_mem_tableLines]
  simp [rowsToMarkdownTable, tableLines]

/-- The lines of a table without other line boundaries. -/
theorem splitLines_table {header : List Text} {body : List (List Text)}
    (h : ∀ line ∈ tableLines (tableWidth (header :: body)) header body,
      ∀ c ∈ line, isLineBreak c = false) :
  splitLines (rowsToMarkdownTable (header :: body)) =
    tableLines (tableWidth (header :: body)) header body
  := by
  have lines (line : Text) (hl : line ∈ tableLines (tableWidth (header :: body)) header body) :
      splitLines line = [line] :=
    Lines.splitLines_of_forall (open_of_mem_tableLines hl).ne_nil (h line hl)
  calc
    splitLines (rowsToMarkdownTable (header :: body)) =
        (tableLines (tableWidth (header :: body)) header body).flatMap splitLines :=
      Lines.splitLines_intercalate fun line => open_of_mem_tableLines
    _ = (tableLines (tableWidth (header :: body)) header body).flatMap fun line => [line] :=
      List.flatMap_congr lines
    _ = _ := List.flatMap_singleton' _

/-- The rows of a table without other line boundaries. -/
theorem readTable_table {header : List Text} {body : List (List Text)}
    (h : ∀ line ∈ tableLines (tableWidth (header :: body)) header body,
      ∀ c ∈ line, isLineBreak c = false) :
  readTable (rowsToMarkdownTable (header :: body)) =
    (header :: body).map fun row => readLine (tableLine (padRow (tableWidth (header :: body)) row))
  := by
  rw [readTable, splitLines_table h, tableLines]
  dsimp only
  rw [List.map_cons, List.map_map, List.map_cons]
  rfl

/-- A row is read as its cells if none of them has a pipe. -/
theorem readLine_padRow {width : ℕ} {row : List Text} (some : 0 < width) (h : row.length ≤ width)
    (pipes : ∀ cell ∈ row, unescapedPipes false (escapeCell cell) = 0) :
  readLine (tableLine (padRow width row)) = (padRow width row).map readCell
  := by
  apply readLine_tableLine
  · apply List.ne_nil_of_length_pos
    rwa [length_padRow h]
  · exact (forall_mem_padRow (P := (unescapedPipes false · = 0)) rfl).mpr pipes
  · exact (forall_mem_padRow (P := fun cell => strip cell = cell) rfl).mpr
      fun cell _ => strip_escapeCell cell

/-- The line below the header has its pipes. -/
theorem unescapedPipes_delimiter {width : ℕ} (some : 0 < width) :
  unescapedPipes false (tableLine (List.replicate width ['-', '-', '-'])) = width + 1
  := by
  have cells : List.replicate width ['-', '-', '-'] ≠ [] := by
    rw [Ne, List.replicate_eq_nil_iff]
    exact some.ne'
  have none : unescapedPipes false ['-', '-', '-'] = 0 := rfl
  rw [unescapedPipes_tableLine cells, List.length_replicate, List.map_replicate, none,
    List.sum_replicate_nat, Nat.mul_zero, Nat.add_zero]

/-- A table keeps the grid of its rows if and only if there is a column and each cell can be
shown. -/
theorem gridKept_iff (header : List Text) (body : List (List Text)) :
  GridKept (header :: body) ↔
    0 < tableWidth (header :: body) ∧ ∀ row ∈ header :: body, ∀ cell ∈ row, PlainCell cell
  := by
  constructor
  · rintro ⟨lines, pipes, words⟩
    have breaks := (length_splitLines_table_iff header body).mp lines
    rw [splitLines_table breaks, forall_mem_tableLines] at pipes
    have some : 0 < tableWidth (header :: body) := by
      by_contra none
      have zero : tableWidth (header :: body) = 0 := Nat.eq_zero_of_not_pos none
      have two := pipes.1
      rw [zero] at two
      exact absurd two (by decide)
    have cellPipes (row : List Text) (hrow : row ∈ header :: body) :=
      (unescapedPipes_padRow_iff some (length_le_tableWidth hrow)).mp (pipes.2 row hrow)
    rw [readTable_table breaks, List.map_map, List.map_inj_left] at words
    refine ⟨some, fun row hrow cell hcell => ⟨?_, ?_, ?_⟩⟩
    · have line := (forall_mem_tableLines.mp breaks).2 row hrow
      have cells := (forall_mem_padRow nofun).mp ((isLineBreak_tableLine_iff _).mp line)
      exact (isLineBreak_escapeCell_iff cell).mp (cells cell hcell)
    · exact (unescapedPipes_escapeCell_iff cell).mp (cellPipes row hrow cell hcell)
    · have read := words row hrow
      rw [Function.comp_apply,
        readLine_padRow some (length_le_tableWidth hrow) (cellPipes row hrow)] at read
      exact (splitWords_readCell_iff cell).mp (words_padRow_iff.mp read cell hcell)
  · rintro ⟨some, plain⟩
    have delimiter : ∀ c ∈ tableLine (List.replicate (tableWidth (header :: body)) ['-', '-', '-']),
        isLineBreak c = false := by
      apply (isLineBreak_tableLine_iff _).mpr
      intro cell hcell
      have plain : ['-', '-', '-'].all (!isLineBreak ·) := by decide
      rw [List.eq_of_mem_replicate hcell]
      simpa using plain
    have breaks := (forall_mem_tableLines (P := (∀ c ∈ ·, isLineBreak c = false))).mpr
      ⟨delimiter, fun row hrow =>
      (isLineBreak_tableLine_iff _).mpr ((forall_mem_padRow nofun).mpr fun cell hcell =>
        (isLineBreak_escapeCell_iff cell).mpr (plain row hrow cell hcell).breaks)⟩
    have cellPipes (row : List Text) (hrow : row ∈ header :: body) (cell : Text)
        (hcell : cell ∈ row) : unescapedPipes false (escapeCell cell) = 0 :=
      (unescapedPipes_escapeCell_iff cell).mpr (plain row hrow cell hcell).pipes
    constructor
    · exact (length_splitLines_table_iff header body).mpr breaks
    · rw [splitLines_table breaks, forall_mem_tableLines]
      refine ⟨unescapedPipes_delimiter some, fun row hrow => ?_⟩
      exact (unescapedPipes_padRow_iff some (length_le_tableWidth hrow)).mpr (cellPipes row hrow)
    · rw [readTable_table breaks, List.map_map, List.map_inj_left]
      intro row hrow
      rw [Function.comp_apply,
        readLine_padRow some (length_le_tableWidth hrow) (cellPipes row hrow)]
      apply words_padRow_iff.mpr
      intro cell hcell
      exact (splitWords_readCell_iff cell).mpr (plain row hrow cell hcell).marks

/-- A carriage return in a cell makes a line of its own. -/
theorem not_gridKept_carriageReturn :
  ¬ GridKept [["a\rb".toList]]
  := by
  intro h
  exact absurd h.lines (by decide)

end Lumina.Etl
