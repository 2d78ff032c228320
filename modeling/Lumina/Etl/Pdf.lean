import Lumina.Etl.Clean
import Lumina.Library.Dict
import Lumina.Library.Nesting
import Lumina.Library.Paging
import Mathlib.Data.List.Dedup
import Mathlib.Data.Prod.Lex

/-!
# The blocks of a PDF

`_build_blocks` puts the lines and the tables of a PDF into reading order and makes blocks of them:
each table and each heading is a block, and the other lines are gathered into paragraphs.  A heading
is told by the outline, or by its size if there is none.
-/

namespace Lumina.Etl.Pdf

open Knowledge (Block BlockType PyFloat)

/-! ### Lines and tables -/

/-- `_Line`; the floating point numbers by their values. -/
structure Line where
  page : ℕ
  text : String
  size : ℚ
  top : ℚ
  height : ℚ
deriving DecidableEq

/-- `_Table`. -/
structure Table where
  page : ℕ
  text : String
  top : ℚ
deriving DecidableEq

inductive Item where
  | line (l : Line)
  | table (t : Table)
deriving DecidableEq

/-- `(item.page, item.top)`. -/
def Item.key : Item → ℕ ×ₗ ℚ
  | .line l => toLex (l.page, l.top)
  | .table t => toLex (t.page, t.top)

def Item.page : Item → ℕ
  | .line l => l.page
  | .table t => t.page

/-- `_in_reading_order`. -/
def inReadingOrder (lines : List Line) (tables : List Table) : List Item :=
  Paging.sorted Item.key (lines.map .line ++ tables.map .table)

/-! ### Sizes -/

/-- The floating point number that a result is rounded to. -/
def rounded (q : ℚ) : PyFloat :=
  ((Binary64.nearest |q|).map fun m => .finite (if q < 0 then -m else m)).getD (.infinite (q < 0))

/-- `_HEADING_SIZE_RATIO`, the floating point number for 1.2. -/
def headingSizeRatio : ℚ :=
  5404319552844595 / 2 ^ 52

/-- `_PARAGRAPH_GAP_RATIO`, the floating point number for 1.6. -/
def paragraphGapRatio : ℚ :=
  7205759403792794 / 2 ^ 52

example : Binary64.nearest (6 / 5) = some headingSizeRatio := by decide +kernel

example : Binary64.nearest (8 / 5) = some paragraphGapRatio := by decide +kernel

/-- How many characters there are of each size. -/
def weights (lines : List Line) : List (ℚ × ℕ) :=
  lines.foldl
    (fun weight line =>
      Dict.set line.size ((weight.lookup line.size).getD 0 + line.text.length) weight) []

/-- The first of two members, unless the second has more characters, or as many of a smaller size. -/
def heavier (a b : ℚ × ℕ) : ℚ × ℕ :=
  if a.2 < b.2 ∨ a.2 = b.2 ∧ b.1 < a.1 then b else a

/-- `_body_size`. -/
def bodySize (lines : List Line) : ℚ :=
  match weights lines with
  | [] => 0
  | w :: rest => (rest.foldl heavier w).1

/-- The sizes of headings, the largest one first. -/
def headingSizes (lines : List Line) : List ℚ :=
  let threshold := rounded (bodySize lines * headingSizeRatio)
  ((lines.map (·.size)).filter fun size => !PyFloat.lt (.finite size) threshold).dedup.insertionSort
    (· ≥ ·)

/-- `_heading_levels_by_size`. -/
def headingLevelsBySize (lines : List Line) : List (ℚ × ℤ) :=
  (headingSizes lines).zipIdx 1 |>.map fun (size, level) => (size, (level : ℤ))

/-! ### Blocks -/

/-- `_normalize`. -/
def normalize (text : String) : Text :=
  [' '].intercalate (splitWords text.toList)

/-- The level of a line that is a heading: that of the outline unless it is zero, or that of the
size. -/
def headingLevel (outline : List (Text × ℤ)) (sizeLevels : List (ℚ × ℤ)) (line : Line) : Option ℤ :=
  match outline.lookup (normalize line.text) with
  | some level => if level = 0 then sizeLevels.lookup line.size else some level
  | none => sizeLevels.lookup line.size

/-- `_starts_new_paragraph`. -/
def startsNewParagraph (previous current : Line) : Bool :=
  if current.page ≠ previous.page then true
  else if current.size ≠ previous.size then true
  else
    let lineHeight := max (max previous.height current.height) 1
    PyFloat.lt (rounded (lineHeight * paragraphGapRatio)) (rounded (current.top - previous.top))

/-- The blocks so far, `HeadingStack`, and the lines of the paragraph that is being gathered. -/
structure Assembly where
  blocks : List Block := []
  headings : List (ℤ × String) := []
  buffer : List Line := []

namespace Assembly

/-- `headings.path()`. -/
def path (a : Assembly) : List String :=
  a.headings.map Prod.snd

/-- `"\n".join(...)`. -/
def joined (lines : List Line) : String :=
  "\n".intercalate (lines.map (·.text))

/-- One more block, with the next number. -/
def add (type : BlockType) (text : String) (page : Option ℕ) (path : List String) (a : Assembly) :
    Assembly :=
  { a with
    blocks := a.blocks ++
      [{ type := type
         text := text
         position := { order := a.blocks.length, page := page, headingPath := path } }] }

def flush (a : Assembly) : Assembly :=
  match a.buffer with
  | [] => a
  | first :: _ =>
      { a.add .paragraph (joined a.buffer) (some first.page) a.path with buffer := [] }

/-- The body of the loop. -/
def place (level : Line → Option ℤ) (a : Assembly) : Item → Assembly
  | .table t =>
      let a := a.flush
      a.add .table t.text (some t.page) a.path
  | .line l =>
      match level l with
      | some lev =>
          let a := a.flush
          let a := { a with headings := Nesting.push a.headings (lev, l.text) }
          a.add .heading l.text (some l.page) a.path.dropLast
      | none =>
          let a :=
            match a.buffer.getLast? with
            | none => a
            | some previous => if startsNewParagraph previous l then a.flush else a
          { a with buffer := a.buffer ++ [l] }

end Assembly

/-- The level of a line in `_build_blocks`. -/
def levelIn (lines : List Line) (outline : List (Text × ℤ)) : Line → Option ℤ :=
  headingLevel outline (if outline = [] then headingLevelsBySize lines else [])

def buildBlocks (lines : List Line) (tables : List Table) (outline : List (Text × ℤ)) :
    List Block :=
  ((inReadingOrder lines tables).foldl (Assembly.place (levelIn lines outline)) {}).flush.blocks

/-! ### Parts -/

/-- What becomes a block: a table, a heading with its level, or the lines of a paragraph. -/
inductive Part where
  | table (t : Table)
  | heading (l : Line) (level : ℤ)
  | paragraph (first : Line) (rest : List Line)

namespace Part

def items : Part → List Item
  | .table t => [.table t]
  | .heading l _ => [.line l]
  | .paragraph first rest => .line first :: rest.map .line

/-- The level and the text of a heading. -/
def heading? : Part → Option (ℤ × String)
  | .heading l level => some (level, l.text)
  | _ => none

/-- A heading has its level, and a paragraph no line that is a heading or on another page. -/
def Sound (level : Line → Option ℤ) : Part → Prop
  | .table _ => True
  | .heading l lev => level l = some lev
  | .paragraph first rest => level first = none ∧ ∀ l ∈ rest, level l = none ∧ l.page = first.page

/-- The texts of the headings that enclose a part: for a heading those that it does not close. -/
def path (before : List Part) : Part → List String
  | .heading l level =>
      ((Nesting.enclosing (before.filterMap heading? ++ [(level, l.text)])).map Prod.snd).dropLast
  | _ => (Nesting.enclosing (before.filterMap heading?)).map Prod.snd

/-- The block of a part after others. -/
def block (before : List Part) (p : Part) : Block :=
  let position page := { order := before.length, page := some page, headingPath := p.path before }
  match p with
  | .table t => { type := .table, text := t.text, position := position t.page }
  | .heading l _ => { type := .heading, text := l.text, position := position l.page }
  | .paragraph first rest =>
      { type := .paragraph, text := Assembly.joined (first :: rest), position := position first.page }

/-- The blocks of parts after others. -/
def blocks : List Part → List Part → List Block :=
  Nesting.mapAfter fun before p => p.block before

/-- The blocks are numbered in their order. -/
theorem order_blocks (before parts : List Part) :
  (blocks before parts).map (·.position.order) = List.range' before.length parts.length
  := by
  apply Nesting.map_mapAfter_range'
  intro before p
  cases p
  all_goals rfl

end Part

/-! ### The loop -/

section

variable {level : Line → Option ℤ}

/-- The items so far are those of some parts and the lines of the paragraph. -/
structure Gathered (level : Line → Option ℤ) (seen : List Item) (parts : List Part)
    (a : Assembly) : Prop where
  items : seen = parts.flatMap Part.items ++ a.buffer.map .line
  sound : ∀ p ∈ parts, p.Sound level
  blocks : a.blocks = Part.blocks [] parts
  headings : a.headings = Nesting.enclosing (parts.filterMap Part.heading?)
  buffer : ∀ first rest, a.buffer = first :: rest → (Part.paragraph first rest).Sound level

namespace Gathered

variable {seen : List Item} {parts : List Part} {a : Assembly}

/-- One more part, when no paragraph is being gathered. -/
theorem concat (h : Gathered level seen parts a) (empty : a.buffer = []) {p : Part}
    (sound : p.Sound level) {b : Assembly} (buffer : b.buffer = [])
    (blocks : b.blocks = a.blocks ++ [p.block parts])
    (headings : b.headings = Nesting.enclosing ((parts ++ [p]).filterMap Part.heading?)) :
  Gathered level (seen ++ p.items) (parts ++ [p]) b
  where
  items := by
    rw [h.items, empty, buffer, List.flatMap_append, List.flatMap_singleton]
    simp only [List.map_nil, List.append_nil]
  sound q hq := by
    rcases List.mem_append.mp hq with hq | hq
    · exact h.sound q hq
    · rw [List.mem_singleton.mp hq]
      exact sound
  blocks := by
    rw [blocks, h.blocks, Part.blocks, Nesting.mapAfter_concat]
    rfl
  headings := headings
  buffer first rest same := by
    rw [buffer] at same
    cases same

theorem length_eq (h : Gathered level seen parts a) :
  a.blocks.length = parts.length
  := by
  rw [h.blocks, Part.blocks, Nesting.length_mapAfter]

/-- A paragraph is a part when it is complete. -/
theorem flush (h : Gathered level seen parts a) :
  ∃ parts', Gathered level seen parts' a.flush ∧ a.flush.buffer = []
  := by
  cases buffer : a.buffer with
  | nil =>
    have same : a.flush = a := by
      rw [Assembly.flush, buffer]
    rw [same]
    exact ⟨parts, h, buffer⟩
  | cons first rest =>
    have closed : a.flush =
        { a.add .paragraph (Assembly.joined (first :: rest)) (some first.page) a.path with
          buffer := [] } := by
      rw [Assembly.flush, buffer]
    rw [closed]
    refine ⟨parts ++ [.paragraph first rest], ⟨?_, ?_, ?_, ?_, ?_⟩, rfl⟩
    · rw [h.items, buffer, List.flatMap_append, List.flatMap_singleton]
      exact (List.append_nil _).symm
    · intro q hq
      rcases List.mem_append.mp hq with hq | hq
      · exact h.sound q hq
      · rw [List.mem_singleton.mp hq]
        exact h.buffer first rest buffer
    · rw [Part.blocks, Nesting.mapAfter_concat, ← Part.blocks, ← h.blocks, List.nil_append, Part.block,
        ← h.length_eq]
      change a.blocks ++ [_] = _
      rw [Assembly.path, h.headings]
      rfl
    · rw [List.filterMap_append]
      exact h.headings.trans (congrArg _ (List.append_nil _).symm)
    · exact fun _ _ same => nomatch same

/-- One more line of the paragraph. -/
theorem gather (h : Gathered level seen parts a) {l : Line} (plain : level l = none)
    (page : ∀ first rest, a.buffer = first :: rest → l.page = first.page) :
  Gathered level (seen ++ [.line l]) parts { a with buffer := a.buffer ++ [l] }
  where
  items := by
    rw [h.items, List.map_append, List.append_assoc]
    rfl
  sound := h.sound
  blocks := h.blocks
  headings := h.headings
  buffer first rest same := by
    cases buffer : a.buffer with
    | nil =>
      rw [buffer] at same
      cases same
      exact ⟨plain, fun _ h => nomatch h⟩
    | cons f r =>
      rw [buffer] at same
      cases same
      obtain ⟨plain', others⟩ := h.buffer _ _ buffer
      refine ⟨plain', fun k hk => ?_⟩
      rcases List.mem_append.mp hk with hk | hk
      · exact others k hk
      · rw [List.mem_singleton.mp hk]
        exact ⟨plain, page _ _ buffer⟩

/-- A line that does not start a paragraph is on the page of the paragraph. -/
theorem page_eq (h : Gathered level seen parts a) {previous l : Line}
    (last : a.buffer.getLast? = some previous) (joins : startsNewParagraph previous l = false)
    {first : Line} {rest : List Line} (buffer : a.buffer = first :: rest) :
  l.page = first.page
  := by
  have same : l.page = previous.page := by
    by_contra differ
    rw [startsNewParagraph, if_pos differ] at joins
    cases joins
  rw [same]
  rw [buffer] at last
  rcases List.mem_cons.mp (List.mem_of_getLast? last) with rfl | mem
  · rfl
  · exact ((h.buffer first rest buffer).2 previous mem).2

/-- One more item. -/
theorem place (h : Gathered level seen parts a) (item : Item) :
  ∃ parts', Gathered level (seen ++ [item]) parts' (a.place level item)
  := by
  obtain ⟨flushed, hflushed, empty⟩ := h.flush
  cases item with
  | table t =>
    refine ⟨_, hflushed.concat empty (p := .table t) trivial empty ?_ ?_⟩
    · have path : (Part.table t).path flushed = a.flush.path := by
        rw [Assembly.path, hflushed.headings]
        rfl
      rw [Part.block, ← hflushed.length_eq, path]
      rfl
    · rw [List.filterMap_append]
      exact hflushed.headings.trans (congrArg _ (List.append_nil _).symm)
  | line l =>
    unfold Assembly.place
    dsimp only
    cases hl : level l with
    | some lev =>
      have pushed : Nesting.push a.flush.headings (lev, l.text) =
          Nesting.enclosing (flushed.filterMap Part.heading? ++ [(lev, l.text)]) := by
        rw [hflushed.headings, Nesting.push_enclosing]
      refine ⟨_, hflushed.concat empty (p := .heading l lev) hl empty ?_ ?_⟩
      · rw [Part.block, ← hflushed.length_eq, Part.path, ← pushed]
        rfl
      · rw [List.filterMap_append]
        exact pushed
    | none =>
      dsimp only
      cases last : a.buffer.getLast? with
      | none =>
        refine ⟨parts, h.gather hl fun first rest buffer => ?_⟩
        rw [List.getLast?_eq_none_iff.mp last] at buffer
        cases buffer
      | some previous =>
        dsimp only
        split_ifs with starts
        · refine ⟨flushed, hflushed.gather hl fun first rest buffer => ?_⟩
          rw [empty] at buffer
          cases buffer
        · rw [Bool.not_eq_true] at starts
          exact ⟨parts, h.gather hl fun first rest buffer => h.page_eq last starts buffer⟩

/-- All items. -/
theorem foldl (items : List Item) (h : Gathered level seen parts a) :
  ∃ parts', Gathered level (seen ++ items) parts' (items.foldl (Assembly.place level) a)
  := by
  induction items generalizing seen parts a with
  | nil => exact ⟨parts, by rwa [List.append_nil]⟩
  | cons item items ih =>
    obtain ⟨parts', h'⟩ := h.place item
    obtain ⟨parts'', h''⟩ := ih h'
    rw [List.append_assoc] at h''
    exact ⟨parts'', h''⟩

end Gathered

/-- The items are those of some parts, and the blocks are those of the parts. -/
theorem exists_parts (items : List Item) :
  ∃ parts, parts.flatMap Part.items = items ∧ (∀ p ∈ parts, p.Sound level) ∧
    (items.foldl (Assembly.place level) {}).flush.blocks = Part.blocks [] parts
  := by
  have start : Gathered level [] [] {} :=
    ⟨rfl, (fun _ h => nomatch h), rfl, rfl, fun _ _ same => nomatch same⟩
  obtain ⟨parts, h⟩ := start.foldl items
  obtain ⟨parts', h', empty⟩ := h.flush
  refine ⟨parts', ?_, h'.sound, h'.blocks⟩
  rw [← List.nil_append items, h'.items, empty]
  exact (List.append_nil _).symm

end

/-! ### Headings -/

theorem lookup_headingLevelsBySize_ne_none (lines : List Line) (size : ℚ) :
  (headingLevelsBySize lines).lookup size ≠ none ↔ size ∈ headingSizes lines
  := by
  have levels (sizes : List ℚ) (n : ℕ) :
      ((sizes.zipIdx n).map fun (size, level) => (size, (level : ℤ))).lookup size ≠ none ↔
        size ∈ sizes := by
    induction sizes generalizing n with
    | nil => exact iff_of_false (fun h => h rfl) List.not_mem_nil
    | cons s sizes ih =>
      rw [List.zipIdx_cons, List.map_cons, List.lookup_cons, List.mem_cons]
      by_cases same : size = s
      · rw [same, beq_self_eq_true]
        exact iff_of_true (Option.some_ne_none _) (.inl rfl)
      · rw [beq_false_of_ne same]
        exact (ih (n + 1)).trans (or_iff_right same).symm
  exact levels (headingSizes lines) 1

/-- A line is a heading by the outline, or by its size if there is none. -/
theorem levelIn_ne_none (lines : List Line) (outline : List (Text × ℤ)) (l : Line) :
  levelIn lines outline l ≠ none ↔
    (outline ≠ [] ∧ ∃ level, outline.lookup (normalize l.text) = some level ∧ level ≠ 0) ∨
      outline = [] ∧ l.size ∈ headingSizes lines
  := by
  unfold levelIn
  by_cases none : outline = []
  · subst none
    rw [if_pos rfl]
    change (headingLevelsBySize lines).lookup l.size ≠ .none ↔ _
    rw [lookup_headingLevelsBySize_ne_none]
    simp only [ne_eq, not_true_eq_false, false_and, true_and, false_or]
  · rw [if_neg none, headingLevel]
    cases outline.lookup (normalize l.text) with
    | none => simp [none]
    | some level =>
      by_cases zero : level = 0
      · simp [none, zero]
      · simp [none, zero]

/-! ### The size of the text -/

/-- How many characters are of a size. -/
def charactersOf (lines : List Line) (size : ℚ) : ℕ :=
  ((lines.filter (·.size = size)).map (·.text.length)).sum

theorem weights_eq (lines : List Line) :
  weights lines = (lines.map (·.size)).eraseDups.map fun size => (size, charactersOf lines size)
  := by
  have sum (rows : List Line) :
      rows.foldl (fun n line => n + line.text.length) 0 = (rows.map (·.text.length)).sum := by
    rw [List.sum_eq_foldl, List.foldl_map]
  exact (Dict.foldl_set (·.size) (fun n line => n + line.text.length) 0 lines).trans
    (List.map_congr_left fun size _ => by rw [sum])

/-- A member that another one does not outweigh. -/
def Outweighs (a b : ℚ × ℕ) : Prop :=
  b.2 < a.2 ∨ b.2 = a.2 ∧ a.1 ≤ b.1

theorem Outweighs.trans {a b c : ℚ × ℕ} (h : Outweighs a b) (h' : Outweighs b c) :
  Outweighs a c
  := by
  rcases h with less | ⟨same, le⟩
  · rcases h' with less' | ⟨same', -⟩
    · exact .inl (less'.trans less)
    · exact .inl (same' ▸ less)
  · rcases h' with less' | ⟨same', le'⟩
    · exact .inl (same ▸ less')
    · exact .inr ⟨same'.trans same, le.trans le'⟩

theorem outweighs_heavier (a b : ℚ × ℕ) :
  Outweighs (heavier a b) a ∧ Outweighs (heavier a b) b
  := by
  unfold heavier
  split_ifs with better
  · refine ⟨?_, .inr ⟨rfl, le_refl _⟩⟩
    exact better.imp_right fun ⟨same, less⟩ => ⟨same, less.le⟩
  · refine ⟨.inr ⟨rfl, le_refl _⟩, ?_⟩
    rw [not_or, not_and, not_lt, not_lt] at better
    obtain ⟨le, smaller⟩ := better
    rcases le.lt_or_eq with less | same
    · exact .inl less
    · exact .inr ⟨same, smaller same.symm⟩

theorem foldl_heavier (rest : List (ℚ × ℕ)) (w : ℚ × ℕ) :
  rest.foldl heavier w ∈ w :: rest ∧ ∀ x ∈ w :: rest, Outweighs (rest.foldl heavier w) x
  := by
  induction rest generalizing w with
  | nil => exact ⟨List.mem_singleton.mpr rfl, fun x hx => by
      rw [List.mem_singleton.mp hx]
      exact .inr ⟨rfl, le_refl _⟩⟩
  | cons b rest ih =>
    obtain ⟨mem, least⟩ := ih (heavier w b)
    obtain ⟨left, right⟩ := outweighs_heavier w b
    have first := least _ List.mem_cons_self
    rw [List.foldl_cons]
    refine ⟨?_, fun x hx => ?_⟩
    · rcases List.mem_cons.mp mem with same | mem
      · rw [same]
        unfold heavier
        split_ifs
        · exact List.mem_cons_of_mem w List.mem_cons_self
        · exact List.mem_cons_self
      · exact List.mem_cons_of_mem w (List.mem_cons_of_mem b mem)
    · rcases List.mem_cons.mp hx with rfl | hx
      · exact first.trans left
      · rcases List.mem_cons.mp hx with rfl | hx
        · exact first.trans right
        · exact least x (List.mem_cons_of_mem _ hx)

/-- The size that most characters have, and the smallest one if there are several. -/
theorem bodySize_spec {lines : List Line} (some : lines ≠ []) :
  (∃ l ∈ lines, l.size = bodySize lines) ∧
    ∀ size, charactersOf lines size < charactersOf lines (bodySize lines) ∨
      charactersOf lines size = charactersOf lines (bodySize lines) ∧
        ((∃ l ∈ lines, l.size = size) → bodySize lines ≤ size)
  := by
  have mem (x : ℚ × ℕ) : x ∈ weights lines ↔
      (∃ l ∈ lines, l.size = x.1) ∧ charactersOf lines x.1 = x.2 := by
    rw [weights_eq, List.mem_map]
    constructor
    · rintro ⟨size, hsize, rfl⟩
      exact ⟨List.mem_map.mp (List.mem_eraseDups.mp hsize), rfl⟩
    · rintro ⟨hsize, same⟩
      exact ⟨x.1, List.mem_eraseDups.mpr (List.mem_map.mpr hsize), Prod.ext rfl same⟩
  cases all : weights lines with
  | nil =>
    obtain ⟨l, hl⟩ := List.exists_mem_of_ne_nil lines some
    have first := (mem (l.size, charactersOf lines l.size)).mpr ⟨⟨l, hl, rfl⟩, rfl⟩
    rw [all] at first
    cases first
  | cons w rest =>
    have body : bodySize lines = (rest.foldl heavier w).1 := by
      rw [bodySize, all]
    obtain ⟨chosen, heaviest⟩ := foldl_heavier rest w
    rw [← all] at chosen heaviest
    obtain ⟨there, count⟩ := (mem _).mp chosen
    rw [body, count]
    refine ⟨there, fun size => ?_⟩
    by_cases used : ∃ l ∈ lines, l.size = size
    · exact (heaviest _ ((mem (size, charactersOf lines size)).mpr ⟨used, rfl⟩)).imp_right
        fun ⟨same, le⟩ => ⟨same, fun _ => le⟩
    · have none : charactersOf lines size = 0 := by
        rw [charactersOf, List.filter_eq_nil_iff.mpr fun l hl same =>
          used ⟨l, hl, of_decide_eq_true same⟩]
        rfl
      rw [none]
      exact (Nat.eq_zero_or_pos _).symm.imp_right fun zero => ⟨zero.symm, fun h => absurd h used⟩

/-- The smallest size that is enlarged by the ratio for headings. -/
def leastSize : ℚ :=
  3 / 2 ^ 1074

/-- The threshold of headings is above the size of the text. -/
theorem lt_rounded {size : ℚ} (h : leastSize ≤ size) :
  PyFloat.lt (.finite size) (rounded (size * headingSizeRatio)) = true
  := by
  have tiny : (0 : ℚ) < 1 / 2 ^ 1074 := by positivity
  have three : leastSize = 3 * (1 / 2 ^ 1074) := by
    rw [leastSize, mul_one_div]
  generalize unit : (1 / 2 ^ 1074 : ℚ) = u at tiny three
  have positive : 0 < size := by linarith
  have ratio : (1.1999 : ℚ) < headingSizeRatio ∧ headingSizeRatio < 1.2 := by
    constructor
    all_goals norm_num [headingSizeRatio]
  have product : 0 < size * headingSizeRatio := by
    have := ratio.1
    positivity
  have low : size * 1.1999 ≤ size * headingSizeRatio :=
    mul_le_mul_of_nonneg_left ratio.1.le positive.le
  have high : size * headingSizeRatio ≤ size * 1.2 :=
    mul_le_mul_of_nonneg_left ratio.2.le positive.le
  unfold rounded
  rw [abs_of_pos product, decide_eq_false (not_lt_of_gt product)]
  simp only [if_neg (not_lt_of_gt product)]
  cases near : Binary64.nearest (size * headingSizeRatio) with
  | none => rfl
  | some r =>
    have bound := Binary64.sub_le_nearest near
    have last := Binary64.zpow_lastBit_le product
    rw [unit] at last
    apply decide_eq_true
    rcases le_max_iff.mp last with large | small
    · have : size * headingSizeRatio / 2 ^ 52 ≤ size / 1000 := by
        rw [div_le_div_iff₀ (by positivity) (by positivity)]
        norm_num
        linarith
      linarith
    · linarith

/-- No heading is of the size of the text, or of a smaller one. -/
theorem bodySize_lt {lines : List Line} (sizes : ∀ l ∈ lines, leastSize ≤ l.size) {size : ℚ}
    (h : size ∈ headingSizes lines) :
  bodySize lines < size
  := by
  rw [headingSizes, List.mem_insertionSort, List.mem_dedup, List.mem_filter] at h
  obtain ⟨used, above⟩ := h
  obtain ⟨l, hl, -⟩ := List.mem_map.mp used
  obtain ⟨⟨k, hk, same⟩, -⟩ := bodySize_spec (List.ne_nil_of_mem hl)
  have threshold := lt_rounded (same ▸ sizes k hk)
  rw [Bool.not_eq_true'] at above
  by_contra le
  rw [not_lt] at le
  generalize rounded (bodySize lines * headingSizeRatio) = bound at threshold above
  cases bound with
  | finite r =>
    have less : bodySize lines < r := of_decide_eq_true threshold
    exact absurd (decide_eq_true (le.trans_lt less)) (Bool.eq_false_iff.mp above)
  | infinite negative =>
    cases negative with
    | true => cases threshold
    | false => cases above
  | nan => cases threshold

/-! ### Reading order -/

/-- The items in the order of pages and of what is on top, and in their own order where these are the
same. -/
structure InOrder (items ordered : List Item) : Prop where
  perm : ordered.Perm items
  sorted : ordered.Pairwise fun a b => a.key ≤ b.key
  stable : ∀ a b, [a, b].Sublist items → a.key ≤ b.key → [a, b].Sublist ordered

theorem inOrder (lines : List Line) (tables : List Table) :
  InOrder (lines.map .line ++ tables.map .table) (inReadingOrder lines tables)
  := by
  have trans (a b c : Item) (hab : decide (a.key ≤ b.key) = true)
      (hbc : decide (b.key ≤ c.key) = true) : decide (a.key ≤ c.key) = true :=
    decide_eq_true ((of_decide_eq_true hab).trans (of_decide_eq_true hbc))
  have total (a b : Item) : (decide (a.key ≤ b.key) || decide (b.key ≤ a.key)) = true := by
    rw [Bool.or_eq_true, decide_eq_true_eq, decide_eq_true_eq]
    exact le_total a.key b.key
  refine ⟨Paging.sorted_perm _ _, ?_, fun a b sublist le => ?_⟩
  · exact (List.pairwise_mergeSort trans total _).imp of_decide_eq_true
  · exact List.pair_sublist_mergeSort trans total (decide_eq_true le) sublist

/-! ### All blocks -/

/-- The blocks are those of some parts, which have the items between them in reading order. -/
structure Assembled (lines : List Line) (tables : List Table) (level : Line → Option ℤ)
    (made : List Block) (parts : List Part) : Prop where
  items : InOrder (lines.map .line ++ tables.map .table) (parts.flatMap Part.items)
  blocks : made = Part.blocks [] parts
  numbered : made.map (·.position.order) = List.range made.length
  sound : ∀ p ∈ parts, p.Sound level

/-- Every line and every table is in one block, in reading order; a line is a heading if it is in the
outline with a level other than zero, or without an outline by its size, which is above that of the
most characters; and the paths are those of the enclosing headings. -/
theorem buildBlocks_assembled (lines : List Line) (tables : List Table) (outline : List (Text × ℤ)) :
  (∃ parts, Assembled lines tables (levelIn lines outline) (buildBlocks lines tables outline)
    parts) ∧
  (∀ l, levelIn lines outline l ≠ none ↔
    (outline ≠ [] ∧ ∃ level, outline.lookup (normalize l.text) = some level ∧ level ≠ 0) ∨
      outline = [] ∧ l.size ∈ headingSizes lines) ∧
  (lines ≠ [] → (∃ l ∈ lines, l.size = bodySize lines) ∧
    ∀ size, charactersOf lines size < charactersOf lines (bodySize lines) ∨
      charactersOf lines size = charactersOf lines (bodySize lines) ∧
        ((∃ l ∈ lines, l.size = size) → bodySize lines ≤ size)) ∧
  ((∀ l ∈ lines, leastSize ≤ l.size) → ∀ size ∈ headingSizes lines, bodySize lines < size)
  := by
  refine ⟨?_, levelIn_ne_none lines outline, bodySize_spec, fun sizes _ => bodySize_lt sizes⟩
  obtain ⟨parts, items, sound, blocks⟩ := @exists_parts (levelIn lines outline)
    (inReadingOrder lines tables)
  refine ⟨parts, items ▸ inOrder lines tables, blocks, ?_, sound⟩
  rw [show buildBlocks lines tables outline = _ from blocks, Part.order_blocks, Part.blocks,
    Nesting.length_mapAfter, List.range_eq_range']
  rfl

/-- A line of one size. -/
def sampleLine (text : String) (size : ℚ) : Line where
  page := 1
  text := text
  size := size
  top := 0
  height := 1

/-- A heading and a line below it. -/
theorem buildBlocks_assembled_sample :
  headingSizes [sampleLine "A" 20, sampleLine "body text" 10] = [20] ∧
    bodySize [sampleLine "A" 20, sampleLine "body text" 10] < 20 ∧
    ∃ l ∈ [sampleLine "A" 20, sampleLine "body text" 10],
      l.size = bodySize [sampleLine "A" 20, sampleLine "body text" 10]
  := by
  have sizes : headingSizes [sampleLine "A" 20, sampleLine "body text" 10] = [20] := by
    decide +kernel
  have positive : ∀ l ∈ [sampleLine "A" 20, sampleLine "body text" 10], leastSize ≤ l.size := by
    decide +kernel
  obtain ⟨-, -, body, above⟩ :=
    buildBlocks_assembled [sampleLine "A" 20, sampleLine "body text" 10] [] []
  refine ⟨sizes, above positive 20 ?_, (body (List.cons_ne_nil _ _)).1⟩
  rw [sizes]
  exact List.mem_singleton.mpr rfl

/-- A line is a heading by a negative level of the outline; and the smallest positive size is that of
a heading when all characters have it. -/
theorem negative_level_and_tiny_size :
  (buildBlocks [sampleLine "A" 10] [] [(['A'], -1)]).map (·.type) = [.heading] ∧
    0 < (1 / 2 ^ 1074 : ℚ) ∧ bodySize [sampleLine "A" (1 / 2 ^ 1074)] = 1 / 2 ^ 1074 ∧
    1 / 2 ^ 1074 ∈ headingSizes [sampleLine "A" (1 / 2 ^ 1074)]
  := by
  refine ⟨?_, by positivity, by decide +kernel, by decide +kernel⟩
  have order : inReadingOrder [sampleLine "A" 10] [] = [.line (sampleLine "A" 10)] :=
    List.mergeSort_singleton _
  rw [buildBlocks, order]
  decide +kernel

end Lumina.Etl.Pdf
