import Lumina.Etl.Normalize
import Lumina.Knowledge.MediaTypes
import Lumina.Library.Lines
import Lumina.Library.Nesting
import Lumina.Library.Trimming
import Mathlib.Tactic.IntervalCases

/-!
# Loading Markdown

markdown-it finds the blocks of a text, and the loader cuts them out of it by the lines that the parser
reports.  The parser counts the lines of the text with its newlines normalised, and the loader splits
the text at `\n` alone.  The text of a heading is found again by stripping its marks.
-/

namespace Lumina.Etl.MarkdownLoader

open Knowledge (Block BlockType DomainError)
open Lines (Paired universalNewlines)

/-! ### The loader -/

/-- A token of markdown-it, as far as it is read. -/
structure Token where
  type : String
  tag : Text := []
  level : ℤ := 0
  map : Option (ℕ × ℕ) := none
  content : Text := []
deriving DecidableEq

/-- `_BLOCK_TYPES`. -/
def blockTypes : List (String × BlockType) :=
  [("heading_open", .heading), ("table_open", .table), ("fence", .code), ("code_block", .code)]

/-- `_IGNORED`. -/
def ignored : List String := ["hr", "front_matter"]

/-- A token that opens a block. -/
def Token.IsTop (t : Token) : Prop :=
  t.level = 0 ∧ ¬ "_close".toList <:+ t.type.toList ∧ t.type ∉ ignored

instance (t : Token) : Decidable t.IsTop :=
  inferInstanceAs (Decidable (_ ∧ _ ∧ _))

def Token.blockType (t : Token) : BlockType :=
  (blockTypes.lookup t.type).getD .paragraph

/-- `"\n".join(...)`. -/
def joined (lines : List Text) : Text :=
  ['\n'].intercalate lines

/-- The lines with the numbers of a token. -/
def slice (lines : List Text) (range : ℕ × ℕ) : List Text :=
  (lines.take range.2).drop range.1

/-- `_source`. -/
def source (lines : List Text) (t : Token) : Text :=
  match t.map with
  | none => strip t.content
  | some range => strip (joined (slice lines range))

/-- The last line of a setext heading, without the space around it. -/
def isUnderline (line : Text) : Bool :=
  !line.isEmpty && line.all fun c => c = '=' || c = '-'

/-- `lstrip("#").strip().rstrip("#").strip()`. -/
def withoutMarks (line : Text) : Text :=
  strip ((strip (line.dropWhile (· = '#'))).rdropWhile (· = '#'))

/-- `_heading_text`. -/
def headingText (source : Text) : Text :=
  match source.splitOn '\n' with
  | [] => []
  | first :: rest =>
      if rest.getLast?.any fun last => isUnderline (strip last) then strip first
      else withoutMarks first

/-- `int(token.tag[1:])` if these are digits; tags are ASCII. -/
def tagLevel (tag : Text) : ℕ :=
  let digits := tag.tail
  if digits ≠ [] ∧ digits.all Char.isDigit then
    digits.foldl (fun n c => 10 * n + (c.toNat - '0'.toNat)) 0
  else 1

/-- The blocks so far, and `HeadingStack`. -/
structure Assembly where
  blocks : List Block := []
  headings : List (ℕ × Text) := []

namespace Assembly

/-- `headings.path()`. -/
def path (a : Assembly) : List String :=
  a.headings.map fun entry => String.ofList entry.2

/-- One more block, with the next number. -/
def add (type : BlockType) (text : Text) (path : List String) (a : Assembly) : Assembly :=
  { a with
    blocks := a.blocks ++
      [{ type := type
         text := String.ofList text
         position := { order := a.blocks.length, headingPath := path } }] }

/-- The body of the loop. -/
def place (lines : List Text) (a : Assembly) (t : Token) : Assembly :=
  if ¬ t.IsTop then a
  else
    let body := source lines t
    if body = [] then a
    else
      let body := if t.blockType = .code then t.content.rdropWhile (· = '\n') else body
      if t.blockType = .heading then
        let title := headingText body
        let a := { a with headings := Nesting.push a.headings (tagLevel t.tag, title) }
        a.add .heading title a.path.dropLast
      else a.add t.blockType body a.path

end Assembly

/-- The blocks of a text, from its tokens. -/
def blocksOf (text : Text) (tokens : List Token) : List Block :=
  (tokens.foldl (Assembly.place (text.splitOn '\n')) {}).blocks

def extractionFailed (message cause : String) : DomainError where
  cls := .extractionFailed
  message := message
  cause := some cause

/-- The blocks and the metadata of a document. -/
abbrev LoadResult := List Block × List (String × Json.Value)

/-- `load`; `parse` is `_PARSER.parse`, with the name of the class of an exception. -/
def load (parse : Text → Except String (List Token)) (content : List UInt8) :
    Except DomainError LoadResult :=
  match Knowledge.decodeText content with
  | none => .error (extractionFailed "Markdown 解碼失敗（非 UTF-8）" "UnicodeDecodeError")
  | some text =>
      let text := text.map Char.ofNat
      match parse text with
      | .error name => .error (extractionFailed "Markdown 解析失敗" name)
      | .ok tokens =>
          let blocks := blocksOf text tokens
          .ok (blocks, [("table_count", .int (blocks.countP (·.type = .table)))])

/-! ### Headings -/

/-- CommonMark trims spaces and tabs only. -/
def trim (text : Text) : Text :=
  (text.dropWhile isBlank).rdropWhile isBlank

/-- Whether the `#` at the end of a text are a closing sequence: nothing comes before them, or a space
or a tab. -/
def Closes (text : Text) : Prop :=
  text.getLast? = some '#' ∧ (text.rdropWhile (· = '#')).getLast?.all isBlank

instance (text : Text) : Decidable (Closes text) :=
  inferInstanceAs (Decidable (_ ∧ _))

/-- What follows the opening sequence of an ATX heading. -/
def afterMarks (line : Text) : Text :=
  (line.dropWhile (· = ' ')).dropWhile (· = '#')

/-- The content of a heading with these lines. -/
def headingContent : List Text → Text
  | [line] =>
      let rest := trim (afterMarks line)
      if Closes rest then rest.rdropWhile (· = '#') else rest
  | lines => joined lines.dropLast

/-- The level of a heading with these lines. -/
def headingLevel : List Text → ℕ
  | [line] => ((line.dropWhile (· = ' ')).takeWhile (· = '#')).length
  | lines => if '=' ∈ lines.getLast?.getD [] then 1 else 2

/-- An ATX heading: up to three spaces, up to six `#`, and nothing else or a space or a tab and the
rest. -/
def IsAtx (lines : List Text) : Prop :=
  ∃ (indent level : ℕ) (rest : Text), lines = [.replicate indent ' ' ++ (.replicate level '#' ++ rest)] ∧
    indent ≤ 3 ∧ 1 ≤ level ∧ level ≤ 6 ∧ rest.head?.all isBlank

/-- A setext heading: lines, and a line of `=` or of `-`. -/
def IsSetext (lines : List Text) : Prop :=
  ∃ (content : List Text) (indent length : ℕ) (mark : Char) (trail : Text),
    lines = content ++ [.replicate indent ' ' ++ (.replicate length mark ++ trail)] ∧
      content ≠ [] ∧ indent ≤ 3 ∧ 1 ≤ length ∧ (mark = '=' ∨ mark = '-') ∧ trail.all isBlank

/-- Whether the loader finds the content of a heading: the `#` at the end of an ATX heading are a
closing sequence if there are any, and a setext heading has one line. -/
def Kept : List Text → Prop
  | [line] =>
      (strip (afterMarks line)).getLast? = some '#' → Closes (trim (afterMarks line))
  | lines => strip (joined lines.dropLast) ≠ [] ∧ '\n' ∉ strip (joined lines.dropLast)

instance : (lines : List Text) → Decidable (Kept lines)
  | [] => inferInstanceAs (Decidable (_ ∧ _))
  | [_] => inferInstanceAs (Decidable (_ → _))
  | _ :: _ :: _ => inferInstanceAs (Decidable (_ ∧ _))

/-! ### The blocks that are expected -/

/-- What becomes a block; a heading has a level. -/
@[ext]
structure Part where
  type : BlockType
  text : Text
  level : Option ℕ

namespace Part

/-- The level and the text of a heading. -/
def heading? (p : Part) : Option (ℕ × Text) :=
  p.level.map fun level => (level, p.text)

/-- The texts of the headings that enclose a part: for a heading those that it does not close. -/
def path (before : List Part) (p : Part) : List Text :=
  match p.heading? with
  | some h => ((Nesting.enclosing (before.filterMap heading? ++ [h])).map Prod.snd).dropLast
  | none => (Nesting.enclosing (before.filterMap heading?)).map Prod.snd

/-- The block of a part after others. -/
def block (before : List Part) (p : Part) : Block where
  type := p.type
  text := String.ofList p.text
  position := { order := before.length, headingPath := (p.path before).map String.ofList }

/-- The blocks of parts after others. -/
def blocks : List Part → List Part → List Block :=
  Nesting.mapAfter fun before p => p.block before

end Part

/-- The lines as the parser counts them. -/
def normalLines (text : Text) : List Text :=
  (universalNewlines text).splitOn '\n'

/-- The lines that a token covers. -/
def Token.covered (text : Text) (t : Token) : List Text :=
  (t.map.map (slice (normalLines text))).getD []

/-- A top-level token other than a thematic break. -/
def Token.IsBlock (t : Token) : Prop :=
  t.level = 0 ∧ ¬ "_close".toList <:+ t.type.toList ∧ t.type ≠ "hr"

instance (t : Token) : Decidable t.IsBlock :=
  inferInstanceAs (Decidable (_ ∧ _ ∧ _))

/-- What a token stands for, from the lines that it covers. -/
def Token.expected (text : Text) (t : Token) : Part where
  type := t.blockType
  text :=
    match t.blockType with
    | .code => t.content.rdropWhile (· = '\n')
    | .heading => strip (headingContent (t.covered text))
    | _ => strip (joined (t.covered text))
  level := if t.blockType = .heading then some (headingLevel (t.covered text)) else none

/-- A block with its newlines normalised. -/
def withNewlines (b : Block) : Block :=
  let normal (s : String) := String.ofList (universalNewlines s.toList)
  { b with
    text := normal b.text
    position := { b.position with headingPath := b.position.headingPath.map normal } }

/-- There is one block for each token, in their order, with its lines up to trimming and the headings
that enclose it. -/
def Lossless (text : Text) (tokens : List Token) (blocks : List Block) : Prop :=
  blocks.map withNewlines =
    Part.blocks [] ((tokens.filter (·.IsBlock)).map (·.expected text))

/-- What the parser promises: the lines of each token are in the text, headings are as CommonMark
writes them, and the content has normalised newlines.  There is no plugin for front matter. -/
structure Reported (text : Text) (tokens : List Token) : Prop where
  frontMatter : ∀ t ∈ tokens, t.type ≠ "front_matter"
  covered : ∀ t ∈ tokens, t.IsBlock →
    ∃ start stop, t.map = some (start, stop) ∧ start < stop ∧ stop ≤ (normalLines text).length
  heading : ∀ t ∈ tokens, t.IsBlock → t.type = "heading_open" →
    (IsAtx (t.covered text) ∨ IsSetext (t.covered text)) ∧
      t.tag = 'h' :: Nat.toDigits 10 (headingLevel (t.covered text))
  content : ∀ t ∈ tokens, '\r' ∉ t.content

/-! ### The loop -/

/-- A token that becomes a block. -/
def Token.Used (lines : List Text) (t : Token) : Prop :=
  t.IsTop ∧ source lines t ≠ []

instance (lines : List Text) (t : Token) : Decidable (t.Used lines) :=
  inferInstanceAs (Decidable (_ ∧ _))

/-- The part that a token becomes. -/
def Token.made (lines : List Text) (t : Token) : Part where
  type := t.blockType
  text :=
    match t.blockType with
    | .code => t.content.rdropWhile (· = '\n')
    | .heading => headingText (source lines t)
    | _ => source lines t
  level := if t.blockType = .heading then some (tagLevel t.tag) else none

/-- The parts of a text. -/
def parts (lines : List Text) (tokens : List Token) : List Part :=
  (tokens.filter (·.Used lines)).map (·.made lines)

theorem parts_concat (lines : List Text) (seen : List Token) (t : Token) :
  parts lines (seen ++ [t]) =
    if t.Used lines then parts lines seen ++ [t.made lines] else parts lines seen
  := by
  rw [parts, List.filter_append, List.map_append, List.filter_cons]
  simp only [decide_eq_true_eq]
  split_ifs
  · rfl
  · exact List.append_nil _

/-- The blocks are those of the tokens so far. -/
structure Placed (lines : List Text) (seen : List Token) (a : Assembly) : Prop where
  blocks : a.blocks = Part.blocks [] (parts lines seen)
  headings : a.headings = Nesting.enclosing ((parts lines seen).filterMap Part.heading?)

namespace Placed

variable {lines : List Text} {seen : List Token} {a : Assembly}

theorem length_eq (h : Placed lines seen a) :
  a.blocks.length = (parts lines seen).length
  := by
  rw [h.blocks, Part.blocks, Nesting.length_mapAfter]

/-- One more part. -/
theorem concat (h : Placed lines seen a) {t : Token} (used : t.Used lines) {b : Assembly}
    (blocks : b.blocks = a.blocks ++ [(t.made lines).block (parts lines seen)])
    (headings : b.headings =
      Nesting.enclosing ((parts lines seen ++ [t.made lines]).filterMap Part.heading?)) :
  Placed lines (seen ++ [t]) b
  := by
  constructor
  · rw [blocks, h.blocks, parts_concat, if_pos used, Part.blocks, Nesting.mapAfter_concat]
    rfl
  · rw [headings, parts_concat, if_pos used]

theorem path_eq (h : Placed lines seen a) :
  a.path =
    ((Nesting.enclosing ((parts lines seen).filterMap Part.heading?)).map Prod.snd).map
      String.ofList
  := by
  rw [Assembly.path, h.headings, List.map_map]
  rfl

/-- One more token. -/
theorem place (h : Placed lines seen a) (t : Token) :
  Placed lines (seen ++ [t]) (a.place lines t)
  := by
  by_cases used : t.Used lines
  · unfold Assembly.place
    rw [if_neg (not_not.mpr used.1)]
    dsimp only
    rw [if_neg used.2]
    by_cases heading : t.blockType = .heading
    · have pushed : Nesting.push a.headings (tagLevel t.tag, headingText (source lines t)) =
          Nesting.enclosing ((parts lines seen).filterMap Part.heading? ++
            [(tagLevel t.tag, headingText (source lines t))]) := by
        rw [h.headings, Nesting.push_enclosing]
      have made : t.made lines = ⟨.heading, headingText (source lines t), some (tagLevel t.tag)⟩ := by
        rw [Token.made, heading]
        rfl
      rw [if_pos heading, if_neg (by rw [heading]; decide)]
      refine h.concat used ?_ ?_
      · rw [made, pushed, Part.block, ← h.length_eq, Part.path]
        dsimp only [Part.heading?, Option.map_some]
        rw [List.map_dropLast, List.map_map]
        rfl
      · rw [made, List.filterMap_append]
        exact pushed
    · have other : (t.made lines).heading? = none := by
        rw [Part.heading?, Token.made, if_neg heading]
        rfl
      rw [if_neg heading]
      refine h.concat used ?_ ?_
      · rw [Part.block, ← h.length_eq, Part.path, other, ← h.path_eq]
        refine congrArg (fun text => a.blocks ++ [Block.mk t.blockType (String.ofList text) _]) ?_
        rw [Token.made]
        cases code : t.blockType
        all_goals first
          | exact absurd code heading
          | rfl
      · rw [List.filterMap_append, List.filterMap_cons_none other]
        exact h.headings.trans (congrArg _ (List.append_nil _).symm)
  · have same : a.place lines t = a := by
      by_cases top : t.IsTop
      · rw [Assembly.place, if_neg (not_not.mpr top)]
        exact if_pos (not_not.mp fun body => used ⟨top, body⟩)
      · exact if_pos top
    rw [same]
    constructor
    · rw [parts_concat, if_neg used, h.blocks]
    · rw [parts_concat, if_neg used, h.headings]

end Placed

theorem placed (lines : List Text) (tokens : List Token) :
  Placed lines tokens (tokens.foldl (Assembly.place lines) {})
  := by
  induction tokens using List.reverseRecOn with
  | nil => exact ⟨rfl, rfl⟩
  | append_singleton tokens t ih =>
    rw [List.foldl_append]
    exact ih.place t

/-- The blocks are those of the tokens, one after another. -/
theorem blocksOf_eq (text : Text) (tokens : List Token) :
  blocksOf text tokens = Part.blocks [] (parts (text.splitOn '\n') tokens)
  := (placed _ tokens).blocks

/-! ### Carriage returns -/

def withoutReturns (text : Text) : Text :=
  text.filter (· ≠ '\r')

theorem withoutReturns_strip (text : Text) :
  withoutReturns (strip text) = strip (withoutReturns text)
  := by
  have space (c : Char) (hc : decide (c ≠ '\r') = false) : isSpace c = true := by
    rw [not_not.mp (of_decide_eq_false hc)]
    decide
  unfold withoutReturns strip rstrip
  rw [Trimming.filter_rdropWhile space, Trimming.filter_dropWhile space]

theorem getLast?_strip_ne (text : Text) :
  (strip text).getLast? ≠ some '\r'
  := fun last => nomatch isSpace_getLast?_rstrip last

theorem strip_subset (text : Text) :
  strip text ⊆ text
  := by
  have piece := strip_infix text
  exact piece.subset

theorem paired_strip {text : Text} (paired : Paired text) :
  Paired (strip text)
  := by
  have piece := strip_infix text
  exact List.IsChain.infix paired piece

/-- The newlines of what is left of a text can be normalised before it is stripped. -/
theorem universalNewlines_strip {text : Text} (paired : Paired text) :
  universalNewlines (strip text) = strip (withoutReturns text)
  := by
  rw [Lines.universalNewlines_of_paired (paired_strip paired) (getLast?_strip_ne text),
    ← withoutReturns_strip]
  rfl

/-- In a line there is a carriage return at the end, if at all. -/
theorem getLast?_of_mem {line : Text} (paired : Paired line) (one : '\n' ∉ line)
    (mem : '\r' ∈ line) :
  line.getLast? = some '\r'
  := by
  induction line with
  | nil => cases mem
  | cons c line ih =>
    obtain ⟨next, paired⟩ := List.isChain_cons.mp paired
    rw [List.mem_cons, not_or] at one
    cases line with
    | nil => rw [List.mem_singleton.mp mem]; rfl
    | cons d line =>
      rw [List.getLast?_cons_cons]
      rcases List.mem_cons.mp mem with rfl | mem
      · have newline := next d rfl rfl
        rw [newline] at one
        exact absurd List.mem_cons_self one.2
      · exact ih paired one.2 mem

theorem not_mem_strip_line {line : Text} (paired : Paired line) (one : '\n' ∉ line) :
  '\r' ∉ strip line
  := fun mem =>
  getLast?_strip_ne line
    (getLast?_of_mem (paired_strip paired) (fun newline => one (strip_subset line newline)) mem)

theorem withoutReturns_of_not_mem {text : Text} (h : '\r' ∉ text) :
  withoutReturns text = text
  := List.filter_eq_self.mpr fun _ hc => decide_eq_true fun same => h (same ▸ hc)

theorem strip_withoutReturns {line : Text} (paired : Paired line) (one : '\n' ∉ line) :
  strip (withoutReturns line) = strip line
  := by
  rw [← withoutReturns_strip, withoutReturns_of_not_mem (not_mem_strip_line paired one)]

/-- The marks before a line do not depend on what ends it. -/
theorem dropWhile_withoutReturns {line : Text} (paired : Paired line) (one : '\n' ∉ line) :
  (withoutReturns line).dropWhile (· = '#') = withoutReturns (line.dropWhile (· = '#'))
  := by
  induction line with
  | nil => rfl
  | cons c line ih =>
    obtain ⟨next, paired⟩ := List.isChain_cons.mp paired
    rw [List.mem_cons, not_or] at one
    by_cases mark : c = '#'
    · have kept : withoutReturns (c :: line) = c :: withoutReturns line := by
        rw [mark]
        rfl
      rw [kept, List.dropWhile_cons, if_pos (decide_eq_true mark), List.dropWhile_cons,
        if_pos (decide_eq_true mark), ih paired one.2]
    · have stop : ¬ decide (c = '#') = true := fun h => mark (of_decide_eq_true h)
      rw [List.dropWhile_cons, if_neg stop]
      by_cases carriage : c = '\r'
      · cases line with
        | nil =>
          rw [carriage]
          rfl
        | cons d line =>
          rw [next d rfl carriage] at one
          exact absurd List.mem_cons_self one.2
      · have kept : withoutReturns (c :: line) = c :: withoutReturns line := by
          rw [withoutReturns, List.filter_cons, if_pos (decide_eq_true carriage)]
          rfl
        rw [kept, List.dropWhile_cons, if_neg stop]

/-- The pieces of a text are lines. -/
theorem line_of_mem_splitOn {text line : Text} (paired : Paired text)
    (h : line ∈ text.splitOn '\n') :
  Paired line ∧ '\n' ∉ line
  := by
  have piece := Lines.piece_of_mem_splitOn h
  refine ⟨?_, Lines.not_mem_of_mem_splitOn h⟩
  exact List.IsChain.infix paired piece

/-- The text of a heading is the same with and without carriage returns, and has none. -/
theorem headingText_withoutReturns {text : Text} (paired : Paired text) :
  headingText (withoutReturns text) = headingText text ∧ '\r' ∉ headingText text
  := by
  have lines : ∀ line ∈ text.splitOn '\n', Paired line ∧ '\n' ∉ line := fun line =>
    line_of_mem_splitOn paired
  have split : (withoutReturns text).splitOn '\n' = (text.splitOn '\n').map withoutReturns :=
    Lines.splitOn_filter (by decide) text
  unfold headingText
  rw [split]
  cases pieces : text.splitOn '\n' with
  | nil => exact ⟨rfl, List.not_mem_nil⟩
  | cons first rest =>
    rw [pieces] at lines
    obtain ⟨hpaired, hone⟩ := lines first List.mem_cons_self
    have last : (rest.map withoutReturns).getLast?.any (fun last => isUnderline (strip last)) =
        rest.getLast?.any fun last => isUnderline (strip last) := by
      rw [List.getLast?_map]
      cases hlast : rest.getLast? with
      | none => rfl
      | some line =>
        obtain ⟨p, o⟩ := lines line (List.mem_cons_of_mem first (List.mem_of_getLast? hlast))
        exact congrArg isUnderline (strip_withoutReturns p o)
    have suffix : first.dropWhile (· = '#') <:+ first := List.dropWhile_suffix _
    have hpaired' : Paired (first.dropWhile (· = '#')) := List.IsChain.infix hpaired suffix.isInfix
    have hone' : '\n' ∉ first.dropWhile (· = '#') := fun h => hone (suffix.subset h)
    have marks : withoutMarks (withoutReturns first) = withoutMarks first := by
      rw [withoutMarks, dropWhile_withoutReturns hpaired hone, strip_withoutReturns hpaired' hone']
      rfl
    rw [List.map_cons]
    dsimp only
    rw [last, marks, strip_withoutReturns hpaired hone]
    refine ⟨rfl, ?_⟩
    split_ifs
    · exact not_mem_strip_line hpaired hone
    · intro mem
      have mem := strip_subset _ mem
      have mem := (List.rdropWhile_prefix _ _).subset mem
      exact not_mem_strip_line hpaired' hone' mem

/-! ### Stripping -/

theorem strip_strip (text : Text) :
  strip (strip text) = strip text
  := strip_eq_self (fun _ => isSpace_head?_strip) (fun _ => isSpace_getLast?_rstrip)

theorem strip_append_spaces {spaces : Text} (h : ∀ c ∈ spaces, isSpace c) (text : Text) :
  strip (text ++ spaces) = strip text
  := by
  unfold strip rstrip
  rw [Trimming.rdropWhile_dropWhile, Trimming.rdropWhile_append_of_forall h,
    ← Trimming.rdropWhile_dropWhile]

theorem rstrip_concat {c : Char} (visible : isSpace c = false) (text : Text) :
  rstrip (text ++ [c]) = text ++ [c]
  := List.rdropWhile_concat_neg _ _ _ (by rw [visible]; exact Bool.false_ne_true)

/-- A text that is not blank, before another one. -/
theorem strip_append {text rest : Text} (some : strip text ≠ [])
    (solid : ∃ c ∈ rest, isSpace c = false) :
  strip (text ++ rest) = text.dropWhile isSpace ++ rstrip rest
  := by
  have begins : ¬ (text.dropWhile isSpace).isEmpty = true := by
    rw [List.isEmpty_iff]
    intro none
    rw [strip, none] at some
    exact some rfl
  rw [strip, List.dropWhile_append, if_neg begins]
  exact Trimming.rdropWhile_append_of_exists solid _

theorem strip_append_of_blank {text : Text} (none : strip text = []) (rest : Text) :
  strip (text ++ rest) = strip rest
  := by
  have spaces := isSpace_of_solid_eq_nil (strip_eq_nil_iff.mp none)
  rw [strip, List.dropWhile_append_of_pos spaces]
  rfl

/-! ### The text of a setext heading -/

section

variable {content : List Text} {underline : Text}

theorem headingContent_concat (some : content ≠ []) (underline : Text) :
  headingContent (content ++ [underline]) = joined content
  := by
  obtain ⟨first, rest, rfl⟩ := List.exists_cons_of_ne_nil some
  have lines : first :: rest ++ [underline] = first :: (rest ++ [underline]) := rfl
  rw [lines, headingContent, ← lines, List.dropLast_concat]
  intro line one
  exact absurd (List.cons.inj one).2 (by simp)

theorem kept_concat (some : content ≠ []) (underline : Text) :
  Kept (content ++ [underline]) ↔ strip (joined content) ≠ [] ∧ '\n' ∉ strip (joined content)
  := by
  obtain ⟨first, rest, rfl⟩ := List.exists_cons_of_ne_nil some
  have lines : first :: rest ++ [underline] = first :: (rest ++ [underline]) := rfl
  rw [lines, Kept, ← lines, List.dropLast_concat]
  intro line one
  exact absurd (List.cons.inj one).2 (by simp)

theorem joined_concat (some : content ≠ []) (underline : Text) :
  joined (content ++ [underline]) = joined content ++ '\n' :: underline
  := by
  unfold joined
  rw [Lines.intercalate_append some (List.cons_ne_nil _ _), List.intercalate_singleton]
  rfl

/-- The first line before an underline. -/
theorem headingText_underlined (one : '\n' ∉ underline) (mark : isUnderline (strip underline))
    (text : Text) :
  headingText (text ++ '\n' :: underline) = strip (text.takeWhile fun c => !(c == '\n'))
  := by
  have first := Lines.head?_splitOn '\n' text
  unfold headingText
  rw [List.splitOn_append_cons_self, List.splitOn_eq_singleton one]
  cases pieces : text.splitOn '\n' with
  | nil => exact absurd pieces (List.splitOn_ne_nil _ _)
  | cons line lines =>
    rw [pieces] at first
    obtain rfl := Option.some.inj first
    rw [List.cons_append]
    dsimp only
    rw [List.getLast?_concat, Option.any_some, if_pos mark]

/-- The first line is all of a text that has one line when it is stripped. -/
theorem strip_takeWhile_dropWhile_iff (text : Text) :
  strip ((text.dropWhile isSpace).takeWhile fun c => !(c == '\n')) = strip text ↔
    '\n' ∉ strip text
  := by
  constructor
  · intro same mem
    rw [← same] at mem
    have mem := strip_subset _ mem
    have other := List.mem_takeWhile_imp mem
    rw [beq_self_eq_true] at other
    cases other
  · intro one
    have split : strip text ++ (text.dropWhile isSpace).rtakeWhile isSpace =
        text.dropWhile isSpace := List.rdropWhile_append_rtakeWhile
    rw [← split, List.takeWhile_append_of_pos, strip_append_spaces, strip_strip]
    · intro c hc
      exact List.mem_rtakeWhile_imp ((List.takeWhile_prefix _).subset hc)
    · intro c hc
      rw [Bool.not_eq_true', beq_eq_false_iff_ne]
      rintro rfl
      exact one hc

theorem strip_replicate {c : Char} (visible : isSpace c = false) (n : ℕ) :
  strip (.replicate n c) = .replicate n c
  := by
  have all {d : Char} (hd : d ∈ List.replicate n c) : isSpace d = false := by
    rw [List.eq_of_mem_replicate hd, visible]
  exact strip_eq_self (fun _ hd => all (List.mem_of_mem_head? hd))
    fun _ hd => all (List.mem_of_getLast? hd)

/-- The two marks are visible. -/
theorem isSpace_mark {mark : Char} (marks : mark = '=' ∨ mark = '-') :
  isSpace mark = false
  := by
  rcases marks with rfl | rfl
  all_goals rfl

/-- A row of marks is not taken for an ATX heading. -/
theorem headingText_replicate {mark : Char} (marks : mark = '=' ∨ mark = '-') (n : ℕ) :
  headingText (.replicate n mark) = .replicate n mark
  := by
  have only {c : Char} (hc : c ∈ List.replicate n mark) : c = mark := List.eq_of_mem_replicate hc
  have one : '\n' ∉ List.replicate n mark := by
    intro h
    rcases marks with rfl | rfl
    all_goals exact absurd (only h) (by decide)
  have first : (List.replicate n mark).dropWhile (· = '#') = .replicate n mark := by
    apply List.dropWhile_eq_self_iff.mpr
    intro h
    rw [only (List.getElem_mem h)]
    rcases marks with rfl | rfl
    all_goals decide
  have last : (List.replicate n mark).rdropWhile (· = '#') = .replicate n mark := by
    apply List.rdropWhile_eq_self_iff.mpr
    intro h
    rw [only (List.getLast_mem h)]
    rcases marks with rfl | rfl
    all_goals decide
  unfold headingText
  rw [List.splitOn_eq_singleton one]
  dsimp only
  rw [List.getLast?_nil, Option.any_none, if_neg Bool.false_ne_true, withoutMarks, first,
    strip_replicate (isSpace_mark marks), last, strip_replicate (isSpace_mark marks)]

theorem headingText_setext {lines : List Text} (h : IsSetext lines)
    (single : ∀ line ∈ lines, '\n' ∉ line) :
  headingText (strip (joined lines)) = strip (headingContent lines) ↔ Kept lines
  := by
  obtain ⟨content, indent, length, mark, trail, rfl, some, -, positive, marks, blank⟩ := h
  rw [headingContent_concat some, kept_concat some, joined_concat some]
  have visible := isSpace_mark marks
  have spaces : ∀ c ∈ trail, isSpace c = true := fun c hc =>
    isSpace_of_isBlank (List.all_eq_true.mp blank c hc)
  have indented : ∀ c ∈ List.replicate indent ' ', isSpace c = true := by
    intro c hc
    rw [List.eq_of_mem_replicate hc]
    rfl
  obtain ⟨k, rfl⟩ : ∃ k, length = k + 1 := ⟨length - 1, by omega⟩
  have right : rstrip (.replicate indent ' ' ++ (.replicate (k + 1) mark ++ trail)) =
      .replicate indent ' ' ++ .replicate (k + 1) mark := by
    rw [← List.append_assoc, rstrip, Trimming.rdropWhile_append_of_forall spaces,
      List.replicate_succ', ← List.append_assoc]
    exact rstrip_concat visible _
  have solid : ∃ c ∈ List.replicate indent ' ' ++ (.replicate (k + 1) mark ++ trail),
      isSpace c = false := by
    refine ⟨mark, ?_, visible⟩
    simp
  have row : strip (.replicate indent ' ' ++ (.replicate (k + 1) mark ++ trail)) =
      .replicate (k + 1) mark := by
    rw [← List.append_assoc, strip_append_spaces spaces,
      strip_append_of_blank (strip_eq_nil_iff.mpr (solid_eq_nil indented)), strip_replicate visible]
  have shown : isUnderline (.replicate (k + 1) mark) = true := by
    rw [isUnderline, List.all_replicate, List.isEmpty_replicate]
    rcases marks with rfl | rfl
    all_goals simp
  have one : '\n' ∉ List.replicate indent ' ' ++ (.replicate (k + 1) mark ++ trail) :=
    single _ (List.mem_append_right _ List.mem_cons_self)
  by_cases none : strip (joined content) = []
  · have newline : ('\n' :: (.replicate indent ' ' ++ (.replicate (k + 1) mark ++ trail)) : Text) =
        ['\n'] ++ (.replicate indent ' ' ++ (.replicate (k + 1) mark ++ trail)) := rfl
    rw [strip_append_of_blank none, newline, strip_append_of_blank rfl, row,
      headingText_replicate marks, none]
    exact ⟨fun same => absurd same (List.cons_ne_nil _ _), fun kept => absurd rfl kept.1⟩
  · have cut : rstrip ('\n' :: (.replicate indent ' ' ++ (.replicate (k + 1) mark ++ trail))) =
        '\n' :: (.replicate indent ' ' ++ .replicate (k + 1) mark) := by
      rw [← right]
      exact Trimming.rdropWhile_append_of_exists solid ['\n']
    rw [strip_append none (solid.imp fun c hc => ⟨List.mem_cons_of_mem _ hc.1, hc.2⟩), cut,
      headingText_underlined, strip_takeWhile_dropWhile_iff]
    · exact ⟨fun one => ⟨none, one⟩, fun kept => kept.2⟩
    · rw [← right]
      exact fun mem => one ((List.rdropWhile_prefix _ _).subset mem)
    · rw [strip_append_of_blank (strip_eq_nil_iff.mpr (solid_eq_nil indented)),
        strip_replicate visible, shown]

end

/-! ### The text of an ATX heading -/

theorem strip_rstrip (text : Text) :
  strip (rstrip text) = strip text
  := by
  unfold strip rstrip
  rw [Trimming.rdropWhile_dropWhile, List.rdropWhile_idempotent, ← Trimming.rdropWhile_dropWhile]

theorem strip_dropWhile (text : Text) :
  strip (text.dropWhile isSpace) = strip text
  := by
  unfold strip
  rw [List.dropWhile_idempotent]

theorem strip_trim (text : Text) :
  strip (trim text) = strip text
  := by
  have front := List.takeWhile_append_dropWhile (p := isBlank) (l := text)
  have back : trim text ++ (text.dropWhile isBlank).rtakeWhile isBlank = text.dropWhile isBlank :=
    List.rdropWhile_append_rtakeWhile
  have before : strip (text.takeWhile isBlank) = [] :=
    strip_eq_nil_iff.mpr (solid_eq_nil fun _ hc => isSpace_of_isBlank (List.mem_takeWhile_imp hc))
  rw [← strip_append_spaces fun _ hc => isSpace_of_isBlank (List.mem_rtakeWhile_imp hc), back,
    ← strip_append_of_blank before, front]

/-- A text with a visible character at the end. -/
theorem strip_concat {c : Char} (visible : isSpace c = false) (text : Text) :
  strip (text ++ [c]) = (text ++ [c]).dropWhile isSpace ∧ (strip (text ++ [c])).getLast? = some c
  := by
  constructor
  · rw [strip, rstrip, Trimming.rdropWhile_dropWhile]
    exact congrArg _ (rstrip_concat visible text)
  · by_cases none : strip text = []
    · have one : strip [c] = [c] := strip_replicate visible 1
      rw [strip_append_of_blank none, one]
      rfl
    · have one : rstrip [c] = [c] := rstrip_concat visible []
      rw [strip_append none ⟨c, List.mem_singleton.mpr rfl, visible⟩, one, List.getLast?_concat]

section

variable {level : ℕ} {rest : Text}

/-- The space before the marks. -/
theorem dropWhile_indent {p : Char → Bool} (space : p ' ' = true) (mark : p '#' = false)
    (positive : 1 ≤ level) (rest : Text) (indent : ℕ) :
  (List.replicate indent ' ' ++ (.replicate level '#' ++ rest)).dropWhile p =
    .replicate level '#' ++ rest
  := by
  obtain ⟨k, rfl⟩ : ∃ k, level = k + 1 := ⟨level - 1, by omega⟩
  have spaces : ∀ c ∈ List.replicate indent ' ', p c = true :=
    fun c hc => List.eq_of_mem_replicate hc ▸ space
  rw [List.dropWhile_append_of_pos spaces, List.replicate_succ, List.cons_append,
    List.dropWhile_cons_of_neg (by rw [mark]; exact Bool.false_ne_true)]

/-- The marks and what follows them. -/
theorem span_marks (next : rest.head?.all isBlank) :
  (List.replicate level '#' ++ rest).takeWhile (· = '#') = .replicate level '#' ∧
    (List.replicate level '#' ++ rest).dropWhile (· = '#') = rest
  := by
  have hashes : ∀ c ∈ List.replicate level '#', decide (c = '#') = true :=
    fun c hc => decide_eq_true (List.eq_of_mem_replicate hc)
  rw [List.takeWhile_append_of_pos hashes, List.dropWhile_append_of_pos hashes]
  cases rest with
  | nil => exact ⟨List.append_nil _, rfl⟩
  | cons c rest =>
    have other : ¬ decide (c = '#') = true := by
      intro same
      rw [of_decide_eq_true same] at next
      cases next
    rw [List.takeWhile_cons, if_neg other, List.dropWhile_cons, if_neg other]
    exact ⟨List.append_nil _, rfl⟩

variable (positive : 1 ≤ level) (next : rest.head?.all isBlank) (indent : ℕ)

include positive next

theorem afterMarks_atx :
  afterMarks (.replicate indent ' ' ++ (.replicate level '#' ++ rest)) = rest
  := by
  rw [afterMarks, dropWhile_indent rfl rfl positive]
  exact (span_marks next).2

/-- The marks of an ATX heading go, and the `#` at the end. -/
theorem withoutMarks_atx :
  withoutMarks (strip (.replicate indent ' ' ++ (.replicate level '#' ++ rest))) =
    strip ((strip rest).rdropWhile (· = '#'))
  := by
  have stripped : strip (.replicate indent ' ' ++ (.replicate level '#' ++ rest)) =
      rstrip (.replicate level '#' ++ rest) := by
    rw [strip, dropWhile_indent rfl rfl positive]
  have dropped : (rstrip (.replicate level '#' ++ rest)).dropWhile (· = '#') = rstrip rest := by
    rw [rstrip, ← Trimming.rdropWhile_dropWhile, (span_marks next).2]
    rfl
  rw [withoutMarks, stripped, dropped, strip_rstrip]

end

/-- What is left without the `#` at the end is the content if these are a closing sequence, or if there
are none. -/
theorem strip_rdropWhile_iff (rest : Text) :
  strip ((strip rest).rdropWhile (· = '#')) =
      strip (if Closes (trim rest) then (trim rest).rdropWhile (· = '#') else trim rest) ↔
    ((strip rest).getLast? = some '#' → Closes (trim rest))
  := by
  rw [← strip_trim rest]
  generalize trim rest = text
  split_ifs with closes
  · obtain ⟨front, rfl⟩ : ∃ front, text = front ++ ['#'] := by
      obtain ⟨nonempty, last⟩ := List.getLast?_eq_some_iff.mp closes.1
      exact ⟨_, last⟩
    rw [(strip_concat (c := '#') rfl front).1, Trimming.rdropWhile_dropWhile, strip_dropWhile]
    exact ⟨fun _ _ => closes, fun _ => rfl⟩
  · constructor
    · intro same last
      obtain ⟨front, split⟩ := List.getLast?_eq_some_iff.mp last
      rw [split, List.rdropWhile_concat, if_pos (decide_eq_true (Eq.refl '#'))] at same
      have piece := strip_infix (front.rdropWhile (· = '#'))
      have shorter := piece.length_le.trans (List.rdropWhile_prefix (· = '#') front).length_le
      rw [same, List.length_append, List.length_singleton] at shorter
      omega
    · intro last
      rw [List.rdropWhile_eq_self_iff.mpr, strip_strip]
      intro nonempty mark
      refine closes (last ?_)
      rw [List.getLast?_eq_some_getLast nonempty, of_decide_eq_true mark]

theorem headingText_atx {lines : List Text} (h : IsAtx lines)
    (single : ∀ line ∈ lines, '\n' ∉ line) :
  headingText (strip (joined lines)) = strip (headingContent lines) ↔ Kept lines
  := by
  obtain ⟨indent, level, rest, rfl, -, positive, -, next⟩ := h
  have one : '\n' ∉ strip (.replicate indent ' ' ++ (.replicate level '#' ++ rest)) := fun mem =>
    single _ (List.mem_singleton.mpr rfl) (strip_subset _ mem)
  rw [joined, List.intercalate_singleton, headingText, List.splitOn_eq_singleton one]
  dsimp only
  rw [List.getLast?_nil, Option.any_none, if_neg Bool.false_ne_true, withoutMarks_atx positive next,
    headingContent, Kept, afterMarks_atx positive next]
  exact strip_rdropWhile_iff rest

/-! ### The lines of a token -/

theorem normalLines_eq {text : Text} (paired : Paired text) (last : text.getLast? ≠ some '\r') :
  normalLines text = (text.splitOn '\n').map withoutReturns
  := by
  rw [normalLines, Lines.universalNewlines_of_paired paired last]
  exact Lines.splitOn_filter (by decide) text

section

variable {text : Text} {t : Token} {start stop : ℕ}

/-- The lines that a token covers are those that are cut out, up to the carriage returns. -/
theorem joined_covered (paired : Paired text) (last : text.getLast? ≠ some '\r')
    (range : t.map = some (start, stop)) :
  joined (t.covered text) = withoutReturns (joined (slice (text.splitOn '\n') (start, stop)))
  := by
  have newline : ['\n'].filter (· ≠ '\r') = ['\n'] := by decide
  have cut : t.covered text = (slice (text.splitOn '\n') (start, stop)).map withoutReturns := by
    rw [Token.covered, range, normalLines_eq paired last, Option.map_some, Option.getD_some, slice,
      slice, ← List.map_take, ← List.map_drop]
  rw [cut]
  exact (Lines.filter_intercalate newline _).symm

theorem source_eq (range : t.map = some (start, stop)) (lines : List Text) :
  source lines t = strip (joined (slice lines (start, stop)))
  := by
  rw [source, range]

theorem paired_slice (paired : Paired text) :
  Paired (joined (slice (text.splitOn '\n') (start, stop)))
  := by
  have piece := Lines.intercalate_slice_infix (text.splitOn '\n') ['\n'] start stop
  rw [List.intercalate_splitOn] at piece
  exact List.IsChain.infix paired piece

variable (paired : Paired text) (last : text.getLast? ≠ some '\r')
  (range : t.map = some (start, stop))

include paired last range

theorem universalNewlines_source :
  universalNewlines (source (text.splitOn '\n') t) = strip (joined (t.covered text))
  := by
  rw [source_eq range, universalNewlines_strip (paired_slice paired),
    joined_covered paired last range]

theorem source_eq_nil_iff :
  source (text.splitOn '\n') t = [] ↔ strip (joined (t.covered text)) = []
  := by
  have solid_eq (s : Text) : solid (withoutReturns s) = solid s := by
    rw [solid, withoutReturns, List.filter_filter]
    apply List.filter_congr
    intro c _
    by_cases carriage : c = '\r'
    · rw [carriage]
      decide
    · rw [decide_eq_true carriage, Bool.and_true]
  rw [source_eq range, joined_covered paired last range, strip_eq_nil_iff, strip_eq_nil_iff, solid_eq]

/-- The heading is the same whether it is found before or after the newlines are normalised. -/
theorem universalNewlines_headingText :
  universalNewlines (headingText (source (text.splitOn '\n') t)) =
    headingText (strip (joined (t.covered text)))
  := by
  have inside : Paired (source (text.splitOn '\n') t) := by
    rw [source_eq range]
    exact paired_strip (paired_slice paired)
  obtain ⟨same, none⟩ := headingText_withoutReturns inside
  rw [Lines.universalNewlines_of_forall none, ← same, source_eq range, withoutReturns_strip,
    joined_covered paired last range]

end

/-! ### Nothing is lost -/

/-- A part with its newlines normalised. -/
def Part.withNewlines (p : Part) : Part :=
  { p with text := universalNewlines p.text }

theorem Part.heading?_withNewlines (p : Part) :
  p.withNewlines.heading? = p.heading?.map (Prod.map id universalNewlines)
  := by
  rw [heading?, heading?, Option.map_map]
  rfl

theorem Part.path_withNewlines (before : List Part) (p : Part) :
  p.withNewlines.path (before.map Part.withNewlines) = (p.path before).map universalNewlines
  := by
  have headings : (before.map Part.withNewlines).filterMap heading? =
      (before.filterMap heading?).map (Prod.map id universalNewlines) := by
    rw [List.filterMap_map, List.map_filterMap]
    exact List.filterMap_congr fun q _ => q.heading?_withNewlines
  have texts (hs : List (ℕ × Text)) : (hs.map (Prod.map id universalNewlines)).map Prod.snd =
      (hs.map Prod.snd).map universalNewlines := by
    rw [List.map_map, List.map_map]
    rfl
  rw [path, path, heading?_withNewlines, headings]
  cases p.heading? with
  | none => rw [Option.map_none, Nesting.enclosing_map, texts]
  | some h =>
    rw [Option.map_some, List.map_dropLast, ← texts, ← Nesting.enclosing_map, List.map_append]
    rfl

theorem Part.withNewlines_block (before : List Part) (p : Part) :
  MarkdownLoader.withNewlines (p.block before) =
    p.withNewlines.block (before.map Part.withNewlines)
  := by
  rw [block, block, path_withNewlines, List.length_map, List.map_map]
  unfold MarkdownLoader.withNewlines
  dsimp only
  rw [String.toList_ofList, List.map_map]
  have strings : (fun s : String => String.ofList (universalNewlines s.toList)) ∘ String.ofList =
      String.ofList ∘ universalNewlines := by
    funext s
    rw [Function.comp_apply, String.toList_ofList, Function.comp_apply]
  rw [strings]
  rfl

/-- The kind and the text of a part are seen in its block. -/
theorem Part.blocks_inj {ps qs : List Part} (same : Part.blocks [] ps = Part.blocks [] qs) :
  ps.map (fun p => (p.type, p.text)) = qs.map fun p => (p.type, p.text)
  := by
  have seen (ps : List Part) : (Part.blocks [] ps).map (fun b => (b.type, b.text.toList)) =
      ps.map fun p => (p.type, p.text) :=
    Nesting.map_mapAfter (fun before p => by rw [Part.block, String.toList_ofList]) [] ps
  rw [← seen, same, seen]

theorem blockType_eq_heading_iff (t : Token) :
  t.blockType = .heading ↔ t.type = "heading_open"
  := by
  rw [Token.blockType, blockTypes]
  simp only [List.lookup_cons, List.lookup_nil]
  by_cases heading : t.type = "heading_open"
  · rw [heading]
    exact iff_of_true rfl rfl
  · rw [beq_false_of_ne heading]
    refine iff_of_false ?_ heading
    cases t.type == "table_open"
    · cases t.type == "fence"
      · cases t.type == "code_block"
        all_goals decide
      · exact nofun
    · exact nofun

theorem tagLevel_toDigits {n : ℕ} (some : 1 ≤ n) (six : n ≤ 6) :
  tagLevel ('h' :: Nat.toDigits 10 n) = n
  := by
  interval_cases n
  all_goals decide

/-- The level of a heading is that of its tag. -/
theorem headingLevel_mem {lines : List Text} (h : IsAtx lines ∨ IsSetext lines) :
  1 ≤ headingLevel lines ∧ headingLevel lines ≤ 6
  := by
  rcases h with ⟨indent, level, rest, rfl, -, positive, six, next⟩ |
    ⟨content, indent, length, mark, trail, rfl, some, -⟩
  · rw [headingLevel, dropWhile_indent rfl rfl positive, (span_marks next).1, List.length_replicate]
    exact ⟨positive, six⟩
  · obtain ⟨first, more, rfl⟩ := List.exists_cons_of_ne_nil some
    have two : first :: more ++ [List.replicate indent ' ' ++ (.replicate length mark ++ trail)] =
        first :: (more ++ [.replicate indent ' ' ++ (.replicate length mark ++ trail)]) := rfl
    rw [two, headingLevel]
    · split_ifs
      all_goals decide
    · intro line one
      exact absurd (List.cons.inj one).2 (by simp)

/-- The loader finds the content of the headings that are kept. -/
theorem headingText_eq_iff {lines : List Text} (h : IsAtx lines ∨ IsSetext lines)
    (single : ∀ line ∈ lines, '\n' ∉ line) :
  headingText (strip (joined lines)) = strip (headingContent lines) ↔ Kept lines
  := by
  rcases h with h | h
  · exact headingText_atx h single
  · exact headingText_setext h single

theorem isBlock_of_isTop {t : Token} (h : t.IsTop) :
  t.IsBlock
  := ⟨h.1, h.2.1, fun line => h.2.2 (line ▸ List.mem_cons_self)⟩

section

variable {text : Text} {tokens : List Token} {t : Token}

theorem Reported.isTop (h : Reported text tokens) (ht : t ∈ tokens) (block : t.IsBlock) :
  t.IsTop
  := by
  refine ⟨block.1, block.2.1, ?_⟩
  intro mem
  rcases List.mem_cons.mp mem with line | mem
  · exact block.2.2 line
  · exact h.frontMatter t ht (List.mem_singleton.mp mem)

theorem Reported.single (text : Text) (t : Token) :
  ∀ line ∈ t.covered text, '\n' ∉ line
  := by
  intro line hline
  unfold Token.covered at hline
  cases range : t.map with
  | none =>
    rw [range] at hline
    cases hline
  | some range' =>
    rw [range] at hline
    exact Lines.not_mem_of_mem_splitOn (List.mem_of_mem_take (List.mem_of_mem_drop hline))

/-- What a token becomes, with its newlines normalised, is what it stands for if its heading is
kept. -/
theorem withNewlines_made_iff (h : Reported text tokens) (paired : Paired text)
    (last : text.getLast? ≠ some '\r') (ht : t ∈ tokens) (block : t.IsBlock) :
  ((t.made (text.splitOn '\n')).withNewlines.text = (t.expected text).text ↔
      (t.type = "heading_open" → Kept (t.covered text))) ∧
    (t.made (text.splitOn '\n')).withNewlines.type = (t.expected text).type ∧
    (t.made (text.splitOn '\n')).withNewlines.level = (t.expected text).level
  := by
  obtain ⟨start, stop, range, -⟩ := h.covered t ht block
  have other (differ : t.blockType ≠ .heading) : t.type = "heading_open" → Kept (t.covered text) :=
    fun same => absurd ((blockType_eq_heading_iff t).mpr same) differ
  have plain := universalNewlines_source paired last range
  refine ⟨?_, rfl, ?_⟩
  · rw [Part.withNewlines, Token.made, Token.expected]
    dsimp only
    cases type : t.blockType with
    | code =>
      refine iff_of_true (Lines.universalNewlines_of_forall fun mem => ?_) (other (by simp [type]))
      exact h.content t ht ((List.rdropWhile_prefix _ _).subset mem)
    | heading =>
      have opened := (blockType_eq_heading_iff t).mp type
      obtain ⟨forms, -⟩ := h.heading t ht block opened
      dsimp only
      rw [universalNewlines_headingText paired last range,
        headingText_eq_iff forms (Reported.single text t)]
      exact ⟨fun kept _ => kept, fun kept => kept opened⟩
    | paragraph => exact iff_of_true plain (other (by simp [type]))
    | table => exact iff_of_true plain (other (by simp [type]))
    | caption => exact iff_of_true plain (other (by simp [type]))
  · change (if t.blockType = .heading then some _ else none) = if t.blockType = .heading then _ else _
    split_ifs with heading
    · obtain ⟨forms, tag⟩ := h.heading t ht block ((blockType_eq_heading_iff t).mp heading)
      obtain ⟨least, most⟩ := headingLevel_mem forms
      rw [tag, tagLevel_toDigits least most]
    · rfl

/-- Nothing is lost of a text without lone carriage returns, unless the text of a token is blank or
the content of a heading is not found. -/
theorem lossless_iff (h : Reported text tokens) (paired : Paired text)
    (last : text.getLast? ≠ some '\r') :
  Lossless text tokens (blocksOf text tokens) ↔
    ∀ t ∈ tokens, t.IsBlock →
      strip (joined (t.covered text)) ≠ [] ∧
        (t.type = "heading_open" → Kept (t.covered text))
  := by
  have visible {t : Token} (ht : t ∈ tokens) (block : t.IsBlock) :
      source (text.splitOn '\n') t = [] ↔ strip (joined (t.covered text)) = [] := by
    obtain ⟨start, stop, range, -⟩ := h.covered t ht block
    exact source_eq_nil_iff paired last range
  rw [Lossless, blocksOf_eq, Part.blocks, Nesting.map_mapAfter_map Part.withNewlines_block,
    List.map_nil, ← Part.blocks]
  constructor
  · intro same t ht block
    have seen := Part.blocks_inj same
    rw [parts, List.map_map, List.map_map, List.map_map] at seen
    have sub : (tokens.filter fun t => t.Used (text.splitOn '\n')).Sublist
        (tokens.filter fun t => t.IsBlock) :=
      List.monotone_filter_right tokens fun t used =>
        decide_eq_true (isBlock_of_isTop (of_decide_eq_true used).1)
    have length := congrArg List.length seen
    rw [List.length_map, List.length_map] at length
    have all := sub.eq_of_length length
    have mem : t ∈ tokens.filter fun t => t.IsBlock :=
      List.mem_filter.mpr ⟨ht, decide_eq_true block⟩
    rw [all] at seen
    have found := List.map_inj_left.mp seen t mem
    rw [← all] at mem
    have used : t.Used (text.splitOn '\n') := of_decide_eq_true (List.mem_filter.mp mem).2
    refine ⟨fun blank => used.2 ((visible ht block).mpr blank), ?_⟩
    exact (withNewlines_made_iff h paired last ht block).1.mp (congrArg Prod.snd found)
  · intro kept
    have all : (tokens.filter fun t => t.Used (text.splitOn '\n')) =
        tokens.filter fun t => t.IsBlock := by
      apply List.filter_congr
      intro t ht
      apply decide_eq_decide.mpr
      refine ⟨fun used => isBlock_of_isTop used.1, fun block => ⟨h.isTop ht block, fun blank => ?_⟩⟩
      exact (kept t ht block).1 ((visible ht block).mp blank)
    rw [parts, all, List.map_map]
    refine congrArg (Part.blocks []) (List.map_congr_left fun t mem => ?_)
    obtain ⟨ht, block⟩ := List.mem_filter.mp mem
    have block := of_decide_eq_true block
    obtain ⟨text', type, level⟩ := withNewlines_made_iff h paired last ht block
    exact Part.ext type (text'.mpr (kept t ht block).2) level

end

instance (text : Text) (tokens : List Token) (blocks : List Block) :
    Decidable (Lossless text tokens blocks) :=
  inferInstanceAs (Decidable (_ = _))

/-- A heading at some lines. -/
def headingAt (tag : String) (start stop : ℕ) : Token where
  type := "heading_open"
  tag := tag.toList
  map := some (start, stop)

def paragraphAt (start stop : ℕ) : Token where
  type := "paragraph_open"
  map := some (start, stop)

end Lumina.Etl.MarkdownLoader
