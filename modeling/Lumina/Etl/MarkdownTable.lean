import Lumina.Etl.Normalize
import Lumina.Library.Lines

/-!
# Tables in Markdown

`rows_to_markdown_table`, and a reader of tables: a pipe ends a cell unless it is escaped, and a
backslash that is escaped itself does not escape.  The table that is read has the cells of the rows
if no cell has a line boundary other than a newline, an escaped pipe, or the mark of a newline.
-/

namespace Lumina.Etl

open Lines (Open consLine isLineBreak splitLines)

/-! ### The writer -/

/-- The two replacements of `_escape_cell`. -/
def escapeChar (c : Char) : Text :=
  if c = '|' then ['\\', '|'] else if c = '\n' then ['<', 'b', 'r', '>'] else [c]

/-- `_escape_cell`. -/
def escapeCell (cell : Text) : Text :=
  strip (cell.flatMap escapeChar)

def tableWidth (rows : List (List Text)) : ℕ :=
  (rows.map List.length).foldr max 0

def padRow (width : ℕ) (row : List Text) : List Text :=
  row.map escapeCell ++ List.replicate (width - row.length) []

def tableLine (cells : List Text) : Text :=
  ['|', ' '] ++ [' ', '|', ' '].intercalate cells ++ [' ', '|']

/-- The lines of a table with a header. -/
def tableLines (width : ℕ) (header : List Text) (body : List (List Text)) : List Text :=
  tableLine (padRow width header) :: tableLine (List.replicate width ['-', '-', '-']) ::
    body.map fun row => tableLine (padRow width row)

/-- `rows_to_markdown_table`. -/
def rowsToMarkdownTable (rows : List (List Text)) : Text :=
  match rows with
  | [] => []
  | header :: body => ['\n'].intercalate (tableLines (tableWidth rows) header body)

/-! ### The reader -/

/-- Whether the character after `c` is escaped. -/
def escapes (escaped : Bool) (c : Char) : Bool :=
  c = '\\' && !escaped

/-- The number of pipes that are not escaped. -/
def unescapedPipes : (escaped : Bool) → Text → ℕ
  | _, [] => 0
  | escaped, c :: text =>
      (if c = '|' && !escaped then 1 else 0) + unescapedPipes (escapes escaped c) text

/-- The text between the pipes that are not escaped. -/
def splitCells : (escaped : Bool) → Text → List Text
  | _, [] => [[]]
  | escaped, c :: text =>
      if c = '|' && !escaped then [] :: splitCells false text
      else consLine c (splitCells (escapes escaped c) text)

/-- A cell without its escapes. -/
def readCell : Text → Text
  | [] => []
  | '\\' :: '|' :: text => '|' :: readCell text
  | '<' :: 'b' :: 'r' :: '>' :: text => '\n' :: readCell text
  | c :: text => c :: readCell text

/-- The cells of a line, between the first pipe and the last one. -/
def readLine (line : Text) : List Text :=
  (splitCells false line).tail.dropLast.map fun cell => readCell (strip cell)

/-- The rows of a table; the line below the header is not one. -/
def readTable (text : Text) : List (List Text) :=
  match splitLines text with
  | header :: _ :: body => (header :: body).map readLine
  | _ => []

example : readTable (rowsToMarkdownTable ["a|b".toList :: ["c\nd".toList], ["e ".toList]]) =
    ["a|b".toList :: ["c\nd".toList], "e".toList :: [[]]] := by
  decide

/-! ### What is to hold of a table -/

/-- A row with a cell for each column. -/
def fullRow (width : ℕ) (row : List Text) : List Text :=
  row ++ List.replicate (width - row.length) []

/-- The table keeps the grid of the rows: their number, the number of the columns in each line, and
the words of each cell. -/
structure GridKept (rows : List (List Text)) : Prop where
  lines : (splitLines (rowsToMarkdownTable rows)).length = rows.length + 1
  pipes : ∀ line ∈ splitLines (rowsToMarkdownTable rows),
    unescapedPipes false line = tableWidth rows + 1
  words : (readTable (rowsToMarkdownTable rows)).map (·.map splitWords) =
    rows.map fun row => (fullRow (tableWidth rows) row).map splitWords

/-- White space other than a newline. -/
def isMargin (c : Char) : Bool :=
  isSpace c && c ≠ '\n'

/-- A cell without the white space at its ends, unless it is a newline. -/
def trimCell (cell : Text) : Text :=
  (cell.dropWhile isMargin).rdropWhile isMargin

/-- A cell that a table can show. -/
structure PlainCell (cell : Text) : Prop where
  breaks : ∀ c ∈ trimCell cell, isLineBreak c → c = '\n'
  pipes : ∀ before rest, trimCell cell = before ++ '|' :: rest →
    Even (before.rtakeWhile (· = '\\')).length
  marks : ¬ ['<', 'b', 'r', '>'] <:+: trimCell cell

end Lumina.Etl
