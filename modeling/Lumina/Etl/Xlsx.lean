import Lumina.Etl.MarkdownLoader
import Lumina.Etl.TableGrid

/-!
# The blocks of a workbook

A sheet becomes a heading and tables.  The rows of a sheet are cut into windows, and every window is
a table of its own below the header of the sheet.  The sheets can be read back from the blocks, as
far as their cells can be shown in a table.
-/

namespace Lumina.Etl.Xlsx

open Knowledge (Block DomainError)
open MarkdownLoader (Assembly LoadResult)

/-! ### The loader -/

/-- A value of a cell, with the text that the standard library gives it. -/
inductive Cell where
  /-- An empty cell, and a formula that was never computed. -/
  | none
  /-- `isoformat(sep=" ")` -/
  | datetime (iso : Text)
  /-- `isoformat()` of a date or a time. -/
  | moment (iso : Text)
  /-- `str(value)` of anything else. -/
  | value (str : Text)
deriving DecidableEq, Repr

/-- `_cell` -/
def Cell.text : Cell → Text
  | .none => []
  | .datetime iso => iso
  | .moment iso => iso
  | .value str => strip str

structure Sheet where
  title : Text
  rows : List (List Cell)
deriving DecidableEq, Repr

/-- What `openpyxl` makes of a file.  Reading the rows may raise an exception of its own. -/
structure Workbook where
  worksheets : List Sheet
  broken : Option String := .none

/-- The rows that are not blank. -/
def Sheet.lines (sheet : Sheet) : List (List Text) :=
  (sheet.rows.map fun row => row.map Cell.text).filter fun row => row.any (· ≠ [])

def rowsPerBlock : ℕ := 50

/-- `_windows` -/
def windows (rows : List (List Text)) (size : ℕ) : List (List (List Text)) :=
  if rows = [] then [[]]
  else
    (List.range ((rows.length + (size - 1)) / size)).map fun i => (rows.drop (i * size)).take size

/-- The block of a window. -/
def addTable (header : List Text) (a : Assembly) (window : List (List Text)) : Assembly :=
  a.add .table (rowsToMarkdownTable (header :: window)) a.path

/-- The body of the loop. -/
def placeSheet (a : Assembly) (sheet : Sheet) : Assembly :=
  match sheet.lines with
  | [] => a
  | header :: data =>
      let a := { a with headings := Nesting.push a.headings (1, sheet.title) }
      (windows data rowsPerBlock).foldl (addTable header)
        (a.add .heading sheet.title a.path.dropLast)

/-- The blocks and the metadata. -/
def Workbook.result (workbook : Workbook) : LoadResult :=
  let blocks := (workbook.worksheets.foldl placeSheet {}).blocks
  (blocks,
    [("sheet_count", .int workbook.worksheets.length),
      ("table_count", .int (blocks.countP (·.type = .table)))])

/-- `load`; `openWorkbook` is `openpyxl.load_workbook`, with the name of the class of an
exception. -/
def load (openWorkbook : List UInt8 → Except String Workbook) (content : List UInt8) :
    Except DomainError LoadResult :=
  match openWorkbook content with
  | .error name => .error (MarkdownLoader.extractionFailed "xlsx 開啟失敗" name)
  | .ok workbook =>
      match workbook.broken with
      | some name => .error (MarkdownLoader.extractionFailed "xlsx 解析失敗" name)
      | none => .ok workbook.result

/-! ### The reader -/

/-- A table, and the headings above it. -/
structure TableRead where
  path : List String
  rows : List (List Text)
deriving DecidableEq, Repr

structure SheetRead where
  title : String
  tables : List TableRead
deriving DecidableEq, Repr

/-- The tables before the first heading, and the sheets after it. -/
def readBlocks : List Block → List TableRead × List SheetRead
  | [] => ([], [])
  | b :: bs =>
      match b.type with
      | .heading => ([], ⟨b.text, (readBlocks bs).1⟩ :: (readBlocks bs).2)
      | .table =>
          (⟨b.position.headingPath, readTable b.text.toList⟩ :: (readBlocks bs).1,
            (readBlocks bs).2)
      | _ => readBlocks bs

/-- Every row of a sheet is there once, below the header, in tables of limited size that have the
title of the sheet above them. -/
def SheetKept (sheet : Sheet) (read : SheetRead) : Prop :=
  ∃ header data, ∃ parts : List (List (List Text)),
    sheet.lines = header :: data ∧ parts.flatten = data ∧
    (∀ part ∈ parts, part.length ≤ rowsPerBlock) ∧ read.title = String.ofList sheet.title ∧
    read.tables = parts.map fun part =>
      ⟨[String.ofList sheet.title],
        (header :: part).map (fullRow (tableWidth (header :: part)))⟩

/-! ### The windows -/

theorem flatten_slices (rows : List (List Text)) (size n : ℕ) :
  ((List.range n).map fun i => (rows.drop (i * size)).take size).flatten = rows.take (n * size)
  := by
  induction n with
  | zero => rw [Nat.zero_mul, List.take_zero]; rfl
  | succ n ih =>
    rw [List.range_succ, List.map_append, List.flatten_append, ih, Nat.succ_mul, List.take_add,
      List.map_singleton, List.flatten_singleton]

/-- The windows are all of the rows. -/
theorem flatten_windows (rows : List (List Text)) {size : ℕ} (pos : 0 < size) :
  (windows rows size).flatten = rows
  := by
  unfold windows
  split
  · case isTrue empty => exact empty.symm
  · rw [flatten_slices]
    apply List.take_of_length_le
    have whole := Nat.lt_div_mul_add (a := rows.length + (size - 1)) pos
    omega

theorem length_window {rows : List (List Text)} {size : ℕ} {window : List (List Text)}
    (h : window ∈ windows rows size) :
  window.length ≤ size
  := by
  unfold windows at h
  split at h
  · rw [List.mem_singleton.mp h]
    exact Nat.zero_le _
  · obtain ⟨i, -, rfl⟩ := List.mem_map.mp h
    exact List.length_take_le _ _

theorem mem_of_mem_window {rows : List (List Text)} {size : ℕ} {window : List (List Text)}
    (h : window ∈ windows rows size) (pos : 0 < size) {row : List Text} (mem : row ∈ window) :
  row ∈ rows
  := by
  rw [← flatten_windows rows pos]
  exact List.mem_flatten.mpr ⟨window, h, mem⟩

/-! ### The cells -/

theorem trimCell_of_strip {cell : Text} (h : strip cell = cell) :
  trimCell cell = cell
  := by
  unfold trimCell
  have first : cell.dropWhile isMargin = cell := by
    refine List.dropWhile_eq_self_iff.mpr fun some margin => ?_
    have head : cell[0] ∈ (strip cell).head? := by
      rw [h]
      exact (List.head?_eq_getElem? ..).trans (List.getElem?_eq_getElem some)
    have visible := isSpace_head?_strip head
    rw [isSpace_of_isMargin margin] at visible
    cases visible
  have last : cell.rdropWhile isMargin = cell := by
    refine List.rdropWhile_eq_self_iff.mpr fun some margin => ?_
    have last : cell.getLast some ∈ (strip cell).getLast? := by
      rw [h]
      exact List.getLast?_eq_getLast_of_ne_nil some
    have visible := isSpace_getLast?_rstrip last
    rw [isSpace_of_isMargin margin] at visible
    cases visible
  rw [first, last]

/-- The cell is shown, and read, as it is. -/
structure Cell.Plain (cell : Cell) : Prop where
  shown : PlainCell cell.text
  iso : ∀ iso, cell = .datetime iso ∨ cell = .moment iso → strip iso = iso

theorem Cell.Plain.strip_text {cell : Cell} (h : cell.Plain) :
  strip cell.text = cell.text
  := by
  cases cell with
  | none => rfl
  | datetime iso => exact h.iso iso (.inl rfl)
  | moment iso => exact h.iso iso (.inr rfl)
  | value str => exact MarkdownLoader.strip_strip str

/-- Cells that are shown as they are are read as they are. -/
theorem readTable_exact {header : List Text} {body : List (List Text)}
    (some : 0 < tableWidth (header :: body))
    (plain : ∀ row ∈ header :: body, ∀ cell ∈ row, PlainCell cell ∧ strip cell = cell) :
  readTable (rowsToMarkdownTable (header :: body)) =
    (header :: body).map (fullRow (tableWidth (header :: body)))
  := by
  have kept := (gridKept_iff header body).mpr
    ⟨some, fun row mem cell mem' => (plain row mem cell mem').1⟩
  rw [readTable_table ((length_splitLines_table_iff header body).mp kept.lines)]
  refine List.map_congr_left fun row mem => ?_
  rw [readLine_padRow some (length_le_tableWidth mem) fun cell mem' =>
    (unescapedPipes_escapeCell_iff cell).mpr (plain row mem cell mem').1.pipes]
  unfold padRow fullRow
  rw [List.map_append, List.map_map, List.map_replicate]
  congr 1
  refine (List.map_congr_left fun cell mem' => ?_).trans (List.map_id row)
  obtain ⟨shown, stripped⟩ := plain row mem cell mem'
  show readCell (escapeCell cell) = cell
  rw [readCell_escapeCell, readMarks_eq_self shown.marks, trimCell_of_strip stripped]

/-! ### The blocks -/

theorem readBlocks_append (bs : List Block) {cs : List Block} (h : (readBlocks cs).1 = []) :
  readBlocks (bs ++ cs) = ((readBlocks bs).1, (readBlocks bs).2 ++ (readBlocks cs).2)
  := by
  induction bs with
  | nil => exact Prod.ext h rfl
  | cons b bs ih =>
    rw [List.cons_append, readBlocks, readBlocks, ih]
    split
    · rfl
    · rfl
    · rfl

/-- The blocks that are added, and how they are read. -/
structure Added (a b : Assembly) (read : List TableRead × List SheetRead) : Prop where
  blocks : ∃ new, b.blocks = a.blocks ++ new ∧ readBlocks new = read ∧
    new.map (·.position.order) = List.range' a.blocks.length new.length

theorem Added.refl (a : Assembly) : Added a a ([], []) := ⟨[], (List.append_nil _).symm, rfl, rfl⟩

/-- A table before others. -/
theorem Added.table {a b : Assembly} {header : List Text} {window : List (List Text)}
    {tables : List TableRead} (h : Added (addTable header a window) b (tables, [])) :
  Added a b (⟨a.path, readTable (rowsToMarkdownTable (header :: window))⟩ :: tables, [])
  := by
  obtain ⟨new, whole, read, order⟩ := h.blocks
  refine ⟨⟨_ :: new, whole.trans (List.append_assoc _ _ _), ?_, ?_⟩⟩
  · rw [readBlocks, read, String.toList_ofList]
  · rw [List.map_cons, order]
    show _ :: List.range' (a.blocks ++ [_]).length new.length = _
    rw [List.length_append, List.length_singleton, List.length_cons, List.range'_succ]

/-- A heading before tables. -/
theorem Added.heading {a b : Assembly} {headings : List (ℕ × Text)} {title : Text}
    {path : List String} {tables : List TableRead}
    (h : Added (Assembly.add .heading title path { a with headings := headings }) b (tables, [])) :
  Added a b ([], [⟨String.ofList title, tables⟩])
  := by
  obtain ⟨new, whole, read, order⟩ := h.blocks
  refine ⟨⟨_ :: new, whole.trans (List.append_assoc _ _ _), ?_, ?_⟩⟩
  · rw [readBlocks, read]
  · rw [List.map_cons, order]
    show _ :: List.range' (a.blocks ++ [_]).length new.length = _
    rw [List.length_append, List.length_singleton, List.length_cons, List.range'_succ]

theorem added_tables (header : List Text) (a : Assembly) (parts : List (List (List Text))) :
  Added a (parts.foldl (addTable header) a)
    (parts.map fun window => ⟨a.path, readTable (rowsToMarkdownTable (header :: window))⟩, [])
  := by
  induction parts generalizing a with
  | nil => exact .refl a
  | cons window parts ih => exact (ih (addTable header a window)).table

theorem Added.trans {a b c : Assembly} {read read' : List TableRead × List SheetRead}
    (h : Added a b read) (h' : Added b c read') (closed : read'.1 = []) :
  Added a c (read.1, read.2 ++ read'.2)
  := by
  obtain ⟨new, whole, rfl, order⟩ := h.blocks
  obtain ⟨new', whole', rfl, order'⟩ := h'.blocks
  refine ⟨⟨new ++ new', ?_, readBlocks_append new closed, ?_⟩⟩
  · rw [whole', whole, List.append_assoc]
  · rw [List.map_append, order, order', whole, List.length_append, List.length_append,
      List.range'_append_1]

/-- There are headings of the first level only. -/
def Flat (a : Assembly) : Prop := ∀ e ∈ a.headings, e.1 = 1

theorem push_of_flat {a : Assembly} (flat : Flat a) (title : Text) :
  Nesting.push a.headings (1, title) = [(1, title)]
  := by
  unfold Nesting.push
  rw [List.rdropWhile_eq_nil_iff.mpr]
  · rfl
  · intro e mem
    exact decide_eq_true (flat e mem).ge

theorem headings_addTables (header : List Text) (a : Assembly) (parts : List (List (List Text))) :
  (parts.foldl (addTable header) a).headings = a.headings
  := by
  induction parts generalizing a with
  | nil => rfl
  | cons window parts ih => exact ih (addTable header a window)

theorem tableWidth_pos {sheet : Sheet} {header : List Text} {data : List (List Text)}
    (lines : sheet.lines = header :: data) (window : List (List Text)) :
  0 < tableWidth (header :: window)
  := by
  have mem : header ∈ sheet.lines := by
    rw [lines]
    exact List.mem_cons_self
  obtain ⟨cell, some, -⟩ := List.any_eq_true.mp (List.mem_filter.mp mem).2
  exact Nat.lt_of_lt_of_le (List.length_pos_of_mem some)
    (length_le_tableWidth List.mem_cons_self)

/-- All cells of the sheet are shown, and read, as they are. -/
def Sheet.Plain (sheet : Sheet) : Prop := ∀ row ∈ sheet.rows, ∀ cell ∈ row, cell.Plain

theorem Sheet.Plain.lines {sheet : Sheet} (h : sheet.Plain) {row : List Text}
    (mem : row ∈ sheet.lines) {cell : Text} (mem' : cell ∈ row) :
  PlainCell cell ∧ strip cell = cell
  := by
  obtain ⟨cells, there, rfl⟩ := List.mem_map.mp (List.mem_filter.mp mem).1
  obtain ⟨c, here, rfl⟩ := List.mem_map.mp mem'
  have plain := h cells there c here
  exact ⟨plain.shown, plain.strip_text⟩

theorem rowsPerBlock_pos : 0 < rowsPerBlock := by decide

/-- A sheet that is not blank is read back from its blocks. -/
theorem added_sheet {a : Assembly} (flat : Flat a) {sheet : Sheet} (plain : sheet.Plain)
    (some : sheet.lines ≠ []) :
  Flat (placeSheet a sheet) ∧
    ∃ read, SheetKept sheet read ∧ Added a (placeSheet a sheet) ([], [read])
  := by
  obtain ⟨header, data, lines⟩ := List.exists_cons_of_ne_nil some
  unfold placeSheet
  rw [lines, push_of_flat flat]
  constructor
  · intro e mem
    rw [headings_addTables] at mem
    rw [List.mem_singleton.mp mem]
  · have tables := added_tables header
      (Assembly.add .heading sheet.title [] { a with headings := [(1, sheet.title)] })
      (windows data rowsPerBlock)
    refine ⟨_, ⟨header, data, windows data rowsPerBlock, lines,
      flatten_windows data rowsPerBlock_pos, fun _ => length_window, rfl, ?_⟩, tables.heading⟩
    refine List.map_congr_left fun window mem => ?_
    rw [readTable_exact (tableWidth_pos lines window)]
    · rfl
    · intro row mem' cell mem''
      refine plain.lines ?_ mem''
      rw [lines]
      rcases List.mem_cons.mp mem' with rfl | there
      · exact List.mem_cons_self
      · exact List.mem_cons_of_mem _ (mem_of_mem_window mem rowsPerBlock_pos there)

theorem added_sheets {a : Assembly} (flat : Flat a) {sheets : List Sheet}
    (plain : ∀ sheet ∈ sheets, sheet.Plain) :
  ∃ reads, List.Forall₂ SheetKept (sheets.filter (·.lines ≠ [])) reads ∧
    Added a (sheets.foldl placeSheet a) ([], reads)
  := by
  induction sheets generalizing a with
  | nil => exact ⟨[], .nil, .refl a⟩
  | cons sheet sheets ih =>
    have plain' : ∀ sheet ∈ sheets, sheet.Plain := fun s mem =>
      plain s (List.mem_cons_of_mem _ mem)
    by_cases blank : sheet.lines = []
    · have same : placeSheet a sheet = a := by
        unfold placeSheet
        rw [blank]
      obtain ⟨reads, kept, added⟩ := ih flat plain'
      refine ⟨reads, ?_, ?_⟩
      · rw [List.filter_cons_of_neg (by simpa using blank)]
        exact kept
      · rw [List.foldl_cons, same]
        exact added
    · obtain ⟨flat', read, here, first⟩ := added_sheet flat (plain sheet List.mem_cons_self) blank
      obtain ⟨reads, kept, added⟩ := ih flat' plain'
      refine ⟨read :: reads, ?_, first.trans added rfl⟩
      rw [List.filter_cons_of_pos (by simpa using blank)]
      exact .cons here kept

/-- A blank sheet, and one with a header and a row. -/
def sampleWorkbook : Workbook where
  worksheets :=
    [⟨"S".toList, [[.none]]⟩,
      ⟨"T".toList, [[.value "a ".toList], [.none, .none], [.value "b".toList]]⟩]

/-- A character that needs no care. -/
def isOrdinary (c : Char) : Bool := !Lines.isLineBreak c && c ≠ '|' && c ≠ '<'

theorem plain_of_ordinary {cell : Text} (h : cell.all isOrdinary = true) :
  PlainCell cell
  := by
  have ordinary : ∀ c ∈ trimCell cell, isOrdinary c = true := by
    intro c mem
    have inside := (List.rdropWhile_prefix isMargin _).subset mem
    exact List.all_eq_true.mp h c ((List.dropWhile_sublist isMargin).subset inside)
  have pipe : '|' ∉ trimCell cell := fun mem => absurd (ordinary _ mem) (by decide)
  have mark : '<' ∉ trimCell cell := fun mem => absurd (ordinary _ mem) (by decide)
  refine ⟨?_, ?_, ?_⟩
  · intro c mem found
    have plain := ordinary c mem
    unfold isOrdinary at plain
    rw [found] at plain
    cases plain
  · intro before rest split
    rw [split] at pipe
    exact absurd (List.mem_append_right before List.mem_cons_self) pipe
  · exact fun found => mark (found.subset List.mem_cons_self)

end Lumina.Etl.Xlsx
