import Mathlib.Data.List.TakeDrop
import Mathlib.Data.Nat.Notation

/-!
# Fenced code

How CommonMark reads the lines of a fenced code block: a line of at least three backticks or tildes
opens it, and the first later line of as many of them and of nothing else closes it.  Up to three
spaces may come before the marks, and the lines between lose as many columns.
-/

namespace Fences

abbrev Line := List Char

def isBlank (c : Char) : Bool :=
  c = ' ' || c = '\t'

/-- The line that opens a block: the spaces before it, and its marks. -/
structure Fence where
  indent : ℕ
  mark : Char
  length : ℕ
deriving DecidableEq

/-- The fence that a line opens.  There is no backtick in what follows backticks. -/
def opening? (line : Line) : Option Fence :=
  let indent := (line.takeWhile (· = ' ')).length
  let rest := line.dropWhile (· = ' ')
  rest.head?.bind fun mark =>
    let length := (rest.takeWhile (· = mark)).length
    if (mark = '`' ∨ mark = '~') ∧ indent ≤ 3 ∧ 3 ≤ length ∧
        (mark = '`' → '`' ∉ rest.dropWhile (· = mark)) then
      some ⟨indent, mark, length⟩
    else none

/-- A line without so many columns of the white space before it; a tab goes to the next multiple of
four columns. -/
def dropColumns : (columns column : ℕ) → Line → Line
  | _, _, [] => []
  | 0, _, line => line
  | columns + 1, column, ' ' :: line => dropColumns columns (column + 1) line
  | columns + 1, column, '\t' :: line =>
      let width := 4 - column % 4
      if width ≤ columns + 1 then dropColumns (columns + 1 - width) (column + width) line
      else List.replicate (width - (columns + 1)) ' ' ++ line
  | _ + 1, _, line => line

namespace Fence

variable (f : Fence)

/-- The line closes the block. -/
def isClosing (line : Line) : Bool :=
  let rest := line.dropWhile (· = ' ')
  (line.takeWhile (· = ' ')).length ≤ 3 && f.length ≤ (rest.takeWhile (· = f.mark)).length &&
    (rest.dropWhile (· = f.mark)).all isBlank

/-- The lines of the code, from those after the opening one. -/
def content (lines : List Line) : List Line :=
  (lines.takeWhile fun line => !f.isClosing line).map (dropColumns f.indent 0)

/-- The lines after the closing one, if there is one. -/
def after? (lines : List Line) : Option (List Line) :=
  match lines.dropWhile fun line => !f.isClosing line with
  | [] => none
  | _ :: after => some after

end Fence

/-- The code of a block at the beginning of a text, and the lines after it. -/
def block? : List Line → Option (List Line × List Line)
  | [] => none
  | first :: lines => do
      let f ← opening? first
      let after ← f.after? lines
      return (f.content lines, after)

/-! ### Where a block ends -/

theorem dropColumns_zero (column : ℕ) (line : Line) :
  dropColumns 0 column line = line
  := by
  cases line
  all_goals rfl

/-- Only spaces are new. -/
theorem mem_dropColumns {columns column : ℕ} {line : Line} {c : Char}
    (h : c ∈ dropColumns columns column line) :
  c ∈ line ∨ c = ' '
  := by
  fun_induction dropColumns columns column line with
  | case1 => cases h
  | case2 => exact Or.inl h
  | case3 _ _ line ih => exact (ih h).imp_left (List.mem_cons_of_mem _)
  | case4 _ _ line _ _ ih => exact (ih h).imp_left (List.mem_cons_of_mem _)
  | case5 _ _ line =>
    rcases List.mem_append.mp h with h | h
    · exact Or.inr (List.eq_of_mem_replicate h)
    · exact Or.inl (List.mem_cons_of_mem _ h)
  | case6 => exact Or.inl h

namespace Fence

variable {f : Fence} {lines : List Line}

/-- Lines that do not close a block belong to it. -/
theorem content_append (inside : ∀ line ∈ lines, f.isClosing line = false) (rest : List Line) :
  f.content (lines ++ rest) = lines.map (dropColumns f.indent 0) ++ f.content rest
  := by
  unfold content
  rw [List.takeWhile_append_of_pos fun line mem => by rw [inside line mem]; rfl, List.map_append]

theorem after?_append (inside : ∀ line ∈ lines, f.isClosing line = false) (rest : List Line) :
  f.after? (lines ++ rest) = f.after? rest
  := by
  unfold after?
  rw [List.dropWhile_append_of_pos fun line mem => by rw [inside line mem]; rfl]

theorem content_cons {stop : Line} (closing : f.isClosing stop = true) (rest : List Line) :
  f.content (stop :: rest) = []
  := by
  unfold content
  rw [List.takeWhile_cons_of_neg (by rw [closing]; exact Bool.false_ne_true)]
  rfl

theorem after?_cons {stop : Line} (closing : f.isClosing stop = true) (rest : List Line) :
  f.after? (stop :: rest) = some rest
  := by
  unfold after?
  rw [List.dropWhile_cons_of_neg (by rw [closing]; exact Bool.false_ne_true)]

/-- A line that closes the block leaves those after it outside. -/
theorem exists_after? (closed : ∃ line ∈ lines, f.isClosing line = true) :
  ∃ outside, ∀ rest, f.after? (lines ++ rest) = some (outside ++ rest)
  := by
  induction lines with
  | nil => exact absurd closed (by simp)
  | cons line lines ih =>
    cases closing : f.isClosing line with
    | true => exact ⟨lines, fun rest => after?_cons closing _⟩
    | false =>
      obtain ⟨stop, mem, hstop⟩ := closed
      have later : stop ∈ lines := by
        rcases List.mem_cons.mp mem with rfl | mem
        · cases closing.symm.trans hstop
        · exact mem
      obtain ⟨outside, houtside⟩ := ih ⟨stop, later, hstop⟩
      refine ⟨outside, fun rest => ?_⟩
      have first : ∀ l ∈ [line], f.isClosing l = false := by simpa using closing
      exact (after?_append first (lines ++ rest)).trans (houtside rest)

end Fence

end Fences
