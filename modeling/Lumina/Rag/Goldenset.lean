import Lumina.Etl.Text
import Lumina.Library.Fallible
import Lumina.Library.Lines
import Lumina.Library.PyJsonRoundTrip
import Lumina.Library.PyJsonText
import Mathlib.Data.Finset.Basic
import Mathlib.Data.List.Sort

/-!
# Corpora and golden sets in files

`rag/goldenset.py` reads a file of JSON, one row on each line, and `scripts/sample_corpus.py` writes
it.  A row is written with the characters that are not ASCII as they are, and the reader takes the
file apart wherever Unicode ends a line.
-/

namespace Lumina.Rag.Goldenset

open Etl (Text isSpace)
open Fallible (ok_of_bind ok_of_map orRaise)
open Lines (isLineBreak splitLines universalNewlines universalNewlines_of_forall)
open PyJson (IsScalar Occurs Printable Readable Str Value str)

/-! ### Records and errors -/

structure Passage where
  passageId : Str
  title : Str
  text : Str
deriving DecidableEq

structure Question where
  questionId : Str
  question : Str
  passageIds : Finset Str
  language : Str
  source : Str
deriving DecidableEq

structure Corpus where
  name : String
  passages : List Passage
  sha256 : String

structure GoldenSet where
  name : String
  questions : List Question
  sha256 : String

/-- A path, and the bytes of the file that may be there. -/
structure File where
  path : String
  name : String
  stem : String
  bytes : Option (List ℕ) := none

/-- The members of an object of JSON. -/
abbrev Row := List (Str × Value)

inductive GoldenSetError where
  | missing
  | notJson (lineNo : ℕ) (line : Text)
  | notObject (lineNo : ℕ) (parsed : Value)
  | missingField (lineNo : ℕ) (key : String)
  | blankField (lineNo : ℕ) (key : String)
  | duplicate (lineNo : ℕ) (key : String) (id : Str)
  | notStrings (lineNo : ℕ)
  | noPassages (lineNo : ℕ) (questionId : Str)
  | empty (rows : String)

/-- What `type` of a parsed value is shown as. -/
def typeName : Value → String
  | .none => "<class 'NoneType'>"
  | .bool _ => "<class 'bool'>"
  | .int _ => "<class 'int'>"
  | .float _ => "<class 'float'>"
  | .str _ => "<class 'str'>"
  | .list _ => "<class 'list'>"
  | .dict _ => "<class 'dict'>"

/-- The text of an error; that of a `JSONDecodeError` is `jsonError`. -/
def GoldenSetError.message (file : File) (jsonError : Text → Str) : GoldenSetError → Str
  | .missing => str ("找不到資料檔：" ++ file.path)
  | .notJson lineNo line => place lineNo ++ str " 不是合法的 JSON：" ++ jsonError line
  | .notObject lineNo parsed => place lineNo ++ str (" 應該是一個物件，收到 " ++ typeName parsed)
  | .missingField lineNo key => place lineNo ++ str (" 缺少字串欄位 " ++ key)
  | .blankField lineNo key => place lineNo ++ str (" 的 " ++ key ++ " 是空的")
  | .duplicate lineNo key id => place lineNo ++ str (" " ++ key ++ " 重複：") ++ id
  | .notStrings lineNo => place lineNo ++ str " 的 passage_ids 必須是字串陣列"
  | .noPassages lineNo questionId =>
      place lineNo ++ str " 題目 " ++ questionId ++ str " 沒有指定任何正解段落"
  | .empty rows => str (file.name ++ " 沒有任何" ++ rows)
where
  place (lineNo : ℕ) : Str := str (file.name ++ ":" ++ toString lineNo)

inductive LoadError where
  | goldenSet (e : GoldenSetError)
  /-- `UnicodeDecodeError`. -/
  | unicode
  /-- `RecursionError`. -/
  | recursion

/-- What the loaders take from elsewhere: the depth of JSON that the interpreter allows beyond that of
a row, and the digest of a file. -/
structure Reader where
  depth : ℕ
  sha256 : List ℕ → String

/-! ### The loaders -/

/-- `path.read_text(encoding="utf-8")`. -/
def readText (bytes : List ℕ) : Option Text :=
  (PyJson.decodeUtf8 bytes).map fun s => universalNewlines (s.map Char.ofNat)

/-- `not s.strip()`. -/
def isBlank (s : Str) : Bool :=
  s.all fun u => isSpace (Char.ofNat u)

/-- A `ValueError` is one of the JSON, unless an integer has too many digits. -/
def parseRow (reader : Reader) (lineNo : ℕ) (line : Text) : Except LoadError Row :=
  match PyJson.loads (reader.depth + 2) (line.map Char.toNat) with
  | .error .valueError => .error (.goldenSet (.notJson lineNo line))
  | .error .recursionError => .error .recursion
  | .ok (.dict members) => .ok members
  | .ok parsed => .error (.goldenSet (.notObject lineNo parsed))

/-- `_text_field`. -/
def textField (row : Row) (key : String) (lineNo : ℕ) (allowBlank : Bool := false) :
    Except LoadError Str :=
  match row.lookup (str key) with
  | some (.str value) =>
    if !allowBlank && isBlank value then .error (.goldenSet (.blankField lineNo key)) else .ok value
  | _ => .error (.goldenSet (.missingField lineNo key))

def asString : Value → Option Str
  | .str s => some s
  | _ => none

/-- `_passage_ids`. -/
def passageIds (row : Row) (lineNo : ℕ) (questionId : Str) : Except LoadError (Finset Str) :=
  match row.lookup (str "passage_ids") with
  | some (.list value) =>
    match value.mapM asString with
    | none => .error (.goldenSet (.notStrings lineNo))
    | some ids =>
      if ids = [] then .error (.goldenSet (.noPassages lineNo questionId)) else .ok ids.toFinset
  | _ => .error (.goldenSet (.notStrings lineNo))

/-- Identifiers are compared by their code points. -/
local instance lawful_id : LawfulBEq Str := inferInstance

/-- The loop of a loader over `_rows`, where `item` makes a row and its identifier a record. -/
def collect {α : Type} (reader : Reader) (key : String)
    (item : ℕ → Row → Str → Except LoadError α) (seen : List Str) :
    List (Text × ℕ) → Except LoadError (List α)
  | [] => .ok []
  | (line, lineNo) :: lines =>
    if line.all isSpace then collect reader key item seen lines
    else
      (parseRow reader lineNo line).bind fun row =>
        (textField row key lineNo).bind fun id =>
          if id ∈ seen then .error (.goldenSet (.duplicate lineNo key id))
          else
            (item lineNo row id).bind fun a =>
              (collect reader key item (id :: seen) lines).map (a :: ·)

/-- The passage of a row. -/
def passage (lineNo : ℕ) (row : Row) (passageId : Str) : Except LoadError Passage := do
  let title ← textField row "title" lineNo true
  let text ← textField row "text" lineNo
  .ok ⟨passageId, title, text⟩

/-- The question of a row. -/
def question (lineNo : ℕ) (row : Row) (questionId : Str) : Except LoadError Question := do
  let question ← textField row "question" lineNo
  let ids ← passageIds row lineNo questionId
  let language ← textField row "language" lineNo
  let source ← textField row "source" lineNo
  .ok ⟨questionId, question, ids, language, source⟩

/-- The bytes and the numbered lines of a file. -/
def readLines (file : File) : Except LoadError (List ℕ × List (Text × ℕ)) := do
  let bytes ← orRaise (.goldenSet .missing) file.bytes
  let text ← orRaise .unicode (readText bytes)
  .ok (bytes, (splitLines text).zipIdx 1)

def loadCorpus (reader : Reader) (file : File) : Except LoadError Corpus := do
  let (bytes, lines) ← readLines file
  let passages ← collect reader "passage_id" passage [] lines
  if passages = [] then .error (.goldenSet (.empty "段落"))
  else .ok ⟨file.stem, passages, reader.sha256 bytes⟩

def loadGoldenset (reader : Reader) (file : File) : Except LoadError GoldenSet := do
  let (bytes, lines) ← readLines file
  let questions ← collect reader "question_id" question [] lines
  if questions = [] then .error (.goldenSet (.empty "題目"))
  else .ok ⟨file.stem, questions, reader.sha256 bytes⟩

/-! ### `_write` -/

/-- The members of a row by their keys; none of them is an object that has keys of its own. -/
def sortKeys (row : Row) : Row :=
  row.insertionSort fun m m' => m.1 ≤ m'.1

/-- `json.dumps(row, ensure_ascii=False, sort_keys=True)`, of a row without numbers. -/
def rowText (row : Row) : Str :=
  PyJson.dumps ⟨false, true⟩ (fun _ => []) (.dict (sortKeys row))

/-- The bytes that `_write` leaves in the file; there are none if a surrogate cannot be encoded. -/
def write (rows : List Row) : Option (List ℕ) :=
  PyJson.encodeUtf8 (rows.flatMap fun row => rowText row ++ str "\n")

/-- What a loader makes of a file that has been written. -/
def readBack {β : Type} (load : File → Except LoadError β) (file : File) (rows : List Row) :
    Option (Except LoadError β) :=
  (write rows).map fun bytes => load { file with bytes := some bytes }

/-- A row of a corpus. -/
def Passage.row (p : Passage) : Row :=
  [(str "passage_id", .str p.passageId), (str "title", .str p.title), (str "text", .str p.text)]

/-- A row of a golden set, whose passages are in a list. -/
structure QuestionRow where
  questionId : Str
  question : Str
  passageIds : List Str
  language : Str
  source : Str
deriving DecidableEq

namespace QuestionRow

def row (q : QuestionRow) : Row :=
  [(str "question_id", .str q.questionId), (str "question", .str q.question),
    (str "passage_ids", .list (q.passageIds.map .str)), (str "language", .str q.language),
    (str "source", .str q.source)]

/-- The question that the row is for. -/
def asQuestion (q : QuestionRow) : Question :=
  ⟨q.questionId, q.question, q.passageIds.toFinset, q.language, q.source⟩

end QuestionRow

/-! ### The text of a row -/

/-- The characters that end a line without being escaped. -/
def endsLine (u : ℕ) : Bool :=
  [0x85, 0x2028, 0x2029].contains u

theorem le_of_endsLine {u : ℕ} (h : endsLine u = true) :
  0x80 ≤ u
  := by
  simp only [endsLine, List.contains_eq_mem, List.mem_cons, List.not_mem_nil, or_false,
    decide_eq_true_eq] at h
  omega

theorem toNat_ofNat {u : ℕ} (h : IsScalar u) :
  (Char.ofNat u).toNat = u
  := by
  have valid : u.isValidChar := h
  rw [Char.ofNat, dif_pos valid]
  rfl

theorem map_toNat_ofNat {s : Str} (h : ∀ u ∈ s, IsScalar u) :
  (s.map Char.ofNat).map Char.toNat = s
  := by
  rw [List.map_map]
  exact (List.map_congr_left fun u hu => toNat_ofNat (h u hu)).trans (List.map_id s)

theorem isLineBreak_ofNat {u : ℕ} (scalar : IsScalar u) (h : 0x20 ≤ u) :
  isLineBreak (Char.ofNat u) = endsLine u
  := by
  have same (c : Char) : Char.ofNat u = c ↔ u = c.toNat := by
    rw [← Char.toNat_inj, toNat_ofNat scalar]
  unfold isLineBreak endsLine
  simp only [List.contains_eq_mem, List.mem_cons, List.not_mem_nil, or_false, same,
    decide_eq_decide, Char.reduceToNat]
  omega

theorem isScalar_of_printable {u : ℕ} (h : Printable u) :
  IsScalar u
  :=
  .inl (h.2.trans (by decide))

/-- The line of a row. -/
def rowLine (row : Row) : Text :=
  (rowText row).map Char.ofNat

theorem mem_rowText {row : Row} {u : ℕ} (h : u ∈ rowText row) :
  Printable u ∨ 0x80 ≤ u ∧ Occurs u (.dict (sortKeys row))
  :=
  PyJson.mem_dumps (fun _ _ hc => absurd hc List.not_mem_nil) h

theorem rowText_eq (row : Row) :
  ∃ middle, rowText row = '{'.toNat :: middle ++ ['}'.toNat]
  := by
  unfold rowText
  cases sortKeys row with
  | nil => exact ⟨[], rfl⟩
  | cons m rest => exact ⟨_, rfl⟩

theorem rowLine_eq (row : Row) :
  ∃ middle, rowLine row = '{' :: middle ++ ['}']
  := by
  obtain ⟨middle, text⟩ := rowText_eq row
  refine ⟨middle.map Char.ofNat, ?_⟩
  rw [rowLine, text, List.map_append, List.map_cons]
  rfl

theorem open_rowLine (row : Row) :
  Lines.Open (rowLine row)
  := by
  obtain ⟨middle, line⟩ := rowLine_eq row
  exact ⟨'}', by rw [line, List.getLast?_concat]; rfl, rfl⟩

/-- The strings of a row can be encoded. -/
def Scalar (row : Row) : Prop :=
  ∀ u, Occurs u (.dict (sortKeys row)) → IsScalar u

theorem isScalar_rowText {row : Row} (scalar : Scalar row) {u : ℕ} (h : u ∈ rowText row) :
  IsScalar u
  :=
  (mem_rowText h).elim isScalar_of_printable fun ⟨_, occurs⟩ => scalar u occurs

/-- The line of a row has a boundary in it if one is in its strings. -/
theorem exists_isLineBreak_iff {row : Row} (scalar : Scalar row) :
  (∃ c ∈ rowLine row, isLineBreak c = true) ↔
    ∃ u, endsLine u = true ∧ Occurs u (.dict (sortKeys row))
  := by
  constructor
  · rintro ⟨c, hc, newline⟩
    obtain ⟨u, hu, rfl⟩ := List.mem_map.mp hc
    have ends : 0x20 ≤ u → endsLine u = true := fun le => by
      rwa [isLineBreak_ofNat (isScalar_rowText scalar hu) le] at newline
    rcases mem_rowText hu with printable | ⟨le, occurs⟩
    · have := le_of_endsLine (ends printable.1)
      have := printable.2
      omega
    · exact ⟨u, ends (by omega), occurs⟩
  · rintro ⟨u, ends, occurs⟩
    have le := le_of_endsLine ends
    refine ⟨Char.ofNat u, List.mem_map_of_mem (PyJson.mem_dumps_of_occurs le occurs), ?_⟩
    rw [isLineBreak_ofNat (scalar u occurs) (by omega)]
    exact ends

/-! ### The lines of a file -/

/-- The file has the lines of the rows, wherever they are taken apart. -/
theorem readLines_written {rows : List Row} (scalar : ∀ row ∈ rows, Scalar row) (file : File) :
  ∃ bytes, write rows = some bytes ∧ readLines { file with bytes := some bytes } =
    .ok (bytes, (rows.flatMap fun row => splitLines (rowLine row)).zipIdx 1)
  := by
  have points {u : ℕ} (h : u ∈ rows.flatMap fun row => rowText row ++ str "\n") :
      u = '\n'.toNat ∨ 0x20 ≤ u ∧ IsScalar u := by
    obtain ⟨row, hrow, h⟩ := List.mem_flatMap.mp h
    rcases List.mem_append.mp h with h | h
    · refine .inr ⟨?_, isScalar_rowText (scalar row hrow) h⟩
      rcases mem_rowText h with printable | ⟨le, -⟩
      · exact printable.1
      · omega
    · exact .inl (List.mem_singleton.mp h)
  have scalars : ∀ u ∈ rows.flatMap fun row => rowText row ++ str "\n", IsScalar u := by
    intro u hu
    rcases points hu with rfl | ⟨-, h⟩
    · decide
    · exact h
  have encodes : write rows = some _ :=
    if_pos (List.all_eq_true.mpr fun u hu => decide_eq_true (scalars u hu))
  refine ⟨_, encodes, ?_⟩
  have text : ((rows.flatMap fun row => rowText row ++ str "\n").map Char.ofNat) =
      (rows.map rowLine).flatMap fun line => line ++ ['\n'] := by
    rw [List.map_flatMap, List.flatMap_map]
    exact List.flatMap_congr fun row _ => List.map_append
  have noReturn : '\r' ∉ (rows.map rowLine).flatMap fun line => line ++ ['\n'] := by
    rw [← text, List.mem_map]
    rintro ⟨u, hu, same⟩
    have value := congrArg Char.toNat same
    rw [toNat_ofNat (scalars u hu)] at value
    rcases points hu with rfl | ⟨le, -⟩
    · exact absurd value (by decide)
    · rw [value] at le
      exact absurd le (by decide)
  have read : readText ((rows.flatMap fun row => rowText row ++ str "\n").flatMap PyJson.utf8Bytes) =
      some ((rows.map rowLine).flatMap fun line => line ++ ['\n']) := by
    rw [readText, PyJson.decodeUtf8_encodeUtf8 encodes, Option.map_some, text,
      universalNewlines_of_forall noReturn]
  have opened : ∀ line ∈ rows.map rowLine, Lines.Open line := by
    intro line hline
    obtain ⟨row, -, rfl⟩ := List.mem_map.mp hline
    exact open_rowLine row
  change (orRaise LoadError.unicode (readText _)).bind _ = _
  rw [read]
  change Except.ok _ = _
  rw [Lines.splitLines_flatMap_newline opened, List.flatMap_map]

theorem parseRow_rowLine {reader : Reader} {row : Row} (scalar : Scalar row)
    (readable : Readable ⟨false, true⟩ (fun _ => []) (reader.depth + 2) (.dict (sortKeys row)))
    (lineNo : ℕ) :
  parseRow reader lineNo (rowLine row) = .ok (sortKeys row)
  := by
  obtain ⟨middle, text⟩ := rowText_eq row
  have points : (rowLine row).map Char.toNat = rowText row :=
    map_toNat_ofNat fun u hu => isScalar_rowText scalar hu
  have unmarked : (rowText row).head? ≠ some 0xFEFF := by
    rw [text]
    change some '{'.toNat ≠ _
    decide
  have read : PyJson.loads (reader.depth + 2) (rowText row) = .ok (.dict (sortKeys row)) := by
    rw [PyJson.loads, if_neg unmarked]
    exact PyJson.decode_dumps readable
  rw [parseRow, points, read]

/-! ### The loop -/

section

variable {α β : Type} {reader : Reader} {key : String} {item : ℕ → Row → Str → Except LoadError α}

/-- There are as many records as lines that are not blank. -/
theorem length_of_collect {seen : List Str} {lines : List (Text × ℕ)} {records : List α}
    (h : collect reader key item seen lines = .ok records) :
  records.length = (lines.map Prod.fst).countP fun line => !line.all isSpace
  := by
  induction lines generalizing seen records with
  | nil =>
    cases h
    rfl
  | cons numbered lines ih =>
    obtain ⟨line, lineNo⟩ := numbered
    rw [List.map_cons, List.countP_cons]
    rw [collect] at h
    split_ifs at h with blank
    · rw [ih h, blank]
      rfl
    · obtain ⟨row, -, h⟩ := ok_of_bind h
      obtain ⟨id, -, h⟩ := ok_of_bind h
      split_ifs at h
      obtain ⟨a, -, h⟩ := ok_of_bind h
      obtain ⟨others, collected, rfl⟩ := ok_of_map h
      rw [List.length_cons, ih collected, Bool.eq_false_iff.mpr blank]
      rfl

/-- Every record is made of a row. -/
theorem exists_of_collect {seen : List Str} {lines : List (Text × ℕ)} {records : List α}
    (h : collect reader key item seen lines = .ok records) {a : α} (ha : a ∈ records) :
  ∃ lineNo row id, item lineNo row id = .ok a
  := by
  induction lines generalizing seen records with
  | nil =>
    cases h
    cases ha
  | cons numbered lines ih =>
    obtain ⟨line, lineNo⟩ := numbered
    rw [collect] at h
    split_ifs at h
    · exact ih h ha
    · obtain ⟨row, -, h⟩ := ok_of_bind h
      obtain ⟨id, -, h⟩ := ok_of_bind h
      split_ifs at h
      obtain ⟨b, made, h⟩ := ok_of_bind h
      obtain ⟨others, collected, rfl⟩ := ok_of_map h
      rcases List.mem_cons.mp ha with rfl | ha
      · exact ⟨lineNo, row, id, made⟩
      · exact ih collected ha

/-- A record is written as a row from which its identifier is read. -/
structure Fits (reader : Reader) (key : String) (row : β → Row) (id : β → Str) (x : β) : Prop where
  scalar : Scalar (row x)
  readable : Readable ⟨false, true⟩ (fun _ => []) (reader.depth + 2) (.dict (sortKeys (row x)))
  field : ∀ lineNo, textField (sortKeys (row x)) key lineNo = .ok (id x)

variable {row : β → Row} {id : β → Str} {out : β → α}

theorem scalar_rows {xs : List β} (fits : ∀ x ∈ xs, Fits reader key row id x) :
  ∀ written ∈ xs.map row, Scalar written
  := by
  intro written hwritten
  obtain ⟨x, hx, rfl⟩ := List.mem_map.mp hwritten
  exact (fits x hx).scalar

/-- Rows that are a line each are collected in their order. -/
theorem collect_rowLines {xs : List β} (fits : ∀ x ∈ xs, Fits reader key row id x)
    (made : ∀ x ∈ xs, ∀ lineNo, item lineNo (sortKeys (row x)) (id x) = .ok (out x))
    {seen : List Str} (nodup : (xs.map id).Nodup) (fresh : ∀ x ∈ xs, id x ∉ seen) (lineNo : ℕ) :
  collect reader key item seen ((xs.map fun x => rowLine (row x)).zipIdx lineNo) =
    .ok (xs.map out)
  := by
  induction xs generalizing seen lineNo with
  | nil => rfl
  | cons x xs ih =>
    have fit := fits x List.mem_cons_self
    obtain ⟨new, distinct⟩ := List.nodup_cons.mp nodup
    have solid : (rowLine (row x)).all isSpace = false := by
      obtain ⟨middle, line⟩ := rowLine_eq (row x)
      rw [line]
      rfl
    have later : ∀ y ∈ xs, id y ∉ id x :: seen := by
      intro y hy
      rw [List.mem_cons, not_or]
      refine ⟨fun same => new ?_, fresh y (List.mem_cons_of_mem x hy)⟩
      exact List.mem_map.mpr ⟨y, hy, same⟩
    have rest := ih (fun y hy => fits y (List.mem_cons_of_mem x hy))
      (fun y hy => made y (List.mem_cons_of_mem x hy)) distinct later (lineNo + 1)
    rw [List.map_cons, List.zipIdx_cons, collect, if_neg (Bool.eq_false_iff.mp solid),
      parseRow_rowLine fit.scalar fit.readable]
    change (textField _ key lineNo).bind _ = _
    rw [fit.field]
    change (if id x ∈ seen then _ else _) = _
    rw [if_neg (fresh x List.mem_cons_self), made x List.mem_cons_self]
    change (collect reader key item _ _).map _ = _
    rw [rest]
    rfl

/-- A file in which a line ends within a row has too many lines. -/
theorem length_lt_countP {rows : List Row} (scalar : ∀ row ∈ rows, Scalar row) {row : Row}
    (hrow : row ∈ rows) {u : ℕ} (ends : endsLine u = true)
    (occurs : Occurs u (.dict (sortKeys row))) :
  rows.length <
    (rows.flatMap fun row => splitLines (rowLine row)).countP fun line => !line.all isSpace
  := by
  have least (rows : List Row) : rows.length ≤
      (rows.flatMap fun row => splitLines (rowLine row)).countP fun line => !line.all isSpace := by
    induction rows with
    | nil => exact Nat.le_refl 0
    | cons row rows ih =>
      obtain ⟨middle, text⟩ := rowLine_eq row
      have begins : '{' ∈ rowLine row := by
        rw [text]
        exact List.mem_cons_self
      obtain ⟨line, hline, mem⟩ := Lines.exists_mem_splitLines begins rfl
      have solid : line.all isSpace = false := List.all_eq_false.mpr ⟨_, mem, by decide⟩
      have some : 0 < (splitLines (rowLine row)).countP fun line => !line.all isSpace :=
        List.countP_pos_iff.mpr ⟨line, hline, by rw [solid]; rfl⟩
      rw [List.flatMap_cons, List.countP_append, List.length_cons]
      omega
  have two : 2 ≤ (splitLines (rowLine row)).countP fun line => !line.all isSpace := by
    obtain ⟨c, hc, newline⟩ := (exists_isLineBreak_iff (scalar row hrow)).mpr ⟨u, ends, occurs⟩
    have opened := open_rowLine row
    obtain ⟨middle, text⟩ := rowLine_eq row
    rw [text] at hc opened ⊢
    have last := List.getLast?_concat (l := '{' :: middle) (a := '}')
    exact Lines.two_le_countP_splitLines rfl rfl opened last rfl hc newline
  obtain ⟨before, after, rfl⟩ := List.append_of_mem hrow
  have := least before
  have := least after
  rw [List.flatMap_append, List.flatMap_cons, List.countP_append, List.countP_append,
    List.length_append, List.length_cons]
  omega

/-- What a row has that is not ASCII is in its strings. -/
def Spelled (row : Row) (strings : Str) : Prop :=
  ∀ u, 0x80 ≤ u → (Occurs u (.dict (sortKeys row)) ↔ u ∈ strings)

/-- No character ends a line without being escaped. -/
def Unbroken (s : Str) : Prop :=
  ∀ u ∈ s, endsLine u = false

theorem scalar_of_spelled {row : Row} {strings : Str} (spelled : Spelled row strings)
    (h : ∀ u ∈ strings, IsScalar u) :
  Scalar row
  := by
  intro u occurs
  rcases Nat.lt_or_ge u 0x80 with ascii | high
  · exact .inl (ascii.trans (by decide))
  · exact h u ((spelled u high).mp occurs)

variable {strings : β → Str}

/-- Rows without such a character are a line each. -/
theorem lines_of_unbroken {xs : List β} (fits : ∀ x ∈ xs, Fits reader key row id x)
    (spelled : ∀ x ∈ xs, Spelled (row x) (strings x)) (unbroken : ∀ x ∈ xs, Unbroken (strings x)) :
  ((xs.map row).flatMap fun row => splitLines (rowLine row)) = xs.map fun x => rowLine (row x)
  := by
  rw [List.flatMap_map, List.map_eq_flatMap]
  refine List.flatMap_congr fun x hx => Lines.splitLines_of_forall (open_rowLine _).ne_nil ?_
  by_contra! breaks
  obtain ⟨c, hc, newline⟩ := breaks
  replace newline := Bool.eq_true_of_not_eq_false newline
  obtain ⟨u, ends, occurs⟩ := (exists_isLineBreak_iff (fits x hx).scalar).mp ⟨c, hc, newline⟩
  have mem := (spelled x hx u (le_of_endsLine ends)).mp occurs
  rw [unbroken x hx u mem] at ends
  cases ends

/-- There is no such character in rows that come back as so many records. -/
theorem unbroken_of_collect {xs : List β} (fits : ∀ x ∈ xs, Fits reader key row id x)
    (spelled : ∀ x ∈ xs, Spelled (row x) (strings x)) {seen : List Str} {lineNo : ℕ}
    {records : List α}
    (h : collect reader key item seen
      (((xs.map row).flatMap fun row => splitLines (rowLine row)).zipIdx lineNo) = .ok records)
    (same : records.length = xs.length) :
  ∀ x ∈ xs, Unbroken (strings x)
  := by
  intro x hx u hu
  by_contra ends
  rw [Bool.not_eq_false] at ends
  have scalar : ∀ r ∈ xs.map row, Scalar r := by
    intro r hr
    obtain ⟨y, hy, rfl⟩ := List.mem_map.mp hr
    exact (fits y hy).scalar
  have occurs := (spelled x hx u (le_of_endsLine ends)).mpr hu
  have count := length_of_collect h
  have many := length_lt_countP scalar (List.mem_map_of_mem hx) ends occurs
  rw [List.zipIdx_map_fst, same] at count
  rw [← count, List.length_map] at many
  exact Nat.lt_irrefl _ many

end

/-! ### Corpora -/

namespace Passage

/-- The strings of a passage, one after another. -/
def strings (p : Passage) : Str :=
  p.passageId ++ p.title ++ p.text

/-- What the reader asks for. -/
structure Valid (p : Passage) : Prop where
  scalar : ∀ u ∈ p.strings, IsScalar u
  passageId : isBlank p.passageId = false
  text : isBlank p.text = false

theorem sortKeys_row (p : Passage) :
  sortKeys p.row =
    [(str "passage_id", .str p.passageId), (str "text", .str p.text), (str "title", .str p.title)]
  :=
  rfl

theorem spelled (p : Passage) :
  Spelled p.row p.strings
  := by
  intro u high
  have key {s : String} (h : (str s).all fun u => Printable u) : u ∉ str s := fun hu => by
    have := (PyJson.printable_of_mem_str h hu).2
    omega
  rw [sortKeys_row, PyJson.occurs_dict]
  simp only [List.exists_mem_cons_iff, List.not_mem_nil, false_and, exists_false, or_false,
    PyJson.occurs_str, key (s := "passage_id") (by decide), key (s := "text") (by decide),
    key (s := "title") (by decide), false_or, strings, List.mem_append]
  tauto

theorem Valid.fits {p : Passage} (h : p.Valid) (reader : Reader) :
  Fits reader "passage_id" row Passage.passageId p
  where
  scalar := scalar_of_spelled p.spelled h.scalar
  readable := by
    rw [sortKeys_row]
    have keys : [str "passage_id", str "text", str "title"].Nodup := by decide
    refine .dict _ keys (fun _ _ _ _ h => nomatch h) fun m hm => ?_
    simp only [List.mem_cons, List.not_mem_nil, or_false] at hm
    rcases hm with rfl | rfl | rfl
    all_goals exact .str _ fun _ _ h => nomatch h
  field lineNo := by
    change (if !false && isBlank p.passageId then _ else _) = _
    rw [h.passageId]
    rfl

theorem Valid.made {p : Passage} (h : p.Valid) (lineNo : ℕ) :
  passage lineNo (sortKeys p.row) p.passageId = .ok p
  := by
  have text : textField (sortKeys p.row) "text" lineNo = .ok p.text := by
    change (if !false && isBlank p.text then _ else _) = _
    rw [h.text]
    rfl
  change (textField _ "text" lineNo).bind _ = _
  rw [text]
  rfl

end Passage

/-- The passages of a corpus come back if no character ends a line within a row. -/
theorem corpus_read_back {passages : List Passage} (some : passages ≠ [])
    (distinct : (passages.map Passage.passageId).Nodup) (valid : ∀ p ∈ passages, p.Valid)
    (reader : Reader) (file : File) :
  (∃ corpus, readBack (loadCorpus reader) file (passages.map Passage.row) = .some (.ok corpus) ∧
      corpus.passages = passages) ↔
    ∀ p ∈ passages, Unbroken p.strings
  := by
  have fits : ∀ p ∈ passages, Fits reader "passage_id" Passage.row Passage.passageId p :=
    fun p hp => (valid p hp).fits reader
  obtain ⟨bytes, written, lines⟩ := readLines_written (scalar_rows fits) file
  have spelled : ∀ p ∈ passages, Spelled p.row p.strings := fun p _ => p.spelled
  have loaded : loadCorpus reader { file with bytes := .some bytes } =
      (collect reader "passage_id" passage [] (((passages.map Passage.row).flatMap
        fun row => splitLines (rowLine row)).zipIdx 1)).bind fun passages =>
        if passages = [] then .error (.goldenSet (.empty "段落"))
        else .ok ⟨file.stem, passages, reader.sha256 bytes⟩ := by
    unfold loadCorpus
    rw [lines]
    rfl
  rw [readBack, written, Option.map_some]
  constructor
  · rintro ⟨corpus, same, rfl⟩
    rw [loaded] at same
    obtain ⟨passages, collected, result⟩ := ok_of_bind (Option.some.inj same)
    split_ifs at result
    cases result
    exact unbroken_of_collect fits spelled collected rfl
  · intro unbroken
    have made : ∀ p ∈ passages, ∀ lineNo,
        passage lineNo (sortKeys p.row) p.passageId = .ok p := fun p hp => (valid p hp).made
    have collected := collect_rowLines fits made distinct (fun _ _ => List.not_mem_nil) 1
    rw [List.map_id'] at collected
    refine ⟨⟨file.stem, passages, reader.sha256 bytes⟩, congrArg Option.some ?_, rfl⟩
    rw [loaded, lines_of_unbroken fits spelled unbroken, collected]
    exact if_neg some

/-! ### Golden sets -/

namespace QuestionRow

/-- The strings of a question, one after another. -/
def strings (q : QuestionRow) : Str :=
  q.questionId ++ q.question ++ q.passageIds.flatten ++ q.language ++ q.source

/-- What the reader asks for, except that there are passages. -/
structure Valid (q : QuestionRow) : Prop where
  scalar : ∀ u ∈ q.strings, IsScalar u
  questionId : isBlank q.questionId = false
  question : isBlank q.question = false
  language : isBlank q.language = false
  source : isBlank q.source = false

theorem sortKeys_row (q : QuestionRow) :
  sortKeys q.row =
    [(str "language", .str q.language), (str "passage_ids", .list (q.passageIds.map .str)),
      (str "question", .str q.question), (str "question_id", .str q.questionId),
      (str "source", .str q.source)]
  :=
  rfl

theorem spelled (q : QuestionRow) :
  Spelled q.row q.strings
  := by
  intro u high
  have key {s : String} (h : (str s).all fun u => Printable u) : u ∉ str s := fun hu => by
    have := (PyJson.printable_of_mem_str h hu).2
    omega
  rw [sortKeys_row, PyJson.occurs_dict]
  simp only [List.exists_mem_cons_iff, List.not_mem_nil, false_and, exists_false, or_false,
    PyJson.occurs_str, PyJson.occurs_list, List.mem_map, exists_exists_and_eq_and, key (s := "language") (by decide),
    key (s := "passage_ids") (by decide), key (s := "question") (by decide),
    key (s := "question_id") (by decide), key (s := "source") (by decide), false_or, strings,
    List.mem_append, List.mem_flatten]
  generalize (∃ id ∈ q.passageIds, u ∈ id) = ids
  tauto

theorem Valid.fits {q : QuestionRow} (h : q.Valid) (reader : Reader) :
  Fits reader "question_id" row QuestionRow.questionId q
  where
  scalar := scalar_of_spelled q.spelled h.scalar
  readable := by
    rw [sortKeys_row]
    have keys : [str "language", str "passage_ids", str "question", str "question_id",
      str "source"].Nodup := by decide
    refine .dict _ keys (fun _ _ _ _ h => nomatch h) fun m hm => ?_
    simp only [List.mem_cons, List.not_mem_nil, or_false] at hm
    rcases hm with rfl | rfl | rfl | rfl | rfl
    · exact .str _ fun _ _ h => nomatch h
    · refine .list _ fun v hv => ?_
      obtain ⟨s, -, rfl⟩ := List.mem_map.mp hv
      exact .str _ fun _ _ h => nomatch h
    all_goals exact .str _ fun _ _ h => nomatch h
  field lineNo := by
    change (if !false && isBlank q.questionId then _ else _) = _
    rw [h.questionId]
    rfl

theorem mapM_asString (ids : List Str) :
  (ids.map Value.str).mapM asString = some ids
  := by
  induction ids with
  | nil => rfl
  | cons id ids ih =>
    rw [List.map_cons, List.mapM_cons, ih]
    rfl

theorem Valid.made {q : QuestionRow} (h : q.Valid) (some : q.passageIds ≠ []) (lineNo : ℕ) :
  Goldenset.question lineNo (sortKeys q.row) q.questionId = .ok q.asQuestion
  := by
  have read {key : String} {value : Str} (found : (sortKeys q.row).lookup (str key) = .some (.str value))
      (solid : isBlank value = false) : textField (sortKeys q.row) key lineNo = .ok value := by
    rw [textField, found]
    change (if !false && isBlank value then _ else _) = _
    rw [solid]
    rfl
  have ids : Goldenset.passageIds (sortKeys q.row) lineNo q.questionId =
      .ok q.passageIds.toFinset := by
    have found : (sortKeys q.row).lookup (str "passage_ids") =
        .some (.list (q.passageIds.map .str)) := rfl
    rw [Goldenset.passageIds, found]
    change (match (q.passageIds.map Value.str).mapM asString with
      | none => _
      | .some ids => if ids = [] then _ else _) = _
    rw [mapM_asString]
    exact if_neg some
  unfold Goldenset.question
  rw [read rfl h.question, ids, read rfl h.language, read rfl h.source]
  rfl

end QuestionRow

/-- A question that is read has passages. -/
theorem passageIds_ne_empty {lineNo : ℕ} {row : Row} {id : Str} {q : Question}
    (h : question lineNo row id = .ok q) :
  q.passageIds ≠ ∅
  := by
  obtain ⟨_, -, h⟩ := ok_of_bind h
  obtain ⟨ids, read, h⟩ := ok_of_bind h
  obtain ⟨_, -, h⟩ := ok_of_bind h
  obtain ⟨_, -, h⟩ := ok_of_bind h
  cases h
  change ids ≠ ∅
  unfold passageIds at read
  split at read
  · split at read
    · cases read
    · rename_i list _
      split_ifs at read with some
      cases read
      rwa [Ne, List.toFinset_eq_empty_iff]
  · cases read

/-- The questions of a golden set come back if they have passages and no character ends a line within
a row. -/
theorem goldenset_read_back {questions : List QuestionRow} (some : questions ≠ [])
    (distinct : (questions.map QuestionRow.questionId).Nodup) (valid : ∀ q ∈ questions, q.Valid)
    (reader : Reader) (file : File) :
  (∃ set, readBack (loadGoldenset reader) file (questions.map QuestionRow.row) =
        .some (.ok set) ∧
      set.questions = questions.map QuestionRow.asQuestion) ↔
    ∀ q ∈ questions, Unbroken q.strings ∧ q.passageIds ≠ []
  := by
  have fits : ∀ q ∈ questions, Fits reader "question_id" QuestionRow.row QuestionRow.questionId q :=
    fun q hq => (valid q hq).fits reader
  obtain ⟨bytes, written, lines⟩ := readLines_written (scalar_rows fits) file
  have spelled : ∀ q ∈ questions, Spelled q.row q.strings := fun q _ => q.spelled
  have loaded : loadGoldenset reader { file with bytes := .some bytes } =
      (collect reader "question_id" question [] (((questions.map QuestionRow.row).flatMap
        fun row => splitLines (rowLine row)).zipIdx 1)).bind fun questions =>
        if questions = [] then .error (.goldenSet (.empty "題目"))
        else .ok ⟨file.stem, questions, reader.sha256 bytes⟩ := by
    unfold loadGoldenset
    rw [lines]
    rfl
  rw [readBack, written, Option.map_some]
  constructor
  · rintro ⟨set, same, questionsOf⟩ q hq
    rw [loaded] at same
    obtain ⟨records, collected, result⟩ := ok_of_bind (Option.some.inj same)
    split_ifs at result
    cases result
    have length : records.length = questions.length := by
      rw [show records = _ from questionsOf, List.length_map]
    refine ⟨unbroken_of_collect fits spelled collected length q hq, ?_⟩
    have mem : q.asQuestion ∈ records := by
      rw [show records = _ from questionsOf]
      exact List.mem_map_of_mem hq
    obtain ⟨lineNo, row, id, made⟩ := exists_of_collect collected mem
    rintro none
    apply passageIds_ne_empty made
    change q.passageIds.toFinset = ∅
    rw [none]
    rfl
  · intro well
    have made : ∀ q ∈ questions, ∀ lineNo,
        question lineNo (sortKeys q.row) q.questionId = .ok q.asQuestion :=
      fun q hq => (valid q hq).made (well q hq).2
    have collected := collect_rowLines fits made distinct (fun _ _ => List.not_mem_nil) 1
    refine ⟨⟨file.stem, questions.map QuestionRow.asQuestion, reader.sha256 bytes⟩,
      congrArg Option.some ?_, rfl⟩
    rw [loaded, lines_of_unbroken fits spelled fun q hq => (well q hq).1, collected]
    exact if_neg fun none => some (List.map_eq_nil_iff.mp none)

/-! ### Both -/

/-- Files of corpora and of golden sets come back as the rows that were written if no string in a
row has one of the characters that end a line without being escaped. -/
theorem files_read_back (reader : Reader) (file : File) :
  (∀ passages : List Passage, passages ≠ [] → (passages.map Passage.passageId).Nodup →
    (∀ p ∈ passages, p.Valid) →
    ((∃ corpus, readBack (loadCorpus reader) file (passages.map Passage.row) =
          some (.ok corpus) ∧
        corpus.passages = passages) ↔
      ∀ p ∈ passages, Unbroken p.strings)) ∧
  ∀ questions : List QuestionRow, questions ≠ [] → (questions.map QuestionRow.questionId).Nodup →
    (∀ q ∈ questions, q.Valid) →
    ((∃ set, readBack (loadGoldenset reader) file (questions.map QuestionRow.row) =
          some (.ok set) ∧
        set.questions = questions.map QuestionRow.asQuestion) ↔
      ∀ q ∈ questions, Unbroken q.strings ∧ q.passageIds ≠ [])
  :=
  ⟨fun _ some distinct valid => corpus_read_back some distinct valid reader file,
    fun _ some distinct valid => goldenset_read_back some distinct valid reader file⟩

def sampleReader : Reader where
  depth := 0
  sha256 _ := ""

def sampleFile : File where
  path := "corpus/drcd.jsonl"
  name := "drcd.jsonl"
  stem := "drcd"

/-- A passage of one text. -/
def samplePassage (text : Str) : Passage :=
  ⟨str "drcd-1", [], text⟩

def sampleQuestion : QuestionRow :=
  ⟨str "drcd-q1", str "?", [str "drcd-1"], str "zh-Hant", str "drcd"⟩

/-- A passage and a question come back. -/
theorem files_read_back_sample :
  (∃ corpus, readBack (loadCorpus sampleReader) sampleFile [(samplePassage (str "a\nb")).row] =
      some (.ok corpus) ∧ corpus.passages = [samplePassage (str "a\nb")]) ∧
    ∃ set, readBack (loadGoldenset sampleReader) sampleFile [sampleQuestion.row] =
      some (.ok set) ∧ set.questions = [sampleQuestion.asQuestion]
  := by
  obtain ⟨corpora, goldensets⟩ := files_read_back sampleReader sampleFile
  have passage : (samplePassage (str "a\nb")).Valid := ⟨by decide, by decide, by decide⟩
  have question : sampleQuestion.Valid := ⟨by decide, by decide, by decide, by decide, by decide⟩
  constructor
  · apply (corpora [samplePassage (str "a\nb")] (List.cons_ne_nil _ _) (List.nodup_singleton _)
      (List.forall_mem_singleton.mpr passage)).mpr
    exact List.forall_mem_singleton.mpr (by unfold Unbroken; decide)
  · apply (goldensets [sampleQuestion] (List.cons_ne_nil _ _) (List.nodup_singleton _)
      (List.forall_mem_singleton.mpr question)).mpr
    exact List.forall_mem_singleton.mpr ⟨by unfold Unbroken; decide, List.cons_ne_nil _ _⟩

/-- A passage with the line separator of Unicode does not come back. -/
theorem separated_passage_lost :
  (samplePassage [0x61, 0x2028, 0x62]).Valid ∧
    ¬∃ corpus, readBack (loadCorpus sampleReader) sampleFile
        [(samplePassage [0x61, 0x2028, 0x62]).row] = some (.ok corpus) ∧
      corpus.passages = [samplePassage [0x61, 0x2028, 0x62]]
  := by
  have valid : (samplePassage [0x61, 0x2028, 0x62]).Valid := ⟨by decide, by decide, by decide⟩
  refine ⟨valid, fun back => ?_⟩
  have unbroken := (corpus_read_back (List.cons_ne_nil _ []) (List.nodup_singleton _)
    (List.forall_mem_singleton.mpr valid) sampleReader sampleFile).mp back _ List.mem_cons_self
  exact absurd (unbroken 0x2028 (by decide)) (by decide)

end Lumina.Rag.Goldenset
