import Lumina.Library.Json
import Lumina.Library.Occurrences

/-!
# The data region of a prompt

What retrieval has found is put into the prompt between two delimiters.  A delimiter in the text of
a chunk is replaced; one in the name of its document or in its heading path is not.
-/

namespace Lumina.Prompts

open Occurrences

abbrev Text := List Char

/-! ### The block -/

def contextStart : Text :=
  ['<', '<', '<', 'K', 'N', 'O', 'W', 'L', 'E', 'D', 'G', 'E', '_', 'C', 'O', 'N', 'T', 'E', 'X',
    'T', '>', '>', '>']

def contextEnd : Text :=
  ['<', '<', '<', 'E', 'N', 'D', '_', 'K', 'N', 'O', 'W', 'L', 'E', 'D', 'G', 'E', '_', 'C', 'O',
    'N', 'T', 'E', 'X', 'T', '>', '>', '>']

/-- `_DEFUSED`. -/
def defused : Text :=
  ['<', '<', 'r', 'e', 'd', 'a', 'c', 't', 'e', 'd', '-', 'd', 'e', 'l', 'i', 'm', 'i', 't', 'e',
    'r', '>', '>']

/-- A result of the retrieval.  Its marker is the number that the answer cites it by. -/
structure ContextChunk where
  marker : Text
  decimal : ∀ c ∈ marker, c.isDigit
  text : Text
  docName : Text := []
  page : Option ℤ := none
  headingPath : List Text := []

/-- `_source_line`. -/
def sourceLine (chunk : ContextChunk) : Text :=
  let source := if chunk.docName = [] then ['未', '命', '名', '文', '件'] else chunk.docName
  let source :=
    match chunk.page with
    | some page => source ++ [' ', '第', ' '] ++ Json.dumpsInt page ++ [' ', '頁']
    | none => source
  let source :=
    if chunk.headingPath = [] then source
    else source ++ ['（'] ++ [' ', '›', ' '].intercalate chunk.headingPath ++ ['）']
  ['[', 'c', ':'] ++ chunk.marker ++ [']', ' ', '來', '源', '：'] ++ source

/-- `_defuse`. -/
def defuse (text : Text) : Text :=
  replace contextEnd defused (replace contextStart defused text)

def buildContextBlock (chunks : List ContextChunk) : Text :=
  ['\n'].intercalate
    ([contextStart] ++ chunks.flatMap (fun chunk => [sourceLine chunk, defuse chunk.text, []]) ++
      [contextEnd])

/-! ### The delimiters -/

/-- A delimiter: it is on one line, and no separator of the block takes part in it. -/
structure Delimiter (pattern : Text) : Prop where
  bracket : '<' ∈ pattern
  defused : Inert pattern defused
  newline : Inert pattern ['\n']
  arrow : Inert pattern [' ', '›', ' ']
  space : ' ' ∉ pattern
  colon : '：' ∉ pattern
  openParen : '（' ∉ pattern
  closeParen : '）' ∉ pattern

theorem inert_append_cons {pattern : Text} (before : Text) {x : Char} {after : Text}
    (bounds : x ∉ pattern ∧ (∀ c ∈ before, pattern.getLast? ≠ some c) ∧
      ∀ c ∈ after, pattern.head? ≠ some c) :
  Inert pattern (before ++ x :: after)
  := ⟨before, x, after, rfl, bounds⟩

theorem delimiter_contextStart :
  Delimiter contextStart
  where
  bracket := by decide
  defused := inert_append_cons ['<', '<'] (by simp [contextStart])
  newline := inert_append_cons [] (by simp [contextStart])
  arrow := inert_append_cons [] (by simp [contextStart])
  space := by decide
  colon := by decide
  openParen := by decide
  closeParen := by decide

theorem delimiter_contextEnd :
  Delimiter contextEnd
  where
  bracket := by decide
  defused := inert_append_cons ['<', '<'] (by simp [contextEnd])
  newline := inert_append_cons [] (by simp [contextEnd])
  arrow := inert_append_cons [] (by simp [contextEnd])
  space := by decide
  colon := by decide
  openParen := by decide
  closeParen := by decide

theorem bracket_not_mem_of_isDigit {digits : Text} (h : ∀ c ∈ digits, c.isDigit) :
  '<' ∉ digits
  := by
  intro mem
  exact absurd (h '<' mem) (by decide)

theorem bracket_not_mem_dumpsInt (n : ℤ) :
  '<' ∉ Json.dumpsInt n
  := by
  have digits : '<' ∉ Nat.toDigits 10 n.natAbs := by
    apply bracket_not_mem_of_isDigit
    exact fun c mem => Nat.isDigit_of_mem_toDigits (by decide) (by decide) mem
  unfold Json.dumpsInt
  split_ifs
  · intro mem
    rcases List.mem_cons.mp mem with sign | mem
    · exact absurd sign (by decide)
    · exact digits mem
  · exact digits

/-- What a source line names. -/
def names (chunk : ContextChunk) : List Text :=
  chunk.docName :: chunk.headingPath

namespace Delimiter

variable {pattern : Text}

theorem ne_nil (h : Delimiter pattern) :
  pattern ≠ []
  := List.ne_nil_of_mem h.bracket

theorem occurrences_of_bracket_not_mem (h : Delimiter pattern) {text : Text}
    (lacks : '<' ∉ text) :
  occurrences pattern text = 0
  := occurrences_eq_zero h.bracket lacks

/-- A delimiter occurs in a source line as often as in the names in it. -/
theorem occurrences_sourceLine (h : Delimiter pattern) (chunk : ContextChunk) :
  occurrences pattern (sourceLine chunk) = ((names chunk).map (occurrences pattern)).sum
  := by
  have lead : occurrences pattern (['[', 'c', ':'] ++ chunk.marker ++ [']', ' ', '來', '源']) = 0 := by
    apply h.occurrences_of_bracket_not_mem
    have marker := bracket_not_mem_of_isDigit chunk.decimal
    simp [marker]
  have named : occurrences pattern
      (if chunk.docName = [] then ['未', '命', '名', '文', '件'] else chunk.docName) =
      occurrences pattern chunk.docName := by
    split_ifs with none
    · rw [none]
      exact h.occurrences_of_bracket_not_mem (by decide)
    · rfl
  have paged (source : Text) : occurrences pattern
      (match chunk.page with
        | some page => source ++ [' ', '第', ' '] ++ Json.dumpsInt page ++ [' ', '頁']
        | none => source) = occurrences pattern source := by
    cases chunk.page with
    | none => rfl
    | some page =>
      have rest : occurrences pattern (['第', ' '] ++ Json.dumpsInt page ++ [' ', '頁']) = 0 := by
        apply h.occurrences_of_bracket_not_mem
        have digits := bracket_not_mem_dumpsInt page
        simp [digits]
      calc
        occurrences pattern (source ++ [' ', '第', ' '] ++ Json.dumpsInt page ++ [' ', '頁']) =
            occurrences pattern
              (source ++ ' ' :: (['第', ' '] ++ Json.dumpsInt page ++ [' ', '頁'])) := by
          simp only [List.append_assoc, List.cons_append, List.nil_append]
        _ = occurrences pattern source := by
          rw [occurrences_append_cons h.space h.ne_nil, rest, Nat.add_zero]
  have headed (source : Text) : occurrences pattern
      (if chunk.headingPath = [] then source
        else source ++ ['（'] ++ [' ', '›', ' '].intercalate chunk.headingPath ++ ['）']) =
      occurrences pattern source + (chunk.headingPath.map (occurrences pattern)).sum := by
    split_ifs with none
    · rw [none]
      rfl
    · calc
        occurrences pattern
            (source ++ ['（'] ++ [' ', '›', ' '].intercalate chunk.headingPath ++ ['）']) =
            occurrences pattern
              (source ++ '（' :: ([' ', '›', ' '].intercalate chunk.headingPath ++ '）' :: [])) := by
          simp only [List.append_assoc, List.cons_append, List.nil_append]
        _ = occurrences pattern source + (chunk.headingPath.map (occurrences pattern)).sum := by
          rw [occurrences_append_cons h.openParen h.ne_nil,
            occurrences_append_cons h.closeParen h.ne_nil,
            h.arrow.occurrences_intercalate h.ne_nil]
          rfl
  have line (source : Text) : occurrences pattern
      (['[', 'c', ':'] ++ chunk.marker ++ [']', ' ', '來', '源', '：'] ++ source) =
      occurrences pattern source := by
    calc
      occurrences pattern (['[', 'c', ':'] ++ chunk.marker ++ [']', ' ', '來', '源', '：'] ++ source) =
          occurrences pattern
            ((['[', 'c', ':'] ++ chunk.marker ++ [']', ' ', '來', '源']) ++ '：' :: source) := by
        simp only [List.append_assoc, List.cons_append, List.nil_append]
      _ = occurrences pattern source := by
        rw [occurrences_append_cons h.colon h.ne_nil, lead, Nat.zero_add]
  unfold sourceLine
  dsimp only
  rw [line, headed, paged, named, names, List.map_cons, List.sum_cons]

/-- A delimiter occurs in a block as often as it does in the delimiters and in the source lines. -/
theorem occurrences_buildContextBlock (h : Delimiter pattern) (chunks : List ContextChunk)
    (clean : ∀ text, occurrences pattern (defuse text) = 0) :
  occurrences pattern (buildContextBlock chunks) =
    occurrences pattern contextStart +
      (chunks.map fun chunk => occurrences pattern (sourceLine chunk)).sum +
      occurrences pattern contextEnd
  := by
  have region : ((chunks.flatMap fun chunk => [sourceLine chunk, defuse chunk.text, []]).map
      (occurrences pattern)).sum =
      (chunks.map fun chunk => occurrences pattern (sourceLine chunk)).sum := by
    induction chunks with
    | nil => rfl
    | cons chunk chunks ih =>
      rw [List.flatMap_cons, List.map_append, List.sum_append, ih, List.map_cons, List.sum_cons]
      simp [clean, occurrences]
  unfold buildContextBlock
  rw [h.newline.occurrences_intercalate h.ne_nil, List.map_append, List.sum_append,
    List.map_append, List.sum_append, region]
  simp

end Delimiter

/-- No delimiter is left in a text that has been defused. -/
theorem occurrences_contextStart_defuse (text : Text) :
  occurrences contextStart (defuse text) = 0
  := by
  have h := delimiter_contextStart
  apply occurrences_replace_of_eq_zero h.defused h.ne_nil
  exact occurrences_replace h.defused h.ne_nil text

theorem occurrences_contextEnd_defuse (text : Text) :
  occurrences contextEnd (defuse text) = 0
  := occurrences_replace delimiter_contextEnd.defused delimiter_contextEnd.ne_nil _

/-! ### The region -/

/-- A block with one delimiter of each kind, on its first and on its last line. -/
structure Delimited (block : Text) : Prop where
  start : occurrences contextStart block = 1
  stop : occurrences contextEnd block = 1
  first : contextStart ++ ['\n'] <+: block
  last : '\n' :: contextEnd <:+ block

/-- A chunk whose document or heading path has a delimiter in its name. -/
def Forges (chunk : ContextChunk) : Prop :=
  ∃ name ∈ names chunk, contextStart <:+: name ∨ contextEnd <:+: name

theorem sum_occurrences_sourceLine_eq_zero_iff {pattern : Text} (h : Delimiter pattern)
    (chunks : List ContextChunk) :
  (chunks.map fun chunk => occurrences pattern (sourceLine chunk)).sum = 0 ↔
    ∀ chunk ∈ chunks, ∀ name ∈ names chunk, ¬ pattern <:+: name
  := by
  rw [List.sum_eq_zero_iff_forall_eq_nat, List.forall_mem_map]
  apply forall₂_congr
  intro chunk _
  rw [h.occurrences_sourceLine, List.sum_eq_zero_iff_forall_eq_nat, List.forall_mem_map]
  apply forall₂_congr
  intro name _
  exact occurrences_eq_zero_iff h.ne_nil

theorem contextStart_prefix_buildContextBlock (chunks : List ContextChunk) :
  contextStart ++ ['\n'] <+: buildContextBlock chunks
  := by
  unfold buildContextBlock
  cases chunks with
  | nil => exact ⟨contextEnd, rfl⟩
  | cons chunk chunks =>
    rw [List.flatMap_cons, List.append_assoc, List.singleton_append, List.cons_append,
      List.cons_append, List.intercalate_cons_cons]
    exact List.prefix_append _ _

theorem contextEnd_suffix_buildContextBlock (chunks : List ContextChunk) :
  '\n' :: contextEnd <:+ buildContextBlock chunks
  := by
  have ending (lines : List Text) (nonempty : lines ≠ []) :
      '\n' :: contextEnd <:+ ['\n'].intercalate (lines ++ [contextEnd]) := by
    induction lines with
    | nil => exact absurd rfl nonempty
    | cons line lines ih =>
      cases lines with
      | nil =>
        rw [List.singleton_append, List.intercalate_cons_cons, List.append_assoc,
          List.intercalate_singleton]
        exact List.suffix_append _ _
      | cons next lines =>
        rw [List.cons_append, List.cons_append, List.intercalate_cons_cons]
        exact (ih (List.cons_ne_nil _ _)).trans (List.suffix_append _ _)
  exact ending _ (List.cons_ne_nil _ _)

/-- The block is delimited if no name in it has a delimiter, and only then. -/
theorem delimited_buildContextBlock_iff (chunks : List ContextChunk) :
  Delimited (buildContextBlock chunks) ↔ ∀ chunk ∈ chunks, ¬ Forges chunk
  := by
  have start := delimiter_contextStart.occurrences_buildContextBlock chunks
    occurrences_contextStart_defuse
  have stop := delimiter_contextEnd.occurrences_buildContextBlock chunks
    occurrences_contextEnd_defuse
  have once : occurrences contextStart contextStart = 1 := by decide
  have never : occurrences contextStart contextEnd = 0 := by decide
  have never' : occurrences contextEnd contextStart = 0 := by decide
  have once' : occurrences contextEnd contextEnd = 1 := by decide
  have starts := sum_occurrences_sourceLine_eq_zero_iff delimiter_contextStart chunks
  have stops := sum_occurrences_sourceLine_eq_zero_iff delimiter_contextEnd chunks
  constructor
  · rintro ⟨one, one', -, -⟩ chunk mem ⟨name, named, inside | inside⟩
    · exact starts.mp (by omega) chunk mem name named inside
    · exact stops.mp (by omega) chunk mem name named inside
  · intro h
    constructor
    · have none := starts.mpr fun chunk mem name named inside =>
        h chunk mem ⟨name, named, Or.inl inside⟩
      omega
    · have none := stops.mpr fun chunk mem name named inside =>
        h chunk mem ⟨name, named, Or.inr inside⟩
      omega
    · exact contextStart_prefix_buildContextBlock chunks
    · exact contextEnd_suffix_buildContextBlock chunks

/-- A document whose name is the end of the region. -/
def forgedDocument : ContextChunk where
  marker := ['1']
  decimal := List.forall_mem_singleton.mpr rfl
  text := ['x']
  docName := contextEnd

/-- The name of a document can end the region. -/
theorem not_delimited_buildContextBlock :
  ¬ ∀ chunks, Delimited (buildContextBlock chunks)
  := by
  intro h
  have stop := (h [forgedDocument]).stop
  revert stop
  decide

end Lumina.Prompts
