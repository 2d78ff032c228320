import Lumina.Etl.Decomposition
import Lumina.Etl.MarkdownLoader
import Lumina.Library.Fences

/-!
# Code blocks

The loader takes the code out of its fence, of whatever marks and length, or of its indentation, and
`block_to_markdown` puts it into a fence of three backticks again.  Code that has a line which closes
such a fence ends there when it is read, and the rest of it is outside.
-/

namespace Lumina.Etl.MarkdownLoader

open Fences (Fence)
open Knowledge (Block BlockType TextChunk)
open Lines (universalNewlines)

/-! ### What the parser reports -/

/-- U+0000 is replaced by U+FFFD. -/
def withoutNull (line : Text) : Text :=
  line.map fun c => if c = '\x00' then '\ufffd' else c

/-- The lines of a text that a token covers, as the parser reads them. -/
def Token.read (text : Text) (t : Token) : List Text :=
  (t.covered text).map withoutNull

/-- The content of a token has these lines; the last one may end without a newline. -/
def Spells (content : Text) (lines : List Text) : Prop :=
  content = joined lines ∨ content = joined lines ++ ['\n']

/-- The content of code, as CommonMark defines it: the lines between the fences without the columns
before the opening one, or the lines of an indented block without four columns. -/
structure CodeReported (text : Text) (tokens : List Token) : Prop where
  fence : ∀ t ∈ tokens, t.level = 0 → t.type = "fence" →
    ∃ first lines f, t.read text = first :: lines ∧ Fences.opening? first = some f ∧
      (lines.dropWhile fun line => !f.isClosing line).length ≤ 1 ∧
      Spells t.content (f.content lines)
  indented : ∀ t ∈ tokens, t.level = 0 → t.type = "code_block" →
    Spells t.content ((t.read text).map (Fences.dropColumns 4 0))

/-! ### What is written and read again -/

/-- The fence that `block_to_markdown` writes. -/
def codeFence : Fence := ⟨0, '`', 3⟩

/-- A line of code that closes the fence: up to three spaces, three backticks or more, and blanks. -/
def Closes3 (line : Text) : Prop :=
  codeFence.isClosing line = true

instance : DecidablePred Closes3 := fun _ => inferInstanceAs (Decidable (_ = _))

/-- Lines without the blank ones at both ends. -/
def withoutBlankEnds (lines : List Text) : List Text :=
  (lines.dropWhile (·.all isBlank)).rdropWhile (·.all isBlank)

/-- What a block is written as is one fenced code block with its text, whatever lines come after it,
and is stored so after whatever chunks. -/
structure Survives (b : Block) : Prop where
  written : ∀ after, ∃ content,
    Fences.block? (normalLines (blockToMarkdown b) ++ after) = some (content, after) ∧
      withoutBlankEnds content = withoutBlankEnds (normalLines b.text.toList)
  stored : ∀ (c : Chunker) (builder : Builder),
    ∃ chunk, (addAtomic c builder b).chunks.getLast? = some chunk ∧
      chunk.text.toList = blockToMarkdown b

theorem normalLines_of_not_mem {text : Text} (h : '\r' ∉ text) :
  normalLines text = text.splitOn '\n'
  := by
  rw [normalLines, Lines.universalNewlines_of_forall h]

/-- The lines of a code block. -/
theorem normalLines_code {b : Block} (code : b.type = .code) (h : '\r' ∉ b.text.toList) :
  normalLines (blockToMarkdown b) =
    ['`', '`', '`'] :: (b.text.toList.splitOn '\n' ++ [['`', '`', '`']])
  := by
  have markdown : blockToMarkdown b =
      joined (['`', '`', '`'] :: (b.text.toList.splitOn '\n' ++ [['`', '`', '`']])) := by
    have filled := List.splitOn_ne_nil '\n' b.text.toList
    rw [joined, List.intercalate_cons_of_ne_nil (by simp),
      Lines.intercalate_append filled (List.cons_ne_nil _ _), List.intercalate_splitOn,
      List.intercalate_singleton, blockToMarkdown, code]
    simp
  have apart : ∀ line ∈ ['`', '`', '`'] :: (b.text.toList.splitOn '\n' ++ [['`', '`', '`']]),
      '\n' ∉ line := by
    intro line mem
    rcases List.mem_cons.mp mem with rfl | mem
    · decide
    rcases List.mem_append.mp mem with mem | mem
    · exact Lines.not_mem_of_mem_splitOn mem
    · rw [List.mem_singleton.mp mem]
      decide
  have plain : '\r' ∉ blockToMarkdown b := by
    rw [blockToMarkdown, code]
    simp [h]
  rw [normalLines_of_not_mem plain, markdown, joined,
    List.splitOn_intercalate '\n' apart (List.cons_ne_nil _ _)]

/-- The chunk of a code block is what it is written as: it begins and ends with a backtick. -/
theorem stored_code {b : Block} (code : b.type = .code) (c : Chunker) (builder : Builder) :
  ∃ chunk, (addAtomic c builder b).chunks.getLast? = some chunk ∧
    chunk.text.toList = blockToMarkdown b
  := by
  have markdown : blockToMarkdown b =
      '`' :: ("``\n".toList ++ b.text.toList ++ "\n``".toList ++ ['`']) := by
    rw [blockToMarkdown, code]
    simp
  have stripped : strip (blockToMarkdown b) = blockToMarkdown b := by
    refine strip_eq_self (fun d hd => ?_) fun d hd => ?_
    · rw [markdown] at hd
      cases hd
      decide
    · rw [markdown, ← List.cons_append, List.getLast?_concat] at hd
      cases hd
      decide
  have visible : solid (blockToMarkdown b) ≠ [] := by
    rw [Ne, ← strip_eq_nil_iff, stripped, markdown]
    exact List.cons_ne_nil _ _
  obtain ⟨chunk, emitted, -, text, -⟩ :=
    emit_visible c { flush c builder with carry := [] } b.position.page visible
  refine ⟨chunk, ?_, text.trans stripped⟩
  rw [addAtomic, emitted, List.getLast?_concat]

theorem map_dropColumns_zero (lines : List Text) :
  lines.map (Fences.dropColumns codeFence.indent 0) = lines
  := by
  have same : Fences.dropColumns codeFence.indent 0 = id := funext fun line =>
    Fences.dropColumns_zero 0 line
  rw [same, List.map_id]

/-- A code block survives exactly if none of its lines closes the fence. -/
theorem survives_iff {b : Block} (code : b.type = .code) (h : '\r' ∉ b.text.toList) :
  Survives b ↔ ∀ line ∈ b.text.toList.splitOn '\n', ¬ Closes3 line
  := by
  have opened : Fences.opening? ['`', '`', '`'] = some codeFence := by decide
  have stop : codeFence.isClosing ['`', '`', '`'] = true := by decide
  constructor
  · intro survives line mem closing
    obtain ⟨content, read, -⟩ := survives.written []
    obtain ⟨outside, houtside⟩ := Fence.exists_after? (f := codeFence) ⟨line, mem, closing⟩
    rw [normalLines_code code h, List.append_nil, Fences.block?, opened] at read
    simp only [houtside, Option.bind_eq_bind, Option.bind_some, Option.pure_def, Option.some.injEq,
      Prod.mk.injEq, List.append_eq_nil_iff, List.cons_ne_nil, and_false] at read
  · intro inside
    have inside : ∀ line ∈ b.text.toList.splitOn '\n', codeFence.isClosing line = false :=
      fun line mem => Bool.eq_false_iff.mpr (inside line mem)
    refine ⟨fun after => ⟨b.text.toList.splitOn '\n', ?_, ?_⟩, stored_code code⟩
    · rw [normalLines_code code h, List.cons_append, List.append_assoc, List.singleton_append,
        Fences.block?, opened]
      simp only [Option.bind_eq_bind, Option.bind_some, Fence.after?_append inside,
        Fence.after?_cons stop, Fence.content_append inside, Fence.content_cons stop,
        map_dropColumns_zero, List.append_nil, Option.pure_def]
    · rw [normalLines_of_not_mem h]

/-! ### The content of code -/

theorem splitOn_append_newline (text : Text) :
  (text ++ ['\n']).splitOn '\n' = text.splitOn '\n' ++ [[]]
  := by
  have filled := List.splitOn_ne_nil '\n' text
  have apart : ∀ line ∈ text.splitOn '\n' ++ [[]], '\n' ∉ line := by
    intro line mem
    rcases List.mem_append.mp mem with mem | mem
    · exact Lines.not_mem_of_mem_splitOn mem
    · rw [List.mem_singleton.mp mem]
      exact List.not_mem_nil
  have whole : ['\n'].intercalate (text.splitOn '\n' ++ [[]]) = text ++ ['\n'] := by
    rw [Lines.intercalate_append filled (List.cons_ne_nil _ _), List.intercalate_splitOn]
    rfl
  rw [← whole, List.splitOn_intercalate '\n' apart (by simp)]

/-- The empty lines at the end do not close a fence. -/
theorem closes_rdropWhile (content : Text) :
  (∀ line ∈ (content.rdropWhile (· = '\n')).splitOn '\n', ¬ Closes3 line) ↔
    ∀ line ∈ content.splitOn '\n', ¬ Closes3 line
  := by
  induction content using List.reverseRecOn with
  | nil => rfl
  | append_singleton content c ih =>
    by_cases newline : c = '\n'
    · have empty : ¬ Closes3 [] := by decide
      rw [newline, List.rdropWhile_concat_pos _ _ _ (by decide), ih, splitOn_append_newline]
      simp only [List.mem_append, List.mem_singleton, or_imp, forall_and, forall_eq]
      exact (and_iff_left empty).symm
    · rw [List.rdropWhile_concat_neg _ _ _ (by simpa using newline)]

theorem not_mem_joined {lines : List Text} (h : ∀ line ∈ lines, '\r' ∉ line) :
  '\r' ∉ joined lines
  := by
  unfold joined
  induction lines with
  | nil => exact List.not_mem_nil
  | cons line lines ih =>
    have rest := ih fun l hl => h l (List.mem_cons_of_mem _ hl)
    have first := h line List.mem_cons_self
    cases lines with
    | nil => rwa [List.intercalate_singleton]
    | cons next lines =>
      rw [List.intercalate_cons_cons]
      simp [first, rest]

theorem not_mem_of_spells {content : Text} {lines : List Text} (h : Spells content lines)
    (plain : ∀ line ∈ lines, '\r' ∉ line) :
  '\r' ∉ content
  := by
  have body := not_mem_joined plain
  rcases h with rfl | rfl
  · exact body
  · simp [body]

theorem not_mem_of_mem_read {text : Text} {t : Token} {line : Text} (h : line ∈ t.read text) :
  '\r' ∉ line
  := by
  obtain ⟨covered, hcovered, rfl⟩ := List.mem_map.mp h
  have plain : '\r' ∉ covered := by
    have mem : covered ∈ normalLines text := by
      unfold Token.covered at hcovered
      cases hmap : t.map with
      | none =>
        rw [hmap] at hcovered
        cases hcovered
      | some range =>
        rw [hmap] at hcovered
        exact List.mem_of_mem_take (List.mem_of_mem_drop hcovered)
    intro carriage
    have piece := Lines.piece_of_mem_splitOn mem
    exact Lines.not_mem_universalNewlines text (piece.subset carriage)
  intro carriage
  obtain ⟨c, hc, same⟩ := List.mem_map.mp carriage
  split_ifs at same with null
  · cases same
  · exact plain (same ▸ hc)

theorem type_of_code {t : Token} (code : t.blockType = .code) :
  t.type = "fence" ∨ t.type = "code_block"
  := by
  unfold Token.blockType blockTypes at code
  simp only [List.lookup_cons] at code
  split at code
  · cases code
  split at code
  · cases code
  split at code
  · rename_i fence
    exact Or.inl (beq_iff_eq.mp fence)
  split at code
  · rename_i indented
    exact Or.inr (beq_iff_eq.mp indented)
  · cases code

/-- There is no carriage return in code. -/
theorem CodeReported.not_mem_content {text : Text} {tokens : List Token}
    (h : CodeReported text tokens) {t : Token} (ht : t ∈ tokens) (top : t.IsTop)
    (code : t.blockType = .code) :
  '\r' ∉ t.content
  := by
  have dropped {columns : ℕ} {line : Text} (plain : '\r' ∉ line) :
      '\r' ∉ Fences.dropColumns columns 0 line := by
    intro mem
    rcases Fences.mem_dropColumns mem with mem | space
    · exact plain mem
    · cases space
  rcases type_of_code code with fence | indented
  · obtain ⟨first, lines, f, read, -, -, spells⟩ := h.fence t ht top.1 fence
    refine not_mem_of_spells spells fun line mem => ?_
    obtain ⟨whole, hwhole, rfl⟩ := List.mem_map.mp mem
    have inside : whole ∈ t.read text := by
      rw [read]
      exact List.mem_cons_of_mem _ ((List.takeWhile_prefix _).subset hwhole)
    exact dropped (not_mem_of_mem_read inside)
  · refine not_mem_of_spells (h.indented t ht top.1 indented) fun line mem => ?_
    obtain ⟨whole, hwhole, rfl⟩ := List.mem_map.mp mem
    exact dropped (not_mem_of_mem_read hwhole)

/-! ### The blocks of a text -/

/-- The types and the texts of the blocks are those of the parts. -/
theorem map_blocksOf (text : Text) (tokens : List Token) :
  (blocksOf text tokens).map (fun b => (b.type, b.text.toList)) =
    (parts (text.splitOn '\n') tokens).map fun p => (p.type, p.text)
  := by
  rw [blocksOf_eq, Part.blocks]
  exact Nesting.map_mapAfter (fun _ p => congrArg (p.type, ·) String.toList_ofList) _ _

/-- The code blocks are the contents of the code tokens that are used. -/
theorem forall_code_iff {P : Text → Prop} (text : Text) (tokens : List Token) :
  (∀ b ∈ blocksOf text tokens, b.type = .code → P b.text.toList) ↔
    ∀ t ∈ tokens, t.Used (text.splitOn '\n') → t.blockType = .code →
      P (t.content.rdropWhile (· = '\n'))
  := by
  have pairs : (∀ b ∈ blocksOf text tokens, b.type = .code → P b.text.toList) ↔
      ∀ x ∈ (blocksOf text tokens).map (fun b => (b.type, b.text.toList)),
        x.1 = .code → P x.2 := by rw [List.forall_mem_map]
  have made (t : Token) (code : t.blockType = .code) :
      (t.made (text.splitOn '\n')).text = t.content.rdropWhile (· = '\n') := by
    rw [Token.made, code]
  rw [pairs, map_blocksOf, List.forall_mem_map, parts, List.forall_mem_map]
  constructor
  · intro h t ht used code
    rw [← made t code]
    exact h t (List.mem_filter.mpr ⟨ht, decide_eq_true used⟩) code
  · intro h t ht code
    obtain ⟨ht, used⟩ := List.mem_filter.mp ht
    rw [made t code]
    exact h t ht (of_decide_eq_true used) code

/-- The code blocks of a text survive exactly if there is no line in the code that closes a fence of
three backticks. -/
theorem code_survives_iff {parse : Text → Except String (List Token)} {content : List UInt8}
    {text : List ℕ} (decoded : Knowledge.decodeText content = some text) {tokens : List Token}
    (parsed : parse (text.map Char.ofNat) = .ok tokens)
    (h : CodeReported (text.map Char.ofNat) tokens) :
  (∃ loaded, load parse content = .ok loaded ∧
      ∀ b ∈ loaded.1, b.type = .code → Survives b) ↔
    ∀ t ∈ tokens, t.Used ((text.map Char.ofNat).splitOn '\n') → t.blockType = .code →
      ∀ line ∈ t.content.splitOn '\n', ¬ Closes3 line
  := by
  have plain := (forall_code_iff (P := fun text => '\r' ∉ text) (text.map Char.ofNat) tokens).mpr
    fun t ht used code mem =>
      h.not_mem_content ht used.1 code ((List.rdropWhile_prefix _ _).subset mem)
  have each : (∀ b ∈ blocksOf (text.map Char.ofNat) tokens, b.type = .code → Survives b) ↔
      ∀ t ∈ tokens, t.Used ((text.map Char.ofNat).splitOn '\n') → t.blockType = .code →
        ∀ line ∈ t.content.splitOn '\n', ¬ Closes3 line := by
    calc
      (∀ b ∈ blocksOf (text.map Char.ofNat) tokens, b.type = .code → Survives b) ↔
          ∀ b ∈ blocksOf (text.map Char.ofNat) tokens, b.type = .code →
            ∀ line ∈ b.text.toList.splitOn '\n', ¬ Closes3 line :=
        forall₂_congr fun b hb => forall_congr' fun code => survives_iff code (plain b hb code)
      _ ↔ _ := by
        rw [forall_code_iff (P := fun text => ∀ line ∈ text.splitOn '\n', ¬ Closes3 line)]
        simp only [closes_rdropWhile]
  rw [← each, load, decoded]
  dsimp only
  rw [parsed]
  constructor
  · rintro ⟨_, ⟨⟩, survive⟩
    exact survive
  · exact fun survive => ⟨_, rfl, survive⟩

/-- A block of code in a fence at some lines. -/
def fenceAt (start stop : ℕ) (content : String) : Token where
  type := "fence"
  map := some (start, stop)
  content := content.toList

/-- Four spaces before backticks do not close a fence. -/
theorem code_survives_indented :
  ∃ loaded,
    load (fun _ => .ok [fenceAt 0 4 "a\n    ```\n"])
        [0x7E, 0x7E, 0x7E, 0x0A, 0x61, 0x0A, 0x20, 0x20, 0x20, 0x20, 0x60, 0x60, 0x60, 0x0A,
          0x7E, 0x7E, 0x7E] = .ok loaded ∧
      ∀ b ∈ loaded.1, b.type = .code → Survives b
  := by
  have decoded : Knowledge.decodeText
      [0x7E, 0x7E, 0x7E, 0x0A, 0x61, 0x0A, 0x20, 0x20, 0x20, 0x20, 0x60, 0x60, 0x60, 0x0A,
        0x7E, 0x7E, 0x7E] =
      some [0x7E, 0x7E, 0x7E, 0x0A, 0x61, 0x0A, 0x20, 0x20, 0x20, 0x20, 0x60, 0x60, 0x60, 0x0A,
        0x7E, 0x7E, 0x7E] := rfl
  have reported : CodeReported "~~~\na\n    ```\n~~~".toList
      [fenceAt 0 4 "a\n    ```\n"] := by
    constructor
    · intro t ht _ _
      rw [List.mem_singleton.mp ht]
      exact ⟨"~~~".toList, ["a".toList, "    ```".toList, "~~~".toList], ⟨0, '~', 3⟩, by decide,
        by decide, by decide, Or.inr (by decide)⟩
    · intro t ht _ indented
      rw [List.mem_singleton.mp ht] at indented
      exact absurd indented (by decide)
  exact (code_survives_iff decoded rfl reported).mpr (by decide)

/-- Backticks in a fence of tildes close the fence that the block is written with. -/
theorem code_leaks :
  CodeReported "~~~\n```\n~~~".toList [fenceAt 0 3 "```\n"] ∧
    ∃ b ∈ blocksOf "~~~\n```\n~~~".toList [fenceAt 0 3 "```\n"], b.type = .code ∧ ¬ Survives b
  := by
  refine ⟨⟨fun t ht _ _ => ?_, fun t ht _ indented => ?_⟩, ?_⟩
  · rw [List.mem_singleton.mp ht]
    exact ⟨"~~~".toList, ["```".toList, "~~~".toList], ⟨0, '~', 3⟩, by decide, by decide,
      by decide, Or.inr (by decide)⟩
  · rw [List.mem_singleton.mp ht] at indented
    exact absurd indented (by decide)
  · refine ⟨⟨.code, "```", { order := 0 }⟩, by decide, rfl, fun survives => ?_⟩
    have inside := (survives_iff rfl (by decide)).mp survives
    exact inside "```".toList (by decide) (by decide)

end Lumina.Etl.MarkdownLoader
