import Lumina.Etl.Chunk
import Lumina.Knowledge.Derived

/-!
# What the chunks of a document are made of

A document is a list of segments: the text between two of its headings, tables and codes, and each
table and code.  The chunks of a document are those of its segments in turn.  A table or a code is
one chunk; a text is cut into bodies, which lose nothing but white space, and each body is a chunk
under the heading of its section and after the end of the body before it.
-/

namespace Lumina.Etl

open Knowledge (Block BlockType ExtractedDoc TextChunk)

/-! ### The segments of a document -/

/-- A text, or a block that is not cut. -/
inductive Content where
  | run (blocks : List Block)
  | atomic (block : Block)
deriving DecidableEq, Repr

/-- A part of a document, under the heading of its section. -/
structure Segment where
  heading : Option Block
  content : Content
deriving DecidableEq, Repr

/-- The segments from a place in a document on, where a text has begun. -/
def segmentsFrom : (heading : Option Block) → (run : List Block) → List Block → List Segment
  | heading, run, [] => [⟨heading, .run run⟩]
  | heading, run, block :: blocks =>
      if block.type = .heading then ⟨heading, .run run⟩ :: segmentsFrom (some block) [] blocks
      else if isAtomic block then
        ⟨heading, .run run⟩ :: ⟨heading, .atomic block⟩ :: segmentsFrom heading [] blocks
      else segmentsFrom heading (run ++ [block]) blocks

def segments (doc : ExtractedDoc) : List Segment :=
  segmentsFrom none [] doc.blocks

/-- The path of the section that a heading begins. -/
def sectionPath : Option Block → List String
  | none => []
  | some heading => heading.position.headingPath ++ [heading.text]

/-- The Markdown of blocks, one after the other. -/
def markdown (blocks : List Block) : Text :=
  blocks.flatMap blockToMarkdown

/-- The Markdown of the blocks that are not headings. -/
def contents (doc : ExtractedDoc) : Text :=
  markdown (doc.blocks.filter (·.type ≠ .heading))

/-! ### The chunks of a segment -/

section

variable (c : Chunker)

/-- A chunk of a section: its heading, a carry and a body. -/
structure Holds (heading : Option Block) (carry body : Text) (chunk : TextChunk) : Prop where
  text : chunk.text.toList =
    strip (separator.intercalate
      ((heading.map blockToMarkdown).toList ++ present [carry] ++ [body]))
  headingPath : chunk.headingPath = sectionPath heading

/-- What the next chunk may carry of a body: nothing, or an end of it that has few tokens. -/
def IsCarry (body carry : Text) : Prop :=
  carry = [] ∨
    ∃ last, last <:+ body ∧ c.countTokens last ≤ c.overlapTokens ∧ carry = strip last

/-- The chunks of a text and their bodies, and what is carried on after them. -/
inductive RunChunks (heading : Option Block) :
    (bodies : List Text) → (chunks : List TextChunk) → (carry : Text) → Prop
  | nil : RunChunks heading [] [] []
  | snoc {bodies chunks carry body chunk carry'} :
      RunChunks heading bodies chunks carry →
      solid body ≠ [] →
      Holds heading carry body chunk →
      IsCarry c body carry' →
      RunChunks heading (bodies ++ [body]) (chunks ++ [chunk]) carry'

/-- The chunks of a segment and their bodies. -/
inductive SegmentChunks : Segment → (bodies : List Text) → (chunks : List TextChunk) → Prop
  | run {heading blocks bodies chunks carry} :
      RunChunks c heading bodies chunks carry →
      solid bodies.flatten = solid (markdown blocks) →
      SegmentChunks ⟨heading, .run blocks⟩ bodies chunks
  | atomic {heading block chunk} :
      solid (blockToMarkdown block) ≠ [] →
      chunk.text.toList = strip (blockToMarkdown block) →
      chunk.headingPath = sectionPath heading →
      SegmentChunks ⟨heading, .atomic block⟩ [blockToMarkdown block] [chunk]
  | blank {heading block} :
      solid (blockToMarkdown block) = [] →
      SegmentChunks ⟨heading, .atomic block⟩ [] []

/-- The chunks of segments in turn, and their bodies. -/
inductive SegmentsChunks : List Segment → (bodies : List Text) → (chunks : List TextChunk) → Prop
  | nil : SegmentsChunks [] [] []
  | cons {segment segments bodies bodies' chunks chunks'} :
      SegmentChunks c segment bodies chunks →
      SegmentsChunks segments bodies' chunks' →
      SegmentsChunks (segment :: segments) (bodies ++ bodies') (chunks ++ chunks')

end

/-! ### The pieces of a text -/

theorem solid_intercalate_separator (texts : List Text) :
  solid (separator.intercalate texts) = solid texts.flatten
  := by
  induction texts with
  | nil => rfl
  | cons text texts ih =>
    cases texts with
    | nil => rw [List.intercalate_singleton, List.flatten_singleton]
    | cons next texts =>
      have lines : solid separator = [] := rfl
      rw [List.intercalate_cons_cons, solid_append, solid_append, ih, lines, List.append_nil,
        ← solid_append, ← List.flatten_cons]

/-- Texts may be joined before they are joined to others. -/
theorem intercalate_append (sep : Text) (lead : List Text) {texts : List Text} (h : texts ≠ []) :
  sep.intercalate (lead ++ texts) = sep.intercalate (lead ++ [sep.intercalate texts])
  := by
  induction lead with
  | nil => rw [List.nil_append, List.nil_append, List.intercalate_singleton]
  | cons text lead ih =>
    cases lead with
    | nil =>
      obtain ⟨first, texts, rfl⟩ := List.exists_cons_of_ne_nil h
      rw [List.singleton_append, List.singleton_append, List.intercalate_cons_cons,
        List.intercalate_cons_cons, List.intercalate_singleton]
    | cons next lead =>
      rw [List.cons_append, List.cons_append, List.cons_append, List.cons_append,
        List.intercalate_cons_cons, List.intercalate_cons_cons, ← List.cons_append,
        ← List.cons_append, ih]

theorem flatten_present (text : Text) :
  (present [text]).flatten = text
  := by
  cases text with
  | nil => rfl
  | cons c text => exact List.append_nil _

theorem flatten_hardSplit (c : Chunker) (text : Text) (budget : ℕ) :
  (hardSplit c text budget).flatten = text
  := by
  apply flatten_slicesUpTo
  · exact lt_of_lt_of_le Nat.one_pos (Nat.le_max_right _ 1)
  · exact Nat.le_refl _

/-- The text of the pieces so far. -/
def Pieces.text (p : Pieces) : Text :=
  p.pieces.flatten ++ p.buffer

theorem Pieces.text_push (c : Chunker) (budget : ℕ) (p : Pieces) (sentence : Text) :
  (p.push c budget sentence).text = p.text ++ sentence
  := by
  unfold Pieces.push Pieces.text
  split_ifs
  · exact (List.append_assoc _ _ _).symm
  · dsimp only
    rw [List.flatten_append, flatten_present]
  · dsimp only
    rw [List.flatten_append, List.flatten_append, flatten_present, flatten_hardSplit,
      List.append_nil]

theorem Pieces.text_foldl_push (c : Chunker) (budget : ℕ) (p : Pieces) (sentences : List Text) :
  (sentences.foldl (Pieces.push c budget) p).text = p.text ++ sentences.flatten
  := by
  induction sentences generalizing p with
  | nil => exact (List.append_nil _).symm
  | cons sentence sentences ih =>
    rw [List.foldl_cons, ih, Pieces.text_push, List.append_assoc, List.flatten_cons]

/-- Pieces that are blank, and the white space at the end of a piece, are all that is left out. -/
theorem solid_filter_rstrip (pieces : List Text) :
  solid ((pieces.filter fun piece => strip piece ≠ []).map rstrip).flatten = solid pieces.flatten
  := by
  induction pieces with
  | nil => rfl
  | cons piece pieces ih =>
    rw [List.flatten_cons, solid_append, List.filter_cons]
    by_cases blank : strip piece = []
    · rw [if_neg (by simpa using blank), ih, strip_eq_nil_iff.mp blank, List.nil_append]
    · rw [if_pos (by simpa using blank), List.map_cons, List.flatten_cons, solid_append, ih,
        solid_rstrip]

theorem solid_splitToFit (c : Chunker) (b : Builder) (text : Text) :
  solid (splitToFit c b text).flatten = solid text
  := by
  have whole := Pieces.text_foldl_push c (budgetForBody c b) {} (sentences text)
  unfold splitToFit
  dsimp only
  rw [solid_filter_rstrip, List.flatten_append, flatten_present]
  unfold Pieces.text at whole
  rw [whole, flatten_sentences]
  rfl

theorem solid_of_mem_splitToFit {c : Chunker} {b : Builder} {text piece : Text}
    (h : piece ∈ splitToFit c b text) :
  solid piece ≠ []
  := by
  obtain ⟨piece, mem, rfl⟩ := List.mem_map.mp h
  have visible : strip piece ≠ [] := by simpa using (List.mem_filter.mp mem).2
  rw [solid_rstrip]
  exact mt strip_eq_nil_iff.mpr visible

/-- The sentences that are picked are the last ones, and they are within the budget. -/
theorem pick_spec (c : Chunker) (reversed picked : List Text) :
  pick c reversed picked <:+ reversed.reverse ++ picked ∧
    (pick c reversed picked = picked ∨
      c.countTokens (pick c reversed picked).flatten ≤ c.overlapTokens)
  := by
  induction reversed generalizing picked with
  | nil => exact ⟨List.suffix_rfl, Or.inl rfl⟩
  | cons sentence reversed ih =>
    unfold pick
    split_ifs with exceeds
    · exact ⟨List.suffix_append _ picked, Or.inl rfl⟩
    · obtain ⟨ends, within⟩ := ih (sentence :: picked)
      constructor
      · rwa [List.reverse_cons, List.append_assoc, List.singleton_append]
      · right
        rcases within with same | within
        · rw [same]
          exact not_lt.mp exceeds
        · exact within

theorem isCarry_tail (c : Chunker) (body : Text) :
  IsCarry c body (tail c body)
  := by
  unfold tail
  split_ifs with off
  · exact Or.inl rfl
  · obtain ⟨ends, within⟩ := pick_spec c (sentences body).reverse []
    rcases within with none | within
    · left
      rw [none]
      rfl
    · right
      refine ⟨_, ?_, within, rfl⟩
      rw [List.reverse_reverse, List.append_nil] at ends
      obtain ⟨before, whole⟩ := ends
      refine ⟨before.flatten, ?_⟩
      rw [← List.flatten_append, whole, flatten_sentences]

/-! ### The builder in a text -/

theorem blockToMarkdown_ne_nil {block : Block} (h : block.type = .heading) :
  blockToMarkdown block ≠ []
  := by
  unfold blockToMarkdown
  rw [h]
  exact List.append_ne_nil_of_right_ne_nil _ (List.cons_ne_nil _ _)

/-- The chunks are numbered in their order. -/
def Numbered (chunks : List TextChunk) : Prop :=
  chunks.map (·.seq) = List.range chunks.length

theorem Numbered.concat {chunks : List TextChunk} (h : Numbered chunks) {chunk : TextChunk}
    (seq : chunk.seq = chunks.length) :
  Numbered (chunks ++ [chunk])
  := by
  unfold Numbered at *
  rw [List.map_append, h, List.length_append, List.length_singleton, List.range_succ,
    List.map_singleton, seq]

theorem emit_blank (c : Chunker) (b : Builder) {text : Text} (page : Option ℕ)
    (h : solid text = []) :
  emit c b text page = b
  := if_pos (strip_eq_nil_iff.mpr h)

/-- What `_emit` does with a text that is not blank. -/
theorem emit_visible (c : Chunker) (b : Builder) {text : Text} (page : Option ℕ)
    (h : solid text ≠ []) :
  ∃ chunk : TextChunk,
    emit c b text page = { b with chunks := b.chunks ++ [chunk] } ∧
      chunk.seq = b.chunks.length ∧ chunk.text.toList = strip text ∧
      chunk.headingPath = b.headingPath
  := by
  refine ⟨_, if_neg (mt strip_eq_nil_iff.mp h), rfl, ?_, rfl⟩
  exact String.toList_ofList

/-- A builder in the text of a section: `before` are the chunks of the segments before it, and
`written` is the text so far. -/
structure Writing (c : Chunker) (before : List TextChunk) (heading : Option Block)
    (bodies : List Text) (chunks : List TextChunk) (written : Text) (b : Builder) : Prop where
  stored : b.chunks = before ++ chunks
  numbered : Numbered b.chunks
  run : RunChunks c heading bodies chunks b.carry
  isHeading : ∀ h ∈ heading, h.type = .heading
  headingMarkdown : b.headingMarkdown = heading.map blockToMarkdown
  headingPath : b.headingPath = sectionPath heading
  parts : ∀ part ∈ b.parts, solid part ≠ []
  written : solid bodies.flatten ++ solid b.parts.flatten = solid written

namespace Writing

variable {c : Chunker} {before : List TextChunk} {heading : Option Block} {bodies : List Text}
  {chunks : List TextChunk} {written : Text} {b : Builder}

theorem lead (h : Writing c before heading bodies chunks written b) :
  b.lead = (heading.map blockToMarkdown).toList ++ present [b.carry]
  := by
  unfold Builder.lead
  rw [h.headingMarkdown]
  cases heading with
  | none => rfl
  | some block =>
    have some := blockToMarkdown_ne_nil (h.isHeading block rfl)
    unfold present
    rw [List.filter_append]
    congr 1
    apply List.filter_cons_of_pos
    simpa using some

/-- The page is not part of what is kept. -/
theorem of_page (h : Writing c before heading bodies chunks written b) (page : Option ℕ) :
  Writing c before heading bodies chunks written { b with page }
  := ⟨h.stored, h.numbered, h.run, h.isHeading, h.headingMarkdown, h.headingPath, h.parts, h.written⟩

theorem append (h : Writing c before heading bodies chunks written b) {piece : Text}
    (visible : solid piece ≠ []) :
  Writing c before heading bodies chunks (written ++ piece) { b with parts := b.parts ++ [piece] }
  where
  stored := h.stored
  numbered := h.numbered
  run := h.run
  isHeading := h.isHeading
  headingMarkdown := h.headingMarkdown
  headingPath := h.headingPath
  parts := by
    intro part mem
    rcases List.mem_append.mp mem with old | new
    · exact h.parts part old
    · rwa [List.mem_singleton.mp new]
  written := by
    rw [List.flatten_append, List.flatten_singleton, solid_append, ← List.append_assoc, h.written,
      solid_append]

/-- `_flush` makes the parts a body. -/
theorem flush (h : Writing c before heading bodies chunks written b) :
  (Etl.flush c b).parts = [] ∧
    ∃ bodies chunks, Writing c before heading bodies chunks written (Etl.flush c b)
  := by
  unfold Etl.flush
  split_ifs with none
  · exact ⟨none, bodies, chunks, h⟩
  · have visible : solid b.parts.flatten ≠ [] := by
      obtain ⟨part, parts, eq⟩ := List.exists_cons_of_ne_nil none
      rw [eq, List.flatten_cons, solid_append]
      apply List.append_ne_nil_of_left_ne_nil
      apply h.parts
      rw [eq]
      exact List.mem_cons_self
    have whole : solid (b.joined b.parts) ≠ [] := by
      unfold Builder.joined
      rw [solid_intercalate_separator, List.flatten_append, solid_append]
      exact List.append_ne_nil_of_right_ne_nil _ visible
    obtain ⟨chunk, emitted, seq, text, path⟩ :=
      emit_visible c { b with carry := tail c (separator.intercalate b.parts), parts := [] } b.page
        whole
    dsimp only
    rw [emitted]
    refine ⟨rfl, bodies ++ [separator.intercalate b.parts], chunks ++ [chunk], ?_⟩
    constructor
    · dsimp only
      rw [h.stored, List.append_assoc]
    · exact h.numbered.concat seq
    · apply RunChunks.snoc h.run
      · rwa [solid_intercalate_separator]
      · constructor
        · rw [text, ← h.lead, ← intercalate_append _ _ none]
          rfl
        · rw [path]
          exact h.headingPath
      · exact isCarry_tail c _
    · exact h.isHeading
    · exact h.headingMarkdown
    · exact h.headingPath
    · exact fun part mem => absurd mem List.not_mem_nil
    · dsimp only
      rw [List.flatten_append, List.flatten_singleton, solid_append, solid_intercalate_separator,
        ← h.written, List.flatten_nil]
      exact List.append_nil _

theorem addPiece (h : Writing c before heading bodies chunks written b) (page : Option ℕ)
    {piece : Text} (visible : solid piece ≠ []) :
  ∃ bodies chunks,
    Writing c before heading bodies chunks (written ++ piece) (Etl.addPiece c page b piece)
  := by
  unfold Etl.addPiece
  dsimp only
  have paged : Writing c before heading bodies chunks written (b.startPage page) := h.of_page _
  split_ifs
  · exact ⟨_, _, paged.append visible⟩
  · obtain ⟨-, bodies, chunks, flushed⟩ := paged.flush
    exact ⟨_, _, (flushed.append visible).of_page page⟩

theorem addPieces (h : Writing c before heading bodies chunks written b) (page : Option ℕ)
    {pieces : List Text} (visible : ∀ piece ∈ pieces, solid piece ≠ []) :
  ∃ bodies chunks,
    Writing c before heading bodies chunks (written ++ pieces.flatten)
      (pieces.foldl (Etl.addPiece c page) b)
  := by
  induction pieces generalizing bodies chunks written b with
  | nil =>
    rw [List.flatten_nil, List.append_nil]
    exact ⟨_, _, h⟩
  | cons piece pieces ih =>
    rw [List.forall_mem_cons] at visible
    obtain ⟨bodies, chunks, added⟩ := h.addPiece page visible.1
    rw [List.flatten_cons, ← List.append_assoc]
    exact ih added visible.2

theorem of_solid (h : Writing c before heading bodies chunks written b) {text : Text}
    (same : solid written = solid text) :
  Writing c before heading bodies chunks text b
  := { h with written := h.written.trans same }

theorem addText (h : Writing c before heading bodies chunks written b) (block : Block) :
  ∃ bodies chunks,
    Writing c before heading bodies chunks (written ++ blockToMarkdown block)
      (Etl.addText c b block)
  := by
  unfold Etl.addText
  dsimp only
  split_ifs with blank fits
  · refine ⟨_, _, h.of_solid ?_⟩
    rw [solid_append, strip_eq_nil_iff.mp blank, List.append_nil]
  · exact ⟨_, _, (h.of_page _).append (mt strip_eq_nil_iff.mpr blank)⟩
  · have paged : Writing c before heading bodies chunks written
        (b.startPage block.position.page) := h.of_page _
    obtain ⟨-, bodies, chunks, flushed⟩ := paged.flush
    obtain ⟨bodies, chunks, added⟩ := flushed.addPieces block.position.page
      fun piece mem => solid_of_mem_splitToFit mem
    refine ⟨bodies, chunks, added.of_solid ?_⟩
    rw [solid_append, solid_append, solid_splitToFit]

/-- The chunks of a text are all there when its parts have been flushed. -/
theorem segment {run : List Block}
    (h : Writing c before heading bodies chunks (markdown run) b) :
  ∃ bodies chunks,
    (Etl.flush c b).chunks = before ++ chunks ∧ Numbered (Etl.flush c b).chunks ∧
      SegmentChunks c ⟨heading, .run run⟩ bodies chunks
  := by
  obtain ⟨empty, bodies, chunks, flushed⟩ := h.flush
  refine ⟨bodies, chunks, flushed.stored, flushed.numbered, SegmentChunks.run flushed.run ?_⟩
  have written := flushed.written
  rw [empty] at written
  rw [← written]
  exact (List.append_nil _).symm

end Writing

/-! ### The chunks of a document -/

/-- A builder at the beginning of a segment. -/
theorem Writing.start {c : Chunker} {heading : Option Block} {b : Builder}
    (numbered : Numbered b.chunks) (isHeading : ∀ h ∈ heading, h.type = .heading)
    (headingMarkdown : b.headingMarkdown = heading.map blockToMarkdown)
    (headingPath : b.headingPath = sectionPath heading) (carry : b.carry = [])
    (parts : b.parts = []) :
  Writing c b.chunks heading [] [] (markdown []) b
  where
  stored := (List.append_nil _).symm
  numbered := numbered
  run := carry ▸ RunChunks.nil
  isHeading := isHeading
  headingMarkdown := headingMarkdown
  headingPath := headingPath
  parts := by
    rw [parts]
    exact fun part mem => absurd mem List.not_mem_nil
  written := by
    rw [parts]
    rfl

/-- A table or a code that is not blank is one chunk. -/
theorem emit_atomic (c : Chunker) {heading : Option Block} {b : Builder} (block : Block)
    (numbered : Numbered b.chunks) (path : b.headingPath = sectionPath heading) :
  ∃ bodies chunks,
    emit c b (blockToMarkdown block) block.position.page =
        { b with chunks := b.chunks ++ chunks } ∧
      Numbered (b.chunks ++ chunks) ∧ SegmentChunks c ⟨heading, .atomic block⟩ bodies chunks
  := by
  by_cases blank : solid (blockToMarkdown block) = []
  · refine ⟨[], [], ?_, ?_, SegmentChunks.blank blank⟩
    · rw [emit_blank c b _ blank, List.append_nil]
    · rwa [List.append_nil]
  · obtain ⟨chunk, emitted, seq, text, chunkPath⟩ :=
      emit_visible c b block.position.page blank
    have segment : SegmentChunks c ⟨heading, .atomic block⟩ [blockToMarkdown block] [chunk] :=
      SegmentChunks.atomic blank text (chunkPath.trans path)
    exact ⟨_, _, emitted, numbered.concat seq, segment⟩

theorem markdown_append (blocks blocks' : List Block) :
  markdown (blocks ++ blocks') = markdown blocks ++ markdown blocks'
  := List.flatMap_append

/-- The rest of a document leads to the chunks of the segments that are left. -/
theorem Writing.rest {c : Chunker} (blocks : List Block) {before : List TextChunk}
    {heading : Option Block} {bodies : List Text} {chunks : List TextChunk} {run : List Block}
    {b : Builder} (h : Writing c before heading bodies chunks (markdown run) b) :
  ∃ bodies chunks,
    (Etl.flush c (blocks.foldl (addBlock c) b)).chunks = before ++ chunks ∧
      Numbered (Etl.flush c (blocks.foldl (addBlock c) b)).chunks ∧
      SegmentsChunks c (segmentsFrom heading run blocks) bodies chunks
  := by
  induction blocks generalizing before heading bodies chunks run b with
  | nil =>
    obtain ⟨bodies, chunks, stored, numbered, segment⟩ := h.segment
    exact ⟨_, _, (List.append_nil chunks).symm ▸ stored, numbered,
      SegmentsChunks.cons segment SegmentsChunks.nil⟩
  | cons block blocks ih =>
    rw [List.foldl_cons]
    unfold segmentsFrom
    split_ifs with isHeading atomic
    · -- the section ends, and the next one has nothing to carry
      have step : addBlock c b block = startSection c b block := if_pos isHeading
      obtain ⟨bodies₁, chunks₁, stored₁, numbered₁, segment⟩ := h.segment
      have start : Writing c (Etl.flush c b).chunks (some block) [] [] (markdown [])
          (startSection c b block) := by
        refine Writing.start (b := startSection c b block) numbered₁ ?_ rfl rfl rfl h.flush.1
        rintro _ ⟨⟩
        exact isHeading
      obtain ⟨bodies₂, chunks₂, stored₂, numbered₂, segments⟩ := ih start
      rw [step]
      refine ⟨_, _, ?_, numbered₂, SegmentsChunks.cons segment segments⟩
      rw [stored₂, stored₁, List.append_assoc]
    · -- the text ends, and the section goes on after the block
      have step : addBlock c b block = addAtomic c b block := by
        unfold addBlock
        rw [if_neg isHeading, if_pos atomic]
      obtain ⟨bodies₁, chunks₁, stored₁, numbered₁, segment⟩ := h.segment
      obtain ⟨empty, _, _, flushed⟩ := h.flush
      obtain ⟨bodies₂, chunks₂, emitted, numbered₂, block⟩ :=
        emit_atomic c (b := { Etl.flush c b with carry := [] }) block numbered₁ flushed.headingPath
      have start : Writing c ((Etl.flush c b).chunks ++ chunks₂) heading [] [] (markdown [])
          { Etl.flush c b with carry := [], chunks := (Etl.flush c b).chunks ++ chunks₂ } :=
        Writing.start
          (b := { Etl.flush c b with carry := [], chunks := (Etl.flush c b).chunks ++ chunks₂ })
          numbered₂ flushed.isHeading flushed.headingMarkdown flushed.headingPath rfl empty
      obtain ⟨bodies₃, chunks₃, stored₃, numbered₃, segments⟩ := ih start
      rw [step]
      unfold addAtomic
      dsimp only
      rw [emitted]
      refine ⟨_, _, ?_, numbered₃,
        SegmentsChunks.cons segment (SegmentsChunks.cons block segments)⟩
      rw [stored₃, stored₁, List.append_assoc, List.append_assoc]
    · have step : addBlock c b block = Etl.addText c b block := by
        unfold addBlock
        rw [if_neg isHeading, if_neg atomic]
      obtain ⟨bodies, chunks, added⟩ := h.addText block
      have written : markdown run ++ blockToMarkdown block = markdown (run ++ [block]) := by
        rw [markdown_append]
        exact congrArg _ (List.append_nil _).symm
      rw [written] at added
      rw [step]
      exact ih added

/-- The text of a segment. -/
def Content.markdown : Content → Text
  | .run blocks => Etl.markdown blocks
  | .atomic block => blockToMarkdown block

theorem SegmentsChunks.solid {c : Chunker} {segments : List Segment} {bodies : List Text}
    {chunks : List TextChunk} (h : SegmentsChunks c segments bodies chunks) :
  solid bodies.flatten = solid (segments.flatMap (·.content.markdown))
  := by
  induction h with
  | nil => rfl
  | cons segment _ ih =>
    rw [List.flatten_append, solid_append, ih, List.flatMap_cons, solid_append]
    congr 1
    cases segment with
    | run _ whole => exact whole
    | atomic =>
      rw [List.flatten_singleton]
      rfl
    | blank blank => exact blank.symm

/-- The segments of a document are its blocks that are not headings. -/
theorem markdown_segmentsFrom (heading : Option Block) (run blocks : List Block) :
  (segmentsFrom heading run blocks).flatMap (·.content.markdown) =
    markdown run ++ markdown (blocks.filter (·.type ≠ .heading))
  := by
  induction blocks generalizing heading run with
  | nil => rfl
  | cons block blocks ih =>
    unfold segmentsFrom
    split_ifs with isHeading atomic
    · rw [List.flatMap_cons, ih, List.filter_cons_of_neg (by simpa using isHeading)]
      rfl
    · rw [List.flatMap_cons, List.flatMap_cons, ih,
        List.filter_cons_of_pos (by simpa using isHeading)]
      rfl
    · rw [ih, List.filter_cons_of_pos (by simpa using isHeading), markdown_append,
        List.append_assoc, ← markdown_append, List.singleton_append]

theorem Writing.ofDocument (c : Chunker) :
  Writing c [] none [] [] (markdown []) {}
  := Writing.start (b := {}) rfl (fun _ none => absurd none (Option.not_mem_none _)) rfl rfl rfl rfl

theorem numbered_chunkDocument (c : Chunker) (doc : ExtractedDoc) :
  Numbered (chunkDocument c doc)
  := by
  obtain ⟨_, _, -, numbered, -⟩ := (Writing.ofDocument c).rest doc.blocks
  exact numbered

/-- The chunks of a document are numbered in its order; they are those of its segments in turn,
each a body under its heading and after its carry; and the bodies are the contents of the document,
but for white space. -/
theorem chunkDocument_decomposes (c : Chunker) (doc : ExtractedDoc) :
  (chunkDocument c doc).map (·.seq) = List.range (chunkDocument c doc).length ∧
    ∃ bodies,
      SegmentsChunks c (segments doc) bodies (chunkDocument c doc) ∧
        solid bodies.flatten = solid (contents doc)
  := by
  refine ⟨numbered_chunkDocument c doc, ?_⟩
  obtain ⟨bodies, chunks, stored, -, decomposed⟩ := (Writing.ofDocument c).rest doc.blocks
  rw [List.nil_append] at stored
  refine ⟨bodies, ?_, ?_⟩
  · unfold chunkDocument
    rw [stored]
    exact decomposed
  · rw [decomposed.solid, markdown_segmentsFrom]
    rfl

/-- The chunker under the configuration that the pipeline resolves. -/
def chunkWith (countTokens : Text → ℕ) (doc : ExtractedDoc) (config : Knowledge.ChunkConfig) :
    List TextChunk :=
  chunkDocument ⟨config.targetTokens, config.overlapTokens, countTokens⟩ doc

/-- The chunker is as the services of the pipeline rely on it. -/
theorem etlLaws_of_chunkWith {etl : Knowledge.Etl} {countTokens : Text → ℕ}
    (chunker : etl.chunkDocument = chunkWith countTokens)
    (artifact : ∀ raw, etl.fromJson (etl.toJson (etl.clean raw)) = .ok (etl.clean raw)) :
  Knowledge.EtlLaws etl
  where
  fromJson_toJson := artifact
  seq := by
    rw [chunker]
    exact fun doc config => numbered_chunkDocument _ doc

end Lumina.Etl
