import Lumina.Etl.Decomposition
import Lumina.Library.Folding

/-!
# Where chunks come from

The builder does not keep of which blocks its parts are, nor which heading a chunk follows.  A trace
of it does: it runs the builder, and notes beside each chunk the blocks of its body, the heading of
its section and whether a chunk came between.
-/

namespace Lumina.Etl

open Knowledge (Block BlockType ExtractedDoc TextChunk)

/-- What a chunk is made of: a block that is not cut, or blocks of the section of a heading; then
`opens` says that no chunk came between the heading and this one. -/
inductive Source where
  | atomic (block : Block)
  | text (heading : Option Block) (opens : Bool) (blocks : List Block)
deriving DecidableEq, Repr

/-- A builder, the block of each of its parts, the last heading, whether no chunk came since, and
the sources of the chunks. -/
structure Traced where
  builder : Builder := {}
  blocks : List Block := []
  heading : Option Block := none
  opens : Bool := false
  sources : List Source := []

namespace Traced

variable (c : Chunker)

/-- `_emit` -/
def emit (t : Traced) (text : Text) (page : Option ℕ) (source : Source) : Traced :=
  if strip text = [] then t
  else
    { t with
      builder := Etl.emit c t.builder text page
      opens := false
      sources := t.sources ++ [source] }

/-- `self._page = page` -/
def setPage (t : Traced) (page : Option ℕ) : Traced :=
  { t with builder := { t.builder with page } }

/-- `_flush` -/
def flush (t : Traced) : Traced :=
  let b := t.builder
  if b.parts = [] then t
  else
    let b' := { b with carry := tail c (separator.intercalate b.parts), parts := [] }
    let source := .text t.heading t.opens t.blocks
    (emit c { t with builder := b', blocks := [] } (b.joined b.parts) b.page source).setPage none

/-- `if self._page is None: self._page = page` -/
def startPage (t : Traced) (page : Option ℕ) : Traced :=
  { t with builder := t.builder.startPage page }

/-- `self._parts.append(piece)`, a piece of the block. -/
def append (t : Traced) (block : Block) (piece : Text) : Traced :=
  { t with
    builder := { t.builder with parts := t.builder.parts ++ [piece] }
    blocks := t.blocks ++ [block] }

/-- Whether a piece fits behind the parts. -/
def fits (t : Traced) (piece : Text) : Bool :=
  c.fits (t.builder.joined (t.builder.parts ++ [piece]))

/-- One piece of a block that did not fit. -/
def addPiece (block : Block) (t : Traced) (piece : Text) : Traced :=
  let t := t.startPage block.position.page
  if t.fits c piece then t.append block piece
  else ((t.flush c).setPage block.position.page).append block piece

/-- `add_text` -/
def addText (t : Traced) (block : Block) : Traced :=
  let text := blockToMarkdown block
  if strip text = [] then t
  else
    let t := t.startPage block.position.page
    if t.fits c text then t.append block text
    else
      let t := t.flush c
      (splitToFit c t.builder text).foldl (addPiece c block) t

/-- `add_atomic` -/
def addAtomic (t : Traced) (block : Block) : Traced :=
  let t := t.flush c
  emit c { t with builder := { t.builder with carry := [] } } (blockToMarkdown block)
    block.position.page (.atomic block)

/-- `start_section` -/
def startSection (t : Traced) (block : Block) : Traced :=
  { t.flush c with
    builder := Etl.startSection c t.builder block
    heading := some block
    opens := true }

/-- The body of the loop of `chunk_document`. -/
def addBlock (t : Traced) (block : Block) : Traced :=
  if block.type = .heading then startSection c t block
  else if isAtomic block then addAtomic c t block
  else addText c t block

end Traced

/-- The trace of the loop of `chunk_document`. -/
def trace (c : Chunker) (blocks : List Block) : Traced :=
  blocks.foldl (Traced.addBlock c) {}

/-- What the chunks of a document are made of. -/
def sources (c : Chunker) (doc : ExtractedDoc) : List Source :=
  ((trace c doc.blocks).flush c).sources

namespace Traced

variable {c : Chunker}

/-! ### A trace runs the builder -/

theorem builder_emit (t : Traced) (text : Text) (page : Option ℕ) (source : Source) :
  (emit c t text page source).builder = Etl.emit c t.builder text page
  := by
  unfold emit
  split_ifs with blank
  · exact (if_pos blank).symm
  · rfl

theorem builder_flush (t : Traced) :
  (flush c t).builder = Etl.flush c t.builder
  := by
  unfold flush Etl.flush
  dsimp only
  split_ifs
  · rfl
  · unfold setPage
    dsimp only
    rw [builder_emit]

theorem builder_addPiece (block : Block) (t : Traced) (piece : Text) :
  (addPiece c block t piece).builder = Etl.addPiece c block.position.page t.builder piece
  := by
  unfold addPiece Etl.addPiece fits
  dsimp only
  split_ifs with there here here
  · rfl
  · exact absurd there here
  · exact absurd here there
  · unfold append setPage
    dsimp only
    rw [builder_flush]
    rfl

theorem builder_addPieces (block : Block) (t : Traced) (pieces : List Text) :
  (pieces.foldl (addPiece c block) t).builder =
    pieces.foldl (Etl.addPiece c block.position.page) t.builder
  := by
  symm
  apply List.foldl_hom Traced.builder
  intro t piece
  exact (builder_addPiece block t piece).symm

theorem builder_addText (t : Traced) (block : Block) :
  (addText c t block).builder = Etl.addText c t.builder block
  := by
  unfold addText Etl.addText fits
  dsimp only
  split_ifs with blank there here here
  · rfl
  · rfl
  · exact absurd there here
  · exact absurd here there
  · rw [builder_addPieces, builder_flush]
    rfl

theorem builder_addAtomic (t : Traced) (block : Block) :
  (addAtomic c t block).builder = Etl.addAtomic c t.builder block
  := by
  unfold addAtomic Etl.addAtomic
  dsimp only
  rw [builder_emit, builder_flush]

theorem builder_addBlock (t : Traced) (block : Block) :
  (addBlock c t block).builder = Etl.addBlock c t.builder block
  := by
  unfold addBlock Etl.addBlock
  split_ifs
  · rfl
  · exact builder_addAtomic t block
  · exact builder_addText t block

theorem builder_trace (blocks : List Block) :
  (trace c blocks).builder = blocks.foldl (Etl.addBlock c) {}
  := by
  symm
  change blocks.foldl (Etl.addBlock c) ({} : Traced).builder = _
  apply List.foldl_hom Traced.builder
  intro t block
  exact (builder_addBlock t block).symm

/-- The chunks of a trace are those of the document. -/
theorem chunks_flush_trace (doc : ExtractedDoc) :
  ((trace c doc.blocks).flush c).builder.chunks = chunkDocument c doc
  := by
  rw [builder_flush, builder_trace]
  rfl

/-! ### Chunks that agree with their sources -/

/-- The parts of a builder each have a block, and none of them is blank.  The page is not left open
if the first block has one. -/
structure Sound (t : Traced) : Prop where
  blocks : t.blocks.length = t.builder.parts.length
  parts : ∀ part ∈ t.builder.parts, solid part ≠ []
  page : t.builder.page = none → ∀ first ∈ t.blocks.head?, first.position.page = none

theorem Sound.blocks_eq_nil_iff {t : Traced} (h : Sound t) :
  t.blocks = [] ↔ t.builder.parts = []
  := by
  rw [← List.length_eq_zero_iff, h.blocks, List.length_eq_zero_iff]

theorem sound_of_parts {t : Traced} (blocks : t.blocks = []) (parts : t.builder.parts = []) :
  Sound t
  where
  blocks := by
    rw [blocks, parts]
    rfl
  parts := by
    rw [parts]
    exact fun part mem => absurd mem List.not_mem_nil
  page := by
    rw [blocks]
    exact fun _ first mem => absurd mem (Option.not_mem_none first)

theorem Sound.startPage {t : Traced} (h : Sound t) (page : Option ℕ) :
  Sound (t.startPage page)
  where
  blocks := h.blocks
  parts := h.parts
  page := fun none => h.page (Option.or_eq_none_iff.mp none).1

theorem Sound.append {t : Traced} (h : Sound t) {block : Block} {piece : Text}
    (visible : solid piece ≠ []) (paged : t.builder.page = none → block.position.page = none) :
  Sound (t.append block piece)
  where
  blocks := by
    unfold Traced.append
    dsimp only
    rw [List.length_append, List.length_append, h.blocks, List.length_singleton,
      List.length_singleton]
  parts := by
    intro part mem
    rcases List.mem_append.mp mem with old | new
    · exact h.parts part old
    · rwa [List.mem_singleton.mp new]
  page := by
    intro none first mem
    unfold Traced.append at mem
    dsimp only at mem
    cases eq : t.blocks with
    | nil =>
      rw [eq] at mem
      rw [← Option.some.inj mem]
      exact paged none
    | cons owner blocks =>
      rw [eq] at mem
      apply h.page none
      rw [eq]
      exact mem

/-- The chunk that `_flush` would make now. -/
def draft (c : Chunker) (t : Traced) : TextChunk :=
  let body := strip (t.builder.joined t.builder.parts)
  { seq := t.builder.chunks.length
    text := String.ofList body
    tokenCount := c.countTokens body
    page := t.builder.page
    headingPath := t.builder.headingPath }

/-- The source of the chunk that `_flush` would make now. -/
def source (t : Traced) : Source :=
  .text t.heading t.opens t.blocks

theorem flush_of_none {t : Traced} (none : t.builder.parts = []) :
  flush c t = t
  := if_pos none

/-- `_flush` makes a chunk of the parts, if there are any. -/
theorem Sound.flush_eq {t : Traced} (h : Sound t) (some : t.builder.parts ≠ []) :
  flush c t =
    { t with
      builder :=
        { t.builder with
          chunks := t.builder.chunks ++ [draft c t]
          carry := tail c (separator.intercalate t.builder.parts)
          parts := []
          page := none }
      blocks := []
      opens := false
      sources := t.sources ++ [t.source] }
  := by
  have visible : strip (t.builder.joined t.builder.parts) ≠ [] := by
    obtain ⟨part, parts, eq⟩ := List.exists_cons_of_ne_nil some
    rw [ne_eq, strip_eq_nil_iff]
    unfold Builder.joined
    rw [solid_intercalate_separator, List.flatten_append, solid_append, eq, List.flatten_cons,
      solid_append]
    apply List.append_ne_nil_of_right_ne_nil
    apply List.append_ne_nil_of_left_ne_nil
    apply h.parts
    rw [eq]
    exact List.mem_cons_self
  unfold flush emit Etl.emit
  dsimp only
  rw [if_neg some, if_neg visible, if_neg visible]
  rfl

/-- After `_flush` there are no parts. -/
theorem Sound.flush {t : Traced} (h : Sound t) :
  Sound (flush c t) ∧ (flush c t).builder.parts = []
  := by
  by_cases some : t.builder.parts = []
  · rw [flush_of_none some]
    exact ⟨h, some⟩
  · rw [h.flush_eq some]
    exact ⟨sound_of_parts rfl rfl, rfl⟩

variable (R : TextChunk → Source → Prop)

/-- The chunks are as their sources want them, and so is the one that is being made. -/
def Agrees (c : Chunker) (t : Traced) : Prop :=
  List.Forall₂ R t.builder.chunks t.sources ∧ (t.builder.parts ≠ [] → R (draft c t) t.source)

variable {R}

theorem agrees_iff_of_none {t : Traced} (none : t.builder.parts = []) :
  Agrees R c t ↔ List.Forall₂ R t.builder.chunks t.sources
  := and_iff_left fun some => absurd none some

theorem Sound.agrees_flush {t : Traced} (h : Sound t) :
  Agrees R c (Traced.flush c t) ↔ Agrees R c t
  := by
  by_cases some : t.builder.parts = []
  · rw [flush_of_none some]
  · rw [agrees_iff_of_none h.flush.2, h.flush_eq some]
    dsimp only
    rw [Folding.forall₂_concat]
    exact and_congr_right' ⟨fun holds _ => holds, fun holds => holds some⟩

theorem Sound.startSection {t : Traced} (h : Sound t) (block : Block) :
  Sound (startSection c t block) ∧ (Traced.startSection c t block).builder.parts = []
  := by
  have none : (Traced.startSection c t block).builder.parts = [] := by
    rw [← h.flush (c := c).2, builder_flush]
    rfl
  exact ⟨sound_of_parts (h.flush.1.blocks_eq_nil_iff.mpr h.flush.2) none, none⟩

theorem Sound.agrees_startSection {t : Traced} (h : Sound t) (block : Block) :
  Agrees R c (Traced.startSection c t block) ↔ Agrees R c t
  := by
  rw [← h.agrees_flush, agrees_iff_of_none (h.startSection block).2, agrees_iff_of_none h.flush.2,
    builder_flush]
  rfl

theorem Sound.addAtomic {t : Traced} (h : Sound t) (block : Block) :
  Sound (addAtomic c t block) ∧ (Traced.addAtomic c t block).builder.parts = []
  := by
  have blocks := h.flush.1.blocks_eq_nil_iff.mpr (h.flush (c := c)).2
  have parts := (h.flush (c := c)).2
  unfold Traced.addAtomic emit Etl.emit
  dsimp only
  split_ifs
  · exact ⟨sound_of_parts blocks parts, parts⟩
  · exact ⟨sound_of_parts blocks parts, parts⟩

theorem Sound.agrees_addAtomic {t : Traced} (h : Sound t) (block : Block)
    (atomic : ∀ chunk : TextChunk, chunk.page = block.position.page → R chunk (.atomic block)) :
  Agrees R c (Traced.addAtomic c t block) ↔ Agrees R c t
  := by
  rw [← h.agrees_flush, agrees_iff_of_none (h.addAtomic block).2, agrees_iff_of_none h.flush.2]
  unfold Traced.addAtomic emit Etl.emit
  dsimp only
  split_ifs
  · rfl
  · rw [Folding.forall₂_concat]
    exact and_iff_left (atomic _ rfl)

theorem Sound.addPiece {t : Traced} (h : Sound t) (block : Block) {piece : Text}
    (visible : solid piece ≠ []) :
  Sound (addPiece c block t piece)
  := by
  have started := h.startPage block.position.page
  unfold Traced.addPiece
  dsimp only
  split_ifs
  · exact started.append visible fun none => (Option.or_eq_none_iff.mp none).2
  · have flushed := started.flush (c := c)
    have empty := sound_of_parts (t := (Traced.flush c (t.startPage block.position.page)).setPage
      block.position.page) (flushed.1.blocks_eq_nil_iff.mpr flushed.2) flushed.2
    exact empty.append visible id

theorem Sound.addText {t : Traced} (h : Sound t) (block : Block) :
  Sound (addText c t block)
  := by
  have started := h.startPage block.position.page
  unfold Traced.addText
  dsimp only
  split_ifs with blank
  · exact h
  · apply started.append (mt strip_eq_nil_iff.mpr blank)
    exact fun none => (Option.or_eq_none_iff.mp none).2
  · apply List.foldlRecOn _ _ started.flush.1
    exact fun t sound piece mem => sound.addPiece block (solid_of_mem_splitToFit mem)

theorem Sound.addBlock {t : Traced} (h : Sound t) (block : Block) :
  Sound (addBlock c t block)
  := by
  unfold Traced.addBlock
  split_ifs
  · exact (h.startSection block).1
  · exact (h.addAtomic block).1
  · exact h.addText block

end Traced

/-- A block that is neither a heading nor kept whole. -/
def IsText (block : Block) : Prop :=
  block.type ≠ .heading ∧ ¬isAtomic block

/-- What the chunks of a document agree with depends on the blocks of text alone, taken from the
states in which they are met. -/
theorem forall₂_sources_iff {c : Chunker} {R : TextChunk → Source → Prop}
    {Ok : Traced → Block → Prop}
    (atomic : ∀ (chunk : TextChunk) (block : Block),
      chunk.page = block.position.page → R chunk (.atomic block))
    (text : ∀ {t : Traced} (block : Block), t.Sound →
      ((t.addText c block).Agrees R c ↔ t.Agrees R c ∧ Ok t block))
    (doc : ExtractedDoc) :
  List.Forall₂ R (chunkDocument c doc) (sources c doc) ↔
    Folding.Throughout (Traced.addBlock c) (fun t block => IsText block → Ok t block) {} doc.blocks
  := by
  have start : Traced.Sound {} := Traced.sound_of_parts rfl rfl
  have nothing : Traced.Agrees R c {} :=
    ⟨List.Forall₂.nil, fun some => absurd rfl some⟩
  have sound : (trace c doc.blocks).Sound :=
    List.foldlRecOn _ _ start fun t sound block _ => sound.addBlock block
  have step : ∀ t, ∀ block ∈ doc.blocks, t.Sound →
      ((t.addBlock c block).Agrees R c ↔ t.Agrees R c ∧ (IsText block → Ok t block)) := by
    intro t block _ sound
    unfold Traced.addBlock IsText
    split_ifs with heading whole
    · rw [sound.agrees_startSection]
      exact (and_iff_left fun text => absurd heading text.1).symm
    · rw [sound.agrees_addAtomic block fun chunk => atomic chunk block]
      exact (and_iff_left fun text => absurd whole text.2).symm
    · rw [text block sound]
      exact and_congr_right' ⟨fun ok _ => ok, fun ok => ok ⟨heading, whole⟩⟩
  have whole :=
    Folding.foldl_iff_throughout (fun t block _ sound => sound.addBlock block) step start
  rw [← Traced.chunks_flush_trace]
  unfold sources
  rw [← Traced.agrees_iff_of_none sound.flush.2, sound.agrees_flush]
  unfold trace
  rw [whole]
  exact and_iff_right nothing

end Lumina.Etl
