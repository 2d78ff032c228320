import Lumina.Etl.Provenance

/-!
# The pages of chunks

A chunk should have the page of the first block of its body, or that of the heading of its section
if it opens the section.  The builder keeps the page of a heading until a chunk of text takes it,
also if a table or a code has been a chunk in between; and if the first block has no page, the next
one gives it its own.
-/

namespace Lumina.Etl

open Knowledge (Block BlockType ExtractedDoc TextChunk)
open Folding (Throughout)

/-- The page that a chunk should have. -/
def PageRight (chunk : TextChunk) : Source → Prop
  | .atomic block => chunk.page = block.position.page
  | .text heading opens blocks =>
      (∃ first ∈ blocks.head?, chunk.page = first.position.page) ∨
        (opens = true ∧ ∃ h ∈ heading, chunk.page = h.position.page)

instance (chunk : TextChunk) : ∀ source, Decidable (PageRight chunk source)
  | .atomic block => inferInstanceAs (Decidable (chunk.page = block.position.page))
  | .text heading opens blocks =>
      inferInstanceAs (Decidable
        ((∃ first ∈ blocks.head?, chunk.page = first.position.page) ∨
          (opens = true ∧ ∃ h ∈ heading, chunk.page = h.position.page)))

/-- The next chunk opens a section whose heading is on the page. -/
def OpensAt (t : Traced) (page : Option ℕ) : Prop :=
  t.opens = true ∧ ∃ h ∈ t.heading, page = h.position.page

/-- A chunk that begins with the block may have the page of the builder, or the builder has none. -/
def Suits (t : Traced) (block : Block) : Prop :=
  t.builder.page = none ∨ t.builder.page = block.position.page ∨ OpensAt t t.builder.page

/-- The builder has kept the page of a heading past a table or a code, and the beginning of the
block, which is on another page, is put under it. -/
def KeepsPast (c : Chunker) (t : Traced) (block : Block) : Prop :=
  t.builder.parts = [] ∧
    ¬Suits t block ∧
    (t.fits c (blockToMarkdown block) = true ∨
      ∃ piece ∈ (splitToFit c t.builder (blockToMarkdown block)).head?, t.fits c piece = true)

/-- The chunk in progress begins with a block that has no page, and takes that of this one. -/
def TakesLater (t : Traced) (block : Block) : Prop :=
  t.builder.parts ≠ [] ∧
    t.builder.page = none ∧
    block.position.page ≠ none ∧
    ¬OpensAt t block.position.page

namespace Traced

variable {c : Chunker} {t : Traced}

theorem startPage_eq_self {page : Option ℕ} (h : t.builder.page = none → page = none) :
  t.startPage page = t
  := by
  unfold Traced.startPage Builder.startPage
  cases taken : t.builder.page with
  | none => rw [h taken, Option.or_none, ← taken]
  | some n => rw [Option.some_or, ← taken]

/-- As long as the page is open, the first block has none. -/
theorem exists_first_of_none (h : Sound t) (some : t.builder.parts ≠ [])
    (page : t.builder.page = none) :
  ∃ first ∈ t.blocks.head?, first.position.page = none
  := by
  obtain ⟨first, blocks, eq⟩ := List.exists_cons_of_ne_nil (mt h.blocks_eq_nil_iff.mp some)
  have mem : first ∈ t.blocks.head? := by
    rw [eq]
    rfl
  exact ⟨first, mem, h.page page first mem⟩

/-- The page of a later block is right if it is none, or that of the heading that is opened. -/
theorem pageRight_startPage {first : Block} (mem : first ∈ t.blocks.head?)
    (open_ : first.position.page = none) (page : t.builder.page = none) (block : Block) :
  PageRight (draft c (t.startPage block.position.page)) t.source ↔
    block.position.page = none ∨ OpensAt t block.position.page
  := by
  have taken : (draft c (t.startPage block.position.page)).page = block.position.page := by
    unfold draft Traced.startPage Builder.startPage
    dsimp only
    rw [page, Option.none_or]
  unfold source PageRight
  dsimp only
  rw [taken]
  constructor
  · rintro (⟨first', mem', same⟩ | opens)
    · rw [← Option.mem_unique mem mem', open_] at same
      exact Or.inl same
    · exact Or.inr opens
  · rintro (none | opens)
    · exact Or.inl ⟨first, mem, none.trans open_.symm⟩
    · exact Or.inr opens

/-- The first page is taken, if it is not the page of a later block. -/
theorem agrees_startPage (h : Sound t) (block : Block) :
  Agrees PageRight c (t.startPage block.position.page) ↔
    Agrees PageRight c t ∧ ¬TakesLater t block
  := by
  by_cases later : t.builder.parts ≠ [] ∧ t.builder.page = none
  · obtain ⟨some, page⟩ := later
    obtain ⟨first, mem, open_⟩ := exists_first_of_none h some page
    have before : PageRight (draft c t) t.source := Or.inl ⟨first, mem, page.trans open_.symm⟩
    have after := pageRight_startPage (c := c) mem open_ page block
    constructor
    · rintro ⟨stored, now⟩
      refine ⟨⟨stored, fun _ => before⟩, ?_⟩
      rintro ⟨-, -, paged, other⟩
      exact (after.mp (now some)).elim paged other
    · rintro ⟨⟨stored, -⟩, later⟩
      refine ⟨stored, fun _ => after.mpr ?_⟩
      by_contra neither
      rw [not_or] at neither
      exact later ⟨some, page, neither.1, neither.2⟩
  · have early : ¬TakesLater t block := fun takes => later ⟨takes.1, takes.2.1⟩
    rw [and_iff_left early]
    by_cases some : t.builder.parts = []
    · rw [agrees_iff_of_none some, agrees_iff_of_none (t := t.startPage block.position.page) some]
      rfl
    · rw [startPage_eq_self fun page => absurd ⟨some, page⟩ later]

/-- The first part takes the page. -/
theorem agrees_append (h : Sound t) (block : Block) (piece : Text) :
  Agrees PageRight c (t.append block piece) ↔
    Agrees PageRight c t ∧
      (t.builder.parts = [] → t.builder.page = block.position.page ∨ OpensAt t t.builder.page)
  := by
  have some : (t.append block piece).builder.parts ≠ [] :=
    List.append_ne_nil_of_right_ne_nil _ (List.cons_ne_nil _ _)
  have now : Agrees PageRight c (t.append block piece) ↔
      List.Forall₂ PageRight t.builder.chunks t.sources ∧
        PageRight (draft c (t.append block piece)) (t.append block piece).source :=
    and_congr_right' ⟨fun holds => holds some, fun holds _ => holds⟩
  rw [now]
  by_cases none : t.builder.parts = []
  · rw [agrees_iff_of_none none]
    refine and_congr_right' ?_
    have first : (t.append block piece).blocks.head? = Option.some block := by
      unfold append
      dsimp only
      rw [h.blocks_eq_nil_iff.mpr none]
      rfl
    constructor
    · rintro (⟨first', mem, at_⟩ | opens) -
      · left
        rw [Option.some.inj (first.symm.trans mem)]
        exact at_
      · exact Or.inr opens
    · intro holds
      exact (holds none).imp (fun at_ => ⟨block, first, at_⟩) id
  · have same : (t.append block piece).blocks.head? = t.blocks.head? := by
      unfold append
      dsimp only
      exact List.head?_append_of_ne_nil _ (mt h.blocks_eq_nil_iff.mp none)
    have drafts : PageRight (draft c (t.append block piece)) (t.append block piece).source ↔
        PageRight (draft c t) t.source := by
      unfold source PageRight
      dsimp only
      rw [same]
      rfl
    rw [drafts]
    constructor
    · exact fun ⟨stored, right⟩ => ⟨⟨stored, fun _ => right⟩, fun empty => absurd empty none⟩
    · exact fun ⟨⟨stored, right⟩, _⟩ => ⟨stored, right none⟩

theorem suits_startPage (t : Traced) (block : Block) :
  Suits (t.startPage block.position.page) block ↔ Suits t block
  := by
  unfold Suits startPage Builder.startPage
  dsimp only
  cases page : t.builder.page with
  | none => exact iff_of_true (Or.inr (Or.inl rfl)) (Or.inl rfl)
  | some n => rfl

/-- A part that is put where the page is open gives it its own. -/
theorem agrees_append_startPage (h : Sound t) (block : Block) (piece : Text) :
  Agrees PageRight c ((t.startPage block.position.page).append block piece) ↔
    Agrees PageRight c t ∧ ¬TakesLater t block ∧ (t.builder.parts = [] → Suits t block)
  := by
  rw [agrees_append (h.startPage block.position.page), agrees_startPage h, and_assoc]
  refine and_congr_right' (and_congr_right' (imp_congr_right fun _ => ?_))
  unfold Suits startPage Builder.startPage
  dsimp only
  cases page : t.builder.page with
  | none => exact iff_of_true (Or.inl rfl) (Or.inl rfl)
  | some n =>
    rw [Option.some_or]
    exact (or_iff_right (Option.some_ne_none n)).symm

/-- A chunk is in progress, and a piece of the block would leave its page as it is. -/
def Continues (t : Traced) (block : Block) : Prop :=
  t.builder.parts ≠ [] ∧ (t.builder.page = none → block.position.page = none)

theorem continues_append (t : Traced) {block : Block} (piece : Text)
    (paged : t.builder.page = none → block.position.page = none) :
  Continues (t.append block piece) block
  := ⟨List.append_ne_nil_of_right_ne_nil _ (List.cons_ne_nil _ _), paged⟩

theorem continues_addPiece (t : Traced) (block : Block) (piece : Text) :
  Continues (addPiece c block t piece) block
  := by
  unfold addPiece
  dsimp only
  split_ifs
  · exact continues_append _ piece fun none => (Option.or_eq_none_iff.mp none).2
  · exact continues_append _ piece id

/-- A piece that is put down after `_flush` has the page of its block. -/
theorem agrees_append_flush (h : Sound t) (block : Block) (piece : Text) :
  Agrees PageRight c (((t.flush c).setPage block.position.page).append block piece) ↔
    Agrees PageRight c t
  := by
  have none : ((t.flush c).setPage block.position.page).builder.parts = [] := h.flush.2
  have sound : Sound ((t.flush c).setPage block.position.page) :=
    sound_of_parts (h.flush.1.blocks_eq_nil_iff.mpr none) none
  rw [agrees_append sound, ← h.agrees_flush, agrees_iff_of_none none, agrees_iff_of_none h.flush.2]
  exact and_iff_left fun _ => Or.inl rfl

theorem agrees_addPiece_of_continues (h : Sound t) {block : Block} (on : Continues t block)
    (piece : Text) :
  Agrees PageRight c (addPiece c block t piece) ↔ Agrees PageRight c t
  := by
  unfold addPiece
  rw [startPage_eq_self on.2]
  dsimp only
  split_ifs
  · rw [agrees_append h]
    exact and_iff_left fun none => absurd none on.1
  · exact agrees_append_flush h block piece

theorem agrees_addPieces_of_continues (h : Sound t) {block : Block} (on : Continues t block)
    {pieces : List Text} (visible : ∀ piece ∈ pieces, solid piece ≠ []) :
  Agrees PageRight c (pieces.foldl (addPiece c block) t) ↔ Agrees PageRight c t
  := by
  induction pieces generalizing t with
  | nil => rfl
  | cons piece pieces ih =>
    rw [List.forall_mem_cons] at visible
    rw [List.foldl_cons, ih (h.addPiece block visible.1) (continues_addPiece t block piece)
      visible.2, agrees_addPiece_of_continues h on]

/-- The pieces of a block that did not fit: what matters is whether the first one is put under a
page that the builder has. -/
theorem agrees_addPieces (h : Sound t) (empty : t.builder.parts = []) (block : Block)
    {first : Text} {pieces : List Text} (visible : ∀ piece ∈ first :: pieces, solid piece ≠ []) :
  Agrees PageRight c ((first :: pieces).foldl (addPiece c block) t) ↔
    Agrees PageRight c t ∧ (t.fits c first = true → Suits t block)
  := by
  rw [List.forall_mem_cons] at visible
  rw [List.foldl_cons, agrees_addPieces_of_continues (h.addPiece block visible.1)
    (continues_addPiece t block first) visible.2]
  have early : ¬TakesLater t block := fun later => later.1 empty
  unfold addPiece
  dsimp only
  split_ifs with fits
  · rw [agrees_append_startPage h, and_iff_right early, imp_iff_right empty]
    exact and_congr_right' (imp_iff_right fits).symm
  · rw [agrees_append_flush (h.startPage block.position.page), agrees_startPage h,
      and_iff_left early]
    exact (and_iff_left fun holds => absurd holds fits).symm

theorem splitToFit_ne_nil (b : Builder) {text : Text} (visible : strip text ≠ []) :
  splitToFit c b text ≠ []
  := by
  intro none
  apply visible
  rw [strip_eq_nil_iff, ← solid_splitToFit c b text, none]
  rfl

/-- A block of text goes wrong in two ways. -/
theorem agrees_addText (h : Sound t) (block : Block) :
  Agrees PageRight c (addText c t block) ↔
    Agrees PageRight c t ∧
      (strip (blockToMarkdown block) ≠ [] → ¬KeepsPast c t block ∧ ¬TakesLater t block)
  := by
  unfold addText
  dsimp only
  split_ifs with blank fits
  · exact (and_iff_left fun visible => absurd blank visible).symm
  · rw [agrees_append_startPage h, imp_iff_right blank, and_comm (a := ¬KeepsPast c t block)]
    refine and_congr_right' (and_congr_right' ?_)
    constructor
    · exact fun suits past => past.2.1 (suits past.1)
    · intro past empty
      by_contra suits
      exact past ⟨empty, suits, Or.inl fits⟩
  · have early : Agrees PageRight c ((t.startPage block.position.page).flush c) ↔
        Agrees PageRight c t ∧ ¬TakesLater t block :=
      (h.startPage block.position.page).agrees_flush.trans (agrees_startPage h block)
    obtain ⟨flushed, empty⟩ := (h.startPage block.position.page).flush (c := c)
    obtain ⟨first, pieces, split⟩ := List.exists_cons_of_ne_nil
      (splitToFit_ne_nil (c := c) ((t.startPage block.position.page).flush c).builder blank)
    have visible : ∀ piece ∈ first :: pieces, solid piece ≠ [] := by
      rw [← split]
      exact fun piece => solid_of_mem_splitToFit
    rw [split, agrees_addPieces flushed empty block visible, early, imp_iff_right blank,
      and_comm (a := ¬KeepsPast c t block), and_assoc]
    refine and_congr_right' (and_congr_right' ?_)
    by_cases none : t.builder.parts = []
    · rw [flush_of_none (t := t.startPage block.position.page) none] at split ⊢
      rw [suits_startPage]
      have head : (splitToFit c t.builder (blockToMarkdown block)).head? = some first :=
        congrArg List.head? split
      constructor
      · rintro suits ⟨-, other, fit | ⟨piece, mem, fit⟩⟩
        · exact fits fit
        · rw [Option.some.inj (head.symm.trans mem)] at suits
          exact other (suits fit)
      · intro past fit
        by_contra suits
        exact past ⟨none, suits, Or.inr ⟨first, head, fit⟩⟩
    · have open_ : ((t.startPage block.position.page).flush c).builder.page = Option.none := by
        rw [(h.startPage block.position.page).flush_eq none]
      exact iff_of_true (fun _ => Or.inl open_) fun past => none past.1

end Traced

/-- Every chunk of a document has the page that it should have, exactly if no block of text that
shows anything is met where the page of a heading has been kept past a table or a code and the block
is put under it, nor where the chunk in progress begins without a page and the block has one. -/
theorem pages_right_iff (c : Chunker) (doc : ExtractedDoc) :
  List.Forall₂ PageRight (chunkDocument c doc) (sources c doc) ↔
    ∀ before block after, doc.blocks = before ++ block :: after →
      IsText block → strip (blockToMarkdown block) ≠ [] →
        ¬KeepsPast c (trace c before) block ∧ ¬TakesLater (trace c before) block
  := forall₂_sources_iff (fun _ _ page => page) (fun block h => Traced.agrees_addText h block) doc

/-- A heading on the third page, a table on the fourth, and a paragraph on the fifth. -/
def headingTableParagraph : ExtractedDoc where
  blocks :=
    [{ type := .heading, text := "T", position := { order := 0, page := some 3 } },
      { type := .table, text := "|a|", position := { order := 1, page := some 4 } },
      { type := .paragraph, text := "b.", position := { order := 2, page := some 5 } }]

/-- The paragraph is said to be on the page of the heading, and is not right after it. -/
theorem paragraph_keeps_page_past_table :
  (chunkDocument ⟨512, 64, estimateTokens⟩ headingTableParagraph).map (·.page) =
      [some 4, some 3] ∧
    ¬List.Forall₂ PageRight (chunkDocument ⟨512, 64, estimateTokens⟩ headingTableParagraph)
      (sources ⟨512, 64, estimateTokens⟩ headingTableParagraph)
  := by
  decide +kernel

end Lumina.Etl
