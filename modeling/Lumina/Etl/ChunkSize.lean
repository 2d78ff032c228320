import Lumina.Etl.Provenance

/-!
# The sizes of chunks

The chunker measures what it puts behind the parts of a chunk, but not what it begins a chunk with
after it has flushed: the pieces of a block are cut to a budget that was taken from the carry before
the block, by an average ratio if a sentence is too long, and without the separators; so a piece and
the carry that it is put after may be too much.  The chunks of text of roomy sections are within the
target exactly if no piece that is put down so is too much.
-/

namespace Lumina.Etl

open Knowledge (Block BlockType ExtractedDoc TextChunk)
open Folding (Throughout)

/-! ### Longer texts do not have fewer tokens -/

theorem estimateTokens_mono {text text' : Text} (h : text.Sublist text') :
  estimateTokens text ≤ estimateTokens text'
  := by
  have cjk : text.countP isCjk ≤ text'.countP isCjk := h.countP_le
  have rest : text.countP (fun c => !isCjk c) ≤ text'.countP (fun c => !isCjk c) := h.countP_le
  have length := List.length_eq_countP_add_countP isCjk (l := text)
  have length' := List.length_eq_countP_add_countP isCjk (l := text')
  simp only [Bool.not_eq_true, Bool.decide_eq_false] at length length'
  unfold estimateTokens
  dsimp only
  omega

theorem strip_sublist (text : Text) :
  (strip text).Sublist text
  := (List.rdropWhile_prefix isSpace _).sublist.trans (List.dropWhile_sublist isSpace)

theorem intercalate_sublist_concat (sep : Text) (texts : List Text) (text : Text) :
  (sep.intercalate texts).Sublist (sep.intercalate (texts ++ [text]))
  := by
  induction texts with
  | nil => exact List.nil_sublist _
  | cons first texts ih =>
    cases texts with
    | nil =>
      rw [List.singleton_append, List.intercalate_singleton, List.intercalate_cons_cons,
        List.append_assoc]
      exact List.sublist_append_left first _
    | cons next texts =>
      rw [List.cons_append, List.cons_append, List.intercalate_cons_cons,
        List.intercalate_cons_cons, ← List.cons_append]
      exact ih.append_left _

theorem joined_sublist_concat (b : Builder) (parts : List Text) (piece : Text) :
  (b.joined parts).Sublist (b.joined (parts ++ [piece]))
  := by
  unfold Builder.joined
  rw [← List.append_assoc]
  exact intercalate_sublist_concat separator _ piece

/-! ### The sizes -/

section

variable (c : Chunker)

/-- The heading of a section, what may be carried over and the separators leave room for a text. -/
def Roomy (heading : Option Block) : Prop :=
  (heading.map fun h => c.countTokens (blockToMarkdown h)).getD 0 + c.overlapTokens +
    2 * c.countTokens separator < c.targetTokens

instance (heading : Option Block) : Decidable (Roomy c heading) :=
  inferInstanceAs (Decidable (_ < _))

/-- A chunk of text of a roomy section is within the target. -/
def SizeRight (chunk : TextChunk) : Source → Prop
  | .atomic _ => True
  | .text heading _ _ => Roomy c heading → chunk.tokenCount ≤ c.targetTokens

instance (chunk : TextChunk) : ∀ source, Decidable (SizeRight c chunk source)
  | .atomic _ => inferInstanceAs (Decidable True)
  | .text heading _ _ =>
      inferInstanceAs (Decidable (Roomy c heading → chunk.tokenCount ≤ c.targetTokens))

/-- The piece of a block does not fit behind the parts, nor when these are flushed and it stands
after the heading and what is carried over of them. -/
def Overflows (t : Traced) (piece : Text) : Prop :=
  Roomy c t.heading ∧
    t.fits c piece = false ∧
    c.targetTokens < c.countTokens (strip ((t.flush c).builder.joined [piece]))

/-- The trace where the loop over the pieces of a block begins. -/
def beforePieces (t : Traced) (block : Block) : Traced :=
  (t.startPage block.position.page).flush c

/-- Every piece that a block is cut into fits where it is put. -/
def PiecesFit (t : Traced) (block : Block) : Prop :=
  let start := beforePieces c t block
  Throughout (Traced.addPiece c block) (fun t piece => ¬Overflows c t piece) start
    (splitToFit c start.builder (blockToMarkdown block))

end

namespace Traced

variable {c : Chunker} {t : Traced}
  (mono : ∀ {text text' : Text}, text.Sublist text' → c.countTokens text ≤ c.countTokens text')

theorem agrees_size_startPage (t : Traced) (page : Option ℕ) :
  Agrees (SizeRight c) c (t.startPage page) ↔ Agrees (SizeRight c) c t
  := Iff.rfl

include mono in
/-- A part that is measured keeps the chunk in progress within the target. -/
theorem agrees_append_of_fits (block : Block) {piece : Text} (fits : t.fits c piece = true) :
  Agrees (SizeRight c) c (t.append block piece) ↔ Agrees (SizeRight c) c t
  := by
  have within : (c.countTokens (t.builder.joined (t.builder.parts ++ [piece])) : ℤ) ≤
      c.targetTokens := of_decide_eq_true fits
  have after : SizeRight c (draft c (t.append block piece)) (t.append block piece).source := by
    intro _
    have count := mono (strip_sublist (t.builder.joined (t.builder.parts ++ [piece])))
    exact le_trans (Int.ofNat_le.mpr count) within
  have before : SizeRight c (draft c t) t.source := by
    intro _
    have count := mono ((strip_sublist (t.builder.joined t.builder.parts)).trans
      (joined_sublist_concat t.builder t.builder.parts piece))
    exact le_trans (Int.ofNat_le.mpr count) within
  exact and_congr_right' (iff_of_true (fun _ => after) fun _ => before)

/-- What stands before a part does not depend on the page. -/
theorem joined_flush_startPage (b : Builder) (page : Option ℕ) (parts : List Text) :
  (Etl.flush c (b.startPage page)).joined parts = (Etl.flush c b).joined parts
  := by
  have same : (b.startPage page).parts = b.parts := rfl
  unfold Etl.flush Etl.emit
  dsimp only
  rw [same]
  split_ifs <;> rfl

theorem heading_flush (t : Traced) :
  (t.flush c).heading = t.heading
  := by
  unfold flush emit setPage
  dsimp only
  split_ifs <;> rfl

/-- A part that is put down after `_flush` is not measured. -/
theorem agrees_size_append_flush (h : Sound t) (block : Block) (piece : Text) :
  Agrees (SizeRight c) c (((t.flush c).setPage block.position.page).append block piece) ↔
    Agrees (SizeRight c) c t ∧
      (Roomy c t.heading →
        c.countTokens (strip ((t.flush c).builder.joined [piece])) ≤ c.targetTokens)
  := by
  have empty := h.flush (c := c).2
  have some : (((t.flush c).setPage block.position.page).append block piece).builder.parts ≠ [] :=
    List.append_ne_nil_of_right_ne_nil _ (List.cons_ne_nil _ _)
  have alone : (((t.flush c).setPage block.position.page).append block piece).builder.parts =
      [piece] := by
    unfold append setPage
    dsimp only
    rw [empty]
    rfl
  have begins : SizeRight c
      (draft c (((t.flush c).setPage block.position.page).append block piece))
      (((t.flush c).setPage block.position.page).append block piece).source ↔
        (Roomy c t.heading →
          c.countTokens (strip ((t.flush c).builder.joined [piece])) ≤ c.targetTokens) := by
    unfold draft
    rw [alone, ← heading_flush (c := c)]
    rfl
  rw [← h.agrees_flush, agrees_iff_of_none empty, ← begins]
  exact and_congr_right' (imp_iff_right some)

include mono in
/-- A piece keeps the sizes right, unless it overflows. -/
theorem agrees_size_addPiece (h : Sound t) (block : Block) (piece : Text) :
  Agrees (SizeRight c) c (addPiece c block t piece) ↔
    Agrees (SizeRight c) c t ∧ ¬Overflows c t piece
  := by
  unfold addPiece
  dsimp only
  split_ifs with fits
  · rw [agrees_append_of_fits mono block fits, agrees_size_startPage]
    exact (and_iff_left fun overflows =>
      absurd (overflows.2.1.symm.trans fits) Bool.false_ne_true).symm
  · have notFits : t.fits c piece = false := Bool.eq_false_iff.mpr fits
    have same : ((t.startPage block.position.page).flush c).builder.joined [piece] =
        (t.flush c).builder.joined [piece] := by
      rw [builder_flush, builder_flush]
      exact joined_flush_startPage t.builder _ _
    rw [agrees_size_append_flush (h.startPage _), agrees_size_startPage, same]
    refine and_congr_right' ?_
    constructor
    · exact fun within overflows => absurd (within overflows.1) (not_le.mpr overflows.2.2)
    · intro within roomy
      by_contra over_
      exact within ⟨roomy, notFits, not_le.mp over_⟩

include mono in
/-- A block of text keeps the sizes right, unless it is cut and a piece of it overflows. -/
theorem agrees_size_addText (h : Sound t) (block : Block) :
  Agrees (SizeRight c) c (addText c t block) ↔
    Agrees (SizeRight c) c t ∧
      (strip (blockToMarkdown block) ≠ [] → t.fits c (blockToMarkdown block) = false →
        PiecesFit c t block)
  := by
  unfold addText
  dsimp only
  split_ifs with blank fits
  · exact (and_iff_left fun visible => absurd blank visible).symm
  · rw [agrees_append_of_fits mono block fits, agrees_size_startPage]
    exact (and_iff_left fun _ notFits =>
      absurd (notFits.symm.trans fits) Bool.false_ne_true).symm
  · have notFits : t.fits c (blockToMarkdown block) = false := Bool.eq_false_iff.mpr fits
    have started := h.startPage block.position.page
    have pieces := Folding.foldl_iff_throughout (f := addPiece c block)
      (l := splitToFit c (beforePieces c t block).builder (blockToMarkdown block))
      (fun t piece mem sound => sound.addPiece block (solid_of_mem_splitToFit mem))
      (fun t piece _ sound => agrees_size_addPiece mono sound block piece)
      (started.flush (c := c)).1
    rw [imp_iff_right blank, imp_iff_right notFits]
    exact pieces.trans (and_congr_left' (started.agrees_flush.trans (agrees_size_startPage t _)))

end Traced

/-- A paragraph of three sentences. -/
def threeSentences : ExtractedDoc where
  blocks :=
    [{ type := .paragraph
       text := "一二三四五六七八九。十百千。東西南北春夏秋冬。"
       position := { order := 0 } }]

end Lumina.Etl
