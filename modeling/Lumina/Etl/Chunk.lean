import Lumina.Etl.Text
import Lumina.Knowledge.Etl
import Lumina.Library.Binary64

/-!
# The chunker

`chunk_document`: a builder goes through the blocks of a document, joins what fits into the target,
splits what does not, and gives each chunk the end of the one before it in the same section.
-/

namespace Lumina.Etl

open Knowledge (Block BlockType ExtractedDoc TextChunk)

/-! ### Markdown -/

/-- `block_to_markdown`. -/
def blockToMarkdown (block : Block) : Text :=
  match block.type with
  | .heading =>
      List.replicate (min (block.position.headingPath.length + 1) 6) '#' ++ ' ' :: block.text.toList
  | .table => block.text.toList
  | .code => "```\n".toList ++ block.text.toList ++ "\n```".toList
  | .caption => '*' :: block.text.toList ++ ['*']
  | .paragraph => block.text.toList

/-- `_SEPARATOR`. -/
def separator : Text := ['\n', '\n']

/-- A block that is not cut. -/
def isAtomic (block : Block) : Bool :=
  block.type = .table || block.type = .code

/-! ### Tokens -/

/-- The configuration of the chunker, and the counter of tokens that it is given. -/
structure Chunker where
  targetTokens : ℤ
  overlapTokens : ℤ
  countTokens : Text → ℕ

/-- `is_cjk`. -/
def isCjk (c : Char) : Bool :=
  [(0x3000, 0x303F), (0x3040, 0x30FF), (0x3400, 0x4DBF), (0x4E00, 0x9FFF), (0xAC00, 0xD7AF),
    (0xF900, 0xFAFF), (0xFF00, 0xFFEF)].any fun range => range.1 ≤ c.toNat && c.toNat ≤ range.2

/-- `estimate_tokens`, the counter that is used if there is no other. -/
def estimateTokens (text : Text) : ℕ :=
  let cjk := text.countP isCjk
  cjk + (text.length - cjk + 3) / 4

/-- `max(int(budget / ratio), 1)`, with the ratio of tokens to characters: two divisions of floats.
The tokens of a text are not more than a float can hold. -/
def stepFor (budget tokens length : ℕ) : ℕ :=
  let divide (a b : ℚ) : ℚ := (Binary64.nearest (a / b)).getD 0
  max ⌊divide (divide budget 1) (divide tokens length)⌋₊ 1

/-- `_hard_split`. -/
def hardSplit (c : Chunker) (text : Text) (budget : ℕ) : List Text :=
  slicesUpTo (stepFor budget (max (c.countTokens text) 1) text.length) text.length text

/-! ### The builder -/

/-- The state of `_Builder`. -/
structure Builder where
  chunks : List TextChunk := []
  headingMarkdown : Option Text := none
  headingPath : List String := []
  parts : List Text := []
  page : Option ℕ := none
  carry : Text := []

/-- The texts of a list that are not empty, as `if text` selects them. -/
def present (texts : List Text) : List Text :=
  texts.filter fun text => !text.isEmpty

/-- What stands before the parts: the heading and the carry. -/
def Builder.lead (b : Builder) : List Text :=
  present (b.headingMarkdown.toList ++ [b.carry])

/-- `_joined`. -/
def Builder.joined (b : Builder) (parts : List Text) : Text :=
  separator.intercalate (b.lead ++ parts)

/-- `_fits`. -/
def Chunker.fits (c : Chunker) (text : Text) : Bool :=
  c.countTokens text ≤ c.targetTokens

/-- `_emit`. -/
def emit (c : Chunker) (b : Builder) (text : Text) (page : Option ℕ) : Builder :=
  let body := strip text
  if body = [] then b
  else
    { b with
      chunks := b.chunks ++
        [{ seq := b.chunks.length
           text := String.ofList body
           tokenCount := c.countTokens body
           page
           headingPath := b.headingPath }] }

/-- The sentences, the last one first, that are picked before those already picked. -/
def pick (c : Chunker) : (reversed picked : List Text) → List Text
  | [], picked => picked
  | sentence :: reversed, picked =>
      if c.countTokens (sentence :: picked).flatten > c.overlapTokens then picked
      else pick c reversed (sentence :: picked)

/-- `_tail`. -/
def tail (c : Chunker) (text : Text) : Text :=
  if c.overlapTokens ≤ 0 then []
  else strip (pick c (sentences text).reverse []).flatten

/-- `_flush`. -/
def flush (c : Chunker) (b : Builder) : Builder :=
  if b.parts = [] then b
  else
    let body := b.joined b.parts
    let b' := { b with carry := tail c (separator.intercalate b.parts), parts := [] }
    { emit c b' body b.page with page := none }

/-- `_budget_for_body`. -/
def budgetForBody (c : Chunker) (b : Builder) : ℕ :=
  let overhead := if b.lead = [] then 0 else c.countTokens (b.joined [])
  (max (c.targetTokens - overhead) 1).toNat

/-- The pieces so far, and the sentences that are gathered for the next one. -/
structure Pieces where
  pieces : List Text := []
  buffer : Text := []

/-- One more sentence of `_split_to_fit`. -/
def Pieces.push (c : Chunker) (budget : ℕ) (p : Pieces) (sentence : Text) : Pieces :=
  if c.countTokens (p.buffer ++ sentence) ≤ budget then
    { p with buffer := p.buffer ++ sentence }
  else
    let pieces := p.pieces ++ present [p.buffer]
    if c.countTokens sentence ≤ budget then { pieces, buffer := sentence }
    else { pieces := pieces ++ hardSplit c sentence budget, buffer := [] }

/-- `_split_to_fit`. -/
def splitToFit (c : Chunker) (b : Builder) (text : Text) : List Text :=
  let p := (sentences text).foldl (Pieces.push c (budgetForBody c b)) {}
  ((p.pieces ++ present [p.buffer]).filter fun piece => strip piece ≠ []).map rstrip

/-- `if self._page is None: self._page = page`. -/
def Builder.startPage (b : Builder) (page : Option ℕ) : Builder :=
  { b with page := b.page.or page }

/-- One piece of a block that did not fit. -/
def addPiece (c : Chunker) (page : Option ℕ) (b : Builder) (piece : Text) : Builder :=
  let b := b.startPage page
  if c.fits (b.joined (b.parts ++ [piece])) then { b with parts := b.parts ++ [piece] }
  else
    let b := flush c b
    { b with page, parts := b.parts ++ [piece] }

/-- `add_text`. -/
def addText (c : Chunker) (b : Builder) (block : Block) : Builder :=
  let text := blockToMarkdown block
  if strip text = [] then b
  else
    let b := b.startPage block.position.page
    if c.fits (b.joined (b.parts ++ [text])) then { b with parts := b.parts ++ [text] }
    else
      let b := flush c b
      (splitToFit c b text).foldl (addPiece c block.position.page) b

/-- `add_atomic`. -/
def addAtomic (c : Chunker) (b : Builder) (block : Block) : Builder :=
  let b := flush c b
  emit c { b with carry := [] } (blockToMarkdown block) block.position.page

/-- `start_section`. -/
def startSection (c : Chunker) (b : Builder) (block : Block) : Builder :=
  { flush c b with
    carry := []
    headingMarkdown := some (blockToMarkdown block)
    headingPath := block.position.headingPath ++ [block.text]
    page := block.position.page }

/-- The body of the loop of `chunk_document`. -/
def addBlock (c : Chunker) (b : Builder) (block : Block) : Builder :=
  if block.type = .heading then startSection c b block
  else if isAtomic block then addAtomic c b block
  else addText c b block

/-- `chunk_document`. -/
def chunkDocument (c : Chunker) (doc : ExtractedDoc) : List TextChunk :=
  (flush c (doc.blocks.foldl (addBlock c) {})).chunks

end Lumina.Etl
