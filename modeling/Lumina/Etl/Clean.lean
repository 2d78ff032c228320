import Lumina.Etl.Chunk
import Lumina.Knowledge.KbConfig
import Lumina.Library.Dict

/-!
# The cleaner

`clean`: what is repeated on many pages, what is blank and what is garbled is left out, and the
white space of the other blocks is normalised.  The rates of the statistics, which nothing else in
the pipeline reads, are not modelled.
-/

namespace Lumina.Etl

open Knowledge (Block BlockMeta BlockType ExtractedDoc PyFloat)

/-! ### White space -/

/-- `_INVISIBLE`. -/
def isInvisible (c : Char) : Bool :=
  [0x200B, 0x200C, 0x200D, 0x2060, 0xFEFF, 0xAD].contains c.toNat

/-- `translate(_INVISIBLE)`. -/
def visible (text : Text) : Text :=
  text.filter fun c => !isInvisible c

def isBlank (c : Char) : Bool :=
  c = ' ' || c = '\t'

/-- `_TRAILING_SPACE.sub("", text)`: blanks go if what is left after them begins a new line, or if
nothing is. -/
def trimLines : Text → Text
  | [] => []
  | c :: text =>
      let rest := trimLines text
      if isBlank c && (rest = [] || rest.head? = some '\n') then rest else c :: rest

/-- `_EXCESS_BLANK_LINES.sub("\n\n", text)`: of a run of newlines the last two are kept. -/
def squeezeLines : Text → Text
  | [] => []
  | c :: text =>
      let rest := squeezeLines text
      if ['\n', '\n', '\n'] <+: c :: rest then rest else c :: rest

/-- `_normalize`. -/
def normalize (text : Text) : Text :=
  strip (squeezeLines (trimLines (visible text)))

/-- The word at the beginning of a text, empty before white space, and the words after it. -/
def splitWord : Text → Text × List Text
  | [] => ([], [])
  | c :: text =>
      let (word, words) := splitWord text
      if isSpace c then ([], if word = [] then words else word :: words) else (c :: word, words)

/-- `text.split()`. -/
def splitWords (text : Text) : List Text :=
  let (word, words) := splitWord text
  if word = [] then words else word :: words

/-- `_normalize_for_match`. -/
def normalizeForMatch (text : Text) : Text :=
  [' '].intercalate (splitWords (visible text))

/-! ### Headers and garbage -/

/-- What the cleaner takes from elsewhere: the code points that Unicode has not assigned, and the
identifier of languages, with its confidence. -/
structure Cleaner where
  unassigned : Char → Bool
  classify : Text → String × PyFloat

def headerMaxTokens : ℕ := 16

def headerMinPages : ℕ := 3

/-- A text that may be a header, with its page. -/
def pageText (block : Block) : Option (Text × ℕ) :=
  match block.position.page with
  | none => none
  | some page =>
      let text := normalizeForMatch block.text.toList
      if block.type = .table ∨ text = [] ∨ headerMaxTokens < estimateTokens text then none
      else some (text, page)

/-- `_repeated_page_texts`. -/
def repeatedPageTexts (doc : ExtractedDoc) : List Text :=
  let pages := (doc.blocks.filterMap pageText).dedup
  (pages.map Prod.fst).filter fun text => headerMinPages ≤ pages.countP (·.1 = text)

/-- The category `Cc`. -/
def isControl (c : Char) : Bool :=
  c.toNat < 0x20 || (0x7F ≤ c.toNat && c.toNat < 0xA0)

/-- A character that `_is_garbled` counts. -/
def Cleaner.isBad (c : Cleaner) (char : Char) : Bool :=
  char = '\uFFFD' || isControl char || c.unassigned char

/-- `bad / length > _GARBLED_RATIO`: two floats are compared. -/
def exceedsGarbledRatio (bad length : ℕ) : Bool :=
  (Binary64.nearest (3 / 10)).getD 0 < (Binary64.nearest (bad / length)).getD 0

/-- `_is_garbled`. -/
def Cleaner.isGarbled (c : Cleaner) (text : Text) : Bool :=
  if text = [] then true else exceedsGarbledRatio (text.countP c.isBad) text.length

/-! ### Languages -/

def sampleChars : ℕ := 2000

def isKana (c : Char) : Bool :=
  0x3040 ≤ c.toNat && c.toNat ≤ 0x30FF

def isHangul (c : Char) : Bool :=
  0xAC00 ≤ c.toNat && c.toNat ≤ 0xD7AF

/-- `_detect_language`. -/
def Cleaner.detectLanguage (c : Cleaner) (blocks : List Block) : String :=
  let sample := ([' '].intercalate (blocks.map (·.text.toList))).take sampleChars
  if strip sample = [] then "und"
  else if sample.any isKana then "ja"
  else if sample.any isHangul then "ko"
  else
    let (language, confidence) := c.classify sample
    if confidence.lt (.finite (1 / 2)) || confidence = .nan then "und" else language

/-! ### The loop -/

structure CleanStats where
  totalBlocks : ℕ
  droppedBlocks : ℕ
  removedHeaders : ℕ
  language : String

/-- What becomes of a block. -/
inductive Outcome where
  | header
  | blank
  | garbled
  | kept (text : Text)
deriving DecidableEq

/-- The text of a block, normalised unless it is a table. -/
def cleanText (block : Block) : Text :=
  if block.type = .table then block.text.toList else normalize block.text.toList

/-- The branches of the loop of `clean`. -/
def Cleaner.outcome (c : Cleaner) (headers : List Text) (block : Block) : Outcome :=
  if normalizeForMatch block.text.toList ∈ headers then .header
  else if strip (cleanText block) = [] then .blank
  else if block.type ≠ .table && c.isGarbled (cleanText block) then .garbled
  else .kept (cleanText block)

/-- The variables of the loop. -/
structure Cleaning where
  kept : List Block := []
  dropped : ℕ := 0
  removedHeaders : ℕ := 0

/-- The block that is kept for one with a text, at the end of others. -/
def keptBlock (order : ℕ) (block : Block) (text : Text) : Block where
  type := block.type
  text := String.ofList text
  position := { block.position with order }

/-- The body of the loop. -/
def Cleaning.push (c : Cleaner) (headers : List Text) (s : Cleaning) (block : Block) : Cleaning :=
  match c.outcome headers block with
  | .header => { s with removedHeaders := s.removedHeaders + 1 }
  | .blank | .garbled => { s with dropped := s.dropped + 1 }
  | .kept text => { s with kept := s.kept ++ [keptBlock s.kept.length block text] }

def Cleaner.cleaning (c : Cleaner) (doc : ExtractedDoc) : Cleaning :=
  doc.blocks.foldl (Cleaning.push c (repeatedPageTexts doc)) {}

/-- `clean`. -/
def Cleaner.clean (c : Cleaner) (doc : ExtractedDoc) : ExtractedDoc × CleanStats :=
  let s := c.cleaning doc
  let language := c.detectLanguage s.kept
  ({ blocks := s.kept
     docMeta := Dict.set "block_count" (.int s.kept.length)
       (Dict.set "language" (.str language) doc.docMeta) },
    { totalBlocks := doc.blocks.length - s.removedHeaders
      droppedBlocks := s.dropped
      removedHeaders := s.removedHeaders
      language })

end Lumina.Etl
