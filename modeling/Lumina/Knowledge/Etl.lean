import Lumina.Knowledge.Status
import Lumina.Library.Json

/-!
# What the pipeline uses of the extraction, cleaning and chunking

The services of the pipeline treat the stages of `etl/` as functions.  They are a parameter of
the model, together with the other functions and settings that the services read but do not
define.
-/

namespace Lumina.Knowledge

inductive BlockType where
  | paragraph
  | heading
  | table
  | code
  | caption
deriving DecidableEq, Repr

structure BlockMeta where
  order : ℕ
  page : Option ℕ := none
  headingPath : List String := []
deriving DecidableEq, Repr

structure Block where
  type : BlockType
  text : String
  position : BlockMeta
deriving DecidableEq, Repr

/-- The result of every loader; all later stages see only this. -/
structure ExtractedDoc where
  blocks : List Block
  docMeta : List (String × Json.Value) := []

structure ChunkConfig where
  targetTokens : ℕ := 512
  overlapTokens : ℕ := 64
deriving DecidableEq, Repr

structure TextChunk where
  seq : ℕ
  text : String
  tokenCount : ℕ
  page : Option ℕ
  headingPath : List String
deriving DecidableEq, Repr

/-- The stages of `etl/`, and the JSON of the artifact between them. -/
structure Etl where
  extractIsolated : (content mediaType : String) → Except Exn ExtractedDoc
  clean : ExtractedDoc → ExtractedDoc
  chunkDocument : ExtractedDoc → ChunkConfig → List TextChunk
  toJson : ExtractedDoc → String
  fromJson : String → Except Exn ExtractedDoc

/-- The functions and settings that the services read.  `chunkConfigFrom` resolves the
parameters of a knowledge base over those of the tenant and the defaults. -/
structure Settings where
  etl : Etl
  chunkConfigFrom : (config : String) → ChunkConfig
  sha256 : (content : String) → String
  aiEmbeddingModel : String
  etlInProgressStaleSeconds : ℕ
  etlStuckAfterSeconds : ℕ
  etlFairnessRequeueSeconds : ℕ
  reindexPollSeconds : ℕ

/-- The model of a knowledge base, or the default if it has none. -/
def modelFor (cfg : Settings) (kbEmbeddingModel : String) : String :=
  if kbEmbeddingModel = "" then cfg.aiEmbeddingModel else kbEmbeddingModel

end Lumina.Knowledge
