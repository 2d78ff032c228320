import Lumina.Knowledge.Status
import Lumina.Library.Fallible
import Lumina.Rag.Pipeline

/-!
# The reranking side of the gateway

A provider of rerankings answers with indices into the texts that it was sent, each with a score.
The two that are reached by HTTP check what comes back; the third one is the mock.  Whatever the
response is, indices that pass the check are different and within the texts.
-/

namespace Lumina.Gateway

open Etl (Text strip)
open Fallible (ok_of_bind ok_of_map)
open Knowledge (ConfigValue Exn PyFloat)
open Rag (upTo)

/-! ### Conversions -/

/-- The strings that `int` and `float` read. -/
structure Numerals where
  int : String → Option ℤ
  float : String → Option PyFloat

inductive ConversionError where
  | typeError
  | valueError
  | overflowError
deriving DecidableEq

/-- `int(value)`. -/
def Numerals.toInt (n : Numerals) : ConfigValue → Except ConversionError ℤ
  | .bool b => .ok b.toInt
  | .int i => .ok i
  | .float (.finite q) => .ok (if q < 0 then -⌊-q⌋ else ⌊q⌋)
  | .float (.infinite _) => .error .overflowError
  | .float .nan => .error .valueError
  | .str s => (n.int s).elim (.error .valueError) .ok
  | .null | .list _ | .object _ => .error .typeError

/-- `float(value)`. -/
def Numerals.toFloat (n : Numerals) : ConfigValue → Except ConversionError PyFloat
  | .bool b => .ok (.finite b.toInt)
  | .int i => (PyFloat.ofInt i).elim (.error .overflowError) .ok
  | .float x => .ok x
  | .str s => (n.float s).elim (.error .valueError) .ok
  | .null | .list _ | .object _ => .error .typeError

/-! ### Responses -/

structure RerankedDocument where
  index : ℤ
  score : PyFloat

/-- What a request comes to: `httpx.TimeoutException`, another `httpx.HTTPError`, an exception of
any other class, or a response, whose body is `none` if it is not JSON. -/
inductive Reply where
  | timeout
  | httpError (typeName : String)
  | raised (typeName : String)
  | response (status : ℕ) (body : Option ConfigValue)

/-- `_RerankClient`, with what a request to its address comes to.  The limit is as it is shown. -/
structure RerankClient where
  name : String
  timeoutSeconds : String
  numerals : Numerals
  send : (path : String) → (payload : ConfigValue) → Reply

def providerError (cls : ProviderErrorClass) (message : String) : Exn :=
  .domain { cls := .provider cls, message := message }

def unavailable (message : String) : Exn :=
  providerError .unavailable message

/-- `_error_for`. -/
def errorFor (vendor : String) (status : ℕ) : Exn :=
  if status = 429 then providerError .rateLimited (vendor ++ " 頻率限制")
  else if status ∈ [401, 403] then providerError .auth (vendor ++ " 拒絕了我們的憑證")
  else if status ∈ [400, 413, 422] then providerError .requestRejected (vendor ++ " 退回了這次請求")
  else unavailable (vendor ++ " 回應 " ++ toString status)

namespace RerankClient

/-- `_post`. -/
def post (client : RerankClient) (path : String) (payload : ConfigValue) :
    Except Exn ConfigValue :=
  match client.send path payload with
  | .timeout =>
      .error (providerError .timeout (client.name ++ " 逾時（" ++ client.timeoutSeconds ++ "s）"))
  | .httpError typeName => .error (unavailable (client.name ++ " 連線失敗：" ++ typeName))
  | .raised typeName => .error (.other typeName)
  | .response status body =>
      if 400 ≤ status then .error (errorFor client.name status)
      else body.elim (.error (unavailable (client.name ++ " 回應不是 JSON"))) .ok

/-- `row[key]`, converted; an `OverflowError` is not caught. -/
def field {α : Type} (client : RerankClient) (members : List (String × ConfigValue)) (key : String)
    (convert : ConfigValue → Except ConversionError α) : Except Exn α :=
  match (members.lookup key).map convert with
  | some (.ok value) => .ok value
  | some (.error .overflowError) => .error (.other "OverflowError")
  | _ => .error (unavailable (client.name ++ " 的排名缺少必要欄位"))

/-- The loop of `_documents`, with the indices that have been seen. -/
def readRows (client : RerankClient) (count : ℕ) (scoreKey : String) :
    (seen : List ℤ) → List ConfigValue → Except Exn (List RerankedDocument)
  | _, [] => .ok []
  | seen, .object members :: rows => do
      let index ← client.field members "index" client.numerals.toInt
      let score ← client.field members scoreKey client.numerals.toFloat
      if ¬(0 ≤ index ∧ index < count) then
        .error (unavailable (client.name ++ " 回傳的索引 " ++ toString index ++ " 不在送出的 " ++
          toString count ++ " 筆候選之內"))
      else if index ∈ seen then
        .error (unavailable (client.name ++ " 重複回傳了索引 " ++ toString index))
      else do
        let documents ← client.readRows count scoreKey (index :: seen) rows
        .ok (⟨index, score⟩ :: documents)
  | _, _ :: _ => .error (unavailable (client.name ++ " 的排名項目格式非預期"))

end RerankClient

/-- `<` of the keys that the rankings are sorted by: the better score first, then the index.  If a
score is `nan`, these do not order the list, and where sorting puts it is open. -/
def RerankedDocument.lt (a b : RerankedDocument) : Bool :=
  if a.score.neg.eq b.score.neg then a.index < b.index else a.score.neg.lt b.score.neg

def sortDocuments (documents : List RerankedDocument) : List RerankedDocument :=
  documents.mergeSort fun a b => !b.lt a

/-- `_documents`. -/
def RerankClient.documents (client : RerankClient) (rows : ConfigValue) (count : ℕ)
    (scoreKey : String) : Except Exn (List RerankedDocument) :=
  match rows with
  | .list rows => (client.readRows count scoreKey [] rows).map sortDocuments
  | _ => .error (unavailable (client.name ++ " 的排名不是一個陣列"))

/-! ### Providers -/

/-- `_overlap`: the share of the characters that both texts have. -/
def overlap (query document : Text) : PyFloat :=
  let left := (strip query).eraseDups
  let right := (strip document).eraseDups
  if left.isEmpty || right.isEmpty then .finite 0
  else
    let both := (left.filter (· ∈ right)).length
    .round ((both : ℚ) / (left.length + right.length - both : ℕ))

/-- A text, and a list of them, as JSON. -/
def jsonText (text : Text) : ConfigValue :=
  .str (String.ofList text)

def jsonTexts (texts : List Text) : ConfigValue :=
  .list (texts.map jsonText)

/-- The providers that the settings can name. -/
inductive RerankProvider where
  | mock
  | tei (client : RerankClient)
  | jina (client : RerankClient)

/-- The results of `rerank`.  The model that a provider reports is only logged. -/
def RerankProvider.rerank (provider : RerankProvider) (query : Text) (documents : List Text)
    (model : String) : Except Exn (List RerankedDocument) :=
  match provider with
  | .mock =>
      .ok (sortDocuments (documents.zipIdx.map fun (document, index) =>
        ⟨index, overlap query document⟩))
  | .tei client =>
      if documents.isEmpty then .ok []
      else do
        let body ← client.post "/rerank" (.object
          [("query", jsonText query), ("texts", jsonTexts documents), ("raw_scores", .bool false),
            ("return_text", .bool false), ("truncate", .bool true)])
        match body with
        | .list _ => client.documents body documents.length "score"
        | _ => .error (unavailable (client.name ++ " 的回應不是排名陣列"))
  | .jina client =>
      if documents.isEmpty then .ok []
      else do
        let body ← client.post "/rerank" (.object
          [("model", .str model), ("query", jsonText query), ("documents", jsonTexts documents),
            ("return_documents", .bool false)])
        match body with
        | .object members =>
            match members.lookup "results" with
            | some results => client.documents results documents.length "relevance_score"
            | none => .error (unavailable (client.name ++ " 的回應沒有 results"))
        | _ => .error (unavailable (client.name ++ " 的回應沒有 results"))

/-- The documents that `AIGateway.rerank` returns. -/
def rerank (provider : RerankProvider) (query : Text) (documents : List Text) (model : String)
    (topN : ℤ) : Except Exn (List RerankedDocument) :=
  if documents.isEmpty then .ok []
  else (provider.rerank query documents model).map (upTo topN)

/-! ### What passes the check -/

/-- Different indices into so many texts. -/
structure Ranking (count : ℕ) (documents : List RerankedDocument) : Prop where
  distinct : (documents.map (·.index)).Nodup
  inRange : ∀ d ∈ documents, 0 ≤ d.index ∧ d.index < count

namespace Ranking

variable {count : ℕ} {documents : List RerankedDocument}

theorem nil :
  Ranking count []
  := by
  constructor
  · apply List.nodup_nil
  · intro d mem
    cases mem

theorem sublist (h : Ranking count documents) {documents' : List RerankedDocument}
    (sub : documents'.Sublist documents) :
  Ranking count documents'
  := by
  constructor
  · apply h.distinct.sublist (sub.map _)
  · intro d mem
    apply h.inRange d (sub.subset mem)

theorem sorted (h : Ranking count documents) :
  Ranking count (sortDocuments documents)
  := by
  have perm : (sortDocuments documents).Perm documents := List.mergeSort_perm ..
  constructor
  · apply ((perm.map _).nodup_iff).mpr h.distinct
  · intro d mem
    apply h.inRange d (perm.mem_iff.mp mem)

end Ranking

namespace RerankClient

variable {client : RerankClient} {count : ℕ} {scoreKey : String}

/-- No index that has been seen is read again. -/
theorem ranking_readRows {seen : List ℤ} {rows : List ConfigValue}
    {documents : List RerankedDocument}
    (h : client.readRows count scoreKey seen rows = .ok documents) :
  Ranking count documents ∧ ∀ d ∈ documents, d.index ∉ seen
  := by
  induction rows generalizing seen documents with
  | nil =>
    cases h
    constructor
    · apply Ranking.nil
    · intro d mem
      cases mem
  | cons row rows ih =>
    cases row
    case object members =>
      obtain ⟨index, -, h⟩ := ok_of_bind h
      obtain ⟨score, -, h⟩ := ok_of_bind h
      split_ifs at h with within fresh
      obtain ⟨others, hrows, h⟩ := ok_of_bind h
      cases h
      obtain ⟨ranking, unseen⟩ := ih hrows
      constructor
      · constructor
        · apply List.nodup_cons.mpr
          constructor
          · intro mem
            obtain ⟨d, mem, same⟩ := List.mem_map.mp mem
            apply unseen d mem
            rw [same]
            apply List.mem_cons_self
          · apply ranking.distinct
        · intro d mem
          obtain rfl | mem := List.mem_cons.mp mem
          · apply within
          · apply ranking.inRange d mem
      · intro d mem
        obtain rfl | mem := List.mem_cons.mp mem
        · apply fresh
        · intro old
          apply unseen d mem (List.mem_cons_of_mem _ old)
    all_goals cases h

theorem ranking_documents {rows : ConfigValue} {documents : List RerankedDocument}
    (h : client.documents rows count scoreKey = .ok documents) :
  Ranking count documents
  := by
  cases rows
  case list rows =>
    obtain ⟨read, hrows, rfl⟩ := ok_of_map h
    apply (ranking_readRows hrows).1.sorted
  all_goals cases h

end RerankClient

theorem ranking_mock (query : Text) (documents : List Text) :
  Ranking documents.length
    (documents.zipIdx.map fun (document, index) => ⟨index, overlap query document⟩)
  := by
  constructor
  · rw [List.map_map]
    have indices : documents.zipIdx.map Prod.snd = List.range documents.length := by
      rw [List.zipIdx_map_snd, List.range_eq_range']
    have nodup : ((documents.zipIdx.map Prod.snd).map Int.ofNat).Nodup := by
      rw [indices]
      apply List.nodup_range.map
      intro m n
      apply Int.ofNat.inj
    rw [List.map_map] at nodup
    apply nodup
  · intro d mem
    obtain ⟨⟨document, index⟩, place, rfl⟩ := List.mem_map.mp mem
    have lt := List.snd_lt_of_mem_zipIdx place
    constructor
    · apply Int.natCast_nonneg
    · dsimp only at lt ⊢
      omega

theorem RerankProvider.ranking_rerank {provider : RerankProvider} {query : Text}
    {texts : List Text} {model : String} {documents : List RerankedDocument}
    (h : provider.rerank query texts model = .ok documents) :
  Ranking texts.length documents
  := by
  cases provider with
  | mock =>
    cases h
    apply (ranking_mock query texts).sorted
  | tei client =>
    unfold RerankProvider.rerank at h
    dsimp only at h
    split at h
    · cases h
      apply Ranking.nil
    · obtain ⟨body, -, h⟩ := ok_of_bind h
      split at h
      · apply RerankClient.ranking_documents h
      · cases h
  | jina client =>
    unfold RerankProvider.rerank at h
    dsimp only at h
    split at h
    · cases h
      apply Ranking.nil
    · obtain ⟨body, -, h⟩ := ok_of_bind h
      split at h
      · split at h
        · apply RerankClient.ranking_documents h
        · cases h
      · cases h

/-- Whatever a provider answers, the documents that the gateway returns are different ones of those
that it was given. -/
theorem ranking_rerank {provider : RerankProvider} {query : Text} {texts : List Text}
    {model : String} {topN : ℤ} {documents : List RerankedDocument}
    (h : rerank provider query texts model topN = .ok documents) :
  Ranking texts.length documents
  := by
  unfold rerank at h
  split at h
  · cases h
    apply Ranking.nil
  · obtain ⟨results, hresults, rfl⟩ := ok_of_map h
    apply (RerankProvider.ranking_rerank hresults).sublist
    apply Rag.upTo_sublist

end Lumina.Gateway
