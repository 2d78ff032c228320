import Lumina.Gateway.Rerank
import Mathlib.Data.List.Sort

/-!
# The order of the embeddings

A provider answers with the embeddings of some texts in any order, and labels each of them with the
index of its text.  `_ordered` puts them into the order of the texts, or fails; an index that is
left out is `0`, and if all are left out the embeddings are in order.
-/

namespace Lumina.Gateway

open Etl (Text)
open Fallible (error_of_mapM mapM_eq_ok_iff ok_of_bind ok_of_mapError)
open Knowledge (ChunkId Config ConfigValue Exn PyFloat)

/-- `bool(value)`. -/
def truthy : ConfigValue → Bool
  | .null => false
  | .bool b => b
  | .int n => n ≠ 0
  | .float x => x ≠ .finite 0
  | .str s => s ≠ ""
  | .list items => !items.isEmpty
  | .object members => !members.isEmpty

/-- What a loop over a value goes through. -/
def iterated : ConfigValue → Except ConversionError (List ConfigValue)
  | .list items => .ok items
  | .str s => .ok (s.toList.map fun c => .str c.toString)
  | .object members => .ok (members.map fun (key, _) => .str key)
  | _ => .error .typeError

structure ProviderEmbedding where
  vectors : List (List PyFloat)
  model : String
  promptTokens : ℤ

/-- `OpenAICompatibleProvider`, with `str`, and `_unit`, which is arithmetic of floats. -/
structure EmbeddingClient where
  name : String
  numerals : Numerals
  str : ConfigValue → String
  unit : List PyFloat → List PyFloat

namespace EmbeddingClient

variable (client : EmbeddingClient)

/-- What `_parse` raises where a row lacks something or has it in another type. -/
def malformed : Exn :=
  unavailable (client.name ++ " 的回應缺少必要欄位")

/-- What becomes of an exception of a conversion; an `OverflowError` is not caught. -/
def raised : ConversionError → Exn
  | .overflowError => .other "OverflowError"
  | _ => client.malformed

/-- `int(row.get("index", 0))`. -/
def label (row : Config) : Except ConversionError ℤ :=
  client.numerals.toInt ((row.lookup "index").getD (.int 0))

/-- `[float(value) for value in row["embedding"]]`, with unit length. -/
def vector (row : Config) : Except Exn (List PyFloat) :=
  match row.lookup "embedding" with
  | none => .error client.malformed
  | some value =>
      ((iterated value).bind fun values => (values.mapM client.numerals.toFloat).map client.unit)
        |>.mapError client.raised

def asObject : ConfigValue → Option Config
  | .object members => some members
  | _ => none

/-- The integers `0` to `n - 1`. -/
def range (n : ℕ) : List ℤ :=
  (List.range n).map Int.ofNat

/-- `_ordered`. -/
def ordered (rows : List ConfigValue) : Except Exn (List Config) :=
  match rows.mapM asObject with
  | none => .error (unavailable "回應的列不是物件")
  | some rows => do
      let explicit := rows.any fun row => (row.lookup "index").isSome
      let resolved ← (rows.mapM client.label).mapError client.raised
      if resolved.mergeSort (· ≤ ·) = range rows.length then
        .ok (((resolved.zip rows).mergeSort fun a b => a.1 ≤ b.1).map Prod.snd)
      else if !explicit then .ok rows
      else .error (unavailable "回應的 index 無法唯一決定順序")

def charsPerToken : ℕ := 4

/-- `a or b`, where `None` is `null`. -/
def orElse (a b : Option ConfigValue) : ConfigValue :=
  if truthy (a.getD .null) then a.getD .null else b.getD .null

/-- `_usage_tokens`. -/
def usageTokens (body : Config) (texts : List Text) : ℤ :=
  let estimate : ℤ := max 1 ((texts.map List.length).sum / charsPerToken : ℕ)
  match body.lookup "usage" with
  | some (.object usage) =>
      match orElse (usage.lookup "prompt_tokens") (usage.lookup "total_tokens") with
      | .int n => if 0 < n then n else estimate
      | .bool true => 1
      | _ => estimate
  | _ => estimate

/-- `_parse`. -/
def parse (body : Config) (texts : List Text) (requestedModel : String) :
    Except Exn ProviderEmbedding :=
  match body.lookup "data" with
  | some (.list rows) =>
      if rows.length ≠ texts.length then
        .error (unavailable (client.name ++ " 回傳 " ++ toString rows.length ++ " 筆，送出 " ++
          toString texts.length ++ " 筆"))
      else do
        let rows ← client.ordered rows
        let vectors ← rows.mapM client.vector
        .ok
          { vectors
            model := client.str (orElse (body.lookup "model") (some (.str requestedModel)))
            promptTokens := usageTokens body texts }
  | _ =>
      .error (unavailable (client.name ++ " 回傳 非預期 筆，送出 " ++ toString texts.length ++ " 筆"))

end EmbeddingClient

/-- `zip(batch, vectors, strict=True)` in `_embed_pending`. -/
def embeddingRows (batch : List (ChunkId × String)) (vectors : List (List PyFloat)) :
    Except Exn (List (ChunkId × List PyFloat)) :=
  if batch.length = vectors.length then .ok ((batch.map Prod.fst).zip vectors)
  else .error (.other "ValueError")

/-! ### What is returned -/

theorem mapM_asObject {rows : List ConfigValue} {members : List Config}
    (h : rows.mapM EmbeddingClient.asObject = some members) :
  rows = members.map .object
  := by
  induction rows generalizing members with
  | nil =>
    cases h
    rfl
  | cons row rows ih =>
    rw [List.mapM_cons] at h
    obtain ⟨first, head, h⟩ := Option.bind_eq_some_iff.mp h
    obtain ⟨others, tail, h⟩ := Option.bind_eq_some_iff.mp h
    cases h
    rw [List.map_cons, ← ih tail]
    cases row
    case object => rw [Option.some.inj head]
    all_goals cases head

namespace EmbeddingClient

variable (client : EmbeddingClient)

/-- The labels are the indices of the vectors, and each row has the vector at its label. -/
structure Labelled (rows : List Config) (vectors : List (List PyFloat)) : Prop where
  labels : (rows.map client.label).Perm ((range vectors.length).map .ok)
  vector : ∀ row ∈ rows, ∀ i : ℕ, client.label row = .ok (i : ℤ) →
    vectors[i]?.map .ok = some (client.vector row)

/-- No row has a label, and the vectors are in the order of the rows. -/
structure Unlabelled (rows : List Config) (vectors : List (List PyFloat)) : Prop where
  labels : ∀ row ∈ rows, row.lookup "index" = none
  vectors : rows.map client.vector = vectors.map .ok

/-- The labels of rows that are sorted by them. -/
theorem map_fst_mergeSort {resolved : List ℤ} {rows : List Config}
    (same : resolved.length = rows.length) :
  ((resolved.zip rows).mergeSort fun a b => a.1 ≤ b.1).map Prod.fst = resolved.mergeSort (· ≤ ·)
  := by
  have sort := List.map_mergeSort (f := Prod.fst) (s := fun a b : ℤ => decide (a ≤ b))
    (l := resolved.zip rows) (r := fun a b => decide (a.1 ≤ b.1)) fun _ _ _ _ => rfl
  rw [sort, List.map_fst_zip same.le]

theorem map_eq_map_ok {α β ε : Type} {f : α → Except ε β} {xs : List α} {ys : List β}
    (h : List.Forall₂ (fun x y => f x = .ok y) xs ys) :
  xs.map f = ys.map .ok
  := by
  induction h with
  | nil => rfl
  | cons head _ ih => rw [List.map_cons, List.map_cons, head, ih]

/-- Rows that are sorted by their labels `0` to `n - 1`. -/
theorem labelled_of_sorted {rows : List Config} {resolved : List ℤ}
    (labels : List.Forall₂ (fun row l => client.label row = .ok l) rows resolved)
    (sorted : resolved.mergeSort (· ≤ ·) = range rows.length) {vectors : List (List PyFloat)}
    (read : (((resolved.zip rows).mergeSort fun a b => a.1 ≤ b.1).map Prod.snd).mapM client.vector =
      .ok vectors) :
  client.Labelled rows vectors
  := by
  have same : resolved.length = rows.length := labels.length_eq.symm
  have indices := (map_fst_mergeSort same).trans sorted
  have read := mapM_eq_ok_iff.mp read
  have count : vectors.length = rows.length := by
    rw [← read.length_eq, List.length_map, List.length_mergeSort, List.length_zip, same,
      Nat.min_self]
  constructor
  · rw [map_eq_map_ok labels, count, ← sorted]
    exact (List.mergeSort_perm resolved _).symm.map _
  · intro row hrow i label
    obtain ⟨j, hj, rfl⟩ := List.getElem_of_mem hrow
    have hj' : j < resolved.length := same ▸ hj
    have number : resolved[j] = i := by
      have := labels.get hj hj'
      rw [List.get_eq_getElem, List.get_eq_getElem, label] at this
      exact (Except.ok.inj this).symm
    have pair : ((i : ℤ), rows[j]) ∈ (resolved.zip rows).mergeSort fun a b => a.1 ≤ b.1 := by
      rw [List.mem_mergeSort, ← number]
      apply List.mem_iff_getElem.mpr
      exact ⟨j, by rw [List.length_zip]; omega, List.getElem_zip⟩
    obtain ⟨k, place⟩ := List.getElem?_of_mem pair
    have index : (range rows.length)[k]? = some (i : ℤ) := by
      rw [← indices, List.getElem?_map, place]
      rfl
    have here : k = i := by
      obtain ⟨hk, value⟩ := List.getElem?_eq_some_iff.mp index
      simp only [range, List.getElem_map, List.getElem_range] at value
      exact Int.ofNat.inj value
    rw [← List.getElem?_map, ← map_eq_map_ok read, ← here, List.getElem?_map, List.getElem?_map,
      place]
    rfl

theorem ordered_spec {rows : List ConfigValue} {members : List Config}
    (h : client.ordered rows = .ok members) {vectors : List (List PyFloat)}
    (read : members.mapM client.vector = .ok vectors) :
  ∃ found, rows = found.map .object ∧
    (client.Labelled found vectors ∨ client.Unlabelled found vectors)
  := by
  unfold ordered at h
  split at h
  · cases h
  · rename_i found objects
    refine ⟨found, mapM_asObject objects, ?_⟩
    dsimp only at h
    obtain ⟨resolved, labels, h⟩ := ok_of_bind h
    have labels := mapM_eq_ok_iff.mp (ok_of_mapError labels)
    split_ifs at h with sorted explicit
    · cases h
      exact .inl (client.labelled_of_sorted labels sorted read)
    · cases h
      right
      constructor
      · intro row hrow
        have none := List.any_eq_false.mp ((Bool.not_eq_true' _).mp explicit) row hrow
        exact Option.not_isSome_iff_eq_none.mp none
      · exact map_eq_map_ok (mapM_eq_ok_iff.mp read)

/-- What is returned has a vector for each text, in the order of the labels, or in the order of the
rows if there are no labels. -/
structure Paired (body : Config) (texts : List Text) (vectors : List (List PyFloat)) : Prop where
  length : vectors.length = texts.length
  order : ∃ rows, body.lookup "data" = some (.list (rows.map .object)) ∧
    (client.Labelled rows vectors ∨ client.Unlabelled rows vectors)

theorem length_of_order {rows : List Config} {vectors : List (List PyFloat)}
    (h : client.Labelled rows vectors ∨ client.Unlabelled rows vectors) :
  vectors.length = rows.length
  := by
  obtain h | h := h
  · have same := h.labels.length_eq
    rw [List.length_map, List.length_map, range, List.length_map, List.length_range] at same
    exact same.symm
  · have same := congrArg List.length h.vectors
    rw [List.length_map, List.length_map] at same
    exact same.symm

theorem paired_of_parse {body : Config} {texts : List Text} {requestedModel : String}
    {result : ProviderEmbedding} (h : client.parse body texts requestedModel = .ok result) :
  client.Paired body texts result.vectors
  := by
  unfold parse at h
  split at h
  · rename_i rows data
    split_ifs at h with count
    obtain ⟨members, ordered, h⟩ := ok_of_bind h
    obtain ⟨vectors, read, h⟩ := ok_of_bind h
    cases h
    obtain ⟨found, rfl, order⟩ := client.ordered_spec ordered read
    have same := client.length_of_order order
    rw [not_not, List.length_map] at count
    exact ⟨same.trans count, found, data, order⟩
  · cases h

/-! ### What is raised -/

/-- The conversions of a row do not overflow. -/
structure InRange (row : Config) : Prop where
  label : client.label row ≠ .error .overflowError
  vector : client.vector row ≠ .error (.other "OverflowError")

/-- An error of a provider. -/
def IsProviderError (e : Exn) : Prop :=
  e.provider?.isSome

theorem isProviderError_unavailable (message : String) :
  IsProviderError (unavailable message)
  := rfl

theorem isProviderError_raised {e : ConversionError} (h : e ≠ .overflowError) :
  IsProviderError (client.raised e)
  := by
  cases e with
  | overflowError => exact absurd rfl h
  | typeError => rfl
  | valueError => rfl

theorem error_of_mapError {α ε ε' : Type} {x : Except ε α} {f : ε → ε'} {e : ε'}
    (h : x.mapError f = .error e) :
  ∃ cause, x = .error cause ∧ f cause = e
  := by
  cases x with
  | error cause =>
    cases h
    exact ⟨cause, rfl, rfl⟩
  | ok a => cases h

theorem error_of_bind {ε α β : Type} {x : Except ε α} {f : α → Except ε β} {e : ε}
    (h : x.bind f = .error e) :
  x = .error e ∨ ∃ a, x = .ok a ∧ f a = .error e
  := by
  cases x with
  | error cause =>
    cases h
    exact .inl rfl
  | ok a => exact .inr ⟨a, rfl, h⟩

theorem isProviderError_of_vector {row : Config} {e : Exn} (h : client.vector row = .error e)
    (inRange : client.InRange row) :
  IsProviderError e
  := by
  have no := inRange.vector
  rw [h] at no
  unfold vector at h
  split at h
  · cases h
    rfl
  · obtain ⟨cause, -, rfl⟩ := error_of_mapError h
    apply client.isProviderError_raised
    rintro rfl
    exact no rfl

theorem isProviderError_of_ordered {rows : List ConfigValue} {e : Exn}
    (h : client.ordered rows = .error e)
    (inRange : ∀ members, .object members ∈ rows → client.InRange members) :
  IsProviderError e
  := by
  unfold ordered at h
  split at h
  · cases h
    rfl
  · rename_i found objects
    obtain rfl := mapM_asObject objects
    dsimp only at h
    rcases error_of_bind h with h | ⟨resolved, -, h⟩
    · obtain ⟨cause, failed, rfl⟩ := error_of_mapError h
      obtain ⟨row, hrow, failed⟩ := error_of_mapM failed
      apply client.isProviderError_raised
      rintro rfl
      exact (inRange row (List.mem_map_of_mem hrow)).label failed
    · split_ifs at h
      cases h
      rfl

theorem mem_of_ordered {rows : List ConfigValue} {members : List Config} {row : Config}
    (h : client.ordered rows = .ok members) (hrow : row ∈ members) :
  .object row ∈ rows
  := by
  unfold ordered at h
  split at h
  · cases h
  · rename_i found objects
    obtain rfl := mapM_asObject objects
    apply List.mem_map_of_mem
    dsimp only at h
    obtain ⟨resolved, -, h⟩ := ok_of_bind h
    split_ifs at h
    · cases h
      obtain ⟨⟨i, row⟩, pair, rfl⟩ := List.mem_map.mp hrow
      exact (List.of_mem_zip (List.mem_mergeSort.mp pair)).2
    · cases h
      exact hrow

/-- What is raised is an error of a provider, if no number overflows. -/
theorem isProviderError_of_parse {body : Config} {texts : List Text} {requestedModel : String}
    {e : Exn} (h : client.parse body texts requestedModel = .error e)
    (inRange : ∀ rows members, body.lookup "data" = some (.list rows) →
      .object members ∈ rows → client.InRange members) :
  IsProviderError e
  := by
  unfold parse at h
  split at h
  · rename_i rows data
    split_ifs at h
    · cases h
      rfl
    · rcases error_of_bind h with h | ⟨members, ordered, h⟩
      · exact client.isProviderError_of_ordered h fun members => inRange rows members data
      · rcases error_of_bind h with h | ⟨vectors, -, h⟩
        · obtain ⟨row, hrow, failed⟩ := error_of_mapM h
          apply client.isProviderError_of_vector failed
          apply inRange rows row data
          exact client.mem_of_ordered ordered hrow
        · cases h
  · cases h
    rfl

end EmbeddingClient

/-- The rows that are stored pair the chunks of a batch with the vectors in order. -/
theorem embeddingRows_of_length {batch : List (ChunkId × String)} {vectors : List (List PyFloat)}
    (h : vectors.length = batch.length) :
  embeddingRows batch vectors = .ok ((batch.map Prod.fst).zip vectors)
  := if_pos h.symm

/-- The texts of a batch. -/
def batchTexts (batch : List (ChunkId × String)) : List Text :=
  batch.map fun (_, content) => content.toList

/-- Whatever a provider answers for the texts of a batch, the adapter returns a vector for each
text, the one with its index as label, or the one in its place if no vector has a label, and each
chunk is stored with the vector of its text; or it raises an error of a provider, if no number in
the answer overflows. -/
theorem embed_pairs (client : EmbeddingClient) (body : Config) (batch : List (ChunkId × String))
    (requestedModel : String) :
  match client.parse body (batchTexts batch) requestedModel with
  | .ok result =>
      client.Paired body (batchTexts batch) result.vectors ∧
      embeddingRows batch result.vectors = .ok ((batch.map Prod.fst).zip result.vectors)
  | .error e =>
      (∀ rows members, body.lookup "data" = some (.list rows) → .object members ∈ rows →
        client.InRange members) →
      EmbeddingClient.IsProviderError e
  := by
  cases parsed : client.parse body (batchTexts batch) requestedModel with
  | ok result =>
    have paired := client.paired_of_parse parsed
    refine ⟨paired, embeddingRows_of_length ?_⟩
    rw [paired.length, batchTexts, List.length_map]
  | error e => exact client.isProviderError_of_parse parsed

/-- Two vectors without labels. -/
def unlabelledBody : Config :=
  [("data", .list [.object [("embedding", .list [])], .object [("embedding", .list [])]])]

/-- A client whose numerals are of no kind. -/
def plainClient : EmbeddingClient where
  name := ""
  numerals := ⟨fun _ => none, fun _ => none⟩
  str := fun _ => ""
  unit := id

/-- Vectors without labels are returned, though the answer labels none of them. -/
theorem not_labelled :
  ¬ ∀ (client : EmbeddingClient) (body : Config) (texts : List Text) (model : String)
      (result : ProviderEmbedding), client.parse body texts model = .ok result →
    ∃ rows : List Config, body.lookup "data" = some (.list (rows.map .object)) ∧
      ∀ i < texts.length, ∃ row ∈ rows, ∃ label, row.lookup "index" = some label ∧
        client.numerals.toInt label = .ok i
  := by
  intro h
  have two : ¬ ([0, 0] : List ℤ).mergeSort (· ≤ ·) = EmbeddingClient.range 2 := by
    rw [List.mergeSort_of_pairwise (by decide)]
    decide
  have parsed : plainClient.parse unlabelledBody [[], []] "" = .ok ⟨[[], []], "", 1⟩ := by
    have ordered : plainClient.ordered [.object [("embedding", .list [])],
        .object [("embedding", .list [])]] =
        .ok [[("embedding", .list [])], [("embedding", .list [])]] := by
      change (if ([0, 0] : List ℤ).mergeSort (· ≤ ·) = EmbeddingClient.range 2 then _ else _) = _
      rw [if_neg two]
      rfl
    change (plainClient.ordered _).bind _ = _
    rw [ordered]
    rfl
  obtain ⟨rows, data, labels⟩ := h plainClient unlabelledBody [[], []] "" _ parsed
  obtain ⟨row, hrow, label, index, -⟩ := labels 0 (by decide)
  have mem : ConfigValue.object row ∈ rows.map .object := List.mem_map_of_mem hrow
  rw [← ConfigValue.list.inj (Option.some.inj data)] at mem
  have same : row = [("embedding", .list [])] := by
    simpa using mem
  rw [same] at index
  cases index

end Lumina.Gateway
