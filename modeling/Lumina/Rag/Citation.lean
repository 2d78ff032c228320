import Lumina.Prompts.ContextBlock
import Lumina.Rag.Pipeline

/-!
# The citations of an answer

The composer numbers the chunks of the context, the model cites them by these numbers, and
`assemble_citations` looks the numbers up in what the model has written.  A marker that names no
chunk of the context is dropped.
-/

namespace Lumina.Rag

open Etl (Text isSpace strip)
open Knowledge (ChunkId DocumentId PyFloat)
open Prompts (ContextChunk buildContextBlock)

/-! ### The numbers of the context -/

/-- `marker_for`; the index begins at 0. -/
def markerFor (index : ℕ) : Text :=
  Nat.toDigits 10 (index + 1)

theorem isDigit_of_mem_markerFor {index : ℕ} {c : Char} (h : c ∈ markerFor index) : c.isDigit :=
  Nat.isDigit_of_mem_toDigits (by decide) (by decide) h

theorem markerFor_injective {index index' : ℕ} (h : markerFor index = markerFor index') :
  index = index'
  := by
  have same := congrArg (Nat.ofDigitChars 10 · 0) h
  dsimp only [markerFor] at same
  rw [Nat.ofDigitChars_ten_toDigits, Nat.ofDigitChars_ten_toDigits] at same
  exact Nat.succ_injective same

/-- The chunks as `compose` numbers them for the prompt. -/
def contextOf (chunks : List RetrievedChunk) : List ContextChunk :=
  chunks.zipIdx.map fun (chunk, index) =>
    { marker := markerFor index
      decimal := fun _ h => isDigit_of_mem_markerFor h
      text := chunk.content
      docName := chunk.documentName
      page := chunk.page
      headingPath := chunk.headingPath }

/-- The context of `compose`. -/
def composeContext (chunks : List RetrievedChunk) : Text :=
  if chunks = [] then [] else buildContextBlock (contextOf chunks)

/-! ### The assembly -/

/-- What `_MARKER` captures at the beginning of a text. -/
def markerAt : Text → Option Text
  | '[' :: 'c' :: ':' :: text =>
      let marker := text.takeWhile fun c => c ≠ ']' && !isSpace c
      if marker ≠ [] ∧ (text.drop marker.length).head? = some ']' then some marker else none
  | _ => none

/-- `_MARKER.findall`, at most `n` characters further. -/
def markersUpTo : (n : ℕ) → Text → List Text
  | 0, _ => []
  | _, [] => []
  | n + 1, c :: text =>
      match markerAt (c :: text) with
      | some marker => marker :: markersUpTo n (text.drop (marker.length + 3))
      | none => markersUpTo n text

def extractMarkers (text : Text) : List Text :=
  markersUpTo text.length text

example : extractMarkers "a[c:1][c:[c:2]b[c: 3][c:]".toList = ["1".toList, "[c:2".toList] := by
  decide

structure Citation where
  marker : Text
  chunkId : ChunkId
  docId : DocumentId
  docName : Text
  docVersion : ℤ
  page : Option ℤ
  headingPath : List Text
  score : PyFloat
  snippet : Text

structure CitationResult where
  citations : List Citation := []
  droppedMarkers : List Text := []

def snippetMaxChars : ℕ := 240

/-- `_snippet`. -/
def snippet (content : Text) : Text :=
  let text := strip content
  if text.length ≤ snippetMaxChars then text else text.take snippetMaxChars ++ ['…']

/-- `_citation`. -/
def citation (marker : Text) (chunk : RetrievedChunk) : Citation where
  marker := marker
  chunkId := chunk.chunkId
  docId := chunk.documentId
  docName := chunk.documentName
  docVersion := chunk.docVersion
  page := chunk.page
  headingPath := chunk.headingPath
  score := chunk.score
  snippet := snippet chunk.content

/-- The dictionary `by_marker`. -/
def byMarker (chunks : List RetrievedChunk) : List (Text × RetrievedChunk) :=
  chunks.zipIdx.map fun (chunk, index) => (markerFor index, chunk)

/-- The variables of the loop of `assemble_citations`. -/
structure Assembly where
  result : CitationResult := {}
  used : List Text := []

/-- Markers are compared letter by letter. -/
local instance lawful_marker : LawfulBEq Text := inferInstance

/-- The body of the loop. -/
def Assembly.push (chunks : List RetrievedChunk) (a : Assembly) (marker : Text) : Assembly :=
  match (byMarker chunks).lookup marker with
  | none =>
      if marker ∈ a.result.droppedMarkers then a
      else
        { a with result :=
          { a.result with droppedMarkers := a.result.droppedMarkers ++ [marker] } }
  | some chunk =>
      if marker ∈ a.used then a
      else
        { result := { a.result with citations := a.result.citations ++ [citation marker chunk] }
          used := marker :: a.used }

def assembleCitations (text : Text) (chunks : List RetrievedChunk) : CitationResult :=
  ((extractMarkers text).foldl (Assembly.push chunks) {}).result

/-! ### The dictionary -/

/-- A marker is looked up by its place in the context. -/
theorem lookup_byMarker_eq_some_iff {chunks : List RetrievedChunk} {marker : Text}
    {chunk : RetrievedChunk} :
  (byMarker chunks).lookup marker = some chunk ↔
    ∃ index, chunks[index]? = some chunk ∧ marker = markerFor index
  := by
  have from_ (n : ℕ) :
      ((chunks.zipIdx n).map fun (chunk, index) => (markerFor index, chunk)).lookup marker =
          some chunk ↔
        ∃ index, chunks[index]? = some chunk ∧ marker = markerFor (index + n) := by
    induction chunks generalizing n with
    | nil => simp
    | cons first chunks ih =>
      rw [List.zipIdx_cons, List.map_cons, List.lookup_cons]
      by_cases here : marker = markerFor n
      · rw [beq_iff_eq.mpr here]
        constructor
        · rintro ⟨⟩
          exact ⟨0, rfl, by rw [Nat.zero_add, here]⟩
        · rintro ⟨index, hchunk, hmarker⟩
          have zero : index = 0 := by
            have same := markerFor_injective (here.symm.trans hmarker)
            omega
          rw [zero] at hchunk
          exact hchunk
      · rw [beq_eq_false_iff_ne.mpr here]
        dsimp only
        rw [ih (n + 1)]
        constructor
        · rintro ⟨index, hchunk, rfl⟩
          exact ⟨index + 1, hchunk, by rw [Nat.add_assoc, Nat.add_comm 1 n]⟩
        · rintro ⟨index, hchunk, hmarker⟩
          cases index with
          | zero => exact absurd (hmarker.trans (by rw [Nat.zero_add])) here
          | succ index => exact ⟨index, hchunk, by rw [hmarker, Nat.add_assoc, Nat.add_comm 1 n]⟩
  exact from_ 0

theorem getElem?_contextOf (chunks : List RetrievedChunk) (index : ℕ) :
  (contextOf chunks)[index]?.map (·.marker) = chunks[index]?.map fun _ => markerFor index
  := by
  unfold contextOf
  rw [List.getElem?_map, List.getElem?_zipIdx, Option.map_map, Option.map_map]
  cases chunks[index]? with
  | none => rfl
  | some chunk =>
    rw [Option.map_some, Option.map_some]
    exact congrArg (fun n => some (markerFor n)) (Nat.zero_add index)

/-- The dictionary knows the markers of the prompt. -/
theorem mem_contextOf_iff {chunks : List RetrievedChunk} {marker : Text} :
  marker ∈ (contextOf chunks).map (·.marker) ↔ ((byMarker chunks).lookup marker).isSome
  := by
  rw [Option.isSome_iff_exists, List.mem_iff_getElem?]
  constructor
  · rintro ⟨index, h⟩
    rw [List.getElem?_map, getElem?_contextOf] at h
    obtain ⟨chunk, hchunk, rfl⟩ := Option.map_eq_some_iff.mp h
    exact ⟨chunk, lookup_byMarker_eq_some_iff.mpr ⟨index, hchunk, rfl⟩⟩
  · rintro ⟨chunk, h⟩
    obtain ⟨index, hchunk, rfl⟩ := lookup_byMarker_eq_some_iff.mp h
    refine ⟨index, ?_⟩
    rw [List.getElem?_map, getElem?_contextOf, hchunk]
    rfl

/-- No two chunks of the prompt have the same marker. -/
theorem nodup_contextOf (chunks : List RetrievedChunk) :
  ((contextOf chunks).map (·.marker)).Nodup
  := by
  apply List.nodup_iff_getElem?_ne_getElem?.mpr
  intro i j lt below same
  rw [List.length_map] at below
  rw [List.getElem?_map, List.getElem?_map, getElem?_contextOf, getElem?_contextOf] at same
  have length : (contextOf chunks).length = chunks.length := by
    rw [contextOf, List.length_map, List.length_zipIdx]
  rw [length] at below
  rw [List.getElem?_eq_getElem below, List.getElem?_eq_getElem (lt.trans below)] at same
  have equal := markerFor_injective (Option.some.inj same)
  omega

/-! ### The loop -/

/-- The state after some markers of the answer. -/
structure Assembly.After (chunks : List RetrievedChunk) (markers : List Text) (a : Assembly) :
    Prop where
  used : ∀ marker, marker ∈ a.used ↔ marker ∈ a.result.citations.map (·.marker)
  cited : ∀ marker, marker ∈ a.result.citations.map (·.marker) ↔
    marker ∈ markers ∧ ((byMarker chunks).lookup marker).isSome
  refers : ∀ c ∈ a.result.citations, ∃ chunk,
    (byMarker chunks).lookup c.marker = some chunk ∧ c = citation c.marker chunk
  ordered : (a.result.citations.map (·.marker)).Pairwise fun m m' =>
    markers.idxOf m < markers.idxOf m'
  dropped : ∀ marker, marker ∈ a.result.droppedMarkers ↔
    marker ∈ markers ∧ (byMarker chunks).lookup marker = none
  droppedOnce : a.result.droppedMarkers.Nodup

namespace Assembly.After

variable {chunks : List RetrievedChunk} {markers : List Text} {a : Assembly}

/-- The places of the citations do not change when the answer goes on. -/
theorem ordered_concat (h : After chunks markers a) (marker : Text) :
  (a.result.citations.map (·.marker)).Pairwise fun m m' =>
    (markers ++ [marker]).idxOf m < (markers ++ [marker]).idxOf m'
  := by
  apply h.ordered.imp_of_mem
  intro m m' hm hm' lt
  rwa [List.idxOf_append_of_mem ((h.cited m).mp hm).1,
    List.idxOf_append_of_mem ((h.cited m').mp hm').1]

/-- A marker that has been seen to changes nothing. -/
theorem again (h : After chunks markers a) {marker : Text} (seen : marker ∈ markers) :
  After chunks (markers ++ [marker]) a
  := by
  have same (m : Text) : m ∈ markers ++ [marker] ↔ m ∈ markers := by
    rw [List.mem_append, List.mem_singleton]
    constructor
    · rintro (old | rfl)
      · exact old
      · exact seen
    · exact Or.inl
  constructor
  · exact h.used
  · intro m
    rw [same]
    exact h.cited m
  · exact h.refers
  · exact h.ordered_concat marker
  · intro m
    rw [same]
    exact h.dropped m
  · exact h.droppedOnce

theorem push (h : After chunks markers a) (marker : Text) :
  After chunks (markers ++ [marker]) (a.push chunks marker)
  := by
  unfold Assembly.push
  cases hlookup : (byMarker chunks).lookup marker with
  | none =>
    dsimp only
    split
    next old => exact h.again ((h.dropped marker).mp old).1
    next new =>
      constructor
      · exact h.used
      · intro m
        rw [List.mem_append, List.mem_singleton, h.cited]
        constructor
        · exact fun cited => ⟨Or.inl cited.1, cited.2⟩
        · rintro ⟨old | rfl, named⟩
          · exact ⟨old, named⟩
          · rw [hlookup] at named
            cases named
      · exact h.refers
      · exact h.ordered_concat marker
      · intro m
        dsimp only
        rw [List.mem_append, List.mem_append, List.mem_singleton, h.dropped]
        constructor
        · rintro (old | rfl)
          · exact ⟨Or.inl old.1, old.2⟩
          · exact ⟨Or.inr rfl, hlookup⟩
        · rintro ⟨old | rfl, unnamed⟩
          · exact Or.inl ⟨old, unnamed⟩
          · exact Or.inr rfl
      · apply List.nodup_append.mpr
        refine ⟨h.droppedOnce, List.nodup_singleton _, ?_⟩
        rintro m old m' hm' rfl
        rw [List.mem_singleton.mp hm'] at old
        exact new old
  | some chunk =>
    dsimp only
    split
    next old => exact h.again ((h.cited marker).mp ((h.used marker).mp old)).1
    next new =>
      have new : marker ∉ a.result.citations.map (·.marker) := mt (h.used marker).mpr new
      have fresh : marker ∉ markers := by
        intro seen
        apply new
        apply (h.cited marker).mpr
        rw [hlookup]
        exact ⟨seen, rfl⟩
      constructor
      · intro m
        dsimp only
        rw [List.mem_cons, List.map_append, List.mem_append, h.used]
        exact or_comm.trans (or_congr_right List.mem_singleton.symm)
      · intro m
        dsimp only
        rw [List.map_append, List.mem_append, List.mem_append, h.cited, List.mem_singleton]
        constructor
        · rintro (old | hm)
          · exact ⟨Or.inl old.1, old.2⟩
          · have same : m = marker := List.mem_singleton.mp hm
            rw [same, hlookup]
            exact ⟨Or.inr rfl, rfl⟩
        · rintro ⟨old | rfl, named⟩
          · exact Or.inl ⟨old, named⟩
          · exact Or.inr List.mem_cons_self
      · intro c hc
        obtain old | hc := List.mem_append.mp hc
        · exact h.refers c old
        · obtain rfl := List.mem_singleton.mp hc
          exact ⟨chunk, hlookup, rfl⟩
      · dsimp only
        rw [List.map_append, List.pairwise_append]
        refine ⟨h.ordered_concat marker, List.pairwise_singleton _ _, ?_⟩
        intro m hm m' hm'
        have same : m' = marker := List.mem_singleton.mp hm'
        have seen := ((h.cited m).mp hm).1
        rw [same, List.idxOf_append_of_mem seen]
        apply lt_of_lt_of_le (List.idxOf_lt_length_of_mem seen)
        change markers.length ≤ (markers ++ [marker]).idxOf marker
        rw [List.idxOf_append_of_notMem fresh]
        exact Nat.le_add_right _ _
      · intro m
        rw [List.mem_append, List.mem_singleton, h.dropped]
        constructor
        · exact fun dropped => ⟨Or.inl dropped.1, dropped.2⟩
        · rintro ⟨old | rfl, unnamed⟩
          · exact ⟨old, unnamed⟩
          · cases hlookup.symm.trans unnamed
      · exact h.droppedOnce

theorem foldl_push (h : After chunks markers a) (others : List Text) :
  After chunks (markers ++ others) (others.foldl (Assembly.push chunks) a)
  := by
  induction others generalizing markers a with
  | nil =>
    rw [List.append_nil]
    exact h
  | cons marker others ih =>
    rw [List.append_cons]
    exact ih (h.push marker)

end Assembly.After

/-! ### The citations -/

/-- What the assembly makes of the markers of an answer: those that the prompt has are cited, the
others are dropped. -/
structure Assembles (text : Text) (chunks : List RetrievedChunk) (r : CitationResult) : Prop where
  numbered : ((contextOf chunks).map (·.marker)).Nodup
  cited : ∀ marker, marker ∈ r.citations.map (·.marker) ↔
    marker ∈ extractMarkers text ∧ marker ∈ (contextOf chunks).map (·.marker)
  refers : ∀ c ∈ r.citations, ∃ (index : ℕ) (chunk : RetrievedChunk), chunks[index]? = some chunk ∧
    (contextOf chunks)[index]?.map ContextChunk.marker = some c.marker ∧ c = citation c.marker chunk
  /-- In the order of the first occurrences; in particular, there are no duplicates. -/
  ordered : (r.citations.map (·.marker)).Pairwise fun m m' =>
    (extractMarkers text).idxOf m < (extractMarkers text).idxOf m'
  dropped : ∀ marker, marker ∈ r.droppedMarkers ↔
    marker ∈ extractMarkers text ∧ marker ∉ (contextOf chunks).map (·.marker)
  droppedOnce : r.droppedMarkers.Nodup

theorem assembleCitations_sound_and_complete (text : Text) (chunks : List RetrievedChunk) :
  Assembles text chunks (assembleCitations text chunks)
  := by
  have start : Assembly.After chunks [] {} := by
    constructor
    · exact fun _ => Iff.rfl
    · exact fun _ => ⟨fun h => absurd h List.not_mem_nil, fun h => absurd h.1 List.not_mem_nil⟩
    · nofun
    · exact List.Pairwise.nil
    · exact fun _ => ⟨fun h => absurd h List.not_mem_nil, fun h => absurd h.1 List.not_mem_nil⟩
    · exact List.nodup_nil
  have after := start.foldl_push (extractMarkers text)
  rw [List.nil_append] at after
  constructor
  · exact nodup_contextOf chunks
  · intro marker
    rw [mem_contextOf_iff]
    exact after.cited marker
  · intro c hc
    obtain ⟨chunk, hlookup, hcitation⟩ := after.refers c hc
    obtain ⟨index, hchunk, hmarker⟩ := lookup_byMarker_eq_some_iff.mp hlookup
    refine ⟨index, chunk, hchunk, ?_, hcitation⟩
    rw [getElem?_contextOf, hchunk, hmarker]
    rfl
  · exact after.ordered
  · intro marker
    rw [mem_contextOf_iff, Option.isSome_iff_ne_none, not_not]
    exact after.dropped marker
  · exact after.droppedOnce

end Lumina.Rag
