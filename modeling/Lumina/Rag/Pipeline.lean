import Lumina.Etl.Chunk
import Lumina.Knowledge.KbConfig
import Lumina.Knowledge.Store
import Mathlib.Data.List.Nodup
import Mathlib.Data.List.Perm.Basic

/-!
# The stages of the retrieval

The query of the full-text search, the gates, the fusion of several ranked lists into one, and the
choice of what the context has room for.
-/

namespace Lumina

/-! ### Arithmetic -/

namespace Knowledge.PyFloat

def neg : PyFloat → PyFloat
  | .finite q => .finite (-q)
  | .infinite negative => .infinite !negative
  | .nan => .nan

/-- `==`; `nan` is not equal to itself. -/
def eq : PyFloat → PyFloat → Bool
  | .nan, _ => false
  | x, y => x = y

def le (x y : PyFloat) : Bool :=
  x.lt y || x.eq y

theorem lt_irrefl (x : PyFloat) :
  x.lt x = false
  := by
  cases x with
  | finite q => simp [lt]
  | infinite negative => cases negative <;> rfl
  | nan => rfl

theorem lt_trans {x y z : PyFloat} (h : x.lt y) (h' : y.lt z) :
  x.lt z
  := by
  cases x with
  | nan => simp [lt] at h
  | finite p =>
    cases y with
    | nan => simp [lt] at h
    | finite q =>
      cases z with
      | nan => simp [lt] at h'
      | finite r =>
        simp only [lt, decide_eq_true_eq] at h h' ⊢
        exact h.trans h'
      | infinite t => cases t <;> simp_all [lt]
    | infinite s => cases s <;> cases z <;> simp_all [lt]
  | infinite s =>
    cases s with
    | false => simp [lt] at h
    | true =>
      cases z with
      | nan => cases y <;> simp [lt] at h'
      | finite r => rfl
      | infinite t =>
        cases t with
        | false => rfl
        | true => cases y <;> simp [lt] at h'

theorem lt_asymm {x y : PyFloat} (h : x.lt y) :
  y.lt x = false
  := by
  by_contra h'
  have loop := lt_trans h (Bool.of_not_eq_false h')
  rw [lt_irrefl] at loop
  cases loop

theorem eq_of_eq {x y : PyFloat} (h : x.eq y) :
  x = y
  := by
  cases x with
  | nan => cases h
  | finite q => exact of_decide_eq_true h
  | infinite negative => exact of_decide_eq_true h

theorem le_trans {x y z : PyFloat} (h : x.le y) (h' : y.le z) :
  x.le z
  := by
  unfold le at h h' ⊢
  rw [Bool.or_eq_true] at h h' ⊢
  rcases h with h | h
  · rcases h' with h' | h'
    · exact .inl (lt_trans h h')
    · rw [← eq_of_eq h']
      exact .inl h
  · rw [eq_of_eq h]
    exact h'

/-- The number that an exact result is rounded to. -/
def round (q : ℚ) : PyFloat :=
  match Binary64.nearest |q| with
  | some r => .finite (if q < 0 then -r else r)
  | none => .infinite (q < 0)

def add : PyFloat → PyFloat → PyFloat
  | .finite p, .finite q => round (p + q)
  | .nan, _ | _, .nan => .nan
  | .infinite s, .infinite t => if s = t then .infinite s else .nan
  | .infinite s, .finite _ | .finite _, .infinite s => .infinite s

def mul : PyFloat → PyFloat → PyFloat
  | .finite p, .finite q => round (p * q)
  | .nan, _ | _, .nan => .nan
  | .infinite s, .infinite t => .infinite (s != t)
  | .infinite s, .finite q | .finite q, .infinite s =>
      if q = 0 then .nan else .infinite (s != decide (q < 0))

/-- `1.0 / n`, unless it raises `ZeroDivisionError` or `OverflowError`. -/
def inverse (n : ℤ) : Option PyFloat :=
  match ofInt n with
  | some (.finite q) => if q = 0 then none else some (round (1 / q))
  | _ => none

end Knowledge.PyFloat

namespace Rag

open Etl (Text estimateTokens strip)
open Knowledge (ChunkId DocumentId PyFloat)

/-- `items[:stop]`; a negative index counts from the end. -/
def upTo {α : Type} (stop : ℤ) (items : List α) : List α :=
  items.take (if 0 ≤ stop then stop.toNat else items.length - stop.natAbs)

theorem upTo_sublist {α : Type} (stop : ℤ) (items : List α) :
  (upTo stop items).Sublist items
  := by
  apply List.take_sublist

/-! ### Candidates -/

/-- What the layers above know of a chunk that was found. -/
structure RetrievedChunk where
  chunkId : ChunkId
  documentId : DocumentId
  content : Text
  score : PyFloat
  page : Option ℤ
  headingPath : List Text
  documentName : Text := []
  docVersion : ℤ := 1

/-- The same chunk, with another score: `replace(chunk, score=score)`. -/
def RetrievedChunk.scored (chunk : RetrievedChunk) (score : PyFloat) : RetrievedChunk :=
  { chunk with score := score }

@[simp]
theorem RetrievedChunk.scored_chunkId (chunk : RetrievedChunk) (score : PyFloat) :
  (chunk.scored score).chunkId = chunk.chunkId
  := by
  rfl

@[simp]
theorem RetrievedChunk.scored_scored (chunk : RetrievedChunk) (score score' : PyFloat) :
  (chunk.scored score).scored score' = chunk.scored score'
  := by
  rfl

/-- `normalise_query`. -/
def normaliseQuery (query : Text) : Text :=
  strip query

/-! ### The query of the full-text search -/

def maxFtsQueryChars : ℕ := 1000

def maxFtsTerms : ℕ := 12

/-- `[A-Za-z0-9_.\-]`. -/
def isTermChar (c : Char) : Bool :=
  c.isAlphanum || c = '_' || c = '.' || c = '-'

/-- `_TOKEN.findall`, at most `n` characters further. -/
def tokensUpTo : (n : ℕ) → Text → List Text
  | 0, _ => []
  | _, [] => []
  | n + 1, c :: text =>
      let rest := text.takeWhile isTermChar
      let digits := text.takeWhile Char.isDigit
      if c.isAlpha && !rest.isEmpty then (c :: rest) :: tokensUpTo n (text.drop rest.length)
      else if c.isDigit && !digits.isEmpty then
        (c :: digits) :: tokensUpTo n (text.drop digits.length)
      else tokensUpTo n text

/-- `_is_distinctive`; the characters are those of a token. -/
def isDistinctive (token : Text) : Bool :=
  token.any Char.isDigit || token.any (fun c => c = '_' || c = '.' || c = '-') ||
    (token.all (fun c => !c.isLower) && token.any Char.isUpper && 2 ≤ token.length) ||
    token.tail.any Char.isUpper

/-- The loop of `build_fts_query` through the tokens. -/
def ftsTerms : (terms tokens : List Text) → List Text
  | terms, [] => terms
  | terms, token :: tokens =>
      let terms := if isDistinctive token && token ∉ terms then terms ++ [token] else terms
      if maxFtsTerms ≤ terms.length then terms else ftsTerms terms tokens

/-- `build_fts_query`. -/
def buildFtsQuery (text : Text) : Text :=
  let text := text.take maxFtsQueryChars
  let terms := ftsTerms [] (tokensUpTo text.length text)
  [' ', 'O', 'R', ' '].intercalate (terms.map fun term => ['"'] ++ term ++ ['"'])

example : buildFtsQuery "第 14 條".toList = "\"14\"".toList := by decide

/-! ### Gates -/

/-- `gate_by_score`, relative to the score of the first one. -/
def gateByScore (candidates : List RetrievedChunk) (minScoreRatio : PyFloat) :
    List RetrievedChunk :=
  match candidates with
  | [] => []
  | first :: others =>
      if minScoreRatio.le (.finite 0) || first.score.le (.finite 0) then candidates
      else first :: others.filter fun chunk => (first.score.mul minScoreRatio).le chunk.score

/-- `gate_by_absolute_score`. -/
def gateByAbsoluteScore (candidates : List RetrievedChunk) (threshold : PyFloat) :
    List RetrievedChunk :=
  if threshold.le (.finite 0) then candidates
  else candidates.filter fun chunk => threshold.le chunk.score

theorem gateByAbsoluteScore_sublist (candidates : List RetrievedChunk) (threshold : PyFloat) :
  (gateByAbsoluteScore candidates threshold).Sublist candidates
  := by
  unfold gateByAbsoluteScore
  split
  · apply List.Sublist.refl
  · apply List.filter_sublist

/-! ### Fusion -/

/-- What the fusion knows of a chunk: its entries in the dictionaries `chunks`, `scores` and `best`,
which have the same keys in the same order. -/
structure Fused where
  chunk : RetrievedChunk
  score : PyFloat
  best : ℕ × ℕ

/-- `<` of two pairs. -/
def pairLt (a b : ℕ × ℕ) : Bool :=
  a.1 < b.1 || (a.1 = b.1 && a.2 < b.2)

/-- The chunk at a rank of a group is counted. -/
def count (chunk : RetrievedChunk) (share : PyFloat) (place : ℕ × ℕ) : List Fused → List Fused
  | [] => [⟨chunk, (PyFloat.finite 0).add share, place⟩]
  | e :: entries =>
      if e.chunk.chunkId = chunk.chunkId then
        { e with
          score := e.score.add share
          best := if pairLt place e.best then place else e.best } :: entries
      else e :: count chunk share place entries

/-- The loop of `fuse_candidates` through a group, from a rank on. -/
def fuseGroup (k : ℤ) (index : ℕ) :
    (rank : ℕ) → (seen : List ChunkId) → List RetrievedChunk → List Fused → Option (List Fused)
  | _, _, [], entries => some entries
  | rank, seen, chunk :: chunks, entries =>
      if chunk.chunkId ∈ seen then fuseGroup k index (rank + 1) seen chunks entries
      else do
        let share ← PyFloat.inverse (k + rank)
        fuseGroup k index (rank + 1) (chunk.chunkId :: seen) chunks
          (count chunk share (rank, index) entries)

/-- The loop of `fuse_candidates` through the groups, from an index on. -/
def fuseGroups (k : ℤ) : (index : ℕ) → List (List RetrievedChunk) → List Fused → Option (List Fused)
  | _, [], entries => some entries
  | index, group :: groups, entries => do
      let entries ← fuseGroup k index 1 [] group entries
      fuseGroups k (index + 1) groups entries

/-- `<` of the keys that are sorted by.  The ids are ordered as their texts. -/
def Fused.lt (a b : Fused) : Bool :=
  if a.score.neg.eq b.score.neg then
    if a.best = b.best then a.chunk.chunkId < b.chunk.chunkId else pairLt a.best b.best
  else a.score.neg.lt b.score.neg

/-- `fuse_candidates`; `none` is an exception of the division. -/
def fuseCandidates (groups : List (List RetrievedChunk)) (k limit : ℤ) :
    Option (List RetrievedChunk) := do
  let entries ← fuseGroups k 0 groups []
  some ((upTo limit (entries.mergeSort fun a b => !b.lt a)).map fun e => e.chunk.scored e.score)

/-- The ids of the entries are different. -/
def Distinct (entries : List Fused) : Prop :=
  (entries.map (·.chunk.chunkId)).Nodup

theorem mem_count (chunk : RetrievedChunk) (share : PyFloat) (place : ℕ × ℕ)
    (entries : List Fused) (id : ChunkId) :
  id ∈ (count chunk share place entries).map (·.chunk.chunkId) ↔
    id = chunk.chunkId ∨ id ∈ entries.map (·.chunk.chunkId)
  := by
  induction entries with
  | nil => simp [count]
  | cons e entries ih =>
    unfold count
    split
    · case isTrue same =>
      simp only [List.map_cons, List.mem_cons, same, or_self_left]
    · case isFalse =>
      simp only [List.map_cons, List.mem_cons, ih]
      tauto

theorem Distinct.count {entries : List Fused} (h : Distinct entries) (chunk : RetrievedChunk)
    (share : PyFloat) (place : ℕ × ℕ) :
  Distinct (count chunk share place entries)
  := by
  induction entries with
  | nil =>
    apply List.nodup_singleton
  | cons e entries ih =>
    obtain ⟨fresh, rest⟩ := List.nodup_cons.mp h
    unfold Rag.count
    split
    · apply h
    · case isFalse other =>
      apply List.nodup_cons.mpr
      constructor
      · intro mem
        obtain same | mem := (mem_count ..).mp mem
        · apply other same
        · apply fresh mem
      · apply ih rest

theorem Distinct.fuseGroup {k : ℤ} {index rank : ℕ} {seen : List ChunkId}
    {group : List RetrievedChunk} {entries entries' : List Fused} (h : Distinct entries)
    (hfuse : fuseGroup k index rank seen group entries = some entries') :
  Distinct entries'
  := by
  induction group generalizing rank seen entries with
  | nil =>
    cases hfuse
    apply h
  | cons chunk chunks ih =>
    unfold Rag.fuseGroup at hfuse
    split at hfuse
    · apply ih h hfuse
    · obtain ⟨share, -, hfuse⟩ := Option.bind_eq_some_iff.mp hfuse
      apply ih (h.count chunk share (rank, index)) hfuse

theorem Distinct.fuseGroups {k : ℤ} {index : ℕ} {groups : List (List RetrievedChunk)}
    {entries entries' : List Fused} (h : Distinct entries)
    (hfuse : fuseGroups k index groups entries = some entries') :
  Distinct entries'
  := by
  induction groups generalizing index entries with
  | nil =>
    cases hfuse
    apply h
  | cons group groups ih =>
    obtain ⟨middle, hgroup, hfuse⟩ := Option.bind_eq_some_iff.mp hfuse
    apply ih (h.fuseGroup hgroup) hfuse

/-- The candidates are different chunks. -/
theorem nodup_fuseCandidates {groups : List (List RetrievedChunk)} {k limit : ℤ}
    {candidates : List RetrievedChunk} (h : fuseCandidates groups k limit = some candidates) :
  (candidates.map (·.chunkId)).Nodup
  := by
  obtain ⟨entries, hfuse, hsort⟩ := Option.bind_eq_some_iff.mp h
  cases hsort
  have start : Distinct [] := List.nodup_nil
  have distinct : Distinct entries := start.fuseGroups hfuse
  have sorted : Distinct (entries.mergeSort fun a b => !b.lt a) := by
    apply (((List.mergeSort_perm entries _).map _).nodup_iff).mpr distinct
  rw [List.map_map]
  apply List.Nodup.sublist _ sorted
  apply (upTo_sublist limit _).map

/-! ### The context -/

/-- The loop of `select_context`, after some chunks have been selected or before. -/
def selectFrom (tokenBudget : ℤ) : (selected : Bool) → (used : ℕ) → List RetrievedChunk →
    List RetrievedChunk
  | _, _, [] => []
  | selected, used, chunk :: chunks =>
      let cost := estimateTokens chunk.content
      if selected && tokenBudget < (used + cost : ℕ) then []
      else chunk :: selectFrom tokenBudget true (used + cost) chunks

/-- `select_context`. -/
def selectContext (candidates : List RetrievedChunk) (maxChunks tokenBudget : ℤ) :
    List RetrievedChunk :=
  selectFrom tokenBudget false 0 (upTo maxChunks candidates)

theorem selectFrom_sublist (tokenBudget : ℤ) (selected : Bool) (used : ℕ)
    (chunks : List RetrievedChunk) :
  (selectFrom tokenBudget selected used chunks).Sublist chunks
  := by
  induction chunks generalizing selected used with
  | nil => apply List.Sublist.refl
  | cons chunk chunks ih =>
    unfold selectFrom
    dsimp only
    split
    · apply List.nil_sublist
    · apply (ih _ _).cons_cons

theorem selectContext_sublist (candidates : List RetrievedChunk) (maxChunks tokenBudget : ℤ) :
  (selectContext candidates maxChunks tokenBudget).Sublist candidates
  := by
  apply List.Sublist.trans (selectFrom_sublist ..)
  apply upTo_sublist

end Rag

end Lumina
