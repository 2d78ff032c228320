import Lumina.Library.Ranking
import Lumina.Rag.Pipeline
import Mathlib.Algebra.Order.Field.Rat
import Mathlib.Data.List.Dedup
import Mathlib.Data.Prod.Lex
import Mathlib.Order.WithBot

/-!
# The fusion of ranked lists, exactly

`fuse_candidates` over the rational numbers: the same loops as those that `Rag.fuseCandidates` has
over floating point numbers, without rounding.  A chunk gets the sum of its shares, one for each
group, and the order is that of a key.
-/

namespace Lumina.Rag.Exact

open Knowledge (ChunkId PyFloat)

/-! ### The loops -/

/-- The entries of a chunk in the dictionaries `chunks`, `scores` and `best`. -/
structure Fused where
  chunk : RetrievedChunk
  score : ℚ
  best : ℕ × ℕ

/-- The chunk at a rank of a group is counted. -/
def count (chunk : RetrievedChunk) (share : ℚ) (place : ℕ × ℕ) : List Fused → List Fused
  | [] => [⟨chunk, 0 + share, place⟩]
  | e :: entries =>
      if e.chunk.chunkId = chunk.chunkId then
        { e with
          score := e.score + share
          best := if pairLt place e.best then place else e.best } :: entries
      else e :: count chunk share place entries

/-- The loop through a group, from a rank on. -/
def fuseGroup (k : ℕ) (index : ℕ) :
    (rank : ℕ) → (seen : List ChunkId) → List RetrievedChunk → List Fused → List Fused
  | _, _, [], entries => entries
  | rank, seen, chunk :: chunks, entries =>
      if chunk.chunkId ∈ seen then fuseGroup k index (rank + 1) seen chunks entries
      else
        fuseGroup k index (rank + 1) (chunk.chunkId :: seen) chunks
          (count chunk (1 / (k + rank)) (rank, index) entries)

/-- The loop through the groups, from an index on. -/
def fuseGroups (k : ℕ) : (index : ℕ) → List (List RetrievedChunk) → List Fused → List Fused
  | _, [], entries => entries
  | index, group :: groups, entries =>
      fuseGroups k (index + 1) groups (fuseGroup k index 1 [] group entries)

/-- `<` of the keys that are sorted by. -/
def Fused.lt (a b : Fused) : Bool :=
  if -a.score = -b.score then
    if a.best = b.best then a.chunk.chunkId < b.chunk.chunkId else pairLt a.best b.best
  else -a.score < -b.score

/-- `fuse_candidates`. -/
def fuseCandidates (groups : List (List RetrievedChunk)) (k limit : ℕ) : List RetrievedChunk :=
  let ordered := (fuseGroups k 0 groups []).mergeSort fun a b => !b.lt a
  (ordered.take limit).map fun e => e.chunk.scored (.finite e.score)

/-! ### What the order is about -/

/-- The position of the first occurrence of a chunk, where the first position has a number. -/
def rankFrom (id : ChunkId) : (rank : ℕ) → List RetrievedChunk → Option ℕ
  | _, [] => none
  | rank, chunk :: chunks =>
      if chunk.chunkId = id then some rank else rankFrom id (rank + 1) chunks

/-- The position of the first occurrence in a group, from 1 on. -/
def firstRank (id : ChunkId) (group : List RetrievedChunk) : Option ℕ :=
  rankFrom id 1 group

def share (k : ℕ) : Option ℕ → ℚ
  | some rank => 1 / (k + rank)
  | none => 0

/-- The sum of the shares. -/
def score (k : ℕ) (groups : List (List RetrievedChunk)) (id : ChunkId) : ℚ :=
  (groups.map fun group => share k (firstRank id group)).sum

/-- A rank in the group of an index; ranks come first. -/
def place (index : ℕ) : Option ℕ → WithTop (ℕ ×ₗ ℕ)
  | some rank => (toLex (rank, index) : ℕ ×ₗ ℕ)
  | none => ⊤

def bestFrom (id : ChunkId) : (index : ℕ) → List (List RetrievedChunk) → WithTop (ℕ ×ₗ ℕ)
  | _, [] => ⊤
  | index, group :: groups =>
      min (place index (firstRank id group)) (bestFrom id (index + 1) groups)

/-- The best rank of a chunk, and the first group in which it has that rank. -/
def best (groups : List (List RetrievedChunk)) (id : ChunkId) : WithTop (ℕ ×ₗ ℕ) :=
  bestFrom id 0 groups

/-- What is sorted by: the greatest score first, then the best place, then the id. -/
def key (k : ℕ) (groups : List (List RetrievedChunk)) (id : ChunkId) :
    ℚᵒᵈ ×ₗ WithTop (ℕ ×ₗ ℕ) ×ₗ ChunkId :=
  toLex (OrderDual.toDual (score k groups id), toLex (best groups id, id))

/-- The ids of the chunks. -/
def ids (groups : List (List RetrievedChunk)) : List ChunkId :=
  groups.flatten.map (·.chunkId)

/-! ### An entry -/

/-- The entry of a chunk. -/
def entryOf (id : ChunkId) (entries : List Fused) : Option Fused :=
  entries.find? fun e => e.chunk.chunkId = id

def scoreOf (entry : Option Fused) : ℚ := entry.elim 0 (·.score)

def bestOf (entry : Option Fused) : WithTop (ℕ ×ₗ ℕ) :=
  entry.elim ⊤ fun e => (toLex e.best : ℕ ×ₗ ℕ)

/-- The entry of a chunk after it has been counted. -/
def meet (chunk : RetrievedChunk) (share : ℚ) (place : ℕ × ℕ) : Option Fused → Fused
  | none => ⟨chunk, 0 + share, place⟩
  | some e =>
      { e with
        score := e.score + share
        best := if pairLt place e.best then place else e.best }

theorem entryOf_count (chunk : RetrievedChunk) (share : ℚ) (place : ℕ × ℕ) (entries : List Fused)
    (id : ChunkId) :
  entryOf id (count chunk share place entries) =
    if chunk.chunkId = id then some (meet chunk share place (entryOf id entries))
    else entryOf id entries
  := by
  unfold entryOf
  induction entries with
  | nil =>
    rw [count, List.find?_cons, List.find?_nil]
    by_cases same : chunk.chunkId = id
    · rw [if_pos same, decide_eq_true same]
      rfl
    · rw [if_neg same, decide_eq_false same]
  | cons e entries ih =>
    rw [count, List.find?_cons]
    by_cases found : e.chunk.chunkId = chunk.chunkId
    · rw [if_pos found, List.find?_cons]
      dsimp only
      by_cases same : chunk.chunkId = id
      · rw [if_pos same, decide_eq_true (found.trans same)]
        rfl
      · rw [if_neg same, decide_eq_false fun h => same (found.symm.trans h)]
    · rw [if_neg found, List.find?_cons, ih]
      by_cases same : chunk.chunkId = id
      · rw [if_pos same, if_pos same, decide_eq_false fun h => found (h.trans same.symm)]
      · rw [if_neg same, if_neg same]

theorem pairLt_iff (p q : ℕ × ℕ) : pairLt p q = true ↔ (toLex p : ℕ ×ₗ ℕ) < toLex q := by
  rw [Prod.Lex.toLex_lt_toLex, pairLt, Bool.or_eq_true, Bool.and_eq_true, decide_eq_true_eq,
    decide_eq_true_eq, decide_eq_true_eq]

theorem scoreOf_meet (chunk : RetrievedChunk) (share : ℚ) (place : ℕ × ℕ) (entry : Option Fused) :
  scoreOf (some (meet chunk share place entry)) = scoreOf entry + share
  := by
  cases entry
  all_goals rfl

theorem bestOf_meet (chunk : RetrievedChunk) (share : ℚ) (place : ℕ × ℕ) (entry : Option Fused) :
  bestOf (some (meet chunk share place entry)) =
    min (bestOf entry) (toLex place : ℕ ×ₗ ℕ)
  := by
  cases entry with
  | none => exact (min_eq_right le_top).symm
  | some e =>
    unfold meet bestOf
    dsimp only [Option.elim]
    rw [← WithTop.coe_min]
    apply congrArg
    split_ifs with lt
    · exact (min_eq_right ((pairLt_iff _ _).mp lt).le).symm
    · exact (min_eq_left (not_lt.mp (mt (pairLt_iff _ _).mpr lt))).symm

theorem isSome_count (chunk : RetrievedChunk) (share : ℚ) (place : ℕ × ℕ) (entries : List Fused)
    (id : ChunkId) :
  (entryOf id (count chunk share place entries)).isSome ↔
    chunk.chunkId = id ∨ (entryOf id entries).isSome
  := by
  rw [entryOf_count]
  split_ifs with same
  · exact ⟨fun _ => Or.inl same, fun _ => rfl⟩
  · exact ⟨Or.inr, fun h => h.resolve_left same⟩

/-! ### The entries after a group and after all groups -/

section Loops

variable (k : ℕ) (id : ChunkId)

theorem entryOf_fuseGroup (index rank : ℕ) (seen : List ChunkId) (group : List RetrievedChunk)
    (entries : List Fused) :
  let before := entryOf id entries
  let after := entryOf id (fuseGroup k index rank seen group entries)
  let counted := if id ∈ seen then none else rankFrom id rank group
  scoreOf after = scoreOf before + share k counted ∧
    bestOf after = min (bestOf before) (place index counted) ∧
    (after.isSome ↔ before.isSome ∨ counted.isSome)
  := by
  induction group generalizing rank seen entries with
  | nil =>
    dsimp only
    rw [fuseGroup, rankFrom, ite_self]
    exact ⟨(add_zero _).symm, (min_eq_left le_top).symm, (or_iff_left nofun).symm⟩
  | cons chunk chunks ih =>
    have later := ih (rank + 1)
    dsimp only at later ⊢
    rw [fuseGroup, rankFrom]
    by_cases known : chunk.chunkId ∈ seen
    · rw [if_pos known]
      have rest := later seen entries
      by_cases listed : id ∈ seen
      · rw [if_pos listed] at rest ⊢
        exact rest
      · have other : chunk.chunkId ≠ id := fun h => listed (h ▸ known)
        rw [if_neg listed] at rest ⊢
        rw [if_neg other]
        exact rest
    · rw [if_neg known]
      obtain ⟨hscore, hbest, hsome⟩ :=
        later (chunk.chunkId :: seen) (count chunk (1 / (k + rank)) (rank, index) entries)
      rw [hscore, hbest, hsome, isSome_count, entryOf_count]
      by_cases same : chunk.chunkId = id
      · have listed : id ∈ chunk.chunkId :: seen := List.mem_cons.mpr (Or.inl same.symm)
        have unseen : id ∉ seen := same ▸ known
        rw [if_pos listed, if_neg unseen, if_pos same, if_pos same, scoreOf_meet, bestOf_meet]
        refine ⟨add_zero _, min_eq_left le_top, ?_⟩
        exact ⟨fun _ => Or.inr rfl, fun _ => Or.inl (Or.inl same)⟩
      · have listed : id ∈ chunk.chunkId :: seen ↔ id ∈ seen :=
          List.mem_cons.trans (or_iff_right fun h => same h.symm)
        rw [if_neg same, if_neg same, or_iff_right same]
        by_cases unseen : id ∈ seen
        · rw [if_pos (listed.mpr unseen), if_pos unseen]
          exact ⟨rfl, rfl, Iff.rfl⟩
        · rw [if_neg (mt listed.mp unseen), if_neg unseen]
          exact ⟨rfl, rfl, Iff.rfl⟩

theorem isSome_rankFrom (rank : ℕ) (group : List RetrievedChunk) :
  (rankFrom id rank group).isSome ↔ id ∈ group.map (·.chunkId)
  := by
  induction group generalizing rank with
  | nil => exact ⟨nofun, nofun⟩
  | cons chunk chunks ih =>
    rw [rankFrom, List.map_cons, List.mem_cons]
    split_ifs with same
    · exact ⟨fun _ => Or.inl same.symm, fun _ => rfl⟩
    · rw [ih, or_iff_right fun h => same h.symm]

theorem entryOf_fuseGroups (index : ℕ) (groups : List (List RetrievedChunk))
    (entries : List Fused) :
  let before := entryOf id entries
  let after := entryOf id (fuseGroups k index groups entries)
  scoreOf after = scoreOf before + score k groups id ∧
    bestOf after = min (bestOf before) (bestFrom id index groups) ∧
    (after.isSome ↔ before.isSome ∨ id ∈ ids groups)
  := by
  induction groups generalizing index entries with
  | nil =>
    dsimp only
    exact ⟨(add_zero _).symm, (min_eq_left le_top).symm, (or_iff_left List.not_mem_nil).symm⟩
  | cons group groups ih =>
    obtain ⟨hscore, hbest, hsome⟩ := ih (index + 1) (fuseGroup k index 1 [] group entries)
    obtain ⟨gscore, gbest, gsome⟩ := entryOf_fuseGroup k id index 1 [] group entries
    rw [if_neg List.not_mem_nil] at gscore gbest gsome
    dsimp only
    rw [fuseGroups, hscore, hbest, hsome, gscore, gbest, gsome, isSome_rankFrom]
    refine ⟨?_, min_assoc _ _ _, ?_⟩
    · rw [add_assoc]
      rfl
    · unfold ids
      rw [List.flatten_cons, List.map_append, List.mem_append, or_assoc]

end Loops

/-! ### The dictionaries -/

theorem mem_ids_count (chunk : RetrievedChunk) (share : ℚ) (place : ℕ × ℕ) (entries : List Fused)
    {e : Fused} (h : e ∈ count chunk share place entries) :
  e.chunk = chunk ∨ e.chunk ∈ entries.map (·.chunk)
  := by
  induction entries with
  | nil =>
    obtain rfl := List.mem_singleton.mp h
    exact Or.inl rfl
  | cons e' entries ih =>
    rw [List.map_cons, List.mem_cons]
    rw [count] at h
    by_cases same : e'.chunk.chunkId = chunk.chunkId
    · rw [if_pos same] at h
      obtain rfl | h := List.mem_cons.mp h
      · exact Or.inr (Or.inl rfl)
      · exact Or.inr (Or.inr (List.mem_map_of_mem h))
    · rw [if_neg same] at h
      obtain rfl | h := List.mem_cons.mp h
      · exact Or.inr (Or.inl rfl)
      · exact (ih h).imp_right Or.inr

/-- The dictionaries have one entry for each chunk, which is of the groups. -/
structure Dictionary (chunks : List RetrievedChunk) (entries : List Fused) : Prop where
  distinct : (entries.map (·.chunk.chunkId)).Nodup
  among : ∀ e ∈ entries, e.chunk ∈ chunks

namespace Dictionary

variable {chunks : List RetrievedChunk} {entries : List Fused}

theorem entryOf (h : Dictionary chunks entries) {e : Fused} (he : e ∈ entries) :
  Exact.entryOf e.chunk.chunkId entries = some e
  := by
  have distinct := h.distinct
  clear h
  induction entries with
  | nil => cases he
  | cons e' entries ih =>
    obtain ⟨fresh, rest⟩ := List.nodup_cons.mp distinct
    unfold Exact.entryOf
    rw [List.find?_cons]
    obtain rfl | he := List.mem_cons.mp he
    · rw [decide_eq_true rfl]
    · have other : e'.chunk.chunkId ≠ e.chunk.chunkId := fun same =>
        fresh (List.mem_map.mpr ⟨e, he, same.symm⟩)
      rw [decide_eq_false other]
      exact ih he rest

theorem isSome_entryOf (id : ChunkId) (entries : List Fused) :
  (Exact.entryOf id entries).isSome ↔ id ∈ entries.map (·.chunk.chunkId)
  := by
  unfold Exact.entryOf
  rw [List.find?_isSome, List.mem_map]
  apply exists_congr
  intro e
  rw [decide_eq_true_eq]

theorem count (h : Dictionary chunks entries) {chunk : RetrievedChunk} (mem : chunk ∈ chunks)
    (share : ℚ) (place : ℕ × ℕ) :
  Dictionary chunks (count chunk share place entries)
  := by
  constructor
  · have distinct := h.distinct
    clear h
    induction entries with
    | nil => exact List.nodup_singleton _
    | cons e entries ih =>
      obtain ⟨fresh, rest⟩ := List.nodup_cons.mp distinct
      rw [Exact.count]
      by_cases same : e.chunk.chunkId = chunk.chunkId
      · rw [if_pos same]
        exact distinct
      · rw [if_neg same, List.map_cons]
        apply List.nodup_cons.mpr
        refine ⟨?_, ih rest⟩
        rw [← isSome_entryOf, isSome_count, isSome_entryOf]
        rintro (found | found)
        · exact same found.symm
        · exact fresh found
  · intro e he
    obtain new | old := mem_ids_count _ _ _ _ he
    · exact new ▸ mem
    · obtain ⟨e', he', same⟩ := List.mem_map.mp old
      exact same ▸ h.among e' he'

theorem fuseGroup (h : Dictionary chunks entries) {k index rank : ℕ} {seen : List ChunkId}
    {group : List RetrievedChunk} (sub : group ⊆ chunks) :
  Dictionary chunks (fuseGroup k index rank seen group entries)
  := by
  induction group generalizing rank seen entries with
  | nil => exact h
  | cons chunk group ih =>
    obtain ⟨mem, sub⟩ := List.cons_subset.mp sub
    rw [Exact.fuseGroup]
    split_ifs
    · exact ih h sub
    · exact ih (h.count mem _ _) sub

theorem fuseGroups (h : Dictionary chunks entries) {k index : ℕ}
    {groups : List (List RetrievedChunk)} (sub : groups.flatten ⊆ chunks) :
  Dictionary chunks (fuseGroups k index groups entries)
  := by
  induction groups generalizing index entries with
  | nil => exact h
  | cons group groups ih =>
    rw [List.flatten_cons, List.append_subset] at sub
    exact ih (h.fuseGroup sub.1) sub.2

end Dictionary

section Ranked

variable (k : ℕ) (groups : List (List RetrievedChunk))

theorem dictionary : Dictionary groups.flatten (fuseGroups k 0 groups []) := by
  have start : Dictionary groups.flatten [] := ⟨List.nodup_nil, nofun⟩
  exact start.fuseGroups (List.Subset.refl _)

/-- The entries, when the loops have ended. -/
theorem of_mem_fuseGroups {e : Fused} (he : e ∈ fuseGroups k 0 groups []) :
  e.score = score k groups e.chunk.chunkId ∧
    ((toLex e.best : ℕ ×ₗ ℕ) : WithTop (ℕ ×ₗ ℕ)) = best groups e.chunk.chunkId
  := by
  obtain ⟨hscore, hbest, -⟩ := entryOf_fuseGroups k e.chunk.chunkId 0 groups []
  rw [(dictionary k groups).entryOf he] at hscore hbest
  constructor
  · exact hscore.trans (zero_add _)
  · exact hbest.trans (min_eq_right le_top)

theorem mem_fuseGroups_iff (id : ChunkId) :
  id ∈ (fuseGroups k 0 groups []).map (·.chunk.chunkId) ↔ id ∈ ids groups
  := by
  obtain ⟨-, -, hsome⟩ := entryOf_fuseGroups k id 0 groups []
  rw [← Dictionary.isSome_entryOf, hsome, or_iff_right nofun]

/-- What an entry is sorted by. -/
def Fused.key (e : Fused) : ℚᵒᵈ ×ₗ (ℕ ×ₗ ℕ) ×ₗ ChunkId :=
  toLex (OrderDual.toDual e.score, toLex (toLex e.best, e.chunk.chunkId))

theorem Fused.lt_iff (a b : Fused) : a.lt b = true ↔ a.key < b.key := by
  unfold Fused.lt Fused.key
  rw [Prod.Lex.toLex_lt_toLex, Prod.Lex.toLex_lt_toLex, OrderDual.toDual_lt_toDual,
    OrderDual.toDual_inj]
  by_cases scores : a.score = b.score
  · rw [if_pos (congrArg Neg.neg scores), or_iff_right (fun h => absurd scores h.ne'),
      and_iff_right scores]
    by_cases places : a.best = b.best
    · rw [if_pos places, decide_eq_true_eq, or_iff_right fun h => absurd places h.ne,
        and_iff_right (congrArg toLex places)]
    · rw [if_neg places, pairLt_iff, or_iff_left fun h => places (toLex.injective h.1)]
  · rw [if_neg fun h => scores (neg_injective h), decide_eq_true_eq, neg_lt_neg_iff,
      or_iff_left fun h => scores h.1]

/-- The entries in their order. -/
def ordered : List Fused :=
  (fuseGroups k 0 groups []).mergeSort fun a b => !b.lt a

/-- The ids in their order. -/
def ranking : List ChunkId :=
  (ordered k groups).map (·.chunk.chunkId)

theorem nodup_ranking : (ranking k groups).Nodup := by
  apply (((List.mergeSort_perm _ _).map _).nodup_iff).mpr
  exact (dictionary k groups).distinct

theorem mem_ranking_iff (id : ChunkId) : id ∈ ranking k groups ↔ id ∈ ids groups := by
  rw [← mem_fuseGroups_iff k groups]
  exact ((List.mergeSort_perm _ _).map _).mem_iff

/-- The ids are ordered by their keys. -/
theorem pairwise_ranking :
  (ranking k groups).Pairwise fun id id' => key k groups id < key k groups id'
  := by
  have not_lt (a b : Fused) : (!b.lt a) = true ↔ a.key ≤ b.key := by
    rw [Bool.not_eq_true', ← Bool.not_eq_true, Fused.lt_iff, not_lt]
  have sorted : (ordered k groups).Pairwise fun a b => (!b.lt a) = true := by
    apply List.pairwise_mergeSort
    · intro a b c hab hbc
      rw [not_lt] at *
      exact hab.trans hbc
    · intro a b
      rw [Bool.or_eq_true, not_lt, not_lt]
      exact le_total _ _
  have distinct : (ordered k groups).Pairwise fun a b => a.chunk.chunkId ≠ b.chunk.chunkId :=
    List.pairwise_map.mp (nodup_ranking k groups)
  apply List.pairwise_map.mpr
  apply (sorted.and distinct).imp_of_mem
  rintro a b ha hb ⟨le, ne⟩
  obtain ⟨ascore, abest⟩ := of_mem_fuseGroups k groups (List.mem_mergeSort.mp ha)
  obtain ⟨bscore, bbest⟩ := of_mem_fuseGroups k groups (List.mem_mergeSort.mp hb)
  have lt : a.key < b.key := by
    apply lt_of_le_of_ne ((not_lt a b).mp le)
    intro same
    exact ne (congrArg (fun x => (ofLex (ofLex x).2).2) same)
  unfold Fused.key at lt
  unfold key
  rw [Prod.Lex.toLex_lt_toLex, Prod.Lex.toLex_lt_toLex] at lt ⊢
  rw [← ascore, ← bscore, ← abest, ← bbest, WithTop.coe_lt_coe, WithTop.coe_inj]
  exact lt

end Ranked

/-! ### The floating point numbers -/

/-- The same chunks with the same places, whatever the scores are. -/
def Alike (entries : List Rag.Fused) (entries' : List Fused) : Prop :=
  List.Forall₂ (fun e e' => e.chunk = e'.chunk ∧ e.best = e'.best) entries entries'

namespace Alike

variable {entries : List Rag.Fused} {entries' : List Fused}

theorem count (h : Alike entries entries') (chunk : RetrievedChunk) (share : PyFloat) (share' : ℚ)
    (place : ℕ × ℕ) :
  Alike (Rag.count chunk share place entries) (count chunk share' place entries')
  := by
  induction h with
  | nil => exact .cons ⟨rfl, rfl⟩ .nil
  | @cons e e' entries entries' first rest ih =>
    rw [Rag.count, Exact.count]
    by_cases same : e.chunk.chunkId = chunk.chunkId
    · have same' : e'.chunk.chunkId = chunk.chunkId := first.1 ▸ same
      rw [if_pos same, if_pos same']
      refine .cons ⟨first.1, ?_⟩ rest
      dsimp only
      rw [first.2]
    · have other : e'.chunk.chunkId ≠ chunk.chunkId := first.1 ▸ same
      rw [if_neg same, if_neg other]
      exact .cons first ih

theorem fuseGroup (h : Alike entries entries') {k index rank : ℕ} {seen : List ChunkId}
    {group : List RetrievedChunk} {after : List Rag.Fused}
    (hfuse : Rag.fuseGroup k index rank seen group entries = some after) :
  Alike after (fuseGroup k index rank seen group entries')
  := by
  induction group generalizing rank seen entries entries' with
  | nil =>
    cases hfuse
    exact h
  | cons chunk chunks ih =>
    rw [Rag.fuseGroup] at hfuse
    rw [Exact.fuseGroup]
    split_ifs at hfuse ⊢ with known
    · exact ih h hfuse
    · obtain ⟨share, -, hfuse⟩ := Option.bind_eq_some_iff.mp hfuse
      exact ih (h.count chunk share _ _) hfuse

end Alike

/-! ### The scores of the input -/

/-- A chunk without its score. -/
def forget (chunk : RetrievedChunk) : RetrievedChunk :=
  chunk.scored (.finite 0)

def Fused.forget (e : Fused) : Fused :=
  { e with chunk := Exact.forget e.chunk }

theorem map_forget_count (chunk : RetrievedChunk) (share : ℚ) (place : ℕ × ℕ)
    (entries : List Fused) :
  (count chunk share place entries).map Fused.forget =
    count (forget chunk) share place (entries.map Fused.forget)
  := by
  induction entries with
  | nil => rfl
  | cons e entries ih =>
    rw [count, List.map_cons, count]
    by_cases same : e.chunk.chunkId = chunk.chunkId
    · have same' : e.forget.chunk.chunkId = (forget chunk).chunkId := same
      rw [if_pos same, if_pos same']
      rfl
    · have other : e.forget.chunk.chunkId ≠ (forget chunk).chunkId := same
      rw [if_neg same, if_neg other, List.map_cons, ih]

theorem map_forget_fuseGroup (k index rank : ℕ) (seen : List ChunkId) (group : List RetrievedChunk)
    (entries : List Fused) :
  (fuseGroup k index rank seen group entries).map Fused.forget =
    fuseGroup k index rank seen (group.map forget) (entries.map Fused.forget)
  := by
  induction group generalizing rank seen entries with
  | nil => rfl
  | cons chunk chunks ih =>
    rw [fuseGroup, List.map_cons, fuseGroup]
    have same : (forget chunk).chunkId = chunk.chunkId := rfl
    rw [same]
    split_ifs
    · exact ih _ _ _
    · rw [ih, map_forget_count]

theorem map_forget_fuseGroups (k index : ℕ) (groups : List (List RetrievedChunk))
    (entries : List Fused) :
  (fuseGroups k index groups entries).map Fused.forget =
    fuseGroups k index (groups.map (List.map forget)) (entries.map Fused.forget)
  := by
  induction groups generalizing index entries with
  | nil => rfl
  | cons group groups ih =>
    rw [fuseGroups, List.map_cons, fuseGroups, ih, map_forget_fuseGroup]

/-- The scores of the candidates do not matter. -/
theorem fuseCandidates_forget (groups : List (List RetrievedChunk)) (k limit : ℕ) :
  fuseCandidates (groups.map (List.map forget)) k limit = fuseCandidates groups k limit
  := by
  have sorted : (ordered k groups).map Fused.forget = ordered k (groups.map (List.map forget)) := by
    unfold ordered
    have same : ∀ a ∈ fuseGroups k 0 groups [], ∀ b ∈ fuseGroups k 0 groups [],
        (!b.lt a) = !b.forget.lt a.forget := fun _ _ _ _ => rfl
    rw [List.map_mergeSort (s := fun a b => !b.lt a) same, map_forget_fuseGroups]
    rfl
  change ((ordered k _).take limit).map _ = ((ordered k groups).take limit).map _
  rw [← sorted, ← List.map_take, List.map_map]
  rfl

/-! ### A chunk that moves up -/

theorem rankFrom_eq (id : ChunkId) (rank : ℕ) (group : List RetrievedChunk) :
  rankFrom id rank group =
    if id ∈ group.map (·.chunkId) then some (rank + (group.map (·.chunkId)).idxOf id) else none
  := by
  induction group generalizing rank with
  | nil => rfl
  | cons chunk chunks ih =>
    rw [rankFrom, List.map_cons]
    by_cases same : chunk.chunkId = id
    · rw [if_pos same, same, if_pos List.mem_cons_self, List.idxOf_cons_self]
      rfl
    · rw [if_neg same, ih, List.idxOf_cons_ne _ same, Nat.add_assoc, Nat.add_comm 1]
      have later : id ∈ chunk.chunkId :: chunks.map (·.chunkId) ↔ id ∈ chunks.map (·.chunkId) :=
        List.mem_cons.trans (or_iff_right fun h => same h.symm)
      simp only [later]

/-- One occurrence of a chunk stands earlier in a group, the others are in their order. -/
def Moves (id : ChunkId) (group group' : List RetrievedChunk) : Prop :=
  ∃ front between back chunk, chunk.chunkId = id ∧ group = front ++ between ++ chunk :: back ∧
    group' = front ++ chunk :: between ++ back

/-- A rank that is not later, if there is one at all. -/
def NotLater (rank rank' : Option ℕ) : Prop :=
  ∀ r', rank' = some r' → ∃ r, rank = some r ∧ r ≤ r'

theorem notLater_of_idxOf_le {id : ChunkId} {group group' : List RetrievedChunk}
    (same : (group.map (·.chunkId)).Perm (group'.map (·.chunkId)))
    (le : (group.map (·.chunkId)).idxOf id ≤ (group'.map (·.chunkId)).idxOf id) :
  NotLater (firstRank id group) (firstRank id group')
  := by
  unfold firstRank
  rw [rankFrom_eq, rankFrom_eq]
  intro r' h
  split_ifs at h with mem
  cases h
  rw [if_pos (same.mem_iff.mpr mem)]
  exact ⟨_, rfl, Nat.add_le_add_left le 1⟩

section Idx

variable {X Y Z : List ChunkId} {id : ChunkId}

theorem idxOf_moved_le : (X ++ id :: Y ++ Z).idxOf id ≤ (X ++ Y ++ id :: Z).idxOf id := by
  rw [List.append_assoc, List.append_assoc]
  by_cases front : id ∈ X
  · rw [List.idxOf_append_of_mem front, List.idxOf_append_of_mem front]
  · rw [List.idxOf_append_of_notMem front, List.idxOf_append_of_notMem front, List.cons_append,
      List.idxOf_cons_self]
    omega

theorem idxOf_passed_le {other : ChunkId} (ne : id ≠ other) :
  (X ++ Y ++ id :: Z).idxOf other ≤ (X ++ id :: Y ++ Z).idxOf other
  := by
  rw [List.append_assoc, List.append_assoc]
  by_cases front : other ∈ X
  · rw [List.idxOf_append_of_mem front, List.idxOf_append_of_mem front]
  · rw [List.idxOf_append_of_notMem front, List.idxOf_append_of_notMem front, List.cons_append,
      List.idxOf_cons_ne _ ne]
    by_cases between : other ∈ Y
    · rw [List.idxOf_append_of_mem between, List.idxOf_append_of_mem between]
      omega
    · rw [List.idxOf_append_of_notMem between, List.idxOf_append_of_notMem between,
        List.idxOf_cons_ne _ ne]
      omega

end Idx

namespace Moves

variable {id : ChunkId} {group group' : List RetrievedChunk}

theorem perm (h : Moves id group group') : group'.Perm group := by
  obtain ⟨front, between, back, chunk, -, rfl, rfl⟩ := h
  rw [List.append_assoc, List.append_assoc]
  exact (List.perm_middle.symm).append_left front

theorem notLater (h : Moves id group group') :
  NotLater (firstRank id group') (firstRank id group)
  := by
  apply notLater_of_idxOf_le (h.perm.map _)
  obtain ⟨front, between, back, chunk, rfl, rfl, rfl⟩ := h
  simp only [List.map_append, List.map_cons]
  exact idxOf_moved_le

theorem notLater_of_ne (h : Moves id group group') {other : ChunkId} (ne : id ≠ other) :
  NotLater (firstRank other group) (firstRank other group')
  := by
  apply notLater_of_idxOf_le (h.perm.symm.map _)
  obtain ⟨front, between, back, chunk, rfl, rfl, rfl⟩ := h
  simp only [List.map_append, List.map_cons]
  exact idxOf_passed_le ne

end Moves

theorem share_nonneg (k : ℕ) (rank : Option ℕ) : 0 ≤ share k rank := by
  cases rank with
  | none => exact le_refl 0
  | some rank =>
    unfold share
    positivity

theorem share_le (k : ℕ) {rank rank' : Option ℕ} (h : NotLater rank rank')
    (positive : ∀ r ∈ rank, 0 < r) :
  share k rank' ≤ share k rank
  := by
  cases rank' with
  | none => exact share_nonneg k rank
  | some r' =>
    obtain ⟨r, rfl, le⟩ := h r' rfl
    have positive : (0 : ℚ) < k + r := by
      have := positive r rfl
      positivity
    have le : (k + r : ℚ) ≤ k + r' := by
      gcongr
    exact one_div_le_one_div_of_le positive le

theorem place_le (index : ℕ) {rank rank' : Option ℕ} (h : NotLater rank rank') :
  place index rank ≤ place index rank'
  := by
  cases rank' with
  | none => exact le_top
  | some r' =>
    obtain ⟨r, rfl, le⟩ := h r' rfl
    exact WithTop.coe_le_coe.mpr (Prod.Lex.toLex_mono ⟨le, le_refl index⟩)

theorem firstRank_pos {id : ChunkId} {group : List RetrievedChunk} :
  ∀ r ∈ firstRank id group, 0 < r
  := by
  intro r hr
  unfold firstRank at hr
  rw [rankFrom_eq] at hr
  split_ifs at hr
  · cases hr
    omega
  · cases hr

/-- The key of a chunk that has no later rank in any group. -/
theorem key_le (k : ℕ) {id : ChunkId} {groups groups' : List (List RetrievedChunk)}
    (h : List.Forall₂ (fun group group' => NotLater (firstRank id group) (firstRank id group'))
      groups groups') :
  key k groups id ≤ key k groups' id
  := by
  apply Prod.Lex.toLex_mono
  constructor
  · change score k groups' id ≤ score k groups id
    induction h with
    | nil => exact le_refl _
    | cons first _ ih => exact add_le_add (share_le k first firstRank_pos) ih
  · apply Prod.Lex.toLex_mono
    constructor
    · change bestFrom id 0 groups ≤ bestFrom id 0 groups'
      generalize 0 = index
      induction h generalizing index with
      | nil => exact le_refl _
      | cons first _ ih => exact min_le_min (place_le index first) (ih (index + 1))
    · exact le_refl id

/-! ### The candidates -/

/-- The ids of the candidates. -/
theorem map_chunkId_fuseCandidates (groups : List (List RetrievedChunk)) (k limit : ℕ) :
  (fuseCandidates groups k limit).map (·.chunkId) = (ranking k groups).take limit
  := by
  unfold fuseCandidates ranking
  dsimp only
  rw [List.map_map, ← List.map_take]
  rfl

/-- What the fusion returns: the first ones of the chunks by their keys. -/
structure Fuses (groups : List (List RetrievedChunk)) (k limit : ℕ)
    (candidates : List RetrievedChunk) : Prop where
  length : candidates.length = min limit (ids groups).dedup.length
  distinct : (candidates.map (·.chunkId)).Nodup
  scored : ∀ c ∈ candidates, ∃ chunk ∈ groups.flatten,
    c = chunk.scored (.finite (score k groups chunk.chunkId))
  ordered : candidates.Pairwise fun c c' => key k groups c.chunkId < key k groups c'.chunkId
  first : ∀ c ∈ candidates, ∀ id ∈ ids groups, id ∉ candidates.map (·.chunkId) →
    key k groups c.chunkId < key k groups id

theorem fuses_fuseCandidates (groups : List (List RetrievedChunk)) (k limit : ℕ) :
  Fuses groups k limit (fuseCandidates groups k limit)
  := by
  have mapped := map_chunkId_fuseCandidates groups k limit
  have nodup := nodup_ranking k groups
  have sorted := pairwise_ranking k groups
  constructor
  · have count : (ranking k groups).length = (ids groups).dedup.length := by
      apply List.Perm.length_eq
      apply (List.perm_ext_iff_of_nodup nodup (List.nodup_dedup _)).mpr
      intro id
      rw [List.mem_dedup, mem_ranking_iff]
    have lengths := congrArg List.length mapped
    rwa [List.length_map, List.length_take, count] at lengths
  · rw [mapped]
    exact nodup.sublist (List.take_sublist _ _)
  · intro c hc
    obtain ⟨e, he, rfl⟩ := List.mem_map.mp hc
    have he : e ∈ fuseGroups k 0 groups [] := List.mem_mergeSort.mp (List.mem_of_mem_take he)
    refine ⟨e.chunk, (dictionary k groups).among e he, ?_⟩
    rw [(of_mem_fuseGroups k groups he).1]
  · have part := sorted.sublist (List.take_sublist limit (ranking k groups))
    rw [← mapped] at part
    apply (List.pairwise_map.mp part).imp
    exact fun lt => lt
  · intro c hc id hid new
    have hc : c.chunkId ∈ (ranking k groups).take limit := by
      rw [← mapped]
      exact List.mem_map_of_mem hc
    rw [mapped] at new
    have hid : id ∈ (ranking k groups).drop limit := by
      have mem := (mem_ranking_iff k groups id).mpr hid
      rw [← List.take_append_drop limit (ranking k groups), List.mem_append] at mem
      exact mem.resolve_left new
    rw [← List.take_append_drop limit (ranking k groups)] at sorted
    exact (List.pairwise_append.mp sorted).2.2 _ hc _ hid

/-- A chunk that moves up in a group does not move down among the candidates. -/
theorem fuseCandidates_mono {id : ChunkId} {group group' : List RetrievedChunk}
    (moves : Moves id group group') (before after : List (List RetrievedChunk)) (k limit : ℕ)
    {i : ℕ} (h : ((fuseCandidates (before ++ group :: after) k limit).map (·.chunkId))[i]? = some id) :
  ∃ j ≤ i, ((fuseCandidates (before ++ group' :: after) k limit).map (·.chunkId))[j]? = some id
  := by
  have same (x : ChunkId) : x ∈ ids (before ++ group' :: after) ↔ x ∈ ids (before ++ group :: after) := by
    unfold ids
    simp only [List.flatten_append, List.flatten_cons, List.map_append, List.mem_append,
      (moves.perm.map _).mem_iff]
  have perm : (ranking k (before ++ group :: after)).Perm (ranking k (before ++ group' :: after)) := by
    apply (List.perm_ext_iff_of_nodup (nodup_ranking _ _) (nodup_ranking _ _)).mpr
    intro x
    rw [mem_ranking_iff, mem_ranking_iff, same]
  have unmoved (x : ChunkId) (groups : List (List RetrievedChunk)) :
      List.Forall₂ (fun g g' => NotLater (firstRank x g) (firstRank x g')) groups groups :=
    List.forall₂_same.mpr fun g _ r hr => ⟨r, hr, Nat.le_refl r⟩
  have up : key k (before ++ group' :: after) id ≤ key k (before ++ group :: after) id := by
    apply key_le
    exact List.rel_append (unmoved id before) (.cons moves.notLater (unmoved id after))
  have down (x : ChunkId) (ne : id ≠ x) :
      key k (before ++ group :: after) x ≤ key k (before ++ group' :: after) x := by
    apply key_le
    exact List.rel_append (unmoved x before) (.cons (moves.notLater_of_ne ne) (unmoved x after))
  rw [map_chunkId_fuseCandidates] at h ⊢
  have below : i < limit := by
    by_contra beyond
    rw [List.getElem?_take_eq_none (Nat.le_of_not_lt beyond)] at h
    cases h
  rw [List.getElem?_take_of_lt below] at h
  have mem := List.mem_of_getElem? h
  have le := Ranking.idxOf_le (fun _ _ => lt_asymm) (fun _ _ => lt_asymm)
    (pairwise_ranking k (before ++ group :: after)) (pairwise_ranking k (before ++ group' :: after))
    perm mem (by
      intro x _ lt
      have ne : id ≠ x := by
        rintro rfl
        exact lt_irrefl _ lt
      exact (down x ne).trans_lt (lt.trans_le up))
  have place : (ranking k (before ++ group :: after)).idxOf id = i := by
    obtain ⟨bound, rfl⟩ := List.getElem?_eq_some_iff.mp h
    exact (nodup_ranking _ _).idxOf_getElem i bound
  rw [place] at le
  refine ⟨_, le, ?_⟩
  rw [List.getElem?_take_of_lt (lt_of_le_of_lt le below)]
  exact List.getElem?_idxOf (perm.mem_iff.mp mem)

/-- The fusion of ranked lists by their reciprocal ranks. -/
theorem fuseCandidates_ranks (groups : List (List RetrievedChunk)) (k limit : ℕ) :
  Fuses groups k limit (fuseCandidates groups k limit) ∧
    (∀ groups', groups'.map (List.map forget) = groups.map (List.map forget) →
      fuseCandidates groups' k limit = fuseCandidates groups k limit) ∧
    ∀ before group group' after (id : ChunkId) (i : ℕ), groups = before ++ group :: after →
      Moves id group group' → ((fuseCandidates groups k limit).map (·.chunkId))[i]? = some id →
        ∃ j ≤ i, ((fuseCandidates (before ++ group' :: after) k limit).map (·.chunkId))[j]? = some id
  := by
  refine ⟨fuses_fuseCandidates groups k limit, ?_, ?_⟩
  · intro groups' same
    rw [← fuseCandidates_forget groups', same, fuseCandidates_forget]
  · rintro before group group' after id i rfl moves h
    exact fuseCandidates_mono moves before after k limit h

end Lumina.Rag.Exact
