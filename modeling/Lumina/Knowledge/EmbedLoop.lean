import Lumina.Knowledge.System
import Mathlib.Data.List.Nodup

/-!
# The loop over the batches of an embedding

The loop of `_embed_pending`, with nothing else going on, against a provider that answers its calls
under the names of a sequence.  When a call reports a name that is not the one by which the pending
chunks were asked for, the loop asks again under the new name and begins anew.  So it goes on as
long as the name keeps changing.  A call that reports no name stores its batch under the empty one,
and the batch is not asked for again unless a new name is reported later.
-/

namespace Lumina.Knowledge.EmbeddingService

open Interleaving

variable (cfg : Settings) (names : ℕ → String)

/-- Whether the operation is a call of the provider. -/
def isCall : Op → Bool
  | .embed _ _ => true
  | _ => false

/-- The answer of an operation after `calls` calls of the provider. -/
def answer (calls : ℕ) : Op → Answer
  | .embed _ _ => .reported (names calls)
  | _ => .done

/-- The run of a program that nothing interferes with, and the number of its calls of the provider;
nothing if the model does not follow it to its end. -/
def runAlone {α : Type} : Prog α → Shared → ℕ → Option (Except Exn α × Shared × ℕ)
  | .pure a, s, calls => some (.ok a, s, calls)
  | .raise e, s, calls => some (.error e, s, calls)
  | .call op next, s, calls =>
      (s.perform cfg none op (answer names calls op)).bind fun (r, s') =>
        runAlone (next r) s' (if isCall op then calls + 1 else calls)

/-- `_embed_pending`, followed for a number of batches. -/
def embeds (target : EmbedTarget) (s : Shared) (batches : ℕ) :
    Option (Except Exn ℕ × Shared × ℕ) :=
  runAlone cfg names (embedPending batches target) s 0

/-- `_resolved_model` -/
def resolved (s : Shared) (requested : String) : String :=
  let cached := (s.aliases.lookup requested).getD ""
  if cached = "" then requested else cached

/-- The name that was reported last, or the one by which the chunks were asked for at first. -/
def lastName (first : String) : ℕ → String
  | 0 => first
  | calls + 1 => if names calls = "" then lastName first calls else names calls

/-- A call reports another name than the last one. -/
def IsNew (first : String) (call : ℕ) : Prop :=
  names call ≠ "" ∧ names call ≠ lastName names first call

/-- A call reports no name, and stores its batch under another one than the last. -/
def Strays (first : String) (call : ℕ) : Prop :=
  names call = "" ∧ lastName names first call ≠ ""

/-- Every active chunk of the version has an embedding under the model. -/
def Complete (target : EmbedTarget) (model : String) (db : Db) : Prop :=
  ∀ c ∈ ChunkRepository.activeForVersion db target.documentId target.docVersion,
    EmbeddingRepository.embedded db model target.embeddingVersion c.id

/-- The call after so many other ones is made. -/
def Called (target : EmbedTarget) (s : Shared) (calls : ℕ) : Prop :=
  embeds cfg names target s calls = none

/-- The loop ends, and when it returns every active chunk has an embedding under the last name. -/
def TerminatesAndCompletes (target : EmbedTarget) (s : Shared) : Prop :=
  (∃ batches, (embeds cfg names target s batches).isSome) ∧
    ∀ batches embedded s' calls,
      embeds cfg names target s batches = some (.ok embedded, s', calls) →
        Complete target (lastName names (resolved s target.model) calls) s'.db

/-! ### The loop, call by call -/

/-- The variables of the loop, and what it acts on. -/
structure Loop where
  shared : Shared
  lookupModel : String
  pending : List (ChunkId × String)
  embedded : ℕ
  calls : ℕ

namespace Loop

variable (target : EmbedTarget)

/-- `_pending_chunks` -/
def pendingChunks (db : Db) (model : String) : List (ChunkId × String) :=
  withoutEmbedding db (ChunkRepository.activeForVersion db target.documentId target.docVersion)
    model target.embeddingVersion

/-- The database with the rows of a batch. -/
def stored (db : Db) (chunks : List ChunkId) (model : String) : Db :=
  { db with
    embeddings := db.embeddings ++
      (chunks.filter fun id =>
        !EmbeddingRepository.embedded db model target.embeddingVersion id).map
          fun id => ⟨id, model, target.embeddingVersion⟩ }

/-- One pass through the body, with the name that is reported. -/
def next (name : String) (l : Loop) : Loop :=
  let batch := l.pending.take embedBatchSize
  let db := stored target l.shared.db (batch.map (·.1)) name
  if name ≠ "" ∧ name ≠ l.lookupModel then
    { shared := { l.shared with db := db, aliases := (target.model, name) :: l.shared.aliases }
      lookupModel := name
      pending := pendingChunks target db name
      embedded := l.embedded + batch.length
      calls := l.calls + 1 }
  else
    { l with
      shared := { l.shared with db := db }
      pending := l.pending.drop embedBatchSize
      embedded := l.embedded + batch.length
      calls := l.calls + 1 }

def start (s : Shared) : Loop where
  shared := s
  lookupModel := resolved s target.model
  pending := pendingChunks target s.db (resolved s target.model)
  embedded := 0
  calls := 0

/-- The loop after another call, unless it is at its end. -/
def step (l : Loop) : Loop :=
  if l.pending = [] then l else next target (names l.calls) l

/-- What the loop counts on: the pending chunks exist, and are pending once. -/
structure Fits (l : Loop) : Prop where
  exist : ∀ chunk ∈ l.pending, ∃ c ∈ l.shared.db.chunks, c.id = chunk.1
  nodup : (l.pending.map (·.1)).Nodup

end Loop

section Running

variable {cfg names} {α : Type} {target : EmbedTarget}

/-- A program goes on with the reply to its first operation. -/
theorem runAlone_perform_bind {op : Op} {r : op.Reply} {s s' : Shared} {calls : ℕ}
    (h : s.perform cfg none op (answer names calls op) = some (.ok r, s')) (f : op.Reply → Prog α) :
  runAlone cfg names (perform op >>= f) s calls =
    runAlone cfg names (f r) s' (if isCall op then calls + 1 else calls)
  := by
  change (s.perform cfg none op (answer names calls op)).bind _ = _
  rw [h]
  rfl

theorem upsert_pending {l : Loop} (target : EmbedTarget) (fits : l.Fits) (name : String) :
  EmbeddingRepository.upsert ((l.pending.take embedBatchSize).map (·.1)) name
      target.embeddingVersion l.shared.db =
    .ok (((l.pending.take embedBatchSize).map (·.1)).length,
      Loop.stored target l.shared.db ((l.pending.take embedBatchSize).map (·.1)) name)
  := by
  unfold EmbeddingRepository.upsert
  rw [if_neg, if_neg]
  · rfl
  · rw [not_not]
    exact fits.nodup.sublist ((List.take_sublist _ _).map _)
  · rw [Bool.not_eq_true, List.any_eq_false]
    intro id hid
    obtain ⟨chunk, hchunk, rfl⟩ := List.mem_map.mp hid
    obtain ⟨c, hc, same⟩ := fits.exist chunk (List.mem_of_mem_take hchunk)
    simp only [Bool.not_eq_true', Bool.not_eq_false, List.any_eq_true, decide_eq_true_eq]
    exact ⟨c, hc, same⟩

/-- The rest of the loop after one call. -/
theorem runAlone_embedBatches_succ {l : Loop} (fits : l.Fits) (more : l.pending ≠ [])
    (batches : ℕ) :
  runAlone cfg names (embedBatches target (batches + 1) l.lookupModel l.pending l.embedded)
      l.shared l.calls =
    runAlone cfg names (embedBatches target batches (l.step names target).lookupModel
      (l.step names target).pending (l.step names target).embedded)
        (l.step names target).shared (l.step names target).calls
  := by
  have goesOn : l.step names target = Loop.next target (names l.calls) l := if_neg more
  rw [goesOn]
  have upserts : l.shared.perform cfg none
      (.tx (.upsert ((l.pending.take embedBatchSize).map (·.1)) (names l.calls)
        target.embeddingVersion)) .done =
      some (.ok ((l.pending.take embedBatchSize).map (·.1)).length,
        { l.shared with
          db := Loop.stored target l.shared.db ((l.pending.take embedBatchSize).map (·.1))
            (names l.calls) }) := by
    have done : transact cfg l.shared.now (.upsert ((l.pending.take embedBatchSize).map (·.1))
      (names l.calls) target.embeddingVersion) l.shared.db = _ :=
        upsert_pending target fits (names l.calls)
    unfold Shared.perform
    dsimp only
    rw [done]
    rfl
  have called : embedBatches target (batches + 1) l.lookupModel l.pending l.embedded = (do
      let batch := l.pending.take embedBatchSize
      let model ← perform (.embed (batch.map (·.2)) target.model)
      let _ ← tx (.upsert (batch.map (·.1)) model target.embeddingVersion)
      if model ≠ "" ∧ model ≠ l.lookupModel then
        let _ ← perform (.rememberResolution target.model model)
        let pending ← EmbeddingService.pendingChunks target model
        embedBatches target batches model pending (l.embedded + batch.length)
      else
        embedBatches target batches l.lookupModel (l.pending.drop embedBatchSize)
          (l.embedded + batch.length)) := by
    obtain ⟨chunk, chunks, hpending⟩ := List.exists_cons_of_ne_nil more
    rw [hpending]
    rfl
  rw [called]
  dsimp only
  refine (runAlone_perform_bind rfl _).trans ?_
  refine (runAlone_perform_bind upserts _).trans ?_
  unfold Loop.next
  by_cases changed : names l.calls ≠ "" ∧ names l.calls ≠ l.lookupModel
  · rw [if_pos changed, if_pos changed]
    refine (runAlone_perform_bind rfl _).trans ?_
    exact runAlone_perform_bind rfl _
  · rw [if_neg changed, if_neg changed]
    rfl

/-- The rest of the loop, followed for a number of calls. -/
theorem runAlone_embedBatches {l : Loop} (fits : ∀ n, ((Loop.step names target)^[n] l).Fits)
    (batches : ℕ) :
  runAlone cfg names (embedBatches target batches l.lookupModel l.pending l.embedded) l.shared
      l.calls =
    let l' := (Loop.step names target)^[batches] l
    if l'.pending = [] then some (.ok l'.embedded, l'.shared, l'.calls) else none
  := by
  induction batches generalizing l with
  | zero =>
    by_cases ends : l.pending = []
    · refine Eq.trans ?_ (if_pos ends).symm
      rw [ends]
      rfl
    · obtain ⟨chunk, chunks, hpending⟩ := List.exists_cons_of_ne_nil ends
      refine Eq.trans ?_ (if_neg ends).symm
      rw [hpending]
      rfl
  | succ batches ih =>
    by_cases ends : l.pending = []
    · have fixed : Loop.step names target l = l := if_pos ends
      rw [Function.iterate_fixed fixed]
      refine Eq.trans ?_ (if_pos ends).symm
      rw [ends]
      rfl
    · have now : l.Fits := fits 0
      rw [runAlone_embedBatches_succ now ends]
      exact ih fun n => fits (n + 1)

end Running

/-! ### What holds of the loop -/

namespace Loop

variable {names} {target : EmbedTarget} {base : List Chunk} {l : Loop} {db : Db}

/-- The chunks that the loop is about. -/
def activeIn (target : EmbedTarget) (base : List Chunk) : List Chunk :=
  (base.filter fun c => c.documentId = target.documentId && c.docVersion = target.docVersion &&
    !c.superseded).insertionSort fun a b => a.row.seq ≤ b.row.seq

theorem activeForVersion_eq (h : db.chunks = base) :
  ChunkRepository.activeForVersion db target.documentId target.docVersion = activeIn target base
  := by
  unfold ChunkRepository.activeForVersion activeIn
  rw [h]

theorem activeIn_subset {c : Chunk} (h : c ∈ activeIn target base) : c ∈ base :=
  List.mem_of_mem_filter ((List.mem_insertionSort _).mp h)

theorem nodup_activeIn (target : EmbedTarget) (unique : (base.map (·.id)).Nodup) :
  ((activeIn target base).map (·.id)).Nodup
  := by
  apply ((List.perm_insertionSort _ _).map _).nodup_iff.mpr
  apply List.Sublist.nodup _ unique
  apply List.filter_sublist.map

theorem mem_pendingChunks (h : db.chunks = base) {model : String} {chunk : ChunkId × String} :
  chunk ∈ pendingChunks target db model ↔ ∃ c ∈ activeIn target base,
    EmbeddingRepository.embedded db model target.embeddingVersion c.id = false ∧
      (c.id, c.row.content) = chunk
  := by
  unfold pendingChunks withoutEmbedding EmbeddingRepository.chunksWithoutEmbedding
  rw [activeForVersion_eq h, List.mem_map]
  constructor
  · rintro ⟨c, hc, same⟩
    rw [List.mem_filter, decide_eq_true_eq, List.mem_filter, Bool.not_eq_true'] at hc
    exact ⟨c, hc.1, hc.2.2, same⟩
  · rintro ⟨c, hc, missing, same⟩
    refine ⟨c, ?_, same⟩
    rw [List.mem_filter, decide_eq_true_eq, List.mem_filter, Bool.not_eq_true']
    exact ⟨hc, List.mem_map_of_mem hc, missing⟩

theorem nodup_pendingChunks (unique : (base.map (·.id)).Nodup) (h : db.chunks = base)
    (model : String) :
  ((pendingChunks target db model).map (·.1)).Nodup
  := by
  unfold pendingChunks withoutEmbedding
  rw [activeForVersion_eq h]
  dsimp only
  rw [List.map_map]
  apply List.Sublist.nodup _ (nodup_activeIn target unique)
  apply List.filter_sublist.map

theorem embedded_iff {model : String} {version : ℕ} {id : ChunkId} :
  EmbeddingRepository.embedded db model version id = true ↔ ⟨id, model, version⟩ ∈ db.embeddings
  := by
  unfold EmbeddingRepository.embedded
  simp only [List.any_eq_true, Bool.and_eq_true, decide_eq_true_eq]
  constructor
  · rintro ⟨⟨_, _, _⟩, he, ⟨rfl, rfl⟩, rfl⟩
    exact he
  · intro he
    exact ⟨_, he, ⟨rfl, rfl⟩, rfl⟩

/-- What has an embedding after a batch has been stored. -/
theorem embedded_stored {ids : List ChunkId} {name model : String} {id : ChunkId} :
  EmbeddingRepository.embedded (stored target db ids name) model target.embeddingVersion id = true ↔
    EmbeddingRepository.embedded db model target.embeddingVersion id = true ∨
      (model = name ∧ id ∈ ids)
  := by
  rw [embedded_iff, embedded_iff]
  unfold stored
  rw [List.mem_append, List.mem_map]
  constructor
  · rintro (old | ⟨id', hid, same⟩)
    · exact Or.inl old
    · cases same
      exact Or.inr ⟨rfl, (List.mem_filter.mp hid).1⟩
  · rintro (old | ⟨rfl, hid⟩)
    · exact Or.inl old
    · cases has : EmbeddingRepository.embedded db model target.embeddingVersion id with
      | true => exact Or.inl (embedded_iff.mp has)
      | false =>
        right
        refine ⟨id, List.mem_filter.mpr ⟨hid, ?_⟩, rfl⟩
        rw [has]
        rfl

/-- What holds between the calls. -/
structure Sound (target : EmbedTarget) (base : List Chunk) (l : Loop) : Prop where
  chunks : l.shared.db.chunks = base
  nodup : (l.pending.map (·.1)).Nodup
  active : ∀ chunk ∈ l.pending, ∃ c ∈ activeIn target base, c.id = chunk.1
  missing : ∀ chunk ∈ l.pending, EmbeddingRepository.embedded l.shared.db l.lookupModel
    target.embeddingVersion chunk.1 = false

/-- Every active chunk is pending or has an embedding under the name it is asked for by. -/
def Covered (target : EmbedTarget) (base : List Chunk) (l : Loop) : Prop :=
  ∀ c ∈ activeIn target base, c.id ∈ l.pending.map (·.1) ∨
    EmbeddingRepository.embedded l.shared.db l.lookupModel target.embeddingVersion c.id = true

/-- An active chunk is no longer pending and has no embedding under that name. -/
def Lost (target : EmbedTarget) (l : Loop) (c : Chunk) : Prop :=
  c.id ∉ l.pending.map (·.1) ∧
    EmbeddingRepository.embedded l.shared.db l.lookupModel target.embeddingVersion c.id = false

theorem Sound.fits (h : Sound target base l) : l.Fits := by
  constructor
  · intro chunk hchunk
    obtain ⟨c, hc, same⟩ := h.active chunk hchunk
    rw [h.chunks]
    exact ⟨c, activeIn_subset hc, same⟩
  · exact h.nodup

section Asked

variable (unique : (base.map (·.id)).Nodup) (h : l.shared.db.chunks = base)
  (asked : l.pending = pendingChunks target l.shared.db l.lookupModel)
include h asked

include unique in
/-- When the pending chunks have just been asked for, they are those that are missing. -/
theorem sound_of_asked : Sound target base l := by
  constructor
  · exact h
  · rw [asked]
    exact nodup_pendingChunks unique h _
  · intro chunk hchunk
    rw [asked] at hchunk
    obtain ⟨c, hc, -, rfl⟩ := (mem_pendingChunks h).mp hchunk
    exact ⟨c, hc, rfl⟩
  · intro chunk hchunk
    rw [asked] at hchunk
    obtain ⟨c, hc, missing, rfl⟩ := (mem_pendingChunks h).mp hchunk
    exact missing

theorem covered_of_asked : Covered target base l := by
  intro c hc
  cases has : EmbeddingRepository.embedded l.shared.db l.lookupModel target.embeddingVersion
      c.id with
  | true => exact Or.inr rfl
  | false =>
    left
    rw [asked]
    exact List.mem_map_of_mem ((mem_pendingChunks h).mpr ⟨c, hc, has, rfl⟩)

end Asked

/-! ### One call -/

section Next

variable {name : String}

/-- A new name: the chunks are asked for again. -/
theorem next_of_new (target : EmbedTarget) (new : name ≠ "" ∧ name ≠ l.lookupModel) :
  (next target name l).lookupModel = name ∧
    (next target name l).pending = pendingChunks target (next target name l).shared.db name
  := by
  unfold next
  rw [if_pos new]
  exact ⟨rfl, rfl⟩

/-- No new name: the batch is stored, and the next one is up. -/
theorem next_of_not_new (target : EmbedTarget) (old : ¬ (name ≠ "" ∧ name ≠ l.lookupModel)) :
  (next target name l).lookupModel = l.lookupModel ∧
    (next target name l).pending = l.pending.drop embedBatchSize
  := by
  unfold next
  rw [if_neg old]
  exact ⟨rfl, rfl⟩

theorem next_db (target : EmbedTarget) (name : String) (l : Loop) :
  (next target name l).shared.db =
    stored target l.shared.db ((l.pending.take embedBatchSize).map (·.1)) name
  := by
  unfold next
  dsimp only
  split
  · rfl
  · rfl

theorem next_calls (target : EmbedTarget) (name : String) (l : Loop) :
  (next target name l).calls = l.calls + 1
  := by
  unfold next
  dsimp only
  split
  · rfl
  · rfl

/-- What is left is not in the batch. -/
theorem Sound.not_mem_batch (h : Sound target base l) {chunk : ChunkId × String}
    (hchunk : chunk ∈ l.pending.drop embedBatchSize) :
  chunk.1 ∉ (l.pending.take embedBatchSize).map (·.1)
  := by
  have split : (l.pending.take embedBatchSize).map (·.1) ++
      (l.pending.drop embedBatchSize).map (·.1) = l.pending.map (·.1) := by
    rw [← List.map_append, List.take_append_drop]
  have nodup := h.nodup
  rw [← split] at nodup
  intro mem
  exact (List.nodup_append.mp nodup).2.2 _ mem _ (List.mem_map_of_mem hchunk) rfl

theorem Sound.next (unique : (base.map (·.id)).Nodup) (h : Sound target base l) :
  Sound target base (next target name l)
  := by
  have chunks : (Loop.next target name l).shared.db.chunks = base := by
    rw [next_db]
    exact h.chunks
  by_cases new : name ≠ "" ∧ name ≠ l.lookupModel
  · obtain ⟨lookup, asked⟩ := next_of_new target new
    apply sound_of_asked unique chunks
    rw [lookup]
    exact asked
  · obtain ⟨lookup, left_⟩ := next_of_not_new target new
    constructor
    · exact chunks
    · rw [left_]
      exact h.nodup.sublist ((List.drop_sublist _ _).map _)
    · intro chunk hchunk
      rw [left_] at hchunk
      exact h.active chunk (List.mem_of_mem_drop hchunk)
    · intro chunk hchunk
      rw [left_] at hchunk
      rw [← Bool.not_eq_true, lookup, next_db, embedded_stored, not_or, Bool.not_eq_true]
      refine ⟨h.missing chunk (List.mem_of_mem_drop hchunk), ?_⟩
      rintro ⟨-, mem⟩
      exact h.not_mem_batch hchunk mem

/-- A call under the name by which the chunks were asked for, or a new one, leaves them covered. -/
theorem Covered.next (h : Sound target base l) (covered : Covered target base l)
    (named : name ≠ "" ∨ l.lookupModel = "") :
  Covered target base (next target name l)
  := by
  have chunks : (Loop.next target name l).shared.db.chunks = base := by
    rw [next_db]
    exact h.chunks
  by_cases new : name ≠ "" ∧ name ≠ l.lookupModel
  · obtain ⟨lookup, asked⟩ := next_of_new target new
    apply covered_of_asked chunks
    rw [lookup]
    exact asked
  · obtain ⟨lookup, left_⟩ := next_of_not_new target new
    have same : l.lookupModel = name := by
      by_contra differs
      obtain named | empty := named
      · exact new ⟨named, Ne.symm differs⟩
      · by_cases blank : name = ""
        · exact differs (empty.trans blank.symm)
        · exact new ⟨blank, Ne.symm differs⟩
    intro c hc
    rw [left_, lookup, next_db, embedded_stored]
    obtain mem | has := covered c hc
    · rw [← List.take_append_drop embedBatchSize l.pending, List.map_append,
        List.mem_append] at mem
      obtain mem | mem := mem
      · exact Or.inr (Or.inr ⟨same, mem⟩)
      · exact Or.inl mem
    · exact Or.inr (Or.inl has)

/-- What is lost stays lost as long as no new name is reported. -/
theorem Lost.next {c : Chunk} (lost : Lost target l c)
    (old : ¬ (name ≠ "" ∧ name ≠ l.lookupModel)) :
  Lost target (next target name l) c
  := by
  obtain ⟨lookup, left_⟩ := next_of_not_new target old
  obtain ⟨gone, missing⟩ := lost
  constructor
  · rw [left_]
    exact fun mem => gone ((List.drop_sublist _ _).map _ |>.subset mem)
  · rw [← Bool.not_eq_true, lookup, next_db, embedded_stored, not_or, Bool.not_eq_true]
    refine ⟨missing, ?_⟩
    rintro ⟨-, mem⟩
    exact gone ((List.take_sublist _ _).map _ |>.subset mem)

/-- A call that reports no name loses a chunk of its batch. -/
theorem exists_lost (h : Sound target base l) (more : l.pending ≠ []) (blank : name = "")
    (named : l.lookupModel ≠ "") :
  ∃ c ∈ activeIn target base, Lost target (next target name l) c
  := by
  have old : ¬ (name ≠ "" ∧ name ≠ l.lookupModel) := fun new => new.1 blank
  obtain ⟨lookup, left_⟩ := next_of_not_new target old
  obtain ⟨chunk, chunks, hpending⟩ := List.exists_cons_of_ne_nil more
  have first : chunk ∈ l.pending.take embedBatchSize := by
    rw [hpending]
    exact List.mem_cons_self
  obtain ⟨c, hc, same⟩ := h.active chunk (List.mem_of_mem_take first)
  refine ⟨c, hc, ?_, ?_⟩
  · rw [left_, same]
    intro mem
    obtain ⟨other, hother, same'⟩ := List.mem_map.mp mem
    exact h.not_mem_batch hother (same' ▸ List.mem_map_of_mem first)
  · rw [← Bool.not_eq_true, lookup, next_db, embedded_stored, not_or, Bool.not_eq_true, same]
    refine ⟨h.missing chunk (List.mem_of_mem_take first), ?_⟩
    rintro ⟨equal, -⟩
    exact named (equal.trans blank)

end Next

/-! ### All calls -/

/-- The loop after so many calls, or at its end. -/
def after (names : ℕ → String) (target : EmbedTarget) (s : Shared) (n : ℕ) : Loop :=
  (step names target)^[n] (start target s)

section After

variable {s : Shared}

theorem after_succ (n : ℕ) :
  after names target s (n + 1) = (after names target s n).step names target
  := Function.iterate_succ_apply' _ _ _

theorem step_of_more (more : l.pending ≠ []) :
  l.step names target = next target (names l.calls) l
  := if_neg more

theorem step_of_end (ends : l.pending = []) : l.step names target = l := if_pos ends

theorem sound_after (unique : (s.db.chunks.map (·.id)).Nodup) (n : ℕ) :
  Sound target s.db.chunks (after names target s n)
  := by
  induction n with
  | zero => exact sound_of_asked unique rfl rfl
  | succ n ih =>
    rw [after_succ]
    by_cases ends : (after names target s n).pending = []
    · rw [step_of_end ends]
      exact ih
    · rw [step_of_more ends]
      exact ih.next unique

/-- The chunks are asked for by the name that was reported last. -/
theorem lookup_after (n : ℕ) :
  (after names target s n).lookupModel =
    lastName names (resolved s target.model) (after names target s n).calls
  := by
  induction n with
  | zero => rfl
  | succ n ih =>
    rw [after_succ]
    by_cases ends : (after names target s n).pending = []
    · rw [step_of_end ends]
      exact ih
    · rw [step_of_more ends, next_calls, lastName]
      generalize after names target s n = l at *
      by_cases new : names l.calls ≠ "" ∧ names l.calls ≠ l.lookupModel
      · rw [(next_of_new target new).1, if_neg new.1]
      · rw [(next_of_not_new target new).1]
        by_cases blank : names l.calls = ""
        · rw [if_pos blank, ih]
        · rw [if_neg blank]
          by_contra differs
          exact new ⟨blank, Ne.symm differs⟩

/-- As long as the loop goes on, it makes a call each time. -/
theorem calls_after {n : ℕ} (more : (after names target s n).pending ≠ []) :
  (after names target s n).calls = n
  := by
  induction n with
  | zero => rfl
  | succ n ih =>
    rw [after_succ] at more ⊢
    by_cases ends : (after names target s n).pending = []
    · rw [step_of_end ends] at more
      exact absurd ends more
    · rw [step_of_more ends, next_calls, ih ends]

/-- A loop at its end stays there. -/
theorem after_of_end {m n : ℕ} (ends : (after names target s m).pending = []) (h : m ≤ n) :
  after names target s n = after names target s m
  := by
  induction n, h using Nat.le_induction with
  | base => rfl
  | succ n _ ih => rw [after_succ, ih, step_of_end ends]

/-- What the service does, followed for a number of batches. -/
theorem embeds_eq (cfg : Settings) (unique : (s.db.chunks.map (·.id)).Nodup) (n : ℕ) :
  embeds cfg names target s n =
    if (after names target s n).pending = [] then
      some (.ok (after names target s n).embedded, (after names target s n).shared,
        (after names target s n).calls)
    else none
  := by
  have loops := @runAlone_embedBatches cfg names target (start target s)
    (fun n => (sound_after unique n).fits) n
  refine Eq.trans ?_ loops
  unfold embeds embedPending
  refine (runAlone_perform_bind rfl _).trans ?_
  exact runAlone_perform_bind rfl _

theorem called_iff (cfg : Settings) (unique : (s.db.chunks.map (·.id)).Nodup) (n : ℕ) :
  Called cfg names target s n ↔ (after names target s n).pending ≠ []
  := by
  unfold Called
  rw [embeds_eq cfg unique]
  split_ifs with ends
  · exact iff_of_false nofun (not_not.mpr ends)
  · exact iff_of_true rfl ends

theorem isNew_iff {n : ℕ} (more : (after names target s n).pending ≠ []) :
  IsNew names (resolved s target.model) n ↔ names (after names target s n).calls ≠ "" ∧
    names (after names target s n).calls ≠ (after names target s n).lookupModel
  := by
  rw [lookup_after, calls_after more]
  rfl

theorem strays_iff {n : ℕ} (more : (after names target s n).pending ≠ []) :
  Strays names (resolved s target.model) n ↔ names (after names target s n).calls = "" ∧
    (after names target s n).lookupModel ≠ ""
  := by
  rw [lookup_after, calls_after more]
  rfl

/-- The active chunks are covered, unless a call has reported no name and none since then a new one.
-/
theorem covered_after (unique : (s.db.chunks.map (·.id)).Nodup) (n : ℕ) :
  Covered target s.db.chunks (after names target s n) ∨
    ∃ m < n, (after names target s m).pending ≠ [] ∧ Strays names (resolved s target.model) m ∧
      ∀ j, m < j → j < n → (after names target s j).pending ≠ [] →
        ¬ IsNew names (resolved s target.model) j
  := by
  induction n with
  | zero => exact Or.inl (covered_of_asked rfl rfl)
  | succ n ih =>
    have sound : Sound target s.db.chunks (after names target s n) := sound_after unique n
    rw [after_succ]
    by_cases ends : (after names target s n).pending = []
    · rw [step_of_end ends]
      refine ih.imp_right fun ⟨m, hm, more, strays, quiet⟩ =>
        ⟨m, Nat.lt_succ_of_lt hm, more, strays, fun j hj hn more' => ?_⟩
      obtain hn | rfl := Nat.lt_succ_iff_lt_or_eq.mp hn
      · exact quiet j hj hn more'
      · exact absurd ends more'
    · rw [step_of_more ends]
      by_cases strays : Strays names (resolved s target.model) n
      · right
        refine ⟨n, Nat.lt_succ_self n, ends, strays, fun j hj hn => ?_⟩
        omega
      · have named := strays
        rw [strays_iff ends, not_and_or, not_not] at named
        obtain covered | ⟨m, hm, more, strays, quiet⟩ := ih
        · exact Or.inl (covered.next sound named)
        · by_cases new : IsNew names (resolved s target.model) n
          · left
            obtain ⟨lookup, asked⟩ := next_of_new target ((isNew_iff ends).mp new)
            apply covered_of_asked
            · rw [next_db]
              exact sound.chunks
            · rw [lookup]
              exact asked
          · right
            refine ⟨m, Nat.lt_succ_of_lt hm, more, strays, fun j hj hn more' => ?_⟩
            obtain hn | rfl := Nat.lt_succ_iff_lt_or_eq.mp hn
            · exact quiet j hj hn more'
            · exact new

/-- A call that has reported no name has lost a chunk until a new one is reported. -/
theorem exists_lost_after (unique : (s.db.chunks.map (·.id)).Nodup) {m n : ℕ} (hmn : m < n)
    (more : (after names target s m).pending ≠ [])
    (strays : Strays names (resolved s target.model) m)
    (quiet : ∀ j, m < j → j < n → (after names target s j).pending ≠ [] →
      ¬ IsNew names (resolved s target.model) j) :
  ∃ c ∈ activeIn target s.db.chunks, Lost target (after names target s n) c
  := by
  induction n, hmn using Nat.le_induction with
  | base =>
    obtain ⟨blank, named⟩ := (strays_iff more).mp strays
    rw [after_succ, step_of_more more]
    exact exists_lost (sound_after unique m) more blank named
  | succ n hmn ih =>
    obtain ⟨c, hc, lost⟩ := ih fun j hj hn => quiet j hj (Nat.lt_succ_of_lt hn)
    refine ⟨c, hc, ?_⟩
    rw [after_succ]
    by_cases ends : (after names target s n).pending = []
    · rw [step_of_end ends]
      exact lost
    · rw [step_of_more ends]
      exact lost.next fun new => quiet n hmn (Nat.lt_succ_self n) ends ((isNew_iff ends).mpr new)

/-- As long as no new name is reported, there is less and less to do. -/
theorem pending_after {N : ℕ} (quiet : ∀ n, N ≤ n → (after names target s n).pending ≠ [] ∧
      ¬ IsNew names (resolved s target.model) n) (j : ℕ) :
  (after names target s (N + j)).pending.length + j ≤ (after names target s N).pending.length
  := by
  induction j with
  | zero => exact le_refl _
  | succ j ih =>
    obtain ⟨more, old⟩ := quiet (N + j) (Nat.le_add_right N j)
    have positive := List.length_pos_iff.mpr more
    have left_ : (after names target s (N + (j + 1))).pending =
        (after names target s (N + j)).pending.drop embedBatchSize := by
      rw [← Nat.add_assoc, after_succ, step_of_more more]
      exact (next_of_not_new target fun new => old ((isNew_iff more).mpr new)).2
    rw [left_, List.length_drop]
    have size : 0 < embedBatchSize := by decide
    omega

end After

end Loop

open Loop

/-- The loop ends and leaves no active chunk without an embedding, exactly if from some call on no
new name is reported, and each call that reports no name is followed by one that reports a new one.
-/
theorem terminatesAndCompletes_iff (target : EmbedTarget) {s : Shared}
    (unique : (s.db.chunks.map (·.id)).Nodup) :
  TerminatesAndCompletes cfg names target s ↔
    (∃ N, ∀ n ≥ N, Called cfg names target s n → ¬ IsNew names (resolved s target.model) n) ∧
    ∀ m, Called cfg names target s m → Strays names (resolved s target.model) m →
      ∃ n > m, Called cfg names target s n ∧ IsNew names (resolved s target.model) n
  := by
  have called (n : ℕ) := @called_iff names target s cfg unique n
  have before {m n : ℕ} (ends : (after names target s n).pending = [])
      (more : (after names target s m).pending ≠ []) : m < n := by
    by_contra later
    rw [after_of_end ends (not_lt.mp later)] at more
    exact more ends
  have complete (n : ℕ) : Complete target
        (lastName names (resolved s target.model) (after names target s n).calls)
        (after names target s n).shared.db ↔
      ∀ c ∈ activeIn target s.db.chunks, EmbeddingRepository.embedded
        (after names target s n).shared.db (after names target s n).lookupModel
          target.embeddingVersion c.id := by
    unfold Complete
    rw [activeForVersion_eq (sound_after unique n).chunks, lookup_after]
  unfold TerminatesAndCompletes
  simp only [called, embeds_eq cfg unique]
  constructor
  · rintro ⟨⟨b, returns⟩, completes⟩
    have ends : (after names target s b).pending = [] := by
      by_contra more
      rw [if_neg more] at returns
      cases returns
    have all := (complete b).mp (completes b _ _ _ (if_pos ends))
    constructor
    · refine ⟨b, fun n hn more => ?_⟩
      exact absurd hn (not_le.mpr (before ends more))
    · intro m more strays
      by_contra none
      obtain ⟨c, hc, -, missing⟩ := exists_lost_after unique (before ends more) more strays
        fun j hj _ more' new => none ⟨j, hj, more', new⟩
      have has := all c hc
      rw [missing] at has
      cases has
  · rintro ⟨⟨N, quiet⟩, followed⟩
    constructor
    · by_contra endless
      have more (n : ℕ) : (after names target s n).pending ≠ [] := by
        intro ends
        exact endless ⟨n, by rw [if_pos ends]; rfl⟩
      have less := pending_after (fun n hn => ⟨more n, quiet n hn (more n)⟩)
        ((after names target s N).pending.length + 1)
      omega
    · intro b embedded s' calls returns
      split_ifs at returns with ends
      cases returns
      apply (complete b).mpr
      intro c hc
      obtain covered | ⟨m, hm, more, strays, quiet'⟩ := covered_after unique b
      · obtain mem | has := covered c hc
        · rw [ends] at mem
          cases mem
        · exact has
      · obtain ⟨n, hmn, more', new⟩ := followed m more strays
        exact absurd new (quiet' n hmn (before ends more') more')

/-! ### A name that changes back and forth -/

/-- Two chunks of a document. -/
def sampleChunk (id : ChunkId) (content : String) : Chunk where
  id := id
  documentId := 1
  kbId := 1
  docVersion := 1
  row := ⟨id, content, 1, none, []⟩

def sampleTarget : EmbedTarget where
  documentId := 1
  docVersion := 1
  status := .embedding
  model := "A"
  embeddingVersion := 1

/-- Two chunks, with some embeddings. -/
def sampleShared (embeddings : List Embedding) : Shared where
  db := { chunks := [sampleChunk 0 "a", sampleChunk 1 "b"], embeddings := embeddings }

/-- A provider that always reports the name it was asked for. -/
theorem terminatesAndCompletes_iff_steady :
  TerminatesAndCompletes sampleSettings (fun _ => "A") sampleTarget (sampleShared [])
  := by
  have same (n : ℕ) : lastName (fun _ => "A") "A" n = "A" := by
    cases n
    all_goals rfl
  apply (terminatesAndCompletes_iff sampleSettings (fun _ => "A") sampleTarget
    (s := sampleShared []) (by decide)).mpr
  constructor
  · refine ⟨0, fun n _ _ new => ?_⟩
    exact new.2 (same n).symm
  · rintro m - ⟨blank, -⟩
    have blank : "A" = "" := blank
    exact absurd blank (by decide)

/-- The embeddings from the first call on: a chunk under each of the names. -/
def halves : List Embedding := [⟨0, "A", 1⟩, ⟨1, "B", 1⟩]

/-- Where the loop stands: one chunk is missing under the name. -/
def Asks (embeddings : List Embedding) (l : Loop) (model : String) (id : ChunkId)
    (content : String) : Prop :=
  l.shared.db = (sampleShared embeddings).db ∧ l.lookupModel = model ∧ l.pending = [(id, content)]

/-- The missing chunk is stored under another name, under which the other chunk is missing. -/
theorem Asks.next {embeddings : List Embedding} {l : Loop} {model other : String}
    {id id' : ChunkId} {content content' : String} (h : Asks embeddings l model id content)
    (new : other ≠ "" ∧ other ≠ model)
    (same : Loop.stored sampleTarget (sampleShared embeddings).db [id] other =
      (sampleShared halves).db)
    (missing : Loop.pendingChunks sampleTarget (sampleShared halves).db other = [(id', content')]) :
  Asks halves (Loop.next sampleTarget other l) other id' content'
  := by
  obtain ⟨hdb, rfl, hpending⟩ := h
  have db : (Loop.next sampleTarget other l).shared.db = (sampleShared halves).db := by
    rw [next_db, hdb, hpending]
    exact same
  obtain ⟨lookup, asked⟩ := next_of_new sampleTarget new
  rw [db, missing] at asked
  exact ⟨db, lookup, asked⟩

/-- With one chunk stored under each of two names that take turns, the loop makes a call after the
other. -/
theorem embeds_endless :
  let names (n : ℕ) : String := if n % 2 = 0 then "B" else "A"
  (∀ batches,
    embeds sampleSettings names sampleTarget (sampleShared [⟨0, "A", 1⟩]) batches = none) ∧
  ¬ TerminatesAndCompletes sampleSettings names sampleTarget (sampleShared [⟨0, "A", 1⟩])
  := by
  intro names
  have step {embeddings : List Embedding} {n : ℕ} {model : String} {id : ChunkId}
      {content : String}
      (h : Asks embeddings (after names sampleTarget (sampleShared [⟨0, "A", 1⟩]) n) model id
        content) :
      after names sampleTarget (sampleShared [⟨0, "A", 1⟩]) (n + 1) =
        Loop.next sampleTarget (names n)
          (after names sampleTarget (sampleShared [⟨0, "A", 1⟩]) n) := by
    have more : (after names sampleTarget (sampleShared [⟨0, "A", 1⟩]) n).pending ≠ [] := by
      rw [h.2.2]
      nofun
    rw [after_succ, step_of_more more, calls_after more]
  have asks (k : ℕ) : Asks halves (after names sampleTarget (sampleShared [⟨0, "A", 1⟩])
      (2 * k + 1)) "B" 0 "a" := by
    induction k with
    | zero =>
      have first : Asks [⟨0, "A", 1⟩] (after names sampleTarget (sampleShared [⟨0, "A", 1⟩]) 0)
          "A" 1 "b" := ⟨rfl, rfl, by decide +kernel⟩
      rw [step first]
      exact first.next (by decide) (by decide +kernel) (by decide +kernel)
    | succ k ih =>
      have odd : names (2 * k + 1) = "A" := if_neg (by omega)
      have even : names (2 * k + 1 + 1) = "B" := if_pos (by omega)
      have back : Asks halves (after names sampleTarget (sampleShared [⟨0, "A", 1⟩])
          (2 * k + 1 + 1)) "A" 1 "b" := by
        rw [step ih, odd]
        exact ih.next (by decide) (by decide +kernel) (by decide +kernel)
      change Asks halves (after names sampleTarget (sampleShared [⟨0, "A", 1⟩])
        (2 * k + 1 + 1 + 1)) "B" 0 "a"
      rw [step back, even]
      exact back.next (by decide) (by decide +kernel) (by decide +kernel)
  have endless (n : ℕ) :
      embeds sampleSettings names sampleTarget (sampleShared [⟨0, "A", 1⟩]) n = none := by
    rw [embeds_eq _ (by decide)]
    apply if_neg
    intro ends
    have stays := after_of_end ends (show n ≤ 2 * n + 1 by omega)
    have pending := (asks n).2.2
    rw [stays, ends] at pending
    cases pending
  refine ⟨endless, ?_⟩
  rintro ⟨⟨batches, returns⟩, -⟩
  rw [endless] at returns
  cases returns

end Lumina.Knowledge.EmbeddingService
