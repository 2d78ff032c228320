import Lumina.Knowledge.Interference
import Lumina.Knowledge.Switch
import Lumina.Knowledge.Upkeep

/-!
# What the purge of the old embeddings deletes

The purge handles a knowledge base because of a job that has switched long ago, and deletes all
embeddings of its chunks but those of its current pair.  So it keeps what was embedded under
another pair exactly if the knowledge base is not handled, or the pair is the current one, or
there is nothing under it yet.  A newer job that is still embedding has such a pair, and so has a
newer job that has switched, whose window is still open.
-/

namespace Lumina.Knowledge

open Transition

namespace Upkeep

/-- An embedding of an active chunk of a knowledge base, under a pair. -/
structure OfPair (db : Db) (kb : KbId) (model : String) (embeddingVersion : ℕ) (e : Embedding) :
    Prop where
  model : e.model = model
  embeddingVersion : e.embeddingVersion = embeddingVersion
  active : ∃ c ∈ db.chunks, c.id = e.chunkId ∧ c.kbId = kb ∧ c.superseded = false

/-- A purge of a knowledge base has nothing to delete under a pair: it is the current pair, or no
active chunk has an embedding under it. -/
def Harmless (db : Db) (kb : KbId) (model : String) (embeddingVersion : ℕ) : Prop :=
  ∀ row, KnowledgeBaseRepository.getById db kb = some row →
    (row.embeddingModel = model ∧ row.embeddingVersion = embeddingVersion) ∨
      ∀ c ∈ db.chunks, c.kbId = kb → c.superseded = false →
        EmbeddingRepository.embedded db model embeddingVersion c.id = false

/-- If the purge handles a knowledge base, that does not touch a pair. -/
def HandlesHarmlessly (us : UpkeepSettings) (cutoff : ℕ) (s : Upkeep) (kb : KbId) (model : String)
    (embeddingVersion : ℕ) : Prop :=
  ∀ due ∈ s.switchedBefore cutoff us.reindexPurgeBatchSize, due.kbId = kb →
    Harmless s.db kb model embeddingVersion

section

variable {cfg : Settings} {us : UpkeepSettings} {s t : Upkeep} {kb : KbId} {model : String}
  {embeddingVersion cutoff : ℕ} {e : Embedding}

theorem mem_purgeSwitched :
  e ∈ (s.purgeSwitched us cutoff).db.embeddings ↔
    e ∈ s.db.embeddings ∧
      ∀ due ∈ s.switchedBefore cutoff us.reindexPurgeBatchSize, deletes s.db e due = false
  := by
  rw [purgeSwitched_db]
  dsimp only
  rw [List.mem_filter, Bool.not_eq_true', List.any_eq_false]
  apply and_congr_right
  intro _
  apply forall₂_congr
  intro due _
  rw [Bool.not_eq_true]

theorem deletes_eq_true {job : KbReindexJob} :
  deletes s.db e job ↔
    ∃ row, KnowledgeBaseRepository.getById s.db job.kbId = some row ∧
      (∃ c ∈ s.db.chunks, c.id = e.chunkId ∧ c.kbId = row.id) ∧
      ¬(e.model = row.embeddingModel ∧ e.embeddingVersion = row.embeddingVersion)
  := by
  unfold deletes
  split
  next none =>
    constructor
    · nofun
    · rintro ⟨row, found, -⟩
      rw [none] at found
      cases found
  next row found =>
    simp only [Bool.and_eq_true, List.any_eq_true, decide_eq_true_eq, Bool.not_eq_true',
      Bool.and_eq_false_iff, decide_eq_false_iff_not, found, Option.some.injEq]
    constructor
    · rintro ⟨chunk, other⟩
      refine ⟨row, rfl, chunk, ?_⟩
      rintro ⟨hmodel, hversion⟩
      obtain other | other := other
      · apply other hmodel
      · apply other hversion
    · rintro ⟨_, rfl, chunk, other⟩
      use chunk
      by_cases hmodel : e.model = row.embeddingModel
      · right
        intro hversion
        apply other ⟨hmodel, hversion⟩
      · left
        apply hmodel

theorem getById_id {db : Db} {row : KnowledgeBase}
    (h : KnowledgeBaseRepository.getById db kb = some row) :
  row.id = kb
  := by
  have hid := List.find?_some h
  apply of_decide_eq_true hid

/-- The purge keeps what is embedded under a pair exactly if it does not handle the knowledge base,
or has nothing to delete under the pair. -/
theorem purge_keeps_iff (h : WellFormed s.db) :
  (∀ e ∈ s.db.embeddings, OfPair s.db kb model embeddingVersion e →
      e ∈ (s.purgeSwitched us cutoff).db.embeddings) ↔
    HandlesHarmlessly us cutoff s kb model embeddingVersion
  := by
  constructor
  · rintro keeps due hdue rfl row found
    by_cases current : row.embeddingModel = model ∧ row.embeddingVersion = embeddingVersion
    · left
      apply current
    · right
      intro c hc hkb hactive
      rw [← Bool.not_eq_true]
      intro hembedded
      have kept := keeps _ (embedded_iff.mp hembedded) ⟨rfl, rfl, c, hc, rfl, hkb, hactive⟩
      have deleted : deletes s.db ⟨c.id, model, embeddingVersion⟩ due := by
        apply deletes_eq_true.mpr
        refine ⟨row, found, ⟨c, hc, rfl, ?_⟩, ?_⟩
        · rw [getById_id found, hkb]
        · rintro ⟨hmodel, hversion⟩
          apply current ⟨hmodel.symm, hversion.symm⟩
      rw [(mem_purgeSwitched.mp kept).2 due hdue] at deleted
      cases deleted
  · intro harmless e he pair
    obtain ⟨c, hc, hce, hkb, hactive⟩ := pair.active
    rw [mem_purgeSwitched]
    use he
    intro due hdue
    rw [← Bool.not_eq_true]
    intro deleted
    obtain ⟨row, found, ⟨c', hc', hce', hrow⟩, other⟩ := deletes_eq_true.mp deleted
    obtain rfl : c' = c := Table.eq_of_key h.chunkIds hc' hc (hce'.trans hce.symm)
    have hdueKb : due.kbId = kb := by
      rw [← getById_id found, ← hrow, hkb]
    rw [hdueKb] at found
    obtain ⟨hmodel, hversion⟩ | none := harmless due hdue hdueKb row found
    · apply other
      rw [hmodel, hversion]
      exact ⟨pair.model, pair.embeddingVersion⟩
    · have hembedded : EmbeddingRepository.embedded s.db model embeddingVersion c'.id := by
        rw [embedded_iff, hce, ← pair.model, ← pair.embeddingVersion]
        apply he
      rw [none c' hc' hkb hactive] at hembedded
      cases hembedded

end

/-! ### The jobs that are not done -/

/-- If the action is a purge, it keeps what the active jobs have embedded. -/
def PurgeSparesActive (cfg : Settings) (us : UpkeepSettings) (s : Upkeep) (a : UpkeepAction) :
    Prop :=
  ∀ cutoff, a = .purge cutoff → ∀ t, (upkeep cfg us).step a s = some t →
    ∀ job ∈ s.db.reindexJobs, job.status ∈ reindexActiveStatuses →
      ∀ e ∈ s.db.embeddings,
        OfPair s.db job.kbId job.targetModel job.targetEmbeddingVersion e → e ∈ t.db.embeddings

/-- If the action is a purge, it handles no knowledge base of an active job that has embedded
something under another pair than the current one. -/
def NoneEmbedding (us : UpkeepSettings) (s : Upkeep) (a : UpkeepAction) : Prop :=
  ∀ cutoff, a = .purge cutoff →
    ∀ job ∈ s.db.reindexJobs, job.status ∈ reindexActiveStatuses →
      HandlesHarmlessly us cutoff s job.kbId job.targetModel job.targetEmbeddingVersion

theorem step_purge {cfg : Settings} {us : UpkeepSettings} {s t : Upkeep} {cutoff : ℕ}
    (h : (upkeep cfg us).step (.purge cutoff) s = some t) :
  t = s.purgeSwitched us cutoff
  := by
  simp only [upkeep, step] at h
  split_ifs at h
  cases h
  rfl

/-- In a run, no purge deletes what an active job has embedded, exactly if no purge handles a
knowledge base of an active job that has embedded something under another pair than the current
one. -/
theorem purgeSparesActive_iff {cfg : Settings} {us : UpkeepSettings}
    {h : List (Upkeep × UpkeepAction)} {s : Upkeep} (run : (upkeep cfg us).Run h s) :
  (∀ x ∈ h, PurgeSparesActive cfg us x.1 x.2) ↔ ∀ x ∈ h, NoneEmbedding us x.1 x.2
  := by
  apply forall₂_congr
  intro x hx
  have hdb : WellFormed x.1.db := by
    apply wellFormed_of_run run x.1
    apply List.mem_cons_of_mem
    apply List.mem_map_of_mem hx
  apply forall₂_congr
  intro cutoff ha
  obtain ⟨t, -, hstep⟩ := run.next hx
  constructor
  · intro spares job hjob active
    apply (purge_keeps_iff hdb).mp
    rw [ha] at hstep
    rw [← step_purge hstep]
    apply spares t _ job hjob active
    rw [ha]
    apply hstep
  · intro harmless t ht job hjob active
    rw [ha] at ht
    rw [step_purge ht]
    apply (purge_keeps_iff hdb).mpr
    apply harmless job hjob active

/-! ### The rollback window -/

/-- The switches of a knowledge base, the latest one first. -/
def switchesOf (kb : KbId) (s : Upkeep) : List SwitchRecord :=
  s.switches.filter (·.kbId = kb)

/-- The window of a switch is open. -/
def InWindow (us : UpkeepSettings) (s : Upkeep) (record : SwitchRecord) : Prop :=
  s.now < record.switchedAt + us.reindexRollbackWindow

/-- If the action is a purge, it handles no knowledge base in the window of its last switch, unless
there is nothing to delete under the pair that was served before. -/
def NoneInWindow (us : UpkeepSettings) (s : Upkeep) (a : UpkeepAction) : Prop :=
  ∀ cutoff, a = .purge cutoff → ∀ kb record older, switchesOf kb s = record :: older →
    InWindow us s record →
      HandlesHarmlessly us cutoff s kb record.model record.embeddingVersion

/-- From one state to a later one in the window of the same last switch, the embeddings that a
rollback needs are kept. -/
def KeepsRollback (us : UpkeepSettings) (s t : Upkeep) : Prop :=
  ∀ kb record older, switchesOf kb s = record :: older → switchesOf kb t = record :: older →
    InWindow us t record →
      ∀ e ∈ s.db.embeddings, OfPair t.db kb record.model record.embeddingVersion e →
        e ∈ t.db.embeddings

/-- What the steps of the upkeep never undo. -/
structure Later (s t : Upkeep) : Prop where
  now : s.now ≤ t.now
  switches : s.switches <:+ t.switches
  nextChunk : s.db.nextChunk ≤ t.db.nextChunk
  active : ∀ c ∈ t.db.chunks, c.superseded = false → c.id < s.db.nextChunk → c ∈ s.db.chunks

theorem Later.refl (s : Upkeep) : Later s s where
  now := le_refl _
  switches := List.suffix_refl _
  nextChunk := le_refl _
  active := fun _ hc _ _ => hc

theorem Later.trans {s t u : Upkeep} (h : Later s t) (h' : Later t u) : Later s u where
  now := le_trans h.now h'.now
  switches := h.switches.trans h'.switches
  nextChunk := le_trans h.nextChunk h'.nextChunk
  active := by
    intro c hc active old
    apply h.active c _ active old
    apply h'.active c hc active
    apply lt_of_lt_of_le old h.nextChunk

/-- No operation turns the clock. -/
theorem perform_now {cfg : Settings} {me : Option Message} {op : Op} {answer : Answer}
    {s s' : Shared} {r : Except Exn op.Reply} (h : s.perform cfg me op answer = some (r, s')) :
  s'.now = s.now
  := by
  unfold Shared.perform at h
  split at h
  all_goals try split at h
  all_goals try split at h
  all_goals try cases h
  all_goals rfl

theorem step_now {cfg : Settings} {w w' : World} {a : Action}
    (h : World.step cfg a w = some w') :
  w.shared.now ≤ w'.shared.now
  := by
  cases a with
  | work i answer =>
    obtain ⟨me, op, next, r, s', -, hperform, rfl⟩ := step_work h
    apply le_of_eq (perform_now hperform).symm
  | tick seconds =>
    cases h
    apply Nat.le_add_right
  | _ =>
    apply le_of_eq
    simp only [World.step, Option.bind_eq_bind, Option.bind_eq_some_iff] at h
    first
      | cases h
        rfl
      | obtain ⟨_, _, h⟩ := h
        first
          | cases h
            rfl
          | obtain ⟨_, _, h⟩ := h
            cases h
            rfl
          | split at h
            all_goals cases h
            all_goals rfl

/-- A committed transaction makes no old chunk active, and deletes no embedding. -/
theorem effect_chunks {now : ℕ} {db db' : Db} {t : Tx} (h : Effect now db t db') :
  db.nextChunk ≤ db'.nextChunk ∧
    (∀ c ∈ db'.chunks, c.superseded = false → c.id < db.nextChunk → c ∈ db.chunks) ∧
    ∀ e ∈ db.embeddings, e ∈ db'.embeddings
  := by
  cases h with
  | plain _ data | stay _ data | switch _ data =>
    have nextChunk : db'.nextChunk = db.nextChunk := (congrArg Db.nextChunk data :)
    have chunks : db'.chunks = db.chunks := (congrArg Db.chunks data :)
    have embeddings : db'.embeddings = db.embeddings := (congrArg Db.embeddings data :)
    rw [nextChunk, chunks, embeddings]
    exact ⟨le_refl _, fun _ hc _ _ => hc, fun _ he => he⟩
  | setStatus _ | create _ _ => exact ⟨le_refl _, fun _ hc _ _ => hc, fun _ he => he⟩
  | replace free keys =>
    refine ⟨Nat.le_add_right _ _, ?_, fun _ he => he⟩
    intro c hc _ old
    obtain hc | hc := List.mem_append.mp hc
    · apply List.mem_of_mem_filter hc
    · exact absurd (mem_newChunks_id hc).1 (not_le.mpr old)
  | reingest _ _ | delete _ =>
    refine ⟨le_refl _, ?_, fun _ he => he⟩
    intro c hc active _
    apply mem_of_active_supersede hc active
  | upsert _ _ _ data =>
    have nextChunk : db'.nextChunk = db.nextChunk := (congrArg Db.nextChunk data :)
    have chunks : db'.chunks = db.chunks := (congrArg Db.chunks data :)
    have embeddings : db'.embeddings = db.embeddings ++ _ := (congrArg Db.embeddings data :)
    rw [nextChunk, chunks, embeddings]
    exact ⟨le_refl _, fun _ hc _ _ => hc, fun _ he => List.mem_append_left _ he⟩

theorem switches_after (cfg : Settings) (a : Action) (w : World) (s : Upkeep) :
  s.switches <:+ (s.after cfg a w).switches
  := by
  unfold after switchesAfter
  split
  · apply List.suffix_refl
  · dsimp only
    split
    · apply List.suffix_refl
    · split
      · apply List.suffix_refl
      · apply List.suffix_cons

/-- A step of the upkeep leads to a later state, and only a purge deletes embeddings. -/
theorem step_later {cfg : Settings} {us : UpkeepSettings} {s t : Upkeep} {a : UpkeepAction}
    (h : (upkeep cfg us).step a s = some t) :
  Later s t ∧ ((∀ e ∈ s.db.embeddings, e ∈ t.db.embeddings) ∨
    ∃ cutoff, a = .purge cutoff ∧ t = s.purgeSwitched us cutoff)
  := by
  obtain ⟨a', w, rfl, hsystem, rfl⟩ | ⟨cutoff, rfl, rfl⟩ | ⟨i, scan, rfl, hscan, rfl⟩ |
    ⟨scans, rfl, -⟩ := step_cases h
  · have hdb : (s.after cfg a' w).db = w.shared.db := by rw [db, after_world]
    have hnow : (s.after cfg a' w).now = w.shared.now := by rw [now, after_world]
    have chunks : s.db.nextChunk ≤ w.shared.db.nextChunk ∧
        (∀ c ∈ w.shared.db.chunks, c.superseded = false → c.id < s.db.nextChunk →
          c ∈ s.db.chunks) ∧
        ∀ e ∈ s.db.embeddings, e ∈ w.shared.db.embeddings := by
      obtain same | ⟨t, commits⟩ := step_db hsystem
      · rw [same]
        exact ⟨le_refl _, fun _ hc _ _ => hc, fun _ he => he⟩
      · obtain ⟨r, hr⟩ := commits.commit
        apply effect_chunks (transact_effect hr)
    constructor
    · constructor
      · rw [hnow]
        apply step_now hsystem
      · apply switches_after
      · rw [hdb]
        apply chunks.1
      · rw [hdb]
        apply chunks.2.1
    · left
      rw [hdb]
      apply chunks.2.2
  · constructor
    · constructor
      · apply le_refl
      · apply List.suffix_refl
      · rw [purgeSwitched_db]
      · rw [purgeSwitched_db]
        exact fun _ hc _ _ => hc
    · right
      exact ⟨cutoff, rfl, rfl⟩
  · constructor
    · exact ⟨le_refl _, List.suffix_refl _, le_refl _, fun _ hc _ _ => hc⟩
    · left
      exact fun _ he => he
  · constructor
    · exact ⟨le_refl _, List.suffix_refl _, le_refl _, fun _ hc _ _ => hc⟩
    · left
      exact fun _ he => he

/-- Between two states with the same last switch of a knowledge base there is no other. -/
theorem switchesOf_eq {kb : KbId} {s t u : Upkeep} (h : s.switches <:+ t.switches)
    (h' : t.switches <:+ u.switches) (same : switchesOf kb s = switchesOf kb u) :
  switchesOf kb t = switchesOf kb u
  := by
  have first : switchesOf kb s <:+ switchesOf kb t := h.filter _
  have second : switchesOf kb t <:+ switchesOf kb u := h'.filter _
  apply second.eq_of_length_le
  rw [← same]
  apply first.length_le

/-- An embedding of the pair before the last switch, whose chunk is active later, is one now. -/
theorem OfPair.earlier {s t u : Upkeep} {kb : KbId} {model : String} {embeddingVersion : ℕ}
    {e : Embedding} (hs : WellFormed s.db) (h : Later s t) (h' : Later t u)
    (he : e ∈ s.db.embeddings) (pair : OfPair u.db kb model embeddingVersion e) :
  OfPair t.db kb model embeddingVersion e
  := by
  obtain ⟨c, hc, hce, hkb, hactive⟩ := pair.active
  obtain ⟨c', hc', hce'⟩ := hs.embeddingChunk e he
  refine ⟨pair.model, pair.embeddingVersion, c, ?_, hce, hkb, hactive⟩
  apply h'.active c hc hactive
  rw [hce, ← hce']
  apply lt_of_lt_of_le (hs.fresh c' hc') h.nextChunk

/-- One step within the guard keeps what has been kept. -/
theorem keepsRollback_step {cfg : Settings} {us : UpkeepSettings} {s t u : Upkeep}
    {a : UpkeepAction} (hs : WellFormed s.db) (ht : WellFormed t.db) (guard : NoneInWindow us t a)
    (later : Later s t) (keeps : KeepsRollback us s t) (h : (upkeep cfg us).step a t = some u) :
  KeepsRollback us s u
  := by
  obtain ⟨next, grows⟩ := step_later h
  intro kb record older hsw husw window e he pair
  have htsw : switchesOf kb t = record :: older := by
    rw [← husw]
    apply switchesOf_eq later.switches next.switches
    rw [hsw, husw]
  have htwindow : InWindow us t record := lt_of_le_of_lt next.now window
  have htpair : OfPair t.db kb record.model record.embeddingVersion e :=
    pair.earlier hs later next he
  have hte : e ∈ t.db.embeddings := keeps kb record older hsw htsw htwindow e he htpair
  obtain grows | ⟨cutoff, rfl, rfl⟩ := grows
  · apply grows e hte
  · apply (purge_keeps_iff ht).mpr (guard cutoff rfl kb record older htsw htwindow) e hte htpair

/-- In a run whose purges handle no knowledge base in the window of its last switch, unless there
is nothing to delete under the pair that was served before, the embeddings that a rollback needs
are kept as long as the window is open. -/
theorem rollback_kept {cfg : Settings} {us : UpkeepSettings} {h : List (Upkeep × UpkeepAction)}
    {t : Upkeep} (run : (upkeep cfg us).Run h t) (guard : ∀ x ∈ h, NoneInWindow us x.1 x.2) :
  ∀ s ∈ Machine.states h t, KeepsRollback us s t
  := by
  have kept : ∀ s ∈ Machine.states h t,
      WellFormed s.db → Later s t ∧ KeepsRollback us s t := by
    apply run.forall_later (I := fun u => WellFormed u.db) (G := NoneInWindow us)
      (R := fun s t => WellFormed s.db → Later s t ∧ KeepsRollback us s t)
    · intro s hs
      apply initial_db hs
    · intro a s t hs _ hstep
      apply wellFormed_step a s t hs hstep
    · intro s _
      exact ⟨.refl s, fun _ _ _ _ _ _ _ he _ => he⟩
    · intro a s t u ht hguard before hstep hs
      obtain ⟨later, keeps⟩ := before hs
      constructor
      · apply later.trans (step_later hstep).1
      · apply keepsRollback_step hs ht hguard later keeps hstep
    · apply guard
  intro s hs
  apply (kept s hs (wellFormed_of_run run s hs)).2

/-! ### Small runs -/

/-- A round of the first job, in the middle of the run of `i` messages: up to the batch, whose one
embedding is answered under a model, and then `n` operations. -/
def roundSample (i : ℕ) (model : String) (n : ℕ) : List Action :=
  .deliver i 0 :: works 0 4 ++ .work 0 (.reported model) :: works 0 n

/-- The knowledge base is switched while it is empty. -/
def emptySwitchSample : List Action :=
  requests 0 2 (.startReindex 1 none (some false)) ++ .deliver 0 0 :: works 0 6 ++ [.finish 0]

/-- A switch, some time, and a job that has embedded its only chunk, but has not switched. -/
def newerJobSample : List Action :=
  emptySwitchSample ++ .tick 20 :: ingestSample ++
    requests 0 2 (.startReindex 1 (some "k") (some false)) ++ roundSample 1 "k" 1

/-- The same, and the purge between the first job and the second one. -/
def purgeBetweenSample : List UpkeepAction :=
  (emptySwitchSample ++ [Action.tick 20]).map .system ++ .purge 10 ::
    (ingestSample ++ requests 0 2 (.startReindex 1 (some "k") (some false)) ++
      roundSample 1 "k" 3).map .system

theorem purgeSparesActive_iff_purgeBetweenSample :
  ∃ h s, (upkeep sampleSettings sampleUpkeep).Run h s ∧ s.db.embeddings.length = 1 ∧
    ((∀ x ∈ h, PurgeSparesActive sampleSettings sampleUpkeep x.1 x.2) ↔
      ∀ x ∈ h, NoneEmbedding sampleUpkeep x.1 x.2)
  := by
  obtain ⟨h, s, run, hs⟩ := Machine.exists_run_of_exec
    (M := upkeep sampleSettings sampleUpkeep) purgeBetweenSample
    (fun s => decide (s.db.embeddings.length = 1)) sampleUpkeep_initial (by decide)
  exact ⟨h, s, run, of_decide_eq_true hs, purgeSparesActive_iff run⟩

/-- The window of the first job ends while the second one is embedding, and what the second one has
embedded is deleted. -/
theorem not_purgeSparesActive_newerJobSample :
  ¬∀ h s, (upkeep sampleSettings sampleUpkeep).Run h s →
    ∀ x ∈ h, PurgeSparesActive sampleSettings sampleUpkeep x.1 x.2
  := by
  obtain ⟨h, s, run, hs⟩ := Machine.exists_run_of_exec
    (M := upkeep sampleSettings sampleUpkeep) (newerJobSample.map .system)
    (fun s => decide (s.now = 20 ∧ (∃ job ∈ s.db.reindexJobs, job.status ∈ reindexActiveStatuses ∧
      ∃ e ∈ s.db.embeddings, e.model = job.targetModel ∧
        e.embeddingVersion = job.targetEmbeddingVersion ∧
        (∃ c ∈ s.db.chunks, c.id = e.chunkId ∧ c.kbId = job.kbId ∧ c.superseded = false) ∧
        e ∉ (s.purgeSwitched sampleUpkeep 10).db.embeddings)))
    sampleUpkeep_initial (by decide)
  obtain ⟨hnow, job, hjob, active, e, he, hmodel, hversion, hchunk, deleted⟩ :=
    of_decide_eq_true hs
  have hstep : (upkeep sampleSettings sampleUpkeep).step (.purge 10) s =
      some (s.purgeSwitched sampleUpkeep 10) := by
    simp only [upkeep, step, hnow]
    rfl
  intro claim
  apply deleted
  apply claim _ _ (run.step hstep) _ List.mem_cons_self 10 rfl _ hstep job hjob active e he
  exact ⟨hmodel, hversion, hchunk⟩

/-- Two switches within a window, from one model to another one and on to a third one. -/
def twoSwitchesSample : List Action :=
  ingestSample ++
    requests 0 2 (.startReindex 1 (some "k") (some false)) ++ roundSample 1 "k" 3 ++ .finish 0 ::
    .tick 5 :: requests 0 2 (.startReindex 1 (some "l") (some false)) ++ roundSample 1 "l" 3 ++
    [.finish 0, .tick 6]

/-- The window of the second switch is open when that of the first one has ended, and the pair
before the second switch is deleted. -/
theorem not_keepsRollback_twoSwitchesSample :
  ¬∀ h t, (upkeep sampleSettings sampleUpkeep).Run h t →
    ∀ s ∈ Machine.states h t, KeepsRollback sampleUpkeep s t
  := by
  obtain ⟨h, s, run, hs⟩ := Machine.exists_run_of_exec
    (M := upkeep sampleSettings sampleUpkeep) (twoSwitchesSample.map .system)
    (fun s => decide (s.now = 11 ∧
      switchesOf 1 s = [⟨1, 5, "k", 2⟩, ⟨1, 0, "m", 1⟩] ∧
      switchesOf 1 (s.purgeSwitched sampleUpkeep 1) = switchesOf 1 s ∧
      (s.purgeSwitched sampleUpkeep 1).now = 11 ∧
      ∃ e ∈ s.db.embeddings, e.model = "k" ∧ e.embeddingVersion = 2 ∧
        (∃ c ∈ (s.purgeSwitched sampleUpkeep 1).db.chunks,
          c.id = e.chunkId ∧ c.kbId = 1 ∧ c.superseded = false) ∧
        e ∉ (s.purgeSwitched sampleUpkeep 1).db.embeddings))
    sampleUpkeep_initial (by decide)
  obtain ⟨hnow, hswitches, same, hlater, e, he, hmodel, hversion, hchunk, deleted⟩ :=
    of_decide_eq_true hs
  have hstep : (upkeep sampleSettings sampleUpkeep).step (.purge 1) s =
      some (s.purgeSwitched sampleUpkeep 1) := by
    simp only [upkeep, step, hnow]
    rfl
  intro claim
  apply deleted
  apply claim _ _ (run.step hstep) s (List.mem_cons_of_mem _ List.mem_cons_self) 1 _ _ hswitches
    (same.trans hswitches)
  · unfold InWindow
    rw [hlater]
    decide
  · apply he
  · exact ⟨hmodel, hversion, hchunk⟩

/-- A purge that handles a knowledge base only when all windows of its switches have ended. -/
def afterWindows (us : UpkeepSettings) (s : Upkeep) : UpkeepAction → Bool
  | .purge cutoff =>
      (s.switchedBefore cutoff us.reindexPurgeBatchSize).all fun due =>
        s.switches.all fun record =>
          record.kbId ≠ due.kbId || record.switchedAt + us.reindexRollbackWindow ≤ s.now
  | _ => true

theorem noneInWindow_of_afterWindows {us : UpkeepSettings} {s : Upkeep} {a : UpkeepAction}
    (h : afterWindows us s a) :
  NoneInWindow us s a
  := by
  rintro cutoff rfl kb record older hswitches window due hdue hkb
  have hmem : record ∈ switchesOf kb s := hswitches ▸ List.mem_cons_self
  obtain ⟨hmem, hrecord⟩ := List.mem_filter.mp hmem
  have ended := List.all_eq_true.mp (List.all_eq_true.mp h due hdue) record hmem
  rw [Bool.or_eq_true, decide_eq_true_eq, decide_eq_true_eq] at ended
  obtain other | ended := ended
  · exact absurd ((of_decide_eq_true hrecord).trans hkb.symm) other
  · exact absurd window (not_lt.mpr ended)

/-- Two switches and the purge between them, after the window of the first one. -/
def purgeAfterWindowSample : List UpkeepAction :=
  (ingestSample ++
    requests 0 2 (.startReindex 1 (some "k") (some false)) ++ roundSample 1 "k" 3 ++
    [Action.finish 0, Action.tick 11]).map .system ++ .purge 1 ::
      (requests 0 2 (.startReindex 1 (some "l") (some false)) ++ roundSample 1 "l" 3).map .system ++
      [.purge 1]

theorem rollback_kept_purgeAfterWindowSample :
  ∃ h t, (upkeep sampleSettings sampleUpkeep).Run h t ∧
    (switchesOf 1 t = [⟨1, 11, "k", 2⟩, ⟨1, 0, "m", 1⟩] ∧
      { chunkId := 0, model := "k", embeddingVersion := 2 } ∈ t.db.embeddings) ∧
    ∀ s ∈ Machine.states h t, KeepsRollback sampleUpkeep s t
  := by
  obtain ⟨h, t, run, guard, ht⟩ := Machine.exists_run_of_execWhile
    (M := upkeep sampleSettings sampleUpkeep) purgeAfterWindowSample
    (afterWindows sampleUpkeep)
    (fun t => decide (switchesOf 1 t = [⟨1, 11, "k", 2⟩, ⟨1, 0, "m", 1⟩] ∧
      { chunkId := 0, model := "k", embeddingVersion := 2 } ∈ t.db.embeddings))
    sampleUpkeep_initial (by decide +kernel)
  refine ⟨h, t, run, of_decide_eq_true ht, ?_⟩
  apply rollback_kept run
  intro x hx
  apply noneInWindow_of_afterWindows (guard x hx)

end Upkeep

end Lumina.Knowledge
