import Lumina.Knowledge.Derived
import Lumina.Knowledge.Profiles

/-!
# Every run of the ingestion writes what the originals lead to

The discipline behind `Derived` and `Artifacts`: an ingestion knows that its target is the snapshot
of a document that is still there, and that the cleaned document in its hands is the one that
the original leads to.  Nothing else writes artifacts or chunk stages.
-/

namespace Lumina.Knowledge

open Interleaving Transition
open Fallible (ok_of_bind)

section

variable (cfg : Settings) (contents : DocumentId → String)

/-- The tables and the artifacts hold what the originals lead to. -/
structure Canonical (s : Shared) : Prop where
  tables : Derived cfg contents s.db
  artifacts : Artifacts cfg contents s

/-- If the operation stores an artifact, it is that of a document that is there, as the original
leads to it. -/
def PutsExpected (s : Shared) (op : Op) : Prop :=
  ∀ key docVersion payload, op = .putObject (.cleaned key docVersion) payload →
    ∃ d ∈ s.db.documents, d.storageKey = key ∧
      ∃ doc, cleanedOf cfg (contents d.id) d.mimeType = .ok doc ∧ payload = cfg.etl.toJson doc

/-- The discipline: all that is stored is canonical, as long as the originals stay as they are. -/
def provenance : Discipline cfg where
  inv w := Canonical cfg contents w.shared
  admits _ _ _ s := Stored contents s
  rely _ s t := Grows s.db t.db
  guarantee _ s t := Grows s.db t.db ∧ Canonical cfg contents t
  post _ _ _ := True
  refl _ s := .refl s.db
  trans h h' := h.trans h'

/-- A cleaned document that the original of a target leads to. -/
def IsCleaned (target : IngestTarget) (doc : ExtractedDoc) : Prop :=
  cleanedOf cfg (contents target.documentId) target.mediaType = .ok doc

/-- The target is the snapshot of a document that is still there. -/
def Known (target : IngestTarget) (s : Shared) : Prop :=
  ∃ d ∈ s.db.documents, d.id = target.documentId ∧ d.kbId = target.kbId ∧
    d.mimeType = target.mediaType ∧ d.storageKey = target.storageKey ∧
    target.docVersion ≤ d.docVersion ∧
    ∃ config, (KnowledgeBaseRepository.getById s.db d.kbId).map (·.config) = some config ∧
      target.chunkConfig = cfg.chunkConfigFrom config

end

section

variable {cfg : Settings} {contents : DocumentId → String} {me : Option Message} {op : Op}
  {answer : Answer} {s t : Shared}

/-! ### One operation -/

theorem object_mem {key : ObjectKey} {content : String} (h : s.object key = some content) :
  (key, content) ∈ s.objects
  := by
  unfold Shared.object at h
  obtain ⟨l₁, l₂, h, -⟩ := List.lookup_eq_some_iff.mp h
  rw [h]
  simp

/-- An object after an operation was there before, or has just been put there. -/
theorem Shared.perform_objects {r : Except Exn op.Reply}
    (h : s.perform cfg me op answer = some (r, t)) :
  ∀ x ∈ t.objects, x ∈ s.objects ∨ op = .putObject x.1 x.2
  := by
  intro x hx
  unfold Shared.perform at h
  split at h
  case h_4 key content =>
    cases h
    obtain rfl | hx := List.mem_cons.mp hx
    · right
      rfl
    · left
      apply hx
  case h_5 key =>
    cases h
    left
    apply List.mem_of_mem_filter hx
  all_goals
    left
    try split at h
    all_goals try split at h
    all_goals cases h
    all_goals apply hx

/-- An operation that stores nothing but what is expected keeps everything canonical. -/
theorem Canonical.perform (h : Canonical cfg contents s) {r : Except Exn op.Reply}
    (hperform : s.perform cfg me op answer = some (r, t))
    (hwrites : ∀ x, op = .tx x → WritesExpected cfg contents s.db x)
    (hputs : PutsExpected cfg contents s op) :
  Grows s.db t.db ∧ Canonical cfg contents t
  := by
  have tables : Grows s.db t.db ∧ Derived cfg contents t.db := by
    obtain same | ⟨x, hop, -, r', hcommit⟩ := Shared.perform_db hperform
    · rw [same]
      exact ⟨.refl s.db, h.tables⟩
    · have he := transact_effect hcommit
      constructor
      · apply effect_grows h.tables.wellFormed he
      · apply h.tables.effect he (hwrites x hop)
  refine ⟨tables.1, tables.2, ?_⟩
  intro key docVersion payload hx
  obtain ⟨d, hd, hkey, hpayload⟩ : ∃ d ∈ s.db.documents, d.storageKey = key ∧
      ∃ doc, cleanedOf cfg (contents d.id) d.mimeType = .ok doc ∧
        payload = cfg.etl.toJson doc := by
    obtain old | new := Shared.perform_objects hperform _ hx
    · apply h.artifacts key docVersion payload old
    · apply hputs key docVersion payload new
  obtain ⟨d', hd', hgrows⟩ := tables.1.documents d hd
  refine ⟨d', hd', hgrows.storageKey.trans hkey, ?_⟩
  rw [hgrows.id, hgrows.mimeType]
  apply hpayload

theorem stable_known (target : IngestTarget) :
  ((provenance cfg contents).contract me).Stable (Known cfg target)
  := by
  rintro s t ⟨d, hd, hid, hkb, hmime, hkey, hversion, config, hconfig, hchunk⟩ hrely
  obtain ⟨d', hd', hgrows⟩ := Grows.documents hrely d hd
  refine ⟨d', hd', hgrows.id.trans hid, hgrows.kbId.trans hkb, hgrows.mimeType.trans hmime,
    hgrows.storageKey.trans hkey, le_trans hversion hgrows.docVersion, config, ?_, hchunk⟩
  rw [Grows.config hrely, hgrows.kbId, hconfig]

/-- The rule of an operation of an ingestion. -/
theorem keeps_perform {P : Shared → Prop} {φ : op.Reply → Prop}
    (hP : ((provenance cfg contents).contract me).Stable P)
    (hwrites : ∀ s, P s → Canonical cfg contents s → ∀ x, op = .tx x →
      WritesExpected cfg contents s.db x)
    (hputs : ∀ s, P s → Canonical cfg contents s → PutsExpected cfg contents s op)
    (hφ : ∀ s t answer a, P s → Canonical cfg contents s → Stored contents s →
      s.perform cfg me op answer = some (.ok a, t) → φ a) :
  ((provenance cfg contents).contract me).Keeps P (perform op) φ
  := by
  apply Contract.Keeps.perform hP
  rintro s r t hs ⟨⟨running, canonical⟩, answer, stored, hperform⟩
  have kept := Canonical.perform canonical hperform (hwrites s hs canonical) (hputs s hs canonical)
  refine ⟨kept, hP s t hs kept.1, ?_⟩
  rintro a rfl
  apply hφ s t answer a hs canonical stored hperform

/-- An operation that stores neither chunks nor an artifact. -/
def Op.isHarmless : Op → Bool
  | .tx (.replaceForVersion _ _ _ _) | .putObject (.cleaned _ _) _ => false
  | _ => true

theorem writesExpected_of_harmless (hop : op.isHarmless) (x : Tx) (hx : op = .tx x) :
  WritesExpected cfg contents s.db x
  := by
  rintro document kb docVersion rows rfl
  rw [hx] at hop
  cases hop

theorem putsExpected_of_harmless (hop : op.isHarmless) : PutsExpected cfg contents s op := by
  rintro key docVersion payload rfl
  cases hop

theorem keeps_harmless {P : Shared → Prop} {φ : op.Reply → Prop}
    (hP : ((provenance cfg contents).contract me).Stable P) (hop : op.isHarmless)
    (hφ : ∀ s t answer a, P s → Canonical cfg contents s → Stored contents s →
      s.perform cfg me op answer = some (.ok a, t) → φ a) :
  ((provenance cfg contents).contract me).Keeps P (perform op) φ
  := by
  apply keeps_perform hP
  · exact fun _ _ _ => writesExpected_of_harmless hop
  · exact fun _ _ _ => putsExpected_of_harmless hop
  · apply hφ

theorem keeps_tx {P : Shared → Prop} {x : Tx}
    (hP : ((provenance cfg contents).contract me).Stable P) (hx : (Op.tx x).isHarmless) :
  ((provenance cfg contents).contract me).Keeps P (tx x) fun _ => True
  := by
  apply keeps_harmless hP hx
  exact fun _ _ _ _ _ _ _ _ => trivial

/-- What the object storage returns. -/
theorem Shared.perform_getObject {key : ObjectKey} {content : String}
    (h : s.perform cfg me (.getObject key) answer = some (.ok content, t)) :
  s.object key = some content
  := by
  cases answer with
  | done =>
    simp only [Shared.perform] at h
    split at h
    next stored hstored =>
      cases h
      apply hstored
    next => cases h
  | raised e => cases (Shared.perform_raised h).1
  | denied => cases h
  | reported model => cases h

/-- What the extraction returns. -/
theorem Shared.perform_extractIsolated {content mediaType : String} {raw : ExtractedDoc}
    (h : s.perform cfg me (.extractIsolated content mediaType) answer = some (.ok raw, t)) :
  cfg.etl.extractIsolated content mediaType = .ok raw
  := by
  cases answer with
  | done =>
    simp only [Shared.perform] at h
    cases hraw : cfg.etl.extractIsolated content mediaType with
    | ok raw' =>
      rw [hraw] at h
      cases h
      rfl
    | error e =>
      rw [hraw] at h
      cases h
  | raised e => cases (Shared.perform_raised h).1
  | denied => cases h
  | reported model => cases h

end

/-! ### The ingestion -/

section

open IngestionService

variable {cfg : Settings} {contents : DocumentId → String} {me : Option Message}
  {target : IngestTarget}

/-- The snapshot is that of a document. -/
theorem known_of_load {db : Db} {document : DocumentId} {s : Shared} (hdb : s.db = db)
    (h : loadIngestTarget cfg db document = .ok target) :
  Known cfg target s
  := by
  obtain ⟨d, hd, h⟩ := ok_of_bind h
  obtain ⟨kb, hkb, h⟩ := ok_of_bind h
  cases h
  obtain ⟨hmem, -, hid⟩ := getById_mem (requireDocument_ok hd)
  have hfound : KnowledgeBaseRepository.getById db d.kbId = some kb := by
    unfold requireKnowledgeBase at hkb
    split at hkb
    · cases hkb
    · cases hkb
      assumption
  rw [← hdb] at hmem hfound
  refine ⟨d, hmem, rfl, rfl, rfl, rfl, le_refl _, kb.config, ?_, rfl⟩
  rw [hfound]
  rfl

/-- The document of a storage key. -/
theorem eq_of_storageKey {s : Shared} (h : Canonical cfg contents s) {d d' : Document}
    (hd : d ∈ s.db.documents) (hd' : d' ∈ s.db.documents) (hkey : d.storageKey = d'.storageKey) :
  d = d'
  := by
  rw [h.tables.storageKey d hd, h.tables.storageKey d' hd', buildDocumentKey, buildDocumentKey,
    ObjectKey.document.injEq] at hkey
  apply Table.eq_of_key h.tables.wellFormed.documentIds hd hd' hkey.2

theorem keeps_stage {α : Type} {φ : α → Prop} {work : Prog α} (st : Stage)
    (hwork : ((provenance cfg contents).contract me).Keeps (Known cfg target) work φ) :
  ((provenance cfg contents).contract me).Keeps (Known cfg target) (stage target st work) φ
  := by
  apply Contract.Keeps.bind (keeps_tx (stable_known target) rfl)
  intro _ _
  apply Contract.Keeps.bind
  · apply Contract.Keeps.handle (stable_known target) hwork
    intro e
    apply Contract.Keeps.bind (keeps_tx (stable_known target) rfl)
    intro _ _
    apply Contract.Keeps.raise (stable_known target)
  · intro result hresult
    apply Contract.Keeps.bind (keeps_tx (stable_known target) rfl)
    intro _ _
    apply Contract.Keeps.pure (stable_known target) hresult

/-- An artifact that is read is the one that the original leads to. -/
theorem isCleaned_of_artifact {s : Shared} {payload : String} (known : Known cfg target s)
    (canonical : Canonical cfg contents s)
    (h : s.object (artifactKey target) = some payload) :
  ∃ doc, IsCleaned cfg contents target doc ∧ payload = cfg.etl.toJson doc
  := by
  obtain ⟨d, hd, hid, -, hmime, hkey, -⟩ := known
  obtain ⟨d', hd', hkey', doc, hdoc, hpayload⟩ := canonical.artifacts _ _ _ (object_mem h)
  have same : d' = d := eq_of_storageKey canonical hd' hd (hkey'.trans hkey.symm)
  refine ⟨doc, ?_, hpayload⟩
  unfold IsCleaned
  rw [← hid, ← hmime, ← same]
  apply hdoc

theorem keeps_resumeCleaned (laws : EtlLaws cfg.etl) :
  ((provenance cfg contents).contract me).Keeps (Known cfg target) (resumeCleaned cfg target)
    fun r => ∀ doc, r = some doc → IsCleaned cfg contents target doc
  := by
  apply Contract.Keeps.bind (keeps_tx (stable_known target) rfl)
  intro succeeded _
  split
  · apply Contract.Keeps.handle (stable_known target)
    · apply Contract.Keeps.bind
      · apply keeps_harmless (stable_known target) rfl
          (φ := fun payload => ∃ doc, IsCleaned cfg contents target doc ∧
            payload = cfg.etl.toJson doc)
        intro s t answer payload known canonical _ hperform
        apply isCleaned_of_artifact known canonical (Shared.perform_getObject hperform)
      · rintro payload ⟨doc, hdoc, rfl⟩
        rw [laws.fromJson_of_cleaned hdoc]
        apply Contract.Keeps.pure (stable_known target)
        rintro doc' ⟨⟩
        apply hdoc
    · intro e
      split
      · apply Contract.Keeps.raise (stable_known target)
      · apply Contract.Keeps.pure (stable_known target)
        rintro doc ⟨⟩
      · apply Contract.Keeps.pure (stable_known target)
        rintro doc ⟨⟩
      · apply Contract.Keeps.raise (stable_known target)
  · apply Contract.Keeps.pure (stable_known target)
    rintro doc ⟨⟩

theorem keeps_extractStage :
  ((provenance cfg contents).contract me).Keeps (Known cfg target) (extractStage target)
    fun raw => IsCleaned cfg contents target (cfg.etl.clean raw)
  := by
  apply keeps_stage
  apply Contract.Keeps.bind
  · apply keeps_harmless (stable_known target) rfl
      (φ := fun content => content = contents target.documentId)
    rintro s t answer content ⟨d, hd, hid, -, -, hkey, -⟩ _ stored hperform
    have found := Shared.perform_getObject hperform
    rw [← hkey, stored d hd, hid] at found
    cases found
    rfl
  · rintro content rfl
    apply keeps_harmless (stable_known target) rfl
    intro s t answer raw _ _ _ hperform
    unfold IsCleaned cleanedOf
    rw [Shared.perform_extractIsolated hperform]
    rfl

theorem keeps_cleanStage {raw : ExtractedDoc}
    (hraw : IsCleaned cfg contents target (cfg.etl.clean raw)) :
  ((provenance cfg contents).contract me).Keeps (Known cfg target) (cleanStage cfg target raw)
    (IsCleaned cfg contents target)
  := by
  apply keeps_stage
  apply Contract.Keeps.bind
  · apply keeps_perform (stable_known target) (φ := fun _ => True)
    · rintro s _ _ x ⟨⟩
    · rintro s ⟨d, hd, hid, -, hmime, hkey, -⟩ _ key docVersion payload ⟨⟩
      refine ⟨d, hd, hkey, cfg.etl.clean raw, ?_, rfl⟩
      rw [hid, hmime]
      apply hraw
    · exact fun _ _ _ _ _ _ _ _ => trivial
  · intro _ _
    apply Contract.Keeps.pure (stable_known target) hraw

theorem keeps_materialiseCleaned (laws : EtlLaws cfg.etl) :
  ((provenance cfg contents).contract me).Keeps (Known cfg target)
    (materialiseCleaned cfg target) (IsCleaned cfg contents target)
  := by
  apply Contract.Keeps.bind (keeps_resumeCleaned laws)
  intro resumed hresumed
  cases resumed with
  | some doc => apply Contract.Keeps.pure (stable_known target) (hresumed doc rfl)
  | none =>
    apply Contract.Keeps.bind keeps_extractStage
    intro raw hraw
    apply keeps_cleanStage hraw

theorem keeps_chunkStage {doc : ExtractedDoc} (hdoc : IsCleaned cfg contents target doc) :
  ((provenance cfg contents).contract me).Keeps (Known cfg target) (chunkStage cfg target doc)
    fun _ => True
  := by
  apply keeps_stage
  apply Contract.Keeps.bind
  · apply keeps_perform (stable_known target) (φ := fun _ => True)
    · rintro s ⟨d, hd, hid, -, hmime, -, hversion, config, hconfig, hchunk⟩ _ x ⟨⟩
      rintro document kb docVersion rows ⟨⟩
      refine ⟨d, hd, hid, hversion, config, doc, hconfig, ?_, ?_⟩
      · rw [hid, hmime]
        apply hdoc
      · rw [← hchunk]
        rfl
    · rintro s _ _ key docVersion payload ⟨⟩
    · exact fun _ _ _ _ _ _ _ _ => trivial
  · intro _ _
    apply Contract.Keeps.pure (stable_known target) trivial

theorem keeps_run (laws : EtlLaws cfg.etl) :
  ((provenance cfg contents).contract me).Keeps (Known cfg target) (run cfg target)
    fun _ => True
  := by
  apply Contract.Keeps.bind (keeps_tx (stable_known target) rfl)
  intro _ _
  apply Contract.Keeps.bind (keeps_materialiseCleaned laws)
  intro cleaned hcleaned
  apply Contract.Keeps.bind (keeps_tx (stable_known target) rfl)
  intro _ _
  apply Contract.Keeps.bind (keeps_chunkStage hcleaned)
  intro chunks _
  apply Contract.Keeps.bind (keeps_tx (stable_known target) rfl)
  intro _ _
  apply Contract.Keeps.bind
  · apply keeps_harmless (stable_known target) rfl (φ := fun _ => True)
    exact fun _ _ _ _ _ _ _ _ => trivial
  · intro _ _
    apply Contract.Keeps.pure (stable_known target) trivial

theorem stable_true : ((provenance cfg contents).contract me).Stable fun _ => True :=
  fun _ _ _ _ => trivial

/-- A program without writes of chunks and artifacts. -/
theorem keeps_of_harmless {α : Type} {p : Prog α} (hp : p.Uses (·.isHarmless)) :
  ((provenance cfg contents).contract me).Keeps (fun _ => True) p fun _ => True
  := by
  apply Contract.Keeps.of_uses hp stable_true
  rintro op s r t hop - ⟨⟨running, canonical⟩, answer, stored, hperform⟩
  constructor
  · apply Canonical.perform canonical hperform
    · apply writesExpected_of_harmless hop
    · apply putsExpected_of_harmless hop
  · trivial

theorem keeps_ingest (laws : EtlLaws cfg.etl) (document : DocumentId) :
  ((provenance cfg contents).contract me).Keeps (fun _ => True) (ingest cfg document)
    fun _ => True
  := by
  apply Contract.Triple.bind (Q := fun r s => ∀ target, r = .ok target → Known cfg target s)
  · apply Contract.Triple.perform stable_true
    · rintro s r t - ⟨⟨running, canonical⟩, answer, stored, hperform⟩
      have kept := Canonical.perform canonical hperform (writesExpected_of_harmless rfl)
        (putsExpected_of_harmless rfl)
      refine ⟨kept, ?_⟩
      rintro target rfl
      have load := Shared.perform_tx hperform
      obtain ⟨target', htarget, hpair⟩ := ok_of_bind load
      obtain ⟨rfl, hdb⟩ := Prod.mk.inj (Except.ok.inj hpair)
      apply known_of_load hdb.symm htarget
    · intro r s t h hrely target hr
      apply stable_known target s t (h target hr) hrely
  · intro target
    constructor
    intro s hs
    have safe : ((provenance cfg contents).contract me).Keeps (Known cfg target)
        ((run cfg target).handle fun e =>
          if e.isPermanentFailure then failPermanently target e else .raise e) fun _ => True := by
      apply (keeps_run laws).handle (stable_known target)
      intro e
      split
      · apply Contract.Keeps.bind (keeps_tx (stable_known target) rfl)
        intro _ _
        apply Contract.Keeps.bind (keeps_tx (stable_known target) rfl)
        intro _ _
        apply Contract.Keeps.pure (stable_known target) trivial
      · apply Contract.Keeps.raise (stable_known target)
    apply (safe.safe s (hs target rfl)).mono
    exact fun _ _ _ => ⟨fun _ _ => trivial, trivial⟩
  · exact fun _ _ _ => ⟨fun _ _ => trivial, trivial⟩

/-- The task of an ingestion. -/
theorem keeps_ingestTask (laws : EtlLaws cfg.etl) (message : Message) (document : DocumentId) :
  ((provenance cfg contents).contract me).Keeps (fun _ => True)
    (ingestDocument cfg message document) fun _ => True
  := by
  apply keeps_documentTask cfg stable_true
  · apply Contract.Keeps.bind (keeps_ingest laws document)
    intro _ _
    apply Contract.Keeps.pure stable_true trivial
  · intro e attempts
    apply Contract.Keeps.bind (keeps_tx stable_true rfl)
    intro _ _
    apply Contract.Keeps.bind (keeps_tx stable_true rfl)
    intro _ _
    apply Contract.Keeps.pure stable_true trivial
  · exact keeps_of_harmless (Program.uses_perform rfl)
  · exact keeps_of_harmless (Program.uses_perform rfl)
  · exact keeps_of_harmless (Program.uses_perform rfl)
  · exact fun _ => keeps_of_harmless (Program.uses_perform rfl)

end

/-! ### Runs -/

section

variable {cfg : Settings} {contents : DocumentId → String}

theorem isHarmless_of_byRequest {op : Op} (h : op.byRequest) : op.isHarmless := by
  cases op with
  | tx x =>
    cases x with
    | replaceForVersion _ _ _ _ => cases h
    | _ => rfl
  | putObject key content =>
    cases key with
    | document _ _ => rfl
    | cleaned _ _ => cases h
  | _ => rfl

theorem isHarmless_of_byReindex {op : Op} (h : op.byReindex) : op.isHarmless := by
  cases op with
  | tx x =>
    cases x with
    | replaceForVersion _ _ _ _ => cases h
    | _ => rfl
  | putObject key content => cases h
  | _ => rfl

theorem isHarmless_of_byEmbedding {op : Op} (h : op.byEmbedding) : op.isHarmless := by
  cases op with
  | tx x =>
    cases x with
    | replaceForVersion _ _ _ _ => cases h
    | _ => rfl
  | putObject key content => cases h
  | _ => rfl

/-- Every activity keeps to the discipline from its beginning on. -/
theorem provenance_begins (laws : EtlLaws cfg.etl) {s : Shared} {activity : Activity}
    (h : Begins cfg s activity) :
  (provenance cfg contents).Safe activity s
  := by
  have safe : ((provenance cfg contents).contract activity.message).Keeps (fun _ => True)
      activity.code fun _ => True := by
    cases h with
    | request r =>
      apply keeps_of_harmless
      apply (uses_request cfg r).mono
      exact fun _ => isHarmless_of_byRequest
    | @deliver message batches queued =>
      obtain ⟨task, retries, sentFor, charge⟩ := message
      cases task with
      | ingestDocument document =>
        apply Contract.Keeps.bind (keeps_ingestTask laws _ document)
        intro _ _
        apply Contract.Keeps.pure stable_true trivial
      | embedDocument document =>
        apply keeps_of_harmless
        apply Program.Uses.bind'
        · apply (uses_embedTask cfg batches _ document).mono
          exact fun _ => isHarmless_of_byEmbedding
        · intro _
          trivial
      | reindexKb job =>
        apply keeps_of_harmless
        apply Program.Uses.bind'
        · apply (uses_reindexKb cfg reindexOps_byReindex job).mono
          exact fun _ => isHarmless_of_byReindex
        · intro _
          trivial
  apply (safe.safe s trivial).mono
  exact fun _ _ _ => trivial

theorem canonical_of_initial {w : World} (hw : World.Initial w) :
  Canonical cfg contents w.shared
  := by
  have wellFormed := wellFormed_of_initial hw
  obtain ⟨knowledgeBases, ids, rfl⟩ := hw
  constructor
  · constructor
    · apply wellFormed
    · intro d hd
      cases hd
    · intro d hd
      cases hd
    · intro c hc
      cases hc
    · intro x hx
      cases hx
    · intro d hd
      cases hd
  · intro key docVersion payload hx
    cases hx

/-- Nothing is written when no operation is performed. -/
theorem Canonical.quiet {s t : Shared} (h : Canonical cfg contents s) (hquiet : Quiet s t) :
  Canonical cfg contents t
  := by
  constructor
  · rw [hquiet.db]
    apply h.tables
  · unfold Artifacts
    rw [hquiet.db, hquiet.objects]
    apply h.artifacts

theorem provenance_lawful (laws : EtlLaws cfg.etl) : (provenance cfg contents).Lawful where
  init w hw := canonical_of_initial hw
  begins w activity _ hbegins := provenance_begins laws hbegins
  quiet me s t hquiet := by
    have same : t.db = s.db := hquiet.db
    change Grows s.db t.db
    rw [same]
    apply Grows.refl
  interferes w i j a b t _ _ _ _ hguarantee := hguarantee.1
  keeps_quiet a w w' hw hquiet hstep := Canonical.quiet hw.inv (step_quiet hstep hquiet).1
  keeps_work w i me op next r answer t _ _ _ _ hguarantee := hguarantee.2

/-- In a run in which the originals stay in the object storage as they were uploaded, all chunk
stages and artifacts hold what the originals lead to. -/
theorem canonical_of_run (laws : EtlLaws cfg.etl) {h : List (World × Action)} {w : World}
    (run : (system cfg).Run h w) (stored : ∀ u ∈ Machine.states h w, Stored contents u.shared) :
  ∀ u ∈ Machine.states h w, Canonical cfg contents u.shared
  := by
  intro u hu
  apply ((provenance_lawful laws).run run _ u hu).inv
  intro x hx me op answer _
  apply stored x.1
  apply List.mem_cons_of_mem
  apply List.mem_map_of_mem hx

end

end Lumina.Knowledge
