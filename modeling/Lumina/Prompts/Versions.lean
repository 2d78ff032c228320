import Lumina.Library.Json
import Lumina.Library.Transition
import Mathlib.Data.Fintype.EquivFin
import Mathlib.Data.List.Nodup

/-!
# Versions of prompts

A message keeps the number of the version that its answer was generated with, and the number is to
lead back to the same text.  The tables may be changed by anyone who has a connection: by the
application, by a deployment, in the administration or by hand.  What an update may do to a version
is decided by a trigger.

An update sets any columns but the key.  The constraints are checked on its result.
-/

namespace Lumina.Prompts.Versions

open Transition

/-- `status` of a version. -/
inductive Status where
  | draft
  | published
  | archived
  | other (text : String)
deriving DecidableEq, Repr

/-- What the trigger protects.  The last two are the texts of values of type `jsonb`. -/
structure Content where
  template : String
  variablesSchema : String := "{}"
  modelHint : String := "{}"
deriving DecidableEq, Repr

/-- A row of `ai_prompt`.  A prompt of the system has no tenant. -/
structure Prompt where
  id : ℕ
  tenantId : Option ℕ
  key : String
  activeVersionId : Option ℕ := none
  /-- `deleted_at IS NOT NULL` -/
  deleted : Bool := false
deriving DecidableEq, Repr

/-- A row of `ai_promptversion`. -/
structure PromptVersion where
  id : ℕ
  promptId : ℕ
  version : ℤ
  status : Status := .draft
  content : Content
deriving DecidableEq, Repr

structure Db where
  prompts : List Prompt
  versions : List PromptVersion
deriving DecidableEq, Repr

/-- What `uq_prompt_tenant_key` and `uq_prompt_system_key` keep unique. -/
def Prompt.slot (p : Prompt) : Option ℕ × String := (p.tenantId, p.key)

/-- What `uq_promptversion_number` keeps unique. -/
def PromptVersion.number (v : PromptVersion) : ℕ × ℤ := (v.promptId, v.version)

/-- The constraints of the two tables. -/
structure Consistent (db : Db) : Prop where
  promptIds : (db.prompts.map Prompt.id).Nodup
  slots : (db.prompts.map Prompt.slot).Nodup
  versionIds : (db.versions.map PromptVersion.id).Nodup
  numbers : (db.versions.map PromptVersion.number).Nodup
  parents : ∀ v ∈ db.versions, ∃ p ∈ db.prompts, p.id = v.promptId

theorem consistent_iff {db : Db} :
  Consistent db ↔ (db.prompts.map Prompt.id).Nodup ∧ (db.prompts.map Prompt.slot).Nodup ∧
    (db.versions.map PromptVersion.id).Nodup ∧ (db.versions.map PromptVersion.number).Nodup ∧
    ∀ v ∈ db.versions, ∃ p ∈ db.prompts, p.id = v.promptId
  := by
  constructor
  · rintro ⟨promptIds, slots, versionIds, numbers, parents⟩
    exact ⟨promptIds, slots, versionIds, numbers, parents⟩
  · rintro ⟨promptIds, slots, versionIds, numbers, parents⟩
    exact ⟨promptIds, slots, versionIds, numbers, parents⟩

instance (db : Db) : Decidable (Consistent db) := decidable_of_iff' _ consistent_iff

/-! ### Statements -/

inductive Action where
  | addPrompt (p : Prompt)
  | setPrompts (c : Prompt → Bool) (f : Prompt → Prompt)
  | removePrompts (c : Prompt → Bool)
  | addVersion (v : PromptVersion)
  | setVersions (c : PromptVersion → Bool) (f : PromptVersion → PromptVersion)
  | removeVersions (c : PromptVersion → Bool)

/-- `ai_promptversion_freeze_published` -/
def freezePublished (old new : PromptVersion) : Bool :=
  old.status = .draft ||
    new.content = old.content && (new.status = .published || new.status = .archived)

/-- The row after an update. -/
def setPrompt (c : Prompt → Bool) (f : Prompt → Prompt) (p : Prompt) : Prompt :=
  if c p then { f p with id := p.id } else p

/-- The row after an update. -/
def setVersion (c : PromptVersion → Bool) (f : PromptVersion → PromptVersion)
    (v : PromptVersion) : PromptVersion :=
  if c v then { f v with id := v.id } else v

/-- The trigger lets the update pass. -/
def passes (c : PromptVersion → Bool) (f : PromptVersion → PromptVersion) (db : Db) : Bool :=
  db.versions.all fun v => !c v || freezePublished v (setVersion c f v)

/-- The tables as a statement would leave them. -/
def attempt (db : Db) : Action → Option Db
  | .addPrompt p => some { db with prompts := db.prompts ++ [p] }
  | .setPrompts c f => some { db with prompts := db.prompts.map (setPrompt c f) }
  | .removePrompts c => some { db with prompts := db.prompts.filter fun p => !c p }
  | .addVersion v => some { db with versions := db.versions ++ [v] }
  | .setVersions c f =>
      if passes c f db then some { db with versions := db.versions.map (setVersion c f) } else none
  | .removeVersions c => some { db with versions := db.versions.filter fun v => !c v }

def step (a : Action) (db : Db) : Option Db :=
  (attempt db a).filter fun next => Consistent next

def machine : Machine Db Action where
  init := Consistent
  step := step

/-! ### Rendering -/

abbrev Variables := List (String × Json.Value)

/-- `validate_variables`, which may fail with a message, and `render_template`. -/
structure Engine where
  validate : String → Variables → Option String
  render : String → Variables → Except String String

inductive RenderError where
  | notFound
  | validation (message : String)
deriving DecidableEq, Repr

structure RenderedPrompt where
  key : String
  version : ℤ
  system : String
  modelHint : String
deriving DecidableEq, Repr

/-- `PromptRepository.get_queryset`, with a key. -/
def candidates (t : ℕ) (key : String) (db : Db) : List Prompt :=
  db.prompts.filter fun p =>
    !p.deleted && (p.tenantId = some t || p.tenantId = none) && p.key = key

/-- `by_key`: the tenant's own prompt comes first. -/
def byKey (t : ℕ) (key : String) (db : Db) : Option Prompt :=
  (candidates t key db).find? (fun p => p.tenantId = some t) <|> (candidates t key db).head?

def activeVersion (t : ℕ) (key : String) (db : Db) : Option PromptVersion :=
  (byKey t key db).bind fun p => p.activeVersionId.bind fun active =>
    db.versions.find? fun v => v.id = active && v.promptId = p.id && v.status = .published

/-- A version that is out, by its number. -/
def answers (p : Prompt) (n : ℤ) (v : PromptVersion) : Bool :=
  v.promptId = p.id && v.version = n && v.status = .published

def versionFor (t : ℕ) (key : String) (n : ℤ) (db : Db) : Option PromptVersion :=
  (byKey t key db).bind fun p => db.versions.find? (answers p n)

/-- The version with a number, or the active one. -/
def resolve (t : ℕ) (key : String) (version : Option ℤ) (db : Db) : Option PromptVersion :=
  match version with
  | some n => versionFor t key n db
  | none => activeVersion t key db

/-- The text of a version. -/
def renderVersion (e : Engine) (key : String) (payload : Variables) (v : PromptVersion) :
    Except RenderError RenderedPrompt :=
  match e.validate v.content.variablesSchema payload with
  | some message => .error (.validation message)
  | none =>
      match e.render v.content.template payload with
      | .error message => .error (.validation message)
      | .ok system => .ok ⟨key, v.version, system, v.content.modelHint⟩

/-- `PromptService.render` -/
def render (e : Engine) (t : ℕ) (key : String) (payload : Variables) (version : Option ℤ)
    (db : Db) : Except RenderError RenderedPrompt :=
  match resolve t key version db with
  | some v => renderVersion e key payload v
  | none => .error .notFound

/-! ### The effect of a statement -/

theorem attempt_setVersions {c : PromptVersion → Bool} {f : PromptVersion → PromptVersion}
    {db next : Db} (h : attempt db (.setVersions c f) = some next) :
  passes c f db = true ∧ { db with versions := db.versions.map (setVersion c f) } = next
  := by
  have found : (if passes c f db then
      some { db with versions := db.versions.map (setVersion c f) } else none) = some next := h
  split at found
  · case isTrue allowed => exact ⟨allowed, Option.some.inj found⟩
  · cases found

theorem step_eq_some {a : Action} {db next : Db} (h : step a db = some next) :
  attempt db a = some next ∧ Consistent next
  := by
  obtain ⟨found, consistent⟩ := Option.filter_eq_some_iff.mp h
  exact ⟨found, of_decide_eq_true consistent⟩

theorem consistent_of_run {h : List (Db × Action)} {db : Db} (run : machine.Run h db) :
  ∀ u ∈ Machine.states h db, Consistent u
  := run.forall_states (fun _ h => h) fun _ _ _ _ hstep => (step_eq_some hstep).2

theorem setVersion_id (c : PromptVersion → Bool) (f : PromptVersion → PromptVersion)
    (v : PromptVersion) :
  (setVersion c f v).id = v.id
  := by
  unfold setVersion
  split
  · rfl
  · rfl

theorem setPrompt_id (c : Prompt → Bool) (f : Prompt → Prompt) (p : Prompt) :
  (setPrompt c f p).id = p.id
  := by
  unfold setPrompt
  split
  · rfl
  · rfl

/-- What a version of one state is in another: a version that is out has the same content. -/
structure Kept (v w : PromptVersion) : Prop where
  id : w.id = v.id
  content : w.content = v.content
  status : w.status ≠ .draft

/-- The trigger lets no update touch a version that is out. -/
theorem kept_setVersion {c : PromptVersion → Bool} {f : PromptVersion → PromptVersion} {db : Db}
    (h : passes c f db = true) {v : PromptVersion} (mem : v ∈ db.versions)
    (out : v.status ≠ .draft) :
  Kept v (setVersion c f v)
  := by
  have allowed := List.all_eq_true.mp h v mem
  have id := setVersion_id c f v
  cases hit : c v with
  | false =>
    have same : setVersion c f v = v := if_neg (by rw [hit]; exact Bool.false_ne_true)
    rw [same]
    exact ⟨rfl, rfl, out⟩
  | true =>
    rw [hit, Bool.not_true, Bool.false_or] at allowed
    unfold freezePublished at allowed
    rw [decide_eq_false out, Bool.false_or, Bool.and_eq_true, decide_eq_true_eq, Bool.or_eq_true,
      decide_eq_true_eq, decide_eq_true_eq] at allowed
    obtain ⟨content, status⟩ := allowed
    refine ⟨id, content, ?_⟩
    rcases status with published | archived
    · rw [published]
      exact nofun
    · rw [archived]
      exact nofun

/-- The statement does not remove the version. -/
def Action.Spares (id : ℕ) : Action → Prop
  | .removeVersions c => ∀ v : PromptVersion, v.id = id → c v = false
  | _ => True

/-- A version that is out stays out, with its content, as long as it is not removed. -/
theorem kept_of_step {a : Action} {db next : Db} (h : step a db = some next) {v : PromptVersion}
    (spares : a.Spares v.id) (mem : v ∈ db.versions) (out : v.status ≠ .draft) :
  ∃ w ∈ next.versions, Kept v w
  := by
  obtain ⟨found, -⟩ := step_eq_some h
  have same : Kept v v := ⟨rfl, rfl, out⟩
  cases a with
  | addPrompt p =>
    cases found
    exact ⟨v, mem, same⟩
  | setPrompts c f =>
    cases found
    exact ⟨v, mem, same⟩
  | removePrompts c =>
    cases found
    exact ⟨v, mem, same⟩
  | addVersion w =>
    cases found
    exact ⟨v, List.mem_append_left _ mem, same⟩
  | setVersions c f =>
    obtain ⟨allowed, rfl⟩ := attempt_setVersions found
    exact ⟨setVersion c f v, List.mem_map_of_mem mem, kept_setVersion allowed mem out⟩
  | removeVersions c =>
    cases found
    refine ⟨v, List.mem_filter.mpr ⟨mem, ?_⟩, same⟩
    rw [spares v rfl, Bool.not_false]

/-- The tables with one version. -/
def sampleDb (status : Status) : Db where
  prompts := [{ id := 1, tenantId := none, key := "rag_answer", activeVersionId := some 1 }]
  versions :=
    [{ id := 1, promptId := 1, version := 1, status := status, content := { template := "a" } }]

/-- An update of the status. -/
def sampleSet (status : Status) : Action :=
  .setVersions (fun _ => true) fun v => { v with status := status }

/-- A version is published, and archived. -/
theorem sample_run :
  machine.Run [(sampleDb .published, sampleSet .archived), (sampleDb .draft, sampleSet .published)]
    (sampleDb .archived)
  := by
  have start : machine.Run [] (sampleDb .draft) :=
    .init (show Consistent (sampleDb .draft) by decide)
  have first : machine.Run [(sampleDb .draft, sampleSet .published)] (sampleDb .published) :=
    start.step rfl
  exact first.step rfl

theorem answers_iff {p : Prompt} {n : ℤ} {v : PromptVersion} :
  answers p n v = true ↔ v.promptId = p.id ∧ v.version = n ∧ v.status = .published
  := by
  unfold answers
  simp only [Bool.and_eq_true, decide_eq_true_eq, and_assoc]

/-- The version that a number leads to is the only one. -/
theorem versionFor_eq_some_iff {t : ℕ} {key : String} {n : ℤ} {db : Db} (h : Consistent db)
    {v : PromptVersion} :
  versionFor t key n db = some v ↔
    (byKey t key db).map Prompt.id = some v.promptId ∧ v ∈ db.versions ∧ v.version = n ∧
      v.status = .published
  := by
  unfold versionFor
  rw [Option.bind_eq_some_iff, Option.map_eq_some_iff]
  constructor
  · rintro ⟨p, found, hit⟩
    obtain ⟨prompt, version, status⟩ := answers_iff.mp (List.find?_some hit)
    exact ⟨⟨p, found, prompt.symm⟩, List.mem_of_find?_eq_some hit, version, status⟩
  · rintro ⟨⟨p, found, prompt⟩, mem, version, status⟩
    refine ⟨p, found, ?_⟩
    have some' := List.find?_isSome.mpr ⟨v, mem, answers_iff.mpr ⟨prompt.symm, version, status⟩⟩
    obtain ⟨w, hit⟩ := Option.isSome_iff_exists.mp some'
    obtain ⟨prompt', version', -⟩ := answers_iff.mp (List.find?_some hit)
    have same : w = v := by
      refine List.inj_on_of_nodup_map h.numbers (List.mem_of_find?_eq_some hit) mem ?_
      unfold PromptVersion.number
      rw [prompt', version', prompt, version]
    rw [← same]
    exact hit

/-- The version that answers is one that its own number leads to. -/
theorem versionFor_of_activeVersion {t : ℕ} {key : String} {db : Db} (h : Consistent db)
    {v : PromptVersion} (active : activeVersion t key db = some v) :
  versionFor t key v.version db = some v
  := by
  unfold activeVersion at active
  simp only [Option.bind_eq_some_iff] at active
  obtain ⟨p, found, id, -, hit⟩ := active
  have matches' := List.find?_some hit
  simp only [Bool.and_eq_true, decide_eq_true_eq] at matches'
  refine (versionFor_eq_some_iff h).mpr ⟨?_, List.mem_of_find?_eq_some hit, rfl, matches'.2⟩
  rw [found, matches'.1.2]
  rfl

/-- The version that a rendering uses. -/
theorem versionFor_of_render {e : Engine} {t : ℕ} {key : String} {payload : Variables}
    {version : Option ℤ} {db : Db} (h : Consistent db) {r : RenderedPrompt}
    (rendered : render e t key payload version db = .ok r) :
  ∃ v, versionFor t key r.version db = some v ∧ renderVersion e key payload v = .ok r
  := by
  have number : ∀ {v : PromptVersion}, renderVersion e key payload v = .ok r →
      r.version = v.version := by
    intro v text
    unfold renderVersion at text
    split at text
    · cases text
    · split at text
      · cases text
      · cases text
        rfl
  unfold render at rendered
  cases found : resolve t key version db with
  | none =>
    rw [found] at rendered
    cases rendered
  | some v =>
    rw [found] at rendered
    refine ⟨v, ?_, rendered⟩
    rw [number rendered]
    cases version with
    | none => exact versionFor_of_activeVersion h found
    | some n =>
      have named : versionFor t key n db = some v := found
      rw [((versionFor_eq_some_iff h).mp named).2.2.1]
      exact named

/-- The statements that a prompt can be maintained with: versions are added, published, archived and
made active; drafts may be removed.  No version gets another number, and the prompts with the key
stay who they are. -/
def Maintains (key : String) (db : Db) : Action → Prop
  | .addPrompt p => p.key ≠ key
  | .setPrompts c f => ∀ p ∈ db.prompts, (setPrompt c f p).key = p.key ∧
      (setPrompt c f p).tenantId = p.tenantId ∧ (setPrompt c f p).deleted = p.deleted
  | .removePrompts c => ∀ p ∈ db.prompts, c p = true → p.key ≠ key
  | .addVersion _ => True
  | .setVersions c f => ∀ v ∈ db.versions, (setVersion c f v).number = v.number
  | .removeVersions c => ∀ v ∈ db.versions, c v = true → v.status = .draft

theorem byKey_of_candidates {t : ℕ} {key : String} {db next : Db} (g : Prompt → Prompt)
    (same : candidates t key next = (candidates t key db).map g)
    (id : ∀ p, (g p).id = p.id) (tenant : ∀ p ∈ candidates t key db, (g p).tenantId = p.tenantId) :
  (byKey t key next).map Prompt.id = (byKey t key db).map Prompt.id
  := by
  unfold byKey
  rw [same, List.find?_map, List.head?_map]
  have own : (candidates t key db).find? ((fun p => decide (p.tenantId = some t)) ∘ g) =
      (candidates t key db).find? fun p => p.tenantId = some t := by
    rw [← List.head?_filter, ← List.head?_filter]
    refine congrArg List.head? (List.filter_congr fun p mem => ?_)
    show decide ((g p).tenantId = some t) = decide (p.tenantId = some t)
    rw [tenant p mem]
  rw [own]
  cases (candidates t key db).find? fun p => p.tenantId = some t with
  | some p => exact congrArg some (id p)
  | none =>
    cases (candidates t key db).head? with
    | some p => exact congrArg some (id p)
    | none => rfl

/-- Maintenance does not change which prompt a key stands for. -/
theorem byKey_of_step {t : ℕ} {key : String} {a : Action} {db next : Db}
    (maintains : Maintains key db a) (h : step a db = some next) :
  (byKey t key next).map Prompt.id = (byKey t key db).map Prompt.id
  := by
  obtain ⟨found, -⟩ := step_eq_some h
  cases a with
  | addPrompt p =>
    cases found
    refine byKey_of_candidates id ?_ (fun _ => rfl) fun _ _ => rfl
    unfold candidates
    rw [List.map_id, List.filter_append, List.filter_cons_of_neg, List.filter_nil, List.append_nil]
    simp only [Bool.and_eq_true, decide_eq_true_eq]
    exact fun hit => maintains hit.2
  | setPrompts c f =>
    cases found
    refine byKey_of_candidates (setPrompt c f) ?_ (setPrompt_id c f) ?_
    · unfold candidates
      rw [List.filter_map]
      refine congrArg _ (List.filter_congr fun p mem => ?_)
      obtain ⟨keys, tenants, deleted⟩ := maintains p mem
      show (!(setPrompt c f p).deleted && (decide ((setPrompt c f p).tenantId = some t) ||
        decide ((setPrompt c f p).tenantId = none)) && decide ((setPrompt c f p).key = key)) = _
      rw [keys, tenants, deleted]
    · intro p mem
      exact (maintains p (List.mem_of_mem_filter mem)).2.1
  | removePrompts c =>
    cases found
    refine byKey_of_candidates id ?_ (fun _ => rfl) fun _ _ => rfl
    unfold candidates
    rw [List.map_id, List.filter_filter]
    refine List.filter_congr fun p mem => ?_
    cases hit : c p with
    | false => rw [Bool.not_false, Bool.and_true]
    | true =>
      rw [decide_eq_false (maintains p mem hit), Bool.and_false, Bool.false_and]
  | addVersion v =>
    cases found
    rfl
  | setVersions c f =>
    obtain ⟨-, rfl⟩ := attempt_setVersions found
    rfl
  | removeVersions c =>
    cases found
    rfl

/-- Maintenance keeps a version that is out, its content and its number. -/
theorem number_of_step {key : String} {a : Action} {db next : Db} (maintains : Maintains key db a)
    (h : step a db = some next) {v : PromptVersion} (mem : v ∈ db.versions)
    (out : v.status ≠ .draft) :
  ∃ w ∈ next.versions, Kept v w ∧ w.number = v.number
  := by
  obtain ⟨found, -⟩ := step_eq_some h
  have same : Kept v v := ⟨rfl, rfl, out⟩
  cases a with
  | addPrompt p =>
    cases found
    exact ⟨v, mem, same, rfl⟩
  | setPrompts c f =>
    cases found
    exact ⟨v, mem, same, rfl⟩
  | removePrompts c =>
    cases found
    exact ⟨v, mem, same, rfl⟩
  | addVersion w =>
    cases found
    exact ⟨v, List.mem_append_left _ mem, same, rfl⟩
  | setVersions c f =>
    obtain ⟨allowed, rfl⟩ := attempt_setVersions found
    exact ⟨_, List.mem_map_of_mem mem, kept_setVersion allowed mem out, maintains v mem⟩
  | removeVersions c =>
    cases found
    refine ⟨v, List.mem_filter.mpr ⟨mem, ?_⟩, same, rfl⟩
    cases hit : c v with
    | false => rfl
    | true => exact absurd (maintains v mem hit) out

/-- What a later state keeps of an earlier one, for a key. -/
structure Later (key : String) (u db : Db) : Prop where
  prompt : ∀ t, (byKey t key db).map Prompt.id = (byKey t key u).map Prompt.id
  versions : ∀ v ∈ u.versions, v.status ≠ .draft →
    ∃ w ∈ db.versions, Kept v w ∧ w.number = v.number

theorem Later.next {key : String} {a : Action} {u db next : Db} (h : Later key u db)
    (maintains : Maintains key db a) (hstep : step a db = some next) :
  Later key u next
  := by
  constructor
  · intro t
    rw [byKey_of_step maintains hstep]
    exact h.prompt t
  · intro v mem out
    obtain ⟨w, memW, keptW, numberW⟩ := h.versions v mem out
    obtain ⟨x, memX, keptX, numberX⟩ := number_of_step maintains hstep memW keptW.status
    exact ⟨x, memX, ⟨keptX.id.trans keptW.id, keptX.content.trans keptW.content, keptX.status⟩,
      numberX.trans numberW⟩

/-- The template is the text. -/
def sampleEngine : Engine where
  validate := fun _ _ => none
  render := fun template _ => .ok template

theorem byKey_of_own {t : ℕ} {key : String} {db : Db} (h : Consistent db) {p : Prompt}
    (mem : p ∈ db.prompts) (slot : p.slot = (some t, key)) (live : p.deleted = false) :
  byKey t key db = some p
  := by
  have tenant : p.tenantId = some t := congrArg Prod.fst slot
  have keys : p.key = key := congrArg Prod.snd slot
  have candidate : p ∈ candidates t key db := by
    refine List.mem_filter.mpr ⟨mem, ?_⟩
    rw [live, tenant, keys, decide_eq_true rfl, decide_eq_true rfl]
    rfl
  have found : ((candidates t key db).find? fun p => p.tenantId = some t).isSome = true :=
    List.find?_isSome.mpr ⟨p, candidate, decide_eq_true tenant⟩
  obtain ⟨q, hit⟩ := Option.isSome_iff_exists.mp found
  have own : q.tenantId = some t :=
    of_decide_eq_true (List.find?_some (p := fun p : Prompt => decide (p.tenantId = some t)) hit)
  have there := List.mem_filter.mp (List.mem_of_find?_eq_some hit)
  have same : q = p := by
    refine List.inj_on_of_nodup_map h.slots there.1 mem ?_
    have keyQ := (Bool.and_eq_true_iff.mp there.2).2
    unfold Prompt.slot
    rw [own, tenant, of_decide_eq_true keyQ, keys]
  unfold byKey
  rw [hit, same]
  rfl

theorem nodup_map_concat {α β : Type} {f : α → β} {xs : List α} (h : (xs.map f).Nodup) {x : α}
    (fresh : f x ∉ xs.map f) :
  ((xs ++ [x]).map f).Nodup
  := by
  rw [List.map_append, List.nodup_append]
  refine ⟨h, List.nodup_singleton _, fun y mem z mem' same => fresh ?_⟩
  rw [← List.mem_singleton.mp mem', ← same]
  exact mem

theorem step_addPrompt {db : Db} (h : Consistent db) {p : Prompt}
    (id : p.id ∉ db.prompts.map Prompt.id) (slot : p.slot ∉ db.prompts.map Prompt.slot) :
  step (.addPrompt p) db = some { db with prompts := db.prompts ++ [p] }
  := by
  refine Option.filter_eq_some_iff.mpr ⟨rfl, decide_eq_true ?_⟩
  refine ⟨nodup_map_concat h.promptIds id, nodup_map_concat h.slots slot, h.versionIds, h.numbers,
    fun v mem => ?_⟩
  obtain ⟨q, there, parent⟩ := h.parents v mem
  exact ⟨q, List.mem_append_left _ there, parent⟩

theorem step_addVersion {db : Db} (h : Consistent db) {v : PromptVersion}
    (id : v.id ∉ db.versions.map PromptVersion.id)
    (number : v.number ∉ db.versions.map PromptVersion.number)
    (parent : ∃ p ∈ db.prompts, p.id = v.promptId) :
  step (.addVersion v) db = some { db with versions := db.versions ++ [v] }
  := by
  refine Option.filter_eq_some_iff.mpr ⟨rfl, decide_eq_true ?_⟩
  refine ⟨h.promptIds, h.slots, nodup_map_concat h.versionIds id, nodup_map_concat h.numbers number,
    fun w mem => ?_⟩
  cases List.mem_append.mp mem with
  | inl mem => exact h.parents w mem
  | inr mem =>
    rw [List.mem_singleton.mp mem]
    exact parent

/-- A tenant that adopts a key gives the numbers of that key another meaning: whatever text of the
system a number has led to, there are two statements after which it leads nowhere, and to any text
that the tenant chooses. -/
theorem snapshot_shadowed {db : Db} (h : Consistent db) {t : ℕ} {key : String}
    (adopts : ∀ p ∈ db.prompts, p.slot ≠ (some t, key)) (n : ℤ) (content : Content) :
  ∃ p v db' db'', p.tenantId = some t ∧ v.content = content ∧
    step (.addPrompt p) db = some db' ∧ step (.addVersion v) db' = some db'' ∧
    ∀ e payload, render e t key payload (some n) db' = .error .notFound ∧
      render e t key payload (some n) db'' = renderVersion e key payload v
  := by
  obtain ⟨promptId, freshP⟩ := Infinite.exists_notMem_finset (db.prompts.map Prompt.id).toFinset
  obtain ⟨versionId, freshV⟩ :=
    Infinite.exists_notMem_finset (db.versions.map PromptVersion.id).toFinset
  rw [List.mem_toFinset] at freshP freshV
  let p : Prompt := { id := promptId, tenantId := some t, key := key }
  let v : PromptVersion :=
    { id := versionId, promptId := promptId, version := n, status := .published, content }
  have slot : p.slot ∉ db.prompts.map Prompt.slot := by
    intro mem
    obtain ⟨q, there, same⟩ := List.mem_map.mp mem
    exact adopts q there same
  -- No version is the prompt's yet, since every version has a prompt.
  have orphan : ∀ w ∈ db.versions, w.promptId ≠ promptId := by
    intro w mem same
    obtain ⟨q, there, parent⟩ := h.parents w mem
    exact freshP (List.mem_map.mpr ⟨q, there, parent.trans same⟩)
  have first := step_addPrompt h freshP slot
  have consistent := (step_eq_some first).2
  have there : p ∈ db.prompts ++ [p] := List.mem_append_right _ (List.mem_singleton.mpr rfl)
  have number : v.number ∉ db.versions.map PromptVersion.number := by
    intro mem
    obtain ⟨w, memW, same⟩ := List.mem_map.mp mem
    exact orphan w memW (congrArg Prod.fst same)
  have second := step_addVersion consistent freshV number ⟨p, there, rfl⟩
  refine ⟨p, v, _, _, rfl, rfl, first, second, fun e payload => ⟨?_, ?_⟩⟩
  · have nowhere : versionFor t key n { db with prompts := db.prompts ++ [p] } = none := by
      cases found : versionFor t key n { db with prompts := db.prompts ++ [p] } with
      | none => rfl
      | some w =>
        obtain ⟨prompt, mem, -⟩ := (versionFor_eq_some_iff consistent).mp found
        rw [byKey_of_own consistent there rfl rfl] at prompt
        exact absurd (Option.some.inj prompt).symm (orphan w mem)
    unfold render
    rw [show resolve t key (some n) { db with prompts := db.prompts ++ [p] } = none from nowhere]
  · have last := (step_eq_some second).2
    have found : versionFor t key n
        { prompts := db.prompts ++ [p], versions := db.versions ++ [v] } = some v := by
      refine (versionFor_eq_some_iff last).mpr ⟨?_, ?_, rfl, rfl⟩
      · rw [byKey_of_own last there rfl rfl]
        rfl
      · exact List.mem_append_right _ (List.mem_singleton.mpr rfl)
    unfold render
    rw [show resolve t key (some n)
      { prompts := db.prompts ++ [p], versions := db.versions ++ [v] } = some v from found]

/-- The first tenant adopts the key of the system. -/
theorem snapshot_shadowed_sample :
  ∃ p v db' db'', p.tenantId = some 1 ∧ v.content = { template := "b" } ∧
    step (.addPrompt p) (sampleDb .published) = some db' ∧ step (.addVersion v) db' = some db'' ∧
    ∀ e payload, render e 1 "rag_answer" payload (some 1) db' = .error .notFound ∧
      render e 1 "rag_answer" payload (some 1) db'' = renderVersion e "rag_answer" payload v
  := by
  refine snapshot_shadowed (show Consistent (sampleDb .published) by decide) ?_ 1
    { template := "b" }
  decide

end Lumina.Prompts.Versions
