import Lumina.Knowledge.KbConfig
import Lumina.Library.Table
import Lumina.Platform.Credentials
import Mathlib.Data.List.Sort

/-!
# TenantSettingsService

Any number of `update` calls of one tenant run at the same time, statement by statement.  The
credentials of a patch are stored or revoked first, each in a transaction of the credential service,
which is committed or leaves nothing; the settings follow in a transaction of their own, which reads
the document, merges the sections of the patch and writes the document as a whole.

The audit is left out: nothing of it is read.
-/

namespace Lumina.Platform.TenantSettings

open Transition ReadCommitted
open Knowledge (AppSettings Config ConfigValue FieldError validateTenantSettings)
open Credentials (CredentialView hintOf lastCommitted)

inductive SettingsError where
  | invalid (errors : List FieldError)
  | notFound (message : String)
  | operationalError
deriving DecidableEq, Repr

structure SettingsView where
  settings : Config
  credentials : List CredentialView

/-- What a call does next. -/
inductive Phase where
  /-- The loop over the credentials. -/
  | credentials (validated : Config) (rest : List (String × Option String))
  /-- `_require` -/
  | read (validated : Config)
  /-- `update_settings` -/
  | write (validated before : Config)
  | describe (validated merged : Config)
  | commit (validated merged : Config) (views : List CredentialView)
  | rollback (e : SettingsError)
  | ended (result : Except SettingsError SettingsView)

/-- The row of the tenant, the transactions of the credential service that have been committed,
latest first, each with the call that has made it, and the calls.  A ghost keeps the calls that have
committed their settings, each with its sections. -/
structure State where
  db : Db ℕ Unit Config
  credentials : List (Option ℕ × Credentials.Call) := []
  calls : List Phase := []
  updated : List (ℕ × Config) := []

namespace State

variable (s : State)

/-- The credential of a name. -/
def stored (name : String) : Option String :=
  lastCommitted name (s.credentials.map Prod.snd)

def commitCredential (i : ℕ) (call : Credentials.Call) : State :=
  { s with credentials := (some i, call) :: s.credentials }

def nameOf : Credentials.Call → String
  | .put name _ | .getSecret name | .delete name => name

/-- `CredentialService.describe` -/
def describe : List CredentialView :=
  let names := (s.credentials.map fun entry => nameOf entry.2).dedup.insertionSort (· ≤ ·)
  names.filterMap fun name => (s.stored name).map fun secret => ⟨name, hintOf secret⟩

/-- The call has committed no credential. -/
def Untouched (i : ℕ) : Prop := ∀ entry ∈ s.credentials, entry.1 ≠ some i

instance (i : ℕ) : Decidable (s.Untouched i) :=
  inferInstanceAs (Decidable (∀ entry ∈ s.credentials, entry.1 ≠ some i))

end State

/-- `str.strip` -/
def strip (secret : String) : String := String.ofList (Etl.strip secret.toList)

/-- The credentials of a patch that has been accepted: a secret, or the revocation. -/
def credentialsOf : ConfigValue → List (String × Option String)
  | .object members =>
    match members.lookup "credentials" with
    | some (.object credentials) => credentials.map fun (name, value) => match value with
      | .str secret => (name, some secret)
      | _ => (name, none)
    | _ => []
  | _ => []

/-- `{**before, **validated}`: of two members with one key the first one counts. -/
def merge (before validated : Config) : Config := validated ++ before

/-- The next step of a call: nothing while it has to wait. -/
def Phase.work (i : ℕ) (s : State) : Phase → Option (Phase × State)
  | .credentials validated [] => some (.read validated, s)
  | .credentials validated ((name, some secret) :: rest) =>
    some (.credentials validated rest, s.commitCredential i (.put name (strip secret)))
  | .credentials validated ((name, none) :: rest) =>
    -- `_revoke`: a credential that is absent already is as it should be
    if (s.stored name).isSome then
      some (.credentials validated rest, s.commitCredential i (.delete name))
    else
      some (.credentials validated rest, s)
  | .read validated =>
    match s.db.view i () with
    | none => some (.rollback (.notFound "租戶不存在"), s)
    | some before => some (.write validated before, s)
  | .write validated before =>
    (s.db.exec i (.update () fun _ => merge before validated)).map fun (_, db) =>
      (.describe validated (merge before validated), { s with db })
  | .describe validated merged => some (.commit validated merged s.describe, s)
  | .commit validated merged views =>
    some (.ended (.ok ⟨merged, views⟩),
      { s with db := s.db.commit i, updated := (i, validated) :: s.updated })
  | .rollback e => some (.ended (.error e), { s with db := s.db.rollback i })
  | .ended _ => none

/-- An operation of a call fails.  A transaction of the credential service leaves nothing then. -/
def Phase.fail : Phase → Option Phase
  | .credentials _ (_ :: _) => some (.ended (.error .operationalError))
  | .read _ | .write _ _ | .describe _ _ | .commit _ _ _ => some (.rollback .operationalError)
  | _ => none

section Service

variable (repr : ConfigValue → String) (app : AppSettings)

/-- `_validate` comes before everything else. -/
def begin (patch : ConfigValue) : Phase :=
  match validateTenantSettings repr patch app with
  | .error errors => .ended (.error (.invalid errors))
  | .ok validated => .credentials validated (credentialsOf patch)

inductive Action where
  | start (patch : ConfigValue)
  /-- The next step of a call. -/
  | work (i : ℕ)
  | fail (i : ℕ)

/-- The call that takes the step. -/
def Action.call : Action → Option ℕ
  | .start _ => none
  | .work i | .fail i => some i

def step : Action → State → Option State
  | .start patch, s => some { s with calls := s.calls ++ [begin repr app patch] }
  | .work i, s => do
    let phase ← s.calls[i]?
    let (phase', s') ← phase.work i s
    some { s' with calls := s.calls.set i phase' }
  | .fail i, s => do
    let phase ← s.calls[i]?
    let phase' ← phase.fail
    some { s with calls := s.calls.set i phase' }

/-- The tenant may have settings and credentials before the first call. -/
def service : Machine State Action where
  init s := (∀ i, s.db.Idle i) ∧ (∀ entry ∈ s.credentials, entry.1 = none) ∧ s.calls = [] ∧
    s.updated = []
  step := step repr app

end Service

/-- No other call has changed the settings between the read and the write, and what raises has
committed no credential. -/
def Admits (s : State) : Action → Prop
  | .start _ => True
  | .work i => ∀ phase, s.calls[i]? = some phase →
      match phase with
      | .write _ before => ∀ row, s.db.view i () = some row → row = before
      | .read _ => s.db.view i () = none → s.Untouched i
      | _ => True
  | .fail i => s.Untouched i

/-! ### One step of a call -/

section Steps

variable {s s' : State} {i j : ℕ} {phase phase' : Phase}

/-- What a step of a call does to the stores. -/
theorem work_cases (h : phase.work i s = some (phase', s')) :
  s' = s ∨ (∃ call, s' = s.commitCredential i call) ∨
    (∃ validated before db, phase = .write validated before ∧
      s.db.exec i (.update () fun _ => merge before validated) = some (true, db) ∧
      s' = { s with db }) ∨
    (∃ validated merged views, phase = .commit validated merged views ∧
      phase' = .ended (.ok ⟨merged, views⟩) ∧
      s' = { s with db := s.db.commit i, updated := (i, validated) :: s.updated }) ∨
    s' = { s with db := s.db.rollback i }
  := by
  cases phase with
  | credentials validated rest =>
    match rest with
    | [] =>
      cases h
      exact Or.inl rfl
    | (name, some secret) :: rest =>
      cases h
      exact Or.inr (Or.inl ⟨_, rfl⟩)
    | (name, none) :: rest =>
      simp only [Phase.work] at h
      split at h
      · cases h
        exact Or.inr (Or.inl ⟨_, rfl⟩)
      · cases h
        exact Or.inl rfl
  | read validated =>
    simp only [Phase.work] at h
    split at h
    all_goals
      cases h
      exact Or.inl rfl
  | write validated before =>
    obtain ⟨⟨found, db⟩, hexec, h⟩ := Option.map_eq_some_iff.mp h
    cases h
    obtain ⟨rfl, rfl, -⟩ | ⟨row, rfl, -⟩ := Db.exec_update hexec
    · exact Or.inl rfl
    · exact Or.inr (Or.inr (Or.inl ⟨validated, before, db, rfl, hexec, rfl⟩))
  | describe validated merged =>
    cases h
    exact Or.inl rfl
  | commit validated merged views =>
    cases h
    exact Or.inr (Or.inr (Or.inr (Or.inl ⟨validated, merged, views, rfl, rfl, rfl⟩)))
  | rollback e =>
    cases h
    exact Or.inr (Or.inr (Or.inr (Or.inr rfl)))
  | ended result => cases h

end Steps

/-! ### What holds of a call -/

/-- What a call has left in the stores, and what it holds of the row. -/
def Phase.Fits (s : State) (i : ℕ) : Phase → Prop
  | .credentials _ _ | .read _ | .ended (.ok _) => s.db.Idle i
  | .write _ _ => s.db.Idle i ∧ (s.db.committed ()).isSome
  | .describe validated _ | .commit validated _ _ =>
    ∃ row, s.db.committed () = some row ∧ s.db.pending () = some (i, some (merge row validated))
  | .rollback _ => s.Untouched i
  | .ended (.error _) => s.db.Idle i ∧ s.Untouched i

/-- A section that some call has changed has the value of such a call. -/
def Isolated (s : State) (name : String) : Prop :=
  (∃ x ∈ s.updated, (x.2.lookup name).isSome) →
    ∃ row, s.db.committed () = some row ∧
      ∃ x ∈ s.updated, (x.2.lookup name).isSome ∧ row.lookup name = x.2.lookup name

structure Inv (s : State) : Prop where
  fits : ∀ (i : ℕ) (phase : Phase), s.calls[i]? = some phase → phase.Fits s i
  holder : ∀ i v, s.db.pending () = some (i, v) → i < s.calls.length ∧ v.isSome
  owner : ∀ entry ∈ s.credentials, ∀ i, entry.1 = some i → i < s.calls.length
  updated : ∀ x ∈ s.updated, ∃ view, s.calls[x.1]? = some (.ended (.ok view))
  isolated : ∀ name, Isolated s name

section Invariant

variable {s s' : State} {i j : ℕ} {phase phase' : Phase}

/-- What a step of a call means to the other ones. -/
structure Others (i : ℕ) (s s' : State) : Prop where
  frame : ∀ j ≠ i, Db.Frame j s.db s'.db
  present : (s.db.committed ()).isSome → (s'.db.committed ()).isSome
  entries : ∀ entry ∈ s'.credentials, entry ∈ s.credentials ∨ entry.1 = some i
  calls : s'.calls = s.calls

theorem others_of_work (value : ∀ j v, s.db.pending () = some (j, v) → v.isSome)
    (h : phase.work i s = some (phase', s')) :
  Others i s s'
  := by
  obtain rfl | ⟨call, rfl⟩ | ⟨validated, before, db, -, hexec, rfl⟩ |
    ⟨validated, merged, views, -, -, rfl⟩ | rfl := work_cases h
  · exact ⟨fun j _ => Db.Frame.refl j _, id, fun _ => Or.inl, rfl⟩
  · refine ⟨fun j _ => Db.Frame.refl j _, id, ?_, rfl⟩
    intro entry hentry
    obtain rfl | old := List.mem_cons.mp hentry
    · exact Or.inr rfl
    · exact Or.inl old
  · refine ⟨fun j hne => Db.Frame.of_exec hne hexec, ?_, fun _ => Or.inl, rfl⟩
    obtain ⟨-, rfl, -⟩ | ⟨row, -, -, -, rfl⟩ := Db.exec_update hexec
    all_goals exact id
  · have hexec : s.db.exec i .commit = some ((), s.db.commit i) := rfl
    refine ⟨fun j hne => Db.Frame.of_exec hne hexec, ?_, fun _ => Or.inl, rfl⟩
    intro present
    show (s.db.view i ()).isSome
    by_cases held : ∃ v, s.db.pending () = some (i, v)
    · obtain ⟨v, hp⟩ := held
      rw [Db.view_of_pending hp]
      exact value i v hp
    · rw [Db.view_of_not_pending fun v hp => held ⟨v, hp⟩]
      exact present
  · have hexec : s.db.exec i .rollback = some ((), s.db.rollback i) := rfl
    exact ⟨fun j hne => Db.Frame.of_exec hne hexec, id, fun _ => Or.inl, rfl⟩

/-- A call that writes the row leaves a document there. -/
theorem pending_of_work (h : phase.work i s = some (phase', s')) {v : Option Config}
    (hp : s'.db.pending () = some (j, v)) :
  s.db.pending () = some (j, v) ∨ (j = i ∧ v.isSome)
  := by
  obtain rfl | ⟨call, rfl⟩ | ⟨validated, before, db, -, hexec, rfl⟩ |
    ⟨validated, merged, views, -, -, rfl⟩ | rfl := work_cases h
  · exact Or.inl hp
  · exact Or.inl hp
  · obtain ⟨-, rfl, -⟩ | ⟨row, -, -, -, rfl⟩ := Db.exec_update hexec
    · exact Or.inl hp
    · cases Db.pending_write_self.symm.trans hp
      exact Or.inr ⟨rfl, rfl⟩
  · exact Or.inl (Db.pending_commit.mp hp).2
  · exact Or.inl (Db.pending_rollback.mp hp).2

theorem Others.untouched (others : Others i s s') (hne : j ≠ i) (h : s.Untouched j) :
  s'.Untouched j
  := by
  intro entry hentry tagged
  obtain old | new := others.entries entry hentry
  · exact h entry old tagged
  · cases new.symm.trans tagged
    exact hne rfl

/-- A step of another call leaves a call what it has. -/
theorem Phase.Fits.others (fits : phase.Fits s j) (others : Others i s s') (hne : j ≠ i) :
  phase.Fits s' j
  := by
  have frame := others.frame j hne
  have holding (validated : Config) (h : ∃ row, s.db.committed () = some row ∧
      s.db.pending () = some (j, some (merge row validated))) :
      ∃ row, s'.db.committed () = some row ∧
        s'.db.pending () = some (j, some (merge row validated)) := by
    obtain ⟨row, committed, pending⟩ := h
    refine ⟨row, ?_, (frame.pending _ _).mpr pending⟩
    rw [frame.committed _ _ pending, committed]
  cases phase with
  | credentials validated rest => exact frame.idle fits
  | read validated => exact frame.idle fits
  | write validated before => exact ⟨frame.idle fits.1, others.present fits.2⟩
  | describe validated merged => exact holding validated fits
  | commit validated merged views => exact holding validated fits
  | rollback e => exact others.untouched hne fits
  | ended result =>
    cases result with
    | ok view => exact frame.idle fits
    | error e => exact ⟨frame.idle fits.1, others.untouched hne fits.2⟩

/-- A step of a call that is admitted leaves the call what it needs. -/
theorem Phase.Fits.work (fits : phase.Fits s i) (hcall : s.calls[i]? = some phase)
    (admits : Admits s (.work i)) (h : phase.work i s = some (phase', s')) :
  phase'.Fits s' i
  := by
  have admits := admits phase hcall
  cases phase with
  | credentials validated rest =>
    match rest with
    | [] =>
      cases h
      exact fits
    | (name, some secret) :: rest =>
      cases h
      exact fits
    | (name, none) :: rest =>
      simp only [Phase.work] at h
      split at h
      all_goals
        cases h
        exact fits
  | read validated =>
    simp only [Phase.work] at h
    split at h
    next absent =>
      cases h
      exact admits absent
    next before found =>
      cases h
      refine ⟨fits, ?_⟩
      rw [← Db.Idle.view fits, found]
      rfl
  | write validated before =>
    obtain ⟨idle, present⟩ := fits
    obtain ⟨⟨found, db⟩, hexec, h⟩ := Option.map_eq_some_iff.mp h
    cases h
    obtain ⟨-, -, absent⟩ | ⟨row, -, -, hrow, rfl⟩ := Db.exec_update hexec
    · rw [idle.view] at absent
      rw [absent] at present
      cases present
    · obtain rfl := admits row hrow
      rw [idle.view] at hrow
      exact ⟨row, hrow, Db.pending_write_self⟩
  | describe validated merged =>
    cases h
    exact fits
  | commit validated merged views =>
    cases h
    exact Db.idle_commit _
  | rollback e =>
    cases h
    exact ⟨Db.idle_rollback _, fits⟩
  | ended result => cases h

/-- A commit on the row that a call holds: the sections of the call have its values, and the other
sections those they have had. -/
theorem Isolated.commit {name : String} (isolated : Isolated s name) {validated row : Config}
    (committed : s.db.committed () = some row)
    (pending : s.db.pending () = some (i, some (merge row validated))) :
  Isolated { s with db := s.db.commit i, updated := (i, validated) :: s.updated } name
  := by
  intro changed
  refine ⟨merge row validated, Db.view_of_pending pending, ?_⟩
  have merged : (merge row validated).lookup name =
      (validated.lookup name).or (row.lookup name) := List.lookup_append
  cases own : validated.lookup name with
  | some value =>
    refine ⟨(i, validated), List.mem_cons_self, ?_, ?_⟩
    · exact Option.isSome_of_eq_some own
    · rw [merged, own]
      rfl
  | none =>
    have earlier : ∃ x ∈ s.updated, (x.2.lookup name).isSome := by
      obtain ⟨x, hx, hsome⟩ := changed
      obtain rfl | old := List.mem_cons.mp hx
      · rw [own] at hsome
        cases hsome
      · exact ⟨x, old, hsome⟩
    obtain ⟨row', committed', x, hx, hsome, value⟩ := isolated earlier
    cases committed.symm.trans committed'
    refine ⟨x, List.mem_cons_of_mem _ hx, hsome, ?_⟩
    rw [merged, own]
    exact value

namespace Inv

variable {repr : ConfigValue → String} {app : AppSettings}

theorem init (h : (service repr app).init s) : Inv s := by
  obtain ⟨idle, before, calls, updated⟩ := h
  constructor
  · intro i phase hcall
    rw [calls] at hcall
    cases hcall
  · exact fun i v hp => absurd hp (idle i () v)
  · intro entry hentry i tagged
    cases (before entry hentry).symm.trans tagged
  · intro x hx
    rw [updated] at hx
    cases hx
  · rintro name ⟨x, hx, -⟩
    rw [updated] at hx
    cases hx

/-- A new call has left nothing yet. -/
theorem start (inv : Inv s) (patch : ConfigValue) :
  Inv { s with calls := s.calls ++ [begin repr app patch] }
  := by
  have length : (s.calls ++ [begin repr app patch]).length = s.calls.length + 1 :=
    List.length_append
  have fresh : (begin repr app patch).Fits s s.calls.length := by
    have idle : s.db.Idle s.calls.length := by
      intro k v hp
      exact Nat.lt_irrefl _ (inv.holder _ v hp).1
    have untouched : s.Untouched s.calls.length := by
      intro entry hentry tagged
      exact Nat.lt_irrefl _ (inv.owner entry hentry _ tagged)
    unfold begin
    split
    · exact ⟨idle, untouched⟩
    · exact idle
  constructor
  · intro i phase hcall
    obtain old | ⟨rfl, rfl⟩ := Table.of_getElem?_concat hcall
    · exact inv.fits i phase old
    · exact fresh
  · intro i v hp
    obtain ⟨lt, value⟩ := inv.holder i v hp
    exact ⟨Nat.lt_of_lt_of_eq (Nat.lt_succ_of_lt lt) length.symm, value⟩
  · intro entry hentry i tagged
    have lt := inv.owner entry hentry i tagged
    exact Nat.lt_of_lt_of_eq (Nat.lt_succ_of_lt lt) length.symm
  · intro x hx
    obtain ⟨view, hcall⟩ := inv.updated x hx
    obtain ⟨below, -⟩ := List.getElem?_eq_some_iff.mp hcall
    exact ⟨view, (List.getElem?_append_left below).trans hcall⟩
  · exact inv.isolated

/-- A call that fails has left no credential. -/
theorem fail (inv : Inv s) (hcall : s.calls[i]? = some phase) (hfail : phase.fail = some phase')
    (untouched : s.Untouched i) :
  Inv { s with calls := s.calls.set i phase' }
  := by
  have length : (s.calls.set i phase').length = s.calls.length := List.length_set
  have fits := inv.fits i phase hcall
  have fits' : phase'.Fits s i := by
    cases phase with
    | credentials validated rest =>
      cases rest with
      | nil => cases hfail
      | cons credential rest =>
        cases hfail
        exact ⟨fits, untouched⟩
    | rollback e => cases hfail
    | ended result => cases hfail
    | _ =>
      cases hfail
      exact untouched
  constructor
  · intro j phase hcall
    obtain ⟨rfl, rfl⟩ | ⟨-, old⟩ := Table.of_getElem?_set hcall
    · exact fits'
    · exact inv.fits j phase old
  · intro j v hp
    rw [length]
    exact inv.holder j v hp
  · intro entry hentry j tagged
    rw [length]
    exact inv.owner entry hentry j tagged
  · intro x hx
    obtain ⟨view, hended⟩ := inv.updated x hx
    have other : i ≠ x.1 := by
      rintro rfl
      cases hcall.symm.trans hended
      cases hfail
    exact ⟨view, (List.getElem?_set_ne other).trans hended⟩
  · exact inv.isolated

theorem work (inv : Inv s) (hcall : s.calls[i]? = some phase) (admits : Admits s (.work i))
    (h : phase.work i s = some (phase', s')) :
  Inv { s' with calls := s.calls.set i phase' }
  := by
  have length : (s.calls.set i phase').length = s.calls.length := List.length_set
  obtain ⟨below, -⟩ := List.getElem?_eq_some_iff.mp hcall
  have fits := inv.fits i phase hcall
  have others := others_of_work (fun j v hp => (inv.holder j v hp).2) h
  constructor
  · intro j phase hcall'
    obtain ⟨rfl, rfl⟩ | ⟨other, old⟩ := Table.of_getElem?_set hcall'
    · have own : phase.Fits s' j := fits.work hcall admits h
      exact own
    · have kept : phase.Fits s' j := (inv.fits j phase old).others others other
      exact kept
  · intro j v hp
    rw [length]
    obtain old | ⟨rfl, value⟩ := pending_of_work h hp
    · exact inv.holder j v old
    · exact ⟨below, value⟩
  · intro entry hentry j tagged
    rw [length]
    obtain old | new := others.entries entry hentry
    · exact inv.owner entry old j tagged
    · cases new.symm.trans tagged
      exact below
  · intro x hx
    have ended : ∀ x ∈ s.updated, ∃ view, (s.calls.set i phase')[x.1]? =
        some (.ended (.ok view)) := by
      intro x hx
      obtain ⟨view, hended⟩ := inv.updated x hx
      have other : i ≠ x.1 := by
        rintro rfl
        cases hcall.symm.trans hended
        cases h
      exact ⟨view, (List.getElem?_set_ne other).trans hended⟩
    obtain rfl | ⟨call, rfl⟩ | ⟨validated, before, db, -, -, rfl⟩ |
      ⟨validated, merged, views, -, rfl, rfl⟩ | rfl := work_cases h
    · exact ended x hx
    · exact ended x hx
    · exact ended x hx
    · obtain rfl | old := List.mem_cons.mp hx
      · exact ⟨_, List.getElem?_set_self below⟩
      · exact ended x old
    · exact ended x hx
  · intro name
    obtain rfl | ⟨call, rfl⟩ | ⟨validated, before, db, -, hexec, rfl⟩ |
      ⟨validated, merged, views, rfl, rfl, rfl⟩ | rfl := work_cases h
    · exact inv.isolated name
    · exact inv.isolated name
    · obtain ⟨-, rfl, -⟩ | ⟨row, -, -, -, rfl⟩ := Db.exec_update hexec
      all_goals exact inv.isolated name
    · obtain ⟨row, committed, pending⟩ := fits
      exact (inv.isolated name).commit committed pending
    · exact inv.isolated name

theorem step (inv : Inv s) {a : Action} (admits : Admits s a)
    (h : (service repr app).step a s = some s') :
  Inv s'
  := by
  cases a with
  | start patch =>
    cases h
    apply inv.start
  | work i =>
    obtain ⟨phase, hcall, h⟩ := Option.bind_eq_some_iff.mp h
    obtain ⟨⟨phase', t⟩, hwork, h⟩ := Option.bind_eq_some_iff.mp h
    cases h
    exact inv.work hcall admits hwork
  | fail i =>
    obtain ⟨phase, hcall, h⟩ := Option.bind_eq_some_iff.mp h
    obtain ⟨phase', hfail, h⟩ := Option.bind_eq_some_iff.mp h
    cases h
    exact inv.fail hcall hfail admits

end Inv

end Invariant

/-! ### Runs -/

section Runs

variable {repr : ConfigValue → String} {app : AppSettings} {h : List (State × Action)}
  {s s' : State} {a : Action}

/-- What has been committed stays on record. -/
theorem step_records (hstep : (service repr app).step a s = some s') :
  s.credentials ⊆ s'.credentials ∧ s.updated ⊆ s'.updated
  := by
  cases a with
  | start patch =>
    cases hstep
    exact ⟨List.Subset.refl _, List.Subset.refl _⟩
  | work i =>
    obtain ⟨phase, -, hstep⟩ := Option.bind_eq_some_iff.mp hstep
    obtain ⟨⟨phase', t⟩, hwork, hstep⟩ := Option.bind_eq_some_iff.mp hstep
    cases hstep
    obtain rfl | ⟨call, rfl⟩ | ⟨validated, before, db, -, -, rfl⟩ |
      ⟨validated, merged, views, -, -, rfl⟩ | rfl := work_cases hwork
    · exact ⟨List.Subset.refl _, List.Subset.refl _⟩
    · exact ⟨List.subset_cons_self _ _, List.Subset.refl _⟩
    · exact ⟨List.Subset.refl _, List.Subset.refl _⟩
    · exact ⟨List.Subset.refl _, List.subset_cons_self _ _⟩
    · exact ⟨List.Subset.refl _, List.Subset.refl _⟩
  | fail i =>
    obtain ⟨phase, -, hstep⟩ := Option.bind_eq_some_iff.mp hstep
    obtain ⟨phase', -, hstep⟩ := Option.bind_eq_some_iff.mp hstep
    cases hstep
    exact ⟨List.Subset.refl _, List.Subset.refl _⟩

/-- A step of a call changes the settings and the credentials only if that is on record. -/
theorem step_changes {i : ℕ} (own : a.call = some i)
    (hstep : (service repr app).step a s = some s') (untouched : s'.Untouched i)
    (unchanged : ∀ x ∈ s'.updated, x.1 ≠ i) :
  s'.db.committed = s.db.committed ∧ s'.credentials = s.credentials
  := by
  cases a with
  | start patch => cases own
  | work j =>
    cases own
    obtain ⟨phase, -, hstep⟩ := Option.bind_eq_some_iff.mp hstep
    obtain ⟨⟨phase', t⟩, hwork, hstep⟩ := Option.bind_eq_some_iff.mp hstep
    cases hstep
    obtain rfl | ⟨call, rfl⟩ | ⟨validated, before, db, -, hexec, rfl⟩ |
      ⟨validated, merged, views, -, -, rfl⟩ | rfl := work_cases hwork
    · exact ⟨rfl, rfl⟩
    · exact absurd rfl (untouched _ List.mem_cons_self)
    · obtain ⟨-, rfl, -⟩ | ⟨row, -, -, -, rfl⟩ := Db.exec_update hexec
      all_goals exact ⟨rfl, rfl⟩
    · exact absurd rfl (unchanged _ List.mem_cons_self)
    · exact ⟨rfl, rfl⟩
  | fail j =>
    obtain ⟨phase, -, hstep⟩ := Option.bind_eq_some_iff.mp hstep
    obtain ⟨phase', -, hstep⟩ := Option.bind_eq_some_iff.mp hstep
    cases hstep
    exact ⟨rfl, rfl⟩

/-- In a run in which no other call changes the settings between the read and the write of a call,
and in which a call raises only before it has committed a credential, each section that a call has
changed has the value of such a call, and a call that has raised has changed neither the settings
nor the credentials. -/
theorem update_isolated_and_atomic (run : (service repr app).Run h s)
    (admitted : ∀ x ∈ h, Admits x.1 x.2) :
  (∀ u ∈ Machine.states h s, ∀ name, Isolated u name) ∧
    ∀ i e, s.calls[i]? = some (.ended (.error e)) →
      ∀ x ∈ h, x.2.call = some i → ∀ t, (service repr app).step x.2 x.1 = some t →
        t.db.committed = x.1.db.committed ∧ t.credentials = x.1.credentials
  := by
  have step (a : Action) (t t' : State) (inv : Inv t) (admits : Admits t a)
      (hstep : (service repr app).step a t = some t') : Inv t' := inv.step admits hstep
  have invs := run.forall_states_of_guard (fun _ => Inv.init) step admitted
  constructor
  · exact fun u hu => (invs u hu).isolated
  · intro i e raised x hx own t hstep
    have inv := invs s List.mem_cons_self
    have untouched : s.Untouched i := (inv.fits i _ raised).2
    have unchanged : ∀ x ∈ s.updated, x.1 ≠ i := by
      rintro x hx rfl
      obtain ⟨view, succeeded⟩ := inv.updated x hx
      cases raised.symm.trans succeeded
    have later : t.credentials ⊆ s.credentials ∧ t.updated ⊆ s.updated := by
      obtain ⟨t', ht', hstep'⟩ := run.next hx
      cases hstep.symm.trans hstep'
      refine run.forall_later (I := fun _ => True) (G := fun _ _ => True)
        (R := fun u v => u.credentials ⊆ v.credentials ∧ u.updated ⊆ v.updated)
        (fun _ _ => trivial) (fun _ _ _ _ _ _ => trivial)
        (fun _ => ⟨List.Subset.refl _, List.Subset.refl _⟩) ?_ (fun _ _ => trivial) t ht'
      intro a u v w _ _ before hstep
      obtain ⟨credentials, updated⟩ := step_records hstep
      exact ⟨List.Subset.trans before.1 credentials, List.Subset.trans before.2 updated⟩
    apply step_changes own hstep
    · exact fun entry hentry => untouched entry (later.1 hentry)
    · exact fun x hx => unchanged x (later.2 hx)

end Runs

section Example

def quotaPatch : ConfigValue :=
  .object [("quota", .object [("tokens_month", .int 5)])]

def chunkPatch : ConfigValue :=
  .object [("chunk", .object [("target_tokens", .int 512)])]

def credentialPatch : ConfigValue :=
  .object [("credentials", .object [("openai_api_key", .str "sk-1")])]

/-- A tenant without settings and credentials. -/
def fresh : State := { db := Db.ofRows fun _ => some [] }

theorem fresh_init (repr : ConfigValue → String) (app : AppSettings) :
  (service repr app).init fresh
  := by
  refine ⟨fun _ => Db.idle_ofRows _, ?_, rfl, rfl⟩
  rintro entry ⟨⟩

def failedFirst (s : State) : Bool :=
  match s.calls[(0 : ℕ)]? with
  | some (.ended (.error .operationalError)) => true
  | _ => false

theorem of_failedFirst {s : State} (h : failedFirst s = true) :
  s.calls[0]? = some (.ended (.error .operationalError))
  := by
  unfold failedFirst at h
  split at h
  next hcall => exact hcall
  next => cases h

/-- `Admits`, as far as a document without sections is concerned. -/
def admitsEmpty (s : State) : Action → Bool
  | .start _ => true
  | .work i =>
    match s.calls[i]? with
    | some (.write _ before) => before.isEmpty && (s.db.view i ()).all List.isEmpty
    | some (.read _) => (s.db.view i ()).isSome
    | _ => true
  | .fail i => decide (s.Untouched i)

theorem admits_of_empty {s : State} {a : Action} (h : admitsEmpty s a = true) : Admits s a := by
  cases a with
  | start patch => trivial
  | work i =>
    intro phase hcall
    rw [admitsEmpty, hcall] at h
    cases phase with
    | write validated before =>
      intro row hrow
      rw [hrow] at h
      obtain ⟨nothing, nothing'⟩ := Bool.and_eq_true_iff.mp h
      rw [List.isEmpty_iff.mp nothing, List.isEmpty_iff.mp nothing']
    | read validated =>
      intro absent
      rw [absent] at h
      cases h
    | _ => trivial
  | fail i =>
    have untouched : s.Untouched i := of_decide_eq_true h
    exact untouched

/-- A call that fails in its transaction, and another one that changes a section. -/
theorem update_isolated_and_atomic_quota :
  ∃ h s, (service (fun _ => "") {}).Run h s ∧ (∀ x ∈ h, Admits x.1 x.2) ∧
    s.calls[0]? = some (.ended (.error .operationalError)) ∧
    (∃ row, s.db.committed () = some row ∧ (row.lookup "quota").isSome) ∧
    ∀ x ∈ h, x.2.call = some 0 → ∀ t, (service (fun _ => "") {}).step x.2 x.1 = some t →
      t.db.committed = x.1.db.committed ∧ t.credentials = x.1.credentials
  := by
  obtain ⟨h, s, run, admitted, result⟩ := (service (fun _ => "") {}).exists_run_of_execWhile
    [.start chunkPatch, .start quotaPatch, .work 0, .work 1, .work 0, .work 0, .fail 0, .work 0,
      .work 1, .work 1, .work 1, .work 1]
    admitsEmpty
    (fun s => failedFirst s && (s.db.committed ()).any fun row => (row.lookup "quota").isSome)
    (fresh_init _ _) (by decide +kernel)
  have admitted : ∀ x ∈ h, Admits x.1 x.2 := fun x hx => admits_of_empty (admitted x hx)
  obtain ⟨raised, changed⟩ := Bool.and_eq_true_iff.mp result
  rw [Option.any_eq_true] at changed
  have raised := of_failedFirst raised
  exact ⟨h, s, run, admitted, raised, changed,
    (update_isolated_and_atomic run admitted).2 0 _ raised⟩

/-- Of two calls that both read the settings before either of them writes, the second one undoes
what the first one has changed; and a call that fails after it has stored a credential leaves it. -/
theorem update_loses_and_leaves :
  (∃ h s, (service (fun _ => "") {}).Run h s ∧ ¬Isolated s "quota") ∧
    ∃ h s, (service (fun _ => "") {}).Run h s ∧
      s.calls[0]? = some (.ended (.error .operationalError)) ∧ ¬s.Untouched 0 ∧
      s.stored "openai_api_key" = some "sk-1"
  := by
  constructor
  · obtain ⟨h, s, run, result⟩ := (service (fun _ => "") {}).exists_run_of_exec
      [.start quotaPatch, .start chunkPatch, .work 0, .work 1, .work 0, .work 1, .work 0, .work 0,
        .work 0, .work 1, .work 1, .work 1]
      (fun s : State => (s.updated.any fun x => (x.2.lookup "quota").isSome) &&
        (s.db.committed ()).all fun row => (row.lookup "quota").isNone)
      (fresh_init _ _) (by decide +kernel)
    refine ⟨h, s, run, ?_⟩
    obtain ⟨changed, lost⟩ := Bool.and_eq_true_iff.mp result
    intro isolated
    obtain ⟨row, committed, x, -, hsome, value⟩ := isolated (List.any_eq_true.mp changed)
    rw [committed] at lost
    have none : row.lookup "quota" = none := Option.isNone_iff_eq_none.mp lost
    rw [← value, none] at hsome
    cases hsome
  · obtain ⟨h, s, run, result⟩ := (service (fun _ => "") {}).exists_run_of_exec
      [.start credentialPatch, .work 0, .work 0, .fail 0, .work 0]
      (fun s => failedFirst s &&
        decide (¬s.Untouched 0 ∧ s.stored "openai_api_key" = some "sk-1"))
      (fresh_init _ _) (by decide +kernel)
    obtain ⟨raised, left⟩ := Bool.and_eq_true_iff.mp result
    exact ⟨h, s, run, of_failedFirst raised, of_decide_eq_true left⟩

end Example

end Lumina.Platform.TenantSettings
