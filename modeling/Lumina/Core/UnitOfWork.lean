import Mathlib.Data.Nat.Notation
import Mathlib.Data.List.Basic

/-!
# Transactions and the tenant

Every service opens its transactions with `tenant_context` and `unit_of_work` together.  The first
one sets a context variable, which the repositories filter by; the second one begins a transaction,
or a savepoint in the transaction that is open, and sets the parameter of the database that its row
level security goes by.  The parameter is local to the transaction: it is undone at the end, and
when a savepoint that is older is rolled back to, and kept when a savepoint is released.

Any statement may fail.  A transaction with a statement that failed refuses all others until a
savepoint is rolled back to.
-/

namespace Lumina.Core.UnitOfWork

abbrev TenantId := ℕ

inductive Exn where
  /-- `TenantContextMissingError` -/
  | tenantContextMissing
  /-- `CrossTenantTransactionError` -/
  | crossTenantTransaction (active requested : TenantId)
  /-- `DatabaseError`, also that of a transaction that refuses statements. -/
  | database
  /-- Any other exception. -/
  | other (n : ℕ)
deriving DecidableEq, Repr

abbrev Result := Except Exn Unit

/-! ### The database -/

inductive Statement where
  | begin
  | savepoint
  | setConfig (tenantId : TenantId)
  /-- A query of a repository, with its filter and what the parameter is. -/
  | query (filter : TenantId) (setting : Option TenantId)
  | release
  | rollbackTo
  | commit
  | rollback
deriving DecidableEq, Repr

/-- The connection of the database. -/
structure Database where
  /-- The parameter `app.tenant_id`. -/
  setting : Option TenantId := none
  /-- What the parameter was when the blocks that are open began, the innermost one first. -/
  saved : List (Option TenantId) := []
  /-- A statement of the transaction has failed. -/
  aborted : Bool := false
  /-- `needs_rollback`: statements are not even sent. -/
  needsRollback : Bool := false
deriving DecidableEq, Repr

structure World where
  /-- `_current_tenant_id` -/
  currentTenantId : Option TenantId
  /-- `_active_uow_tenant` -/
  activeUowTenant : Option TenantId := none
  db : Database := {}
  sent : List Statement := []
deriving DecidableEq, Repr

section Execution

-- which of the statements fail, by their number
variable (faults : ℕ → Bool)

/-- A statement is sent, and whether it succeeds. -/
def send (s : Statement) (w : World) : Bool × World :=
  (!faults w.sent.length, { w with sent := w.sent ++ [s] })

/-- A statement within or outside a transaction, other than those that end a block. -/
def execute (s : Statement) (w : World) : Result × World :=
  if w.db.needsRollback then (.error .database, w)
  else
    let (succeeds, w) := send faults s w
    if succeeds && !w.db.aborted then (.ok (), w)
    else if w.db.saved = [] then (.error .database, w)
    else (.error .database, { w with db := { w.db with aborted := true } })

/-- `transaction.atomic().__enter__` -/
def atomicEnter (w : World) : Result × World :=
  match execute faults (if w.db.saved = [] then .begin else .savepoint) w with
  | (.ok (), w) => (.ok (), { w with db := { w.db with saved := w.db.setting :: w.db.saved } })
  | (.error e, w) => (.error e, w)

/-- The block is rolled back.  If that fails within a transaction, all of it has to be. -/
def rollBack (w : World) : World :=
  match w.db.saved with
  | [] => w
  | [before] =>
      let (_, w) := send faults .rollback w
      { w with db := { setting := before } }
  | before :: saved =>
      let (succeeds, w) := send faults .rollbackTo w
      if succeeds then
        { w with db := { setting := before, saved } }
      else
        { w with db := { w.db with saved, needsRollback := true } }

/-- `transaction.atomic().__exit__` -/
def atomicExit (result : Result) (w : World) : Result × World :=
  match result with
  | .error e => (.error e, rollBack faults w)
  | .ok () =>
      if w.db.needsRollback then (.ok (), rollBack faults w)
      else
        match w.db.saved with
        | [] => (.ok (), w)
        | [before] =>
            let (succeeds, w) := send faults .commit w
            if succeeds then
              -- the commit of a transaction that refuses statements is its rollback
              (.ok (), { w with db := { setting := before } })
            else (.error .database, rollBack faults w)
        | _ :: saved =>
            let (succeeds, w) := send faults .release w
            if succeeds && !w.db.aborted then
              (.ok (), { w with db := { w.db with saved } })
            else (.error .database, rollBack faults w)

/-! ### The context managers -/

/-- `get_current_tenant_id` -/
def getCurrentTenantId (w : World) : Except Exn TenantId :=
  match w.currentTenantId with
  | some tenantId => .ok tenantId
  | none => .error .tenantContextMissing

/-- `_active_uow_tenant.reset`, with what has happened before. -/
def resetActive (token : Option TenantId) (r : Result × World) : Result × World :=
  (r.1, { r.2 with activeUowTenant := token })

/-- What follows the check of `unit_of_work`, up to the `yield`. -/
def begin_ (tenantId : TenantId) (w : World) : Result × World :=
  match atomicEnter faults w with
  | (.error e, w) => (.error e, w)
  | (.ok (), w) =>
      match execute faults (.setConfig tenantId) w with
      | (.ok (), w) => (.ok (), { w with db := { w.db with setting := some tenantId } })
      | (.error e, w) => atomicExit faults (.error e) w

/-- `unit_of_work`, up to the `yield`. -/
def unitOfWorkEnter (w : World) : Result × World :=
  match getCurrentTenantId w with
  | .error e => (.error e, w)
  | .ok tenantId =>
      if w.activeUowTenant.any (· ≠ tenantId) then
        (.error (.crossTenantTransaction (w.activeUowTenant.getD tenantId) tenantId), w)
      else
        match begin_ faults tenantId { w with activeUowTenant := some tenantId } with
        | (.ok (), w) => (.ok (), w)
        | (.error e, w') => resetActive w.activeUowTenant (.error e, w')

/-- `unit_of_work`, from the `yield` on. -/
def unitOfWorkExit (token : Option TenantId) (result : Result) (w : World) : Result × World :=
  resetActive token (atomicExit faults result w)

/-- `reset_current_tenant_id`, with what has happened before. -/
def resetCurrent (token : Option TenantId) (r : Result × World) : Result × World :=
  (r.1, { r.2 with currentTenantId := token })

/-- `with tenant_context(tenant_id), unit_of_work():`, up to the body. -/
def enterPair (tenantId : TenantId) (w : World) : Result × World :=
  match unitOfWorkEnter faults { w with currentTenantId := some tenantId } with
  | (.ok (), w) => (.ok (), w)
  | (.error e, w') => resetCurrent w.currentTenantId (.error e, w')

/-- The end of a pair that was opened in the world `before`. -/
def exitPair (before : World) (result : Result) (w : World) : Result × World :=
  resetCurrent before.currentTenantId (unitOfWorkExit faults before.activeUowTenant result w)

/-! ### Services -/

/-- The code of services, as far as it opens pairs and asks the repositories. -/
inductive Code where
  | nothing
  | query
  | raise (e : Exn)
  | seq (first second : Code)
  | pair (tenantId : TenantId) (body : Code)
  | attempt (body handler : Code)
deriving DecidableEq, Repr

/-- A query of a repository: `get_queryset` and its evaluation. -/
def query (w : World) : Result × World :=
  match getCurrentTenantId w with
  | .error e => (.error e, w)
  | .ok tenantId => execute faults (.query tenantId w.db.setting) w

def exec : Code → World → Result × World
  | .nothing, w => (.ok (), w)
  | .query, w => query faults w
  | .raise e, w => (.error e, w)
  | .seq first second, w =>
      match exec first w with
      | (.ok (), w) => exec second w
      | (.error e, w) => (.error e, w)
  | .pair tenantId body, w =>
      match enterPair faults tenantId w with
      | (.ok (), inside) =>
          let (result, inside) := exec body inside
          exitPair faults w result inside
      | (.error e, w) => (.error e, w)
  | .attempt body handler, w =>
      match exec body w with
      | (.ok (), w) => (.ok (), w)
      | (.error _, w) => exec handler w

/-- In the course of an execution, a part of the code comes to be executed in a world, where some
pairs are open, the innermost one first. -/
inductive Reaches : (pairs : List TenantId) → Code → World →
    (pairs' : List TenantId) → Code → World → Prop
  | here {pairs code w} : Reaches pairs code w pairs code w
  | first {pairs first second w pairs' code' w'} :
      Reaches pairs first w pairs' code' w' →
      Reaches pairs (.seq first second) w pairs' code' w'
  | second {pairs first second w middle pairs' code' w'} :
      exec faults first w = (.ok (), middle) →
      Reaches pairs second middle pairs' code' w' →
      Reaches pairs (.seq first second) w pairs' code' w'
  | body {pairs tenantId body w inside pairs' code' w'} :
      enterPair faults tenantId w = (.ok (), inside) →
      Reaches (tenantId :: pairs) body inside pairs' code' w' →
      Reaches pairs (.pair tenantId body) w pairs' code' w'
  | attempted {pairs body handler w pairs' code' w'} :
      Reaches pairs body w pairs' code' w' →
      Reaches pairs (.attempt body handler) w pairs' code' w'
  | handler {pairs body handler w e middle pairs' code' w'} :
      exec faults body w = (.error e, middle) →
      Reaches pairs handler middle pairs' code' w' →
      Reaches pairs (.attempt body handler) w pairs' code' w'

end Execution

/-! ### What each part does -/

/-- Nothing has changed that has to do with tenants. -/
structure Same (w w' : World) : Prop where
  current : w'.currentTenantId = w.currentTenantId
  active : w'.activeUowTenant = w.activeUowTenant
  setting : w'.db.setting = w.db.setting
  saved : w'.db.saved = w.db.saved

/-- A block has ended.  The parameter is what it was when the block began, or is left as it is if
the block is within another one. -/
structure Ended (w w' : World) : Prop where
  current : w'.currentTenantId = w.currentTenantId
  active : w'.activeUowTenant = w.activeUowTenant
  saved : w'.db.saved = w.db.saved.tail
  setting : w.db.saved.head? = some w'.db.setting ∨
    (w'.db.setting = w.db.setting ∧ w.db.saved.tail ≠ [])

section Parts

variable {faults : ℕ → Bool} {w w' : World} {r : Result}

theorem same_execute (s : Statement) (w : World) : Same w (execute faults s w).2 := by
  unfold execute send
  dsimp only
  split_ifs
  all_goals exact ⟨rfl, rfl, rfl, rfl⟩

theorem atomicEnter_ok (h : atomicEnter faults w = (.ok (), w')) :
  w'.currentTenantId = w.currentTenantId ∧ w'.activeUowTenant = w.activeUowTenant ∧
    w'.db.setting = w.db.setting ∧ w'.db.saved = w.db.setting :: w.db.saved
  := by
  have same := @same_execute faults (if w.db.saved = [] then .begin else .savepoint) w
  unfold atomicEnter at h
  split at h
  next middle hexec =>
    rw [hexec] at same
    cases h
    exact ⟨same.current, same.active, same.setting, by rw [same.setting, same.saved]⟩
  next => cases h

theorem atomicEnter_error {e : Exn} (h : atomicEnter faults w = (.error e, w')) : Same w w' := by
  have same := @same_execute faults (if w.db.saved = [] then .begin else .savepoint) w
  unfold atomicEnter at h
  split at h
  next => cases h
  next middle hexec =>
    rw [hexec] at same
    cases h
    exact same

theorem ended_rollBack (some : w.db.saved ≠ []) : Ended w (rollBack faults w) := by
  unfold rollBack send
  cases hsaved : w.db.saved with
  | nil => exact absurd hsaved some
  | cons before saved =>
    cases saved with
    | nil => exact ⟨rfl, rfl, by rw [hsaved]; rfl, Or.inl (by rw [hsaved]; rfl)⟩
    | cons before' saved =>
      dsimp only
      split
      · exact ⟨rfl, rfl, by rw [hsaved]; rfl, Or.inl (by rw [hsaved]; rfl)⟩
      · exact ⟨rfl, rfl, by rw [hsaved]; rfl, Or.inr ⟨rfl, by rw [hsaved]; exact List.cons_ne_nil _ _⟩⟩

theorem Ended.of_same {w'' : World} (h : Same w w') (h' : Ended w' w'') : Ended w w'' := by
  constructor
  · exact h'.current.trans h.current
  · exact h'.active.trans h.active
  · rw [h'.saved, h.saved]
  · rw [← h.saved, ← h.setting]
    exact h'.setting

theorem same_send (s : Statement) (w : World) : Same w (send faults s w).2 := ⟨rfl, rfl, rfl, rfl⟩

theorem ended_atomicExit (result : Result) (some : w.db.saved ≠ []) :
  Ended w (atomicExit faults result w).2
  := by
  unfold atomicExit
  cases result with
  | error e => exact ended_rollBack some
  | ok _ =>
    dsimp only
    split
    next => exact ended_rollBack some
    next =>
      cases hsaved : w.db.saved with
      | nil => exact absurd hsaved some
      | cons before saved =>
        have later (s : Statement) : Ended w (rollBack faults (send faults s w).2) :=
          .of_same (same_send s w) (ended_rollBack some)
        cases saved with
        | nil =>
          dsimp only
          split
          · exact ⟨rfl, rfl, by rw [hsaved]; rfl, Or.inl (by rw [hsaved]; rfl)⟩
          · exact later .commit
        | cons before' saved =>
          dsimp only
          split
          · refine ⟨rfl, rfl, by rw [hsaved]; rfl, Or.inr ⟨rfl, ?_⟩⟩
            rw [hsaved]
            exact List.cons_ne_nil _ _
          · exact later .release

theorem begin_ok {tenantId : TenantId} (h : begin_ faults tenantId w = (.ok (), w')) :
  w'.currentTenantId = w.currentTenantId ∧ w'.activeUowTenant = w.activeUowTenant ∧
    w'.db.setting = some tenantId ∧ w'.db.saved = w.db.setting :: w.db.saved
  := by
  unfold begin_ at h
  split at h
  next => cases h
  next middle henter =>
    obtain ⟨current, active, -, saved⟩ := atomicEnter_ok henter
    have same := @same_execute faults (.setConfig tenantId) middle
    split at h
    next last hexec =>
      rw [hexec] at same
      cases h
      exact ⟨same.current.trans current, same.active.trans active, rfl, same.saved.trans saved⟩
    next e last hexec =>
      cases congrArg Prod.fst h

/-- A transaction that could not be begun leaves nothing behind. -/
theorem begin_error {tenantId : TenantId} {e : Exn}
    (h : begin_ faults tenantId w = (.error e, w')) :
  Same w w'
  := by
  unfold begin_ at h
  split at h
  next middle henter =>
    cases h
    exact atomicEnter_error henter
  next middle henter =>
    obtain ⟨current, active, setting, saved⟩ := atomicEnter_ok henter
    have same := @same_execute faults (.setConfig tenantId) middle
    split at h
    next => cases h
    next e' last hexec =>
      rw [hexec] at same
      have lastSaved := same.saved.trans saved
      have ended := @ended_atomicExit faults _ (.error e')
        (show last.db.saved ≠ [] by rw [lastSaved]; exact List.cons_ne_nil _ _)
      rw [h] at ended
      constructor
      · exact ended.current.trans (same.current.trans current)
      · exact ended.active.trans (same.active.trans active)
      · obtain old | ⟨left, -⟩ := ended.setting
        · rw [lastSaved] at old
          exact (Option.some.inj old).symm
        · exact left.trans (same.setting.trans setting)
      · rw [ended.saved, lastSaved]
        rfl

end Parts

/-! ### What is in force -/

/-- The worlds in which some pairs are open: they are all of one tenant, and it is in force.
Outside of them `base` is the tenant of the context. -/
structure Bound (base : Option TenantId) (pairs : List TenantId) (w : World) : Prop where
  current : w.currentTenantId = pairs.head?.or base
  active : w.activeUowTenant = pairs.head?
  setting : w.db.setting = pairs.head?
  saved : w.db.saved = pairs.tails.tail.map List.head?
  one : ∀ t ∈ pairs, pairs.head? = some t

namespace Bound

variable {faults : ℕ → Bool} {base : Option TenantId} {pairs : List TenantId} {w w' : World}
  {tenantId : TenantId}

theorem of_same (h : Bound base pairs w) (same : Same w w') : Bound base pairs w' := by
  constructor
  · rw [same.current, h.current]
  · rw [same.active, h.active]
  · rw [same.setting, h.setting]
  · rw [same.saved, h.saved]
  · exact h.one

/-- Another tenant is refused before anything is sent. -/
theorem enterPair_other {t : TenantId} (h : Bound base (t :: pairs) w) (ne : tenantId ≠ t) :
  enterPair faults tenantId w = (.error (.crossTenantTransaction t tenantId), w)
  := by
  obtain ⟨current, active, db, sent⟩ := w
  obtain rfl : active = some t := h.active
  unfold enterPair unitOfWorkEnter getCurrentTenantId
  dsimp only
  rw [Option.any_some, if_pos (decide_eq_true ne.symm)]
  rfl

theorem enterPair_ok (h : Bound base pairs w) (henter : enterPair faults tenantId w = (.ok (), w')) :
  Bound base (tenantId :: pairs) w'
  := by
  have mine : ∀ t ∈ pairs, t = tenantId := by
    intro t ht
    by_contra ne
    cases pairs with
    | nil => cases ht
    | cons t' pairs =>
      have first : t' = t := Option.some.inj (h.one t ht)
      rw [h.enterPair_other fun same => ne (first.symm.trans same.symm)] at henter
      cases henter
  unfold enterPair unitOfWorkEnter getCurrentTenantId at henter
  dsimp only at henter
  split at henter
  next middle hunit =>
    cases henter
    split at hunit
    next => cases hunit
    next =>
      split at hunit
      next last hbegin =>
        cases hunit
        obtain ⟨current, active, setting, saved⟩ := begin_ok hbegin
        constructor
        · exact current
        · exact active
        · exact setting
        · rw [saved, h.setting, h.saved]
          cases pairs
          all_goals rfl
        · intro t ht
          obtain rfl | ht := List.mem_cons.mp ht
          · rfl
          · rw [mine t ht]
            rfl
      next => cases hunit
  next => cases henter

theorem enterPair_error {e : Exn} (h : Bound base pairs w)
    (henter : enterPair faults tenantId w = (.error e, w')) :
  Bound base pairs w'
  := by
  unfold enterPair unitOfWorkEnter getCurrentTenantId at henter
  dsimp only at henter
  split at henter
  next => cases henter
  next e' middle hunit =>
    cases henter
    split at hunit
    next =>
      cases hunit
      exact h.of_same ⟨rfl, rfl, rfl, rfl⟩
    next =>
      split at hunit
      next => cases hunit
      next e'' last hbegin =>
        cases hunit
        have same := begin_error hbegin
        exact h.of_same ⟨rfl, rfl, same.setting, same.saved⟩

theorem exitPair (h : Bound base pairs w) {inside : World} (hinside : Bound base (tenantId :: pairs) inside)
    (result : Result) :
  Bound base pairs (exitPair faults w result inside).2
  := by
  have saved : inside.db.saved = pairs.head? :: pairs.tails.tail.map List.head? := by
    rw [hinside.saved]
    cases pairs
    all_goals rfl
  have ended := @ended_atomicExit faults _ result
    (show inside.db.saved ≠ [] by rw [saved]; exact List.cons_ne_nil _ _)
  constructor
  · exact h.current
  · exact h.active
  · change (atomicExit faults result inside).2.db.setting = pairs.head?
    obtain old | ⟨left, nested⟩ := ended.setting
    · rw [saved] at old
      exact (Option.some.inj old).symm
    · -- a savepoint that is released, or cannot be rolled back to, keeps the value of the same tenant
      rw [left, hinside.setting]
      cases pairs with
      | nil =>
        rw [saved] at nested
        exact absurd rfl nested
      | cons t pairs => exact hinside.one t (List.mem_cons_of_mem _ List.mem_cons_self)
  · change (atomicExit faults result inside).2.db.saved = _
    rw [ended.saved, saved]
    rfl
  · exact h.one

/-- Code leaves what it has found. -/
theorem exec (code : Code) (h : Bound base pairs w) :
  Bound base pairs (exec faults code w).2
  := by
  induction code generalizing pairs w with
  | nothing => exact h
  | query =>
    unfold UnitOfWork.exec query
    split
    · exact h
    · exact h.of_same (same_execute _ w)
  | raise e => exact h
  | seq first second ihFirst ihSecond =>
    have first := ihFirst h
    unfold UnitOfWork.exec
    split
    next middle hexec =>
      rw [hexec] at first
      exact ihSecond first
    next e middle hexec =>
      rw [hexec] at first
      exact first
  | pair tenantId body ih =>
    unfold UnitOfWork.exec
    split
    next inside henter => exact h.exitPair (ih (h.enterPair_ok henter)) _
    next e middle henter => exact h.enterPair_error henter
  | attempt body handler ihBody ihHandler =>
    have body := ihBody h
    unfold UnitOfWork.exec
    split
    next middle hexec =>
      rw [hexec] at body
      exact body
    next e middle hexec =>
      rw [hexec] at body
      exact ihHandler body

theorem of_reaches {pairs' : List TenantId} {code code' : Code}
    (reaches : Reaches faults pairs code w pairs' code' w') (h : Bound base pairs w) :
  Bound base pairs' w'
  := by
  induction reaches with
  | here => exact h
  | first _ ih => exact ih h
  | @second pairs first second w middle _ _ _ hexec _ ih =>
    apply ih
    have after := @Bound.exec faults _ _ _ first h
    rwa [hexec] at after
  | body henter _ ih => exact ih (h.enterPair_ok henter)
  | attempted _ ih => exact ih h
  | @handler pairs body _ w _ _ _ _ _ hexec _ ih =>
    apply ih
    have after := @Bound.exec faults _ _ _ body h
    rwa [hexec] at after

end Bound

/-- The repositories and the database go by the tenant of the innermost pair, whatever has been
raised and caught before; a pair of another tenant is refused within it, and changes nothing. -/
theorem tenant_of_innermost_pair {faults : ℕ → Bool} {base : Option TenantId} {code code' : Code}
    {tenantId : TenantId} {pairs : List TenantId} {w : World}
    (reaches : Reaches faults [] code { currentTenantId := base } (tenantId :: pairs) code' w) :
  (getCurrentTenantId w = .ok tenantId ∧ w.db.setting = some tenantId ∧
      ∀ s ∈ (query faults w).2.sent, s ∈ w.sent ∨ s = .query tenantId (some tenantId)) ∧
    ∀ other, other ≠ tenantId → ∀ body,
      exec faults (.pair other body) w = (.error (.crossTenantTransaction tenantId other), w)
  := by
  have start : Bound base [] { currentTenantId := base } := by
    constructor
    case one => nofun
    all_goals rfl
  have bound := start.of_reaches reaches
  have current : getCurrentTenantId w = .ok tenantId := by
    unfold getCurrentTenantId
    rw [bound.current]
    rfl
  have setting : w.db.setting = some tenantId := bound.setting
  refine ⟨⟨current, setting, ?_⟩, ?_⟩
  · intro s hs
    unfold query at hs
    rw [current] at hs
    dsimp only at hs
    rw [setting] at hs
    unfold execute send at hs
    dsimp only at hs
    split_ifs at hs
    · exact Or.inl hs
    all_goals
      obtain old | new := List.mem_append.mp hs
      · exact Or.inl old
      · exact Or.inr (List.mem_singleton.mp new)
  · intro other ne body
    rw [exec, bound.enterPair_other ne]

/-- A savepoint that is rolled back, and a query after it. -/
theorem tenant_of_innermost_pair_caught :
  ∃ w, Reaches (fun _ => false) []
      (.pair 1 (.seq (.attempt (.pair 1 (.raise (.other 0))) .nothing) .query))
      { currentTenantId := none } [1] .query w ∧
    w.sent = [.begin, .setConfig 1, .savepoint, .setConfig 1, .rollbackTo] ∧
    w.db.setting = some 1
  := by
  refine ⟨_, .body rfl (.second rfl .here), rfl, ?_⟩
  exact (tenant_of_innermost_pair
    (Reaches.body rfl (.second rfl .here) : Reaches (fun _ => false) []
      (.pair 1 (.seq (.attempt (.pair 1 (.raise (.other 0))) .nothing) .query))
      { currentTenantId := none } [1] .query _)).1.2.1

end Lumina.Core.UnitOfWork
