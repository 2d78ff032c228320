import Mathlib.Data.List.Nodup

/-!
# Row level security

The policies that the migrations give to the tables, and what the application's statements do under
them.  A session has a tenant, or none; a statement is any query, insertion, update or deletion on
any table, with any condition.  So this is about statements that forget to name the tenant, and about
those that name another one.

Every row has an id of its own, and a version of a prompt belongs to a prompt.  Other constraints are
left out, and so is the owner of the tables, whose statements are those of a deployment.  A statement
is committed on its own.
-/

namespace Lumina.Core.RowSecurity

abbrev TenantId := ℕ

/-- `app.tenant_id` -/
abbrev Session := Option TenantId

inductive Table where
  /-- `identity_tenant` -/
  | tenant
  /-- `identity_role` -/
  | role
  /-- `identity_role_permission` -/
  | rolePermission
  /-- `ai_prompt` -/
  | prompt
  /-- `ai_promptversion` -/
  | promptVersion
  /-- The tables with the policy of `_rls.enable`. -/
  | plain (name : String)
deriving DecidableEq, Repr

structure Row where
  table : Table
  id : ℕ
  tenantId : Option TenantId
  /-- `prompt_id` -/
  parent : Option ℕ
  content : String
deriving DecidableEq, Repr

abbrev Db := List Row

/-! ### Policies -/

/-- `tenant_id = CURRENT_TENANT`, which is not true if one of them is null. -/
def mineOnly (s : Session) (row : Row) : Bool :=
  row.tenantId.isSome && row.tenantId = s

/-- `tenant_id IS NULL OR tenant_id = CURRENT_TENANT` -/
def sharedOrMine (s : Session) (row : Row) : Bool :=
  row.tenantId.isNone || mineOnly s row

/-- A prompt that a version belongs to, and that the session sees. -/
def isParent (s : Session) (row q : Row) : Bool :=
  q.table = .prompt && some q.id = row.parent && sharedOrMine s q

/-- `VERSION_VISIBLE` -/
def versionVisible (db : Db) (s : Session) (row : Row) : Bool :=
  db.any fun q => isParent s row q

/-- `VERSION_MINE_ONLY` -/
def versionMineOnly (db : Db) (s : Session) (row : Row) : Bool :=
  db.any fun q => isParent s row q && mineOnly s q

/-- The conditions of the policies of a table, by command.  An update has one for the old row and
one for the new. -/
structure Policy where
  select : Db → Session → Row → Bool
  insert : Db → Session → Row → Bool
  updateUsing : Db → Session → Row → Bool
  updateCheck : Db → Session → Row → Bool
  delete : Db → Session → Row → Bool

/-- `CREATE POLICY tenant_isolation … USING … WITH CHECK …`, for all commands. -/
def isolation (condition : Session → Row → Bool) : Policy where
  select _ := condition
  insert _ := condition
  updateUsing _ := condition
  updateCheck _ := condition
  delete _ := condition

def policies : Table → Policy
  | .tenant => isolation fun s row => s = some row.id
  | .role | .rolePermission =>
      { select := fun _ => sharedOrMine, insert := fun _ => sharedOrMine
        updateUsing := fun _ => mineOnly, updateCheck := fun _ => mineOnly
        delete := fun _ => mineOnly }
  | .prompt =>
      { select := fun _ => sharedOrMine, insert := fun _ => mineOnly
        updateUsing := fun _ => mineOnly, updateCheck := fun _ => mineOnly
        delete := fun _ => mineOnly }
  | .promptVersion =>
      { select := versionVisible, insert := versionMineOnly
        updateUsing := versionMineOnly, updateCheck := versionMineOnly
        delete := versionMineOnly }
  | .plain _ => isolation mineOnly

/-! ### Statements -/

/-- The columns that an update sets. -/
structure Values where
  tenantId : Option TenantId
  parent : Option ℕ
  content : String

def Row.set (row : Row) (v : Values) : Row :=
  { row with tenantId := v.tenantId, parent := v.parent, content := v.content }

inductive Statement where
  | select (table : Table) (p : Row → Bool)
  | insert (row : Row)
  | update (table : Table) (p : Row → Bool) (f : Row → Values)
  | delete (table : Table) (p : Row → Bool)

inductive Answer where
  | rows (found : List Row)
  | count (n : ℕ)
  | refused
deriving DecidableEq, Repr

def Row.key (row : Row) : Table × ℕ := (row.table, row.id)

/-- The session sees the row. -/
def visible (db : Db) (s : Session) (row : Row) : Bool :=
  (policies row.table).select db s row

/-- The rows that a session sees. -/
def view (s : Session) (db : Db) : Db := db.filter (visible db s)

/-- The row can be inserted. -/
def insertable (s : Session) (db : Db) (row : Row) : Bool :=
  (policies row.table).insert db s row && !db.any fun q => q.key = row.key

/-- The row is updated.  Its columns are read by the condition, and so it has to be visible. -/
def updated (s : Session) (db : Db) (table : Table) (p : Row → Bool) (row : Row) : Bool :=
  row.table = table && visible db s row && (policies table).updateUsing db s row && p row

/-- The new row is allowed. -/
def settable (s : Session) (db : Db) (table : Table) (row : Row) : Bool :=
  (policies table).updateCheck db s row && (policies table).select db s row

/-- The row is deleted. -/
def deleted (s : Session) (db : Db) (table : Table) (p : Row → Bool) (row : Row) : Bool :=
  row.table = table && visible db s row && (policies table).delete db s row && p row

/-- The row is a version of a prompt that is deleted. -/
def orphaned (gone : Row → Bool) (db : Db) (row : Row) : Bool :=
  row.table = .promptVersion &&
    db.any fun q => q.table = .prompt && some q.id = row.parent && gone q

def execute (s : Session) (db : Db) : Statement → Db × Answer
  | .select table p =>
      (db, .rows (db.filter fun row => row.table = table && visible db s row && p row))
  | .insert row =>
      if insertable s db row then (db ++ [row], .count 1) else (db, .refused)
  | .update table p f =>
      if db.all fun row => !updated s db table p row || settable s db table (row.set (f row)) then
        (db.map fun row => if updated s db table p row then row.set (f row) else row,
          .count (db.countP (updated s db table p)))
      else (db, .refused)
  | .delete table p =>
      if db.any (orphaned (deleted s db table p) db) then (db, .refused)
      else
        (db.filter fun row => !deleted s db table p row, .count (db.countP (deleted s db table p)))

/-- A statement of a session. -/
structure Event where
  session : Session
  statement : Statement

def step (e : Event) (db : Db) : Db × Answer := execute e.session db e.statement

@[simp]
theorem set_table (row : Row) (v : Values) : (row.set v).table = row.table := rfl

@[simp]
theorem set_id (row : Row) (v : Values) : (row.set v).id = row.id := rfl

/-! ### What a session sees -/

theorem mineOnly_iff {s : Session} {row : Row} :
  mineOnly s row = true ↔ ∃ a, row.tenantId = some a ∧ s = some a
  := by
  unfold mineOnly
  rw [Bool.and_eq_true, decide_eq_true_iff, Option.isSome_iff_exists]
  constructor
  · rintro ⟨⟨a, ha⟩, same⟩
    exact ⟨a, ha, same ▸ ha⟩
  · rintro ⟨a, ha, rfl⟩
    exact ⟨⟨a, ha⟩, ha⟩

theorem sharedOrMine_of_mineOnly {s : Session} {row : Row} (h : mineOnly s row = true) :
  sharedOrMine s row = true
  := by
  unfold sharedOrMine
  rw [h, Bool.or_true]

/-- What is one session's own is not seen by another one. -/
theorem not_sharedOrMine_of_other {s s' : Session} (ne : s ≠ s') {row : Row}
    (h : mineOnly s row = true) :
  sharedOrMine s' row = false
  := by
  obtain ⟨a, ha, rfl⟩ := mineOnly_iff.mp h
  cases seen : sharedOrMine s' row with
  | false => rfl
  | true =>
    unfold sharedOrMine at seen
    rw [ha, Option.isNone_some, Bool.false_or] at seen
    obtain ⟨b, hb, rfl⟩ := mineOnly_iff.mp seen
    rw [ha] at hb
    cases hb
    exact absurd rfl ne

theorem isParent_iff {s : Session} {row q : Row} :
  isParent s row q = true ↔
    q.table = .prompt ∧ row.parent = some q.id ∧ sharedOrMine s q = true
  := by
  unfold isParent
  simp only [Bool.and_eq_true, decide_eq_true_eq, and_assoc]
  rw [eq_comm (a := some q.id)]

/-- A prompt is visible as its policy says. -/
theorem visible_prompt {db : Db} {s : Session} {q : Row} (h : q.table = .prompt) :
  visible db s q = sharedOrMine s q
  := by
  unfold visible
  rw [h]
  rfl

/-- Two databases with the same prompts, as far as the session sees. -/
def SamePrompts (s : Session) (db db' : Db) : Prop :=
  ∀ n, (∃ q ∈ db, q.table = .prompt ∧ q.id = n ∧ sharedOrMine s q = true) ↔
    ∃ q ∈ db', q.table = .prompt ∧ q.id = n ∧ sharedOrMine s q = true

theorem versionVisible_congr {s : Session} {db db' : Db} (h : SamePrompts s db db') (row : Row) :
  versionVisible db s row = versionVisible db' s row
  := by
  have one : ∀ {db : Db}, versionVisible db s row = true ↔
      ∃ n, row.parent = some n ∧ ∃ q ∈ db, q.table = .prompt ∧ q.id = n ∧
        sharedOrMine s q = true := by
    intro db
    unfold versionVisible
    rw [List.any_eq_true]
    constructor
    · rintro ⟨q, mem, parent⟩
      obtain ⟨table, id, seen⟩ := isParent_iff.mp parent
      exact ⟨q.id, id, q, mem, table, rfl, seen⟩
    · rintro ⟨n, parent, q, mem, table, rfl, seen⟩
      exact ⟨q, mem, isParent_iff.mpr ⟨table, parent, seen⟩⟩
  rw [Bool.eq_iff_iff, one, one]
  constructor
  · rintro ⟨n, parent, found⟩
    exact ⟨n, parent, (h n).mp found⟩
  · rintro ⟨n, parent, found⟩
    exact ⟨n, parent, (h n).mpr found⟩

/-- Only the prompts matter to whether a row is seen. -/
theorem visible_congr {s : Session} {db db' : Db} (h : SamePrompts s db db') (row : Row) :
  visible db s row = visible db' s row
  := by
  unfold visible
  cases row.table with
  | promptVersion => exact versionVisible_congr h row
  | _ => rfl

theorem samePrompts_view (s : Session) (db : Db) :
  SamePrompts s (view s db) db
  := by
  intro n
  constructor
  · rintro ⟨q, mem, found⟩
    exact ⟨q, List.mem_of_mem_filter mem, found⟩
  · rintro ⟨q, mem, table, id, seen⟩
    exact ⟨q, List.mem_filter.mpr ⟨mem, (visible_prompt table).trans seen⟩, table, id, seen⟩

theorem visible_view (s : Session) (db : Db) (row : Row) :
  visible (view s db) s row = visible db s row
  := visible_congr (samePrompts_view s db) row

theorem view_view (s : Session) (db : Db) :
  view s (view s db) = view s db
  := by
  unfold view
  rw [List.filter_eq_self]
  intro row mem
  exact (visible_view s db row).trans (List.mem_filter.mp mem).2

/-- The prompts of a session's own are all seen by it. -/
theorem versionMineOnly_view (s : Session) (db : Db) (row : Row) :
  versionMineOnly (view s db) s row = versionMineOnly db s row
  := by
  unfold versionMineOnly
  rw [Bool.eq_iff_iff, List.any_eq_true, List.any_eq_true]
  constructor
  · rintro ⟨q, mem, found⟩
    exact ⟨q, List.mem_of_mem_filter mem, found⟩
  · rintro ⟨q, mem, found⟩
    refine ⟨q, List.mem_filter.mpr ⟨mem, ?_⟩, found⟩
    rw [Bool.and_eq_true] at found
    obtain ⟨table, -, seen⟩ := isParent_iff.mp found.1
    exact (visible_prompt table).trans seen

/-- The policies of a table look at nothing that the session does not see. -/
theorem policies_view (s : Session) (db : Db) (table : Table) (row : Row) :
  (policies table).select (view s db) s row = (policies table).select db s row ∧
    (policies table).insert (view s db) s row = (policies table).insert db s row ∧
    (policies table).updateUsing (view s db) s row = (policies table).updateUsing db s row ∧
    (policies table).updateCheck (view s db) s row = (policies table).updateCheck db s row ∧
    (policies table).delete (view s db) s row = (policies table).delete db s row
  := by
  cases table with
  | promptVersion =>
    have mine := versionMineOnly_view s db row
    exact ⟨versionVisible_congr (samePrompts_view s db) row, mine, mine, mine, mine⟩
  | _ => exact ⟨rfl, rfl, rfl, rfl, rfl⟩

/-! ### What a session writes -/

/-- The row belongs to the session. -/
def owned (db : Db) (s : Session) (row : Row) : Bool :=
  match row.table with
  | .tenant => s = some row.id
  | .promptVersion => versionMineOnly db s row
  | _ => mineOnly s row

/-- Updates and deletions are of the session's own rows, and leave them its own. -/
theorem policies_owned {db : Db} {s : Session} {row : Row} :
  (policies row.table).updateUsing db s row = owned db s row ∧
    (policies row.table).updateCheck db s row = owned db s row ∧
    (policies row.table).delete db s row = owned db s row
  := by
  unfold owned
  cases row.table
  all_goals exact ⟨rfl, rfl, rfl⟩

theorem visible_of_owned {db : Db} {s : Session} {row : Row} (h : owned db s row = true) :
  visible db s row = true
  := by
  unfold owned at h
  unfold visible
  cases table : row.table with
  | promptVersion =>
    rw [table] at h
    simp only [versionMineOnly, List.any_eq_true, Bool.and_eq_true] at h
    obtain ⟨q, mem, parent, -⟩ := h
    exact List.any_eq_true.mpr ⟨q, mem, parent⟩
  | tenant =>
    rw [table] at h
    exact h
  | plain name =>
    rw [table] at h
    exact h
  | role =>
    rw [table] at h
    exact sharedOrMine_of_mineOnly h
  | rolePermission =>
    rw [table] at h
    exact sharedOrMine_of_mineOnly h
  | prompt =>
    rw [table] at h
    exact sharedOrMine_of_mineOnly h

/-- A role, or a permission of one, that is shared by all tenants. -/
def Row.sharedRole (row : Row) : Bool :=
  (row.table = .role || row.table = .rolePermission) && row.tenantId.isNone

/-- What a session may insert is its own, or a shared role. -/
theorem insert_iff {db : Db} {s : Session} {row : Row} :
  (policies row.table).insert db s row = (owned db s row || row.sharedRole)
  := by
  unfold owned Row.sharedRole
  cases table : row.table with
  | role =>
    show sharedOrMine s row = _
    unfold sharedOrMine
    simp only [decide_true, Bool.true_or, Bool.true_and]
    exact Bool.or_comm ..
  | rolePermission =>
    show sharedOrMine s row = _
    unfold sharedOrMine
    simp only [decide_true, Bool.or_true, Bool.true_and]
    exact Bool.or_comm ..
  | _ =>
    simp only [reduceCtorEq, decide_false, Bool.or_self, Bool.false_and, Bool.or_false]
    rfl

theorem owned_version {db : Db} {s : Session} {row : Row} (table : row.table = .promptVersion) :
  owned db s row = versionMineOnly db s row
  := by
  unfold owned
  rw [table]

/-! ### Keys -/

/-- Every version belongs to a prompt. -/
def Linked (db : Db) : Prop :=
  ∀ row ∈ db, row.table = .promptVersion → ∃ q ∈ db, q.table = .prompt ∧ row.parent = some q.id

theorem linked_of_owned {db : Db} {s : Session} {row : Row} (table : row.table = .promptVersion)
    (h : owned db s row = true) :
  ∃ q ∈ db, q.table = .prompt ∧ row.parent = some q.id
  := by
  rw [owned_version table] at h
  obtain ⟨q, mem, found⟩ := List.any_eq_true.mp h
  obtain ⟨isPrompt, id, -⟩ := isParent_iff.mp (Bool.and_eq_true_iff.mp found).1
  exact ⟨q, mem, isPrompt, id⟩

/-- The prompts of two rows with the same id are the same. -/
theorem prompt_unique {db : Db} (keys : (db.map Row.key).Nodup) {q q' : Row} (mem : q ∈ db)
    (mem' : q' ∈ db) (h : q.table = .prompt) (h' : q'.table = .prompt) (same : q.id = q'.id) :
  q = q'
  := by
  refine List.inj_on_of_nodup_map keys mem mem' ?_
  unfold Row.key
  rw [h, h', same]

/-- What is one session's own is not seen by another one. -/
theorem not_visible_of_owned {db : Db} (keys : (db.map Row.key).Nodup) {a s : Session} (ne : a ≠ s)
    {row : Row} (h : owned db a row = true) :
  visible db s row = false
  := by
  unfold owned at h
  unfold visible
  cases table : row.table with
  | tenant =>
    rw [table] at h
    have mine : a = some row.id := of_decide_eq_true h
    exact decide_eq_false fun other => ne (mine.trans other.symm)
  | plain name =>
    rw [table] at h
    have hidden := not_sharedOrMine_of_other ne h
    exact (Bool.or_eq_false_iff.mp hidden).2
  | role =>
    rw [table] at h
    exact not_sharedOrMine_of_other ne h
  | rolePermission =>
    rw [table] at h
    exact not_sharedOrMine_of_other ne h
  | prompt =>
    rw [table] at h
    exact not_sharedOrMine_of_other ne h
  | promptVersion =>
    rw [table] at h
    obtain ⟨q, mem, found⟩ := List.any_eq_true.mp h
    obtain ⟨parent, mine⟩ := Bool.and_eq_true_iff.mp found
    obtain ⟨isPrompt, id, -⟩ := isParent_iff.mp parent
    have hidden := not_sharedOrMine_of_other ne mine
    refine Bool.eq_false_iff.mpr fun seen => ?_
    obtain ⟨q', mem', parent'⟩ := List.any_eq_true.mp seen
    obtain ⟨isPrompt', id', seen'⟩ := isParent_iff.mp parent'
    have same : q.id = q'.id := Option.some.inj (id.symm.trans id')
    rw [← prompt_unique keys mem mem' isPrompt isPrompt' same, hidden] at seen'
    exact Bool.false_ne_true seen'

/-! ### Updates -/

/-- The row after an update. -/
def replaced (s : Session) (db : Db) (table : Table) (p : Row → Bool) (f : Row → Values)
    (row : Row) : Row :=
  if updated s db table p row then row.set (f row) else row

@[simp]
theorem replaced_table {s : Session} {db : Db} {table : Table} {p : Row → Bool} {f : Row → Values}
    {row : Row} :
  (replaced s db table p f row).table = row.table
  := by
  unfold replaced
  split
  · rfl
  · rfl

@[simp]
theorem replaced_id {s : Session} {db : Db} {table : Table} {p : Row → Bool} {f : Row → Values}
    {row : Row} :
  (replaced s db table p f row).id = row.id
  := by
  unfold replaced
  split
  · rfl
  · rfl

theorem replaced_of_not {s : Session} {db : Db} {table : Table} {p : Row → Bool} {f : Row → Values}
    {row : Row} (h : updated s db table p row = false) :
  replaced s db table p f row = row
  := by
  unfold replaced
  rw [h]
  rfl

theorem replaced_of_updated {s : Session} {db : Db} {table : Table} {p : Row → Bool}
    {f : Row → Values} {row : Row} (h : updated s db table p row = true) :
  replaced s db table p f row = row.set (f row)
  := by
  unfold replaced
  rw [h]
  rfl

/-- An updated row is seen and owned by its session. -/
theorem of_updated {s : Session} {db : Db} {table : Table} {p : Row → Bool} {row : Row}
    (h : updated s db table p row = true) :
  row.table = table ∧ visible db s row = true ∧ owned db s row = true
  := by
  unfold updated at h
  simp only [Bool.and_eq_true, decide_eq_true_eq] at h
  obtain ⟨⟨⟨rfl, seen⟩, mine⟩, -⟩ := h
  exact ⟨rfl, seen, policies_owned.1 ▸ mine⟩

theorem of_settable {s : Session} {db : Db} {table : Table} {row : Row}
    (h : settable s db table row = true) (same : row.table = table) :
  visible db s row = true ∧ owned db s row = true
  := by
  subst same
  obtain ⟨mine, seen⟩ := Bool.and_eq_true_iff.mp h
  exact ⟨seen, policies_owned.2.1 ▸ mine⟩

/-- The rows that an update writes are allowed. -/
def Allowed (s : Session) (db : Db) (table : Table) (p : Row → Bool) (f : Row → Values) : Prop :=
  ∀ row ∈ db, updated s db table p row = true → settable s db table (row.set (f row)) = true

/-- An update of which the rows are seen before it as much as after leaves the rest where it was. -/
theorem view_map {s : Session} {db : Db} {g : Row → Row}
    (table : ∀ row ∈ db, (g row).table = row.table) (id : ∀ row ∈ db, (g row).id = row.id)
    (same : ∀ row ∈ db, visible db s (g row) = visible db s row) :
  view s (db.map g) = (view s db).map g
  := by
  have prompts : SamePrompts s (db.map g) db := by
    intro n
    constructor
    · rintro ⟨q', mem', isPrompt, rfl, seen⟩
      obtain ⟨q, mem, rfl⟩ := List.mem_map.mp mem'
      have isPrompt' : q.table = .prompt := (table q mem).symm.trans isPrompt
      refine ⟨q, mem, isPrompt', (id q mem).symm, ?_⟩
      rw [← (visible_prompt isPrompt' : visible db s q = _), ← same q mem, visible_prompt isPrompt]
      exact seen
    · rintro ⟨q, mem, isPrompt, rfl, seen⟩
      have isPrompt' : (g q).table = .prompt := (table q mem).trans isPrompt
      refine ⟨g q, List.mem_map_of_mem mem, isPrompt', id q mem, ?_⟩
      rw [← (visible_prompt isPrompt' : visible db s (g q) = _), same q mem, visible_prompt isPrompt]
      exact seen
  unfold view
  rw [List.filter_map]
  congr 1
  refine List.filter_congr fun row mem => ?_
  show visible (db.map g) s (g row) = _
  rw [visible_congr prompts, same row mem]

theorem execute_insert (s : Session) (db : Db) (row : Row) :
  execute s db (.insert row) =
    if insertable s db row then (db ++ [row], .count 1) else (db, .refused)
  := rfl

theorem execute_update (s : Session) (db : Db) (table : Table) (p : Row → Bool) (f : Row → Values) :
  execute s db (.update table p f) =
    if db.all fun row => !updated s db table p row || settable s db table (row.set (f row)) then
      (db.map (replaced s db table p f), .count (db.countP (updated s db table p)))
    else (db, .refused)
  := rfl

theorem execute_delete (s : Session) (db : Db) (table : Table) (p : Row → Bool) :
  execute s db (.delete table p) =
    if db.any (orphaned (deleted s db table p) db) then (db, .refused)
    else
      (db.filter fun row => !deleted s db table p row, .count (db.countP (deleted s db table p)))
  := rfl

theorem all_iff_allowed {s : Session} {db : Db} {table : Table} {p : Row → Bool}
    {f : Row → Values} :
  (db.all fun row => !updated s db table p row || settable s db table (row.set (f row))) = true ↔
    Allowed s db table p f
  := by
  rw [List.all_eq_true]
  refine forall₂_congr fun row _ => ?_
  cases updated s db table p row
  · simp
  · simp

/-! ### The session's own statements -/

@[simp]
theorem updated_view {s : Session} {db : Db} {table : Table} {p : Row → Bool} :
  updated s (view s db) table p = updated s db table p
  := by
  funext row
  unfold updated
  rw [visible_view, (policies_view s db table row).2.2.1]

@[simp]
theorem settable_view {s : Session} {db : Db} {table : Table} :
  settable s (view s db) table = settable s db table
  := by
  funext row
  obtain ⟨select, -, -, check, -⟩ := policies_view s db table row
  unfold settable
  rw [select, check]

@[simp]
theorem deleted_view {s : Session} {db : Db} {table : Table} {p : Row → Bool} :
  deleted s (view s db) table p = deleted s db table p
  := by
  funext row
  unfold deleted
  rw [visible_view, (policies_view s db table row).2.2.2.2]

/-- A deleted row is seen and owned by its session. -/
theorem of_deleted {s : Session} {db : Db} {table : Table} {p : Row → Bool} {row : Row}
    (h : deleted s db table p row = true) :
  row.table = table ∧ visible db s row = true ∧ owned db s row = true
  := by
  unfold deleted at h
  simp only [Bool.and_eq_true, decide_eq_true_eq] at h
  obtain ⟨⟨⟨rfl, seen⟩, mine⟩, -⟩ := h
  exact ⟨rfl, seen, policies_owned.2.2 ▸ mine⟩

/-- Counting what is seen counts it among what is seen. -/
theorem countP_view {s : Session} {db : Db} {c : Row → Bool}
    (seen : ∀ row ∈ db, c row = true → visible db s row = true) :
  (view s db).countP c = db.countP c
  := by
  unfold view
  rw [List.countP_filter]
  refine List.countP_congr fun row mem => ?_
  rw [Bool.and_eq_true]
  exact ⟨And.left, fun h => ⟨h, seen row mem h⟩⟩

theorem filter_view (s : Session) (db : Db) (c : Row → Bool) :
  (view s db).filter (fun row => visible (view s db) s row && c row) =
    db.filter fun row => visible db s row && c row
  := by
  unfold view
  rw [List.filter_filter]
  refine List.filter_congr fun row _ => ?_
  rw [show visible (db.filter (visible db s)) s row = visible db s row from visible_view s db row]
  cases visible db s row
  · simp
  · simp

theorem allowed_view {s : Session} {db : Db} {table : Table} {p : Row → Bool}
    {f : Row → Values} :
  Allowed s (view s db) table p f ↔ Allowed s db table p f
  := by
  unfold Allowed
  simp only [updated_view, settable_view]
  constructor
  · intro h row mem up
    exact h row (List.mem_filter.mpr ⟨mem, (of_updated up).2.1⟩) up
  · intro h row mem up
    exact h row (List.mem_of_mem_filter mem) up

/-- The new rows of an update are seen by its session as the old ones were. -/
theorem visible_replaced {s : Session} {db : Db} {table : Table} {p : Row → Bool}
    {f : Row → Values} (allowed : Allowed s db table p f) :
  ∀ row ∈ db, visible db s (replaced s db table p f row) = visible db s row
  := by
  intro row mem
  cases up : updated s db table p row with
  | false => rw [replaced_of_not up]
  | true =>
    obtain ⟨rfl, seen, -⟩ := of_updated up
    rw [replaced_of_updated up, seen]
    exact (of_settable (allowed row mem up) (set_table row _)).1

theorem replaced_view {s : Session} {db : Db} {table : Table} {p : Row → Bool}
    {f : Row → Values} :
  replaced s (view s db) table p f = replaced s db table p f
  := by
  funext row
  unfold replaced
  rw [updated_view]

theorem view_update {s : Session} {db : Db} {table : Table} {p : Row → Bool} {f : Row → Values}
    (allowed : Allowed s db table p f) :
  view s (db.map (replaced s db table p f)) = (view s db).map (replaced s db table p f)
  := view_map (fun _ _ => replaced_table) (fun _ _ => replaced_id) (visible_replaced allowed)

/-- A version of a prompt that the session deletes is seen by it. -/
theorem orphaned_view {s : Session} {db : Db} {table : Table} {p : Row → Bool} :
  (view s db).any (orphaned (deleted s (view s db) table p) (view s db)) =
    db.any (orphaned (deleted s db table p) db)
  := by
  rw [Bool.eq_iff_iff, List.any_eq_true, List.any_eq_true]
  unfold orphaned
  simp only [deleted_view, Bool.and_eq_true, decide_eq_true_eq, List.any_eq_true, and_assoc]
  constructor
  · rintro ⟨row, mem, version, q, mem', isPrompt, id, gone⟩
    exact ⟨row, List.mem_of_mem_filter mem, version, q, List.mem_of_mem_filter mem', isPrompt, id,
      gone⟩
  · rintro ⟨row, mem, version, q, mem', isPrompt, id, gone⟩
    obtain ⟨-, seen, -⟩ := of_deleted gone
    have parent : isParent s row q = true :=
      isParent_iff.mpr ⟨isPrompt, id.symm, visible_prompt isPrompt ▸ seen⟩
    have seen' : visible db s row = true := by
      unfold visible
      rw [version]
      exact List.any_eq_true.mpr ⟨q, mem', parent⟩
    exact ⟨row, List.mem_filter.mpr ⟨mem, seen'⟩, version, q, List.mem_filter.mpr ⟨mem', seen⟩,
      isPrompt, id, gone⟩

/-- A deletion that leaves no version without its prompt, as far as the session sees, leaves the rest
as visible as it was. -/
theorem view_filter {s : Session} {db : Db} {keep : Row → Bool}
    (linked : ∀ row ∈ db, keep row = true → ∀ q ∈ db, isParent s row q = true → row.table =
      .promptVersion → keep q = true) :
  view s (db.filter keep) = (view s db).filter keep
  := by
  have same : ∀ row ∈ db.filter keep, visible (db.filter keep) s row = visible db s row := by
    intro row mem
    obtain ⟨mem, kept⟩ := List.mem_filter.mp mem
    unfold visible
    cases table : row.table with
    | promptVersion =>
      show versionVisible _ s row = versionVisible _ s row
      rw [Bool.eq_iff_iff]
      unfold versionVisible
      rw [List.any_eq_true, List.any_eq_true]
      constructor
      · rintro ⟨q, mem', parent⟩
        exact ⟨q, List.mem_of_mem_filter mem', parent⟩
      · rintro ⟨q, mem', parent⟩
        exact ⟨q, List.mem_filter.mpr ⟨mem', linked row mem kept q mem' parent table⟩, parent⟩
    | _ => rfl
  unfold view
  rw [List.filter_congr same, List.filter_filter, List.filter_filter]
  refine List.filter_congr fun row _ => ?_
  exact Bool.and_comm ..

theorem view_delete {s : Session} {db : Db} {table : Table} {p : Row → Bool}
    (h : db.any (orphaned (deleted s db table p) db) = false) :
  view s (db.filter fun row => !deleted s db table p row) =
    (view s db).filter fun row => !deleted s db table p row
  := by
  refine view_filter fun row mem _ q mem' parent version => ?_
  cases gone : deleted s db table p q with
  | false => rfl
  | true =>
    obtain ⟨isPrompt, id, -⟩ := isParent_iff.mp parent
    refine absurd ?_ (Bool.eq_false_iff.mp h)
    refine List.any_eq_true.mpr ⟨row, mem, ?_⟩
    unfold orphaned
    simp only [Bool.and_eq_true, decide_eq_true_eq, List.any_eq_true]
    exact ⟨version, q, mem', ⟨isPrompt, id.symm⟩, gone⟩

/-- Adding a row with an id of its own changes nothing else that a session sees. -/
theorem view_append {s : Session} {db : Db} (linked : Linked db) {row : Row}
    (fresh : row.key ∉ db.map Row.key) :
  view s (db ++ [row]) = view s db ++ [row].filter (visible db s)
  := by
  have same : ∀ r, (r ∈ db ∨ r = row) → visible (db ++ [row]) s r = visible db s r := by
    intro r mem
    unfold visible
    cases table : r.table with
    | promptVersion =>
      show versionVisible _ s r = versionVisible _ s r
      unfold versionVisible
      rw [List.any_append]
      have other : isParent s r row = false := by
        refine Bool.eq_false_iff.mpr fun parent => ?_
        obtain ⟨isPrompt, id, -⟩ := isParent_iff.mp parent
        cases mem with
        | inr same =>
          rw [same, isPrompt] at table
          cases table
        | inl mem =>
          obtain ⟨q, mem', isPrompt', id'⟩ := linked r mem table
          refine fresh (List.mem_map.mpr ⟨q, mem', ?_⟩)
          unfold Row.key
          rw [isPrompt, isPrompt', Option.some.inj (id'.symm.trans id)]
      rw [List.any_cons, other, List.any_nil, Bool.or_false, Bool.or_false]
    | _ => rfl
  unfold view
  rw [List.filter_append]
  congr 1
  · exact List.filter_congr fun r mem => same r (.inl mem)
  · refine List.filter_congr fun r mem => same r (.inr ?_)
    exact List.mem_singleton.mp mem

theorem linked_view {s : Session} {db : Db} : Linked (view s db) := by
  intro row mem version
  have seen := (List.mem_filter.mp mem).2
  unfold visible at seen
  rw [version] at seen
  obtain ⟨q, mem', parent⟩ := List.any_eq_true.mp seen
  obtain ⟨isPrompt, id, shared⟩ := isParent_iff.mp parent
  exact ⟨q, List.mem_filter.mpr ⟨mem', (visible_prompt isPrompt).trans shared⟩, isPrompt, id⟩

/-- The statement inserts no row with the id of another. -/
def Fresh (db : Db) (st : Statement) : Prop :=
  ∀ row, st = .insert row → row.key ∉ db.map Row.key

theorem fresh_view {s : Session} {db : Db} {st : Statement} (h : Fresh db st) :
  Fresh (view s db) st
  := by
  intro row is mem
  obtain ⟨q, mem', same⟩ := List.mem_map.mp mem
  exact h row is (List.mem_map.mpr ⟨q, List.mem_of_mem_filter mem', same⟩)

theorem insertable_of_fresh {s : Session} {db : Db} {row : Row}
    (fresh : row.key ∉ db.map Row.key) :
  insertable s db row = (policies row.table).insert db s row
  := by
  have new : (db.any fun q => q.key = row.key) = false := by
    refine List.any_eq_false.mpr fun q mem same => fresh ?_
    exact List.mem_map.mpr ⟨q, mem, of_decide_eq_true same⟩
  unfold insertable
  rw [new, Bool.not_false, Bool.and_true]

/-- What a session sees decides what its statement answers, and what it sees after it. -/
theorem execute_view {s : Session} {db : Db} {st : Statement} (linked : Linked db)
    (fresh : Fresh db st) :
  view s (execute s (view s db) st).1 = view s (execute s db st).1 ∧
    (execute s (view s db) st).2 = (execute s db st).2
  := by
  cases st with
  | select table p =>
    refine ⟨view_view s db, ?_⟩
    show Answer.rows _ = Answer.rows _
    congr 1
    have found := filter_view s db fun row => row.table = table && p row
    simp only [Bool.and_comm (visible _ s _), Bool.and_assoc, Bool.and_left_comm] at found ⊢
    exact found
  | insert row =>
    have fresh' := fresh row rfl
    have same : insertable s (view s db) row = insertable s db row := by
      rw [insertable_of_fresh fresh', insertable_of_fresh (fresh_view fresh row rfl)]
      exact (policies_view s db row.table row).2.1
    rw [execute_insert, execute_insert, same]
    cases insertable s db row with
    | false => exact ⟨view_view s db, rfl⟩
    | true =>
      refine ⟨?_, rfl⟩
      show view s (view s db ++ [row]) = view s (db ++ [row])
      rw [view_append linked fresh', view_append linked_view (fresh_view fresh row rfl), view_view]
      congr 1
      exact List.filter_congr fun r _ => visible_view s db r
  | update table p f =>
    rw [execute_update, execute_update]
    by_cases allowed : Allowed s db table p f
    · rw [if_pos (all_iff_allowed.mpr allowed), if_pos (all_iff_allowed.mpr (allowed_view.mpr allowed))]
      constructor
      · rw [view_update allowed, view_update (allowed_view.mpr allowed), view_view, replaced_view]
      · have count : (view s db).countP (updated s (view s db) table p) =
            db.countP (updated s db table p) := by
          rw [updated_view]
          exact countP_view fun _ _ up => (of_updated up).2.1
        rw [count]
    · rw [if_neg fun all => allowed (all_iff_allowed.mp all),
        if_neg fun all => allowed (allowed_view.mp (all_iff_allowed.mp all))]
      exact ⟨view_view s db, rfl⟩
  | delete table p =>
    rw [execute_delete, execute_delete, orphaned_view]
    cases orphan : db.any (orphaned (deleted s db table p) db) with
    | true => exact ⟨view_view s db, rfl⟩
    | false =>
      have orphan' := orphaned_view.trans orphan
      constructor
      · show view s ((view s db).filter _) = view s (db.filter _)
        rw [view_delete orphan', view_delete orphan, view_view]
        simp only [deleted_view]
      · show Answer.count _ = Answer.count _
        congr 1
        rw [deleted_view]
        exact countP_view fun _ _ gone => (of_deleted gone).2.1

end Lumina.Core.RowSecurity
