import Lumina.Core.RowSecurity
import Lumina.Library.Noninterference

/-!
# Isolation of tenants

Over any statements of any sessions, in any order, what a session is answered depends on what it saw
at first and on its own statements.  The one way of one tenant to another is a role with no tenant,
which the insertion policies of the roles still allow.
-/

namespace Lumina.Core.RowSecurity

/-! ### Runs -/

/-- The database is as its keys require. -/
structure Sound (db : Db) : Prop where
  keys : (db.map Row.key).Nodup
  linked : Linked db

/-- The keys of the rows that a statement inserts. -/
def Statement.keys : Statement → List (Table × ℕ)
  | .insert row => [row.key]
  | _ => []

theorem insertable_spec {s : Session} {db : Db} {row : Row} (h : insertable s db row = true) :
  (owned db s row = true ∨ row.sharedRole = true) ∧ row.key ∉ db.map Row.key
  := by
  unfold insertable at h
  rw [insert_iff, Bool.and_eq_true, Bool.or_eq_true] at h
  obtain ⟨own, new⟩ := h
  refine ⟨own, fun mem => ?_⟩
  obtain ⟨q, mem, same⟩ := List.mem_map.mp mem
  rw [Bool.not_eq_true', List.any_eq_false] at new
  exact new q mem (decide_eq_true same)

/-- What a statement can do to the database. -/
inductive Moved (s : Session) (db : Db) (st : Statement) : Db → Prop where
  | same : Moved s db st db
  | inserted (row : Row) : st = .insert row → insertable s db row = true →
      Moved s db st (db ++ [row])
  | updated (table : Table) (p : Row → Bool) (f : Row → Values) : Allowed s db table p f →
      Moved s db st (db.map (replaced s db table p f))
  | deleted (table : Table) (p : Row → Bool) :
      db.any (orphaned (deleted s db table p) db) = false →
      Moved s db st (db.filter fun row => !deleted s db table p row)

theorem moved_of_execute (s : Session) (db : Db) (st : Statement) :
  Moved s db st (execute s db st).1
  := by
  cases st with
  | select table p => exact .same
  | insert row =>
    rw [execute_insert]
    split
    case isTrue can => exact .inserted row rfl can
    case isFalse => exact .same
  | update table p f =>
    rw [execute_update]
    split
    case isTrue all => exact .updated table p f (all_iff_allowed.mp all)
    case isFalse => exact .same
  | delete table p =>
    rw [execute_delete]
    split
    case isTrue => exact .same
    case isFalse none => exact .deleted table p (Bool.eq_false_iff.mpr none)

theorem map_key_replaced {s : Session} {db : Db} {table : Table} {p : Row → Bool}
    {f : Row → Values} :
  (db.map (replaced s db table p f)).map Row.key = db.map Row.key
  := by
  rw [List.map_map]
  refine List.map_congr_left fun row _ => ?_
  show Row.key (replaced s db table p f row) = _
  unfold Row.key
  rw [replaced_table, replaced_id]

/-- A statement adds no keys but its own. -/
theorem keys_execute (s : Session) (db : Db) (st : Statement) :
  ((execute s db st).1.map Row.key).Sublist (db.map Row.key ++ st.keys)
  := by
  have moved := moved_of_execute s db st
  generalize (execute s db st).1 = db' at moved
  cases moved with
  | same => exact List.sublist_append_left _ _
  | inserted row is can =>
    subst is
    rw [List.map_append]
    exact List.Sublist.refl _
  | updated table p f allowed =>
    rw [map_key_replaced]
    exact List.sublist_append_left _ _
  | deleted table p none =>
    exact (List.filter_sublist.map _).trans (List.sublist_append_left _ _)

theorem Sound.execute {s : Session} {db : Db} (h : Sound db) (st : Statement) :
  Sound (execute s db st).1
  := by
  have moved := moved_of_execute s db st
  generalize (RowSecurity.execute s db st).1 = db' at moved
  cases moved with
  | same => exact h
  | inserted row _ can =>
    obtain ⟨own, fresh⟩ := insertable_spec can
    constructor
    · rw [List.map_append, List.nodup_append]
      refine ⟨h.keys, List.nodup_singleton _, ?_⟩
      intro key mem key' mem' same
      rw [same, List.mem_singleton.mp mem'] at mem
      exact fresh mem
    · intro r mem version
      have parent : ∃ q ∈ db, q.table = .prompt ∧ r.parent = some q.id := by
        cases List.mem_append.mp mem with
        | inl mem => exact h.linked r mem version
        | inr mem =>
          rw [List.mem_singleton.mp mem] at version ⊢
          cases own with
          | inl own => exact linked_of_owned version own
          | inr shared =>
            unfold Row.sharedRole at shared
            rw [version] at shared
            cases shared
      obtain ⟨q, mem', found⟩ := parent
      exact ⟨q, List.mem_append_left _ mem', found⟩
  | updated table p f allowed =>
    constructor
    · rw [map_key_replaced]
      exact h.keys
    · intro r written version
      obtain ⟨row, mem, rfl⟩ := List.mem_map.mp written
      rw [replaced_table] at version
      have parent : ∃ q ∈ db, q.table = .prompt ∧
          (replaced s db table p f row).parent = some q.id := by
        cases up : updated s db table p row with
        | false =>
          rw [replaced_of_not up]
          exact h.linked row mem version
        | true =>
          rw [replaced_of_updated up]
          have own := (of_settable (allowed row mem up)
            ((set_table row _).trans (of_updated up).1)).2
          exact linked_of_owned ((set_table row _).trans version) own
      obtain ⟨q, mem', isPrompt, id⟩ := parent
      refine ⟨replaced s db table p f q, List.mem_map_of_mem mem', ?_, ?_⟩
      · rw [replaced_table, isPrompt]
      · rw [replaced_id, id]
  | deleted table p none =>
    constructor
    · exact h.keys.sublist (List.filter_sublist.map _)
    · intro row mem version
      obtain ⟨mem, -⟩ := List.mem_filter.mp mem
      obtain ⟨q, mem', isPrompt, id⟩ := h.linked row mem version
      refine ⟨q, List.mem_filter.mpr ⟨mem', ?_⟩, isPrompt, id⟩
      cases gone : deleted s db table p q with
      | false => rfl
      | true =>
        refine absurd ?_ (Bool.eq_false_iff.mp none)
        refine List.any_eq_true.mpr ⟨row, mem, ?_⟩
        unfold orphaned
        simp only [Bool.and_eq_true, decide_eq_true_eq, List.any_eq_true]
        exact ⟨version, q, mem', ⟨isPrompt, id.symm⟩, gone⟩

/-! ### Statements of others -/

/-- The shared role, or permission of one, that a statement adds. -/
def planted (e : Event) (db : Db) : List Row :=
  match e.statement with
  | .insert row => if insertable e.session db row && row.sharedRole then [row] else []
  | _ => []

theorem visible_of_sharedRole {db : Db} {s : Session} {row : Row} (h : row.sharedRole = true) :
  visible db s row = true
  := by
  unfold Row.sharedRole at h
  obtain ⟨table, shared⟩ := Bool.and_eq_true_iff.mp h
  have seen : sharedOrMine s row = true := by
    unfold sharedOrMine
    rw [shared, Bool.true_or]
  unfold visible
  rw [Bool.or_eq_true, decide_eq_true_eq, decide_eq_true_eq] at table
  cases table with
  | inl table =>
    rw [table]
    exact seen
  | inr table =>
    rw [table]
    exact seen

/-- A statement of another session adds to what a session sees the shared role that it inserts, and
changes nothing else. -/
theorem view_foreign {s : Session} {db : Db} (h : Sound db) {e : Event} (ne : e.session ≠ s) :
  view s (step e db).1 = view s db ++ planted e db
  := by
  obtain ⟨a, st⟩ := e
  show view s (execute a db st).1 = _
  unfold planted
  cases st with
  | select table p => exact (List.append_nil _).symm
  | insert row =>
    show view s (execute a db (.insert row)).1 = view s db ++
      if insertable a db row && row.sharedRole then [row] else []
    rw [execute_insert]
    cases can : insertable a db row with
    | false => exact (List.append_nil _).symm
    | true =>
      obtain ⟨own, fresh⟩ := insertable_spec can
      rw [Bool.true_and]
      refine (view_append h.linked fresh).trans ?_
      congr 1
      cases shared : row.sharedRole with
      | true => exact List.filter_cons_of_pos (visible_of_sharedRole shared)
      | false =>
        rw [shared] at own
        have hidden := not_visible_of_owned h.keys ne (own.resolve_right Bool.false_ne_true)
        exact List.filter_cons_of_neg (Bool.eq_false_iff.mp hidden)
  | update table p f =>
    refine Eq.trans ?_ (List.append_nil _).symm
    rw [execute_update]
    split
    case isFalse => rfl
    case isTrue all =>
      have allowed := all_iff_allowed.mp all
      have hidden : ∀ row ∈ db, updated a db table p row = true →
          visible db s row = false ∧ visible db s (row.set (f row)) = false := by
        intro row mem up
        have after := of_settable (allowed row mem up) ((set_table row _).trans (of_updated up).1)
        exact ⟨not_visible_of_owned h.keys ne (of_updated up).2.2,
          not_visible_of_owned h.keys ne after.2⟩
      have same : ∀ row ∈ db, visible db s (replaced a db table p f row) = visible db s row := by
        intro row mem
        cases up : updated a db table p row with
        | false => rw [replaced_of_not up]
        | true =>
          rw [replaced_of_updated up, (hidden row mem up).1]
          exact (hidden row mem up).2
      show view s (db.map (replaced a db table p f)) = view s db
      rw [view_map (fun _ _ => replaced_table) (fun _ _ => replaced_id) same]
      refine (List.map_congr_left ?_).trans (List.map_id _)
      intro row mem
      obtain ⟨mem, seen⟩ := List.mem_filter.mp mem
      cases up : updated a db table p row with
      | false => exact replaced_of_not up
      | true =>
        rw [(hidden row mem up).1] at seen
        cases seen
  | delete table p =>
    refine Eq.trans ?_ (List.append_nil _).symm
    rw [execute_delete]
    split
    case isTrue => rfl
    case isFalse =>
      have kept : ∀ row, visible db s row = true → (!deleted a db table p row) = true := by
        intro row seen
        cases gone : deleted a db table p row with
        | false => rfl
        | true =>
          rw [not_visible_of_owned h.keys ne (of_deleted gone).2.2] at seen
          cases seen
      show view s (db.filter fun row => !deleted a db table p row) = view s db
      rw [view_filter, List.filter_eq_self]
      · exact fun row mem => kept row (List.mem_filter.mp mem).2
      · intro row _ _ q _ parent _
        obtain ⟨isPrompt, -, seen⟩ := isParent_iff.mp parent
        exact kept q ((visible_prompt isPrompt).trans seen)

/-! ### Isolation -/

/-- The keys of the rows that are to be inserted. -/
def inserted (es : List Event) : List (Table × ℕ) := es.flatMap fun e => e.statement.keys

/-- A state and the statements to come: every row has an id of its own, and no session but `s` adds
a role for all tenants. -/
structure Admissible (s : Session) (es : List Event) (db : Db) : Prop where
  sound : Sound db
  fresh : (db.map Row.key ++ inserted es).Nodup
  unshared : ∀ e ∈ es, e.session ≠ s → ∀ row, e.statement = .insert row → row.sharedRole = false

/-- The statements of a session. -/
def own (s : Session) (e : Event) : Bool := e.session = s

theorem Admissible.next {s : Session} {e : Event} {es : List Event} {db : Db}
    (h : Admissible s (e :: es) db) :
  Admissible s es (step e db).1
  := by
  constructor
  · exact h.sound.execute e.statement
  · refine h.fresh.sublist ?_
    show (_ ++ inserted es).Sublist (db.map Row.key ++ (e.statement.keys ++ inserted es))
    rw [← List.append_assoc]
    exact (keys_execute e.session db e.statement).append (List.Sublist.refl _)
  · intro e' mem
    exact h.unshared e' (List.mem_cons_of_mem _ mem)

theorem inserted_purge (s : Session) (es : List Event) :
  (inserted (Noninterference.purge (own s) es)).Sublist (inserted es)
  := by
  induction es with
  | nil => exact List.Sublist.refl _
  | cons e es ih =>
    unfold Noninterference.purge
    rw [List.filter_cons]
    split
    · exact List.Sublist.append (List.Sublist.refl _) ih
    · exact ih.trans (List.sublist_append_right _ _)

theorem Admissible.purge {s : Session} {es : List Event} {db : Db} (h : Admissible s es db) :
  Admissible s (Noninterference.purge (own s) es) db
  := by
  constructor
  · exact h.sound
  · refine h.fresh.sublist (List.Sublist.append (List.Sublist.refl _) ?_)
    exact inserted_purge s es
  · intro e mem
    exact h.unshared e (List.mem_of_mem_filter mem)

theorem Admissible.statement_fresh {s : Session} {e : Event} {es : List Event} {db : Db}
    (h : Admissible s (e :: es) db) :
  Fresh db e.statement
  := by
  intro row is mem
  have apart := (List.nodup_append.mp h.fresh).2.2 row.key mem row.key
  refine apart ?_ rfl
  refine List.mem_append_left _ ?_
  show row.key ∈ e.statement.keys
  rw [is]
  exact List.mem_singleton.mpr rfl

/-- The policies make the statements of others invisible. -/
theorem unwinding (s : Session) :
  Noninterference.Unwinding step (own s) (fun db db' => view s db = view s db') (Admissible s)
  := by
  constructor
  · intro e es db h
    exact h.next
  · intro e es db other h db' same
    have ne : e.session ≠ s := of_decide_eq_false other
    rw [view_foreign h.sound ne, ← same]
    refine (congrArg (view s db ++ ·) ?_).trans (List.append_nil _)
    unfold planted
    split
    case h_1 row is =>
      rw [h.unshared e (List.mem_cons_self ..) ne row is, Bool.and_false]
      rfl
    case h_2 => rfl
  · intro e es es' db db' mine h h' same
    obtain rfl : e.session = s := of_decide_eq_true mine
    obtain ⟨left, left'⟩ := execute_view (s := e.session) h.sound.linked h.statement_fresh
    obtain ⟨right, right'⟩ := execute_view (s := e.session) h'.sound.linked h'.statement_fresh
    rw [same] at left left'
    exact ⟨left.symm.trans right, left'.symm.trans right'⟩

/-- The shared roles that the statements add, in their order. -/
def plantedBy : List Event → Db → List Row
  | [], _ => []
  | e :: es, db => planted e db ++ plantedBy es (step e db).1

end Lumina.Core.RowSecurity
