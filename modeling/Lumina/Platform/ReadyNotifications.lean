import Lumina.Platform.Notifications
import Mathlib.Data.List.Dedup

/-!
# The notifications of documents that are ready

Any number of calls of `notify_document_ready` run at the same time.  There is one row for each
recipient, knowledge base and time slot, and its count is the number of the calls that were
committed for it; it is the number of documents if no document has been reported twice.

A call comes with what it reads and nobody writes: the document, the time, the users with the roles
of the administration.
-/

namespace Lumina.Platform.Notifications

open Interleaving Transition ReadCommitted

structure Document where
  kbId : KbId
  filename : String
  uploadedBy : Option UserId
deriving DecidableEq, Repr

/-- A call of `notify_document_ready`. -/
structure Report where
  documentId : DocumentId
  document : Option Document
  timestamp : ℕ
  admins : { users : List UserId // users.Nodup }
deriving DecidableEq

/-- `_recipients_for` -/
def Report.recipients (report : Report) (document : Document) : List UserId :=
  match document.uploadedBy with
  | some userId => [userId]
  | none => report.admins.val

theorem Report.recipients_nodup (report : Report) (document : Document) :
  (report.recipients document).Nodup
  := by
  unfold recipients
  split
  · apply List.nodup_singleton
  · exact report.admins.property

inductive NoOperation

abbrev NoOperation.Reply : NoOperation → Type := fun _ => Empty

section Service

variable (emailEnabled : Bool) (windowMinutes : ℕ)

/-- `NotificationService.notify_document_ready`, which raises nothing. -/
def notifyDocumentReady (report : Report) : Tx NoOperation.Reply (List Key) :=
  (unitOfWork (match report.document with
    | none => return []
    | some document =>
      deliverReadyAll emailEnabled (collapseBucket windowMinutes document.kbId report.timestamp)
        document.filename document.kbId report.documentId (report.recipients document))).handle
    fun _ => return []

/-- Sessions of the service, with the calls that have been committed. -/
def readyService :
    Server ℕ Key Notification NoOperation.Reply (List Report) Report NotifyError (List Key)
      Unit where
  program := notifyDocumentReady emailEnabled windowMinutes
  external _ _ e _ := nomatch e
  fails _ _ _ := true
  record _ report reports := report :: reports
  environment _ reports := some reports

/-- The call notifies the recipient, in the slot. -/
def Report.notifies (report : Report) (key : Key) : Bool :=
  report.document.any fun document =>
    decide (key.dedupeKey = collapseBucket windowMinutes document.kbId report.timestamp ∧
      key.userId ∈ report.recipients document)

/-- The documents that have been reported to the recipient, in the slot. -/
def reported (reports : List Report) (key : Key) : List DocumentId :=
  (reports.filter fun report => report.notifies windowMinutes key).map Report.documentId

end Service

/-- How many documents a row stands for. -/
def countOf : Option Notification → ℕ
  | none => 0
  | some row => row.info.count.getD 1

/-- The count of each row is the number of the reports, and no row goes away. -/
def countsReports (windowMinutes : ℕ) : Server.Claim ℕ Key Notification (List Report) where
  holds d := ∀ key, match d.db.committed key with
    | none => reported windowMinutes d.world key = []
    | some row => reported windowMinutes d.world key ≠ [] ∧
        row.info.count = some (reported windowMinutes d.world key).length
  later d d' := ∀ key, d.db.committed key ≠ none → d'.db.committed key ≠ none
  refl _ _ h := h
  trans h h' key hkey := h' key (h key hkey)

section Outlines

variable {emailEnabled : Bool} {windowMinutes : ℕ} (t : ℕ) (c : Report)

/-- How far a call has come with its recipients; one more row may be locked. -/
structure Delivering (t : ℕ) (dedupeKey : DedupeKey) (done : List UserId)
    (locked : Option (UserId × Notification)) (d : Data ℕ Key Notification (List Report)) :
    Prop where
  pending : ∀ key v, d.db.pending key = some (t, v) → key.dedupeKey = dedupeKey ∧
    ((key.userId ∈ done ∧ ∃ row, v = some row ∧
        row.info.count = some (countOf (d.db.committed key) + 1)) ∨
      ∃ row, locked = some (key.userId, row) ∧ v = some row ∧ d.db.committed key = some row)
  done : ∀ userId ∈ done, ∃ v, d.db.pending ⟨userId, dedupeKey⟩ = some (t, v)
  locked : ∀ userId row, locked = some (userId, row) →
    d.db.pending ⟨userId, dedupeKey⟩ = some (t, some row)

theorem Delivering.kept {dedupeKey : DedupeKey} {done : List UserId}
    {locked : Option (UserId × Notification)} :
  Server.Kept (countsReports windowMinutes) t (Delivering t dedupeKey done locked)
  := by
  intro d d' _ _ _ frame h
  constructor
  · intro key v hp
    have before := (frame.pending _ _).mp hp
    rw [frame.committed _ _ before]
    exact h.pending key v before
  · intro userId hdone
    obtain ⟨v, hp⟩ := h.done userId hdone
    exact ⟨v, (frame.pending _ _).mpr hp⟩
  · intro userId row hrow
    exact (frame.pending _ _).mpr (h.locked userId row hrow)

theorem Delivering.of_idle {dedupeKey : DedupeKey} {d : Data ℕ Key Notification (List Report)}
    (idle : d.db.Idle t) :
  Delivering t dedupeKey [] none d
  where
  pending key v hp := absurd hp (idle key v)
  done _ h := by cases h
  locked _ _ h := by cases h

abbrev Outline {α : Type} (emailEnabled : Bool) (windowMinutes : ℕ) (t : ℕ) (c : Report)
    (P : Data ℕ Key Notification (List Report) → Prop) (p : Tx NoOperation.Reply α)
    (Q : Except NotifyError α → Data ℕ Key Notification (List Report) → Prop) : Prop :=
  Server.Outline (readyService emailEnabled windowMinutes) (countsReports windowMinutes)
    Server.Guard.none t c P p Q

section Recipient

variable {dedupeKey : DedupeKey} {done : List UserId} {userId : UserId}

/-- A row that the call has not come to is not held by it. -/
theorem Delivering.not_pending {d : Data ℕ Key Notification (List Report)}
    (h : Delivering t dedupeKey done none d) (fresh : userId ∉ done) (v : Option Notification) :
  d.db.pending ⟨userId, dedupeKey⟩ ≠ some (t, v)
  := by
  intro hp
  obtain ⟨-, ⟨hdone, -⟩ | ⟨row, hlocked, -⟩⟩ := h.pending _ v hp
  · exact fresh hdone
  · cases hlocked

/-- The row of the next recipient is locked. -/
theorem Delivering.lock {d : Data ℕ Key Notification (List Report)} {world : List Report}
    {row : Notification} (h : Delivering t dedupeKey done none d) (fresh : userId ∉ done)
    (hview : d.db.view t ⟨userId, dedupeKey⟩ = some row) :
  Delivering t dedupeKey done (some (userId, row))
    ⟨d.db.write t ⟨userId, dedupeKey⟩ (some row), world⟩
  := by
  rw [Db.view_of_not_pending (h.not_pending t fresh)] at hview
  constructor
  · intro key v hp
    by_cases hk : key = ⟨userId, dedupeKey⟩
    · subst hk
      rw [Db.pending_write_self] at hp
      cases hp
      exact ⟨rfl, Or.inr ⟨row, rfl, rfl, hview⟩⟩
    · rw [Db.pending_write_of_ne hk] at hp
      obtain ⟨hkey, ⟨hdone, hrow⟩ | ⟨row', hlocked, -⟩⟩ := h.pending key v hp
      · exact ⟨hkey, Or.inl ⟨hdone, hrow⟩⟩
      · cases hlocked
  · intro userId' hdone
    obtain ⟨v, hp⟩ := h.done userId' hdone
    refine ⟨v, ?_⟩
    rw [Db.pending_write_of_ne]
    · exact hp
    · rintro ⟨⟩
      exact fresh hdone
  · rintro userId' row' ⟨⟩
    exact Db.pending_write_self

/-- A row is written that counts one more document. -/
theorem Delivering.write {d : Data ℕ Key Notification (List Report)} {world : List Report}
    {locked : Option (UserId × Notification)} {row : Notification}
    (h : Delivering t dedupeKey done locked d)
    (only : ∀ userId' row', locked = some (userId', row') → userId' = userId)
    (count : row.info.count = some (countOf (d.db.committed ⟨userId, dedupeKey⟩) + 1)) :
  Delivering t dedupeKey (userId :: done) none
    ⟨d.db.write t ⟨userId, dedupeKey⟩ (some row), world⟩
  := by
  constructor
  · intro key v hp
    by_cases hk : key = ⟨userId, dedupeKey⟩
    · subst hk
      rw [Db.pending_write_self] at hp
      cases hp
      exact ⟨rfl, Or.inl ⟨List.mem_cons_self, row, rfl, count⟩⟩
    · rw [Db.pending_write_of_ne hk] at hp
      obtain ⟨hkey, ⟨hdone, hrow⟩ | ⟨row', hlocked, -⟩⟩ := h.pending key v hp
      · exact ⟨hkey, Or.inl ⟨List.mem_cons_of_mem _ hdone, hrow⟩⟩
      · obtain ⟨user, dedupe⟩ := key
        cases hkey
        cases only user row' hlocked
        exact absurd rfl hk
  · intro userId' hdone
    by_cases hk : userId' = userId
    · subst hk
      exact ⟨_, Db.pending_write_self⟩
    · obtain ⟨v, hp⟩ := h.done userId' ((List.mem_cons.mp hdone).resolve_left hk)
      refine ⟨v, ?_⟩
      rw [Db.pending_write_of_ne]
      · exact hp
      · rintro ⟨⟩
        exact hk rfl
  · rintro userId' row' ⟨⟩

/-- A row that is known to be there is found. -/
theorem lock_outline (fresh : userId ∉ done) (known : Prop) :
  Outline emailEnabled windowMinutes t c
    (fun d => Delivering t dedupeKey done none d ∧
      (known → d.db.committed ⟨userId, dedupeKey⟩ ≠ none))
    (query (.selectForUpdate ⟨userId, dedupeKey⟩))
    fun r d => ∀ found, r = .ok found → match found with
      | some row => Delivering t dedupeKey done (some (userId, row)) d
      | none => Delivering t dedupeKey done none d ∧ ¬known
  := by
  apply Server.Outline.query
  · rintro d d' hd hd' later frame ⟨h, present⟩
    exact ⟨Delivering.kept t d d' hd hd' later frame h, fun hk => later _ (present hk)⟩
  · rintro d r db hd ⟨h, present⟩ _ hexec
    obtain ⟨rfl, rfl, hview⟩ | ⟨v, rfl, -, hview, rfl⟩ := Db.exec_selectForUpdate hexec
    · refine ⟨hd, (countsReports windowMinutes).refl d, ?_⟩
      rintro found ⟨⟩
      rw [Db.view_of_not_pending (h.not_pending t fresh)] at hview
      exact ⟨h, fun hk => present hk hview⟩
    · refine ⟨hd, (countsReports windowMinutes).refl d, ?_⟩
      rintro found ⟨⟩
      exact h.lock t fresh hview
  · rintro d e - - - result ⟨⟩
  · apply Server.Outline.kept_ok
    intro found d d' hd hd' later frame h
    cases found with
    | some row => exact Delivering.kept t d d' hd hd' later frame h
    | none => exact ⟨Delivering.kept t d d' hd hd' later frame h.1, h.2⟩

theorem insert_outline (fresh : userId ∉ done) {row : Notification}
    (count : row.info.count = some 1) :
  Outline emailEnabled windowMinutes t c (Delivering t dedupeKey done none)
    (query (.insert ⟨userId, dedupeKey⟩ row))
    fun r d => ∀ created, r = .ok created → match created with
      | true => Delivering t dedupeKey (userId :: done) none d
      | false => Delivering t dedupeKey done none d ∧
          d.db.committed ⟨userId, dedupeKey⟩ ≠ none
  := by
  apply Server.Outline.query (Delivering.kept t)
  · intro d r db hd h _ hexec
    obtain ⟨rfl, -, absent, rfl⟩ | ⟨rfl, rfl, -, row', present⟩ := Db.exec_insert hexec
    · refine ⟨hd, (countsReports windowMinutes).refl d, ?_⟩
      rintro created ⟨⟩
      apply h.write t (fun _ _ h => nomatch h)
      rw [Db.view_of_not_pending (h.not_pending t fresh)] at absent
      rw [absent, count]
      rfl
    · refine ⟨hd, (countsReports windowMinutes).refl d, ?_⟩
      rintro created ⟨⟩
      refine ⟨h, ?_⟩
      rw [Db.view_of_not_pending (h.not_pending t fresh)] at present
      rw [present]
      exact fun h => nomatch h
  · rintro d e - - - result ⟨⟩
  · apply Server.Outline.kept_ok
    intro created d d' hd hd' later frame h
    cases created with
    | true => exact Delivering.kept t d d' hd hd' later frame h
    | false => exact ⟨Delivering.kept t d d' hd hd' later frame h.1, later _ h.2⟩

theorem collapse_outline (fresh : userId ∉ done) (filename : String) (documentId : DocumentId)
    (row : Notification) :
  Outline emailEnabled windowMinutes t c (Delivering t dedupeKey done (some (userId, row)))
    (collapse ⟨userId, dedupeKey⟩ filename documentId row)
    fun r d => ∀ pending, r = .ok pending → Delivering t dedupeKey (userId :: done) none d
  := by
  unfold collapse
  apply Server.Outline.bind (Q := fun r d => ∀ found, r = .ok found →
    Delivering t dedupeKey (userId :: done) none d)
  · apply Server.Outline.query (Delivering.kept t)
    · intro d r db hd h _ hexec
      have locked := h.locked userId row rfl
      have hview := Db.view_of_pending locked
      obtain ⟨-, -, absent⟩ | ⟨v, -, -, hview', rfl⟩ := Db.exec_update hexec
      · rw [hview] at absent
        cases absent
      · refine ⟨hd, (countsReports windowMinutes).refl d, fun _ _ => h.write t ?_ ?_⟩
        · rintro userId' row' ⟨⟩
          rfl
        · obtain ⟨-, ⟨hdone, -⟩ | ⟨row', -, hrow', hcommitted⟩⟩ := h.pending _ _ locked
          · exact absurd hdone fresh
          · cases hrow'
            rw [hcommitted]
            rfl
    · rintro d e - - - result ⟨⟩
    · exact Server.Outline.kept_ok fun _ => Delivering.kept t
  · intro found
    apply Server.Outline.pure (Server.Outline.kept_ok (fun _ => Delivering.kept t) _)
    exact fun d _ h _ _ => h found rfl
  · rintro e d - - pending ⟨⟩

theorem deliverReady_outline (fresh : userId ∉ done) (filename : String) (kbId : KbId)
    (documentId : DocumentId) :
  Outline emailEnabled windowMinutes t c (Delivering t dedupeKey done none)
    (deliverReady emailEnabled userId dedupeKey filename kbId documentId)
    fun r d => ∀ pending, r = .ok pending → Delivering t dedupeKey (userId :: done) none d
  := by
  unfold deliverReady
  apply Server.Outline.bind
  · apply (lock_outline t c fresh False).conseq _ fun _ _ _ h => h
    exact fun d _ h => ⟨h, False.elim⟩
  · intro found
    cases found with
    | some existing =>
      apply (collapse_outline t c fresh filename documentId existing).conseq _ fun _ _ _ h => h
      exact fun d _ h => h (some existing) rfl
    | none =>
      apply Server.Outline.bind
      · apply (insert_outline t c fresh rfl).conseq _ fun _ _ _ h => h
        exact fun d _ h => (h none rfl).1
      · intro created
        cases created with
        | true =>
          apply Server.Outline.conseq
            (P := Delivering t dedupeKey (userId :: done) none) _ _ fun _ _ _ h => h
          · apply Server.Outline.pure (Delivering.kept t)
            exact fun d _ h _ _ => h
          · exact fun d _ h => h true rfl
        | false =>
          apply Server.Outline.bind
          · apply (lock_outline t c fresh True).conseq _ fun _ _ _ h => h
            intro d _ h
            obtain ⟨delivering, present⟩ := h false rfl
            exact ⟨delivering, fun _ => present⟩
          · intro found
            cases found with
            | some existing =>
              apply (collapse_outline t c fresh filename documentId existing).conseq _
                fun _ _ _ h => h
              exact fun d _ h => h (some existing) rfl
            | none =>
              -- the insertion has failed because of a row, and no row goes away
              apply Server.Outline.conseq (P := fun _ => False) _ _ fun _ _ _ h => h
              · apply Server.Outline.pure (Server.Kept.const _)
                exact fun d _ h => h.elim
              · exact fun d _ h => (h none rfl).2 trivial
          · rintro e d - - pending ⟨⟩
      · rintro e d - - pending ⟨⟩
  · rintro e d - - pending ⟨⟩

end Recipient

theorem deliverReadyAll_outline (dedupeKey : DedupeKey) (filename : String) (kbId : KbId)
    (documentId : DocumentId) {recipients : List UserId} (nodup : recipients.Nodup) :
  ∀ done : List UserId, recipients.Disjoint done →
    Outline emailEnabled windowMinutes t c (Delivering t dedupeKey done none)
      (deliverReadyAll emailEnabled dedupeKey filename kbId documentId recipients)
      fun r d => ∀ pending, r = .ok pending →
        Delivering t dedupeKey (recipients.reverse ++ done) none d
  := by
  induction recipients with
  | nil =>
    intro done _
    apply Server.Outline.pure (Delivering.kept t)
    exact fun d _ h _ _ => h
  | cons userId recipients ih =>
    intro done disjoint
    obtain ⟨fresh, disjoint⟩ := List.disjoint_cons_left.mp disjoint
    obtain ⟨hhead, nodup⟩ := List.nodup_cons.mp nodup
    apply Server.Outline.bind (deliverReady_outline t c fresh filename kbId documentId)
    · intro pending
      apply Server.Outline.bind
      · apply (ih nodup (userId :: done) _).conseq _ fun _ _ _ h => h
        · exact List.disjoint_cons_right.mpr ⟨hhead, disjoint⟩
        · exact fun d _ h => h pending rfl
      · intro rest
        apply Server.Outline.pure
        · exact Server.Outline.kept_ok (fun _ => Delivering.kept t) _
        · intro d _ h _ _
          rw [List.reverse_cons, List.append_assoc]
          exact h rest rfl
      · rintro e d - - pending ⟨⟩
    · rintro e d - - pending ⟨⟩

/-- The call is committed: it is counted for each of its recipients. -/
theorem Delivering.commit {document : Document} {done : List UserId}
    {d : Data ℕ Key Notification (List Report)} (hc : c.document = some document)
    (h : Delivering t (collapseBucket windowMinutes document.kbId c.timestamp) done none d)
    (all : ∀ userId, userId ∈ done ↔ userId ∈ c.recipients document)
    (hd : (countsReports windowMinutes).holds d) :
  (countsReports windowMinutes).holds ⟨d.db.commit t, c :: d.world⟩ ∧
    (countsReports windowMinutes).later d ⟨d.db.commit t, c :: d.world⟩
  := by
  have reported_cons : ∀ key, reported windowMinutes (c :: d.world) key =
      if c.notifies windowMinutes key then c.documentId :: reported windowMinutes d.world key
      else reported windowMinutes d.world key := by
    intro key
    unfold reported
    rw [List.filter_cons]
    split
    next => rw [List.map_cons]
    next => rfl
  have notifies : ∀ key, c.notifies windowMinutes key = true ↔
      key.dedupeKey = collapseBucket windowMinutes document.kbId c.timestamp ∧
        key.userId ∈ done := by
    intro key
    unfold Report.notifies
    rw [hc, all]
    exact decide_eq_true_iff
  have counted : ∀ key, (∃ row, d.db.view t key = some row ∧ c.notifies windowMinutes key = true ∧
      row.info.count = some (countOf (d.db.committed key) + 1)) ∨
        (d.db.view t key = d.db.committed key ∧ c.notifies windowMinutes key = false) := by
    intro key
    by_cases hp : ∃ v, d.db.pending key = some (t, v)
    · obtain ⟨v, hp⟩ := hp
      obtain ⟨hkey, ⟨hdone, row, rfl, count⟩ | ⟨row, locked, -⟩⟩ := h.pending key v hp
      · exact Or.inl ⟨row, Db.view_of_pending hp, (notifies key).mpr ⟨hkey, hdone⟩, count⟩
      · cases locked
    · refine Or.inr ⟨Db.view_of_not_pending fun v hv => hp ⟨v, hv⟩, ?_⟩
      rw [← Bool.not_eq_true, notifies]
      rintro ⟨hkey, hdone⟩
      apply hp
      obtain ⟨userId, dedupeKey⟩ := key
      cases hkey
      exact h.done userId hdone
  constructor
  · intro key
    have before := hd key
    rw [Db.committed_commit, reported_cons]
    obtain ⟨row, hview, hn, count⟩ | ⟨hview, hn⟩ := counted key
    · simp only [hview, hn, if_true, List.length_cons]
      cases hcommitted : d.db.committed key with
      | none =>
        simp only [hcommitted] at before
        rw [count, hcommitted, before]
        exact ⟨List.cons_ne_nil _ _, rfl⟩
      | some row' =>
        simp only [hcommitted] at before
        rw [count, hcommitted, countOf, before.2]
        exact ⟨List.cons_ne_nil _ _, rfl⟩
    · rw [hview, hn]
      exact before
  · intro key hkey
    rw [Db.committed_commit]
    obtain ⟨row, hview, -⟩ | ⟨hview, -⟩ := counted key
    · rw [hview]
      apply Option.some_ne_none
    · rw [hview]
      exact hkey

/-- A call without a document is committed. -/
theorem counts_commit_of_idle {d : Data ℕ Key Notification (List Report)}
    (hc : c.document = none) (idle : d.db.Idle t)
    (hd : (countsReports windowMinutes).holds d) :
  (countsReports windowMinutes).holds ⟨d.db.commit t, c :: d.world⟩ ∧
    (countsReports windowMinutes).later d ⟨d.db.commit t, c :: d.world⟩
  := by
  constructor
  · intro key
    have silent : c.notifies windowMinutes key = false := by
      unfold Report.notifies
      rw [hc]
      rfl
    have same : reported windowMinutes (c :: d.world) key = reported windowMinutes d.world key := by
      unfold reported
      rw [List.filter_cons_of_neg (by rw [silent]; nofun)]
    have before := hd key
    rw [Db.committed_commit, idle.view, same]
    exact before
  · intro key hkey
    rw [Db.committed_commit, idle.view]
    exact hkey

theorem ready_outlined (emailEnabled : Bool) (windowMinutes : ℕ) :
  Server.Outlined (readyService emailEnabled windowMinutes) (countsReports windowMinutes)
    Server.Guard.none fun t _ _ _ d => d.db.Idle t
  := by
  constructor
  · intro t c w
    have ends : ∀ r : Except NotifyError (List Key), Server.Kept (countsReports windowMinutes) t
        fun d => d.db.Idle t := fun _ => Server.Kept.idle
    apply Server.Outline.conseq (P := fun d => d.db.Idle t) _ (fun d _ h => h.1) fun _ _ _ h => h
    show Outline emailEnabled windowMinutes t c _ (notifyDocumentReady emailEnabled windowMinutes c)
      _
    unfold notifyDocumentReady
    apply Server.Outline.handle (Q := fun _ d => d.db.Idle t)
    · cases hc : c.document with
      | none =>
        apply Server.Outline.unitOfWork (B := fun _ d => d.db.Idle t)
        · exact Server.Outline.pure Server.Kept.idle fun d _ h => h
        · exact ends
        · intro pending d hd idle _
          obtain ⟨hholds, hlater⟩ := counts_commit_of_idle t c hc idle hd
          exact ⟨hholds, hlater, Db.idle_commit _⟩
        · intro e d hd idle
          exact ⟨hd, (countsReports windowMinutes).refl d, Db.idle_rollback _⟩
        · exact ends
      | some document =>
        apply Server.Outline.unitOfWork
        · apply (deliverReadyAll_outline t c _ document.filename document.kbId c.documentId
            (c.recipients_nodup document) [] (List.disjoint_nil_right _)).conseq _ fun _ _ _ h => h
          exact fun d _ h => Delivering.of_idle t h
        · exact Server.Outline.kept_ok fun _ => Delivering.kept t
        · intro pending d hd h _
          have all : ∀ userId, userId ∈ (c.recipients document).reverse ++ [] ↔
              userId ∈ c.recipients document := by
            intro userId
            rw [List.append_nil, List.mem_reverse]
          obtain ⟨hholds, hlater⟩ := (h pending rfl).commit t c hc all hd
          exact ⟨hholds, hlater, Db.idle_commit _⟩
        · intro e d hd _
          exact ⟨hd, (countsReports windowMinutes).refl d, Db.idle_rollback _⟩
        · exact ends
    · intro e
      exact Server.Outline.pure Server.Kept.idle fun d _ h => h
    · exact fun a => ends (.ok a)
    · exact fun a d _ h => h
  · exact fun t c w r d h => h
  · rintro ⟨⟩ d w hd hw
    cases hw
    exact ⟨hd, (countsReports windowMinutes).refl d⟩

end Outlines

section Runs

abbrev ReadyState := State ℕ Key Notification NoOperation.Reply (List Report) Report NotifyError
  (List Key)

abbrev ReadyAction := Action ℕ Report NotifyError Unit

/-- Nothing has been reported yet. -/
def Unreported (d : Data ℕ Key Notification (List Report)) : Prop :=
  (∀ key, d.db.committed key = none) ∧ d.world = []

variable {emailEnabled : Bool} {windowMinutes : ℕ} {h : List (ReadyState × ReadyAction)}
  {s : ReadyState}

theorem countsReports_of_run
    (run : ((readyService emailEnabled windowMinutes).machine Unreported).Run h s) :
  (countsReports windowMinutes).holds s.data
  := by
  apply (Server.sound_of_run (ready_outlined emailEnabled windowMinutes) _ run _).holds
  · rintro d ⟨hrows, hworld⟩ key
    rw [hrows, hworld]
    rfl
  · exact fun x _ => Server.Guard.holds_none x.1 x.2

/-- In every run there is a row for a recipient and a slot if some document has been reported
there, and its count is the number of the documents reported if and only if none has been reported
twice. -/
theorem ready_count_exact_iff
    (run : ((readyService emailEnabled windowMinutes).machine Unreported).Run h s) (key : Key) :
  (s.data.db.committed key = none ↔ reported windowMinutes s.data.world key = []) ∧
    ((∀ row, s.data.db.committed key = some row →
      row.info.count = some (reported windowMinutes s.data.world key).dedup.length) ↔
        (reported windowMinutes s.data.world key).Nodup)
  := by
  have now := countsReports_of_run run key
  cases hrow : s.data.db.committed key with
  | none =>
    simp only [hrow] at now
    rw [now]
    refine ⟨⟨fun _ => rfl, fun _ => rfl⟩, fun _ => List.nodup_nil, ?_⟩
    rintro - row ⟨⟩
  | some row =>
    simp only [hrow] at now
    refine ⟨⟨(fun h => nomatch h), fun h => absurd h now.1⟩, ?_, ?_⟩
    · intro counts
      have same := Option.some.inj ((counts row rfl).symm.trans now.2)
      rw [← (List.dedup_sublist _).eq_of_length same]
      apply List.nodup_dedup
    · rintro nodup row' ⟨⟩
      rw [nodup.dedup]
      exact now.2

/-- A document of the knowledge base 7 that the user 4 has uploaded. -/
def handbook : Document where
  kbId := 7
  filename := "handbook.pdf"
  uploadedBy := some 4

def ready (documentId : DocumentId) (document : Document) (timestamp : ℕ) : Report where
  documentId := documentId
  document := document
  timestamp := timestamp
  admins := ⟨[], List.nodup_nil⟩

/-- Two documents become ready at the same time: both calls find no row, and the insertion of the
second waits for the first one and fails. -/
theorem ready_count_exact_iff_two :
  ∃ h s, ((readyService false 5).machine Unreported).Run h s ∧
    reported 5 s.data.world ⟨4, .documentReady 7 3⟩ = [2, 1] ∧
    ∀ row, s.data.db.committed ⟨4, .documentReady 7 3⟩ = some row → row.info.count = some 2
  := by
  obtain ⟨h, s, run, result⟩ :=
    ((readyService false 5).machine Unreported).exists_run_of_exec
      [.start 1 (ready 1 handbook 1000), .start 2 (ready 2 handbook 1001), .step 1, .step 2,
        .step 1, .step 1, .step 2, .step 2, .step 2, .step 2, .finish 1, .finish 2]
      (fun s => decide (reported 5 s.data.world ⟨4, .documentReady 7 3⟩ = [2, 1]))
      (s := ⟨⟨Db.ofRows fun _ => none, []⟩, fun _ => none⟩)
      ⟨⟨fun _ => rfl, rfl⟩, fun _ => rfl, fun _ => Db.idle_ofRows _⟩ (by decide +kernel)
  have two := of_decide_eq_true result
  refine ⟨h, s, run, two, ?_⟩
  have counts := (ready_count_exact_iff run ⟨4, .documentReady 7 3⟩).2.mpr
  rw [two] at counts
  exact counts (by decide)

/-- A document that is processed twice within a slot is counted twice. -/
theorem ready_counts_document_twice :
  ¬∀ h s, ((readyService false 5).machine Unreported).Run h s → ∀ key row,
    s.data.db.committed key = some row →
      row.info.count = some (reported 5 s.data.world key).dedup.length
  := by
  intro claim
  obtain ⟨h, s, run, result⟩ :=
    ((readyService false 5).machine Unreported).exists_run_of_exec
      [.start 1 (ready 1 handbook 1000), .step 1, .step 1, .step 1, .finish 1,
        .start 1 (ready 1 handbook 1100), .step 1, .step 1, .step 1, .finish 1]
      (fun s => (s.data.db.committed ⟨4, .documentReady 7 3⟩).any fun row : Notification =>
        decide (row.info.count = some 2 ∧
          (reported 5 s.data.world ⟨4, .documentReady 7 3⟩).dedup.length = 1))
      (s := ⟨⟨Db.ofRows fun _ => none, []⟩, fun _ => none⟩)
      ⟨⟨fun _ => rfl, rfl⟩, fun _ => rfl, fun _ => Db.idle_ofRows _⟩ (by decide +kernel)
  rw [Option.any_eq_true] at result
  obtain ⟨row, hrow, result⟩ := result
  obtain ⟨two, one⟩ := of_decide_eq_true result
  have counted := claim h s run _ row hrow
  rw [two, one] at counted
  cases counted

end Runs

end Lumina.Platform.Notifications
