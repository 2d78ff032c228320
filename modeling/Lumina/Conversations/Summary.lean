import Lumina.Conversations.Messages
import Lumina.Library.Server
import Mathlib.Algebra.Order.Monoid.Unbundled.WithTop
import Mathlib.Data.List.MinMax
import Mathlib.Order.Lattice.Nat

/-!
# The summary of a conversation

`MessageRepository.append` inserts a message and updates the two columns that the list of
conversations is made of.  The transactions of any number of sessions append at the same time.  The
number of messages is a relative update; the time of the last message is assigned, so that it is the
latest one only if the updates are performed in the order of the times.

The clock of the workers is read for each time that is written, and goes as it likes.
-/

namespace Lumina.Conversations

open Chat (MessageStatus)
open Interleaving Transition ReadCommitted

/-- The tables, with their primary keys; the one of the messages contains the time. -/
inductive Key where
  | conversation (id : ℕ)
  | message (id createdAt : ℕ)
deriving DecidableEq, Repr

structure ConversationRow where
  userId : ℕ
  createdAt : ℕ
  updatedAt : ℕ
  messageCount : ℕ := 0
  lastMessageAt : Option ℕ := none
deriving DecidableEq, Repr

/-- `COALESCE(last_message_at, created_at)`, by which the list of conversations is ordered. -/
def ConversationRow.sortKey (row : ConversationRow) : ℕ := row.lastMessageAt.getD row.createdAt

/-- The time of the last message, where NULL comes before all times. -/
def ConversationRow.latest (row : ConversationRow) : WithBot ℕ :=
  match row.lastMessageAt with
  | none => ⊥
  | some last => last

inductive Row where
  | conversation (row : ConversationRow)
  | message (row : Message)
deriving DecidableEq

/-- What is not in the database: `timezone.now()`. -/
inductive Clock where
  | now

abbrev Clock.Reply : Clock → Type
  | .now => ℕ

inductive DatabaseError where
  | integrityError
  | operationalError
deriving DecidableEq, Repr

/-- The arguments of `append`, and the identifier that the row gets. -/
structure NewMessage where
  id : ℕ
  conversationId : ℕ
  role : Role
  content : String := ""
  status : MessageStatus := .completed
deriving DecidableEq, Repr

def NewMessage.row (new : NewMessage) (createdAt : ℕ) : Message where
  id := new.id
  conversationId := new.conversationId
  createdAt := createdAt
  role := new.role
  content := new.content
  status := new.status

/-- `update(message_count=F("message_count") + 1, last_message_at=…, updated_at=…)` -/
def touch (createdAt now : ℕ) : Row → Row
  | .conversation row => .conversation { row with
      messageCount := row.messageCount + 1
      lastMessageAt := some createdAt
      updatedAt := now }
  | row => row

abbrev Transaction (α : Type) :=
  Program (Op.Reply (κ := Key) (ν := Row) Clock.Reply) DatabaseError α

/-- `MessageRepository.append` -/
def append (new : NewMessage) : Transaction Message := do
  let createdAt ← external .now
  let message := new.row createdAt
  let inserted ← query (.insert (.message message.id createdAt) (.message message))
  if inserted then
    let now ← external .now
    let _ ← query (.update (.conversation message.conversationId) (touch createdAt now))
    return message
  else
    .raise .integrityError

/-- The appends of one transaction, one after the other. -/
def appendAll : List NewMessage → Transaction (List Message)
  | [] => return []
  | new :: rest => do
    let message ← append new
    let messages ← appendAll rest
    return message :: messages

/-- Sessions `ℕ` that each append some messages in a transaction. -/
def appends : Server ℕ Key Row Clock.Reply ℕ (List NewMessage) DatabaseError (List Message) ℕ where
  program news := unitOfWork (appendAll news)
  external _ _ e clock := match e with
    | .now => some (.ok clock, clock)
  fails _ _ _ := true
  record _ _ clock := clock
  environment time _ := some time

abbrev Rows := Data ℕ Key Row ℕ

/-- The messages of a conversation in a table. -/
def MessagesOf (rows : Key → Option Row) (conversationId : ℕ) (messages : List Message) : Prop :=
  messages.Nodup ∧ ∀ m, m ∈ messages ↔
    rows (.message m.id m.createdAt) = some (.message m) ∧ m.conversationId = conversationId

def IsConversation (rows : Key → Option Row) (conversationId : ℕ) : Prop :=
  ∃ row, rows (.conversation conversationId) = some (.conversation row)

/-- The number of messages is exact, and if `ordered` so is the time of the last one. -/
def ConversationRow.Exact (ordered : Prop) (row : ConversationRow) (messages : List Message) :
    Prop :=
  row.messageCount = messages.length ∧
    (ordered → row.latest = (messages.map Message.createdAt).maximum)

/-- The summary of each conversation is that of its messages, and no conversation is created or
removed. -/
def exactSummaries (ordered : Prop) : Server.Claim ℕ Key Row ℕ where
  holds d := ∀ c row, d.db.committed (.conversation c) = some (.conversation row) →
    ∃ messages, MessagesOf d.db.committed c messages ∧ row.Exact ordered messages
  later d d' := ∀ c, IsConversation d'.db.committed c ↔ IsConversation d.db.committed c
  refl _ _ := Iff.rfl
  trans h h' c := (h' c).trans (h c)

/-- An update of the summary does not put the time of the last message back. -/
def inOrder (ordered : Prop) : Server.Guard ℕ Key Row Clock ℕ (List NewMessage) where
  start _ _ _ := True
  step t _ op d := ordered → ∀ c createdAt now row last,
    op = .inl (.update (.conversation c) (touch createdAt now)) →
    d.db.view t (.conversation c) = some (.conversation row) → row.lastMessageAt = some last →
    last ≤ createdAt

/-- The messages of a conversation that the transaction `t` has inserted. -/
def OwnMessages (t : ℕ) (db : Db ℕ Key Row) (c : ℕ) (messages : List Message) : Prop :=
  messages.Nodup ∧ ∀ m, m ∈ messages ↔
    db.pending (.message m.id m.createdAt) = some (t, some (.message m)) ∧ m.conversationId = c

/-- What the transaction `t` has done so far: it has inserted messages that nobody else has, and,
except for those of `inflight`, added them to the summaries. -/
structure Pending (ordered : Prop) (t : ℕ) (inflight : List Message) (d : Rows) : Prop where
  message : ∀ id createdAt v, d.db.pending (.message id createdAt) = some (t, v) →
    d.db.committed (.message id createdAt) = none ∧
      ∃ m : Message, v = some (.message m) ∧ m.id = id ∧ m.createdAt = createdAt
  conversation : ∀ c row, d.db.pending (.conversation c) = some (t, some (.conversation row)) →
    IsConversation d.db.committed c
  summary : ∀ c row, d.db.committed (.conversation c) = some (.conversation row) →
    ∃ messages, OwnMessages t d.db c (inflight.filter (·.conversationId = c) ++ messages) ∧
      ((∀ v, d.db.pending (.conversation c) ≠ some (t, v)) → messages = []) ∧
      ∀ v, d.db.pending (.conversation c) = some (t, v) →
        ∃ row', v = some (.conversation row') ∧
          row'.messageCount = row.messageCount + messages.length ∧
          (ordered → row'.latest =
            max row.latest (messages.map Message.createdAt).maximum)

section Steps

variable {ordered : Prop} {t : ℕ} {inflight : List Message}

theorem Pending.kept : Server.Kept (exactSummaries ordered) t (Pending ordered t inflight) := by
  intro d d' _ _ later frame h
  constructor
  · intro id createdAt v hp
    have before := (frame.pending _ _).mp hp
    rw [frame.committed _ _ before]
    apply h.message id createdAt v before
  · intro c row hp
    have before := (frame.pending _ _).mp hp
    apply (later c).mpr
    apply h.conversation c row before
  · intro c row hrow
    obtain ⟨row₀, hrow₀⟩ := (later c).mp ⟨row, hrow⟩
    obtain ⟨messages, own, absent, present⟩ := h.summary c row₀ hrow₀
    refine ⟨messages, ?_, ?_, ?_⟩
    · refine ⟨own.1, ?_⟩
      intro m
      rw [own.2, frame.pending]
    · intro hp
      apply absent
      intro v hv
      exact hp v ((frame.pending _ _).mpr hv)
    · intro v hp
      have before := (frame.pending _ _).mp hp
      have same := frame.committed _ _ before
      rw [hrow, hrow₀] at same
      cases same
      exact present v before

theorem Pending.of_idle {d : Rows} (idle : d.db.Idle t) : Pending ordered t [] d where
  message id createdAt v hp := absurd hp (idle _ v)
  conversation c row hp := absurd hp (idle _ _)
  summary c row _ := by
    refine ⟨[], ⟨List.nodup_nil, ?_⟩, fun _ => rfl, fun v hp => absurd hp (idle _ v)⟩
    intro m
    constructor
    · intro hm
      cases hm
    · intro hm
      exact absurd hm.1 (idle _ _)

/-- An insertion puts the message in flight. -/
theorem Pending.insert {d : Rows} {m : Message} {world : ℕ} (h : Pending ordered t [] d)
    (free : d.db.Free t (.message m.id m.createdAt))
    (absent : d.db.view t (.message m.id m.createdAt) = none) :
  Pending ordered t [m] ⟨d.db.write t (.message m.id m.createdAt) (some (.message m)), world⟩
  := by
  have fresh : ∀ v, d.db.pending (.message m.id m.createdAt) ≠ some (t, v) := by
    intro v hp
    obtain ⟨-, m', rfl, -⟩ := h.message _ _ v hp
    rw [Db.view_of_pending hp] at absent
    cases absent
  have other : ∀ c, Key.conversation c ≠ .message m.id m.createdAt := fun c h => nomatch h
  constructor
  · intro id createdAt v hp
    by_cases hk : Key.message id createdAt = .message m.id m.createdAt
    · cases hk
      rw [Db.pending_write_self] at hp
      cases hp
      rw [Db.view_of_not_pending fresh] at absent
      exact ⟨absent, m, rfl, rfl, rfl⟩
    · rw [Db.pending_write_of_ne hk] at hp
      apply h.message id createdAt v hp
  · intro c row hp
    rw [Db.pending_write_of_ne (other c)] at hp
    apply h.conversation c row hp
  · intro c row hrow
    obtain ⟨messages, own, unlocked, present⟩ := h.summary c row hrow
    refine ⟨messages, ?_, ?_, ?_⟩
    · rw [List.filter_nil, List.nil_append] at own
      have landed : ∀ m' : Message,
          (d.db.write t (.message m.id m.createdAt) (some (.message m))).pending
              (.message m'.id m'.createdAt) = some (t, some (.message m')) ↔
            m' = m ∨ d.db.pending (.message m'.id m'.createdAt) = some (t, some (.message m')) := by
        intro m'
        by_cases hk : Key.message m'.id m'.createdAt = .message m.id m.createdAt
        · rw [hk, Db.pending_write_self]
          constructor
          · intro hp
            cases hp
            exact Or.inl rfl
          · rintro (rfl | hp)
            · rfl
            · exact absurd hp (fresh _)
        · rw [Db.pending_write_of_ne hk]
          exact ⟨Or.inr, fun h => h.resolve_left fun same => hk (by rw [same])⟩
      rw [List.filter_singleton]
      by_cases hc : m.conversationId = c
      · rw [decide_eq_true hc, cond_true, List.singleton_append]
        refine ⟨List.nodup_cons.mpr ⟨?_, own.1⟩, ?_⟩
        · intro hm
          exact fresh _ ((own.2 m).mp hm).1
        · intro m'
          rw [List.mem_cons, own.2, landed]
          constructor
          · rintro (rfl | hm')
            · exact ⟨Or.inl rfl, hc⟩
            · exact ⟨Or.inr hm'.1, hm'.2⟩
          · rintro ⟨rfl | hp, hm'⟩
            · exact Or.inl rfl
            · exact Or.inr ⟨hp, hm'⟩
      · rw [decide_eq_false hc, cond_false, List.nil_append]
        refine ⟨own.1, ?_⟩
        intro m'
        rw [own.2, landed]
        constructor
        · exact fun hm' => ⟨Or.inr hm'.1, hm'.2⟩
        · rintro ⟨rfl | hp, hm'⟩
          · exact absurd hm' hc
          · exact ⟨hp, hm'⟩
    · rw [Db.pending_write_of_ne (other c)]
      exact unlocked
    · rw [Db.pending_write_of_ne (other c)]
      exact present

/-- The update of the summary takes the message out of flight. -/
theorem Pending.update {d : Rows} {m : Message} {now world : ℕ} {r : Bool} {db : Db ℕ Key Row}
    (h : Pending ordered t [m] d)
    (guard : ordered → ∀ row last,
      d.db.view t (.conversation m.conversationId) = some (.conversation row) →
      row.lastMessageAt = some last → last ≤ m.createdAt)
    (hexec : d.db.exec t (.update (.conversation m.conversationId) (touch m.createdAt now)) =
      some (r, db)) :
  Pending ordered t [] ⟨db, world⟩
  := by
  have other : ∀ id createdAt, Key.message id createdAt ≠ .conversation m.conversationId :=
    fun _ _ h => nomatch h
  have others : ∀ c, c ≠ m.conversationId →
      [m].filter (fun m => decide (m.conversationId = c)) = [] := by
    intro c hc
    rw [List.filter_singleton, decide_eq_false (Ne.symm hc), cond_false]
  have self : [m].filter (fun m' => decide (m'.conversationId = m.conversationId)) = [m] := by
    rw [List.filter_singleton, decide_eq_true rfl, cond_true]
  obtain ⟨-, rfl, hview⟩ | ⟨v, -, free, hview, rfl⟩ := Db.exec_update hexec
  · refine ⟨h.message, h.conversation, ?_⟩
    intro c row hrow
    obtain ⟨messages, own, unlocked, present⟩ := h.summary c row hrow
    have hc : c ≠ m.conversationId := by
      rintro rfl
      by_cases hp : ∃ v, d.db.pending (.conversation m.conversationId) = some (t, v)
      · obtain ⟨v, hp⟩ := hp
        obtain ⟨row', rfl, -⟩ := present v hp
        rw [Db.view_of_pending hp] at hview
        cases hview
      · rw [Db.view_of_not_pending fun v hv => hp ⟨v, hv⟩, hrow] at hview
        cases hview
    rw [others c hc] at own
    exact ⟨messages, own, unlocked, present⟩
  · have found : ∀ row, v = .conversation row → IsConversation d.db.committed m.conversationId := by
      rintro row rfl
      by_cases hp : ∃ v, d.db.pending (.conversation m.conversationId) = some (t, v)
      · obtain ⟨v, hp⟩ := hp
        rw [Db.view_of_pending hp] at hview
        rw [hview] at hp
        exact h.conversation _ row hp
      · rw [Db.view_of_not_pending fun v hv => hp ⟨v, hv⟩] at hview
        exact ⟨row, hview⟩
    constructor
    · intro id createdAt v' hp
      rw [Db.pending_write_of_ne (other _ _)] at hp
      exact h.message id createdAt v' hp
    · intro c row hp
      by_cases hc : c = m.conversationId
      · subst hc
        rw [Db.pending_write_self] at hp
        cases v with
        | conversation row' => exact found row' rfl
        | message m' => cases hp
      · rw [Db.pending_write_of_ne fun h => hc (Key.conversation.inj h)] at hp
        exact h.conversation c row hp
    · intro c row hrow
      obtain ⟨messages, own, unlocked, present⟩ := h.summary c row hrow
      by_cases hc : c = m.conversationId
      · subst hc
        rw [self] at own
        refine ⟨m :: messages, ?_, ?_, ?_⟩
        · refine ⟨own.1, ?_⟩
          intro m'
          rw [Db.pending_write_of_ne (other _ _)]
          exact own.2 m'
        · intro hp
          exact absurd Db.pending_write_self (hp _)
        · intro v' hp
          rw [Db.pending_write_self] at hp
          cases hp
          -- the row as the transaction finds it, its own or the committed one
          obtain ⟨row', rfl, count, last⟩ : ∃ row', v = .conversation row' ∧
              row'.messageCount = row.messageCount + messages.length ∧
              (ordered → row'.latest =
                max row.latest (messages.map Message.createdAt).maximum) := by
            by_cases hp : ∃ v, d.db.pending (.conversation m.conversationId) = some (t, v)
            · obtain ⟨v', hp⟩ := hp
              obtain ⟨row', rfl, hrow'⟩ := present v' hp
              rw [Db.view_of_pending hp] at hview
              cases hview
              exact ⟨row', rfl, hrow'⟩
            · have free : ∀ v, d.db.pending (.conversation m.conversationId) ≠ some (t, v) :=
                fun v hv => hp ⟨v, hv⟩
              rw [Db.view_of_not_pending free] at hview
              cases hrow.symm.trans hview
              rw [unlocked free]
              refine ⟨row, rfl, rfl, fun _ => ?_⟩
              rw [List.map_nil, List.maximum_nil, max_bot_right]
          refine ⟨_, rfl, ?_, ?_⟩
          · rw [List.length_cons, ← Nat.add_assoc, ← count]
          · intro hordered
            have before : row'.latest ≤ (m.createdAt : WithBot ℕ) := by
              unfold ConversationRow.latest
              split
              next => exact bot_le
              next last hlast => exact WithBot.coe_le_coe.mpr (guard hordered row' last hview hlast)
            rw [last hordered, max_le_iff] at before
            rw [List.map_cons, List.maximum_cons]
            symm
            apply le_antisymm
            · exact max_le before.1 (max_le le_rfl before.2)
            · exact le_max_of_le_right (le_max_left _ _)
      · rw [others c hc] at own
        have key : Key.conversation c ≠ .conversation m.conversationId :=
          fun h => hc (Key.conversation.inj h)
        refine ⟨messages, ⟨own.1, ?_⟩, ?_, ?_⟩
        · intro m'
          rw [Db.pending_write_of_ne (other _ _)]
          exact own.2 m'
        · rw [Db.pending_write_of_ne key]
          exact unlocked
        · rw [Db.pending_write_of_ne key]
          exact present

theorem maximum_append (xs ys : List ℕ) :
  (xs ++ ys).maximum = max xs.maximum ys.maximum
  := by
  induction xs with
  | nil => rw [List.nil_append, List.maximum_nil, max_bot_left]
  | cons x xs ih =>
    rw [List.cons_append, List.maximum_cons, List.maximum_cons, ih, max_assoc]

/-- What a transaction leaves when it commits. -/
theorem Pending.commit {d : Rows} {world : ℕ} (holds : (exactSummaries ordered).holds d)
    (h : Pending ordered t [] d) :
  (exactSummaries ordered).holds ⟨d.db.commit t, world⟩ ∧
    (exactSummaries ordered).later d ⟨d.db.commit t, world⟩
  := by
  constructor
  · intro c row hrow
    rw [Db.committed_commit] at hrow ⊢
    -- a message is seen that is committed or that the transaction has inserted
    have seen : ∀ m : Message,
        d.db.view t (.message m.id m.createdAt) = some (.message m) ↔
          d.db.pending (.message m.id m.createdAt) = some (t, some (.message m)) ∨
            d.db.committed (.message m.id m.createdAt) = some (.message m) := by
      intro m
      by_cases hp : ∃ v, d.db.pending (.message m.id m.createdAt) = some (t, v)
      · obtain ⟨v, hp⟩ := hp
        obtain ⟨absent, m', rfl, -⟩ := h.message _ _ v hp
        rw [Db.view_of_pending hp, hp, absent]
        constructor
        · rintro same
          cases same
          exact Or.inl rfl
        · rintro (same | same)
          · cases same
            rfl
          · cases same
      · have free : ∀ v, d.db.pending (.message m.id m.createdAt) ≠ some (t, v) :=
          fun v hv => hp ⟨v, hv⟩
        rw [Db.view_of_not_pending free]
        exact ⟨Or.inr, fun h => h.resolve_left (free _)⟩
    have all : ∀ row₀ messages own, d.db.committed (.conversation c) = some (.conversation row₀) →
        MessagesOf d.db.committed c messages → OwnMessages t d.db c own →
        MessagesOf (d.db.view t) c (own ++ messages) := by
      intro row₀ messages own _ hmessages hown
      constructor
      · apply List.Nodup.append hown.1 hmessages.1
        intro m hm hm'
        have absent := (h.message _ _ _ ((hown.2 m).mp hm).1).1
        rw [((hmessages.2 m).mp hm').1] at absent
        cases absent
      · intro m
        rw [List.mem_append, hown.2, hmessages.2, seen]
        tauto
    by_cases hp : ∃ v, d.db.pending (.conversation c) = some (t, v)
    · obtain ⟨v, hp⟩ := hp
      rw [Db.view_of_pending hp] at hrow
      subst hrow
      obtain ⟨row₀, hrow₀⟩ := h.conversation c row hp
      obtain ⟨own, hown, -, present⟩ := h.summary c row₀ hrow₀
      obtain ⟨messages, hmessages, count, last⟩ := holds c row₀ hrow₀
      obtain ⟨row', same, count', last'⟩ := present _ hp
      cases same
      refine ⟨own ++ messages, all row₀ messages own hrow₀ hmessages hown, ?_, ?_⟩
      · rw [count', count, List.length_append, Nat.add_comm]
      · intro hordered
        rw [last' hordered, last hordered, List.map_append, maximum_append, max_comm]
    · have free : ∀ v, d.db.pending (.conversation c) ≠ some (t, v) := fun v hv => hp ⟨v, hv⟩
      rw [Db.view_of_not_pending free] at hrow
      obtain ⟨own, hown, unlocked, -⟩ := h.summary c row hrow
      obtain ⟨messages, hmessages, exact⟩ := holds c row hrow
      rw [unlocked free] at hown
      exact ⟨messages, all row messages [] hrow hmessages hown, exact⟩
  · intro c
    rw [Db.committed_commit]
    by_cases hp : ∃ v, d.db.pending (.conversation c) = some (t, v)
    · obtain ⟨v, hp⟩ := hp
      unfold IsConversation
      rw [Db.view_of_pending hp]
      constructor
      · rintro ⟨row, rfl⟩
        exact h.conversation c row hp
      · rintro ⟨row, hrow⟩
        obtain ⟨_, _, _, present⟩ := h.summary c row hrow
        obtain ⟨row', rfl, -⟩ := present v hp
        exact ⟨row', rfl⟩
    · unfold IsConversation
      rw [Db.view_of_not_pending fun v hv => hp ⟨v, hv⟩]

end Steps

section Outlines

variable {ordered : Prop} (t : ℕ) (c : List NewMessage)

/-- What holds at the end of a part of the transaction: nothing is known after an error. -/
def Appended {α : Type} (ordered : Prop) (t : ℕ) (inflight : List Message)
    (r : Except DatabaseError α) (d : Rows) : Prop :=
  ∀ a, r = .ok a → Pending ordered t inflight d

theorem Appended.kept {t : ℕ} {α : Type} {inflight : List Message} (r : Except DatabaseError α) :
  Server.Kept (exactSummaries ordered) t (Appended ordered t inflight r)
  := by
  intro d d' hd hd' later frame h a ha
  exact Pending.kept d d' hd hd' later frame (h a ha)

theorem now_outline (inflight : List Message) :
  Server.Outline appends (exactSummaries ordered) (inOrder ordered) t c
    (Pending ordered t inflight) (external .now) (Appended ordered t inflight)
  := by
  apply Server.Outline.external Pending.kept
  · intro d r w hd hP _ hr
    cases hr
    exact ⟨hd, fun _ => Iff.rfl, fun _ _ => ⟨hP.message, hP.conversation, hP.summary⟩⟩
  · nofun
  · apply Appended.kept

theorem insert_outline (m : Message) :
  Server.Outline appends (exactSummaries ordered) (inOrder ordered) t c
    (Pending ordered t []) (query (.insert (.message m.id m.createdAt) (.message m)))
    fun r d => r = .ok true → Pending ordered t [m] d
  := by
  apply Server.Outline.query Pending.kept
  · intro d r db hd hP _ hexec
    obtain ⟨rfl, free, absent, rfl⟩ | ⟨rfl, rfl, -⟩ := Db.exec_insert hexec
    · exact ⟨hd, fun _ => Iff.rfl, fun _ => hP.insert free absent⟩
    · exact ⟨hd, fun _ => Iff.rfl, nofun⟩
  · nofun
  · intro r d d' hd hd' later frame h hr
    exact Pending.kept d d' hd hd' later frame (h hr)

theorem update_outline (m : Message) (now : ℕ) :
  Server.Outline appends (exactSummaries ordered) (inOrder ordered) t c
    (Pending ordered t [m])
    (query (.update (.conversation m.conversationId) (touch m.createdAt now)))
    (Appended ordered t [])
  := by
  apply Server.Outline.query Pending.kept
  · intro d r db hd hP guard hexec
    have committed : db.committed = d.db.committed := by
      obtain ⟨-, rfl, -⟩ | ⟨v, -, -, -, rfl⟩ := Db.exec_update hexec
      all_goals rfl
    have next : ∀ world, Pending ordered t [] ⟨db, world⟩ := by
      intro world
      apply hP.update _ hexec
      intro hordered row last
      exact guard hordered m.conversationId m.createdAt now row last rfl
    refine ⟨?_, ?_, fun _ _ => next _⟩
    · intro c row hrow
      rw [committed] at hrow ⊢
      exact hd c row hrow
    · intro c
      rw [committed]
  · nofun
  · apply Appended.kept

theorem append_outline (new : NewMessage) :
  Server.Outline appends (exactSummaries ordered) (inOrder ordered) t c
    (Pending ordered t []) (append new) (Appended ordered t [])
  := by
  unfold append
  apply Server.Outline.bind (now_outline t c [])
  · intro createdAt
    apply Server.Outline.bind
    · apply (insert_outline t c (new.row createdAt)).conseq
      · exact fun d _ h => h createdAt rfl
      · exact fun _ _ _ h => h
    · intro inserted
      cases inserted with
      | true =>
        apply Server.Outline.bind
        · apply (now_outline t c [new.row createdAt]).conseq
          · exact fun d _ h => h rfl
          · exact fun _ _ _ h => h
        · intro now
          apply Server.Outline.bind
          · apply (update_outline t c (new.row createdAt) now).conseq
            · exact fun d _ h => h now rfl
            · exact fun _ _ _ h => h
          · intro found
            apply Server.Outline.pure
            · apply Appended.kept
            · exact fun d _ h _ _ => h found rfl
          · nofun
        · nofun
      | false =>
        apply Server.Outline.raise
        · intro d d' hd hd' later frame h hr
          cases hr
        · nofun
    · nofun
  · nofun

theorem appendAll_outline (news : List NewMessage) :
  Server.Outline appends (exactSummaries ordered) (inOrder ordered) t c
    (Pending ordered t []) (appendAll news) (Appended ordered t [])
  := by
  induction news with
  | nil =>
    apply Server.Outline.pure Pending.kept
    exact fun d _ h _ _ => h
  | cons new news ih =>
    rw [appendAll]
    apply Server.Outline.bind (append_outline t c new)
    · intro message
      apply Server.Outline.bind
      · apply ih.conseq
        · exact fun d _ h => h message rfl
        · exact fun _ _ _ h => h
      · intro messages
        apply Server.Outline.pure
        · apply Appended.kept
        · exact fun d _ h _ _ => h messages rfl
      · nofun
    · nofun

/-- A transaction keeps the summaries exact, and in the end holds nothing. -/
theorem appends_outlined (ordered : Prop) :
  Server.Outlined appends (exactSummaries ordered) (inOrder ordered) fun t _ _ _ d => d.db.Idle t
  := by
  constructor
  · intro t c w
    have body : Server.Outline appends (exactSummaries ordered) (inOrder ordered) t c
        (Pending ordered t []) (appendAll c) (Appended ordered t []) := appendAll_outline t c c
    apply (Server.Outline.unitOfWork body Appended.kept ?_ ?_ fun _ => Server.Kept.idle).conseq
    · exact fun d _ h => Pending.of_idle h.1
    · exact fun _ _ _ h => h
    · intro messages d hd h _
      obtain ⟨hholds, hlater⟩ := (h messages rfl).commit hd
      exact ⟨hholds, hlater, Db.idle_commit d.db⟩
    · intro e d hd _
      exact ⟨hd, fun _ => Iff.rfl, Db.idle_rollback d.db⟩
  · exact fun _ _ _ _ _ h => h
  · intro x d w hd _
    exact ⟨hd, fun _ => Iff.rfl⟩

end Outlines

section Runs

abbrev AppendsState :=
  State ℕ Key Row Clock.Reply ℕ (List NewMessage) DatabaseError (List Message)

abbrev AppendsAction := Action ℕ (List NewMessage) DatabaseError ℕ

variable {h : List (AppendsState × AppendsAction)} {s : AppendsState}

/-- The number of messages is exact in every state that is reached. -/
theorem messageCount_exact (run : (appends.machine (exactSummaries False).holds).Run h s) :
  ∀ c row, s.data.db.committed (.conversation c) = some (.conversation row) →
    ∃ messages, MessagesOf s.data.db.committed c messages ∧ row.messageCount = messages.length
  := by
  have guard : ∀ x ∈ h, (inOrder False).Holds x.1 x.2 := by
    rintro ⟨s, a⟩ -
    cases a
    case step => exact fun _ _ _ _ _ => nofun
    all_goals trivial
  have sound := Server.sound_of_run (appends_outlined False) (fun _ h => h) run guard
  intro c row hrow
  obtain ⟨messages, hmessages, exact⟩ := sound.holds c row hrow
  exact ⟨messages, hmessages, exact.1⟩

/-- If every update of a summary comes in the order of the times, then in every state that is
reached the summary of each conversation is that of its messages. -/
theorem summary_exact_of_inOrder (run : (appends.machine (exactSummaries True).holds).Run h s)
    (guard : ∀ x ∈ h, (inOrder True).Holds x.1 x.2) :
  ∀ c row, s.data.db.committed (.conversation c) = some (.conversation row) →
    ∃ messages, MessagesOf s.data.db.committed c messages ∧
      row.messageCount = messages.length ∧
      row.latest = (messages.map Message.createdAt).maximum ∧
      row.sortKey = (messages.map Message.createdAt).maximum.unbotD row.createdAt
  := by
  have sound := Server.sound_of_run (appends_outlined True) (fun _ h => h) run guard
  intro c row hrow
  obtain ⟨messages, hmessages, count, last⟩ := sound.holds c row hrow
  refine ⟨messages, hmessages, count, last trivial, ?_⟩
  rw [← last trivial]
  unfold ConversationRow.sortKey ConversationRow.latest
  cases row.lastMessageAt
  all_goals rfl

/-- A conversation without messages. -/
def emptyConversation : AppendsState where
  data := { db := Db.ofRows fun k =>
              if k = .conversation 1 then some (.conversation ⟨7, 1, 1, 0, none⟩) else none
            world := 0 }
  sessions _ := none

theorem emptyConversation_init (ordered : Prop) :
  (appends.machine (exactSummaries ordered).holds).init emptyConversation
  := by
  refine ⟨?_, fun _ => rfl, fun k v => nofun⟩
  intro c row hrow
  have rows : (if Key.conversation c = .conversation 1 then
      some (Row.conversation ⟨7, 1, 1, 0, none⟩) else none) = some (.conversation row) := hrow
  split at rows
  next =>
    cases rows
    refine ⟨[], ⟨List.nodup_nil, ?_⟩, rfl, fun _ => rfl⟩
    intro m
    constructor
    · intro hm
      cases hm
    · rintro ⟨hm, -⟩
      cases hm
  next => cases rows

/-- Two sessions append one message each, at the times 5 and 6, and the earlier one updates the
summary last: the conversation is left with the time of the earlier message. -/
theorem lastMessageAt_goes_back :
  ∃ h s, (appends.machine (exactSummaries True).holds).Run h s ∧ (∀ t, s.sessions t = none) ∧
    ∃ row m, s.data.db.committed (.conversation 1) = some (.conversation row) ∧
      row.lastMessageAt = some 5 ∧
      s.data.db.committed (.message 12 6) = some (.message m) ∧
      m.conversationId = 1 ∧ m.createdAt = 6
  := by
  obtain ⟨h, s, run, actions, -, result⟩ :=
    (appends.machine (exactSummaries True).holds).exists_history_of_execWhile
      [.environment 5, .start 1 [⟨11, 1, .user, "a", .completed⟩], .step 1, .step 1,
        .environment 6, .start 2 [⟨12, 1, .user, "b", .completed⟩], .step 2, .step 2, .step 2,
        .step 2, .step 2, .finish 2, .step 1, .step 1, .step 1, .finish 1]
      (fun _ _ => true)
      (fun s => (s.sessions 1).isNone && (s.sessions 2).isNone &&
        decide (s.data.db.committed (.conversation 1) =
          some (.conversation ⟨7, 1, 6, 2, some 5⟩)) &&
        decide (s.data.db.committed (.message 12 6) =
          some (.message ((⟨12, 1, .user, "b", .completed⟩ : NewMessage).row 6))))
      (emptyConversation_init True) (by decide +kernel)
  simp only [Bool.and_eq_true, Option.isNone_iff_eq_none, decide_eq_true_eq] at result
  obtain ⟨⟨⟨h1, h2⟩, hrow⟩, hmessage⟩ := result
  refine ⟨h, s, run, ?_, _, _, hrow, rfl, hmessage, rfl, rfl⟩
  intro t
  by_cases t1 : t = 1
  · rw [t1, h1]
  · by_cases t2 : t = 2
    · rw [t2, h2]
    · apply Server.sessions_eq_none run
      intro c hc
      rw [actions] at hc
      simp [t1, t2] at hc

/-- A step that performs an update of a summary in the order of the times, as a test. -/
def updatesInOrder (s : AppendsState) : AppendsAction → Bool
  | .step t =>
    match s.sessions t with
    | some ⟨_, _, .call (.inl (.update (.conversation c) f)) _⟩ =>
      match s.data.db.view t (.conversation c) with
      | some (.conversation row) =>
        match f (.conversation row), row.lastMessageAt with
        | .conversation row', some last => row'.lastMessageAt.all fun next => decide (last ≤ next)
        | _, _ => true
      | _ => true
    | _ => true
  | _ => true

theorem holds_of_updatesInOrder {a : AppendsAction} (h : updatesInOrder s a = true) :
  (inOrder True).Holds s a
  := by
  cases a
  case step t =>
    rintro c begun op next hsession - conversation createdAt now row last rfl hview hlast
    simp only [updatesInOrder, hsession, hview, touch, hlast, Option.all_some,
      decide_eq_true_eq] at h
    exact h
  all_goals trivial

/-- Two messages of one transaction, one after the other. -/
theorem summary_exact_of_inOrder_two :
  ∃ h s, (appends.machine (exactSummaries True).holds).Run h s ∧
    ∃ row messages, s.data.db.committed (.conversation 1) = some (.conversation row) ∧
      MessagesOf s.data.db.committed 1 messages ∧ row.messageCount = 2 ∧
      messages.length = 2 ∧ (messages.map Message.createdAt).maximum = (6 : ℕ)
  := by
  obtain ⟨h, s, run, -, guard, result⟩ :=
    (appends.machine (exactSummaries True).holds).exists_history_of_execWhile
      [.environment 5, .start 1 [⟨11, 1, .user, "a", .completed⟩, ⟨12, 1, .assistant, "", .completed⟩],
        .step 1, .step 1, .step 1, .step 1, .environment 6, .step 1, .step 1, .step 1, .step 1,
        .step 1, .finish 1]
      updatesInOrder
      (fun s => decide (s.data.db.committed (.conversation 1) =
          some (.conversation ⟨7, 1, 6, 2, some 6⟩)))
      (emptyConversation_init True) (by decide +kernel)
  have hrow := of_decide_eq_true result
  obtain ⟨messages, hmessages, count, last, -⟩ :=
    summary_exact_of_inOrder run (fun x hx => holds_of_updatesInOrder (guard x hx)) 1 _ hrow
  exact ⟨h, s, run, _, messages, hrow, hmessages, rfl, count.symm, last.symm⟩

end Runs

end Lumina.Conversations
