import Lumina.Frontend.ConversationView

/-!
# Whose answer is in the buffer

The buffer of the store belongs to one message, and its text is what one connection has received of
it, along every run in which an opened conversation resumes a message of its own and no connection
is left over from another mount of the page.
-/

namespace Lumina.Frontend

open Chat (Citation Usage)
open Conversations (MessageView)
open Transition

namespace Tab

/-- The latest connection for a message. -/
def latest (s : Tab) (messageId : ℕ) : Option Connection :=
  s.connections.find? fun k => k.messageId = messageId

/-- The buffer is of a message of its conversation, and its text is all that one connection for this
message has received. -/
def Owned (owner : ℕ → ℕ) (s : Tab) : Prop :=
  ∀ b, s.store.streaming = some b →
    owner b.messageId = b.conversationId ∧
      ∃ k ∈ s.connections, k.messageId = b.messageId ∧ k.conversationId = b.conversationId ∧
        b.text = String.join k.deltas

/-- What an opened conversation resumes is of that conversation, and a delta comes on a connection
that the page has not been left with, and that is the latest one for its message, unless it has been
replaced. -/
def Undisturbed (owner : ℕ → ℕ) (s : Tab) : TabAction → Prop
  | .answer i (.messages items) =>
      ∀ v c r, s.tasks[i]? = some (.opening v c r) →
        ∀ pending, (s.store.fetchedMessages r items).unfinished = some pending →
          owner pending.id = c
  | .event id (.delta _) =>
      ∀ k ∈ s.connections, k.id = id → s.isCurrent k = true →
        k.aborted = false ∧ s.latest k.messageId = some k
  | _ => True

/-! ### The buffer is kept -/

/-- The buffer is gone, or it is of the same message and has the same text. -/
def Keeps (old new : Option StreamingMessage) : Prop :=
  ∀ b, new = some b → ∃ a, old = some a ∧ a.messageId = b.messageId ∧
    a.conversationId = b.conversationId ∧ a.text = b.text

theorem Keeps.refl (buffer : Option StreamingMessage) :
  Keeps buffer buffer
  := fun b h => ⟨b, h, rfl, rfl, rfl⟩

theorem Keeps.trans {a b c : Option StreamingMessage} (hab : Keeps a b) (hbc : Keeps b c) :
  Keeps a c
  := by
  intro z hz
  obtain ⟨y, hy, id, conversation, text⟩ := hbc z hz
  obtain ⟨x, hx, id', conversation', text'⟩ := hab y hy
  exact ⟨x, hx, id'.trans id, conversation'.trans conversation, text'.trans text⟩

theorem Keeps.none (old : Option StreamingMessage) :
  Keeps old none
  := nofun

theorem keeps_updateBuffer (s : ChatState) (m : ℕ) {f : StreamingMessage → StreamingMessage}
    (id : ∀ b, (f b).messageId = b.messageId)
    (conversation : ∀ b, (f b).conversationId = b.conversationId)
    (text : ∀ b, (f b).text = b.text) :
  Keeps s.streaming (s.updateBuffer m f).streaming
  := by
  unfold ChatState.updateBuffer
  split
  · rename_i buffer found
    intro b hb
    cases hb
    have held : s.streaming = some buffer := (Option.filter_eq_some_iff.mp found).1
    exact ⟨buffer, held, (id buffer).symm, (conversation buffer).symm, (text buffer).symm⟩
  · exact Keeps.refl _

theorem keeps_fetchedMessages (s : ChatState) (r : ℕ) (items : List MessageView) :
  (s.fetchedMessages r items).streaming = s.streaming
  := by
  unfold ChatState.fetchedMessages
  split_ifs
  · rfl
  · rfl

theorem keeps_finishedStreaming (s : ChatState) (m : ℕ) :
  Keeps s.streaming (s.finishedStreaming m).streaming
  := by
  unfold ChatState.finishedStreaming
  split_ifs
  · exact Keeps.none _
  · exact Keeps.refl _

theorem keeps_finishStreaming (s : ChatState) (m : ℕ) :
  Keeps s.streaming (s.finishStreaming m).1.streaming
  := by
  unfold ChatState.finishStreaming
  split
  · exact Keeps.refl _
  · split_ifs
    · exact Keeps.refl _
    · exact keeps_finishedStreaming s m

theorem keeps_stopStreaming (s : ChatState) :
  Keeps s.streaming s.stopStreaming.streaming
  := by
  unfold ChatState.stopStreaming
  intro b hb
  obtain ⟨a, ha, rfl⟩ := Option.map_eq_some_iff.mp hb
  use a, ha
  split_ifs
  · exact ⟨rfl, rfl, rfl⟩
  · exact ⟨rfl, rfl, rfl⟩

theorem keeps_deletedConversation (s : ChatState) (c : ℕ) :
  Keeps s.streaming (s.deletedConversation c).streaming
  := by
  unfold ChatState.deletedConversation
  dsimp only
  split_ifs
  · exact Keeps.none _
  · exact Keeps.refl _
  · exact Keeps.none _
  · exact Keeps.refl _

/-! ### Steps that start no connection -/

/-- The connections are as they were, the streams of the views are, and the buffer is kept. -/
structure Keeping (s t : Tab) : Prop where
  connections : t.connections = s.connections
  views : ∀ (v : ℕ) (view : View), s.views[v]? = some view →
    ∃ view', t.views[v]? = some view' ∧ view'.runId = view.runId ∧
      view'.controller = view.controller
  buffer : Keeps s.store.streaming t.store.streaming

theorem Keeping.refl (s : Tab) :
  Keeping s s
  where
  connections := rfl
  views _ view h := ⟨view, h, rfl, rfl⟩
  buffer := Keeps.refl _

theorem Keeping.trans {s t u : Tab} (hst : Keeping s t) (htu : Keeping t u) :
  Keeping s u
  where
  connections := htu.connections.trans hst.connections
  views v view h := by
    obtain ⟨view', h', run, controller⟩ := hst.views v view h
    obtain ⟨view'', h'', run', controller'⟩ := htu.views v view' h'
    exact ⟨view'', h'', run'.trans run, controller'.trans controller⟩
  buffer := hst.buffer.trans htu.buffer

theorem keeping_setStore {s : Tab} {store : ChatState}
    (h : Keeps s.store.streaming store.streaming) :
  Keeping s (s.setStore store)
  where
  connections := rfl
  views _ view h := ⟨view, h, rfl, rfl⟩
  buffer := h

theorem keeping_tasks (s : Tab) (tasks : List Task) :
  Keeping s { s with tasks := tasks }
  where
  connections := rfl
  views _ view h := ⟨view, h, rfl, rfl⟩
  buffer := Keeps.refl _

theorem keeping_await (s : Tab) (task : Task) :
  Keeping s (s.await task)
  := keeping_tasks s _

/-- A view is replaced by one with the same stream. -/
theorem keeping_setView {s : Tab} {v : ℕ} {view view' : View} (h : s.views[v]? = some view)
    (run : view'.runId = view.runId) (controller : view'.controller = view.controller) :
  Keeping s { s with views := s.views.set v view' }
  where
  connections := rfl
  views w other hw := by
    dsimp only
    by_cases same : v = w
    · subst same
      cases h.symm.trans hw
      obtain ⟨inside, -⟩ := List.getElem?_eq_some_iff.mp h
      exact ⟨view', List.getElem?_set_self inside, run, controller⟩
    · exact ⟨other, by rw [List.getElem?_set_ne same, hw], rfl, rfl⟩
  buffer := Keeps.refl _

theorem keeping_addView (s : Tab) (view : View) :
  Keeping s { s with views := s.views ++ [view] }
  where
  connections := rfl
  views w other hw := by
    obtain ⟨inside, -⟩ := List.getElem?_eq_some_iff.mp hw
    exact ⟨other, by rw [List.getElem?_append_left inside, hw], rfl, rfl⟩
  buffer := Keeps.refl _

theorem keeping_finish (s : Tab) (k : Connection) (again : Bool) :
  Keeping s (s.finish k again)
  := by
  have buffer := keeps_finishStreaming s.store k.messageId
  unfold finish
  split
  · rename_i store h
    rw [h] at buffer
    exact keeping_setStore buffer
  · rename_i store c h
    rw [h] at buffer
    exact (keeping_setStore buffer).trans (keeping_await _ _)

theorem keeping_fail (s : Tab) (m : ℕ) (error : StreamError) :
  Keeping s (s.setStore (s.store.failStreaming m error))
  := keeping_setStore (keeps_updateBuffer s.store m (fun _ => rfl) (fun _ => rfl) fun _ => rfl)

theorem keeping_watch {s : Tab} {v : ℕ} {view : View} (h : s.views[v]? = some view) :
  Keeping s (s.watch v view)
  := by
  unfold watch
  split_ifs
  · exact keeping_setView h rfl rfl
  · split
    · exact keeping_setStore (Keeps.refl _)
    · rename_i c _
      have fetching : Keeping s (s.setStore (s.store.fetchMessages c)) :=
        keeping_setStore (Keeps.refl _)
      exact fetching.trans (keeping_await _ _)

theorem keeping_goTo (s : Tab) (c : Option ℕ) :
  Keeping s (s.goTo c)
  := by
  unfold goTo
  split
  · apply (keeping_addView s _).trans
    apply keeping_watch
    exact List.getElem?_concat_length
  · split
    · exact Keeping.refl s
    · rename_i v _ view h
      split_ifs
      · exact Keeping.refl s
      · apply (keeping_setView h _ _).trans
        · apply keeping_watch
          obtain ⟨inside, -⟩ := List.getElem?_eq_some_iff.mp h
          exact List.getElem?_set_self inside
        · rfl
        · rfl

theorem keeping_send {s t : Tab} {content : String} (h : s.send content = some t) :
  Keeping s t
  := by
  unfold send at h
  simp only [Option.bind_eq_bind, Option.bind_eq_some_iff] at h
  obtain ⟨v, -, view, -, h⟩ := h
  split_ifs at h
  split at h
  · cases h
    exact keeping_await s _
  · cases h
    exact keeping_await s _

/-! ### The invariant -/

/-- A connection that is neither aborted nor ended is the one of its view. -/
structure Wired (s : Tab) : Prop where
  fresh : ∀ k ∈ s.connections, k.id < s.connections.length
  unique : (s.connections.map (·.id)).Nodup
  live : ∀ k ∈ s.connections, k.aborted = false → k.ended = false →
    ∃ view, s.views[k.view]? = some view ∧ view.runId = k.run ∧ view.controller = some k.id

/-- The text of the buffer is what the latest connection for its message has received. -/
structure Sound (owner : ℕ → ℕ) (s : Tab) : Prop extends Wired s where
  buffer : ∀ b, s.store.streaming = some b →
    owner b.messageId = b.conversationId ∧
      ∃ k, s.latest b.messageId = some k ∧ k.conversationId = b.conversationId ∧
        b.text = String.join k.deltas

variable {owner : ℕ → ℕ}

theorem Sound.owned {s : Tab} (h : Sound owner s) :
  Owned owner s
  := by
  intro b hb
  obtain ⟨own, k, latest, conversation, text⟩ := h.buffer b hb
  have message : k.messageId = b.messageId := by simpa using List.find?_some latest
  exact ⟨own, k, List.mem_of_find?_eq_some latest, message, conversation, text⟩

theorem Sound.of_keeping {s t : Tab} (h : Sound owner s) (keeping : Keeping s t) :
  Sound owner t
  where
  fresh := by
    rw [keeping.connections]
    exact h.fresh
  unique := by
    rw [keeping.connections]
    exact h.unique
  live k hk running reading := by
    rw [keeping.connections] at hk
    obtain ⟨view, there, run, controller⟩ := h.live k hk running reading
    obtain ⟨view', there', run', controller'⟩ := keeping.views _ view there
    exact ⟨view', there', run'.trans run, controller'.trans controller⟩
  buffer b hb := by
    obtain ⟨a, ha, id, conversation, text⟩ := keeping.buffer b hb
    unfold latest
    rw [keeping.connections, ← id, ← conversation, ← text]
    exact h.buffer a ha

/-- An update of a connection that neither moves nor revives it. -/
structure Ordinary (f : Connection → Connection) : Prop where
  id : ∀ k, (f k).id = k.id
  view : ∀ k, (f k).view = k.view
  run : ∀ k, (f k).run = k.run
  messageId : ∀ k, (f k).messageId = k.messageId
  conversationId : ∀ k, (f k).conversationId = k.conversationId
  aborted : ∀ k, (f k).aborted = false → k.aborted = false
  ended : ∀ k, (f k).ended = false → k.ended = false

theorem Wired.update {s : Tab} (h : Wired s) (p : Connection → Bool) {f : Connection → Connection}
    (ordinary : Ordinary f) :
  Wired { s with connections := Table.update p f s.connections }
  := by
  refine ⟨?_, ?_, ?_⟩
  · intro k hk
    obtain ⟨old, hold, rfl⟩ := Table.mem_update.mp hk
    dsimp only
    have length : (Table.update p f s.connections).length = s.connections.length :=
      List.length_map ..
    rw [length]
    split_ifs
    · rw [ordinary.id]
      exact h.fresh old hold
    · exact h.fresh old hold
  · dsimp only
    rw [Table.map_update _ ordinary.id]
    exact h.unique
  · intro k hk running reading
    obtain ⟨old, hold, rfl⟩ := Table.mem_update.mp hk
    split_ifs at running reading ⊢
    · rw [ordinary.id, ordinary.view, ordinary.run]
      exact h.live old hold (ordinary.aborted old running) (ordinary.ended old reading)
    · exact h.live old hold running reading

/-- The latest connection for a message is the same one, updated. -/
theorem latest_update {s : Tab} (p : Connection → Bool) {f : Connection → Connection}
    (ordinary : Ordinary f) (m : ℕ) :
  latest { s with connections := Table.update p f s.connections } m =
    (s.latest m).map fun k => if p k then f k else k
  := Table.find?_update (fun k => by rw [ordinary.messageId k]) s.connections

/-- Connections are updated that receive nothing. -/
theorem Sound.update {s : Tab} (h : Sound owner s) (p : Connection → Bool)
    {f : Connection → Connection} (ordinary : Ordinary f)
    (deltas : ∀ k, (f k).deltas = k.deltas) :
  Sound owner { s with connections := Table.update p f s.connections }
  where
  toWired := h.toWired.update p ordinary
  buffer b hb := by
    obtain ⟨own, k, found, conversation, text⟩ := h.buffer b hb
    use own
    rw [latest_update p ordinary, found]
    refine ⟨_, rfl, ?_⟩
    dsimp only
    split_ifs
    · rw [ordinary.conversationId, deltas]
      exact ⟨conversation, text⟩
    · exact ⟨conversation, text⟩

theorem ordinary_abort :
  Ordinary fun k => { k with aborted := true }
  := ⟨fun _ => rfl, fun _ => rfl, fun _ => rfl, fun _ => rfl, fun _ => rfl, nofun, fun _ h => h⟩

theorem ordinary_end :
  Ordinary fun k => { k with ended := true }
  := ⟨fun _ => rfl, fun _ => rfl, fun _ => rfl, fun _ => rfl, fun _ => rfl, fun _ h => h, nofun⟩

theorem ordinary_receive (event : Event) :
  Ordinary (Connection.receive event)
  := by
  refine ⟨fun _ => rfl, fun _ => rfl, fun _ => rfl, fun _ => rfl, fun _ => rfl, fun _ h => h, ?_⟩
  intro k open_
  exact (Bool.or_eq_false_iff.mp open_).1

/-! ### A connection is started -/

/-- A new connection is the only one of its view that is left. -/
theorem Wired.start {s t : Tab} (h : Wired s) {v c m : ℕ} (hstart : s.start v c m = some t) :
  Wired t
  := by
  unfold Tab.start at hstart
  simp only [Option.bind_eq_bind, Option.bind_eq_some_iff, Option.some.injEq] at hstart
  obtain ⟨view, hview, rfl⟩ := hstart
  have aborted : Wired (s.abort view.controller) := h.update _ ordinary_abort
  obtain ⟨inside, -⟩ := List.getElem?_eq_some_iff.mp hview
  refine ⟨?_, ?_, ?_⟩
  · intro k hk
    dsimp only
    rw [List.length_cons]
    obtain rfl | hk := List.mem_cons.mp hk
    · exact Nat.lt_succ_self _
    · exact (aborted.fresh k hk).trans (Nat.lt_succ_self _)
  · dsimp only
    rw [List.map_cons, List.nodup_cons]
    refine ⟨?_, aborted.unique⟩
    intro taken
    obtain ⟨k, hk, same⟩ := List.mem_map.mp taken
    exact absurd same (aborted.fresh k hk).ne
  · intro k hk running reading
    obtain rfl | older := List.mem_cons.mp hk
    · exact ⟨_, List.getElem?_set_self inside, rfl, rfl⟩
    · obtain ⟨other, there, run, controller⟩ := aborted.live k older running reading
      by_cases same : v = k.view
      · -- a connection of the same view has just been aborted
        subst same
        cases hview.symm.trans there
        obtain ⟨old, -, rfl⟩ := Table.mem_update.mp older
        by_cases own : some old.id = view.controller
        · simp [own] at running
        · simp only [own, decide_false, Bool.false_eq_true, if_false] at controller
          exact absurd controller.symm own
      · exact ⟨other, by rw [List.getElem?_set_ne same]; exact there, run, controller⟩

/-- The buffer has just been begun, for the message of the connection. -/
theorem Sound.start {s t : Tab} (h : Sound owner s) {store : ChatState} {v c m : ℕ}
    (begun : store.streaming = some { messageId := m, conversationId := c }) (own : owner m = c)
    (hstart : (s.setStore store).start v c m = some t) :
  Sound owner t
  where
  toWired := by
    have wired : Wired (s.setStore store) := ⟨h.fresh, h.unique, h.live⟩
    exact wired.start hstart
  buffer b hb := by
    unfold Tab.start at hstart
    simp only [Option.bind_eq_bind, Option.bind_eq_some_iff, Option.some.injEq] at hstart
    obtain ⟨view, -, rfl⟩ := hstart
    cases hb.symm.trans begun
    use own
    refine ⟨_, List.find?_cons_of_pos (decide_eq_true rfl), rfl, rfl⟩

/-! ### An event is received -/

theorem keeping_onEvent (s : Tab) (k : Connection) {event : Event}
    (other : ∀ text, event ≠ .delta text) :
  Keeping s (s.onEvent k event)
  := by
  unfold onEvent
  split_ifs
  · cases event with
    | delta text => exact absurd rfl (other text)
    | citations items =>
      exact keeping_setStore
        (keeps_updateBuffer s.store k.messageId (fun _ => rfl) (fun _ => rfl) fun _ => rfl)
    | usage usage =>
      exact keeping_setStore
        (keeps_updateBuffer s.store k.messageId (fun _ => rfl) (fun _ => rfl) fun _ => rfl)
    | done => exact keeping_finish s k false
    | error error => exact keeping_fail s k.messageId error
    | other => exact Keeping.refl s
  · exact Keeping.refl s

/-- A connection whose run is over has been aborted, or has ended. -/
theorem Wired.aborted_of_replaced {s : Tab} (h : Wired s) {k : Connection} (hk : k ∈ s.connections)
    (open_ : k.ended = false) (replaced : s.isCurrent k = false) :
  k.aborted = true
  := by
  by_contra running
  obtain ⟨view, there, run, -⟩ := h.live k hk (Bool.eq_false_iff.mpr running) open_
  unfold isCurrent at replaced
  rw [there, Option.any_some, run] at replaced
  simp at replaced

/-- The only connection with this number. -/
theorem Wired.eq_of_id {s : Tab} (h : Wired s) {k other : Connection} (hk : k ∈ s.connections)
    (hother : other ∈ s.connections) (same : other.id = k.id) :
  other = k
  := Table.eq_of_key h.unique hother hk same

/-- A delta on a connection that has been replaced changes nothing. -/
theorem Sound.delta_replaced {s : Tab} (h : Sound owner s) {k : Connection}
    (hk : k ∈ s.connections) (open_ : k.ended = false) (aborted : k.aborted = true)
    (text : String) :
  Sound owner (s.updateConnection k.id (Connection.receive (.delta text)))
  := by
  have nothing : Table.update (fun other => decide (other.id = k.id))
      (Connection.receive (.delta text)) s.connections = s.connections := by
    unfold Table.update
    conv_rhs => rw [← List.map_id s.connections]
    apply List.map_congr_left
    intro other hother
    split_ifs with same
    · obtain rfl := h.eq_of_id hk hother (of_decide_eq_true same)
      cases other
      cases aborted
      cases open_
      rfl
    · rfl
  unfold updateConnection
  rw [nothing]
  exact h

/-- A delta on the latest connection for its message is appended where it belongs. -/
theorem Sound.delta_current {s : Tab} (h : Sound owner s) {k : Connection}
    (hk : k ∈ s.connections) (running : k.aborted = false)
    (latest : s.latest k.messageId = some k) (text : String) :
  Sound owner ((s.updateConnection k.id (Connection.receive (.delta text))).setStore
    (s.store.appendDelta k.messageId text))
  where
  toWired :=
    have received : Wired (s.updateConnection k.id (Connection.receive (.delta text))) :=
      h.toWired.update _ (ordinary_receive _)
    ⟨received.fresh, received.unique, received.live⟩
  buffer b hb := by
    have found (m : ℕ) : Tab.latest ((s.updateConnection k.id
        (Connection.receive (.delta text))).setStore (s.store.appendDelta k.messageId text)) m =
        (s.latest m).map fun other =>
          if decide (other.id = k.id) then Connection.receive (.delta text) other else other :=
      latest_update _ (ordinary_receive _) m
    rw [found]
    change (s.store.appendDelta k.messageId text).streaming = some b at hb
    unfold ChatState.appendDelta ChatState.updateBuffer at hb
    split at hb
    · -- the buffer is the one of the message
      rename_i old held
      cases hb
      obtain ⟨held, own⟩ := Option.filter_eq_some_iff.mp held
      have own : old.messageId = k.messageId := of_decide_eq_true own
      obtain ⟨hown, other, hother, conversation, was⟩ := h.buffer old held
      rw [own, latest] at hother
      cases hother
      use hown
      rw [own, latest, Option.map_some, if_pos (decide_eq_true rfl)]
      refine ⟨_, rfl, conversation, ?_⟩
      unfold Connection.receive
      dsimp only
      rw [running, if_neg Bool.false_ne_true, was]
      simp
    · rename_i foreign
      obtain ⟨hown, other, hother, conversation, was⟩ := h.buffer b hb
      use hown
      have message : other.messageId = b.messageId := by simpa using List.find?_some hother
      have differs : ¬ other.id = k.id := by
        intro same
        obtain rfl := h.eq_of_id hk (List.mem_of_find?_eq_some hother) same
        apply Option.some_ne_none b
        rw [← foreign]
        unfold ChatState.bufferFor
        rw [hb, Option.filter_some, message, if_pos (decide_eq_true rfl)]
      rw [hother, Option.map_some, if_neg (by simpa using differs)]
      exact ⟨other, rfl, conversation, was⟩

theorem Sound.receive {s t : Tab} (h : Sound owner s) {id : ℕ} {event : Event}
    (undisturbed : Undisturbed owner s (.event id event)) (hstep : s.receive id event = some t) :
  Sound owner t
  := by
  unfold Tab.receive at hstep
  simp only [Option.bind_eq_bind, Option.bind_eq_some_iff] at hstep
  obtain ⟨k, found, hstep⟩ := hstep
  have hk := List.mem_of_find?_eq_some found
  obtain rfl : k.id = id := by simpa using List.find?_some found
  split_ifs at hstep with ended
  have open_ : k.ended = false := Bool.eq_false_iff.mpr ended
  cases hstep
  by_cases delta : ∃ text, event = .delta text
  · obtain ⟨text, rfl⟩ := delta
    unfold onEvent
    split_ifs with current
    · obtain ⟨running, latest⟩ := undisturbed k hk rfl current
      exact h.delta_current hk running latest text
    · have aborted := h.aborted_of_replaced hk open_ (Bool.eq_false_iff.mpr current)
      exact h.delta_replaced hk open_ aborted text
  · have other : ∀ text, event ≠ .delta text := fun text same => delta ⟨text, same⟩
    have received : Sound owner (s.updateConnection k.id (Connection.receive event)) := by
      apply h.update _ (ordinary_receive event)
      intro k
      unfold Connection.receive
      dsimp only
      split
      · exact absurd rfl (other _)
      · rfl
    exact received.of_keeping (keeping_onEvent _ k other)

theorem Sound.conclude {s t : Tab} (h : Sound owner s) {id : ℕ} {outcome : StreamOutcome}
    (hstep : s.conclude id outcome = some t) :
  Sound owner t
  := by
  unfold Tab.conclude at hstep
  simp only [Option.bind_eq_bind, Option.bind_eq_some_iff] at hstep
  obtain ⟨k, -, hstep⟩ := hstep
  split_ifs at hstep with _ current
  · have ended : Sound owner (s.updateConnection id fun k => { k with ended := true }) :=
      h.update _ ordinary_end fun _ => rfl
    cases outcome with
    | aborted =>
      cases hstep
      exact ended
    | resumeExpired =>
      cases hstep
      exact ended.of_keeping (keeping_finish _ k true)
    | failed =>
      cases hstep
      exact ended.of_keeping (keeping_fail _ k.messageId disconnected)
  · cases hstep
    exact h.update _ ordinary_end fun _ => rfl

/-! ### The page -/

theorem Sound.leave {s t : Tab} (h : Sound owner s) (hstep : s.leave = some t) :
  Sound owner t
  := by
  unfold Tab.leave at hstep
  simp only [Option.bind_eq_bind, Option.bind_eq_some_iff, Option.some.injEq] at hstep
  obtain ⟨v, -, view, there, rfl⟩ := hstep
  have unmounted : Sound owner { s with views := s.views.set v { view with mounted := false } } :=
    h.of_keeping (keeping_setView there rfl rfl)
  exact unmounted.update _ ordinary_abort fun _ => rfl

/-- A conversation resumes a message of its own. -/
theorem Sound.opened {s t : Tab} (h : Sound owner s) {v c r : ℕ} {items : List MessageView}
    (own : ∀ pending, (s.store.fetchedMessages r items).unfinished = some pending →
      owner pending.id = c)
    (hstep : s.opened v c r items = some t) :
  Sound owner t
  := by
  unfold Tab.opened at hstep
  dsimp only at hstep
  split at hstep
  · cases hstep
    apply h.of_keeping
    apply keeping_setStore
    rw [keeps_fetchedMessages]
    exact Keeps.refl _
  · rename_i pending found
    exact h.start rfl (own pending found) hstep

theorem Sound.sent {s t : Tab} (h : Sound owner s) {v c now : ℕ} {content : String}
    {turn : TurnStartedOut} (own : owner turn.messageId = c)
    (hstep : s.sent v c content turn now = some t) :
  Sound owner t
  := h.start rfl own hstep

/-- The task that is answered is no longer awaited. -/
theorem Sound.answer {s t : Tab} (h : Sound owner s) {task : Task} {response : Response}
    (own : ∀ items v c r, response = .messages items → task = .opening v c r →
      ∀ pending, (s.store.fetchedMessages r items).unfinished = some pending →
        owner pending.id = c)
    (hstep : answer owner s task response = some t) :
  Sound owner t
  := by
  unfold Tab.answer at hstep
  split at hstep
  · rename_i v c r items
    split_ifs at hstep
    exact h.opened (own items v c r rfl rfl) hstep
  · rename_i v content c
    split at hstep
    · cases hstep
    · rename_i view there
      cases hstep
      have marked : Sound owner { s with views := s.views.set v { view with selfNavigated := true } } :=
        h.of_keeping (keeping_setView there rfl rfl)
      apply marked.of_keeping
      apply Keeping.trans (keeping_setStore _) (keeping_await _ _)
      exact Keeps.refl _
  · rename_i v c content applied
    cases hstep
    have gone : Keeping s (if applied = true then s.goTo (some c) else s) := by
      split_ifs
      · exact keeping_goTo s (some c)
      · exact Keeping.refl s
    exact h.of_keeping (gone.trans (keeping_await _ _))
  · split_ifs at hstep with turn
    exact h.sent turn hstep
  · rename_i m c r again items
    split_ifs at hstep
    cases hstep
    apply h.of_keeping
    apply keeping_setStore
    have finished := keeps_finishedStreaming (s.store.fetchedMessages r items) m
    rw [keeps_fetchedMessages] at finished
    exact finished
  · rename_i id m c r again
    split_ifs at hstep
    · cases hstep
      exact h.of_keeping (keeping_fail s m disconnected)
    · simp only [Option.bind_eq_bind, Option.bind_eq_some_iff] at hstep
      obtain ⟨k, -, hstep⟩ := hstep
      split_ifs at hstep
      · cases hstep
        exact h.of_keeping (keeping_finish s k true)
      · cases hstep
        exact h
  · cases hstep
    exact h
  · cases hstep
    exact h
  · cases hstep
    exact h
  · cases hstep

theorem Sound.step {s t : Tab} {a : TabAction} (h : Sound owner s)
    (undisturbed : Undisturbed owner s a) (hstep : s.step owner a = some t) :
  Sound owner t
  := by
  cases a with
  | goTo c =>
    cases hstep
    exact h.of_keeping (keeping_goTo s c)
  | leave => exact h.leave hstep
  | send content => exact h.of_keeping (keeping_send hstep)
  | stop =>
    cases hstep
    exact h.of_keeping (keeping_setStore (keeps_stopStreaming s.store))
  | deleted c =>
    cases hstep
    exact h.of_keeping (keeping_setStore (keeps_deletedConversation s.store c))
  | answer i response =>
    unfold Tab.step at hstep
    simp only [Option.bind_eq_bind, Option.bind_eq_some_iff] at hstep
    obtain ⟨task, awaited, hstep⟩ := hstep
    have taken := h.of_keeping (keeping_tasks s (s.tasks.eraseIdx i))
    apply taken.answer _ hstep
    rintro items v c r rfl rfl
    exact undisturbed v c r awaited
  | event id event => exact h.receive undisturbed hstep
  | outcome id outcome => exact h.conclude hstep

theorem sound_init :
  Sound owner {}
  where
  fresh := nofun
  unique := List.nodup_nil
  live := nofun
  buffer := nofun

/-- Along every run whose steps are undisturbed, the buffer is always of a message of its
conversation, with what one connection has received of it. -/
theorem owned_of_undisturbed {h : List (Tab × TabAction)} {s : Tab} (run : (tab owner).Run h s)
    (undisturbed : ∀ x ∈ h, Undisturbed owner x.1 x.2) :
  ∀ u ∈ Machine.states h s, Owned owner u
  := by
  have sound : ∀ u ∈ Machine.states h s, Sound owner u := by
    apply Machine.Run.forall_states_of_guard (I := Sound owner) _ _ run undisturbed
    · rintro s rfl
      exact sound_init
    · intro a s t hs guard hstep
      exact hs.step guard hstep
  intro u hu
  exact (sound u hu).owned

/-- An unfinished answer, which is the message 2 of the conversation 2. -/
def unfinishedAnswer : MessageView where
  id := 2
  role := .assistant
  content := ""
  citations := []
  model := ""
  status := .streaming
  usage := none
  createdAt := 0

/-- The tab after the unfinished answer has been resumed and a delta has come. -/
def resumed : Tab where
  store :=
    { currentConversationId := some 2
      messages := [unfinishedAnswer]
      streaming := some { messageId := 2, conversationId := 2, text := "a" }
      messagesRequestId := 1 }
  views := [{ conversationId := some 2, runId := 1, controller := some 0 }]
  connections :=
    [{ id := 0, view := 0, run := 1, messageId := 2, conversationId := 2, deltas := ["a"] }]

theorem owned_of_undisturbed_resumed :
  Owned (fun m => m) resumed
  := by
  have run : (tab fun m => m).Run _ resumed :=
    .step (a := .event 0 (.delta "a"))
      (.step (a := .answer 0 (.messages [unfinishedAnswer]))
        (.step (a := .goTo (some 2)) (.init rfl) rfl) rfl) rfl
  apply owned_of_undisturbed run
  · rw [List.forall_mem_cons, List.forall_mem_cons, List.forall_mem_cons]
    refine ⟨?_, ?_, trivial, List.forall_mem_nil _⟩
    · intro k hk _ _
      obtain rfl := List.mem_singleton.mp hk
      exact ⟨rfl, rfl⟩
    · intro v c r awaited pending found
      cases awaited
      cases found
      rfl
  · exact List.mem_cons_self

/-- The page of a conversation that has been left resumes an answer of the other one. -/
theorem not_owned :
  ¬ ∀ (owner : ℕ → ℕ) (h : List (Tab × TabAction)) (s : Tab), (tab owner).Run h s → Owned owner s
  := by
  intro owned
  obtain ⟨h, s, run, foreign⟩ := (tab fun m => m).exists_run_of_exec
    [.goTo (some 1), .goTo (some 2), .answer 1 (.messages [unfinishedAnswer]),
      .answer 0 (.messages [])]
    (fun s => s.store.streaming.any fun b => b.messageId ≠ b.conversationId) (s := {}) rfl (by decide)
  obtain ⟨b, hb, differs⟩ := (Option.any_eq_true _ _).mp foreign
  exact absurd (owned _ h s run b hb).1 (of_decide_eq_true differs)

end Tab

end Lumina.Frontend
