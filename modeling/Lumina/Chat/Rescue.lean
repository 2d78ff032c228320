import Lumina.Chat.Generate
import Lumina.Library.Table
import Lumina.Library.Transition
import Mathlib.Data.List.Sort

/-!
# Rescuing the messages that hang

A process that is killed leaves its message `streaming`, and nobody will ever finish it.  The
rescue looks for such messages by their age and marks them as `interrupted`.

It selects the messages with one statement and writes them with others, while a generation
writes its row without looking at the status.  `rescueSystem` is the interleaving of one
generation with any number of rescues.  A message with a terminal status stays as it is, as
long as the generation writes only while its message is still streaming and no rescue has
selected it.
-/

namespace Lumina.Chat

open Await Transition

/-! ### The messages of a tenant -/

/-- The row of a message. -/
structure Message where
  id : ℕ
  createdAt : ℕ
  status : MessageStatus
  content : String
  usage : Option Usage
  rag : Option RagStats
  model : String
  promptVersion : Option ℕ
  citations : List Citation
  error : Option MessageError
deriving DecidableEq

/-- The status, the content, and the usage with its statistics. -/
def Message.outcome (m : Message) :
    MessageStatus × String × Option Usage × Option RagStats :=
  (m.status, m.content, m.usage, m.rag)

/-- `MessageRepository.set_status`: the status, the error, and the other columns that `fields`
writes. -/
def setStatus (messageId : ℕ) (status : MessageStatus) (error : Option MessageError)
    (fields : Message → Message) : List Message → List Message :=
  Table.update (fun m => m.id == messageId)
    fun m => { fields m with status := status, error := error }

/-- `ChatService._persist`. -/
def persist (messageId : ℕ) (row : MessageUpdate) : List Message → List Message :=
  setStatus messageId row.status row.error fun m =>
    { m with
      content := row.content
      usage := row.usage
      rag := row.rag
      model := row.model
      promptVersion := row.promptVersion
      citations := row.citations }

/-- `MessageRepository.stuck_streaming`. -/
def stuckStreaming (startedBefore : ℕ) (messages : List Message) : List Message :=
  let stuck := messages.filter fun m => m.status = .streaming ∧ m.createdAt < startedBefore
  stuck.insertionSort fun m m' => m.createdAt ≤ m'.createdAt

/-- The error of a message that the rescue has finished. -/
def workerLost : MessageError where
  code := .streamInterrupted
  cause := some "worker_lost"

/-- The writes of `rescue_tenant`, for the messages that it has selected. -/
def interrupt : List ℕ → List Message → List Message
  | [], messages => messages
  | messageId :: stuck, messages =>
      interrupt stuck (setStatus messageId .interrupted (some workerLost) (fun m => m) messages)

/-! ### A generation and the rescues -/

/-- The messages of a tenant, the clock, the awaits that the generation has still before it,
and the rescues that have selected their messages and have not written them yet. -/
structure RescueState where
  messages : List Message
  now : ℕ
  ahead : Log
  rescues : List (List ℕ)

inductive RescueAction where
  | tick (seconds : ℕ)
  /-- The generation performs its next await. -/
  | await
  /-- A rescue selects the messages that are stuck. -/
  | select
  /-- A rescue writes the messages that it has selected. -/
  | commit (i : ℕ)
  | rollback (i : ℕ)
deriving DecidableEq

namespace RescueState

/-- The row of a message. -/
def message (s : RescueState) (messageId : ℕ) : Option Message :=
  s.messages.find? fun m => m.id == messageId

/-- The write of its row that the generation makes with its next await, if it makes one. -/
def nextWrite (s : RescueState) : Option MessageUpdate :=
  match s.ahead with
  | [] => none
  | x :: _ =>
      match x.op with
      | .persist row => if x.committed then some row else none
      | _ => none

/-- No open rescue has selected the message. -/
def Unclaimed (s : RescueState) (messageId : ℕ) : Prop :=
  ∀ stuck ∈ s.rescues, messageId ∉ stuck

instance (s : RescueState) (messageId : ℕ) : Decidable (s.Unclaimed messageId) :=
  inferInstanceAs (Decidable (∀ _ ∈ _, _))

end RescueState

/-- The generation of the answer of a turn, and the rescues of its tenant, which take a message
for stuck that has been streaming for longer than `stuckAfter`.  A process that is killed just
takes no further step. -/
def rescueSystem (stuckAfter : ℕ) (turn : TurnStarted) (script : Script)
    (o : Oracle Op Site Exn) : Machine RescueState RescueAction where
  init s :=
    s.ahead = generateLog turn script o ∧ s.rescues = [] ∧
      (s.messages.map Message.id).Nodup ∧
      ∃ m, s.message turn.messageId = some m ∧ m.status = .streaming
  step
    | .tick seconds, s => some { s with now := s.now + seconds }
    | .await, s =>
        match s.ahead with
        | [] => none
        | _ :: rest =>
            some
              { s with
                ahead := rest
                messages :=
                  match s.nextWrite with
                  | none => s.messages
                  | some row => persist turn.messageId row s.messages }
    | .select, s =>
        let stuck := stuckStreaming (s.now - stuckAfter) s.messages
        some { s with rescues := s.rescues ++ [stuck.map Message.id] }
    | .commit i, s =>
        s.rescues[i]?.map fun stuck =>
          { s with messages := interrupt stuck s.messages, rescues := s.rescues.eraseIdx i }
    | .rollback i, s =>
        s.rescues[i]?.map fun _ => { s with rescues := s.rescues.eraseIdx i }

/-- Where the generation writes its row, the message is still streaming, and no open rescue has
selected it. -/
def Undisputed (messageId : ℕ) (s : RescueState) : RescueAction → Prop
  | .await =>
      s.nextWrite.isSome →
        (s.message messageId).all (·.status = .streaming) ∧ s.Unclaimed messageId
  | _ => True

instance (messageId : ℕ) (s : RescueState) : (a : RescueAction) →
    Decidable (Undisputed messageId s a)
  | .await => inferInstanceAs (Decidable (_ → _ ∧ _))
  | .tick _ | .select | .commit _ | .rollback _ => inferInstanceAs (Decidable True)

/-! ### What a step does to a message -/

section Steps

variable {stuckAfter : ℕ} {turn : TurnStarted} {script : Script} {o : Oracle Op Site Exn}
variable {s t : RescueState} {a : RescueAction} {m : Message} {messageId : ℕ}

theorem map_id_setStatus (messageId : ℕ) (status : MessageStatus) (error : Option MessageError)
    {fields : Message → Message} (hid : ∀ m, (fields m).id = m.id) (messages : List Message) :
  (setStatus messageId status error fields messages).map Message.id = messages.map Message.id
  := by
  apply Table.map_update
  exact hid

theorem find?_setStatus (key messageId : ℕ) (status : MessageStatus)
    (error : Option MessageError) {fields : Message → Message}
    (hid : ∀ m, (fields m).id = m.id) (messages : List Message) :
  (setStatus key status error fields messages).find? (·.id == messageId) =
    (messages.find? (·.id == messageId)).map fun m =>
      if m.id == key then { fields m with status := status, error := error } else m
  := by
  apply Table.find?_update
  intro m
  change ((fields m).id == messageId) = _
  rw [hid]

theorem id_of_find? {messages : List Message}
    (hm : messages.find? (·.id == messageId) = some m) :
  m.id = messageId
  := by
  have found := List.find?_some hm
  simpa using found

/-- What a generation writes, it writes into its own row. -/
theorem find?_persist {messages : List Message} (row : MessageUpdate)
    (hm : messages.find? (·.id == messageId) = some m) :
  ∃ m', (persist messageId row messages).find? (·.id == messageId) = some m' ∧
    m'.id = messageId ∧ m'.status = row.status
  := by
  have key : m.id = messageId := id_of_find? hm
  unfold persist
  rw [find?_setStatus, hm, Option.map_some, if_pos (beq_iff_eq.mpr key)]
  · exact ⟨_, rfl, key, rfl⟩
  · intro _
    rfl

theorem map_id_interrupt (stuck : List ℕ) (messages : List Message) :
  (interrupt stuck messages).map Message.id = messages.map Message.id
  := by
  induction stuck generalizing messages with
  | nil => rfl
  | cons key stuck ih =>
    unfold interrupt
    rw [ih]
    apply map_id_setStatus _ _ _ fun _ => rfl

/-- The messages that are interrupted are those that were selected, and their content stays. -/
theorem find?_interrupt (stuck : List ℕ) (messages : List Message) (messageId : ℕ) :
  (interrupt stuck messages).find? (·.id == messageId) =
    (messages.find? (·.id == messageId)).map fun m =>
      if m.id ∈ stuck then { m with status := .interrupted, error := some workerLost } else m
  := by
  induction stuck generalizing messages with
  | nil => simp [interrupt]
  | cons key stuck ih =>
    unfold interrupt
    rw [ih, find?_setStatus _ _ _ _ fun _ => rfl, Option.map_map]
    congr 1
    funext m
    rw [Function.comp_apply]
    by_cases hkey : m.id = key
    · simp [hkey]
    · simp [hkey]

/-- A message that is not streaming is not selected. -/
theorem not_mem_stuckStreaming {messages : List Message}
    (unique : (messages.map Message.id).Nodup)
    (hm : messages.find? (·.id == messageId) = some m) (hstatus : m.status ≠ .streaming)
    (startedBefore : ℕ) :
  messageId ∉ (stuckStreaming startedBefore messages).map Message.id
  := by
  intro h
  obtain ⟨m', hm', hid⟩ := List.mem_map.mp h
  unfold stuckStreaming at hm'
  rw [List.mem_insertionSort, List.mem_filter, decide_eq_true_eq] at hm'
  obtain ⟨hmem, hstreaming, -⟩ := hm'
  have key : m.id = messageId := id_of_find? hm
  have same : m' = m := by
    apply Table.eq_of_key unique hmem (List.mem_of_find?_eq_some hm)
    rw [hid, key]
  apply hstatus
  rw [← same]
  exact hstreaming

/-- A step leaves the messages as they are, or the generation writes its row, or a rescue
writes the messages that it has selected. -/
inductive Wrote (messageId : ℕ) (a : RescueAction) (s t : RescueState) : Prop where
  | nothing : t.messages = s.messages → Wrote messageId a s t
  | row (row : MessageUpdate) :
      a = .await → s.nextWrite = some row → t.rescues = s.rescues →
      t.messages = persist messageId row s.messages → Wrote messageId a s t
  | interrupted (stuck : List ℕ) :
      stuck ∈ s.rescues → t.messages = interrupt stuck s.messages → Wrote messageId a s t

theorem step_cases (hstep : (rescueSystem stuckAfter turn script o).step a s = some t) :
  Wrote turn.messageId a s t ∧
    ∀ stuck ∈ t.rescues, stuck ∈ s.rescues ∨
      ∃ before, stuck = (stuckStreaming before s.messages).map Message.id
  := by
  cases a with
  | tick seconds =>
    cases hstep
    exact ⟨.nothing rfl, fun _ h => .inl h⟩
  | select =>
    cases hstep
    refine ⟨.nothing rfl, ?_⟩
    intro stuck hstuck
    rcases List.mem_append.mp hstuck with hstuck | hstuck
    · exact .inl hstuck
    · exact .inr ⟨_, List.mem_singleton.mp hstuck⟩
  | rollback i =>
    obtain ⟨stuck, -, rfl⟩ := Option.map_eq_some_iff.mp hstep
    exact ⟨.nothing rfl, fun _ h => .inl (List.mem_of_mem_eraseIdx h)⟩
  | commit i =>
    obtain ⟨stuck, hstuck, rfl⟩ := Option.map_eq_some_iff.mp hstep
    refine ⟨.interrupted stuck (List.mem_of_getElem? hstuck) rfl, ?_⟩
    intro _ h
    exact .inl (List.mem_of_mem_eraseIdx h)
  | await =>
    simp only [rescueSystem] at hstep
    split at hstep
    · cases hstep
    · cases hstep
      refine ⟨?_, fun _ h => .inl h⟩
      cases hwrite : s.nextWrite with
      | none => exact .nothing rfl
      | some row => exact .row row rfl hwrite rfl rfl

/-- The ids are the same after a step. -/
theorem step_ids (hstep : (rescueSystem stuckAfter turn script o).step a s = some t) :
  t.messages.map Message.id = s.messages.map Message.id
  := by
  cases (step_cases hstep).1 with
  | nothing h => rw [h]
  | row row _ _ _ h =>
    rw [h]
    apply map_id_setStatus
    intro _
    rfl
  | interrupted stuck _ h =>
    rw [h]
    apply map_id_interrupt

/-- A message becomes claimed only if it is streaming. -/
theorem step_unclaimed (hstep : (rescueSystem stuckAfter turn script o).step a s = some t)
    (unique : (s.messages.map Message.id).Nodup) (hm : s.message turn.messageId = some m)
    (hstatus : m.status ≠ .streaming) (unclaimed : s.Unclaimed turn.messageId) :
  t.Unclaimed turn.messageId
  := by
  intro stuck hstuck
  rcases (step_cases hstep).2 stuck hstuck with hstuck | ⟨before, rfl⟩
  · exact unclaimed stuck hstuck
  · exact not_mem_stuckStreaming unique hm hstatus before

/-- After an undisputed step, the message is what it was before, or it was streaming and
unclaimed and the generation has written it, or a rescue that had selected it has interrupted
it. -/
theorem step_message (hstep : (rescueSystem stuckAfter turn script o).step a s = some t)
    (undisputed : Undisputed turn.messageId s a) (hm : s.message turn.messageId = some m) :
  ∃ m', t.message turn.messageId = some m' ∧
    (m' = m ∨ m.status = .streaming ∧ t.Unclaimed turn.messageId ∨
      ¬ s.Unclaimed turn.messageId ∧
        m' = { m with status := .interrupted, error := some workerLost })
  := by
  unfold RescueState.message at hm ⊢
  obtain ⟨wrote, rescues⟩ := step_cases hstep
  cases wrote with
  | nothing h =>
    rw [h]
    exact ⟨m, hm, .inl rfl⟩
  | row row ha hwrite hrescues h =>
    subst ha
    obtain ⟨streaming, unclaimed⟩ := undisputed (by rw [hwrite]; rfl)
    obtain ⟨m', found, -, -⟩ := find?_persist row hm
    unfold RescueState.message at streaming
    rw [hm, Option.all_some, decide_eq_true_eq] at streaming
    rw [h]
    refine ⟨m', found, .inr (.inl ⟨streaming, ?_⟩)⟩
    unfold RescueState.Unclaimed
    rw [hrescues]
    exact unclaimed
  | interrupted stuck hstuck h =>
    have key : m.id = turn.messageId := id_of_find? hm
    rw [h, find?_interrupt, hm, Option.map_some]
    by_cases claimed : m.id ∈ stuck
    · rw [if_pos claimed]
      refine ⟨_, rfl, .inr (.inr ⟨?_, rfl⟩)⟩
      intro unclaimed
      apply unclaimed stuck hstuck
      rw [← key]
      exact claimed
    · rw [if_neg claimed]
      exact ⟨m, rfl, .inl rfl⟩

end Steps

/-! ### A finished message stays as it is -/

section Runs

variable {stuckAfter : ℕ} {turn : TurnStarted} {script : Script} {o : Oracle Op Site Exn}
variable {s t : RescueState} {a : RescueAction} {m : Message}

/-- A message that a rescue has selected is streaming or interrupted. -/
structure RescueInv (messageId : ℕ) (s : RescueState) : Prop where
  unique : (s.messages.map Message.id).Nodup
  claimed : ∀ m, s.message messageId = some m →
    m.status = .streaming ∨ m.status = .interrupted ∨ s.Unclaimed messageId
  present : (s.message messageId).isSome

theorem RescueInv.step (inv : RescueInv turn.messageId s)
    (undisputed : Undisputed turn.messageId s a)
    (hstep : (rescueSystem stuckAfter turn script o).step a s = some t) :
  RescueInv turn.messageId t
  := by
  obtain ⟨m, hm⟩ := Option.isSome_iff_exists.mp inv.present
  obtain ⟨m', hm', h⟩ := step_message hstep undisputed hm
  constructor
  · rw [step_ids hstep]
    exact inv.unique
  · intro m'' hm''
    rw [hm', Option.some_inj] at hm''
    subst hm''
    rcases h with rfl | ⟨-, unclaimed⟩ | ⟨-, rfl⟩
    · rcases inv.claimed m' hm with streaming | interrupted | unclaimed
      · exact .inl streaming
      · exact .inr (.inl interrupted)
      · by_cases hstatus : m'.status = .streaming
        · exact .inl hstatus
        · exact .inr (.inr (step_unclaimed hstep inv.unique hm hstatus unclaimed))
    · exact .inr (.inr unclaimed)
    · exact .inr (.inl rfl)
  · rw [hm']
    rfl

/-- An undisputed step leaves a finished message as it is. -/
theorem RescueInv.keeps (inv : RescueInv turn.messageId s)
    (undisputed : Undisputed turn.messageId s a)
    (hstep : (rescueSystem stuckAfter turn script o).step a s = some t)
    (hm : s.message turn.messageId = some m) (terminal : m.status.isTerminal) :
  ∃ m', t.message turn.messageId = some m' ∧ m'.outcome = m.outcome
  := by
  obtain ⟨m', hm', h⟩ := step_message hstep undisputed hm
  refine ⟨m', hm', ?_⟩
  rcases h with rfl | ⟨streaming, -⟩ | ⟨claimed, rfl⟩
  · rfl
  · rw [streaming] at terminal
    cases terminal
  · rcases inv.claimed m hm with streaming | interrupted | unclaimed
    · rw [streaming] at terminal
      cases terminal
    · unfold Message.outcome
      rw [interrupted]
    · exact absurd unclaimed claimed

theorem rescueInv_init (hs : (rescueSystem stuckAfter turn script o).init s) :
  RescueInv turn.messageId s
  := by
  obtain ⟨-, hrescues, unique, m, hm, streaming⟩ := hs
  constructor
  · exact unique
  · intro m' hm'
    right
    right
    intro stuck hstuck
    rw [hrescues] at hstuck
    cases hstuck
  · rw [hm]
    rfl

/-- What a finished message says in one state, it says in another one. -/
def Finished (messageId : ℕ) (u s : RescueState) : Prop :=
  ∀ m, u.message messageId = some m → m.status.isTerminal →
    ∃ m', s.message messageId = some m' ∧ m'.outcome = m.outcome

/-- In every interleaving of a generation with the rescues in which the generation writes only
while its message is streaming and not selected by an open rescue, a message with a terminal
status keeps its status, its content and its usage. -/
theorem finished_stays {h : List (RescueState × RescueAction)}
    (run : (rescueSystem stuckAfter turn script o).Run h s)
    (undisputed : ∀ x ∈ h, Undisputed turn.messageId x.1 x.2) :
  ∀ u ∈ Machine.states h s, Finished turn.messageId u s
  := by
  apply run.forall_later (I := RescueInv turn.messageId) (G := Undisputed turn.messageId)
    (R := Finished turn.messageId)
  · intro s hs
    apply rescueInv_init hs
  · intro a s t inv undisputed hstep
    apply inv.step undisputed hstep
  · intro s m hm _
    exact ⟨m, hm, rfl⟩
  · intro a u s t inv undisputed later hstep m hm terminal
    obtain ⟨m', hm', same⟩ := later m hm terminal
    have terminal' : m'.status.isTerminal := by
      have status : m'.status = m.status := congrArg Prod.fst same
      rw [status]
      exact terminal
    obtain ⟨m'', hm'', same'⟩ := inv.keeps undisputed hstep hm' terminal'
    exact ⟨m'', hm'', same'.trans same⟩
  · exact undisputed

/-- A generation that writes its row while an open rescue has selected the message: the commit
of that rescue makes the message interrupted, whatever the generation has written. -/
theorem commit_overwrites {row : MessageUpdate} {i : ℕ} {stuck : List ℕ}
    (hwrite : s.nextWrite = some row) (hm : s.message turn.messageId = some m)
    (hi : s.rescues[i]? = some stuck) (claimed : turn.messageId ∈ stuck)
    (hstep : (rescueSystem stuckAfter turn script o).step .await s = some t) :
  (∃ m', t.message turn.messageId = some m' ∧ m'.status = row.status) ∧
    ∃ u, (rescueSystem stuckAfter turn script o).step (.commit i) t = some u ∧
      ∃ m', u.message turn.messageId = some m' ∧ m'.status = .interrupted
  := by
  obtain ⟨m', found, hid, hstatus⟩ := find?_persist row hm
  simp only [rescueSystem] at hstep
  split at hstep
  · cases hstep
  · cases hstep
    constructor
    · rw [hwrite]
      exact ⟨m', found, hstatus⟩
    · refine ⟨_, congrArg (Option.map _) hi, ?_⟩
      unfold RescueState.message
      rw [find?_interrupt, hwrite, found, Option.map_some, hid, if_pos claimed]
      exact ⟨_, rfl, rfl⟩

end Runs

/-! ### A sample generation -/

/-- The message of the sample turn has just been created. -/
def sampleRescueState : RescueState where
  messages :=
    [{ id := 7
       createdAt := 0
       status := .streaming
       content := ""
       usage := none
       rag := none
       model := "m"
       promptVersion := none
       citations := []
       error := none }]
  now := 0
  ahead := generateLog sampleTurn sampleScript fun _ _ => .none
  rescues := []

/-- The sample generation, with rescues that find a message stuck after ten minutes. -/
def sampleRescueSystem : Machine RescueState RescueAction :=
  rescueSystem 600 sampleTurn sampleScript fun _ _ => .none

theorem sampleRescueState_init :
  sampleRescueSystem.init sampleRescueState
  := by
  refine ⟨rfl, rfl, ?_, _, rfl, rfl⟩
  exact List.nodup_singleton _

/-- A generation that is finished in time, and a rescue ten minutes later. -/
theorem finished_stays_sample :
  ∃ h s, sampleRescueSystem.Run h s ∧
    (s.message 7).any (·.status = .completed) ∧ s.now = 700 ∧
    ∀ u ∈ Machine.states h s, Finished 7 u s
  := by
  obtain ⟨h, s, run, undisputed, hs⟩ := Machine.exists_run_of_execWhile
    (M := sampleRescueSystem)
    (List.replicate 13 .await ++ [.tick 700, .select, .commit 0])
    (fun s a => decide (Undisputed 7 s a))
    (fun s => (s.message 7).any (·.status = .completed) && s.now == 700)
    sampleRescueState_init (by decide)
  rw [Bool.and_eq_true, beq_iff_eq] at hs
  refine ⟨h, s, run, hs.1, hs.2, ?_⟩
  apply finished_stays run
  intro x hx
  exact of_decide_eq_true (undisputed x hx)

/-- A rescue selects a message whose generation is still alive; the generation completes it,
and then the rescue interrupts it. -/
theorem not_finished_stays :
  ¬ ∀ h s, sampleRescueSystem.Run h s → ∀ u ∈ Machine.states h s, Finished 7 u s
  := by
  intro stays
  obtain ⟨h, u, run, hu⟩ := Machine.exists_run_of_exec
    (M := sampleRescueSystem)
    ([.tick 700, .select] ++ List.replicate 9 .await)
    (fun u => (u.message 7).any (·.status = .completed) &&
      (sampleRescueSystem.step (.commit 0) u).any fun s =>
        (s.message 7).any (·.status = .interrupted))
    sampleRescueState_init (by decide)
  simp only [Bool.and_eq_true, Option.any_eq_true, decide_eq_true_eq] at hu
  obtain ⟨⟨m, hm, completed⟩, s, hstep, m', hm', interrupted⟩ := hu
  have terminal : m.status.isTerminal := by
    rw [completed]
    rfl
  have earlier : u ∈ Machine.states ((u, .commit 0) :: h) s :=
    List.mem_cons_of_mem _ List.mem_cons_self
  obtain ⟨m'', hm'', same⟩ := stays _ s (run.step hstep) u earlier m hm terminal
  cases hm'.symm.trans hm''
  have status : m'.status = m.status := congrArg Prod.fst same
  rw [completed, interrupted] at status
  cases status

end Lumina.Chat
