import Lumina.Conversations.Messages
import Lumina.Rag.Citation
import Lumina.Rag.Retrieval

/-!
# The composer of a turn

A request has the system prompt, the history of the conversation and, as its last message, the
question after what the retrieval has found for it.  The history is asked for when the question and
an empty answer are already rows of the conversation: the newest rows are taken first, and those that
do not belong to the history are left out of them afterwards.
-/

namespace Lumina.Conversations

open Etl (Text)
open Fallible (ok_of_bind)
open Knowledge (Exn KbId)
open Paging (newest sorted)
open Rag (RagParams RetrievalOutcome RetrievalService RetrievedChunk composeContext normaliseQuery
  resolveRagParams)

/-! ### The request -/

def historyWindowMessages : ℕ := 20

structure ChatMessage where
  role : Role
  content : Text
deriving DecidableEq

structure ChatRequest where
  messages : List ChatMessage
  model : String

structure PreparedTurn where
  request : ChatRequest
  promptVersion : ℕ
  chunks : List RetrievedChunk
  retrieved : Bool
  degraded : List String

structure RenderedPrompt where
  version : ℕ
  system : Text

def systemRagPromptKey : String := "rag_answer"

/-- `build_user_turn`. -/
def buildUserTurn (question context : Text) : Text :=
  if context = [] then question else context ++ ['\n', '\n', '問', '題', '：'] ++ question

/-- `items[-n:]`, for a positive number. -/
def lastOf {α : Type} (n : ℤ) (items : List α) : List α :=
  items.rtake n.toNat

/-- `build_search_query`. -/
def buildSearchQuery (question : Text) (previousQuestions : List Text) (historyTurns : ℤ) : Text :=
  let current := normaliseQuery question
  if historyTurns ≤ 0 then current
  else
    let recent := (lastOf historyTurns previousQuestions).map normaliseQuery
    Etl.strip (['\n'].intercalate (recent.filter (· ≠ []) ++ [current]))

/-- `RetrievalService.params_for`: those of the first knowledge base that is there. -/
def paramsFor (s : RetrievalService) : List KbId → Except Exn RagParams
  | [] => (resolveRagParams [] s.tenantConfig s.settings).elim (.error (.other "OverflowError")) .ok
  | kbId :: kbIds => do
      match ← s.getById kbId with
      | some kb => s.paramsOf kb
      | none => paramsFor s kbIds

/-- `MessageRepository.for_conversation` with a limit; identifiers are in the order of their texts. -/
def forConversation (messages : List Message) (conversationId limit : ℕ) : List Message :=
  newest Message.key (messagesOf messages conversationId) limit

/-- A row as the model is shown it.  Its role is one of those that `_role_of` keeps. -/
def Message.chat (message : Message) : ChatMessage :=
  ⟨message.role, message.content.toList⟩

/-- The arguments of `compose` that come from the turn. -/
structure TurnArguments where
  conversationId : ℕ
  messageId : ℕ
  userMessageId : ℕ
  question : Text
  kbIds : List KbId
  model : String

/-- The rows that `_history` keeps. -/
def keptRows (messages : List Message) (turn : TurnArguments) : List Message :=
  (forConversation messages turn.conversationId historyWindowMessages).filter fun row =>
    row.content ≠ "" && !(row.id = turn.messageId || row.id = turn.userMessageId)

/-- `_history`: what is sent to the model, and the questions before this one. -/
def history (messages : List Message) (turn : TurnArguments) : List ChatMessage × List Text :=
  let kept := keptRows messages turn
  (kept.map Message.chat,
    (kept.filter fun row => row.role = .user).map fun row => row.content.toList)

/-- What a composer asks: the service of the prompts and that of the retrieval. -/
structure TurnComposer where
  render : (key : String) → Except Exn RenderedPrompt
  retrieval : RetrievalService

namespace TurnComposer

variable (c : TurnComposer)

/-- `_retrieve`. -/
def retrieve (turn : TurnArguments) (previousQuestions : List Text) :
    Except Exn RetrievalOutcome :=
  if turn.kbIds = [] then .ok ⟨[], []⟩
  else do
    let params ← paramsFor c.retrieval turn.kbIds
    let query := buildSearchQuery turn.question previousQuestions params.queryHistoryTurns
    c.retrieval.retrieveForChat turn.kbIds query none

def compose (messages : List Message) (turn : TurnArguments) : Except Exn PreparedTurn := do
  let rendered ← c.render systemRagPromptKey
  let (history, previousQuestions) := history messages turn
  let outcome ← c.retrieve turn previousQuestions
  let context := composeContext outcome.chunks
  .ok
    { request :=
        { messages :=
            ⟨.system, rendered.system⟩ :: history ++ [⟨.user, buildUserTurn turn.question context⟩]
          model := turn.model }
      promptVersion := rendered.version
      chunks := outcome.chunks
      retrieved := turn.kbIds ≠ []
      degraded := outcome.degraded }

end TurnComposer

/-! ### The window -/

/-- What `compose` finds when a turn has been started: the rows have different identifiers, and the
question and its empty answer are among them. -/
structure StartedTurn where
  messages : List Message
  unique : (messages.map (·.id)).Nodup
  question : Message
  answer : Message
  question_mem : question ∈ messages
  answer_mem : answer ∈ messages
  together : answer.conversationId = question.conversationId
  empty : answer.content = ""
  kbIds : List KbId
  model : String

namespace StartedTurn

variable (t : StartedTurn)

def arguments : TurnArguments where
  conversationId := t.question.conversationId
  messageId := t.answer.id
  userMessageId := t.question.id
  question := t.question.content.toList
  kbIds := t.kbIds
  model := t.model

/-- The rows of the conversation in order. -/
def rows : List Message :=
  sorted Message.key (messagesOf t.messages t.question.conversationId)

/-- A row with a text that precedes the question. -/
def Precedes (row : Message) : Prop :=
  row.content ≠ "" ∧ row.key < t.question.key

instance : DecidablePred t.Precedes :=
  fun _ => inferInstanceAs (Decidable (_ ∧ _))

/-- The last messages with a text that precede the question. -/
def window : List Message :=
  (t.rows.filter (t.Precedes ·)).rtake historyWindowMessages

/-- All messages with a text that precede the question are among the newest rows, and none of those
that follow it there has a text. -/
def Fits : Prop :=
  (∀ row ∈ t.rows, t.Precedes row → row ∈ t.rows.rtake historyWindowMessages) ∧
    ∀ row ∈ t.rows.rtake historyWindowMessages, row.content ≠ "" → ¬ t.question.key < row.key

variable {t}

theorem ordered :
  t.rows.Pairwise (Message.key · < Message.key ·)
  := Paging.pairwise_sorted Message.key (nodup_key_messagesOf t.unique _)

theorem mem_rows {row : Message} :
  row ∈ t.rows ↔ row ∈ t.messages ∧ row.conversationId = t.question.conversationId
  := by
  rw [rows, Paging.mem_sorted, messagesOf, List.mem_filter, decide_eq_true_eq]

/-- A row with the identifier of another one is that row. -/
theorem eq_of_id {row row' : Message} (h : row ∈ t.messages) (h' : row' ∈ t.messages)
    (same : row.id = row'.id) :
  row = row'
  := List.inj_on_of_nodup_map t.unique h h' same

theorem keptRows_eq :
  keptRows t.messages t.arguments = (t.rows.rtake historyWindowMessages).filter fun row =>
    row.content ≠ "" && !(row.id = t.answer.id || row.id = t.question.id)
  := by
  rw [keptRows, forConversation, Paging.newest_eq (nodup_key_messagesOf t.unique _)]
  rfl

/-- Where no later row has a text, the rows that are kept are those that precede the question. -/
theorem kept_iff {row : Message} (inside : row ∈ t.messages)
    (last : row.content ≠ "" → ¬ t.question.key < row.key) :
  (row.content ≠ "" && !(row.id = t.answer.id || row.id = t.question.id)) =
    decide (t.Precedes row)
  := by
  rw [Bool.eq_iff_iff]
  simp only [Bool.and_eq_true, decide_eq_true_eq, Bool.not_eq_true', Bool.or_eq_false_iff,
    decide_eq_false_iff_not]
  constructor
  · rintro ⟨text, _, other⟩
    refine ⟨text, lt_of_le_of_ne (not_lt.mp (last text)) fun same => other ?_⟩
    exact congrArg (fun key : ℕ ×ₗ ℕ => (ofLex key).2) same
  · rintro ⟨text, before⟩
    refine ⟨text, fun same => text ?_, fun same => ?_⟩
    · rw [t.eq_of_id inside t.answer_mem same, t.empty]
    · rw [t.eq_of_id inside t.question_mem same] at before
      exact lt_irrefl _ before

/-- The newest row does not precede the question. -/
theorem exists_newest :
  ∃ row ∈ t.rows.rtake historyWindowMessages, ¬ t.Precedes row
  := by
  have question : t.question ∈ t.rows := mem_rows.mpr ⟨t.question_mem, rfl⟩
  have nonempty : t.rows ≠ [] := List.ne_nil_of_mem question
  refine ⟨t.rows.getLast nonempty, ?_, ?_⟩
  · exact Paging.getLast_mem_rtake nonempty (by decide)
  · exact fun precedes => Paging.not_getLast_lt ordered nonempty question precedes.2

/-- Where no later row has a text, the newest rows that precede the question are kept. -/
theorem keptRows_of_last
    (last : ∀ row ∈ t.rows.rtake historyWindowMessages, row.content ≠ "" →
      ¬ t.question.key < row.key) :
  keptRows t.messages t.arguments =
    (t.rows.rtake historyWindowMessages).filter (t.Precedes ·)
  := by
  rw [keptRows_eq]
  apply List.filter_congr
  intro row hrow
  exact kept_iff (mem_rows.mp (List.mem_of_mem_drop hrow)).1 (last row hrow)

/-- The history is the window exactly where the window fits into the newest rows. -/
theorem keptRows_eq_window_iff :
  keptRows t.messages t.arguments = t.window ↔ t.Fits
  := by
  have distinct : t.rows.Nodup := by
    apply List.Pairwise.imp _ t.ordered
    rintro row _ before rfl
    exact lt_irrefl _ before
  obtain ⟨latest, inside, notBefore⟩ := t.exists_newest
  have all := Paging.filter_rtake_eq_iff (p := (t.Precedes ·)) distinct inside
    (decide_eq_false notBefore)
  simp only [decide_eq_true_eq] at all
  constructor
  · intro same
    have last : ∀ row ∈ t.rows.rtake historyWindowMessages, row.content ≠ "" →
        ¬ t.question.key < row.key := by
      intro row hrow text after
      have hmem := (mem_rows.mp (List.mem_of_mem_drop hrow)).1
      have kept : row ∈ keptRows t.messages t.arguments := by
        rw [keptRows_eq, List.mem_filter]
        refine ⟨hrow, ?_⟩
        simp only [Bool.and_eq_true, decide_eq_true_eq, Bool.not_eq_true', Bool.or_eq_false_iff,
          decide_eq_false_iff_not]
        refine ⟨text, fun same => text ?_, fun same => ?_⟩
        · rw [t.eq_of_id hmem t.answer_mem same, t.empty]
        · rw [t.eq_of_id hmem t.question_mem same] at after
          exact lt_irrefl _ after
      rw [same] at kept
      have precedes := of_decide_eq_true (List.mem_filter.mp (List.mem_of_mem_drop kept)).2
      exact lt_asymm after precedes.2
    rw [keptRows_of_last last] at same
    exact ⟨all.mp same, last⟩
  · rintro ⟨early, last⟩
    rw [keptRows_of_last last]
    exact all.mpr early

end StartedTurn

/-- The request is the system prompt, the rows that are kept and the question, which is in none of
them.  The rows are the window exactly where the window fits into the newest rows. -/
theorem compose_window_iff (c : TurnComposer) (t : StartedTurn) :
  (∀ prepared, c.compose t.messages t.arguments = .ok prepared →
    ∃ rendered, c.render systemRagPromptKey = .ok rendered ∧
      prepared.request.messages =
        ⟨.system, rendered.system⟩ :: (keptRows t.messages t.arguments).map Message.chat ++
          [⟨.user, buildUserTurn t.question.content.toList (composeContext prepared.chunks)⟩]) ∧
  t.question ∉ keptRows t.messages t.arguments ∧
  (keptRows t.messages t.arguments = t.window ↔ t.Fits)
  := by
  refine ⟨?_, ?_, StartedTurn.keptRows_eq_window_iff⟩
  · intro prepared composed
    obtain ⟨rendered, render, composed⟩ := ok_of_bind composed
    obtain ⟨outcome, _, composed⟩ := ok_of_bind composed
    cases composed
    exact ⟨rendered, render, rfl⟩
  · intro kept
    have passes := (List.mem_filter.mp kept).2
    simp [StartedTurn.arguments] at passes

/-! ### A long conversation -/

/-- Nineteen earlier messages, the question and its answer. -/
def longRows : List Message :=
  (List.range 21).map fun n =>
    { id := n, conversationId := 0, createdAt := n, role := .user
      content := if n = 20 then "" else "?" }

def longTurn : StartedTurn where
  messages := longRows
  unique := by decide
  question := { id := 19, conversationId := 0, createdAt := 19, role := .user, content := "?" }
  answer := { id := 20, conversationId := 0, createdAt := 20, role := .user, content := "" }
  question_mem := by decide
  answer_mem := by decide
  together := rfl
  empty := rfl
  kbIds := []
  model := ""

/-- A composer whose prompt is empty, without knowledge bases. -/
def plainComposer : TurnComposer where
  render := fun _ => .ok ⟨1, []⟩
  retrieval :=
    { settings := {}
      aiEmbeddingModel := ""
      aiRerankModel := ""
      getById := fun _ => .ok none
      paramConfig := .ok []
      embed := fun _ model => .ok ⟨[], model⟩
      search := fun _ _ _ _ _ _ => .ok []
      searchFts := fun _ _ _ => .ok []
      rerank := .mock }

theorem rows_longTurn :
  longTurn.rows = longRows
  := by
  have all : messagesOf longRows 0 = longRows := by decide
  have ordered : longRows.Pairwise (Message.key · < Message.key ·) := by
    apply List.pairwise_map.mpr
    apply List.pairwise_lt_range.imp
    intro m n before
    exact Prod.Lex.toLex_lt_toLex.mpr (.inl before)
  have same : longTurn.rows.Perm longRows := by
    change (sorted Message.key (messagesOf longRows 0)).Perm longRows
    rw [all]
    exact Paging.sorted_perm Message.key longRows
  exact Paging.eq_of_perm same StartedTurn.ordered ordered

/-- All nineteen earlier messages are the window, and eighteen of them are sent. -/
theorem compose_not_window :
  ¬ ∀ (c : TurnComposer) (t : StartedTurn) prepared,
    c.compose t.messages t.arguments = .ok prepared →
      ∃ rendered, c.render systemRagPromptKey = .ok rendered ∧
        prepared.request.messages =
          ⟨.system, rendered.system⟩ :: t.window.map Message.chat ++
            [⟨.user, buildUserTurn t.question.content.toList (composeContext prepared.chunks)⟩]
  := by
  intro claim
  obtain ⟨rendered, _, same⟩ := claim plainComposer longTurn _ rfl
  have lengths := congrArg List.length same
  have kept : (keptRows longTurn.messages longTurn.arguments).length = 18 := by
    rw [StartedTurn.keptRows_eq, rows_longTurn]
    decide
  have window : longTurn.window.length = 19 := by
    rw [StartedTurn.window, rows_longTurn]
    decide
  simp only [List.length_append, List.length_cons, List.length_map, List.length_nil, kept, window] at lengths
  omega

end Lumina.Conversations
