import Mathlib.Data.List.Basic
import Mathlib.Data.Nat.Notation

/-!
# The stream buffer of a message

The writer of a message numbers its events and appends them to a buffer; a reader asks for the
events after a number that it has seen.  The number travels as the `id:` of the event and comes
back in the header `Last-Event-ID`, and the lower bound is exclusive.
-/

namespace Lumina.Sse

/-- An event of the buffer.  `seq` is its `id:`, `type` its `event:`. -/
structure StreamEvent (δ : Type) where
  seq : ℕ
  type : String
  data : δ
deriving DecidableEq

/-- An event as the reader in the browser receives it. -/
structure SseEvent (δ : Type) where
  id : Option String
  type : String
  data : δ
deriving DecidableEq

variable {δ : Type}

/-- `_TERMINAL_EVENTS` of the server and `TERMINAL_EVENTS` of the browser. -/
def terminalEvents : List String :=
  ["done", "error"]

/-- The server stops sending after this event. -/
def StreamEvent.isTerminal (e : StreamEvent δ) : Bool :=
  terminalEvents.contains e.type

/-- The browser stops reading after this event. -/
def SseEvent.isTerminal (e : SseEvent δ) : Bool :=
  terminalEvents.contains e.type

/-- What the reader receives of an event that was sent. -/
def StreamEvent.sent (e : StreamEvent δ) : SseEvent δ where
  id := some (toString e.seq)
  type := e.type
  data := e.data

/-! ### Writing -/

/-- The buffer, with the number of the last event that its writer has appended. -/
structure StreamBuffer (δ : Type) where
  seq : ℕ
  entries : List (StreamEvent δ)

/-- `StreamBuffer.append`. -/
def StreamBuffer.append (b : StreamBuffer δ) (type : String) (data : δ) : StreamBuffer δ where
  seq := b.seq + 1
  entries := b.entries ++ [{ seq := b.seq + 1, type := type, data := data }]

/-- The events of a message: their numbers increase, and the last one, and no other, is
terminal. -/
structure Transcript (δ : Type) where
  events : List (StreamEvent δ)
  increasing : events.Pairwise (·.seq < ·.seq)
  positive : ∀ e ∈ events, 0 < e.seq
  terminal : ∃ e ∈ events.getLast?, e.isTerminal
  only_last : ∀ e ∈ events.dropLast, e.isTerminal = false

/-- A first part of a transcript with a terminal event is all of it. -/
theorem Transcript.eq_of_isTerminal (T : Transcript δ) {pre : List (StreamEvent δ)}
    (hpre : pre <+: T.events) {e : StreamEvent δ} (he : e ∈ pre) (terminal : e.isTerminal) :
  pre = T.events
  := by
  obtain ⟨post, hpost⟩ := hpre
  by_cases last : post = []
  · rw [last, List.append_nil] at hpost
    exact hpost
  · have early : e ∈ T.events.dropLast := by
      rw [← hpost, List.dropLast_append_of_ne_nil last]
      exact List.mem_append_left _ he
    rw [T.only_last e early] at terminal
    cases terminal

/-- Before an event of a transcript there is no terminal one. -/
theorem Transcript.isTerminal_of_before (T : Transcript δ) {pre post : List (StreamEvent δ)}
    {e : StreamEvent δ} (h : pre ++ e :: post <+: T.events) :
  ∀ e' ∈ pre, e'.isTerminal = false
  := by
  intro e' he'
  by_contra terminal
  rw [Bool.not_eq_false] at terminal
  have whole : pre = T.events :=
    T.eq_of_isTerminal ((List.prefix_append _ _).trans h) he' terminal
  have short := h.length_le
  rw [← whole, List.length_append, List.length_cons] at short
  omega

/-- Nothing comes after a terminal event. -/
theorem Transcript.eq_nil_of_isTerminal (T : Transcript δ) {pre post : List (StreamEvent δ)}
    {e : StreamEvent δ} (h : pre ++ e :: post <+: T.events) (terminal : e.isTerminal) :
  post = []
  := by
  cases post with
  | nil => rfl
  | cons e' post =>
    rw [List.append_cons] at h
    rw [T.isTerminal_of_before h e] at terminal
    · cases terminal
    · simp

theorem Transcript.exists_isTerminal (T : Transcript δ) :
  ∃ e ∈ T.events, e.isTerminal
  := by
  obtain ⟨e, he, terminal⟩ := T.terminal
  exact ⟨e, List.mem_of_getLast? he, terminal⟩

/-- A buffer whose numbers increase from one up to the number of its writer. -/
structure StreamBuffer.Ordered (b : StreamBuffer δ) : Prop where
  increasing : b.entries.Pairwise (·.seq < ·.seq)
  positive : ∀ e ∈ b.entries, 0 < e.seq
  bounded : ∀ e ∈ b.entries, e.seq ≤ b.seq

theorem StreamBuffer.ordered_empty :
  (⟨0, []⟩ : StreamBuffer δ).Ordered
  := ⟨List.Pairwise.nil, nofun, nofun⟩

/-- Appending keeps the order, so that what a writer appends to a new buffer may be the events
of a transcript. -/
theorem StreamBuffer.Ordered.append {b : StreamBuffer δ} (h : b.Ordered) (type : String)
    (data : δ) :
  (b.append type data).Ordered
  := by
  constructor
  · apply List.pairwise_append.mpr
    refine ⟨h.increasing, List.pairwise_singleton _ _, ?_⟩
    intro e he e' he'
    rw [List.mem_singleton.mp he']
    exact Nat.lt_succ_of_le (h.bounded e he)
  · intro e he
    rcases List.mem_append.mp he with he | he
    · exact h.positive e he
    · rw [List.mem_singleton.mp he]
      exact Nat.succ_pos _
  · intro e he
    rcases List.mem_append.mp he with he | he
    · exact Nat.le_succ_of_le (h.bounded e he)
    · cases List.mem_singleton.mp he
      exact Nat.le_refl _

/-! ### Reading -/

/-- The entries after the number `after`, as `XREAD` and `XRANGE` return them. -/
def entriesAfter (after : ℕ) (entries : List (StreamEvent δ)) : List (StreamEvent δ) :=
  entries.filter fun e => after < e.seq

/-- The number of the last of some events, or zero. -/
def cursor (events : List (StreamEvent δ)) : ℕ :=
  (events.getLast?.map (·.seq)).getD 0

@[simp]
theorem cursor_nil : cursor ([] : List (StreamEvent δ)) = 0 := rfl

@[simp]
theorem cursor_append_singleton (events : List (StreamEvent δ)) (e : StreamEvent δ) :
  cursor (events ++ [e]) = e.seq
  := by
  simp [cursor]

theorem seq_le_cursor {events : List (StreamEvent δ)}
    (increasing : events.Pairwise (·.seq < ·.seq)) {e : StreamEvent δ} (he : e ∈ events) :
  e.seq ≤ cursor events
  := by
  obtain rfl | ⟨init, last, rfl⟩ := List.eq_nil_or_concat' events
  · cases he
  · rw [cursor_append_singleton]
    rcases List.mem_append.mp he with he | he
    · apply Nat.le_of_lt
      apply (List.pairwise_append.mp increasing).2.2 e he
      exact List.mem_singleton_self _
    · cases List.mem_singleton.mp he
      exact Nat.le_refl _

theorem cursor_lt {seen rest : List (StreamEvent δ)}
    (increasing : (seen ++ rest).Pairwise (·.seq < ·.seq))
    (positive : ∀ e ∈ seen ++ rest, 0 < e.seq) {e : StreamEvent δ} (he : e ∈ rest) :
  cursor seen < e.seq
  := by
  obtain rfl | ⟨init, last, rfl⟩ := List.eq_nil_or_concat' seen
  · apply positive
    exact he
  · rw [cursor_append_singleton]
    apply (List.pairwise_append.mp increasing).2.2 last _ e he
    simp

/-- Asking for the entries after the last event seen returns those that have not been seen. -/
theorem Transcript.entriesAfter_cursor (T : Transcript δ) {seen rest : List (StreamEvent δ)}
    (h : seen ++ rest <+: T.events) :
  entriesAfter (cursor seen) (seen ++ rest) = rest
  := by
  have increasing : (seen ++ rest).Pairwise (·.seq < ·.seq) :=
    T.increasing.sublist h.sublist
  have positive : ∀ e ∈ seen ++ rest, 0 < e.seq := fun e he =>
    T.positive e (h.subset he)
  unfold entriesAfter
  rw [List.filter_append]
  have old : (seen.filter fun e => cursor seen < e.seq) = [] := by
    rw [List.filter_eq_nil_iff]
    intro e he
    rw [decide_eq_true_eq, Nat.not_lt]
    apply seq_le_cursor (List.pairwise_append.mp increasing).1 he
  have new : (rest.filter fun e => cursor seen < e.seq) = rest := by
    rw [List.filter_eq_self]
    intro e he
    rw [decide_eq_true_eq]
    apply cursor_lt increasing positive he
  rw [old, new, List.nil_append]

/-- `_parse_last_event_id`: the number in the header, or an error 422. -/
def parseLastEventId : Option String → Option ℕ
  | none => some 0
  | some raw =>
      if raw ≠ "" ∧ raw.toList.all Char.isDigit then some (Nat.ofDigitChars 10 raw.toList 0)
      else none

/-- The number of an event comes back as it was sent. -/
theorem parseLastEventId_toString (n : ℕ) :
  parseLastEventId (some (toString n)) = some n
  := by
  have digits : (toString n).toList = Nat.toDigits 10 n := Nat.toList_repr
  have nonempty : toString n ≠ "" := by
    intro h
    have absurd := congrArg String.toList h
    rw [digits] at absurd
    exact Nat.toDigits_ne_nil absurd
  simp only [parseLastEventId]
  rw [digits, if_pos, Nat.ofDigitChars_ten_toDigits]
  refine ⟨nonempty, ?_⟩
  rw [List.all_eq_true]
  intro c hc
  exact Nat.isDigit_of_mem_toDigits (by decide) (by decide) hc

/-- The header that a reader sends back after some events asks for those after them. -/
theorem parseLastEventId_sent (events : List (StreamEvent δ)) :
  parseLastEventId (events.getLast?.bind (·.sent.id)) = some (cursor events)
  := by
  unfold cursor
  cases events.getLast? with
  | none => rfl
  | some e => exact parseLastEventId_toString e.seq

end Lumina.Sse
