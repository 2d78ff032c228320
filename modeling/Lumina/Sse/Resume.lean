import Lumina.Library.Transition
import Lumina.Sse.Buffer
import Mathlib.Data.List.Infix

/-!
# Resuming a stream

Three components have to agree on where to go on: the reader in the browser, which keeps the
number of the last event that it has received; the endpoint, which answers a request with a
generator that reads the buffer from there on; and the buffer, which grows meanwhile.  A
connection may be lost at any time, with the events that are on their way.

`resumeSystem` is one reader of one transcript.  What it hands to its handler is at any time a
first part of the transcript, each event once.  It gets all of it, unless too many connections
in a row end without an event.
-/

namespace Lumina.Sse

open Transition

/-! ### The endpoint and the reader -/

/-- The state of `_sse`: the last number sent, how often there was no buffer to wait for, and
the rest of the events that it has just read. -/
structure Generator (δ : Type) where
  lastSeq : ℕ
  misses : ℕ := 0
  batch : List (StreamEvent δ) := []
  returned : Bool := false

/-- `_MISSES_BEFORE_GIVING_UP` -/
def missesBeforeGivingUp : ℕ := 2

/-- An open response: the generator behind it, and the events on their way to the reader.
Heartbeats are not among them, since no event comes out of them. -/
structure Connection (δ : Type) where
  server : Generator δ
  wire : List (SseEvent δ) := []

/-- The outcome of `openEventStream` for a caller that does not abort it. -/
inductive SseOutcome where
  | completed (handlerFailed : Bool)
  | resumeExpired
  | failed
deriving DecidableEq

/-- The buffer, the events that will still be appended to it, and the variables of the reader.
Without a connection the reader is about to ask for one. -/
structure ResumeState (δ : Type) where
  buffer : List (StreamEvent δ)
  ahead : List (StreamEvent δ)
  connection : Option (Connection δ)
  lastEventId : Option String
  attempt : ℕ
  handled : List (SseEvent δ)
  outcome : Option SseOutcome

inductive ResumeAction where
  /-- The writer appends the next event. -/
  | append
  /-- The reader asks for the stream, while the row of the message says whether it is still
  streaming. -/
  | connect (streaming : Bool)
  /-- The request of the reader fails. -/
  | refuse
  /-- `follow` returns the events that are new. -/
  | follow
  /-- `follow` waits in vain. -/
  | timeout
  /-- The generator yields the next event. -/
  | send
  /-- The reader receives the next event; its handler may raise. -/
  | receive (raises : Bool)
  /-- The connection is lost, with what is on its way. -/
  | disconnect
deriving DecidableEq

variable {δ : Type}

/-- `_interrupted_event`. -/
def interruptedEvent (interrupted : δ) (seq : ℕ) : StreamEvent δ where
  seq := seq
  type := "error"
  data := interrupted

namespace ResumeState

/-- A connection ends without a terminal event, or there is none: try again, or give up. -/
def lose (maxRetries : ℕ) (s : ResumeState δ) : ResumeState δ :=
  if maxRetries ≤ s.attempt then { s with connection := none, outcome := some .failed }
  else { s with connection := none, attempt := s.attempt + 1 }

/-- `stream_message`: a bad header is an error like any other to the reader, and a buffer that
has expired ends the reading. -/
def streamMessage (maxRetries : ℕ) (streaming : Bool) (s : ResumeState δ) : ResumeState δ :=
  match parseLastEventId s.lastEventId with
  | none => s.lose maxRetries
  | some after =>
      if s.buffer = [] ∧ (0 < after ∨ streaming = false) then
        { s with outcome := some .resumeExpired }
      else { s with connection := some { server := { lastSeq := after } } }

end ResumeState

namespace Connection

/-- What the generator does with the events that are new. -/
def follow (buffer : List (StreamEvent δ)) (c : Connection δ) : Option (Connection δ) :=
  if c.server.returned ∨ c.server.batch ≠ [] then none
  else match entriesAfter c.server.lastSeq buffer with
    | [] => none
    | new => some { c with server := { c.server with batch := new, misses := 0 } }

/-- What the generator does when there is nothing new: a heartbeat, unless the buffer has been
missing for too long. -/
def timeout (interrupted : δ) (buffer : List (StreamEvent δ)) (c : Connection δ) :
    Option (Connection δ) :=
  if c.server.returned ∨ c.server.batch ≠ [] ∨ entriesAfter c.server.lastSeq buffer ≠ [] then
    none
  else
    let misses := if buffer = [] then c.server.misses + 1 else 0
    if missesBeforeGivingUp ≤ misses then
      some
        { server := { c.server with misses := misses, returned := true }
          wire := c.wire ++ [(interruptedEvent interrupted c.server.lastSeq).sent] }
    else some { c with server := { c.server with misses := misses } }

/-- The generator yields an event, and returns after a terminal one. -/
def send (c : Connection δ) : Option (Connection δ) :=
  match c.server.batch with
  | [] => none
  | e :: rest =>
      some
        { server :=
            { c.server with
              lastSeq := e.seq
              batch := if e.isTerminal then [] else rest
              returned := e.isTerminal }
          wire := c.wire ++ [e.sent] }

end Connection

/-- The reader receives an event, and returns after a terminal one. -/
def ResumeState.receive (raises : Bool) (s : ResumeState δ) (c : Connection δ) :
    Option (ResumeState δ) :=
  match c.wire with
  | [] => none
  | e :: rest =>
      some
        { s with
          attempt := 0
          lastEventId := e.id <|> s.lastEventId
          handled := s.handled ++ [e]
          connection := if e.isTerminal then none else some { c with wire := rest }
          outcome := if e.isTerminal then some (.completed raises) else s.outcome }

/-- One reader of a transcript; `interrupted` is the data of the event that the endpoint makes
up when the buffer is missing. -/
def resumeSystem (maxRetries : ℕ) (interrupted : δ) (T : Transcript δ) :
    Machine (ResumeState δ) ResumeAction where
  init s :=
    s.buffer ++ s.ahead = T.events ∧ s.connection = none ∧ s.lastEventId = none ∧
      s.attempt = 0 ∧ s.handled = [] ∧ s.outcome = none
  step
    | .append, s =>
        match s.ahead with
        | [] => none
        | e :: rest => some { s with buffer := s.buffer ++ [e], ahead := rest }
    | .connect streaming, s =>
        if s.outcome = none ∧ s.connection.isNone then some (s.streamMessage maxRetries streaming)
        else none
    | .refuse, s =>
        if s.outcome = none ∧ s.connection.isNone then some (s.lose maxRetries) else none
    | .follow, s =>
        s.connection.bind fun c =>
          (c.follow s.buffer).map fun c => { s with connection := some c }
    | .timeout, s =>
        s.connection.bind fun c =>
          (c.timeout interrupted s.buffer).map fun c => { s with connection := some c }
    | .send, s =>
        s.connection.bind fun c => c.send.map fun c => { s with connection := some c }
    | .receive raises, s => s.connection.bind fun c => s.receive raises c
    | .disconnect, s => if s.connection.isSome then some (s.lose maxRetries) else none

/-- The buffer exists where the endpoint looks for it; before its first event the message is
streaming, and the endpoint does not wait for it in vain. -/
def Live (s : ResumeState δ) : ResumeAction → Prop
  | .connect streaming => s.buffer ≠ [] ∨ streaming = true
  | .timeout => s.buffer ≠ []
  | _ => True

instance (s : ResumeState δ) : (a : ResumeAction) → Decidable (Live s a)
  | .connect streaming =>
      inferInstanceAs (Decidable (¬ s.buffer = [] ∨ streaming = true))
  | .timeout => inferInstanceAs (Decidable (¬ s.buffer = []))
  | .append | .refuse | .follow | .send | .receive _ | .disconnect =>
      inferInstanceAs (Decidable True)

/-- How many connections have ended, or have not come about, since an event was received for
the last time; the latest action comes first. -/
def barren : List ResumeAction → ℕ
  | [] => 0
  | .receive _ :: _ => 0
  | .disconnect :: as | .refuse :: as => barren as + 1
  | _ :: as => barren as

/-- Never too many connections in a row have ended without an event. -/
def Patient (maxRetries : ℕ) (as : List ResumeAction) : Prop :=
  ∀ as' ∈ as.tails, barren as' ≤ maxRetries

instance (maxRetries : ℕ) (as : List ResumeAction) : Decidable (Patient maxRetries as) :=
  inferInstanceAs (Decidable (∀ _ ∈ _, _))

/-- The steps of the three components themselves. -/
def ResumeAction.undisturbed : ResumeAction → Bool
  | append | connect true | follow | send | receive _ => true
  | _ => false

/-! ### Where the three components stand -/

section Standing

variable {maxRetries : ℕ} {interrupted : δ} {T : Transcript δ} {s t : ResumeState δ}
variable {c c' : Connection δ} {done flight batch : List (StreamEvent δ)} {a : ResumeAction}

/-- The events are in a row: those that the handler has seen, those on their way, those that
the generator has read, the others in the buffer, and those still ahead. -/
structure Standing (T : Transcript δ) (s : ResumeState δ)
    (done flight batch : List (StreamEvent δ)) : Prop where
  appended : s.buffer ++ s.ahead = T.events
  read : done ++ flight ++ batch <+: s.buffer
  handled : s.handled = done.map StreamEvent.sent
  lastEventId : s.lastEventId = done.getLast?.bind (·.sent.id)
  idle : s.connection = none → flight = [] ∧ batch = []
  wire : ∀ c ∈ s.connection, c.wire = flight.map StreamEvent.sent
  server : ∀ c ∈ s.connection, c.server.batch = batch ∧
    c.server.lastSeq = cursor (done ++ flight) ∧
    c.server.returned = flight.any StreamEvent.isTerminal ∧ c.server.misses = 0
  reading : s.connection.isSome → s.outcome = none
  unfinished : s.outcome = none → ∀ e ∈ done, e.isTerminal = false
  completed : ∀ raises, s.outcome = some (.completed raises) → done = T.events
  live : s.outcome ≠ some .resumeExpired

theorem Standing.init (hs : (resumeSystem maxRetries interrupted T).init s) :
  Standing T s [] [] []
  := by
  obtain ⟨happended, hconnection, hid, hattempt, hhandled, houtcome⟩ := hs
  constructor
  · exact happended
  · exact List.nil_prefix
  · exact hhandled
  · exact hid
  · intro _
    exact ⟨rfl, rfl⟩
  · rw [hconnection]
    nofun
  · rw [hconnection]
    nofun
  · intro _
    exact houtcome
  · intro _ e he
    cases he
  · rw [houtcome]
    nofun
  · rw [houtcome]
    nofun

theorem Standing.read_events (h : Standing T s done flight batch) :
  done ++ flight ++ batch <+: T.events
  := by
  apply h.read.trans
  rw [← h.appended]
  exact List.prefix_append _ _

/-- The events ahead of a generator that has read all it knows of. -/
theorem Standing.entriesAfter (h : Standing T s done flight []) :
  ∃ rest, s.buffer = done ++ flight ++ rest ∧
    entriesAfter (cursor (done ++ flight)) s.buffer = rest
  := by
  obtain ⟨rest, hrest⟩ := h.read
  rw [List.append_nil] at hrest
  refine ⟨rest, hrest.symm, ?_⟩
  rw [← hrest]
  apply T.entriesAfter_cursor
  rw [hrest, ← h.appended]
  exact List.prefix_append _ _

theorem Standing.append {e : StreamEvent δ} {rest : List (StreamEvent δ)}
    (h : Standing T s done flight batch) (hahead : s.ahead = e :: rest) :
  Standing T { s with buffer := s.buffer ++ [e], ahead := rest } done flight batch
  :=
  { h with
    appended := by
      rw [← h.appended, hahead, List.append_assoc]
      rfl
    read := h.read.trans (List.prefix_append _ _) }

/-- Losing the connection loses what was on its way, and nothing else. -/
theorem Standing.lose (maxRetries : ℕ) (h : Standing T s done flight batch) :
  Standing T (s.lose maxRetries) done [] []
  := by
  have read : done ++ [] ++ [] <+: s.buffer := by
    apply List.IsPrefix.trans _ h.read
    rw [List.append_nil, List.append_nil, List.append_assoc]
    exact List.prefix_append _ _
  unfold ResumeState.lose
  split
  · exact
      { h with
        read := read
        idle := fun _ => ⟨rfl, rfl⟩
        wire := nofun
        server := nofun
        reading := nofun
        unfinished := nofun
        completed := nofun
        live := nofun }
  · exact
      { h with
        read := read
        idle := fun _ => ⟨rfl, rfl⟩
        wire := nofun
        server := nofun
        reading := nofun }

/-- A live buffer answers a request with the events after those that the reader has seen. -/
theorem Standing.connect (maxRetries : ℕ) (h : Standing T s done flight batch) (houtcome : s.outcome = none)
    (hconnection : s.connection = none) {streaming : Bool}
    (live : Live s (.connect streaming)) :
  Standing T (s.streamMessage maxRetries streaming) done [] [] ∧
    s.streamMessage maxRetries streaming =
      { s with connection := some { server := { lastSeq := cursor done } } }
  := by
  obtain ⟨rfl, rfl⟩ := h.idle hconnection
  have start : cursor done = 0 ∨ s.buffer ≠ [] := by
    by_cases hbuffer : s.buffer = []
    · left
      have read := h.read
      rw [hbuffer, List.prefix_nil, List.append_nil, List.append_nil] at read
      rw [read, cursor_nil]
    · right
      exact hbuffer
  have admitted : s.streamMessage maxRetries streaming =
      { s with connection := some { server := { lastSeq := cursor done } } } := by
    have parsed : parseLastEventId s.lastEventId = some (cursor done) := by
      rw [h.lastEventId]
      apply parseLastEventId_sent
    simp only [ResumeState.streamMessage, parsed]
    rw [if_neg]
    rintro ⟨hbuffer, hafter⟩
    rcases live with hnonempty | hstreaming
    · exact hnonempty hbuffer
    · rcases hafter with hafter | hstreaming'
      · rcases start with hstart | hnonempty
        · omega
        · exact hnonempty hbuffer
      · rw [hstreaming] at hstreaming'
        cases hstreaming'
  refine ⟨?_, admitted⟩
  rw [admitted]
  exact
    { h with
      idle := nofun
      wire := by
        rintro c ⟨⟩
        rfl
      server := by
        rintro c ⟨⟩
        rw [List.append_nil]
        exact ⟨rfl, rfl, rfl, rfl⟩
      reading := fun _ => houtcome }

/-- The generator reads on. -/
theorem Standing.follow (h : Standing T s done flight batch) (hc : s.connection = some c)
    (hstep : c.follow s.buffer = some c') :
  ∃ new, new ≠ [] ∧ batch = [] ∧ Standing T { s with connection := some c' } done flight new
  := by
  obtain ⟨hbatch, hseq, hreturned, -⟩ := h.server c hc
  unfold Connection.follow at hstep
  split at hstep
  · cases hstep
  next waiting =>
    rw [not_or, not_not, hbatch] at waiting
    obtain ⟨-, rfl⟩ := waiting
    obtain ⟨rest, hbuffer, hrest⟩ := h.entriesAfter
    rw [hseq, hrest] at hstep
    cases rest with
    | nil => cases hstep
    | cons e rest =>
      cases hstep
      refine ⟨e :: rest, List.cons_ne_nil _ _, rfl, ?_⟩
      exact
        { h with
          read := by rw [hbuffer]
          idle := nofun
          wire := by
            rintro c' ⟨⟩
            exact h.wire c hc
          server := by
            rintro c' ⟨⟩
            exact ⟨rfl, hseq, hreturned, rfl⟩
          reading := fun _ => h.reading (by rw [hc]; rfl) }

/-- As long as the buffer exists, waiting in vain changes nothing. -/
theorem Standing.timeout (h : Standing T s done flight batch) (hc : s.connection = some c)
    (live : s.buffer ≠ []) (hstep : c.timeout interrupted s.buffer = some c') :
  c' = c
  := by
  obtain ⟨-, -, -, hmisses⟩ := h.server c hc
  unfold Connection.timeout at hstep
  split at hstep
  · cases hstep
  · simp only at hstep
    cases hstep
    rw [← hmisses]

/-- The generator sends the next event. -/
theorem Standing.send (h : Standing T s done flight batch) (hc : s.connection = some c)
    (hstep : c.send = some c') :
  ∃ e rest, batch = e :: rest ∧
    Standing T { s with connection := some c' } done (flight ++ [e]) rest
  := by
  obtain ⟨hbatch, hseq, hreturned, hmisses⟩ := h.server c hc
  unfold Connection.send at hstep
  rw [hbatch] at hstep
  cases batch with
  | nil => cases hstep
  | cons e rest =>
    cases hstep
    have read : done ++ flight ++ e :: rest <+: T.events := h.read_events
    have dropped : (if e.isTerminal then [] else rest) = rest := by
      split
      next terminal => rw [T.eq_nil_of_isTerminal read terminal]
      next => rfl
    have returned : e.isTerminal = (flight ++ [e]).any StreamEvent.isTerminal := by
      have before : flight.any StreamEvent.isTerminal = false := by
        rw [List.any_eq_false]
        intro e' he'
        rw [T.isTerminal_of_before read e' (List.mem_append_right _ he')]
        exact Bool.false_ne_true
      rw [List.any_append, before, Bool.false_or, List.any_cons, List.any_nil, Bool.or_false]
    refine ⟨e, rest, rfl, ?_⟩
    exact
      { h with
        read := by
          have old := h.read
          simpa using old
        idle := nofun
        wire := by
          rintro c' ⟨⟩
          simp [h.wire c hc]
        server := by
          rintro c' ⟨⟩
          refine ⟨dropped, ?_, returned, hmisses⟩
          rw [← List.append_assoc, cursor_append_singleton]
        reading := fun _ => h.reading (by rw [hc]; rfl) }

/-- The reader hands the next event to its handler. -/
theorem Standing.receive {raises : Bool} (h : Standing T s done flight batch)
    (hc : s.connection = some c) (hstep : s.receive raises c = some t) :
  ∃ e rest, flight = e :: rest ∧ t.attempt = 0 ∧ t.ahead = s.ahead ∧
    if e.isTerminal then t.outcome = some (.completed raises) ∧ Standing T t (done ++ [e]) [] []
    else
      t.outcome = none ∧ t.connection.isSome ∧ Standing T t (done ++ [e]) rest batch
  := by
  have houtcome : s.outcome = none := h.reading (by rw [hc]; rfl)
  obtain ⟨hbatch, hseq, hreturned, hmisses⟩ := h.server c hc
  unfold ResumeState.receive at hstep
  rw [h.wire c hc] at hstep
  cases flight with
  | nil => cases hstep
  | cons e rest =>
    cases hstep
    have read : done ++ [e] <+: s.buffer := by
      have first : done ++ e :: rest ++ batch = done ++ [e] ++ (rest ++ batch) := by simp
      apply List.IsPrefix.trans _ h.read
      rw [first]
      exact List.prefix_append _ _
    have hid : (e.sent.id <|> s.lastEventId) =
        (done ++ [e]).getLast?.bind (·.sent.id) := by
      rw [List.getLast?_concat]
      rfl
    have hhandled : s.handled ++ [e.sent] = (done ++ [e]).map StreamEvent.sent := by
      rw [h.handled, List.map_append]
      rfl
    refine ⟨e, rest, rfl, rfl, rfl, ?_⟩
    split
    next terminal =>
      have terminal' : e.sent.isTerminal = true := terminal
      have whole : done ++ [e] = T.events := by
        apply T.eq_of_isTerminal _ _ terminal
        · rw [← h.appended]
          exact read.trans (List.prefix_append _ _)
        · simp
      rw [if_pos terminal', if_pos terminal']
      refine ⟨rfl, ?_⟩
      exact
        { h with
          read := by simpa using read
          handled := hhandled
          lastEventId := hid
          idle := fun _ => ⟨rfl, rfl⟩
          wire := nofun
          server := nofun
          reading := nofun
          unfinished := nofun
          completed := fun _ _ => whole
          live := nofun }
    next ongoing =>
      rw [Bool.not_eq_true] at ongoing
      have ongoing' : ¬ e.sent.isTerminal = true := Bool.not_eq_true _ ▸ ongoing
      rw [if_neg ongoing', if_neg ongoing']
      refine ⟨houtcome, rfl, ?_⟩
      exact
        { h with
          read := by
            have old := h.read
            simpa using old
          handled := hhandled
          lastEventId := hid
          idle := nofun
          wire := by
            rintro c' ⟨⟩
            rfl
          server := by
            rintro c' ⟨⟩
            refine ⟨hbatch, ?_, ?_, hmisses⟩
            · rw [hseq, List.append_cons done e]
            · rw [hreturned, List.any_cons, ongoing, Bool.false_or]
          reading := fun _ => houtcome
          unfinished := by
            intro _ e' he'
            rcases List.mem_append.mp he' with he' | he'
            · exact h.unfinished houtcome e' he'
            · rw [List.mem_singleton.mp he']
              exact ongoing
          completed := by
            intro raises' absurd
            rw [houtcome] at absurd
            cases absurd }

end Standing

/-! ### Along a run -/

section Runs

variable {maxRetries : ℕ} {interrupted : δ} {T : Transcript δ} {s t : ResumeState δ}
variable {a : ResumeAction} {as : List ResumeAction}
variable {h : List (ResumeState δ × ResumeAction)}

/-- The three components stand somewhere in the transcript. -/
def Stands (T : Transcript δ) (s : ResumeState δ) : Prop :=
  ∃ done flight batch, Standing T s done flight batch

/-- The connections that have ended since the last event, counted by the history, are those
that the reader has counted. -/
structure Counted (T : Transcript δ) (as : List ResumeAction) (s : ResumeState δ) : Prop where
  stands : Stands T s
  attempt : s.outcome = none → s.attempt = barren as

/-- The reader counts a lost connection, and gives up after too many. -/
theorem Counted.lose (inv : Counted T as s) (houtcome : s.outcome = none) :
  Stands T (s.lose maxRetries) ∧
    ((s.lose maxRetries).outcome = none → (s.lose maxRetries).attempt = barren as + 1) ∧
    (barren as + 1 ≤ maxRetries → (s.lose maxRetries).outcome ≠ some .failed)
  := by
  obtain ⟨done, flight, batch, st⟩ := inv.stands
  refine ⟨⟨_, _, _, st.lose maxRetries⟩, ?_⟩
  rw [← inv.attempt houtcome]
  unfold ResumeState.lose
  split
  next many =>
    refine ⟨nofun, ?_⟩
    intro few
    omega
  next =>
    refine ⟨fun _ => rfl, ?_⟩
    intro _ failed
    rw [houtcome] at failed
    cases failed

/-- What a step does to the count; and only a lost connection makes the reader give up. -/
theorem Counted.step (inv : Counted T as s) (live : Live s a)
    (hstep : (resumeSystem maxRetries interrupted T).step a s = some t) :
  Counted T (a :: as) t ∧
    (barren (a :: as) ≤ maxRetries → s.outcome ≠ some .failed → t.outcome ≠ some .failed)
  := by
  obtain ⟨done, flight, batch, st⟩ := inv.stands
  cases a with
  | append =>
    simp only [resumeSystem] at hstep
    split at hstep
    · cases hstep
    next e rest hahead =>
      cases hstep
      exact ⟨⟨⟨_, _, _, st.append hahead⟩, inv.attempt⟩, fun _ h => h⟩
  | connect streaming =>
    simp only [resumeSystem, Option.ite_none_right_eq_some, Option.isNone_iff_eq_none] at hstep
    obtain ⟨⟨houtcome, hconnection⟩, ⟨⟩⟩ := hstep
    obtain ⟨st', admitted⟩ := st.connect maxRetries houtcome hconnection live
    refine ⟨⟨⟨_, _, _, st'⟩, ?_⟩, ?_⟩
    · rw [admitted]
      exact inv.attempt
    · rw [admitted]
      exact fun _ h => h
  | refuse =>
    simp only [resumeSystem, Option.ite_none_right_eq_some] at hstep
    obtain ⟨⟨houtcome, -⟩, ⟨⟩⟩ := hstep
    obtain ⟨stands, attempt, failed⟩ := inv.lose houtcome
    exact ⟨⟨stands, attempt⟩, fun few _ => failed few⟩
  | disconnect =>
    simp only [resumeSystem, Option.ite_none_right_eq_some] at hstep
    obtain ⟨hconnection, ⟨⟩⟩ := hstep
    obtain ⟨stands, attempt, failed⟩ := inv.lose (st.reading hconnection)
    exact ⟨⟨stands, attempt⟩, fun few _ => failed few⟩
  | follow =>
    obtain ⟨c, hc, hstep⟩ := Option.bind_eq_some_iff.mp hstep
    obtain ⟨c', hfollow, rfl⟩ := Option.map_eq_some_iff.mp hstep
    obtain ⟨new, -, -, st'⟩ := st.follow hc hfollow
    exact ⟨⟨⟨_, _, _, st'⟩, inv.attempt⟩, fun _ h => h⟩
  | timeout =>
    obtain ⟨c, hc, hstep⟩ := Option.bind_eq_some_iff.mp hstep
    obtain ⟨c', htimeout, rfl⟩ := Option.map_eq_some_iff.mp hstep
    rw [st.timeout hc live htimeout, ← hc]
    exact ⟨⟨inv.stands, inv.attempt⟩, fun _ h => h⟩
  | send =>
    obtain ⟨c, hc, hstep⟩ := Option.bind_eq_some_iff.mp hstep
    obtain ⟨c', hsend, rfl⟩ := Option.map_eq_some_iff.mp hstep
    obtain ⟨e, rest, -, st'⟩ := st.send hc hsend
    exact ⟨⟨⟨_, _, _, st'⟩, inv.attempt⟩, fun _ h => h⟩
  | receive raises =>
    obtain ⟨c, hc, hstep⟩ := Option.bind_eq_some_iff.mp hstep
    obtain ⟨e, rest, -, attempt, -, received⟩ := st.receive hc hstep
    split at received
    next =>
      obtain ⟨houtcome, st'⟩ := received
      refine ⟨⟨⟨_, _, _, st'⟩, fun _ => attempt⟩, ?_⟩
      rw [houtcome]
      nofun
    next =>
      obtain ⟨houtcome, -, st'⟩ := received
      refine ⟨⟨⟨_, _, _, st'⟩, fun _ => attempt⟩, ?_⟩
      rw [houtcome]
      nofun

theorem counted_of_run (run : (resumeSystem maxRetries interrupted T).Run h s)
    (live : ∀ x ∈ h, Live x.1 x.2) :
  Counted T (h.map Prod.snd) s ∧
    (Patient maxRetries (h.map Prod.snd) → s.outcome ≠ some .failed)
  := by
  induction run with
  | init hs =>
    obtain ⟨-, -, -, hattempt, -, houtcome⟩ := id hs
    refine ⟨⟨⟨_, _, _, Standing.init hs⟩, fun _ => hattempt⟩, ?_⟩
    rw [houtcome]
    nofun
  | @step h s t a run hstep ih =>
    obtain ⟨inv, failed⟩ := ih fun x hx => live x (List.mem_cons_of_mem _ hx)
    obtain ⟨inv', failed'⟩ := inv.step (live (s, a) List.mem_cons_self) hstep
    refine ⟨inv', ?_⟩
    intro patient
    have counted := patient _ ((List.mem_tails _ _).mpr List.suffix_rfl)
    apply failed' counted
    apply failed
    intro as' has'
    apply patient as'
    rw [List.mem_tails] at has' ⊢
    exact has'.trans (List.suffix_cons _ _)

end Runs

/-! ### Going on without disturbance -/

section Progress

variable {maxRetries : ℕ} {interrupted : δ} {T : Transcript δ} {s t : ResumeState δ}
variable {a : ResumeAction} {done flight batch : List (StreamEvent δ)}

/-- A bound on the steps that are left: each event ahead is appended, and each event that has
not been handled is read, sent and received. -/
def remaining (T : Transcript δ) (s : ResumeState δ) : ℕ :=
  let n := T.events.length
  let received := s.handled.length
  s.ahead.length +
    match s.outcome, s.connection with
    | some _, _ => 0
    | none, none => 3 * (n - received) + 1
    | none, some c =>
        let sent := received + c.wire.length
        (n - received) + (n - sent) + (n - (sent + c.server.batch.length))

theorem Standing.remaining_connected (h : Standing T s done flight batch)
    (hconnection : s.connection.isSome) :
  remaining T s = s.ahead.length + ((T.events.length - done.length) +
    (T.events.length - (done.length + flight.length)) +
    (T.events.length - (done.length + flight.length + batch.length)))
  := by
  have houtcome := h.reading hconnection
  obtain ⟨c, hc⟩ := Option.isSome_iff_exists.mp hconnection
  have received : s.handled.length = done.length := by rw [h.handled, List.length_map]
  have sent : c.wire.length = flight.length := by rw [h.wire c hc, List.length_map]
  simp only [remaining, houtcome, hc, received, sent, (h.server c hc).1]

theorem Standing.remaining_idle (h : Standing T s done flight batch)
    (houtcome : s.outcome = none) (hconnection : s.connection = none) :
  remaining T s = s.ahead.length + (3 * (T.events.length - done.length) + 1)
  := by
  have received : s.handled.length = done.length := by rw [h.handled, List.length_map]
  simp only [remaining, houtcome, hconnection, received]

theorem remaining_returned (houtcome : s.outcome.isSome) :
  remaining T s = s.ahead.length
  := by
  obtain ⟨o, ho⟩ := Option.isSome_iff_exists.mp houtcome
  simp only [remaining, ho, Nat.add_zero]

theorem Standing.length_le (h : Standing T s done flight batch) :
  done.length + flight.length + batch.length ≤ T.events.length
  := by
  have short := h.read_events.length_le
  rw [List.length_append, List.length_append] at short
  exact short

/-- An undisturbed step comes nearer to the end, and the reader does not give up. -/
theorem Standing.undisturbed (h : Standing T s done flight batch) (ha : a.undisturbed)
    (hstep : (resumeSystem maxRetries interrupted T).step a s = some t) :
  Stands T t ∧ remaining T t < remaining T s ∧
    (s.outcome ≠ some .failed → t.outcome ≠ some .failed)
  := by
  have short := h.length_le
  cases a with
  | refuse | disconnect | timeout => cases ha
  | append =>
    simp only [resumeSystem] at hstep
    split at hstep
    · cases hstep
    next e rest hahead =>
      cases hstep
      refine ⟨⟨_, _, _, h.append hahead⟩, ?_, fun h => h⟩
      simp only [remaining, hahead, List.length_cons]
      omega
  | connect streaming =>
    cases streaming with
    | false => cases ha
    | true =>
      simp only [resumeSystem, Option.ite_none_right_eq_some, Option.isNone_iff_eq_none] at hstep
      obtain ⟨⟨houtcome, hconnection⟩, ⟨⟩⟩ := hstep
      obtain ⟨st, admitted⟩ := h.connect maxRetries houtcome hconnection (.inr rfl)
      refine ⟨⟨_, _, _, st⟩, ?_, ?_⟩
      · rw [h.remaining_idle houtcome hconnection]
        rw [st.remaining_connected (by rw [admitted]; rfl)]
        rw [admitted]
        simp only [List.length_nil]
        omega
      · rw [admitted]
        exact fun h => h
  | follow =>
    obtain ⟨c, hc, hstep⟩ := Option.bind_eq_some_iff.mp hstep
    obtain ⟨c', hfollow, rfl⟩ := Option.map_eq_some_iff.mp hstep
    obtain ⟨new, hnew, rfl, st⟩ := h.follow hc hfollow
    refine ⟨⟨_, _, _, st⟩, ?_, fun h => h⟩
    rw [h.remaining_connected (by rw [hc]; rfl), st.remaining_connected rfl]
    have positive := List.length_pos_iff.mpr hnew
    have short' := st.length_le
    simp only [List.length_nil]
    omega
  | send =>
    obtain ⟨c, hc, hstep⟩ := Option.bind_eq_some_iff.mp hstep
    obtain ⟨c', hsend, rfl⟩ := Option.map_eq_some_iff.mp hstep
    obtain ⟨e, rest, rfl, st⟩ := h.send hc hsend
    refine ⟨⟨_, _, _, st⟩, ?_, fun h => h⟩
    rw [h.remaining_connected (by rw [hc]; rfl), st.remaining_connected rfl]
    simp only [List.length_append, List.length_cons, List.length_nil] at short ⊢
    omega
  | receive raises =>
    obtain ⟨c, hc, hstep⟩ := Option.bind_eq_some_iff.mp hstep
    rw [h.remaining_connected (by rw [hc]; rfl)]
    obtain ⟨e, rest, rfl, -, ahead, received⟩ := h.receive hc hstep
    rw [List.length_cons] at short ⊢
    split at received
    next =>
      obtain ⟨houtcome, st⟩ := received
      refine ⟨⟨_, _, _, st⟩, ?_, ?_⟩
      · rw [remaining_returned (by rw [houtcome]; rfl), ahead]
        omega
      · rw [houtcome]
        nofun
    next =>
      obtain ⟨houtcome, hconnection, st⟩ := received
      refine ⟨⟨_, _, _, st⟩, ?_, ?_⟩
      · rw [st.remaining_connected hconnection, ahead]
        simp only [List.length_append, List.length_cons, List.length_nil]
        omega
      · rw [houtcome]
        nofun

/-- As long as the reader has not returned, one of the three components can go on. -/
theorem Standing.enabled (maxRetries : ℕ) (interrupted : δ) (h : Standing T s done flight batch)
    (houtcome : s.outcome = none) :
  ∃ a : ResumeAction, a.undisturbed ∧
    ((resumeSystem maxRetries interrupted T).step a s).isSome
  := by
  cases hconnection : s.connection with
  | none =>
    use .connect true, rfl
    simp only [resumeSystem, houtcome, hconnection]
    rfl
  | some c =>
    obtain ⟨hbatch, hseq, hreturned, -⟩ := h.server c hconnection
    cases hahead : s.ahead with
    | cons e rest =>
      use .append, rfl
      simp only [resumeSystem, hahead]
      rfl
    | nil =>
      cases flight with
      | cons e rest =>
        use .receive false, rfl
        simp only [resumeSystem, hconnection, Option.bind_some, ResumeState.receive,
          h.wire c hconnection]
        rfl
      | nil =>
        cases batch with
        | cons e rest =>
          use .send, rfl
          simp only [resumeSystem, hconnection, Option.bind_some, Connection.send, hbatch]
          rfl
        | nil =>
          obtain ⟨rest, hbuffer, hrest⟩ := h.entriesAfter
          have whole : s.buffer = T.events := by
            rw [← h.appended, hahead, List.append_nil]
          -- the terminal event has not been handled, so it is still to be read
          have unread : rest ≠ [] := by
            rintro rfl
            obtain ⟨e, he, terminal⟩ := T.exists_isTerminal
            rw [← whole, hbuffer, List.append_nil, List.append_nil] at he
            rw [h.unfinished houtcome e he] at terminal
            cases terminal
          use .follow, rfl
          have waiting : ¬ (c.server.returned = true ∨ c.server.batch ≠ []) := by
            rw [hreturned, hbatch]
            simp
          simp only [resumeSystem, hconnection, Option.bind_some, Connection.follow, hseq,
            hrest, if_neg waiting]
          cases rest with
          | nil => exact absurd rfl unread
          | cons e rest => rfl

/-- Whatever the components do without disturbance, it comes to an end, and the end is that the
reader has returned. -/
theorem Stands.undisturbed_exec {as : List ResumeAction} (h : Stands T s)
    (has : ∀ a ∈ as, a.undisturbed)
    (hexec : (resumeSystem maxRetries interrupted T).exec as s = some t) :
  Stands T t ∧ as.length + remaining T t ≤ remaining T s ∧
    (s.outcome ≠ some .failed → t.outcome ≠ some .failed)
  := by
  induction as generalizing s with
  | nil =>
    cases hexec
    exact ⟨h, Nat.le_of_eq (Nat.zero_add _), fun h => h⟩
  | cons a as ih =>
    obtain ⟨u, hstep, hrest⟩ := (resumeSystem maxRetries interrupted T).exec_cons_eq_some hexec
    obtain ⟨done, flight, batch, st⟩ := h
    obtain ⟨stands, nearer, failed⟩ := st.undisturbed (has a List.mem_cons_self) hstep
    obtain ⟨stands', nearer', failed'⟩ :=
      ih stands (fun a ha => has a (List.mem_cons_of_mem _ ha)) hrest
    refine ⟨stands', ?_, fun h => failed' (failed h)⟩
    rw [List.length_cons]
    omega

/-- What a reader that has returned, and has not given up, has handled. -/
theorem Standing.returned {o : SseOutcome} (h : Standing T s done flight batch)
    (houtcome : s.outcome = some o) (failed : s.outcome ≠ some .failed) :
  (∃ raises, o = .completed raises) ∧ s.handled = T.events.map StreamEvent.sent
  := by
  cases o with
  | failed => exact absurd houtcome failed
  | resumeExpired => exact absurd houtcome h.live
  | completed raises =>
    refine ⟨⟨raises, rfl⟩, ?_⟩
    rw [h.handled, h.completed raises houtcome]

/-- While the buffer lives, the handler has been called with a first part of the transcript, each
event once and in order.  As long as no more than `maxRetries` connections in a row end without
an event, the reader returns with all of it; and from then on without disturbance it does return,
whatever the order of the steps. -/
theorem resume_exactly_once {h : List (ResumeState δ × ResumeAction)}
    (run : (resumeSystem maxRetries interrupted T).Run h s) (live : ∀ x ∈ h, Live x.1 x.2) :
  s.handled <+: T.events.map StreamEvent.sent ∧
    (Patient maxRetries (h.map Prod.snd) →
      (∀ o, s.outcome = some o →
        (∃ raises, o = .completed raises) ∧ s.handled = T.events.map StreamEvent.sent) ∧
      ∃ bound, ∀ as t, (∀ a ∈ as, a.undisturbed) →
        (resumeSystem maxRetries interrupted T).exec as s = some t →
        as.length ≤ bound ∧
          ((∃ raises, t.outcome = some (.completed raises)) ∧
              t.handled = T.events.map StreamEvent.sent ∨
            ∃ a : ResumeAction, a.undisturbed ∧
              ((resumeSystem maxRetries interrupted T).step a t).isSome))
  := by
  obtain ⟨inv, hfailed⟩ := counted_of_run run live
  obtain ⟨done, flight, batch, st⟩ := inv.stands
  constructor
  · rw [st.handled]
    apply List.IsPrefix.map
    have read := st.read_events
    rw [List.append_assoc] at read
    exact (List.prefix_append _ _).trans read
  · intro patient
    have failed := hfailed patient
    refine ⟨fun o ho => st.returned ho failed, remaining T s, ?_⟩
    intro as t has hexec
    obtain ⟨⟨_, _, _, st'⟩, nearer, failed'⟩ := inv.stands.undisturbed_exec has hexec
    refine ⟨by omega, ?_⟩
    cases houtcome : t.outcome with
    | some o =>
      left
      obtain ⟨⟨raises, rfl⟩, whole⟩ := st'.returned houtcome (failed' failed)
      exact ⟨⟨raises, rfl⟩, whole⟩
    | none =>
      right
      exact st'.enabled maxRetries interrupted houtcome

end Progress

/-! ### A sample stream -/

/-- An answer of one word. -/
def sampleBuffer : StreamBuffer String :=
  ((⟨0, []⟩ : StreamBuffer String).append "delta" "hi").append "done" "stop"

theorem sampleBuffer_ordered :
  sampleBuffer.Ordered
  := (StreamBuffer.ordered_empty.append _ _).append _ _

def sampleTranscript : Transcript String where
  events := sampleBuffer.entries
  increasing := sampleBuffer_ordered.increasing
  positive := sampleBuffer_ordered.positive
  terminal := ⟨_, rfl, rfl⟩
  only_last := by decide

/-- Nothing has been written yet. -/
def sampleResumeState : ResumeState String where
  buffer := []
  ahead := sampleBuffer.entries
  connection := none
  lastEventId := none
  attempt := 0
  handled := []
  outcome := none

def sampleResumeSystem : Machine (ResumeState String) ResumeAction :=
  resumeSystem 3 "interrupted" sampleTranscript

theorem sampleResumeState_init :
  sampleResumeSystem.init sampleResumeState
  := ⟨rfl, rfl, rfl, rfl, rfl, rfl⟩

/-- The first event is lost on its way and sent again, and the second one is appended between
two connections. -/
theorem resume_exactly_once_sample :
  ∃ h s, sampleResumeSystem.Run h s ∧ s.outcome = some (.completed false) ∧
    s.handled = [⟨some "1", "delta", "hi"⟩, ⟨some "2", "done", "stop"⟩]
  := by
  obtain ⟨h, s, run, actions, live, hs⟩ := Machine.exists_history_of_execWhile
    (M := sampleResumeSystem)
    [.connect true, .append, .follow, .send, .disconnect, .connect true, .follow, .send,
      .receive false, .timeout, .disconnect, .refuse, .append, .connect true, .follow, .send,
      .receive false]
    (fun s a => decide (Live s a)) (fun s => s.outcome == some (.completed false))
    sampleResumeState_init (by decide)
  have houtcome : s.outcome = some (.completed false) := beq_iff_eq.mp hs
  have patient : Patient 3 (h.map Prod.snd) := by
    rw [actions]
    decide
  have all := (resume_exactly_once run fun x hx => of_decide_eq_true (live x hx)).2 patient
  exact ⟨h, s, run, houtcome, (all.1 _ houtcome).2⟩

/-- Four connections that are lost before the first event: the reader gives up, although the
buffer is still there. -/
theorem not_resume_exactly_once :
  ¬ ∀ h s, sampleResumeSystem.Run h s → (∀ x ∈ h, Live x.1 x.2) →
    ∀ o, s.outcome = some o → s.handled = sampleTranscript.events.map StreamEvent.sent
  := by
  intro delivers
  obtain ⟨h, s, run, live, hs⟩ := Machine.exists_run_of_execWhile
    (M := sampleResumeSystem)
    (.append :: (List.replicate 4 [.connect true, .disconnect]).flatten)
    (fun s a => decide (Live s a))
    (fun s => s.outcome == some .failed && s.handled == [])
    sampleResumeState_init (by decide)
  rw [Bool.and_eq_true, beq_iff_eq, beq_iff_eq] at hs
  have all := delivers h s run (fun x hx => of_decide_eq_true (live x hx)) _ hs.1
  rw [hs.2] at all
  cases all

end Lumina.Sse
