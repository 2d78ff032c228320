import Lumina.Gateway.Rerank
import Lumina.Library.PyJson

/-!
# Parsing the stream of a chat provider

`_parse_stream` reads the lines of a streamed answer and yields its deltas.  What is not a line of
data, not JSON or not of the expected shape is left out, but an index of a tool call and the counts
of the usage are converted to integers, and nothing catches what these conversions raise.

The parser is compared with what the lines say: the texts of the events in their order, the tool
calls put together from the fragments with one index, and the last usage.
-/

namespace Lumina.Gateway

open Etl (Text strip)
open Knowledge (Exn)
open PyJson (Str Value)

/-! ### The parser -/

/-- A dictionary that `json.loads` has returned. -/
abbrev Members := List (Str × Value)

/-- `members.get(key)`. -/
def member (members : Members) (key : String) : Option Value :=
  members.lookup (PyJson.str key)

/-- `bool(value)`. -/
def isTrue : Value → Bool
  | .none => false
  | .bool b => b
  | .int n => n ≠ 0
  | .float x => x ≠ .number ⟨false, some 0⟩ ∧ x ≠ .number ⟨true, some 0⟩
  | .str s => !s.isEmpty
  | .list items => !items.isEmpty
  | .dict members => !members.isEmpty

/-- A value that is there and is true. -/
def trueValue (members : Members) (key : String) : Option Value :=
  (member members key).filter isTrue

structure ToolCall where
  id : Str := []
  name : Str := []
  arguments : Str := []

/-- A delta as the parser builds it.  The status of a tool call is `"done"`; the counts of the usage
may be any integers. -/
inductive ParsedDelta where
  | text (text : Str)
  | toolCall (callId name arguments : Str)
  | usage (promptTokens completionTokens : ℤ) (model : Str) (provider : String)
  | done (finishReason : Str)

namespace ParsedDelta

def text? : ParsedDelta → Option Str
  | text s => some s
  | _ => none

def toolCall? : ParsedDelta → Option ToolCall
  | toolCall id name arguments => some ⟨id, name, arguments⟩
  | _ => none

def counts? : ParsedDelta → Option (ℤ × ℤ)
  | usage prompt completion _ _ => some (prompt, completion)
  | _ => none

end ParsedDelta

/-- What a generator yields, and what it raises in the end. -/
structure Parsed where
  deltas : List ParsedDelta
  raised : Option Exn

/-- The variables of the loop. -/
structure ParserState where
  toolCalls : List (ℤ × ToolCall) := []
  usage : Option Members := none
  finishReason : Option Str := none
  model : Str := []

/-- What a line is: an event, the end, something that is left out, or a failure to read it. -/
inductive StreamLine where
  | ignored
  | finished
  | event (members : Members)
  | failed (e : Exn)

namespace StreamLine

def isFinished : StreamLine → Bool
  | finished => true
  | _ => false

def event? : StreamLine → Option Members
  | event members => some members
  | _ => none

end StreamLine

/-- The name of the provider and what Python is asked: the depth at which `json.loads` gives up, the
strings that `int` reads, and `repr`. -/
structure StreamParser where
  vendor : String
  depth : ℕ
  int : Str → Option ℤ
  repr : Value → Str

def ConversionError.exn : ConversionError → Exn
  | .typeError => .other "TypeError"
  | .valueError => .other "ValueError"
  | .overflowError => .other "OverflowError"

namespace StreamParser

variable (p : StreamParser)

/-- `int(value)`. -/
def toInt : Value → Except ConversionError ℤ
  | .bool b => .ok b.toInt
  | .int n => .ok n
  | .float (.number ⟨negative, some m⟩) => .ok (if negative then -⌊m⌋ else ⌊m⌋)
  | .float (.number ⟨_, none⟩) => .error .overflowError
  | .float .nan => .error .valueError
  | .str s => (p.int s).elim (.error .valueError) .ok
  | .none | .list _ | .dict _ => .error .typeError

/-- `str(value)`. -/
def shown : Value → Str
  | .str s => s
  | v => p.repr v

def readLine (raw : Text) : StreamLine :=
  let line := raw.rdropWhile (· = '\r')
  if line = [] ∨ line.head? = some ':' then .ignored
  else if ¬"data:".toList.isPrefixOf line then .ignored
  else
    let payload := strip (line.drop "data:".length)
    if payload = "[DONE]".toList then .finished
    else
      match PyJson.loads p.depth (payload.map Char.toNat) with
      | .error .valueError => .ignored
      | .error .recursionError => .failed (.other "RecursionError")
      | .ok (.dict event) => .event event
      | .ok _ => .ignored

/-- `int(fragment.get("index", 0))`. -/
def index (fragment : Members) : Except ConversionError ℤ :=
  p.toInt ((member fragment "index").getD (.int 0))

/-- What a fragment changes about its call. -/
def fill (call : ToolCall) (fragment : Members) : ToolCall :=
  let call :=
    match trueValue fragment "id" with
    | some id => { call with id := p.shown id }
    | none => call
  match member fragment "function" with
  | some (.dict function) =>
      let call :=
        match trueValue function "name" with
        | some name => { call with name := p.shown name }
        | none => call
      match member function "arguments" with
      | some (.str s) => { call with arguments := call.arguments ++ s }
      | _ => call
  | _ => call

/-- `_accumulate_tool_calls`, for the fragments that are dictionaries. -/
def accumulate (sink : List (ℤ × ToolCall)) :
    List Members → Except ConversionError (List (ℤ × ToolCall))
  | [] => .ok sink
  | fragment :: fragments => do
      let index ← p.index fragment
      let call := (sink.lookup index).getD {}
      accumulate (Dict.set index (p.fill call fragment) sink) fragments

def asDict : Value → Option Members
  | .dict members => some members
  | _ => none

/-- `choices[0]`, where there is a dictionary. -/
def choice (event : Members) : Option Members :=
  match member event "choices" with
  | some (.list (choice :: _)) => asDict choice
  | _ => none

def delta (event : Members) : Option Members :=
  (choice event).bind fun choice => (member choice "delta").bind asDict

/-- The content, if it is a string that is not empty. -/
def content (event : Members) : Option Str :=
  match (delta event).bind fun delta => member delta "content" with
  | some (.str s) => if s = [] then none else some s
  | _ => none

/-- The fragments of tool calls that are dictionaries. -/
def fragments (event : Members) : List Members :=
  match (delta event).bind fun delta => member delta "tool_calls" with
  | some (.list fragments) => fragments.filterMap asDict
  | _ => []

def usageOf (event : Members) : Option Members :=
  (member event "usage").bind asDict

def finishReasonOf (event : Members) : Option Str :=
  ((choice event).bind fun choice => trueValue choice "finish_reason").map p.shown

def modelOf (event : Members) : Option Str :=
  (trueValue event "model").map p.shown

/-- What an event changes; its tool calls come last and may fail. -/
def readEvent (s : ParserState) (event : Members) :
    List ParsedDelta × Except ConversionError ParserState :=
  let s :=
    { s with
      model := (p.modelOf event).getD s.model
      usage := (usageOf event).or s.usage
      finishReason := (p.finishReasonOf event).or s.finishReason }
  ((content event).toList.map .text,
    (p.accumulate s.toolCalls (fragments event)).map fun toolCalls => { s with toolCalls })

def interrupted : Exn :=
  unavailable (p.vendor ++ " 的回應在結束前中斷")

/-- `int(usage.get(key, 0))`. -/
def count (usage : Members) (key : String) : Except ConversionError ℤ :=
  p.toInt ((member usage key).getD (.int 0))

def counts (usage : Members) : Except ConversionError (ℤ × ℤ) := do
  let prompt ← p.count usage "prompt_tokens"
  let completion ← p.count usage "completion_tokens"
  .ok (prompt, completion)

/-- `finish_reason or "stop"`. -/
def doneReason (s : ParserState) : Str :=
  let reason := s.finishReason.getD []
  if reason = [] then PyJson.str "stop" else reason

/-- What follows the loop. -/
def finish (s : ParserState) (completed : Bool) : Parsed :=
  if !completed && s.finishReason.isNone then ⟨[], some p.interrupted⟩
  else
    let calls := s.toolCalls.map fun (_, call) => .toolCall call.id call.name call.arguments
    let done := .done (doneReason s)
    match s.usage with
    | none => ⟨calls ++ [done], none⟩
    | some usage =>
        match p.counts usage with
        | .error e => ⟨calls, some e.exn⟩
        | .ok (prompt, completion) =>
            ⟨calls ++ [.usage prompt completion s.model p.vendor, done], none⟩

/-- The loop, from some values of its variables. -/
def parseFrom (s : ParserState) : List Text → Parsed
  | [] => p.finish s false
  | raw :: lines =>
      match p.readLine raw with
      | .ignored => parseFrom s lines
      | .finished => p.finish s true
      | .failed e => ⟨[], some e⟩
      | .event event =>
          match p.readEvent s event with
          | (deltas, .error e) => ⟨deltas, some e.exn⟩
          | (deltas, .ok s) =>
              let rest := parseFrom s lines
              ⟨deltas ++ rest.deltas, rest.raised⟩

/-- `_parse_stream`. -/
def parseStream (lines : List Text) : Parsed :=
  p.parseFrom {} lines

/-! ### What the lines say -/

/-- The lines before the end of the stream. -/
def heard (lines : List Text) : List Text :=
  lines.takeWhile fun raw => !(p.readLine raw).isFinished

def completed (lines : List Text) : Bool :=
  lines.any fun raw => (p.readLine raw).isFinished

def events (lines : List Text) : List Members :=
  (p.heard lines).filterMap fun raw => (p.readLine raw).event?

/-- The fragments of tool calls in the order of their arrival. -/
def received (events : List Members) : List Members :=
  events.flatMap fragments

def lastUsage (events : List Members) : Option Members :=
  (events.filterMap usageOf).getLast?

def lastFinishReason (events : List Members) : Option Str :=
  (events.filterMap p.finishReasonOf).getLast?

def functionOf (fragment : Members) : Option Members :=
  (member fragment "function").bind asDict

def nameOf (fragment : Members) : Option Value :=
  (functionOf fragment).bind fun function => trueValue function "name"

def argumentsOf (fragment : Members) : Str :=
  match (functionOf fragment).bind fun function => member function "arguments" with
  | some (.str s) => s
  | _ => []

/-- The call of some fragments: its last identifier, its last name and all of its arguments. -/
def assembled (fragments : List Members) : ToolCall where
  id := ((fragments.filterMap fun fragment => trueValue fragment "id").getLast?.map p.shown).getD []
  name := ((fragments.filterMap nameOf).getLast?.map p.shown).getD []
  arguments := fragments.flatMap argumentsOf

/-- The calls by their indices, in the order in which these occur first. -/
def assembledCalls (fragments : List Members) : List ToolCall :=
  (fragments.filterMap fun fragment => (p.index fragment).toOption).eraseDups.map fun i =>
    p.assembled (fragments.filter fun fragment => p.index fragment = .ok i)

/-- The texts, the tool calls and the usage are what the lines say, and nothing is raised but the
error of an interrupted stream. -/
structure Faithful (lines : List Text) : Prop where
  texts : (p.parseStream lines).deltas.filterMap ParsedDelta.text? =
    (p.events lines).filterMap content
  raised : ∀ e ∈ (p.parseStream lines).raised, e = p.interrupted
  toolCalls : (p.parseStream lines).raised = none →
    (p.parseStream lines).deltas.filterMap ParsedDelta.toolCall? =
      p.assembledCalls (received (p.events lines))
  usage : (p.parseStream lines).raised = none →
    ((p.parseStream lines).deltas.filterMap ParsedDelta.counts?).map .ok =
      (lastUsage (p.events lines)).toList.map p.counts

/-- Each line can be read, and each fragment has an index. -/
structure Legible (lines : List Text) : Prop where
  read : ∀ raw ∈ p.heard lines, ∀ e, p.readLine raw ≠ .failed e
  indices : ∀ fragment ∈ received (p.events lines), (p.index fragment).isOk

/-- The stream is not interrupted. -/
def Ended (lines : List Text) : Prop :=
  p.completed lines ∨ (p.lastFinishReason (p.events lines)).isSome

/-- The lines are legible and the usage is two numbers, if it is reported. -/
structure Convertible (lines : List Text) : Prop extends p.Legible lines where
  counts : p.Ended lines → ∀ usage ∈ lastUsage (p.events lines), (p.counts usage).isOk

/-! ### Tool calls -/

def indexOf (fragment : Members) : ℤ :=
  (p.index fragment).toOption.getD 0

/-- The calls that some fragments are accumulated to. -/
def grouped (fragments : List Members) : List (ℤ × ToolCall) :=
  fragments.foldl
    (fun sink fragment =>
      Dict.set (p.indexOf fragment)
        (p.fill ((sink.lookup (p.indexOf fragment)).getD {}) fragment) sink) []

theorem index_eq_ok {fragment : Members} (h : (p.index fragment).isOk) :
  p.index fragment = .ok (p.indexOf fragment)
  := by
  unfold indexOf
  cases index : p.index fragment with
  | error e =>
    rw [index] at h
    cases h
  | ok i => rfl

theorem accumulate_eq_ok {earlier fragments : List Members}
    (h : ∀ fragment ∈ fragments, (p.index fragment).isOk) :
  p.accumulate (p.grouped earlier) fragments = .ok (p.grouped (earlier ++ fragments))
  := by
  induction fragments generalizing earlier with
  | nil => rw [List.append_nil, accumulate]
  | cons fragment fragments ih =>
    have next : Dict.set (p.indexOf fragment) (p.fill
        (((p.grouped earlier).lookup (p.indexOf fragment)).getD {}) fragment) (p.grouped earlier) =
        p.grouped (earlier ++ [fragment]) := by
      unfold grouped
      rw [List.foldl_append]
      rfl
    rw [accumulate, p.index_eq_ok (h fragment List.mem_cons_self)]
    change p.accumulate (Dict.set _ _ _) fragments = _
    rw [next, ih fun f hf => h f (List.mem_cons_of_mem fragment hf), List.append_assoc]
    rfl

theorem accumulate_eq_error (sink : List (ℤ × ToolCall)) {fragments : List Members}
    (h : ¬ ∀ fragment ∈ fragments, (p.index fragment).isOk) :
  ∃ e, p.accumulate sink fragments = .error e
  := by
  induction fragments generalizing sink with
  | nil => exact absurd (List.forall_mem_nil _) h
  | cons fragment fragments ih =>
    rw [accumulate]
    cases index : p.index fragment with
    | error e => exact ⟨e, rfl⟩
    | ok i =>
      apply ih
      intro others
      apply h
      intro fragment' hfragment
      rcases List.mem_cons.mp hfragment with rfl | hfragment
      · rw [index]
        rfl
      · exact others fragment' hfragment

theorem getLast?_filterMap_concat {α β : Type} (f : α → Option β) (xs : List α) (x : α) :
  ((xs ++ [x]).filterMap f).getLast? = (f x).or (xs.filterMap f).getLast?
  := by
  rw [List.filterMap_append]
  cases value : f x with
  | none => rw [List.filterMap_cons_none value, List.filterMap_nil, List.append_nil, Option.none_or]
  | some y =>
    rw [List.filterMap_cons_some value, List.filterMap_nil, List.getLast?_concat, Option.some_or]

/-- What a fragment changes about a call that is put together. -/
theorem fill_assembled (fragments : List Members) (fragment : Members) :
  p.fill (p.assembled fragments) fragment = p.assembled (fragments ++ [fragment])
  := by
  have last (f : Members → Option Value) :
      (((fragments ++ [fragment]).filterMap f).getLast?.map p.shown).getD [] =
        ((f fragment).map p.shown).getD
          (((fragments.filterMap f).getLast?.map p.shown).getD []) := by
    rw [getLast?_filterMap_concat]
    cases f fragment
    all_goals rfl
  have all : (fragments ++ [fragment]).flatMap argumentsOf =
      fragments.flatMap argumentsOf ++ argumentsOf fragment := by
    rw [List.flatMap_append, List.flatMap_singleton]
  unfold assembled
  rw [last, last, all]
  unfold fill nameOf argumentsOf functionOf
  cases trueValue fragment "id"
  all_goals
    cases member fragment "function" with
    | none => simp
    | some function =>
      cases function
      case dict function =>
        dsimp only [asDict, Option.bind_some]
        cases trueValue function "name"
        all_goals
          rcases member function "arguments" with _ | arguments
          · simp
          · cases arguments
            all_goals simp
      all_goals simp [asDict]

theorem foldl_fill (fragments : List Members) :
  fragments.foldl p.fill {} = p.assembled fragments
  := by
  induction fragments using List.reverseRecOn with
  | nil => rfl
  | append_singleton fragments fragment ih =>
    rw [List.foldl_append, ih]
    apply fill_assembled

/-- Fragments are accumulated to the calls by their indices. -/
theorem map_snd_grouped {fragments : List Members}
    (h : ∀ fragment ∈ fragments, (p.index fragment).isOk) :
  (p.grouped fragments).map Prod.snd = p.assembledCalls fragments
  := by
  have indices : fragments.filterMap (fun fragment => (p.index fragment).toOption) =
      fragments.map p.indexOf := by
    rw [← List.filterMap_eq_map]
    apply List.filterMap_congr
    intro fragment hfragment
    rw [p.index_eq_ok (h fragment hfragment)]
    rfl
  unfold grouped assembledCalls
  rw [Dict.foldl_set, List.map_map, indices]
  apply List.map_congr_left
  intro i _
  have same : fragments.filter (fun fragment => p.index fragment = .ok i) =
      fragments.filter fun fragment => p.indexOf fragment = i := by
    apply List.filter_congr
    intro fragment hfragment
    rw [p.index_eq_ok (h fragment hfragment), decide_eq_decide, Except.ok.injEq]
  rw [same]
  apply foldl_fill

/-! ### The loop -/

/-- What the variables are after some events. -/
structure Reached (s : ParserState) (events : List Members) : Prop where
  toolCalls : s.toolCalls = p.grouped (received events)
  indices : ∀ fragment ∈ received events, (p.index fragment).isOk
  usage : s.usage = lastUsage events
  finishReason : s.finishReason = p.lastFinishReason events

variable {p} in
theorem Reached.readEvent {s : ParserState} {events : List Members} (h : p.Reached s events)
    {event : Members} (indices : ∀ fragment ∈ fragments event, (p.index fragment).isOk) :
  ∃ s', p.readEvent s event = ((content event).toList.map .text, .ok s') ∧
    p.Reached s' (events ++ [event])
  := by
  have received_concat : received (events ++ [event]) = received events ++ fragments event := by
    unfold received
    rw [List.flatMap_append, List.flatMap_singleton]
  dsimp only [StreamParser.readEvent]
  rw [h.toolCalls, p.accumulate_eq_ok indices, ← received_concat]
  refine ⟨_, rfl, ?_⟩
  constructor
  · rfl
  · intro fragment hfragment
    rw [received_concat] at hfragment
    rcases List.mem_append.mp hfragment with earlier | new
    · exact h.indices fragment earlier
    · exact indices fragment new
  · unfold lastUsage
    rw [getLast?_filterMap_concat]
    rw [← lastUsage, ← h.usage]
  · unfold lastFinishReason
    rw [getLast?_filterMap_concat]
    rw [← lastFinishReason, ← h.finishReason]

section Lines

variable {raw : Text} (lines : List Text)

theorem events_finished (h : (p.readLine raw).isFinished = true) :
  p.events (raw :: lines) = []
  := by
  unfold events heard
  rw [List.takeWhile_cons, h]
  rfl

theorem completed_finished (h : (p.readLine raw).isFinished = true) :
  p.completed (raw :: lines) = true
  := by
  unfold completed
  rw [List.any_cons, h, Bool.true_or]

theorem heard_cons (h : (p.readLine raw).isFinished = false) :
  p.heard (raw :: lines) = raw :: p.heard lines
  := by
  unfold heard
  rw [List.takeWhile_cons, h]
  rfl

theorem events_cons (h : (p.readLine raw).isFinished = false) :
  p.events (raw :: lines) = (p.readLine raw).event?.toList ++ p.events lines
  := by
  unfold events
  rw [p.heard_cons lines h]
  cases event : (p.readLine raw).event? with
  | none =>
    rw [List.filterMap_cons, event]
    rfl
  | some e =>
    rw [List.filterMap_cons, event]
    rfl

theorem completed_cons (h : (p.readLine raw).isFinished = false) :
  p.completed (raw :: lines) = p.completed lines
  := by
  unfold completed
  rw [List.any_cons, h, Bool.false_or]

theorem legible_cons (h : (p.readLine raw).isFinished = false) :
  p.Legible (raw :: lines) ↔
    (∀ e, p.readLine raw ≠ .failed e) ∧
    (∀ event ∈ (p.readLine raw).event?, ∀ fragment ∈ fragments event, (p.index fragment).isOk) ∧
    p.Legible lines
  := by
  have split : ∀ fragment, fragment ∈ received (p.events (raw :: lines)) ↔
      (∃ event ∈ (p.readLine raw).event?, fragment ∈ fragments event) ∨
        fragment ∈ received (p.events lines) := by
    intro fragment
    unfold received
    rw [p.events_cons lines h, List.flatMap_append, List.mem_append, List.mem_flatMap]
    simp only [Option.mem_toList, Option.mem_def]
  constructor
  · rintro ⟨read, indices⟩
    rw [p.heard_cons lines h] at read
    refine ⟨read raw List.mem_cons_self, ?_, ?_, ?_⟩
    · intro event hevent fragment hfragment
      exact indices fragment ((split fragment).mpr (.inl ⟨event, hevent, hfragment⟩))
    · exact fun line hline => read line (List.mem_cons_of_mem raw hline)
    · exact fun fragment hfragment => indices fragment ((split fragment).mpr (.inr hfragment))
  · rintro ⟨read, indices, others⟩
    constructor
    · intro line hline
      rw [p.heard_cons lines h] at hline
      rcases List.mem_cons.mp hline with rfl | hline
      · exact read
      · exact others.read line hline
    · intro fragment hfragment
      rcases (split fragment).mp hfragment with ⟨event, hevent, hfragment⟩ | hfragment
      · exact indices event hevent fragment hfragment
      · exact others.indices fragment hfragment

end Lines

/-- A run over legible lines: the texts of the events, and what follows the loop. -/
theorem parseFrom_of_legible {s : ParserState} {events : List Members}
    (reached : p.Reached s events) {lines : List Text} (h : p.Legible lines) :
  ∃ s', p.Reached s' (events ++ p.events lines) ∧
    p.parseFrom s lines =
      ⟨((p.events lines).filterMap content).map .text ++
          (p.finish s' (p.completed lines)).deltas,
        (p.finish s' (p.completed lines)).raised⟩
  := by
  induction lines generalizing s events with
  | nil =>
    have none : p.events [] = [] := rfl
    rw [none, List.append_nil]
    exact ⟨s, reached, rfl⟩
  | cons raw lines ih =>
    rw [parseFrom]
    cases line : p.readLine raw with
    | finished =>
      have finished : (p.readLine raw).isFinished = true := by rw [line]; rfl
      rw [p.events_finished lines finished, p.completed_finished lines finished, List.append_nil]
      exact ⟨s, reached, rfl⟩
    | failed e =>
      have unfinished : (p.readLine raw).isFinished = false := by rw [line]; rfl
      exact absurd line (((p.legible_cons lines unfinished).mp h).1 e)
    | ignored =>
      have unfinished : (p.readLine raw).isFinished = false := by rw [line]; rfl
      obtain ⟨-, -, others⟩ := (p.legible_cons lines unfinished).mp h
      rw [p.events_cons lines unfinished, p.completed_cons lines unfinished, line]
      exact ih reached others
    | event event =>
      have unfinished : (p.readLine raw).isFinished = false := by rw [line]; rfl
      obtain ⟨-, indices, others⟩ := (p.legible_cons lines unfinished).mp h
      rw [line] at indices
      obtain ⟨s', read, reached'⟩ := reached.readEvent (indices event rfl)
      obtain ⟨s'', reached'', run⟩ := ih reached' others
      rw [p.events_cons lines unfinished, p.completed_cons lines unfinished, line]
      refine ⟨s'', ?_, ?_⟩
      · rw [List.append_assoc] at reached''
        exact reached''
      · dsimp only
        rw [read]
        dsimp only
        rw [run]
        dsimp only [StreamLine.event?, Option.toList_some]
        rw [List.filterMap_append, List.map_append, List.append_assoc]
        congr 2

theorem readLine_failed {raw : Text} {e : Exn} (h : p.readLine raw = .failed e) :
  e = .other "RecursionError"
  := by
  dsimp only [readLine] at h
  split_ifs at h
  split at h
  · cases h
  · cases h
    rfl
  · cases h
  · cases h

theorem exn_ne_interrupted (e : ConversionError) :
  e.exn ≠ p.interrupted
  := by
  cases e
  all_goals nofun

/-- A run over other lines raises something else. -/
theorem parseFrom_of_not_legible {s : ParserState} {lines : List Text} (h : ¬ p.Legible lines) :
  ∃ e, (p.parseFrom s lines).raised = some e ∧ e ≠ p.interrupted
  := by
  induction lines generalizing s with
  | nil => exact absurd ⟨nofun, nofun⟩ h
  | cons raw lines ih =>
    rw [parseFrom]
    cases line : p.readLine raw with
    | finished =>
      have finished : (p.readLine raw).isFinished = true := by rw [line]; rfl
      apply absurd _ h
      constructor
      · unfold heard
        rw [List.takeWhile_cons, finished]
        nofun
      · rw [p.events_finished lines finished]
        nofun
    | failed e =>
      refine ⟨e, rfl, ?_⟩
      rw [p.readLine_failed line]
      nofun
    | ignored =>
      have unfinished : (p.readLine raw).isFinished = false := by rw [line]; rfl
      apply ih
      intro others
      apply h
      rw [p.legible_cons lines unfinished, line]
      exact ⟨nofun, nofun, others⟩
    | event event =>
      have unfinished : (p.readLine raw).isFinished = false := by rw [line]; rfl
      dsimp only [readEvent]
      cases accumulated : p.accumulate s.toolCalls (fragments event) with
      | error e => exact ⟨e.exn, rfl, p.exn_ne_interrupted e⟩
      | ok sink =>
        have indices : ∀ fragment ∈ fragments event, (p.index fragment).isOk := by
          by_contra bad
          obtain ⟨e, error⟩ := p.accumulate_eq_error s.toolCalls bad
          rw [accumulated] at error
          cases error
        apply ih
        intro others
        apply h
        rw [p.legible_cons lines unfinished, line]
        refine ⟨nofun, ?_, others⟩
        rintro _ ⟨⟩
        exact indices

/-! ### Whole runs -/

/-- The deltas of the calls that are accumulated. -/
def callDeltas (calls : List ToolCall) : List ParsedDelta :=
  calls.map fun call => .toolCall call.id call.name call.arguments

section Finish

variable {p} {s : ParserState} {completed : Bool}

theorem finish_interrupted (h : ¬(completed ∨ s.finishReason.isSome)) :
  p.finish s completed = ⟨[], some p.interrupted⟩
  := by
  obtain ⟨incomplete, none⟩ := not_or.mp h
  have branch : (!completed && s.finishReason.isNone) = true := by
    rw [Bool.eq_false_iff.mpr incomplete, Option.not_isSome_iff_eq_none.mp none]
    rfl
  exact if_pos branch

theorem branch_of_ended (h : completed ∨ s.finishReason.isSome) :
  ¬(!completed && s.finishReason.isNone) = true
  := by
  rcases h with h | h
  · rw [h]
    nofun
  · obtain ⟨reason, some⟩ := Option.isSome_iff_exists.mp h
    rw [some, Option.isNone_some, Bool.and_false]
    nofun

theorem finish_error (h : completed ∨ s.finishReason.isSome) {usage : Members}
    (used : s.usage = some usage) {e : ConversionError} (error : p.counts usage = .error e) :
  (p.finish s completed).raised = some e.exn
  := by
  unfold finish
  rw [if_neg (branch_of_ended h), used]
  dsimp only
  rw [error]

theorem finish_ended (h : completed ∨ s.finishReason.isSome)
    (usage : ∀ usage ∈ s.usage, (p.counts usage).isOk) :
  ∃ reported : List (ℤ × ℤ), reported.map .ok = s.usage.toList.map p.counts ∧
    p.finish s completed =
      ⟨callDeltas (s.toolCalls.map Prod.snd) ++
        reported.map (fun n => .usage n.1 n.2 s.model p.vendor) ++ [.done (doneReason s)], none⟩
  := by
  have calls : s.toolCalls.map (fun (_, call) => .toolCall call.id call.name call.arguments) =
      callDeltas (s.toolCalls.map Prod.snd) := by
    rw [callDeltas, List.map_map]
    rfl
  unfold finish
  rw [if_neg (branch_of_ended h)]
  cases used : s.usage with
  | none =>
    refine ⟨[], rfl, ?_⟩
    dsimp only
    rw [calls, List.map_nil, List.append_nil]
  | some members =>
    cases counted : p.counts members with
    | error e =>
      have ok := usage members used
      rw [counted] at ok
      cases ok
    | ok n =>
      refine ⟨[n], ?_, ?_⟩
      · rw [Option.toList_some, List.map_singleton, List.map_singleton, counted]
      · dsimp only
        rw [calls, counted, List.append_assoc]
        rfl

end Finish

theorem reached_start :
  p.Reached {} []
  where
  toolCalls := rfl
  indices := nofun
  usage := rfl
  finishReason := rfl

section Parts

variable (texts : List Str) (calls : List ToolCall) (reported : List (ℤ × ℤ)) (model reason : Str)
  (vendor : String)

/-- What is yielded by a run that raises nothing. -/
def allDeltas : List ParsedDelta :=
  texts.map .text ++
    (callDeltas calls ++ reported.map (fun n => .usage n.1 n.2 model vendor) ++ [.done reason])

theorem text?_text :
  (texts.map ParsedDelta.text).filterMap ParsedDelta.text? = texts
  := by
  rw [List.filterMap_map]
  exact List.filterMap_some

theorem text?_allDeltas :
  (allDeltas texts calls reported model reason vendor).filterMap ParsedDelta.text? = texts
  := by
  simp [allDeltas, callDeltas, List.filterMap_map, Function.comp_def, ParsedDelta.text?]

theorem toolCall?_allDeltas :
  (allDeltas texts calls reported model reason vendor).filterMap ParsedDelta.toolCall? = calls
  := by
  simp [allDeltas, callDeltas, List.filterMap_map, Function.comp_def, ParsedDelta.toolCall?]

theorem counts?_allDeltas :
  (allDeltas texts calls reported model reason vendor).filterMap ParsedDelta.counts? = reported
  := by
  simp [allDeltas, callDeltas, List.filterMap_map, Function.comp_def, ParsedDelta.counts?]

end Parts

/-- The parser is faithful to the lines if and only if all of them can be converted. -/
theorem faithful_iff (lines : List Text) :
  p.Faithful lines ↔ p.Convertible lines
  := by
  constructor
  · intro h
    have legible : p.Legible lines := by
      by_contra illegible
      obtain ⟨e, raised, other⟩ := p.parseFrom_of_not_legible (s := {}) illegible
      exact other (h.raised e raised)
    refine ⟨legible, ?_⟩
    intro ended usage used
    obtain ⟨s, reached, run⟩ := p.parseFrom_of_legible p.reached_start legible
    rw [List.nil_append] at reached
    unfold Ended at ended
    rw [← reached.finishReason] at ended
    rw [← reached.usage] at used
    cases counted : p.counts usage with
    | ok n => rfl
    | error e =>
      have raised := h.raised e.exn
      rw [parseStream, run] at raised
      exact absurd (raised (finish_error ended used counted)) (p.exn_ne_interrupted e)
  · intro h
    obtain ⟨s, reached, run⟩ := p.parseFrom_of_legible p.reached_start h.toLegible
    rw [List.nil_append] at reached
    rw [← parseStream] at run
    by_cases ended : p.completed lines ∨ s.finishReason.isSome
    · have counts : ∀ usage ∈ s.usage, (p.counts usage).isOk := by
        rw [reached.finishReason] at ended
        rw [reached.usage]
        exact h.counts ended
      obtain ⟨reported, counted, finish⟩ := finish_ended ended counts
      rw [finish] at run
      constructor
      · rw [run]
        apply text?_allDeltas
      · rw [run]
        nofun
      · intro _
        rw [run, ← p.map_snd_grouped reached.indices, ← reached.toolCalls]
        apply toolCall?_allDeltas
      · intro _
        rw [run, ← reached.usage, ← counted]
        congr 1
        apply counts?_allDeltas
    · rw [finish_interrupted ended] at run
      constructor
      · rw [run, List.append_nil]
        apply text?_text
      · rw [run]
        rintro _ ⟨⟩
        rfl
      · rw [run]
        nofun
      · rw [run]
        nofun

end StreamParser

/-- A parser of a provider without a name. -/
def namelessParser : StreamParser where
  vendor := ""
  depth := 1000
  int := fun _ => none
  repr := fun _ => []

/-- A fragment of a tool call whose index is null. -/
def nullIndexLine : Text :=
  "data: \x7b\"choices\":[\x7b\"delta\":\x7b\"tool_calls\":[\x7b\"index\":null\x7d]\x7d\x7d]\x7d".toList

/-- A null index raises a `TypeError`. -/
theorem not_faithful_nullIndex :
  ¬ ∀ (p : StreamParser) (lines : List Text), p.Faithful lines
  := by
  intro h
  have raised : (namelessParser.parseStream [nullIndexLine]).raised =
      some (.other "TypeError") := by
    decide +kernel
  have same := (h namelessParser [nullIndexLine]).raised _ raised
  cases same

end Lumina.Gateway
