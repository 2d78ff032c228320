import Lumina.Sse.Buffer
import Lumina.Sse.Parser

/-!
# Events on the wire

`format_event` writes an event as three lines and a blank one, and `format_heartbeat` a comment.
The parser of the browser returns the events that have been sent, in order, if their types are
lines that are not empty and the integers of their data are numbers of JavaScript.
-/

namespace Lumina.Sse

open Json Unicode

/-- The events of the streams: their data are the members of a dictionary. -/
abbrev Event := StreamEvent (List (String × Value))

section

variable (floatRepr : Binary64 → List Char)

/-- `format_event`. -/
def formatEvent (e : Event) : List Char :=
  "id: ".toList ++ (toString e.seq).toList ++ "\nevent: ".toList ++ e.type.toList ++
    "\ndata: ".toList ++ dumps floatRepr (.dict e.data) ++ "\n\n".toList

/-- `format_heartbeat`. -/
def formatHeartbeat : List Char :=
  ": heartbeat\n\n".toList

/-- What the server sends: an event of the buffer, or a heartbeat. -/
inductive Frame where
  | event (e : Event)
  | heartbeat

/-- The text of a frame. -/
def Frame.format : Frame → List Char
  | event e => formatEvent floatRepr e
  | heartbeat => formatHeartbeat

/-- The bytes of a stream. -/
def streamBytes (frames : List Frame) : List ℕ :=
  encodeUtf8 (frames.flatMap (·.format floatRepr))

end

/-- An event that the browser receives, in JavaScript. -/
def SseEvent.wire (e : SseEvent (List (String × Value))) : WireEvent where
  id := e.id.map js
  type := js e.type
  data := (Value.dict e.data).toJs

/-- What the browser is to receive of a frame. -/
def Frame.received : Frame → Option WireEvent
  | event e => some e.sent.wire
  | heartbeat => none

/-- An event that comes through as it is. -/
structure Transmissible (floatRepr : Binary64 → List Char) (e : Event) : Prop where
  type_ne : e.type ≠ ""
  type_line : OneLine e.type.toList
  data : Readable floatRepr (.dict e.data)

/-! ### Lines -/

/-- A line of a frame, as code units. -/
def IsLine (line : JsString) : Prop :=
  line ≠ [] ∧ ∀ u ∈ line, u ≠ '\n'.toNat ∧ u ≠ '\r'.toNat

/-- A pattern does not begin in a string without its first code unit. -/
theorem indexOf_skip {u : ℕ} {pattern s : JsString} (h : ∀ v ∈ s, v ≠ u) (t : JsString) :
  indexOf (u :: pattern) (s ++ t) = (indexOf (u :: pattern) t).map (· + s.length)
  := by
  induction s with
  | nil =>
    cases hindex : indexOf (u :: pattern) t with
    | none =>
      rw [List.nil_append, hindex]
      rfl
    | some i =>
      rw [List.nil_append, hindex]
      rfl
  | cons v s ih =>
    have other : v ≠ u := h v List.mem_cons_self
    have absent : (u :: pattern).isPrefixOf (v :: (s ++ t)) = false := by
      rw [List.isPrefixOf, beq_false_of_ne (Ne.symm other), Bool.false_and]
    rw [List.cons_append, indexOf, absent, if_neg Bool.false_ne_true,
      ih fun w hw => h w (List.mem_cons_of_mem v hw)]
    cases indexOf (u :: pattern) t with
    | none => rfl
    | some i =>
      simp only [Option.map_some, List.length_cons]
      congr 1

theorem indexOf_self {u : ℕ} {pattern s : JsString} :
  indexOf (u :: pattern) (u :: pattern ++ s) = some 0
  := by
  rw [List.cons_append, indexOf, if_pos]
  apply List.isPrefixOf_iff_prefix.mpr
  exact ⟨s, rfl⟩

/-- A line, its end and another line: no blank line is among them. -/
theorem findLf_line {line next : JsString} (hline : IsLine line) (hnext : IsLine next)
    (s : JsString) :
  indexOf (js "\n\n") (line ++ '\n'.toNat :: (next ++ s)) =
    (indexOf (js "\n\n") (next ++ s)).map (· + (line.length + 1))
  := by
  obtain ⟨u, next, rfl⟩ := List.exists_cons_of_ne_nil hnext.1
  have first : u ≠ '\n'.toNat := (hnext.2 u List.mem_cons_self).1
  have absent : (js "\n\n").isPrefixOf ('\n'.toNat :: (u :: next ++ s)) = false := by
    change ('\n'.toNat == '\n'.toNat && (['\n'.toNat].isPrefixOf (u :: (next ++ s)))) = false
    rw [beq_self_eq_true, Bool.true_and, List.isPrefixOf, beq_false_of_ne (Ne.symm first),
      Bool.false_and]
  change indexOf ('\n'.toNat :: ['\n'.toNat]) _ = _
  rw [indexOf_skip fun v hv => (hline.2 v hv).1]
  change (indexOf (js "\n\n") ('\n'.toNat :: (u :: next ++ s))).map _ = _
  rw [indexOf, absent, if_neg Bool.false_ne_true, Option.map_map]
  congr 1
  funext i
  change i + 1 + line.length = i + (line.length + 1)
  omega

/-- The lines of a frame. -/
def joined : List JsString → JsString
  | [] => []
  | [line] => line
  | line :: next :: lines => line ++ '\n'.toNat :: joined (next :: lines)

theorem joined_head (line : JsString) (lines : List JsString) :
  ∃ s, joined (line :: lines) = line ++ s
  := by
  cases lines with
  | nil => exact ⟨[], (List.append_nil _).symm⟩
  | cons next lines => exact ⟨_, rfl⟩

/-- A frame ends at the first blank line. -/
theorem findLf_joined {lines : List JsString} (ne : lines ≠ []) (h : ∀ l ∈ lines, IsLine l)
    (s : JsString) :
  indexOf (js "\n\n") (joined lines ++ '\n'.toNat :: '\n'.toNat :: s) = some (joined lines).length
  := by
  induction lines with
  | nil => exact absurd rfl ne
  | cons line lines ih =>
    have hline := h line List.mem_cons_self
    cases lines with
    | nil =>
      change indexOf ('\n'.toNat :: ['\n'.toNat]) (line ++ ('\n'.toNat :: ['\n'.toNat] ++ s)) = _
      rw [indexOf_skip fun v hv => (hline.2 v hv).1, indexOf_self, Option.map_some, zero_add]
      rfl
    | cons next lines =>
      have rest := ih (List.cons_ne_nil _ _) fun l hl => h l (List.mem_cons_of_mem line hl)
      obtain ⟨more, hmore⟩ := joined_head next lines
      have hnext := h next (List.mem_cons_of_mem _ List.mem_cons_self)
      rw [joined, List.append_assoc, List.cons_append, hmore, List.append_assoc,
        findLf_line hline hnext, ← List.append_assoc, ← hmore, rest, Option.map_some,
        List.length_append, List.length_cons]
      congr 1
      omega

theorem not_carriageReturn_joined {lines : List JsString} (h : ∀ l ∈ lines, IsLine l) :
  ∀ u ∈ joined lines, u ≠ '\r'.toNat
  := by
  induction lines with
  | nil => nofun
  | cons line lines ih =>
    have hline := h line List.mem_cons_self
    cases lines with
    | nil => exact fun u hu => (hline.2 u hu).2
    | cons next lines =>
      intro u hu
      rw [joined] at hu
      obtain hu | hu := List.mem_append.mp hu
      · exact (hline.2 u hu).2
      · obtain rfl | hu := List.mem_cons.mp hu
        · decide
        · apply ih (fun l hl => h l (List.mem_cons_of_mem line hl)) u hu

theorem findBoundary_joined {lines : List JsString} (ne : lines ≠ []) (h : ∀ l ∈ lines, IsLine l)
    (s : JsString) :
  findBoundary (joined lines ++ '\n'.toNat :: '\n'.toNat :: s) = some ((joined lines).length, 2)
  := by
  have blank : joined lines ++ '\n'.toNat :: '\n'.toNat :: s =
      (joined lines ++ ['\n'.toNat, '\n'.toNat]) ++ s := by
    rw [List.append_assoc]
    rfl
  have later : indexOf (js "\r\n\r\n") (joined lines ++ '\n'.toNat :: '\n'.toNat :: s) =
      (indexOf (js "\r\n\r\n") s).map
        (· + (joined lines ++ ['\n'.toNat, '\n'.toNat]).length) := by
    rw [blank]
    apply indexOf_skip
    intro u hu
    obtain hu | hu := List.mem_append.mp hu
    · apply not_carriageReturn_joined h u hu
    · simp only [List.mem_cons, List.not_mem_nil, or_false] at hu
      rcases hu with rfl | rfl
      all_goals decide
  unfold findBoundary
  rw [findLf_joined ne h, later]
  cases indexOf (js "\r\n\r\n") s with
  | none => rfl
  | some i =>
    dsimp only [Option.map_some]
    rw [List.length_append, if_neg (by omega)]

/-- The frame comes out of the buffer. -/
theorem drain_joined {lines : List JsString} (ne : lines ≠ []) (h : ∀ l ∈ lines, IsLine l)
    (s : JsString) :
  drain (joined lines ++ '\n'.toNat :: '\n'.toNat :: s) =
    (joined lines :: (drain s).1, (drain s).2)
  := by
  have rest : (joined lines ++ '\n'.toNat :: '\n'.toNat :: s).drop ((joined lines).length + 2) =
      s := by
    rw [← List.drop_drop, List.drop_left]
    rfl
  rw [drain_of_some (findBoundary_joined ne h s), rest, List.take_left]

theorem splitLines_line {line : JsString} (h : ∀ u ∈ line, u ≠ '\n'.toNat ∧ u ≠ '\r'.toNat)
    (s : JsString) :
  splitLines (line ++ '\n'.toNat :: s) = line :: splitLines s
  := by
  induction line with
  | nil =>
    cases s with
    | nil => rfl
    | cons v s => rw [List.nil_append, splitLines, if_pos rfl]
  | cons u line ih =>
    have rest := ih fun v hv => h v (List.mem_cons_of_mem u hv)
    obtain ⟨notLf, notCr⟩ := h u List.mem_cons_self
    obtain ⟨v, t, ht⟩ : ∃ v t, line ++ '\n'.toNat :: s = v :: t := by
      apply List.exists_cons_of_ne_nil
      intro empty
      cases (List.append_eq_nil_iff.mp empty).2
    rw [List.cons_append, ht, splitLines, if_neg notLf, if_neg fun both => notCr both.1, ← ht, rest]
    rfl

theorem splitLines_last {line : JsString} (h : ∀ u ∈ line, u ≠ '\n'.toNat ∧ u ≠ '\r'.toNat) :
  splitLines line = [line]
  := by
  induction line with
  | nil => rfl
  | cons u line ih =>
    have rest := ih fun v hv => h v (List.mem_cons_of_mem u hv)
    obtain ⟨notLf, notCr⟩ := h u List.mem_cons_self
    cases line with
    | nil => rw [splitLines, if_neg notLf]
    | cons v line =>
      rw [splitLines, if_neg notLf, if_neg fun both => notCr both.1, rest]
      rfl

theorem splitLines_joined {lines : List JsString} (ne : lines ≠ []) (h : ∀ l ∈ lines, IsLine l) :
  splitLines (joined lines) = lines
  := by
  induction lines with
  | nil => exact absurd rfl ne
  | cons line lines ih =>
    have hline := (h line List.mem_cons_self).2
    cases lines with
    | nil => apply splitLines_last hline
    | cons next lines =>
      rw [joined, splitLines_line hline, ih (List.cons_ne_nil _ _)]
      exact fun l hl => h l (List.mem_cons_of_mem line hl)

/-! ### Fields -/

/-- A line with the name of a field, a colon, a space and a value. -/
theorem readLine_field (fields : Fields) {name : JsString} (ne : name ≠ [])
    (h : ∀ u ∈ name, u ≠ ':'.toNat) (value : JsString) :
  readLine fields (name ++ ':'.toNat :: ' '.toNat :: value) =
    if name = js "id" then { fields with id := some value }
    else if name = js "event" then { fields with type := value }
    else if name = js "data" then { fields with dataLines := fields.dataLines ++ [value] }
    else fields
  := by
  have separator : indexOf [':'.toNat] (name ++ ':'.toNat :: ' '.toNat :: value) =
      some name.length := by
    change indexOf (':'.toNat :: []) (name ++ (':'.toNat :: [] ++ ' '.toNat :: value)) = _
    rw [indexOf_skip h, indexOf_self, Option.map_some, zero_add]
  have begins : ¬(name ++ ':'.toNat :: ' '.toNat :: value = [] ∨
      (name ++ ':'.toNat :: ' '.toNat :: value).head? = some ':'.toNat) := by
    obtain ⟨u, name, rfl⟩ := List.exists_cons_of_ne_nil ne
    rintro (empty | comment)
    · cases empty
    · apply h u List.mem_cons_self
      apply Option.some.inj comment
  have rest : (name ++ ':'.toNat :: ' '.toNat :: value).drop (name.length + 1) =
      ' '.toNat :: value := by
    rw [← List.drop_drop, List.drop_left]
    rfl
  unfold readLine
  rw [if_neg begins, separator]
  dsimp only
  rw [List.take_left, rest]
  rfl

/-- The lines of an event. -/
def eventLines (floatRepr : Binary64 → List Char) (e : Event) : List JsString :=
  [js "id" ++ ':'.toNat :: ' '.toNat :: js (toString e.seq),
    js "event" ++ ':'.toNat :: ' '.toNat :: js e.type,
    js "data" ++ ':'.toNat :: ' '.toNat :: encodeUtf16 (dumps floatRepr (.dict e.data))]

section

variable {floatRepr : Binary64 → List Char}

theorem OneLine.units {text : List Char} (h : OneLine text) :
  ∀ u ∈ encodeUtf16 text, u ≠ '\n'.toNat ∧ u ≠ '\r'.toNat
  := by
  intro u hu
  constructor
  · rintro rfl
    obtain ⟨c, hc, same⟩ := mem_encodeUtf16 hu (by decide)
    apply (h c hc).1 (Char.toNat_inj.mp same)
  · rintro rfl
    obtain ⟨c, hc, same⟩ := mem_encodeUtf16 hu (by decide)
    apply (h c hc).2 (Char.toNat_inj.mp same)

theorem isLine_field {name : List Char} (hname : OneLine name) {text : List Char}
    (h : OneLine text) :
  IsLine (encodeUtf16 name ++ ':'.toNat :: ' '.toNat :: encodeUtf16 text)
  := by
  constructor
  · intro empty
    cases (List.append_eq_nil_iff.mp empty).2
  · have line : OneLine (name ++ ':' :: ' ' :: text) := by
      apply hname.append
      apply OneLine.cons (by decide)
      apply OneLine.cons (by decide) h
    have units := OneLine.units line
    rw [encodeUtf16_append] at units
    exact units

theorem oneLine_toString (n : ℕ) : OneLine (toString n).toList := by
  rw [Nat.toString_eq_ofList_toDigits, String.toList_ofList]
  apply oneLine_digits
  intro c hc
  apply Nat.isDigit_of_mem_toDigits (by decide) (by decide) hc

theorem eventLines_ne (e : Event) :
  eventLines floatRepr e ≠ []
  := List.cons_ne_nil _ _

theorem isLine_eventLines {e : Event} (h : Transmissible floatRepr e) :
  ∀ line ∈ eventLines floatRepr e, IsLine line
  := by
  intro line hline
  simp only [eventLines, List.mem_cons, List.not_mem_nil, or_false] at hline
  rcases hline with rfl | rfl | rfl
  · apply isLine_field (by decide) (oneLine_toString e.seq)
  · apply isLine_field (by decide) h.type_line
  · apply isLine_field (by decide) (oneLine_dumps _ h.data)

/-- The text of an event is its lines and a blank one. -/
theorem encodeUtf16_formatEvent (e : Event) (s : JsString) :
  encodeUtf16 (formatEvent floatRepr e) ++ s =
    joined (eventLines floatRepr e) ++ '\n'.toNat :: '\n'.toNat :: s
  := by
  unfold formatEvent
  simp only [encodeUtf16_append, List.append_assoc]
  simp only [eventLines, joined, List.append_assoc, List.cons_append]
  rfl

/-- The browser has the event that has been sent. -/
theorem parseFrame_eventLines {e : Event} (h : Transmissible floatRepr e) :
  parseFrame (joined (eventLines floatRepr e)) = some e.sent.wire
  := by
  have type : js e.type ≠ [] := by
    intro empty
    apply h.type_ne (js_injective empty)
  have fields : (eventLines floatRepr e).foldl readLine {} =
      { id := some (js (toString e.seq))
        type := js e.type
        dataLines := [encodeUtf16 (dumps floatRepr (.dict e.data))] } := by
    unfold eventLines
    rw [List.foldl_cons, List.foldl_cons, List.foldl_cons, List.foldl_nil]
    rw [readLine_field _ (by decide) (by decide), readLine_field _ (by decide) (by decide),
      readLine_field _ (by decide) (by decide)]
    rfl
  unfold parseFrame
  rw [splitLines_joined (eventLines_ne e) (isLine_eventLines h), fields]
  dsimp only
  rw [if_neg (List.cons_ne_nil _ _), if_neg type]
  have data : parse (List.intercalate (js "\n") [encodeUtf16 (dumps floatRepr (.dict e.data))]) =
      some (Value.dict e.data).toJs := by
    rw [List.intercalate_singleton]
    apply parse_dumps h.data
  rw [data]
  rfl

/-- The line of a heartbeat. -/
def heartbeatLine : JsString :=
  js ": heartbeat"

theorem parseFrame_heartbeatLine : parseFrame (joined [heartbeatLine]) = none := by
  decide

theorem encodeUtf16_formatHeartbeat (s : JsString) :
  encodeUtf16 formatHeartbeat ++ s = joined [heartbeatLine] ++ '\n'.toNat :: '\n'.toNat :: s
  := rfl

theorem isLine_heartbeatLine : IsLine heartbeatLine := by
  unfold IsLine
  decide

/-! ### A stream -/

/-- The frames of a stream are parsed one by one. -/
theorem parse_frames {frames : List Frame}
    (h : ∀ e, .event e ∈ frames → Transmissible floatRepr e) :
  (drain (encodeUtf16 (frames.flatMap (·.format floatRepr)))).1.filterMap parseFrame =
    frames.filterMap (·.received)
  := by
  induction frames with
  | nil => rfl
  | cons frame frames ih =>
    have rest := ih fun e he => h e (List.mem_cons_of_mem frame he)
    rw [List.flatMap_cons, encodeUtf16_append]
    cases frame with
    | event e =>
      have he := h e List.mem_cons_self
      change (drain (encodeUtf16 (formatEvent floatRepr e) ++ _)).1.filterMap parseFrame = _
      rw [encodeUtf16_formatEvent, drain_joined (eventLines_ne e) (isLine_eventLines he)]
      dsimp only
      rw [List.filterMap_cons, parseFrame_eventLines he, rest, List.filterMap_cons]
      rfl
    | heartbeat =>
      have lines : ∀ line ∈ [heartbeatLine], IsLine line := by
        intro line hline
        rw [List.mem_singleton.mp hline]
        apply isLine_heartbeatLine
      change (drain (encodeUtf16 formatHeartbeat ++ _)).1.filterMap parseFrame = _
      rw [encodeUtf16_formatHeartbeat, drain_joined (List.cons_ne_nil _ _) lines]
      dsimp only
      rw [List.filterMap_cons, parseFrame_heartbeatLine, rest, List.filterMap_cons]
      rfl

/-- No stream begins with a byte order mark. -/
theorem decode_streamBytes (frames : List Frame) :
  (TextDecoder.decode {} (streamBytes floatRepr frames)).2 =
    encodeUtf16 (frames.flatMap (·.format floatRepr))
  := by
  cases frames with
  | nil => rfl
  | cons frame frames =>
    obtain ⟨c, text, first, hc⟩ : ∃ c text, frame.format floatRepr = c :: text ∧
        c.toNat ≠ 0xFEFF := by
      cases frame with
      | event e => exact ⟨'i', _, rfl, by decide⟩
      | heartbeat => exact ⟨':', _, rfl, by decide⟩
    unfold streamBytes
    rw [List.flatMap_cons, first, List.cons_append, TextDecoder.decode_encodeUtf8_cons hc]

/-- Whatever the chunks are in which the bytes of a stream arrive, the browser receives the events
that have been sent, in order, and nothing else. -/
theorem parseSseStream_streamBytes {frames : List Frame}
    (h : ∀ e, .event e ∈ frames → Transmissible floatRepr e) {chunks : List (List ℕ)}
    (hchunks : chunks.flatten = streamBytes floatRepr frames) :
  parseSseStream chunks = frames.filterMap (·.received)
  := by
  rw [parseSseStream_eq, hchunks, decode_streamBytes, parse_frames h]

end

/-! ### Small streams -/

/-- The notation of zero. -/
def zeroRepr (_ : Binary64) : List Char :=
  ['0', '.', '0']

def zero : Binary64 where
  negative := false
  magnitude := 0
  representable := Binary64.representable_natCast (n := 0) (by norm_num)

theorem reads_zero : Reads (zeroRepr zero) (jsFloat zero) := by
  refine ⟨
    { negative := false
      whole := ['0']
      fraction := ['0']
      exponent := none
      whole_ne := by decide
      whole_digits := List.forall_mem_singleton.mpr rfl
      no_leading_zero := by decide
      fraction_digits := List.forall_mem_singleton.mpr rfl
      exponent_ne := by simp
      exponent_digits := by simp }, rfl, ?_⟩
  decide +kernel

/-- Some text with a line break, a number and a price. -/
def sampleEvent : Event where
  seq := 1
  type := "delta"
  data := [("text", .str "é\n\n😀"), ("tokens", .int 3), ("cost", .float zero)]

theorem transmissible_sampleEvent : Transmissible zeroRepr sampleEvent where
  type_ne := by decide
  type_line := by decide
  data :=
    { floats := by
        intro x hx
        simp only [sampleEvent, Value.parts, Value.partsOfMembers, List.mem_cons, List.mem_append,
          List.not_mem_nil, reduceCtorEq, Value.float.injEq, or_false, false_or] at hx
        rw [hx]
        apply reads_zero
      keys := by
        intro members hm
        simp only [sampleEvent, Value.parts, Value.partsOfMembers, List.mem_cons, List.mem_append,
          List.not_mem_nil, reduceCtorEq, Value.dict.injEq, or_false] at hm
        rw [hm]
        decide
      ints := by
        intro n hn
        simp only [sampleEvent, Value.parts, Value.partsOfMembers, List.mem_cons, List.mem_append,
          List.not_mem_nil, reduceCtorEq, Value.int.injEq, or_false, false_or] at hn
        rw [hn]
        apply Binary64.representable_natCast (by norm_num) }

/-- The bytes of an event and a heartbeat come one at a time. -/
theorem parseSseStream_streamBytes_sampleEvent :
  parseSseStream ((streamBytes zeroRepr [.event sampleEvent, .heartbeat]).map fun b => [b]) =
    [sampleEvent.sent.wire]
  := by
  have transmissible : ∀ e, .event e ∈ [Frame.event sampleEvent, .heartbeat] →
      Transmissible zeroRepr e := by
    intro e he
    simp only [List.mem_cons, Frame.event.injEq, reduceCtorEq, List.not_mem_nil, or_false] at he
    rw [he]
    apply transmissible_sampleEvent
  apply parseSseStream_streamBytes transmissible
  rw [← List.flatMap_def, List.flatMap_singleton']

/-- An event without a type. -/
def untypedEvent : Event where
  seq := 1
  type := ""
  data := []

/-- An event with the first integer that is not a number of JavaScript. -/
def largeEvent : Event where
  seq := 1
  type := "usage"
  data := [("n", .int (2 ^ 53 + 1))]

/-- The magnitude of the only member of the data. -/
def onlyMagnitude (e : WireEvent) : Option ℚ :=
  match e.data with
  | .object [(_, .number x)] => x.magnitude
  | _ => none

/-- The browser gives a type to an event without one, and rounds the integers that it cannot
represent. -/
theorem not_parseSseStream_streamBytes :
  (¬∀ floatRepr frames chunks,
    (∀ e, .event e ∈ frames → OneLine e.type.toList ∧ Readable floatRepr (.dict e.data)) →
    chunks.flatten = streamBytes floatRepr frames →
      parseSseStream chunks = frames.filterMap (·.received)) ∧
  ¬∀ floatRepr frames chunks,
    (∀ e, .event e ∈ frames →
      e.type ≠ "" ∧ OneLine e.type.toList ∧ Written floatRepr (.dict e.data)) →
    chunks.flatten = streamBytes floatRepr frames →
      parseSseStream chunks = frames.filterMap (·.received)
  := by
  constructor
  · have parsed : (parseSseStream [streamBytes zeroRepr [.event untypedEvent]]).map (·.type) =
        [js "message"] := by decide +kernel
    intro claim
    rw [claim zeroRepr [.event untypedEvent]] at parsed
    · cases parsed
    · intro e he
      simp only [List.mem_cons, Frame.event.injEq, List.not_mem_nil, or_false] at he
      rw [he]
      refine ⟨by decide, ⟨⟨?_, ?_⟩, ?_⟩⟩
      · intro x hx
        cases List.mem_singleton.mp hx
      · intro members hm
        cases List.mem_singleton.mp hm
        decide
      · intro n hn
        cases List.mem_singleton.mp hn
    · rw [List.flatten_singleton]
  · have parsed : (parseSseStream [streamBytes zeroRepr [.event largeEvent]]).map onlyMagnitude =
        [some (2 ^ 53)] := by decide +kernel
    intro claim
    rw [claim zeroRepr [.event largeEvent]] at parsed
    · revert parsed
      decide +kernel
    · intro e he
      simp only [List.mem_cons, Frame.event.injEq, List.not_mem_nil, or_false] at he
      rw [he]
      refine ⟨by decide, by decide, ⟨?_, ?_⟩⟩
      · intro x hx
        simp only [largeEvent, Value.parts, Value.partsOfMembers, List.mem_cons, List.mem_append,
          List.not_mem_nil, reduceCtorEq, or_false] at hx
      · intro members hm
        simp only [largeEvent, Value.parts, Value.partsOfMembers, List.mem_cons, List.mem_append,
          List.not_mem_nil, reduceCtorEq, Value.dict.injEq, or_false] at hm
        rw [hm]
        decide
    · rw [List.flatten_singleton]

end Lumina.Sse
