import Lumina.Library.JsonRoundTrip

/-!
# The parser of the browser

`parseSseStream` decodes the chunks as they come and keeps what is not yet a whole event.  An event
ends at a blank line, and its fields are lines.  The decoder and the buffer survive every cut: the
events do not depend on how the bytes have been cut into chunks.
-/

namespace Lumina.Sse

open Json Unicode

/-- `SseEvent`, an event as the browser has it. -/
structure WireEvent where
  id : Option JsString
  type : JsString
  data : JsValue

/-- `indexOf`, for a pattern that is not empty. -/
def indexOf (pattern : JsString) : JsString → Option ℕ
  | [] => none
  | u :: s => if pattern.isPrefixOf (u :: s) then some 0 else (indexOf pattern s).map (· + 1)

/-- The place of the first blank line and its length. -/
def findBoundary (buffer : JsString) : Option (ℕ × ℕ) :=
  let lf := indexOf (js "\n\n") buffer
  let crlf := indexOf (js "\r\n\r\n") buffer
  match crlf, lf with
  | none, none => none
  | none, some lf => some (lf, 2)
  | some crlf, none => some (crlf, 4)
  | some crlf, some lf => if crlf < lf then some (crlf, 4) else some (lf, 2)

/-! ### One event -/

/-- One more code unit at the beginning of the first line. -/
def consLine (u : ℕ) : List JsString → List JsString
  | [] => [[u]]
  | line :: lines => (u :: line) :: lines

/-- `split(/\r?\n/)`. -/
def splitLines : JsString → List JsString
  | [] => [[]]
  | [u] => if u = '\n'.toNat then [[], []] else [[u]]
  | u :: v :: s =>
      if u = '\n'.toNat then [] :: splitLines (v :: s)
      else if u = '\r'.toNat ∧ v = '\n'.toNat then [] :: splitLines s
      else consLine u (splitLines (v :: s))

/-- What the lines of an event have said so far. -/
structure Fields where
  id : Option JsString := none
  type : JsString := []
  dataLines : List JsString := []

/-- One line.  The lines that begin with a colon are comments, and a space after the colon does not
belong to the value. -/
def readLine (fields : Fields) (line : JsString) : Fields :=
  if line = [] ∨ line.head? = some ':'.toNat then fields
  else
    let (field, rawValue) :=
      match indexOf [':'.toNat] line with
      | none => (line, [])
      | some separator => (line.take separator, line.drop (separator + 1))
    let value := if rawValue.head? = some ' '.toNat then rawValue.tail else rawValue
    if field = js "id" then { fields with id := some value }
    else if field = js "event" then { fields with type := value }
    else if field = js "data" then { fields with dataLines := fields.dataLines ++ [value] }
    else fields

/-- The event of a frame, if it is one: it has data, and these are JSON. -/
def parseFrame (frame : JsString) : Option WireEvent :=
  let fields := (splitLines frame).foldl readLine {}
  if fields.dataLines = [] then none
  else
    (parse (List.intercalate (js "\n") fields.dataLines)).map fun data =>
      { id := fields.id
        type := if fields.type = [] then js "message" else fields.type
        data := data }

/-! ### The stream -/

/-- The whole frames in the buffer, at most `n` of them, and the rest. -/
def drainUpTo : (n : ℕ) → JsString → List JsString × JsString
  | 0, buffer => ([], buffer)
  | n + 1, buffer =>
      match findBoundary buffer with
      | none => ([], buffer)
      | some (index, length) =>
          let others := drainUpTo n (buffer.drop (index + length))
          (buffer.take index :: others.1, others.2)

/-- The whole frames in the buffer and the rest. -/
def drain (buffer : JsString) : List JsString × JsString :=
  drainUpTo buffer.length buffer

/-- The loop over the chunks; what is left in the buffer at the end is dropped. -/
def parseChunks (decoder : TextDecoder) (buffer : JsString) : List (List ℕ) → List WireEvent
  | [] => []
  | chunk :: chunks =>
      let decoded := decoder.decode chunk
      let drained := drain (buffer ++ decoded.2)
      drained.1.filterMap parseFrame ++ parseChunks decoded.1 drained.2 chunks

def parseSseStream (chunks : List (List ℕ)) : List WireEvent :=
  parseChunks {} [] chunks

/-! ### Where a frame ends -/

/-- The pattern is found where it begins, within the string. -/
theorem indexOf_bound {pattern s : JsString} {i : ℕ} (h : indexOf pattern s = some i) :
  i + pattern.length ≤ s.length
  := by
  induction s generalizing i with
  | nil => cases h
  | cons u s ih =>
    rw [indexOf] at h
    split at h
    next found =>
      cases h
      rw [zero_add]
      exact (List.isPrefixOf_iff_prefix.mp found).length_le
    next =>
      obtain ⟨j, hj, rfl⟩ := Option.map_eq_some_iff.mp h
      have bound := ih hj
      rw [List.length_cons]
      omega

/-- What has been found is found again when more comes after it. -/
theorem indexOf_append {pattern s : JsString} {i : ℕ} (h : indexOf pattern s = some i)
    (t : JsString) :
  indexOf pattern (s ++ t) = some i
  := by
  induction s generalizing i with
  | nil => cases h
  | cons u s ih =>
    rw [indexOf] at h
    rw [List.cons_append, indexOf]
    split at h
    next found =>
      cases h
      rw [if_pos]
      apply List.isPrefixOf_iff_prefix.mpr
      apply (List.isPrefixOf_iff_prefix.mp found).trans
      exact ⟨t, rfl⟩
    next absent =>
      obtain ⟨j, hj, rfl⟩ := Option.map_eq_some_iff.mp h
      rw [if_neg, ih hj]
      · rfl
      · intro found
        apply absent
        apply List.isPrefixOf_iff_prefix.mpr
        apply List.prefix_of_prefix_length_le (List.isPrefixOf_iff_prefix.mp found)
        · exact ⟨t, rfl⟩
        · have bound := indexOf_bound hj
          rw [List.length_cons]
          omega

/-- Found at an index, the pattern is there. -/
theorem prefix_of_indexOf {pattern s : JsString} {i : ℕ} (h : indexOf pattern s = some i) :
  pattern <+: s.drop i
  := by
  induction s generalizing i with
  | nil => cases h
  | cons u s ih =>
    rw [indexOf] at h
    split at h
    next found =>
      cases h
      apply List.isPrefixOf_iff_prefix.mp found
    next =>
      obtain ⟨j, hj, rfl⟩ := Option.map_eq_some_iff.mp h
      apply ih hj

/-- What has not been found, and is found when more comes after it, reaches into that. -/
theorem length_lt_of_indexOf_append {pattern s t : JsString} (ne : pattern ≠ [])
    (absent : indexOf pattern s = none) {i : ℕ} (found : indexOf pattern (s ++ t) = some i) :
  s.length < i + pattern.length
  := by
  induction s generalizing i with
  | nil =>
    have positive := List.length_pos_iff.mpr ne
    rw [List.length_nil]
    omega
  | cons u s ih =>
    rw [indexOf] at absent
    rw [List.cons_append, indexOf] at found
    split at absent
    next => cases absent
    next here =>
      split at found
      next there =>
        cases found
        rw [zero_add]
        by_contra short
        apply here
        apply List.isPrefixOf_iff_prefix.mpr
        apply List.prefix_of_prefix_length_le (List.isPrefixOf_iff_prefix.mp there)
        · exact ⟨t, rfl⟩
        · omega
      next =>
        obtain ⟨j, hj, rfl⟩ := Option.map_eq_some_iff.mp found
        have later := ih (Option.map_eq_none_iff.mp absent) hj
        rw [List.length_cons]
        omega

theorem findBoundary_bound {buffer : JsString} {index length : ℕ}
    (h : findBoundary buffer = some (index, length)) :
  0 < length ∧ index + length ≤ buffer.length
  := by
  have lfLength : (js "\n\n").length = 2 := rfl
  have crlfLength : (js "\r\n\r\n").length = 4 := rfl
  unfold findBoundary at h
  dsimp only at h
  split at h
  next => cases h
  next hlf =>
    cases h
    have bound := indexOf_bound hlf
    omega
  next hcrlf _ =>
    cases h
    have bound := indexOf_bound hcrlf
    omega
  next hcrlf hlf =>
    have bound := indexOf_bound hcrlf
    have bound' := indexOf_bound hlf
    split at h
    all_goals
      cases h
      omega

/-- The two kinds of blank lines do not overlap. -/
theorem not_overlapping {s : JsString} {i : ℕ} (crlf : js "\r\n\r\n" <+: s.drop i)
    (lf : js "\n\n" <+: s.drop (i + 1)) :
  False
  := by
  obtain ⟨t, ht⟩ := crlf
  rw [← List.drop_drop, ← ht] at lf
  obtain ⟨t', ht'⟩ := lf
  cases ht'

/-- A boundary stays where it is when more comes after it. -/
theorem findBoundary_append {buffer : JsString} {index length : ℕ}
    (h : findBoundary buffer = some (index, length)) (t : JsString) :
  findBoundary (buffer ++ t) = some (index, length)
  := by
  have lfLength : (js "\n\n").length = 2 := rfl
  have crlfLength : (js "\r\n\r\n").length = 4 := rfl
  unfold findBoundary at h ⊢
  dsimp only at h ⊢
  split at h
  next => cases h
  next lf hcrlf hlf =>
    cases h
    have bound := indexOf_bound hlf
    rw [indexOf_append hlf]
    cases hnew : indexOf (js "\r\n\r\n") (buffer ++ t) with
    | none => rfl
    | some crlf =>
      -- a longer blank line that ends in what has come cannot begin before the shorter one
      have late := length_lt_of_indexOf_append (by decide) hcrlf hnew
      dsimp only
      rw [if_neg]
      intro before
      have next : index = crlf + 1 := by omega
      apply not_overlapping (prefix_of_indexOf hnew)
      rw [← next]
      apply prefix_of_indexOf (indexOf_append hlf t)
  next crlf hcrlf hlf =>
    cases h
    have bound := indexOf_bound hcrlf
    rw [indexOf_append hcrlf]
    cases hnew : indexOf (js "\n\n") (buffer ++ t) with
    | none => rfl
    | some lf =>
      have late := length_lt_of_indexOf_append (by decide) hlf hnew
      dsimp only
      rw [if_pos (by omega)]
  next crlf lf hcrlf hlf =>
    rw [indexOf_append hcrlf, indexOf_append hlf]
    exact h

/-! ### The frames of a buffer -/

/-- More rounds than the length of the buffer change nothing. -/
theorem drainUpTo_eq {n m : ℕ} {buffer : JsString} (hn : buffer.length ≤ n)
    (hm : buffer.length ≤ m) :
  drainUpTo n buffer = drainUpTo m buffer
  := by
  induction n generalizing m buffer with
  | zero =>
    have empty : buffer = [] := List.length_eq_zero_iff.mp (Nat.le_zero.mp hn)
    subst empty
    cases m
    all_goals rfl
  | succ n ih =>
    cases m with
    | zero =>
      have empty : buffer = [] := List.length_eq_zero_iff.mp (Nat.le_zero.mp hm)
      subst empty
      rfl
    | succ m =>
      rw [drainUpTo, drainUpTo]
      split
      next => rfl
      next index length hboundary =>
        have bound := findBoundary_bound hboundary
        rw [ih]
        all_goals
          rw [List.length_drop]
          omega

theorem drain_of_none {buffer : JsString} (h : findBoundary buffer = none) :
  drain buffer = ([], buffer)
  := by
  unfold drain
  cases buffer with
  | nil => rfl
  | cons u s => rw [List.length_cons, drainUpTo, h]

theorem drain_of_some {buffer : JsString} {index length : ℕ}
    (h : findBoundary buffer = some (index, length)) :
  drain buffer =
    (buffer.take index :: (drain (buffer.drop (index + length))).1,
      (drain (buffer.drop (index + length))).2)
  := by
  have bound := findBoundary_bound h
  obtain ⟨n, hn⟩ : ∃ n, buffer.length = n + 1 := ⟨buffer.length - 1, by omega⟩
  unfold drain
  rw [hn, drainUpTo, h]
  dsimp only
  have rest : drainUpTo n (buffer.drop (index + length)) =
      drainUpTo (buffer.drop (index + length)).length (buffer.drop (index + length)) := by
    apply drainUpTo_eq _ (le_refl _)
    rw [List.length_drop]
    omega
  rw [rest]

/-- No whole frame is left. -/
theorem findBoundary_drain (buffer : JsString) :
  findBoundary (drain buffer).2 = none
  := by
  induction hn : buffer.length using Nat.strong_induction_on generalizing buffer with
  | _ n ih =>
    cases hboundary : findBoundary buffer with
    | none =>
      rw [drain_of_none hboundary]
      apply hboundary
    | some boundary =>
      have bound := findBoundary_bound hboundary
      rw [drain_of_some hboundary]
      apply ih (buffer.drop (boundary.1 + boundary.2)).length _ _ rfl
      rw [List.length_drop]
      omega

/-- The frames of a buffer, and those that more after it completes. -/
theorem drain_append (buffer t : JsString) :
  drain (buffer ++ t) =
    ((drain buffer).1 ++ (drain ((drain buffer).2 ++ t)).1, (drain ((drain buffer).2 ++ t)).2)
  := by
  induction hn : buffer.length using Nat.strong_induction_on generalizing buffer with
  | _ n ih =>
    cases hboundary : findBoundary buffer with
    | none =>
      rw [drain_of_none hboundary]
      rfl
    | some boundary =>
      have bound := findBoundary_bound hboundary
      have rest := ih (buffer.drop (boundary.1 + boundary.2)).length
        (by rw [List.length_drop]; omega) _ rfl
      rw [drain_of_some hboundary, drain_of_some (findBoundary_append hboundary t)]
      rw [List.take_append_of_le_length (by omega), List.drop_append_of_le_length (by omega), rest]
      rfl

/-! ### The cuts of a stream -/

theorem parseChunks_eq (decoder : TextDecoder) {buffer : JsString}
    (h : findBoundary buffer = none) (chunks : List (List ℕ)) :
  parseChunks decoder buffer chunks =
    (drain (buffer ++ (decoder.decode chunks.flatten).2)).1.filterMap parseFrame
  := by
  induction chunks generalizing decoder buffer with
  | nil =>
    change [] = (drain (buffer ++ [])).1.filterMap parseFrame
    rw [List.append_nil, drain_of_none h]
    rfl
  | cons chunk chunks ih =>
    rw [parseChunks, ih _ (findBoundary_drain _), List.flatten_cons, TextDecoder.decode_append]
    dsimp only
    rw [← List.append_assoc, drain_append (buffer ++ (decoder.decode chunk).2), List.filterMap_append]

/-- The events are those of the bytes, however these are cut. -/
theorem parseSseStream_eq (chunks : List (List ℕ)) :
  parseSseStream chunks =
    (drain (TextDecoder.decode {} chunks.flatten).2).1.filterMap parseFrame
  := by
  unfold parseSseStream
  rw [parseChunks_eq {} rfl]
  rfl

end Lumina.Sse
