import Lumina.Library.Scanning
import Lumina.Rag.Citation

/-!
# The citations of an answer on the screen

`renderAnswer` cuts an answer into text and citations.  Its pattern of a marker is written like that of
the backend, and it hides what follows the last `[c:` as long as no `]` comes after it, since it is
called for every piece of an answer that is still arriving.
-/

namespace Lumina.Frontend.Citations

open Etl (Text isSpace)
open Scanning (Pattern)

/-! ### Markers -/

/-- `\s` in JavaScript. -/
def isJsSpace (c : Char) : Bool :=
  let n := c.toNat
  (0x09 ≤ n && n ≤ 0x0D) || n = 0x20 || n = 0xA0 || n = 0x1680 || (0x2000 ≤ n && n ≤ 0x200A) ||
    n = 0x2028 || n = 0x2029 || n = 0x202F || n = 0x205F || n = 0x3000 || n = 0xFEFF

/-- What `\[c:([^\]\s]+)\]` captures at the beginning of a text, with one or the other white space. -/
def markerAt (space : Char → Bool) : Text → Option Text
  | '[' :: 'c' :: ':' :: text =>
      let marker := text.takeWhile fun c => c ≠ ']' && !space c
      if marker ≠ [] ∧ (text.drop marker.length).head? = some ']' then some marker else none
  | _ => none

/-- `_MARKER` of the backend. -/
theorem markerAt_isSpace : markerAt isSpace = Rag.markerAt := by
  funext text
  unfold markerAt Rag.markerAt
  rfl

/-- `PARTIAL_MARKER`. -/
def partialMarker : Text := ['[', 'c', ':']

theorem of_mem_partialMarker {c : Char} (hc : c ∈ partialMarker) :
  c ≠ ']' ∧ isSpace c = false ∧ isJsSpace c = false
  := by
  have marks : (partialMarker.all fun c => c != ']' && !isSpace c && !isJsSpace c) = true := rfl
  simpa [and_assoc] using List.all_eq_true.mp marks c hc

/-- A marker in an answer. -/
def written (marker : Text) : Text :=
  partialMarker ++ (marker ++ [']'])

theorem written_append (marker rest : Text) :
  written marker ++ rest = '[' :: 'c' :: ':' :: (marker ++ ']' :: rest)
  := by
  simp [written, partialMarker]

theorem markerAt_eq_some_iff {space : Char → Bool} {text marker : Text} :
  markerAt space text = some marker ↔
    marker ≠ [] ∧ (∀ c ∈ marker, c ≠ ']' ∧ space c = false) ∧ written marker <+: text
  := by
  constructor
  · intro h
    fun_cases markerAt space text with
    | case1 text captured found =>
      rw [markerAt.eq_1, if_pos found] at h
      obtain rfl := Option.some.inj h
      refine ⟨found.1, fun c hc => ?_, ?_⟩
      · have plain := List.mem_takeWhile_imp hc
        rw [Bool.and_eq_true, decide_eq_true_eq, Bool.not_eq_true'] at plain
        exact plain
      · obtain ⟨rest, after⟩ : ∃ rest, text.drop captured.length = ']' :: rest := by
          cases rest : text.drop captured.length with
          | nil =>
            rw [rest] at found
            cases found.2
          | cons c after =>
            rw [rest] at found
            exact ⟨after, by rw [Option.some.inj found.2]⟩
        have split : captured ++ ']' :: rest = text := by
          rw [← after]
          exact List.prefix_iff_eq_append.mp (List.takeWhile_prefix _)
        exact ⟨rest, by rw [written_append, split]⟩
    | case2 text captured found =>
      rw [markerAt.eq_1, if_neg found] at h
      cases h
    | case3 text other =>
      rw [markerAt.eq_2 _ _ fun rest same => other rest same] at h
      cases h
  · rintro ⟨some, plain, rest, rfl⟩
    have captured : (marker ++ ']' :: rest).takeWhile (fun c => c ≠ ']' && !space c) = marker := by
      rw [List.takeWhile_append_of_pos]
      · rw [List.takeWhile_cons_of_neg (by simp), List.append_nil]
      · intro c hc
        rw [Bool.and_eq_true, decide_eq_true_eq, Bool.not_eq_true']
        exact plain c hc
    rw [written_append, markerAt, captured, List.drop_left, if_pos ⟨some, rfl⟩]

/-- The pattern of a marker. -/
def pattern (space : Char → Bool) : Pattern Char Text where
  find := markerAt space
  spell := written
  sound h := (markerAt_eq_some_iff.mp h).2.2
  ne_nil _ := List.cons_ne_nil _ _

/-- The markers that the backend finds are those among the pieces of the answer. -/
theorem extractMarkers_eq (text : Text) :
  Rag.extractMarkers text = ((pattern isSpace).scan 0 text).filterMap Sum.getRight?
  := by
  have upTo (n : ℕ) (text : Text) (enough : text.length ≤ n) :
      Rag.markersUpTo n text = ((pattern isSpace).scan 0 text).filterMap Sum.getRight? := by
    induction n generalizing text with
    | zero =>
      obtain rfl := List.eq_nil_of_length_eq_zero (Nat.le_zero.mp enough)
      rfl
    | succ n ih =>
      cases text with
      | nil => rfl
      | cons c text =>
        rw [Rag.markersUpTo, ← markerAt_isSpace]
        cases found : markerAt isSpace (c :: text) with
        | none =>
          rw [Pattern.scan_of_none (P := pattern isSpace) found, List.filterMap_cons_none rfl]
          exact ih text (Nat.le_of_succ_le_succ enough)
        | some marker =>
          obtain ⟨rest, split⟩ := (markerAt_eq_some_iff.mp found).2.2
          have after : text = 'c' :: ':' :: (marker ++ ']' :: rest) := by
            rw [written_append] at split
            exact (List.cons.inj split).2.symm
          have behind : text.drop (marker.length + 3) = rest := by
            rw [after, List.drop_succ_cons, List.drop_succ_cons, ← List.drop_drop, List.drop_left]
            rfl
          rw [← split] at found
          have pieces : (pattern isSpace).scan 0 (written marker ++ rest) =
              .inr marker :: (pattern isSpace).scan 0 rest :=
            Pattern.scan_of_some (P := pattern isSpace) found
          have shorter : rest.length ≤ n := by
            rw [after] at enough
            simp only [List.length_cons, List.length_append] at enough
            omega
          rw [← split, pieces]
          change marker :: Rag.markersUpTo n (text.drop (marker.length + 3)) = _
          rw [behind, ih rest shorter]
          rfl
  exact upTo _ text le_rfl

/-! ### Rendering -/

/-- What `renderAnswer` reads of a citation; `doc_name` if it is a string. -/
structure CitationItem where
  marker : Option Text := none
  docName : Option Text := none
deriving DecidableEq

/-- A citation on the screen. -/
structure Reference where
  marker : Text
  index : ℕ
  docName : Text
deriving DecidableEq

/-- `AnswerSegment`. -/
inductive Segment where
  | text (text : Text)
  | citation (r : Reference)
deriving DecidableEq

/-- The place of the last occurrence. -/
def lastIndexOf (pattern : Text) : Text → Option ℕ
  | [] => if pattern = [] then some 0 else none
  | c :: text =>
      match lastIndexOf pattern text with
      | some i => some (i + 1)
      | none => if pattern <+: c :: text then some 0 else none

def dropTrailingPartialMarker (text : Text) : Text :=
  match lastIndexOf partialMarker text with
  | none => text
  | some start => if ']' ∈ text.drop start then text else text.take start

def pushText (text : Text) : List Segment :=
  if text = [] then [] else [.text text]

/-- The first citation with a marker. -/
def refer (citations : List CitationItem) (marker : Text) : Option Reference :=
  (citations.findIdx? (·.marker = some marker)).map fun position =>
    { marker := marker
      index := position + 1
      docName := (citations[position]?.bind (·.docName)).getD [] }

/-- The loop over the matches; `pending` is the text since the last one. -/
def segments (citations : List CitationItem) : (pending : Text) → List (Char ⊕ Text) → List Segment
  | pending, [] => pushText pending
  | pending, .inl c :: pieces => segments citations (pending ++ [c]) pieces
  | pending, .inr marker :: pieces =>
      pushText pending ++ ((refer citations marker).map Segment.citation).toList ++
        segments citations [] pieces

def renderAnswer (text : Text) (citations : List CitationItem) : List Segment :=
  if text = [] then []
  else segments citations [] ((pattern isJsSpace).scan 0 (dropTrailingPartialMarker text))

example : renderAnswer "a[c:2]b[c:9][c:".toList [{ marker := some "2".toList }] =
    [.text "a".toList, .citation ⟨"2".toList, 1, []⟩, .text "b".toList] := by
  decide

/-! ### What is seen -/

/-- The characters and the citations of a segment. -/
def Segment.marks : Segment → List (Char ⊕ Reference)
  | .text s => s.map .inl
  | .citation r => [.inr r]

/-- What is seen of an answer. -/
def seen (text : Text) (citations : List CitationItem) : List (Char ⊕ Reference) :=
  (renderAnswer text citations).flatMap Segment.marks

/-- What is seen of a character or a marker: a marker of no citation is not seen. -/
def display (citations : List CitationItem) : Char ⊕ Text → Option (Char ⊕ Reference)
  | .inl c => some (.inl c)
  | .inr marker => (refer citations marker).map .inr

/-- An answer without the markers that the backend recognises, and the citations in their places. -/
def expected (text : Text) (citations : List CitationItem) : List (Char ⊕ Reference) :=
  ((pattern isSpace).scan 0 text).filterMap (display citations)

/-- A proper beginning of a marker. -/
def Incomplete (fragment : Text) : Prop :=
  ∃ marker, Rag.markerAt (written marker) = some marker ∧ fragment <+: written marker ∧
    fragment ≠ written marker

/-- An answer that has arrived so far is seen up to a beginning of a marker at its end, and what is
seen does not change. -/
def Streamed (arrived text : Text) (citations : List CitationItem) : Prop :=
  (∃ shown fragment, arrived = shown ++ fragment ∧ (fragment = [] ∨ Incomplete fragment) ∧
      seen arrived citations = expected shown citations) ∧
    seen arrived citations <+: seen text citations

/-- Every `[c:` is closed. -/
def Closed (text : Text) : Prop :=
  ∀ s, s <:+ text → partialMarker <+: s → ']' ∈ s

/-- The two patterns find the same. -/
def Agree (text : Text) : Prop :=
  ∀ s, s <:+ text → markerAt isJsSpace s = Rag.markerAt s

/-- Every `[c:` is followed at once by `]`. -/
def NoMarkers (text : Text) : Prop :=
  ∀ s, s <:+ text → partialMarker <+: s → partialMarker ++ [']'] <+: s

/-! ### Finding markers -/

section

variable {space : Char → Bool}

theorem bracket_mem_written (marker : Text) :
  ']' ∈ written marker
  := List.mem_append_right _ (List.mem_append_right _ (List.mem_singleton.mpr rfl))

theorem takeWhile_bracket {s : Text} (first : ']' ∉ s) (rest : Text) :
  (s ++ ']' :: rest).takeWhile (· ≠ ']') = s
  := by
  have plain : ∀ c ∈ s, decide (c ≠ ']') = true := fun c hc =>
    decide_eq_true fun same => first (same ▸ hc)
  rw [List.takeWhile_append_of_pos plain, List.takeWhile_cons_of_neg (by simp), List.append_nil]

/-- The bracket at the end of a marker is the first one. -/
theorem eq_of_written_append {marker s rest rest' : Text} (plain : ']' ∉ marker)
    (first : ']' ∉ s) (same : written marker ++ rest = s ++ ']' :: rest') :
  partialMarker ++ marker = s ∧ rest = rest'
  := by
  have opened : ']' ∉ partialMarker ++ marker := by
    rw [List.mem_append, not_or]
    exact ⟨by decide, plain⟩
  have split : written marker ++ rest = (partialMarker ++ marker) ++ ']' :: rest := by
    rw [written_append]
    rfl
  rw [split] at same
  have front := congrArg (List.takeWhile (· ≠ ']')) same
  rw [takeWhile_bracket opened, takeWhile_bracket first] at front
  rw [front] at same
  exact ⟨front, (List.cons.inj (List.append_cancel_left same)).2⟩

/-- A text without `]` after another one makes no marker. -/
theorem markerAt_append {tail : Text} (none : ']' ∉ tail) (text : Text) :
  markerAt space (text ++ tail) = markerAt space text
  := by
  apply Option.ext
  intro marker
  rw [markerAt_eq_some_iff, markerAt_eq_some_iff]
  refine and_congr_right fun _ => and_congr_right fun _ => ⟨fun inside => ?_, fun inside =>
    inside.trans (List.prefix_append text tail)⟩
  rcases List.prefix_or_prefix_of_prefix inside (List.prefix_append text tail) with front | ⟨z, split⟩
  · exact front
  · rw [← split, List.prefix_append_right_inj] at inside
    cases z using List.reverseRecOn with
    | nil => rw [← split, List.append_nil]
    | append_singleton z c =>
      have last : (written marker).getLast? = some c := by
        rw [← split, ← List.append_assoc, List.getLast?_concat]
      rw [written, ← List.append_assoc, List.getLast?_concat] at last
      obtain rfl := Option.some.inj last
      exact absurd (inside.subset (List.mem_append_right z (List.mem_singleton.mpr rfl))) none

/-- Up to the first `]`, white space matters before it only. -/
theorem markerAt_congr {space' : Char → Bool} {s : Text} (first : ']' ∉ s)
    (same : ∀ c ∈ s, space c = space' c) (rest : Text) :
  markerAt space (s ++ ']' :: rest) = markerAt space' (s ++ ']' :: rest)
  := by
  apply Option.ext
  intro marker
  rw [markerAt_eq_some_iff, markerAt_eq_some_iff]
  refine and_congr_right fun _ => and_congr_left ?_
  rintro ⟨after, split⟩
  have inside (plain : ']' ∉ marker) {c : Char} (hc : c ∈ marker) : space c = space' c := by
    have front := (eq_of_written_append plain first split).1
    exact same c (front ▸ List.mem_append_right _ hc)
  constructor
  · intro plain c hc
    have bracket : ']' ∉ marker := fun mem => (plain _ mem).1 rfl
    exact ⟨(plain c hc).1, inside bracket hc ▸ (plain c hc).2⟩
  · intro plain c hc
    have bracket : ']' ∉ marker := fun mem => (plain _ mem).1 rfl
    exact ⟨(plain c hc).1, inside bracket hc ▸ (plain c hc).2⟩

theorem markerAt_eq_none {text : Text} (none : ']' ∉ text) :
  markerAt space text = .none
  := by
  apply Option.eq_none_iff_forall_ne_some.mpr
  intro marker found
  exact none ((markerAt_eq_some_iff.mp found).2.2.subset (bracket_mem_written marker))

/-- What comes after the last `]` is scanned as it is. -/
theorem scan_append {tail : Text} (none : ']' ∉ tail) (text : Text) :
  (pattern space).scan 0 (text ++ tail) = (pattern space).scan 0 text ++ tail.map .inl
  := by
  apply Pattern.scan_append
  · exact fun s _ _ => markerAt_append none s
  · exact fun s suffix => markerAt_eq_none fun mem => none (suffix.subset mem)

end

/-! ### The fragment at the end -/

theorem lastIndexOf_append {pattern text : Text} {i : ℕ} (h : lastIndexOf pattern text = some i)
    (front : Text) :
  lastIndexOf pattern (front ++ text) = some (front.length + i)
  := by
  induction front with
  | nil => rw [List.nil_append, h, List.length_nil, Nat.zero_add]
  | cons c front ih =>
    rw [List.cons_append, lastIndexOf, ih, List.length_cons]
    exact congrArg some (by omega)

/-- The last occurrence is one. -/
theorem prefix_of_lastIndexOf {pattern text : Text} {i : ℕ} (h : lastIndexOf pattern text = some i) :
  pattern <+: text.drop i
  := by
  induction text generalizing i with
  | nil =>
    rw [lastIndexOf] at h
    split_ifs at h with none
    rw [none]
    exact List.nil_prefix
  | cons c text ih =>
    rw [lastIndexOf] at h
    cases later : lastIndexOf pattern text with
    | some j =>
      rw [later] at h
      obtain rfl := Option.some.inj h
      exact ih later
    | none =>
      rw [later] at h
      dsimp only at h
      split_ifs at h with here
      obtain rfl := Option.some.inj h
      exact here

/-- There is no later one. -/
theorem suffix_of_lastIndexOf {pattern text s : Text} (suffix : s <:+ text)
    (occurs : pattern <+: s) :
  ∃ i, lastIndexOf pattern text = some i ∧ text.drop i <:+ s
  := by
  induction text with
  | nil =>
    obtain rfl := List.suffix_nil.mp suffix
    exact ⟨0, if_pos (List.prefix_nil.mp occurs), List.suffix_rfl⟩
  | cons c text ih =>
    rcases List.suffix_cons_iff.mp suffix with rfl | suffix
    · cases later : lastIndexOf pattern text with
      | some j =>
        refine ⟨j + 1, by rw [lastIndexOf, later], ?_⟩
        exact (List.drop_suffix j text).trans (List.suffix_cons c text)
      | none =>
        refine ⟨0, ?_, List.suffix_rfl⟩
        rw [lastIndexOf, later]
        exact if_pos occurs
    · obtain ⟨i, later, shorter⟩ := ih suffix
      exact ⟨i + 1, by rw [lastIndexOf, later], shorter⟩

/-- Either every `[c:` is closed, or the last one and what follows it are dropped. -/
theorem dropTrailingPartialMarker_cases (text : Text) :
  (dropTrailingPartialMarker text = text ∧ Closed text) ∨
    ∃ tail, text = dropTrailingPartialMarker text ++ (partialMarker ++ tail) ∧ ']' ∉ tail
  := by
  unfold dropTrailingPartialMarker
  cases last : lastIndexOf partialMarker text with
  | none =>
    refine .inl ⟨rfl, fun s suffix occurs => ?_⟩
    obtain ⟨i, found, -⟩ := suffix_of_lastIndexOf suffix occurs
    rw [last] at found
    cases found
  | some start =>
    dsimp only
    split_ifs with bracket
    · refine .inl ⟨rfl, fun s suffix occurs => ?_⟩
      obtain ⟨i, found, shorter⟩ := suffix_of_lastIndexOf suffix occurs
      rw [last] at found
      obtain rfl := Option.some.inj found
      exact shorter.subset bracket
    · obtain ⟨tail, split⟩ := prefix_of_lastIndexOf last
      refine .inr ⟨tail, ?_, fun mem => bracket ?_⟩
      · rw [split, List.take_append_drop]
      · rw [← split]
        exact List.mem_append_right _ mem

theorem dropTrailingPartialMarker_eq_self_iff (text : Text) :
  dropTrailingPartialMarker text = text ↔ Closed text
  := by
  rcases dropTrailingPartialMarker_cases text with ⟨same, closed⟩ | ⟨tail, split, none⟩
  · exact iff_of_true same closed
  · constructor
    · intro same
      rw [same] at split
      have length := congrArg List.length split
      rw [List.length_append, List.length_append] at length
      exact absurd length (by simp [partialMarker])
    · intro closed
      have bracket := closed (partialMarker ++ tail) ⟨_, split.symm⟩ (List.prefix_append _ _)
      rcases List.mem_append.mp bracket with bracket | bracket
      · exact absurd bracket (by decide)
      · exact absurd bracket none

theorem isPrefix_dropTrailingPartialMarker (text : Text) :
  dropTrailingPartialMarker text <+: text
  := by
  rcases dropTrailingPartialMarker_cases text with ⟨same, -⟩ | ⟨tail, split, -⟩
  · rw [same]
  · exact ⟨_, split.symm⟩

/-- The fragment of a marker is dropped with its first character. -/
theorem dropTrailingPartialMarker_append {c : Char} (other : c ≠ ']') (text : Text) :
  dropTrailingPartialMarker (text ++ (partialMarker ++ [c])) = text
  := by
  have last : lastIndexOf partialMarker (partialMarker ++ [c]) = some 0 := by
    simp [lastIndexOf, partialMarker]
  have bracket : ']' ∉ partialMarker ++ [c] := by
    simp [partialMarker, other.symm]
  rw [dropTrailingPartialMarker, lastIndexOf_append last]
  dsimp only
  rw [Nat.add_zero, List.drop_left, if_neg bracket, List.take_left]

/-! ### What is seen of the pieces -/

theorem marks_pushText (text : Text) :
  (pushText text).flatMap Segment.marks = text.map .inl
  := by
  unfold pushText
  split_ifs with none
  · rw [none]
    rfl
  · exact List.flatMap_singleton _ _

theorem marks_segments (citations : List CitationItem) (pending : Text)
    (pieces : List (Char ⊕ Text)) :
  (segments citations pending pieces).flatMap Segment.marks =
    pending.map .inl ++ pieces.filterMap (display citations)
  := by
  induction pieces generalizing pending with
  | nil =>
    rw [segments, marks_pushText]
    exact (List.append_nil _).symm
  | cons piece pieces ih =>
    cases piece with
    | inl c =>
      rw [segments, ih, List.map_append, List.append_assoc]
      rfl
    | inr marker =>
      rw [segments, List.flatMap_append, List.flatMap_append, marks_pushText, ih, List.append_assoc]
      cases found : refer citations marker with
      | none =>
        have hidden : display citations (.inr marker) = none := by
          rw [display, found, Option.map_none]
        rw [List.filterMap_cons_none hidden]
        rfl
      | some r =>
        have shown : display citations (.inr marker) = some (.inr r) := by
          rw [display, found, Option.map_some]
        rw [List.filterMap_cons_some shown]
        rfl

/-- What is seen is what the pattern of the screen finds before the fragment at the end. -/
theorem seen_eq (text : Text) (citations : List CitationItem) :
  seen text citations =
    ((pattern isJsSpace).scan 0 (dropTrailingPartialMarker text)).filterMap (display citations)
  := by
  unfold seen renderAnswer
  split_ifs with none
  · rw [none]
    rfl
  · exact marks_segments citations [] _

/-- A marker refers to the first citation that has it. -/
theorem refer_eq_some_iff {citations : List CitationItem} {marker : Text} {r : Reference} :
  refer citations marker = some r ↔
    ∃ position c, citations[position]? = some c ∧ c.marker = some marker ∧
      (∀ j < position, ∀ d ∈ citations[j]?, d.marker ≠ some marker) ∧
      r = ⟨marker, position + 1, c.docName.getD []⟩
  := by
  unfold refer
  rw [Option.map_eq_some_iff]
  constructor
  · rintro ⟨position, found, rfl⟩
    obtain ⟨lt, here, before⟩ := List.findIdx?_eq_some_iff_getElem.mp found
    refine ⟨position, citations[position], List.getElem?_eq_getElem lt, of_decide_eq_true here,
      fun j hj d hd => ?_, ?_⟩
    · rw [List.getElem?_eq_getElem (hj.trans lt)] at hd
      obtain rfl := Option.some.inj hd
      exact fun same => before j hj (decide_eq_true same)
    · rw [List.getElem?_eq_getElem lt, Option.bind_some]
  · rintro ⟨position, c, hc, here, before, rfl⟩
    obtain ⟨lt, rfl⟩ := List.getElem?_eq_some_iff.mp hc
    refine ⟨position, List.findIdx?_eq_some_iff_getElem.mpr ⟨lt, decide_eq_true here, ?_⟩, ?_⟩
    · intro j hj same
      exact before j hj _ (List.getElem?_eq_getElem (hj.trans lt)) (of_decide_eq_true same)
    · rw [hc, Option.bind_some]

section

variable {citations : List CitationItem} {pieces : List (Char ⊕ Text)}

/-- The pieces are known from what is seen of them, if there is a citation for each marker. -/
theorem map_filterMap_display
    (cited : ∀ marker, Sum.inr marker ∈ pieces → (refer citations marker).isSome) :
  (pieces.filterMap (display citations)).map (Sum.map id Reference.marker) = pieces
  := by
  induction pieces with
  | nil => rfl
  | cons piece pieces ih =>
    have rest := ih fun marker mem => cited marker (List.mem_cons_of_mem piece mem)
    cases piece with
    | inl c =>
      have shown : display citations (.inl c) = some (.inl c) := rfl
      rw [List.filterMap_cons_some shown, List.map_cons, rest]
      rfl
    | inr marker =>
      obtain ⟨r, found⟩ := Option.isSome_iff_exists.mp (cited marker List.mem_cons_self)
      have shown : display citations (.inr marker) = some (.inr r) := by
        rw [display, found, Option.map_some]
      obtain ⟨_, _, -, -, -, rfl⟩ := refer_eq_some_iff.mp found
      rw [List.filterMap_cons_some shown, List.map_cons, rest]
      rfl

end

/-- A citation for each piece of a text. -/
def allCitations (text : Text) : List CitationItem :=
  (text.tails.flatMap List.inits).map fun marker => { marker := some marker }

/-- Every marker in a part of the text is cited. -/
theorem isSome_refer_allCitations {space : Char → Bool} {text part : Text} (inside : part <:+: text)
    {marker : Text} (mem : Sum.inr marker ∈ (pattern space).scan 0 part) :
  (refer (allCitations text) marker).isSome
  := by
  have piece : written marker <:+: part := by
    obtain ⟨front, back, split⟩ := List.append_of_mem mem
    have whole := (pattern space).write_scan part
    rw [split, Pattern.write, List.flatMap_append, List.flatMap_cons] at whole
    exact ⟨_, _, by rw [List.append_assoc]; exact whole⟩
  have middle : marker <:+: written marker := ⟨partialMarker, [']'], List.append_assoc _ _ _⟩
  obtain ⟨front, back, split⟩ := (middle.trans piece).trans inside
  have cited : ∃ c ∈ allCitations text, c.marker = some marker := by
    refine ⟨{ marker := some marker }, List.mem_map.mpr ⟨marker, ?_, rfl⟩, rfl⟩
    refine List.mem_flatMap.mpr ⟨marker ++ back, ?_, ?_⟩
    · rw [List.mem_tails]
      exact ⟨front, by rw [← List.append_assoc, split]⟩
    · rw [List.mem_inits]
      exact List.prefix_append _ _
  obtain ⟨c, mem', same⟩ := cited
  rw [refer, Option.isSome_map, List.findIdx?_isSome]
  exact List.any_eq_true.mpr ⟨c, mem', decide_eq_true same⟩

/-! ### The finished answer -/

section

variable {text shown : Text}

/-- The screen agrees with the backend on an answer only if the two patterns find the same pieces. -/
theorem scan_eq_of_seen {arrived : Text} (ha : dropTrailingPartialMarker arrived <:+: text)
    (hs : shown <:+: text)
    (same : seen arrived (allCitations text) = expected shown (allCitations text)) :
  (pattern isJsSpace).scan 0 (dropTrailingPartialMarker arrived) = (pattern isSpace).scan 0 shown
  := by
  rw [seen_eq, expected] at same
  have pieces := congrArg (List.map (Sum.map id Reference.marker)) same
  rwa [map_filterMap_display fun _ => isSome_refer_allCitations ha,
    map_filterMap_display fun _ => isSome_refer_allCitations hs] at pieces

/-- Then they scan the same text. -/
theorem eq_of_scan_eq {front : Text}
    (same : (pattern isJsSpace).scan 0 front = (pattern isSpace).scan 0 shown) :
  front = shown
  := by
  have spell : (pattern isJsSpace).write = (pattern isSpace).write := rfl
  rw [← (pattern isJsSpace).write_scan front, same, spell, Pattern.write_scan]

/-- Patterns that scan a text alike find the same at every place of it. -/
theorem agree_of_scan_eq
    (same : (pattern isJsSpace).scan 0 text = (pattern isSpace).scan 0 text) :
  Agree text
  := by
  unfold Agree
  rw [← markerAt_isSpace]
  induction text using (pattern isJsSpace).pieceInduction with
  | nil =>
    intro s suffix
    rw [List.suffix_nil.mp suffix]
    rfl
  | char c text none ih =>
    intro s suffix
    rw [Pattern.scan_of_none none] at same
    have none' : markerAt isSpace (c :: text) = .none := Pattern.find_of_scan_eq same.symm
    rcases List.suffix_cons_iff.mp suffix with rfl | suffix
    · rw [none']
      exact none
    · rw [Pattern.scan_of_none (P := pattern isSpace) none'] at same
      exact ih (List.cons.inj same).2 s suffix
  | found marker text found ih =>
    intro s suffix
    rw [Pattern.scan_of_some found] at same
    have found : markerAt isJsSpace (written marker ++ text) = some marker := found
    have found' : markerAt isSpace (written marker ++ text) = some marker :=
      Pattern.find_of_scan_eq same.symm
    have whole : (pattern isSpace).scan 0 (written marker ++ text) =
        .inr marker :: (pattern isSpace).scan 0 text :=
      Pattern.scan_of_some (P := pattern isSpace) found'
    have rest := (List.cons.inj (same.trans whole)).2
    have after : text <:+ written marker ++ text := List.suffix_append _ _
    rcases List.suffix_or_suffix_of_suffix suffix after with later | ⟨front, rfl⟩
    · exact ih rest s later
    obtain ⟨before, split⟩ := suffix
    rw [← List.append_assoc] at split
    have piece : before ++ front = (partialMarker ++ marker) ++ [']'] :=
      (List.append_cancel_right split).trans (List.append_assoc _ _ _).symm
    cases front using List.reverseRecOn with
    | nil => exact ih rest text List.suffix_rfl
    | append_singleton front c =>
      rw [← List.append_assoc] at piece
      obtain ⟨inner, last⟩ := List.append_inj' piece rfl
      obtain rfl := (List.cons.inj last).1
      have plain : ∀ c ∈ front, c ≠ ']' ∧ isJsSpace c = isSpace c := by
        intro c hc
        have mem : c ∈ partialMarker ++ marker := inner ▸ List.mem_append_right before hc
        rcases List.mem_append.mp mem with mem | mem
        · obtain ⟨other, plain, js⟩ := of_mem_partialMarker mem
          exact ⟨other, js.trans plain.symm⟩
        · obtain ⟨other, js⟩ := (markerAt_eq_some_iff.mp found).2.1 c mem
          rw [js, ((markerAt_eq_some_iff.mp found').2.1 c mem).2]
          exact ⟨other, rfl⟩
      rw [List.append_assoc]
      exact markerAt_congr (fun mem => (plain _ mem).1 rfl) (fun c hc => (plain c hc).2) text

/-- A finished answer is shown as the backend reads it if every `[c:` is closed and white space makes no
difference to the markers. -/
theorem finished_iff (text : Text) :
  (∀ citations, seen text citations = expected text citations) ↔ Closed text ∧ Agree text
  := by
  constructor
  · intro same
    have inside := (isPrefix_dropTrailingPartialMarker text).isInfix
    have pieces := scan_eq_of_seen inside List.infix_rfl (same (allCitations text))
    have whole := eq_of_scan_eq pieces
    rw [whole] at pieces
    exact ⟨(dropTrailingPartialMarker_eq_self_iff text).mp whole, agree_of_scan_eq pieces⟩
  · rintro ⟨closed, agree⟩ citations
    unfold Agree at agree
    rw [← markerAt_isSpace] at agree
    rw [seen_eq, (dropTrailingPartialMarker_eq_self_iff text).mpr closed, expected,
      Pattern.scan_congr (P := pattern isJsSpace) (Q := pattern isSpace) rfl agree]

end

/-! ### The answer while it arrives -/

section

variable {text : Text}

/-- Without markers, all pieces are characters. -/
theorem scan_eq_map (h : NoMarkers text) {part : Text} (inside : part <+: text)
    (space : Char → Bool) :
  (pattern space).scan 0 part = part.map .inl
  := by
  have nothing : ∀ s, s <:+ part → markerAt space s = none := by
    intro s suffix
    apply Option.eq_none_iff_forall_ne_some.mpr
    intro marker found
    obtain ⟨some, plain, begins⟩ := markerAt_eq_some_iff.mp found
    obtain ⟨rest, rfl⟩ := inside
    obtain ⟨front, rfl⟩ := suffix
    have occurs : written marker <+: s ++ rest := begins.trans (List.prefix_append s rest)
    have closed := h (s ++ rest) ⟨front, (List.append_assoc _ _ _).symm⟩
      ((List.prefix_append _ _).trans occurs)
    obtain ⟨c, marker, rfl⟩ := List.exists_cons_of_ne_nil some
    have both := List.prefix_of_prefix_length_le closed occurs (by simp [written, partialMarker])
    rw [written, List.prefix_append_right_inj] at both
    exact (plain c List.mem_cons_self).1 (List.cons_prefix_cons.mp both).1.symm
  exact Pattern.scan_append (P := pattern space)
    (fun (s : Text) (some : s ≠ []) (suffix : s <:+ []) => absurd (List.suffix_nil.mp suffix) some)
    nothing

theorem filterMap_display_map (citations : List CitationItem) (part : Text) :
  (part.map Sum.inl).filterMap (display citations) = part.map .inl
  := by
  have shown : display citations ∘ Sum.inl = some ∘ Sum.inl := rfl
  rw [List.filterMap_map, shown, List.filterMap_eq_map]

theorem closed_of_noMarkers (h : NoMarkers text) :
  Closed text
  := fun s suffix occurs =>
  (h s suffix occurs).subset (List.mem_append_right _ (List.mem_singleton.mpr rfl))

/-- What is seen of it is all of it but the fragment. -/
theorem seen_of_noMarkers (h : NoMarkers text) {arrived : Text} (inside : arrived <+: text)
    (citations : List CitationItem) :
  seen arrived citations = (dropTrailingPartialMarker arrived).map .inl
  := by
  rw [seen_eq, scan_eq_map h ((isPrefix_dropTrailingPartialMarker arrived).trans inside),
    filterMap_display_map]

theorem incomplete_partialMarker : Incomplete partialMarker :=
  ⟨['x'], by decide, by decide, by decide⟩

/-- An answer without markers is shown as it is, up to a `[c:` at its end. -/
theorem streamed_of_noMarkers (h : NoMarkers text) {arrived : Text} (inside : arrived <+: text)
    (citations : List CitationItem) :
  Streamed arrived text citations
  := by
  have whole := (dropTrailingPartialMarker_eq_self_iff text).mpr (closed_of_noMarkers h)
  have front := (isPrefix_dropTrailingPartialMarker arrived).trans inside
  constructor
  · have shown : seen arrived citations =
        expected (dropTrailingPartialMarker arrived) citations := by
      rw [seen_of_noMarkers h inside, expected, scan_eq_map h front, filterMap_display_map]
    rcases dropTrailingPartialMarker_cases arrived with ⟨same, -⟩ | ⟨tail, split, none⟩
    · exact ⟨_, [], by rw [same, List.append_nil], .inl rfl, shown⟩
    · refine ⟨_, _, split, .inr ?_, shown⟩
      obtain ⟨rest, rfl⟩ := inside
      have closed := h (partialMarker ++ (tail ++ rest))
        ⟨dropTrailingPartialMarker arrived, by
          rw [← List.append_assoc partialMarker, ← List.append_assoc, ← split]⟩
        (List.prefix_append _ _)
      rw [List.prefix_append_right_inj] at closed
      cases tail with
      | nil => exact incomplete_partialMarker
      | cons c tail =>
        obtain rfl := (List.cons_prefix_cons.mp closed).1
        exact absurd List.mem_cons_self none
  · rw [seen_of_noMarkers h inside, seen_of_noMarkers h List.prefix_rfl, whole]
    exact front.map _

/-- Each piece of an answer that has arrived is scanned alike, and its pieces stay. -/
theorem scan_of_streamed {arrived : Text} (inside : arrived <+: text)
    (whole : dropTrailingPartialMarker text = text)
    (h : Streamed arrived text (allCitations text)) :
  (∃ fragment, arrived = dropTrailingPartialMarker arrived ++ fragment ∧
      (fragment = [] ∨ Incomplete fragment)) ∧
    (pattern isJsSpace).scan 0 (dropTrailingPartialMarker arrived) <+:
      (pattern isJsSpace).scan 0 text
  := by
  obtain ⟨⟨shown, fragment, rfl, incomplete, same⟩, begins⟩ := h
  have front : shown <:+: text := ((List.prefix_append _ _).trans inside).isInfix
  have dropped := (isPrefix_dropTrailingPartialMarker (shown ++ fragment)).trans inside
  have pieces := scan_eq_of_seen dropped.isInfix front same
  constructor
  · rw [eq_of_scan_eq pieces]
    exact ⟨fragment, rfl, incomplete⟩
  · rw [seen_eq, seen_eq, whole] at begins
    have begins := begins.map (Sum.map id Reference.marker)
    rwa [map_filterMap_display fun _ => isSome_refer_allCitations dropped.isInfix,
      map_filterMap_display fun _ => isSome_refer_allCitations List.infix_rfl] at begins

/-- There is no white space in a beginning of a marker. -/
theorem isSpace_of_incomplete {fragment : Text} (h : Incomplete fragment) {c : Char}
    (hc : c ∈ fragment) :
  isSpace c = false
  := by
  obtain ⟨marker, found, begins, -⟩ := h
  rw [← markerAt_isSpace] at found
  have mem := begins.subset hc
  rcases List.mem_append.mp mem with mem | mem
  · exact (of_mem_partialMarker mem).2.1
  · rcases List.mem_append.mp mem with mem | mem
    · exact ((markerAt_eq_some_iff.mp found).2.1 c mem).2
    · rw [List.mem_singleton.mp mem]
      rfl

section

variable (whole : dropTrailingPartialMarker text = text)
  (h : ∀ arrived, arrived <+: text → Streamed arrived text (allCitations text))

include whole h

/-- After a `[c:` there is no white space before the `]`. -/
theorem isSpace_of_streamed {front s : Text} {c : Char}
    (inside : front ++ (partialMarker ++ (s ++ [c])) <+: text) (none : ']' ∉ s ++ [c]) :
  isSpace c = false
  := by
  obtain ⟨⟨fragment, split, incomplete⟩, -⟩ := scan_of_streamed inside whole (h _ inside)
  have bracket : ']' ∉ partialMarker ++ (s ++ [c]) := by
    rw [List.mem_append, not_or]
    exact ⟨by decide, none⟩
  have some : fragment ≠ [] := by
    rintro rfl
    rw [List.append_nil] at split
    have closed := (dropTrailingPartialMarker_eq_self_iff _).mp split.symm
    exact bracket (closed _ (List.suffix_append _ _) (List.prefix_append _ _))
  have last : c ∈ fragment := by
    have last := congrArg List.getLast? split
    rw [← List.append_assoc, ← List.append_assoc, List.getLast?_concat,
      List.getLast?_append_of_ne_nil _ some] at last
    exact List.mem_of_getLast? last.symm
  rcases incomplete with rfl | incomplete
  · exact absurd rfl some
  · exact isSpace_of_incomplete incomplete last

/-- There is no `[c:` that is not followed by `]` at once: the first one would be a marker, and its first
character is seen while it arrives. -/
theorem bracket_of_streamed (agree : Agree text) {front s : Text}
    (split : text = front ++ (partialMarker ++ s)) :
  ∃ rest, s = ']' :: rest
  := by
  induction length : front.length using Nat.strongRecOn generalizing front s with
  | ind n ih =>
    have closed := (dropTrailingPartialMarker_eq_self_iff text).mp whole
    have bracket : ']' ∈ s := by
      rcases List.mem_append.mp (closed (partialMarker ++ s) ⟨front, split.symm⟩
        (List.prefix_append _ _)) with mem | mem
      · exact absurd mem (by decide)
      · exact mem
    obtain ⟨marker, after, rfl, none⟩ := List.eq_append_cons_of_mem bracket
    cases marker with
    | nil => exact ⟨after, rfl⟩
    | cons c marker =>
      exfalso
      have other {d : Char} (hd : d ∈ c :: marker) : d ≠ ']' := fun same => none (same ▸ hd)
      have plain : ∀ d ∈ c :: marker, d ≠ ']' ∧ isSpace d = false := by
        intro d hd
        obtain ⟨s, rest, hs⟩ := List.append_of_mem hd
        have inside : front ++ (partialMarker ++ (s ++ [d])) <+: text :=
          ⟨rest ++ ']' :: after, by rw [split, hs]; simp⟩
        refine ⟨other hd, isSpace_of_streamed whole h inside fun mem => none ?_⟩
        rw [hs, List.append_cons]
        exact List.mem_append_left rest mem
      have here : text = front ++ (written (c :: marker) ++ after) := by
        rw [split, written_append]
        rfl
      have found : markerAt isJsSpace (written (c :: marker) ++ after) = some (c :: marker) := by
        rw [agree _ ⟨front, here.symm⟩, ← markerAt_isSpace]
        exact markerAt_eq_some_iff.mpr ⟨List.cons_ne_nil _ _, plain, List.prefix_append _ _⟩
      have pieces : (pattern isJsSpace).scan 0 text =
          (pattern isJsSpace).scan 0 front ++
            (.inr (c :: marker) :: (pattern isJsSpace).scan 0 after) := by
        have inside : front ++ (partialMarker ++ [c]) <+: text :=
          ⟨marker ++ ']' :: after, by rw [split]; simp⟩
        obtain ⟨-, back, begins⟩ := scan_of_streamed inside whole (h _ inside)
        rw [dropTrailingPartialMarker_append (other List.mem_cons_self)] at begins
        have first : (pattern isJsSpace).scan 0 (written (c :: marker) ++ after) =
            .inr (c :: marker) :: (pattern isJsSpace).scan 0 after :=
          Pattern.scan_of_some (P := pattern isJsSpace) found
        have rest := Pattern.scan_drop_write begins.symm
        rw [Pattern.write_scan, here, List.drop_left, first] at rest
        rw [← begins, ← rest]
      have inside : front ++ ['['] <+: text :=
        ⟨'c' :: ':' :: (c :: marker ++ ']' :: after), by rw [split]; simp [partialMarker]⟩
      obtain ⟨-, begins⟩ := scan_of_streamed inside whole (h _ inside)
      rcases dropTrailingPartialMarker_cases (front ++ ['[']) with ⟨same, -⟩ | ⟨tail, cut, open'⟩
      · rw [same, scan_append (by decide), pieces, List.prefix_append_right_inj] at begins
        cases (List.cons_prefix_cons.mp begins).1
      · obtain ⟨rest, longer⟩ := inside
        have earlier : text =
            dropTrailingPartialMarker (front ++ ['[']) ++ (partialMarker ++ (tail ++ rest)) := by
          rw [← List.append_assoc partialMarker, ← List.append_assoc, ← cut, longer]
        have lengths := congrArg List.length cut
        rw [List.length_append, List.length_append, List.length_append, List.length_singleton,
          show partialMarker.length = 3 from rfl] at lengths
        obtain ⟨rest', closes⟩ := ih _ (by omega) earlier rfl
        cases tail with
        | nil =>
          have last := congrArg List.getLast? cut
          have some : partialMarker ≠ [] := List.cons_ne_nil _ _
          rw [List.append_nil, List.getLast?_concat, List.getLast?_append_of_ne_nil _ some] at last
          cases last
        | cons e tail =>
          obtain rfl := (List.cons.inj closes).1
          exact open' List.mem_cons_self

end

end

/-- An answer is shown as the backend reads it if every `[c:` in it is closed and white space makes no
difference to its markers.  It is also shown like that while it arrives if every `[c:` is followed by
`]` at once. -/
theorem renderAnswer_iff (text : Text) :
  ((∀ citations, seen text citations = expected text citations) ↔ Closed text ∧ Agree text) ∧
    ((∀ citations, seen text citations = expected text citations ∧
        ∀ arrived, arrived <+: text → Streamed arrived text citations) ↔ NoMarkers text)
  := by
  refine ⟨finished_iff text, fun h => ?_, fun h citations => ⟨?_, fun arrived inside => ?_⟩⟩
  · obtain ⟨closed, agree⟩ := (finished_iff text).mp fun citations => (h citations).1
    have whole := (dropTrailingPartialMarker_eq_self_iff text).mpr closed
    rintro s ⟨front, split⟩ ⟨rest, rfl⟩
    obtain ⟨after, rfl⟩ := bracket_of_streamed whole (h (allCitations text)).2 agree split.symm
    exact ⟨after, List.append_assoc _ _ _⟩
  · have whole := (dropTrailingPartialMarker_eq_self_iff text).mpr (closed_of_noMarkers h)
    rw [seen_of_noMarkers h List.prefix_rfl, whole, expected, scan_eq_map h List.prefix_rfl,
      filterMap_display_map]
  · exact streamed_of_noMarkers h inside citations

/-- The end of a finished answer is not seen, a marker with a byte order mark in it is, and the first
character of a marker that arrives disappears again. -/
theorem answer_cut_off :
  seen "see [c: below".toList [] ≠ expected "see [c: below".toList [] ∧
    seen "[c:1\ufeff]".toList [] ≠ expected "[c:1\ufeff]".toList [] ∧
    ¬ seen "[".toList [] <+: seen "[c:1].".toList []
  := by
  decide

end Lumina.Frontend.Citations
