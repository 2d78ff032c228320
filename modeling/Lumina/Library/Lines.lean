import Mathlib.Data.List.Basic
import Mathlib.Data.List.Chain
import Mathlib.Data.Nat.Notation

/-!
# The lines of a text

`str.splitlines`: a line ends at any of the line boundaries of Unicode, and nothing begins after the
last one.  A file that is opened as text has a newline for each of `\r\n`, `\r` and `\n`, and
`str.split` with a newline takes a text apart at nothing else.
-/

namespace Lines

def isLineBreak (c : Char) : Bool :=
  ['\n', '\r', '\x0b', '\x0c', '\x1c', '\x1d', '\x1e', '\u0085', '\u2028', '\u2029'].contains c

/-- A character at the beginning of the first line. -/
def consLine (c : Char) : List (List Char) → List (List Char)
  | [] => [[c]]
  | line :: lines => (c :: line) :: lines

/-- `splitlines`. -/
def splitLines : List Char → List (List Char)
  | [] => []
  | '\r' :: '\n' :: text => [] :: splitLines text
  | c :: text => if isLineBreak c then [] :: splitLines text else consLine c (splitLines text)

example : splitLines "a\r\nb\n\nc\r".toList = ["a".toList, "b".toList, [], "c".toList] := by decide

/-- A text that does not stop with a line boundary. -/
def Open (text : List Char) : Prop :=
  ∃ c ∈ text.getLast?, isLineBreak c = false

theorem Open.ne_nil {text : List Char} (h : Open text) : text ≠ [] := by
  rintro rfl
  obtain ⟨c, ⟨⟩, -⟩ := h

theorem Open.of_cons {c d : Char} {text : List Char} (h : Open (c :: d :: text)) :
  Open (d :: text)
  := by
  unfold Open at *
  rwa [List.getLast?_cons_cons] at h

theorem splitLines_of_visible {c : Char} (h : isLineBreak c = false) (text : List Char) :
  splitLines (c :: text) = consLine c (splitLines text)
  := by
  have other : c ≠ '\r' := by
    rintro rfl
    cases h
  rw [splitLines.eq_3 _ _ (fun _ carriage => absurd carriage other), h]
  rfl

theorem consLine_append {lines : List (List Char)} (h : lines ≠ []) (c : Char)
    (rest : List (List Char)) :
  consLine c (lines ++ rest) = consLine c lines ++ rest
  := by
  cases lines with
  | nil => exact absurd rfl h
  | cons line lines => rfl

theorem length_consLine {lines : List (List Char)} (h : lines ≠ []) (c : Char) :
  (consLine c lines).length = lines.length
  := by
  cases lines with
  | nil => exact absurd rfl h
  | cons line lines => rfl

theorem splitLines_ne_nil {text : List Char} (h : text ≠ []) :
  splitLines text ≠ []
  := by
  fun_cases splitLines text
  · exact absurd rfl h
  · exact List.cons_ne_nil _ _
  · exact List.cons_ne_nil _ _
  · rename_i c rest _ _
    cases splitLines rest
    all_goals exact List.cons_ne_nil _ _

/-- The lines before a newline and after it. -/
theorem splitLines_append_newline {text : List Char} (h : Open text) (rest : List Char) :
  splitLines (text ++ '\n' :: rest) = splitLines text ++ splitLines rest
  := by
  fun_induction splitLines text with
  | case1 =>
    obtain ⟨c, ⟨⟩, -⟩ := h
  | case2 text ih =>
    cases text with
    | nil =>
      obtain ⟨c, ⟨⟩, other⟩ := h
      cases other
    | cons d text =>
      have after := ih h.of_cons.of_cons
      rw [List.cons_append] at after
      simp only [List.cons_append, splitLines, after]
  | case3 c text other newline ih =>
    cases text with
    | nil =>
      obtain ⟨d, ⟨⟩, visible⟩ := h
      exact absurd newline (Bool.eq_false_iff.mp visible)
    | cons d text =>
      have after := ih h.of_cons
      rw [List.cons_append] at after
      rw [List.cons_append, List.cons_append, splitLines.eq_3, if_pos newline, after]
      · rfl
      · rintro tail rfl same
        exact other text rfl (by rw [(List.cons.inj same).1])
  | case4 c text other visible ih =>
    rw [Bool.not_eq_true] at visible
    rw [List.cons_append, splitLines_of_visible visible]
    cases text with
    | nil => rfl
    | cons d text =>
      rw [ih h.of_cons, consLine_append (splitLines_ne_nil (List.cons_ne_nil d text))]

/-- A text without line boundaries. -/
theorem splitLines_of_forall {text : List Char} (some : text ≠ [])
    (h : ∀ c ∈ text, isLineBreak c = false) :
  splitLines text = [text]
  := by
  induction text with
  | nil => exact absurd rfl some
  | cons c text ih =>
    rw [splitLines_of_visible (h c List.mem_cons_self)]
    cases text with
    | nil => rfl
    | cons d text =>
      rw [ih (List.cons_ne_nil d text) fun e he => h e (List.mem_cons_of_mem c he)]
      rfl

/-- A text is one line only if there is no boundary in it. -/
theorem length_splitLines_eq_one_iff {text : List Char} (h : Open text) :
  (splitLines text).length = 1 ↔ ∀ c ∈ text, isLineBreak c = false
  := by
  constructor
  · intro one c hc
    fun_induction splitLines text with
    | case1 => cases hc
    | case2 text ih =>
      cases text with
      | nil =>
        obtain ⟨d, ⟨⟩, other⟩ := h
        cases other
      | cons d text =>
        have some := List.length_pos_iff.mpr (splitLines_ne_nil (List.cons_ne_nil d text))
        rw [List.length_cons] at one
        omega
    | case3 d text other newline ih =>
      cases text with
      | nil =>
        obtain ⟨e, ⟨⟩, visible⟩ := h
        exact absurd newline (Bool.eq_false_iff.mp visible)
      | cons e text =>
        have some := List.length_pos_iff.mpr (splitLines_ne_nil (List.cons_ne_nil e text))
        rw [List.length_cons] at one
        omega
    | case4 d text other visible ih =>
      rcases List.mem_cons.mp hc with rfl | hc
      · exact Bool.eq_false_iff.mpr visible
      · cases text with
        | nil => cases hc
        | cons e text =>
          rw [length_consLine (splitLines_ne_nil (List.cons_ne_nil e text))] at one
          exact ih h.of_cons one hc
  · intro visible
    rw [splitLines_of_forall h.ne_nil visible]
    rfl

/-- The lines of some texts that are joined by newlines. -/
theorem splitLines_intercalate {texts : List (List Char)} (h : ∀ text ∈ texts, Open text) :
  splitLines (['\n'].intercalate texts) = texts.flatMap splitLines
  := by
  induction texts with
  | nil => rfl
  | cons text texts ih =>
    cases texts with
    | nil => rw [List.intercalate_singleton, List.flatMap_singleton]
    | cons next texts =>
      rw [List.intercalate_cons_cons, List.append_assoc, List.singleton_append, List.flatMap_cons,
        splitLines_append_newline (h text List.mem_cons_self),
        ih fun t ht => h t (List.mem_cons_of_mem text ht)]

/-- The lines of some texts with a newline after each. -/
theorem splitLines_flatMap_newline {texts : List (List Char)} (h : ∀ text ∈ texts, Open text) :
  splitLines (texts.flatMap fun text => text ++ ['\n']) = texts.flatMap splitLines
  := by
  induction texts with
  | nil => rfl
  | cons text texts ih =>
    rw [List.flatMap_cons, List.append_assoc, List.singleton_append, List.flatMap_cons,
      splitLines_append_newline (h text List.mem_cons_self),
      ih fun t ht => h t (List.mem_cons_of_mem text ht)]

theorem length_le_length_flatMap {texts : List (List Char)} (h : ∀ text ∈ texts, Open text) :
  texts.length ≤ (texts.flatMap splitLines).length
  := by
  induction texts with
  | nil => exact Nat.le_refl 0
  | cons text texts ih =>
    have head := List.length_pos_iff.mpr (splitLines_ne_nil (h text List.mem_cons_self).ne_nil)
    have tail := ih fun t ht => h t (List.mem_cons_of_mem text ht)
    rw [List.flatMap_cons, List.length_append, List.length_cons]
    omega

/-- Joined texts are as many lines as there are texts only if there is no other boundary. -/
theorem length_splitLines_intercalate_iff {texts : List (List Char)}
    (h : ∀ text ∈ texts, Open text) :
  (splitLines (['\n'].intercalate texts)).length = texts.length ↔
    ∀ text ∈ texts, ∀ c ∈ text, isLineBreak c = false
  := by
  rw [splitLines_intercalate h]
  induction texts with
  | nil => exact iff_of_true rfl nofun
  | cons text texts ih =>
    obtain ⟨opened, others⟩ := List.forall_mem_cons.mp h
    have head := List.length_pos_iff.mpr (splitLines_ne_nil opened.ne_nil)
    have tail := length_le_length_flatMap others
    rw [List.forall_mem_cons, ← ih others, ← length_splitLines_eq_one_iff opened,
      List.flatMap_cons, List.length_append, List.length_cons]
    omega

/-- Every character other than a boundary is in a line. -/
theorem exists_mem_splitLines {text : List Char} {c : Char} (h : c ∈ text)
    (visible : isLineBreak c = false) :
  ∃ line ∈ splitLines text, c ∈ line
  := by
  fun_induction splitLines text with
  | case1 => cases h
  | case2 text ih =>
    have later : c ∈ text := by
      rcases List.mem_cons.mp h with rfl | h
      · cases visible
      rcases List.mem_cons.mp h with rfl | h
      · cases visible
      · exact h
    obtain ⟨line, hline, hc⟩ := ih later
    exact ⟨line, List.mem_cons_of_mem _ hline, hc⟩
  | case3 d text other newline ih =>
    rcases List.mem_cons.mp h with rfl | h
    · exact absurd newline (Bool.eq_false_iff.mp visible)
    · obtain ⟨line, hline, hc⟩ := ih h
      exact ⟨line, List.mem_cons_of_mem _ hline, hc⟩
  | case4 d text other shown ih =>
    rcases List.mem_cons.mp h with rfl | h
    · cases splitLines text with
      | nil => exact ⟨[c], List.mem_singleton.mpr rfl, List.mem_singleton.mpr rfl⟩
      | cons line lines => exact ⟨_, List.mem_cons_self, List.mem_cons_self⟩
    · obtain ⟨line, hline, hc⟩ := ih h
      cases hlines : splitLines text with
      | nil =>
        rw [hlines] at hline
        cases hline
      | cons first lines =>
        rw [hlines] at hline
        rcases List.mem_cons.mp hline with rfl | hline
        · exact ⟨_, List.mem_cons_self, List.mem_cons_of_mem d hc⟩
        · exact ⟨line, List.mem_cons_of_mem _ hline, hc⟩

/-- With a boundary in a text, its last character is not in the first line. -/
theorem splitLines_of_mem {text : List Char} (h : Open text) {b : Char} (hb : b ∈ text)
    (newline : isLineBreak b = true) :
  ∃ first lines, splitLines text = first :: lines ∧ ∃ c ∈ text.getLast?, ∃ l ∈ lines, c ∈ l
  := by
  have last {d : Char} {text : List Char} (h : Open (d :: text)) (hd : isLineBreak d = true) :
      ∃ c ∈ (d :: text).getLast?, ∃ l ∈ splitLines text, c ∈ l := by
    obtain ⟨c, hc, visible⟩ := h
    cases text with
    | nil =>
      cases hc
      exact absurd hd (Bool.eq_false_iff.mp visible)
    | cons e text =>
      have later : c ∈ e :: text := List.mem_of_getLast? (by rwa [List.getLast?_cons_cons] at hc)
      exact ⟨c, hc, exists_mem_splitLines later visible⟩
  fun_induction splitLines text with
  | case1 => cases hb
  | case2 text ih =>
    obtain ⟨c, hc, l, hl, mem⟩ := last h.of_cons rfl
    exact ⟨[], _, rfl, c, by rwa [List.getLast?_cons_cons], l, hl, mem⟩
  | case3 d text other hd ih =>
    obtain ⟨c, hc, l, hl, mem⟩ := last h hd
    exact ⟨[], _, rfl, c, hc, l, hl, mem⟩
  | case4 d text other visible ih =>
    rcases List.mem_cons.mp hb with rfl | hb
    · exact absurd newline visible
    cases text with
    | nil => cases hb
    | cons e text =>
      obtain ⟨first, lines, split, c, hc, l, hl, mem⟩ := ih h.of_cons hb
      rw [split]
      exact ⟨_, lines, rfl, c, by rwa [List.getLast?_cons_cons], l, hl, mem⟩

/-- A text with a boundary that begins and ends with a visible character is at least two lines that
are not blank. -/
theorem two_le_countP_splitLines {space : Char → Bool} {c d : Char} {text : List Char}
    (visible : isLineBreak c = false) (hc : space c = false) (opened : Open (c :: text))
    (last : (c :: text).getLast? = some d) (hd : space d = false) {b : Char} (hb : b ∈ c :: text)
    (newline : isLineBreak b = true) :
  2 ≤ (splitLines (c :: text)).countP fun line => !line.all space
  := by
  have solid {line : List Char} {e : Char} (he : e ∈ line) (h : space e = false) :
      (!line.all space) = true := by
    rw [Bool.not_eq_true', List.all_eq_false]
    exact ⟨e, he, Bool.eq_false_iff.mp h⟩
  obtain ⟨first, lines, split, e, he, l, hl, mem⟩ := splitLines_of_mem opened hb newline
  have same : d = e := Option.some.inj (last.symm.trans he)
  have begins : c ∈ first := by
    rw [splitLines_of_visible visible] at split
    cases hlines : splitLines text with
    | nil =>
      rw [hlines] at split
      rw [← (List.cons.inj split).1]
      exact List.mem_singleton.mpr rfl
    | cons line rest =>
      rw [hlines] at split
      rw [← (List.cons.inj split).1]
      exact List.mem_cons_self
  have later : 0 < lines.countP fun line => !line.all space :=
    List.countP_pos_iff.mpr ⟨l, hl, solid mem (same ▸ hd)⟩
  have count := List.countP_cons_of_pos (p := fun line : List Char => !line.all space) (l := lines)
    (solid begins hc)
  rw [split, count]
  omega

/-! ### Newlines -/

/-- The newlines of a file that is opened as text. -/
def universalNewlines : List Char → List Char
  | [] => []
  | '\r' :: '\n' :: text => '\n' :: universalNewlines text
  | '\r' :: text => '\n' :: universalNewlines text
  | c :: text => c :: universalNewlines text

theorem universalNewlines_of_forall {text : List Char} (h : '\r' ∉ text) :
  universalNewlines text = text
  := by
  induction text with
  | nil => rfl
  | cons c text ih =>
    rw [List.mem_cons, not_or] at h
    rw [universalNewlines.eq_4 _ _ (fun _ same => absurd same.symm h.1)
      (fun same => absurd same.symm h.1), ih h.2]

theorem not_mem_universalNewlines (text : List Char) :
  '\r' ∉ universalNewlines text
  := by
  fun_induction universalNewlines text with
  | case1 => exact List.not_mem_nil
  | case2 text ih => exact List.not_mem_cons_of_ne_of_not_mem (by decide) ih
  | case3 text _ ih => exact List.not_mem_cons_of_ne_of_not_mem (by decide) ih
  | case4 c text _ other ih => exact List.not_mem_cons_of_ne_of_not_mem (fun same => other same.symm) ih

/-- A carriage return is followed by a newline. -/
def Paired (text : List Char) : Prop :=
  text.IsChain fun a b => a = '\r' → b = '\n'

instance (text : List Char) : Decidable (Paired text) :=
  inferInstanceAs (Decidable (text.IsChain _))

/-- The carriage returns go if there is a newline after each. -/
theorem universalNewlines_of_paired {text : List Char} (paired : Paired text)
    (last : text.getLast? ≠ some '\r') :
  universalNewlines text = text.filter (· ≠ '\r')
  := by
  fun_induction universalNewlines text with
  | case1 => rfl
  | case2 text ih =>
    have rest : text.getLast? ≠ some '\r' := by
      rintro last'
      rw [List.getLast?_cons_cons, List.getLast?_cons, last'] at last
      exact last rfl
    rw [ih (List.isChain_cons.mp (List.isChain_cons.mp paired).2).2 rest]
    rfl
  | case3 text alone ih =>
    cases text with
    | nil => exact absurd rfl last
    | cons d text =>
      have newline := (List.isChain_cons.mp paired).1 d rfl rfl
      exact absurd (by rw [newline]) (alone text)
  | case4 c text _ other ih =>
    have visible : c ≠ '\r' := fun same => other same
    have rest : text.getLast? ≠ some '\r' := by
      rintro last'
      rw [List.getLast?_cons, last'] at last
      exact last rfl
    rw [ih (List.isChain_cons.mp paired).2 rest, List.filter_cons, if_pos (decide_eq_true visible)]

/-! ### Pieces between separators -/

section

variable {α : Type}

/-- The lines before a place, joined, are followed by a separator and the lines after it. -/
theorem intercalate_append {before after : List (List α)} (hb : before ≠ []) (ha : after ≠ [])
    (sep : List α) :
  sep.intercalate (before ++ after) = sep.intercalate before ++ (sep ++ sep.intercalate after)
  := by
  induction before with
  | nil => exact absurd rfl hb
  | cons line before ih =>
    cases before with
    | nil =>
      rw [List.singleton_append, List.intercalate_cons_of_ne_nil ha, List.intercalate_singleton,
        List.append_assoc]
    | cons next before =>
      have joined := ih (List.cons_ne_nil next before)
      rw [List.cons_append] at joined
      rw [List.cons_append, List.cons_append, List.intercalate_cons_cons, joined,
        List.intercalate_cons_cons, List.append_assoc, List.append_assoc, List.append_assoc]

/-- Some successive lines of a text are a piece of it. -/
theorem intercalate_slice_infix (lines : List (List α)) (sep : List α) (start stop : ℕ) :
  sep.intercalate ((lines.take stop).drop start) <:+: sep.intercalate lines
  := by
  have front : sep.intercalate (lines.take stop) <+: sep.intercalate lines := by
    by_cases none : lines.take stop = []
    · rw [none]
      exact List.nil_prefix
    by_cases all : lines.drop stop = []
    · have whole := List.take_append_drop stop lines
      rw [all, List.append_nil] at whole
      exact ⟨[], by rw [List.append_nil, whole]⟩
    · exact ⟨_, by rw [← intercalate_append none all, List.take_append_drop]⟩
  refine List.IsInfix.trans (List.IsSuffix.isInfix ?_) front.isInfix
  generalize lines.take stop = lines
  by_cases none : lines.drop start = []
  · rw [none]
    exact List.nil_suffix
  by_cases all : lines.take start = []
  · have whole := List.take_append_drop start lines
    rw [all, List.nil_append] at whole
    exact ⟨[], by rw [List.nil_append, whole]⟩
  · exact ⟨sep.intercalate (lines.take start) ++ sep, by
      rw [List.append_assoc, ← intercalate_append all none, List.take_append_drop]⟩

theorem filter_intercalate {p : α → Bool} {sep : List α} (kept : sep.filter p = sep)
    (lines : List (List α)) :
  (sep.intercalate lines).filter p = sep.intercalate (lines.map (List.filter p))
  := by
  induction lines with
  | nil => rfl
  | cons line lines ih =>
    cases lines with
    | nil =>
      rw [List.map_singleton, List.intercalate_singleton, List.intercalate_singleton]
    | cons next lines =>
      rw [List.intercalate_cons_cons, List.filter_append, List.filter_append, kept, ih,
        List.map_cons, List.map_cons, List.map_cons, List.intercalate_cons_cons]

variable [BEq α] [LawfulBEq α]

theorem not_mem_of_mem_splitOn {x : α} {text line : List α} (h : line ∈ text.splitOn x) :
  x ∉ line
  := by
  induction text generalizing line with
  | nil =>
    rw [List.splitOn_nil, List.mem_singleton] at h
    rw [h]
    exact List.not_mem_nil
  | cons c text ih =>
    rw [List.splitOn_cons_eq_if_modifyHead] at h
    split_ifs at h with same
    · rcases List.mem_cons.mp h with rfl | h
      · exact List.not_mem_nil
      · exact ih h
    · obtain ⟨first, rest, lines⟩ := List.exists_cons_of_ne_nil (List.splitOn_ne_nil x text)
      rw [lines, List.modifyHead_cons] at h
      rcases List.mem_cons.mp h with rfl | h
      · rw [List.mem_cons, not_or]
        refine ⟨fun eq => same (beq_iff_eq.mpr eq.symm), ih ?_⟩
        rw [lines]
        exact List.mem_cons_self
      · refine ih ?_
        rw [lines]
        exact List.mem_cons_of_mem first h

/-- A line is a piece of the text. -/
theorem piece_of_mem_splitOn {x : α} {text line : List α} (h : line ∈ text.splitOn x) :
  line <:+: text
  := by
  obtain ⟨i, hi, rfl⟩ := List.mem_iff_getElem.mp h
  have piece := intercalate_slice_infix (text.splitOn x) [x] i (i + 1)
  have one : ((text.splitOn x).take (i + 1)).drop i = [(text.splitOn x)[i]] := by
    rw [List.take_add_one, List.getElem?_eq_getElem hi,
      List.drop_append_of_le_length (by simp; omega)]
    simp
  rwa [one, List.intercalate_singleton, List.intercalate_splitOn] at piece

omit [LawfulBEq α] in
/-- The first line goes up to the first separator. -/
theorem head?_splitOn (x : α) (text : List α) :
  (text.splitOn x).head? = some (text.takeWhile fun c => !(c == x))
  := by
  induction text with
  | nil => rfl
  | cons c text ih =>
    rw [List.splitOn_cons_eq_if_modifyHead]
    split_ifs with same
    · rw [List.takeWhile_cons_of_neg (by rw [same]; exact Bool.false_ne_true)]
      rfl
    · rw [Bool.not_eq_true] at same
      rw [List.takeWhile_cons_of_pos (by rw [same]; rfl), List.head?_modifyHead, ih]
      rfl

/-- What is not the separator may be dropped before or after a text is taken apart. -/
theorem splitOn_filter {p : α → Bool} {x : α} (kept : p x) (text : List α) :
  (text.filter p).splitOn x = (text.splitOn x).map (List.filter p)
  := by
  have sep : [x].filter p = [x] := List.filter_eq_self.mpr fun y hy => by
    rw [List.mem_singleton.mp hy, kept]
  have apart : ∀ line ∈ (text.splitOn x).map (List.filter p), x ∉ line := by
    intro line hline
    obtain ⟨whole, hwhole, rfl⟩ := List.mem_map.mp hline
    exact fun mem => not_mem_of_mem_splitOn hwhole (List.mem_filter.mp mem).1
  have some : (text.splitOn x).map (List.filter p) ≠ [] := fun none =>
    List.splitOn_ne_nil x text (List.map_eq_nil_iff.mp none)
  rw [← List.splitOn_intercalate x apart some, ← filter_intercalate sep, List.intercalate_splitOn]

end

end Lines
