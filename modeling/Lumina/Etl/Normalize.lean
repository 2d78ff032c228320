import Lumina.Etl.Clean
import Mathlib.Data.List.Chain

/-!
# Normal texts

What the normalisation of white space has done is not done again: a normalised text is normal, and
a normal text is normalised to itself.  The words of a text, by which headers are found, are those
of the normalised text.
-/

namespace Lumina.Etl

/-- A text that the normalisation leaves as it is. -/
structure Normal (text : Text) : Prop where
  visible : ∀ c ∈ text, isInvisible c = false
  lines : text.IsChain fun a b => isBlank a → b ≠ '\n'
  blankLines : ¬ ['\n', '\n', '\n'] <:+: text
  first : ∀ c ∈ text.head?, isSpace c = false
  last : ∀ c ∈ text.getLast?, isSpace c = false

/-! ### The steps of the normalisation -/

theorem trimLines_cons (c : Char) (text : Text) :
  trimLines (c :: text) =
    if isBlank c && (trimLines text = [] || (trimLines text).head? = some '\n') then trimLines text
    else c :: trimLines text
  := rfl

theorem squeezeLines_cons (c : Char) (text : Text) :
  squeezeLines (c :: text) =
    if ['\n', '\n', '\n'] <+: c :: squeezeLines text then squeezeLines text
    else c :: squeezeLines text
  := rfl

theorem trimLines_sublist (text : Text) :
  (trimLines text).Sublist text
  := by
  induction text with
  | nil => exact List.Sublist.refl []
  | cons c text ih =>
    rw [trimLines_cons]
    split_ifs
    · exact ih.cons c
    · exact ih.cons_cons c

theorem squeezeLines_sublist (text : Text) :
  (squeezeLines text).Sublist text
  := by
  induction text with
  | nil => exact List.Sublist.refl []
  | cons c text ih =>
    rw [squeezeLines_cons]
    split_ifs
    · exact ih.cons c
    · exact ih.cons_cons c

theorem strip_infix (text : Text) :
  strip text <:+: text
  := by
  have front : strip text <+: text.dropWhile isSpace := List.rdropWhile_prefix isSpace _
  exact front.isInfix.trans (List.dropWhile_suffix isSpace).isInfix

/-- No blank is left before the end of a line. -/
theorem isChain_trimLines (text : Text) :
  (trimLines text).IsChain fun a b => isBlank a → b ≠ '\n'
  := by
  induction text with
  | nil => exact List.isChain_nil
  | cons c text ih =>
    rw [trimLines_cons]
    split_ifs with blank
    · exact ih
    · apply List.isChain_cons.mpr
      refine ⟨?_, ih⟩
      rintro d hd blanks rfl
      rw [Option.mem_def] at hd
      exact blank (by simp [blanks, hd])

/-- The first of a run of newlines is followed by another one. -/
theorem head?_squeezeLines (text : Text) :
  (squeezeLines text).head? = text.head?
  := by
  cases text with
  | nil => rfl
  | cons c text =>
    rw [squeezeLines_cons]
    split_ifs with run
    · obtain ⟨rfl, two⟩ := List.cons_prefix_cons.mp run
      obtain ⟨rest, two⟩ := two
      rw [← two]
      rfl
    · rfl

theorem isChain_squeezeLines {R : Char → Char → Prop} {text : Text} (h : text.IsChain R) :
  (squeezeLines text).IsChain R
  := by
  induction text with
  | nil => exact h
  | cons c text ih =>
    obtain ⟨next, rest⟩ := List.isChain_cons.mp h
    rw [squeezeLines_cons]
    split_ifs
    · exact ih rest
    · apply List.isChain_cons.mpr
      rw [head?_squeezeLines]
      exact ⟨next, ih rest⟩

/-- There are no three newlines in a row. -/
theorem blankLines_squeezeLines (text : Text) :
  ¬ ['\n', '\n', '\n'] <:+: squeezeLines text
  := by
  induction text with
  | nil => decide
  | cons c text ih =>
    rw [squeezeLines_cons]
    split_ifs with run
    · exact ih
    · rw [List.infix_cons_iff, not_or]
      exact ⟨run, ih⟩

theorem isSpace_head?_dropWhile {text : Text} {c : Char} (h : c ∈ (text.dropWhile isSpace).head?) :
  isSpace c = false
  := by
  have stop := List.head?_dropWhile_not isSpace text
  rwa [h] at stop

theorem isSpace_getLast?_rstrip {text : Text} {c : Char} (h : c ∈ (rstrip text).getLast?) :
  isSpace c = false
  := by
  rw [rstrip, List.rdropWhile, List.getLast?_reverse] at h
  exact isSpace_head?_dropWhile h

theorem isSpace_head?_strip {text : Text} {c : Char} (h : c ∈ (strip text).head?) :
  isSpace c = false
  := by
  obtain ⟨rest, front⟩ : strip text <+: text.dropWhile isSpace := List.rdropWhile_prefix isSpace _
  refine isSpace_head?_dropWhile (?_ : c ∈ (text.dropWhile isSpace).head?)
  rw [← front, List.head?_append, h]
  rfl

theorem normal_normalize (text : Text) :
  Normal (normalize text)
  := by
  have inside := strip_infix (squeezeLines (trimLines (visible text)))
  constructor
  · intro c hc
    have seen := (squeezeLines_sublist _).subset (inside.subset hc)
    have seen := (trimLines_sublist _).subset seen
    simpa [visible] using (List.mem_filter.mp seen).2
  · exact List.IsChain.infix (isChain_squeezeLines (isChain_trimLines _)) inside
  · exact fun three => blankLines_squeezeLines _ (three.trans inside)
  · exact fun c => isSpace_head?_strip
  · exact fun c => isSpace_getLast?_rstrip

/-! ### Normal texts are left alone -/

theorem visible_eq_self {text : Text} (h : ∀ c ∈ text, isInvisible c = false) :
  visible text = text
  := by
  apply List.filter_eq_self.mpr
  intro c hc
  rw [h c hc]
  rfl

theorem isSpace_of_isBlank {c : Char} (h : isBlank c) : isSpace c := by
  unfold isBlank at h
  rw [Bool.or_eq_true, decide_eq_true_eq, decide_eq_true_eq] at h
  obtain rfl | rfl := h
  all_goals decide

theorem trimLines_eq_self {text : Text} (lines : text.IsChain fun a b => isBlank a → b ≠ '\n')
    (last : ∀ c ∈ text.getLast?, isSpace c = false) :
  trimLines text = text
  := by
  induction text with
  | nil => rfl
  | cons c text ih =>
    obtain ⟨next, rest⟩ := List.isChain_cons.mp lines
    have same : trimLines text = text := by
      cases text with
      | nil => rfl
      | cons d text => exact ih rest fun e he => last e (by rwa [List.getLast?_cons_cons])
    rw [trimLines_cons, same, if_neg]
    rw [Bool.and_eq_true, Bool.or_eq_true, decide_eq_true_eq, decide_eq_true_eq]
    rintro ⟨blank, rfl | newline⟩
    · have space := last c rfl
      rw [isSpace_of_isBlank blank] at space
      cases space
    · exact next '\n' newline blank rfl

theorem squeezeLines_eq_self {text : Text} (h : ¬ ['\n', '\n', '\n'] <:+: text) :
  squeezeLines text = text
  := by
  induction text with
  | nil => rfl
  | cons c text ih =>
    rw [List.infix_cons_iff, not_or] at h
    rw [squeezeLines_cons, ih h.2, if_neg h.1]

theorem strip_eq_self {text : Text} (first : ∀ c ∈ text.head?, isSpace c = false)
    (last : ∀ c ∈ text.getLast?, isSpace c = false) :
  strip text = text
  := by
  have front : text.dropWhile isSpace = text := by
    cases text with
    | nil => rfl
    | cons c text => exact List.dropWhile_cons_of_neg (by simp [first c rfl])
  rw [strip, front, rstrip, List.rdropWhile_eq_self_iff]
  intro nonempty space
  have visible := last _ (List.getLast?_eq_some_getLast nonempty)
  rw [space] at visible
  cases visible

theorem normalize_of_normal {text : Text} (h : Normal text) :
  normalize text = text
  := by
  rw [normalize, visible_eq_self h.visible, trimLines_eq_self h.lines h.last,
    squeezeLines_eq_self h.blankLines, strip_eq_self h.first h.last]

theorem normalize_normalize (text : Text) :
  normalize (normalize text) = normalize text
  := normalize_of_normal (normal_normalize text)

/-! ### Words -/

theorem splitWord_nil : splitWord [] = ([], []) := rfl

theorem splitWord_of_space {c : Char} (h : isSpace c) (text : Text) :
  splitWord (c :: text) = ([], splitWords text)
  := if_pos h

theorem splitWord_of_visible {c : Char} (h : isSpace c = false) (text : Text) :
  splitWord (c :: text) = (c :: (splitWord text).1, (splitWord text).2)
  := if_neg (by simp [h])

theorem splitWords_of_splitWord {s t : Text} (h : splitWord s = splitWord t) :
  splitWords s = splitWords t
  := by
  unfold splitWords
  rw [h]

/-- Two texts with the same words have them after one more character. -/
theorem splitWord_cons {s t : Text} (h : splitWord s = splitWord t) (c : Char) :
  splitWord (c :: s) = splitWord (c :: t)
  := by
  cases space : isSpace c with
  | true => rw [splitWord_of_space space, splitWord_of_space space, splitWords_of_splitWord h]
  | false => rw [splitWord_of_visible space, splitWord_of_visible space, h]

/-- White space before white space, or before nothing, makes no word. -/
theorem splitWord_space_cons {c : Char} (h : isSpace c) {text : Text}
    (next : ∀ d ∈ text.head?, isSpace d) :
  splitWord (c :: text) = splitWord text
  := by
  rw [splitWord_of_space h]
  cases text with
  | nil => rfl
  | cons d text =>
    have words := splitWord_of_space (next d rfl) text
    rw [splitWords, words]
    rfl

theorem splitWord_trimLines (text : Text) :
  splitWord (trimLines text) = splitWord text
  := by
  induction text with
  | nil => rfl
  | cons c text ih =>
    rw [trimLines_cons]
    split_ifs with blank
    · obtain ⟨blank, stop⟩ := Bool.and_eq_true_iff.mp blank
      rw [Bool.or_eq_true, decide_eq_true_eq, decide_eq_true_eq] at stop
      have next : ∀ d ∈ (trimLines text).head?, isSpace d := by
        intro d hd
        obtain none | newline := stop
        · rw [none] at hd
          cases hd
        · rw [newline] at hd
          rw [← Option.some.inj hd]
          decide
      rw [← splitWord_cons ih c, splitWord_space_cons (isSpace_of_isBlank blank) next]
    · exact splitWord_cons ih c

theorem splitWord_squeezeLines (text : Text) :
  splitWord (squeezeLines text) = splitWord text
  := by
  induction text with
  | nil => rfl
  | cons c text ih =>
    rw [squeezeLines_cons]
    split_ifs with run
    · obtain ⟨rfl, rest, two⟩ := List.cons_prefix_cons.mp run
      have next : ∀ d ∈ (squeezeLines text).head?, isSpace d := by
        rw [← two]
        rintro d ⟨⟩
        decide
      rw [← splitWord_cons ih, splitWord_space_cons (by decide) next]
    · exact splitWord_cons ih c

theorem splitWords_of_space {c : Char} (h : isSpace c) (text : Text) :
  splitWords (c :: text) = splitWords text
  := by
  rw [splitWords.eq_1 (c :: text), splitWord_of_space h]
  rfl

theorem splitWords_dropWhile {p : Char → Bool} (h : ∀ c, p c → isSpace c) (text : Text) :
  splitWords (text.dropWhile p) = splitWords text
  := by
  induction text with
  | nil => rfl
  | cons c text ih =>
    cases space : p c with
    | false => rw [List.dropWhile_cons_of_neg (by simp [space])]
    | true => rw [List.dropWhile_cons_of_pos space, ih, splitWords_of_space (h c space)]

theorem splitWord_append_spaces (text : Text) {spaces : Text} (h : ∀ c ∈ spaces, isSpace c) :
  splitWord (text ++ spaces) = splitWord text
  := by
  induction text with
  | cons c text ih => exact splitWord_cons ih c
  | nil =>
    rw [List.nil_append]
    induction spaces with
    | nil => rfl
    | cons c spaces ih =>
      have rest := ih fun d hd => h d (List.mem_cons_of_mem c hd)
      have none : ∀ d ∈ ([] : Text).head?, isSpace d := nofun
      rw [splitWord_cons rest, splitWord_space_cons (h c List.mem_cons_self) none]

theorem splitWords_rdropWhile {p : Char → Bool} (h : ∀ c, p c → isSpace c) (text : Text) :
  splitWords (text.rdropWhile p) = splitWords text
  := by
  have spaces : ∀ c ∈ text.rtakeWhile p, isSpace c :=
    fun c hc => h c (List.mem_rtakeWhile_imp hc)
  have words := splitWord_append_spaces (text.rdropWhile p) spaces
  rw [List.rdropWhile_append_rtakeWhile] at words
  exact splitWords_of_splitWord words.symm

theorem splitWords_strip (text : Text) :
  splitWords (strip text) = splitWords text
  := (splitWords_rdropWhile (fun _ => id) _).trans (splitWords_dropWhile (fun _ => id) text)

/-- A block is compared with the headers by the same text before and after the normalisation. -/
theorem normalizeForMatch_normalize (text : Text) :
  normalizeForMatch (normalize text) = normalizeForMatch text
  := by
  have words : splitWords (normalize text) = splitWords (visible text) := by
    rw [normalize, splitWords_strip, splitWords_of_splitWord (splitWord_squeezeLines _),
      splitWords_of_splitWord (splitWord_trimLines _)]
  rw [normalizeForMatch, visible_eq_self (normal_normalize text).visible, words, normalizeForMatch]

end Lumina.Etl
