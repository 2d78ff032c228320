import Lumina.Etl.ChunkSize
import Lumina.Library.Rounding

/-!
# The slices of a long sentence

A sentence that is over the budget is cut at every so many characters: as many as the budget has
tokens, by the ratio of tokens to characters in the whole sentence.  A slice where the characters of
one token each are closer together than in the whole has more tokens.  So the slices are within the
budget exactly if no slice is too dense; a sentence of one kind of characters has no such slice.
-/

namespace Lumina.Etl

open Binary64 (nearest)

/-! ### Divisions that overflow -/

/-- `max(int(budget / ratio), 1)`; there is none if a float or its quotient is infinite, where `int`
or the division raises `OverflowError`. -/
def stepOrOverflow (budget tokens length : ℕ) : Option ℕ := do
  let ratio ← nearest (tokens / length)
  let budget ← nearest budget
  let characters ← nearest (budget / ratio)
  return max ⌊characters⌋₊ 1

/-- `_hard_split`, with the exception that a huge budget comes to. -/
def hardSplitOrOverflow (c : Chunker) (text : Text) (budget : ℕ) : Option (List Text) :=
  if text = [] then some []
  else
    (stepOrOverflow budget (max (c.countTokens text) 1) text.length).map fun step =>
      slicesUpTo step text.length text

theorem stepFor_of_stepOrOverflow {budget tokens length step : ℕ}
    (h : stepOrOverflow budget tokens length = some step) :
  stepFor budget tokens length = step
  := by
  simp only [stepOrOverflow, Option.bind_eq_bind, Option.bind_eq_some_iff, Option.pure_def,
    Option.some.injEq] at h
  obtain ⟨ratio, hratio, float, hfloat, characters, hcharacters, rfl⟩ := h
  unfold stepFor
  dsimp only
  rw [div_one, hratio, hfloat, Option.getD_some, Option.getD_some, hcharacters, Option.getD_some]

/-- Where it does not raise, it is what the chunker is modelled with. -/
theorem hardSplit_of_hardSplitOrOverflow {c : Chunker} {text : Text} {budget : ℕ}
    {pieces : List Text} (h : hardSplitOrOverflow c text budget = some pieces) :
  hardSplit c text budget = pieces
  := by
  unfold hardSplitOrOverflow at h
  split_ifs at h with empty
  · rw [empty, ← Option.some.inj h]
    rfl
  · obtain ⟨step, hstep, rfl⟩ := Option.map_eq_some_iff.mp h
    rw [hardSplit, stepFor_of_stepOrOverflow hstep]

/-- At least one character is taken. -/
theorem pos_of_stepOrOverflow {budget tokens length step : ℕ}
    (h : stepOrOverflow budget tokens length = some step) :
  0 < step
  := by
  rw [← stepFor_of_stepOrOverflow h]
  exact lt_of_lt_of_le Nat.one_pos (Nat.le_max_right _ 1)

/-! ### The slices -/

/-- The slices are the windows of a text at the multiples of the step. -/
theorem mem_slicesUpTo_iff {step : ℕ} (pos : 0 < step) {n : ℕ} {text : Text}
    (enough : text.length ≤ n) {slice : Text} :
  slice ∈ slicesUpTo step n text ↔
    ∃ k, k * step < text.length ∧ slice = (text.drop (k * step)).take step
  := by
  induction n generalizing text with
  | zero =>
    rw [List.eq_nil_of_length_eq_zero (Nat.le_zero.mp enough)]
    simp [slicesUpTo]
  | succ n ih =>
    unfold slicesUpTo
    split_ifs with empty
    · rw [empty]
      simp
    have some := List.length_pos_of_ne_nil empty
    have shorter : (text.drop step).length ≤ n := by
      rw [List.length_drop]
      omega
    rw [List.mem_cons, ih shorter]
    constructor
    · rintro (rfl | ⟨k, within, rfl⟩)
      · exact ⟨0, by rwa [Nat.zero_mul], by rw [Nat.zero_mul, List.drop_zero]⟩
      · rw [List.length_drop] at within
        refine ⟨k + 1, by rw [Nat.succ_mul]; omega, ?_⟩
        rw [List.drop_drop, Nat.succ_mul, Nat.add_comm]
    · rintro ⟨k, within, rfl⟩
      cases k with
      | zero =>
        rw [Nat.zero_mul, List.drop_zero]
        exact Or.inl rfl
      | succ k =>
        rw [Nat.succ_mul] at within
        refine Or.inr ⟨k, by rw [List.length_drop]; omega, ?_⟩
        rw [List.drop_drop, Nat.succ_mul, Nat.add_comm]

/-! ### The density of a slice -/

/-- The CJK characters of a slice, of one token each, leave room for the others, of a quarter. -/
def Sparse (budget : ℕ) (slice : Text) : Prop :=
  3 * slice.countP isCjk + slice.length ≤ 4 * budget

instance {budget : ℕ} : DecidablePred (Sparse budget) := fun _ => inferInstanceAs (Decidable (_ ≤ _))

theorem estimateTokens_le_iff {budget : ℕ} {slice : Text} :
  estimateTokens slice ≤ budget ↔ Sparse budget slice
  := by
  have cjk : slice.countP isCjk ≤ slice.length := List.countP_le_length
  unfold estimateTokens Sparse
  dsimp only
  omega

/-- No window of a text at a multiple of its width has too many CJK characters for its length. -/
def EvenlySparse (budget width : ℕ) (text : Text) : Prop :=
  ∀ k, k * width < text.length → Sparse budget ((text.drop (k * width)).take width)

/-- The slices are the text, and each of them is within the budget. -/
def SplitsWithin (c : Chunker) (text : Text) (budget : ℕ) : Prop :=
  ∃ pieces, hardSplitOrOverflow c text budget = some pieces ∧ pieces.flatten = text ∧
    ∀ piece ∈ pieces, c.countTokens piece ≤ budget

variable (targetTokens overlapTokens : ℤ) {text : Text} {budget : ℕ}

theorem splitsWithin_iff_of_step (filled : text ≠ []) {width : ℕ}
    (h : stepOrOverflow budget (max (estimateTokens text) 1) text.length = some width) :
  SplitsWithin ⟨targetTokens, overlapTokens, estimateTokens⟩ text budget ↔
    EvenlySparse budget width text
  := by
  have pos := pos_of_stepOrOverflow h
  have split : hardSplitOrOverflow ⟨targetTokens, overlapTokens, estimateTokens⟩ text budget =
      some (slicesUpTo width text.length text) := by
    rw [hardSplitOrOverflow, if_neg filled, h, Option.map_some]
  constructor
  · rintro ⟨pieces, hpieces, -, within⟩ k hk
    obtain rfl := Option.some.inj (split.symm.trans hpieces)
    exact estimateTokens_le_iff.mp
      (within _ ((mem_slicesUpTo_iff pos le_rfl).mpr ⟨k, hk, rfl⟩))
  · intro sparse
    refine ⟨_, split, flatten_slicesUpTo pos _ _ le_rfl, fun piece mem => ?_⟩
    obtain ⟨k, hk, rfl⟩ := (mem_slicesUpTo_iff pos le_rfl).mp mem
    exact estimateTokens_le_iff.mpr (sparse k hk)

/-- A budget that a float can hold gives a step, and a lower bound of the ratio an upper bound of
the step. -/
theorem exists_step {tokens length characters : ℕ} {ratio : ℚ} (pos : 0 < budget)
    (small : budget ≤ 2 ^ 53) (filled : 0 < length) (upper : tokens ≤ length) (positive : 0 < ratio)
    (hratio : Binary64.Representable ratio) (lower : ratio ≤ tokens / length)
    (hcharacters : Binary64.Representable characters) (le : budget / ratio ≤ characters) :
  ∃ step ≤ max characters 1, stepOrOverflow budget tokens length = some step
  := by
  have length_pos : (0 : ℚ) < length := by exact_mod_cast filled
  have one : Binary64.Representable 1 := by
    exact_mod_cast Binary64.representable_natCast (n := 1) (by norm_num)
  have quotient : (tokens / length : ℚ) ≤ 1 := by
    rw [div_le_one length_pos]
    exact_mod_cast upper
  have tokens_pos : (0 : ℚ) < tokens / length := lt_of_lt_of_le positive lower
  obtain ⟨r, hr, -⟩ := Rounding.nearest_le tokens_pos one quotient
  have above : ratio ≤ r := Rounding.le_nearest tokens_pos hratio lower hr
  have float := Binary64.nearest_of_representable (Binary64.representable_natCast small)
  have budget_pos : (0 : ℚ) < budget := by exact_mod_cast pos
  have fewer : (budget / r : ℚ) ≤ characters :=
    (div_le_div_of_nonneg_left budget_pos.le positive above).trans le
  obtain ⟨x, hx, within⟩ :=
    Rounding.nearest_le (div_pos budget_pos (lt_of_lt_of_le positive above)) hcharacters fewer
  refine ⟨max ⌊x⌋₊ 1, max_le_max_right 1 (Nat.floor_le_of_le within), ?_⟩
  simp only [stepOrOverflow, hr, float, hx, Option.bind_eq_bind, Option.bind_some, Option.pure_def]

theorem estimateTokens_le_length (text : Text) :
  estimateTokens text ≤ text.length
  := by
  have cjk : text.countP isCjk ≤ text.length := List.countP_le_length
  unfold estimateTokens
  dsimp only
  omega

theorem estimateTokens_pos (filled : text ≠ []) :
  1 ≤ estimateTokens text
  := by
  have pos := List.length_pos_of_ne_nil filled
  unfold estimateTokens
  dsimp only
  omega

/-- A token is four characters at most. -/
theorem quarter_le_ratio (filled : text ≠ []) :
  (1 / 4 : ℚ) ≤ estimateTokens text / text.length
  := by
  have pos : (0 : ℚ) < text.length := by exact_mod_cast List.length_pos_of_ne_nil filled
  have all : text.length ≤ 4 * estimateTokens text := by
    have cjk : text.countP isCjk ≤ text.length := List.countP_le_length
    unfold estimateTokens
    dsimp only
    omega
  have all : (text.length : ℚ) ≤ 4 * estimateTokens text := by exact_mod_cast all
  rw [le_div_iff₀ pos]
  linarith

theorem representable_four_mul (small : budget ≤ 2 ^ 53) :
  Binary64.Representable ((4 * budget : ℕ) : ℚ)
  := by
  refine ⟨?_, budget, 2, small, by norm_num, by push_cast; ring⟩
  calc
    ((4 * budget : ℕ) : ℚ) ≤ 2 ^ 55 := by exact_mod_cast (by omega : 4 * budget ≤ 2 ^ 55)
    _ < 2 ^ 1024 := pow_lt_pow_right₀ (by norm_num) (by norm_num)

/-- No slice of a text is denser than the text if the text is within the budget or all of its
characters are of one kind. -/
theorem splitsWithin_of_uniform (pos : 0 < budget) (small : budget ≤ 2 ^ 53)
    (uniform : estimateTokens text ≤ budget ∨ text.countP isCjk = 0 ∨
      text.countP isCjk = text.length) :
  SplitsWithin ⟨targetTokens, overlapTokens, estimateTokens⟩ text budget
  := by
  by_cases empty : text = []
  · rw [empty]
    exact ⟨[], rfl, rfl, fun _ h => (nomatch h)⟩
  have length_pos := List.length_pos_of_ne_nil empty
  have tokens : max (estimateTokens text) 1 = estimateTokens text :=
    max_eq_left (estimateTokens_pos empty)
  have quarter : Binary64.Representable (1 / 4) :=
    ⟨lt_trans (by norm_num) (one_lt_pow₀ (by norm_num : (1 : ℚ) < 2) (by norm_num)), 1, -2,
      by norm_num, by norm_num, by norm_num⟩
  have four : (budget / (1 / 4) : ℚ) ≤ (4 * budget : ℕ) := by
    push_cast
    linarith
  obtain ⟨step, bound, hstep⟩ := exists_step pos small length_pos (estimateTokens_le_length text)
    (by norm_num) quarter (quarter_le_ratio empty) (representable_four_mul small) four
  rw [← tokens] at hstep
  refine (splitsWithin_iff_of_step targetTokens overlapTokens empty hstep).mpr fun k hk => ?_
  have piece : ((text.drop (k * step)).take step).Sublist text :=
    (List.take_sublist _ _).trans (List.drop_sublist _ _)
  rcases uniform with within | none | all
  · exact estimateTokens_le_iff.mp ((estimateTokens_mono piece).trans within)
  · have cjk := piece.countP_le (p := isCjk)
    have short := List.length_take_le step (text.drop (k * step))
    unfold Sparse
    omega
  · have one : Binary64.Representable 1 := by
      exact_mod_cast Binary64.representable_natCast (n := 1) (by norm_num)
    have whole : estimateTokens text = text.length := by
      unfold estimateTokens
      dsimp only
      omega
    have ratio : (1 : ℚ) ≤ estimateTokens text / text.length := by
      rw [whole, div_self (by exact_mod_cast length_pos.ne')]
    obtain ⟨step', bound', hstep'⟩ := exists_step pos small length_pos
      (estimateTokens_le_length text) one_pos one ratio (Binary64.representable_natCast small)
      (by rw [div_one])
    rw [← tokens, hstep] at hstep'
    obtain rfl := Option.some.inj hstep'
    have cjk : ((text.drop (k * step)).take step).countP isCjk ≤ _ := List.countP_le_length
    have short := List.length_take_le step (text.drop (k * step))
    unfold Sparse
    omega

end Lumina.Etl
