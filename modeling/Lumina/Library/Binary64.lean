import Mathlib.Algebra.Order.Field.Power
import Mathlib.Data.Int.Log
import Mathlib.Data.Rat.Floor
import Mathlib.Tactic.Linarith
import Mathlib.Tactic.NormNum

/-!
# The format binary64

The magnitudes of the finite numbers of the format, and the one that a rational number is rounded
to: the nearest one, with an even significand if there are two, and infinity above all of them.
-/

/-- A magnitude of the format: a significand of 53 bits, times a power of two. -/
def Binary64.Representable (q : ℚ) : Prop :=
  q < 2 ^ 1024 ∧ ∃ (m : ℕ) (k : ℤ), m ≤ 2 ^ 53 ∧ -1074 ≤ k ∧ q = m * 2 ^ k

/-- A finite number of the format. -/
structure Binary64 where
  negative : Bool
  magnitude : ℚ
  representable : Binary64.Representable magnitude
deriving DecidableEq

namespace Binary64

/-- The nearest natural number, and the even one if there are two. -/
def roundEven (q : ℚ) : ℕ :=
  let floor := ⌊q⌋₊
  if q - floor < 1 / 2 then floor
  else if 1 / 2 < q - floor then floor + 1
  else if floor % 2 = 0 then floor
  else floor + 1

/-- The exponent of the last bit of the significand. -/
def lastBit (q : ℚ) : ℤ :=
  max (Int.log 2 q - 52) (-1074)

/-- The magnitude that a number which is not negative is rounded to, unless that is infinity. -/
def nearest (q : ℚ) : Option ℚ :=
  let r := (roundEven (q / 2 ^ lastBit q) : ℚ) * 2 ^ lastBit q
  if r < 2 ^ 1024 then some r else none

theorem roundEven_natCast (m : ℕ) :
  roundEven m = m
  := by
  unfold roundEven
  dsimp only
  rw [Nat.floor_natCast, sub_self, if_pos (by norm_num)]

theorem zpow_pos (k : ℤ) :
  (0 : ℚ) < 2 ^ k
  := by
  positivity

/-- A magnitude of the format has its last bit where it is cut. -/
theorem lastBit_le {q : ℚ} {m : ℕ} {k : ℤ} (hm : m < 2 ^ 53) (hk : -1074 ≤ k)
    (hq : q = m * 2 ^ k) :
  lastBit q ≤ k ∨ q = 0
  := by
  by_cases zero : q = 0
  · right
    apply zero
  · left
    have positive : 0 < q := by
      apply lt_of_le_of_ne _ (Ne.symm zero)
      rw [hq]
      have := zpow_pos k
      positivity
    have below : q < (2 : ℚ) ^ (53 + k) := by
      rw [hq, zpow_add₀ (by norm_num)]
      have lt : (m : ℚ) < 2 ^ (53 : ℤ) := by exact_mod_cast hm
      apply mul_lt_mul_of_pos_right lt (zpow_pos k)
    have exponent : Int.log 2 q < 53 + k := by
      apply (Int.lt_zpow_iff_log_lt (b := 2) (by norm_num) positive).mp
      exact_mod_cast below
    apply max_le
    · omega
    · apply hk

/-- The significand may be taken to be less than `2 ^ 53`. -/
theorem Representable.normal {q : ℚ} (h : Representable q) :
  ∃ (m : ℕ) (k : ℤ), m < 2 ^ 53 ∧ -1074 ≤ k ∧ q = m * 2 ^ k
  := by
  obtain ⟨-, m, k, hm, hk, hq⟩ := h
  by_cases full : m = 2 ^ 53
  · refine ⟨2 ^ 52, k + 1, by norm_num, by omega, ?_⟩
    rw [hq, full, zpow_add₀ (by norm_num)]
    norm_num
    ring
  · exact ⟨m, k, lt_of_le_of_ne hm full, hk, hq⟩

theorem mul_zpow_div {m : ℕ} {e k : ℤ} (h : e ≤ k) :
  (m * 2 ^ k / 2 ^ e : ℚ) = (m * 2 ^ (k - e).toNat : ℕ)
  := by
  rw [mul_div_assoc, ← zpow_sub₀ (by norm_num)]
  push_cast
  rw [← zpow_natCast, Int.toNat_of_nonneg (by omega)]

/-- A number of the format is rounded to itself. -/
theorem nearest_of_representable {q : ℚ} (h : Representable q) :
  nearest q = some q
  := by
  obtain ⟨m, k, hm, hk, hq⟩ := h.normal
  have exact : roundEven (q / 2 ^ lastBit q) * (2 : ℚ) ^ lastBit q = q := by
    obtain le | zero := lastBit_le hm hk hq
    · have whole : q / 2 ^ lastBit q = (m * 2 ^ (k - lastBit q).toNat : ℕ) := by
        nth_rewrite 1 [hq]
        apply mul_zpow_div le
      rw [whole, roundEven_natCast, ← whole]
      apply div_mul_cancel₀ q (zpow_pos _).ne'
    · have natural : roundEven ((0 : ℕ) : ℚ) = 0 := roundEven_natCast 0
      rw [zero, zero_div]
      rw [Nat.cast_zero] at natural
      rw [natural, Nat.cast_zero, zero_mul]
  unfold nearest
  dsimp only
  rw [exact, if_pos h.1]

/-- The integers up to `2 ^ 53` are numbers of the format. -/
theorem representable_natCast {n : ℕ} (h : n ≤ 2 ^ 53) :
  Representable n
  := by
  constructor
  · calc
      (n : ℚ) ≤ 2 ^ 53 := by exact_mod_cast h
      _ < 2 ^ 1024 := by
        apply pow_lt_pow_right₀ (by norm_num) (by norm_num)
  · refine ⟨n, 0, h, by norm_num, ?_⟩
    rw [zpow_zero, mul_one]

/-- Rounding to a natural number goes down by a half at most. -/
theorem sub_half_le_roundEven (q : ℚ) :
  q - 1 / 2 ≤ roundEven q
  := by
  have below := Nat.lt_floor_add_one q
  unfold roundEven
  dsimp only
  split_ifs with down
  · linarith
  · push_cast
    linarith
  · linarith
  · push_cast
    linarith

/-- Rounding goes down by a half of the last bit at most. -/
theorem sub_le_nearest {q r : ℚ} (h : nearest q = some r) :
  q - 2 ^ lastBit q / 2 ≤ r
  := by
  have positive := zpow_pos (lastBit q)
  obtain ⟨-, rfl⟩ : _ ∧ _ = r := by
    unfold nearest at h
    dsimp only at h
    split_ifs at h with small
    exact ⟨small, Option.some.inj h⟩
  have scaled := sub_half_le_roundEven (q / 2 ^ lastBit q)
  calc q - 2 ^ lastBit q / 2
    _ = (q / 2 ^ lastBit q - 1 / 2) * 2 ^ lastBit q := by
      rw [sub_mul, div_mul_cancel₀ q positive.ne']
      ring
    _ ≤ roundEven (q / 2 ^ lastBit q) * 2 ^ lastBit q :=
      mul_le_mul_of_nonneg_right scaled positive.le

/-- The last bit is small beside the number, unless the number is. -/
theorem zpow_lastBit_le {q : ℚ} (h : 0 < q) :
  (2 : ℚ) ^ lastBit q ≤ max (q / 2 ^ 52) (1 / 2 ^ 1074)
  := by
  have whole : (2 : ℚ) ^ (Int.log 2 q - 52) ≤ q / 2 ^ 52 := by
    rw [zpow_sub₀ (by norm_num)]
    have le := Int.zpow_log_le_self (R := ℚ) (b := 2) (by norm_num) h
    exact div_le_div_of_nonneg_right (by exact_mod_cast le) (by positivity)
  unfold lastBit
  rcases max_choice (Int.log 2 q - 52) (-1074) with eq | eq
  · rw [eq]
    exact le_max_of_le_left whole
  · rw [eq]
    exact le_max_of_le_right (by rw [zpow_neg, one_div]; rfl)

end Binary64
