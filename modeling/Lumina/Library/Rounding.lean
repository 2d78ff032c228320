import Lumina.Library.Binary64

/-!
# Rounding to significant digits

A number that is not negative, rounded to a number of digits in a base, half to even, with a least
place that is kept: the arithmetic of `binary64` and of decimals alike.  Rounding keeps the order
to the numbers that have so few digits, and leaves these as they are.
-/

namespace Rounding

open Binary64 (roundEven)

/-- The place of the last digit that is kept: `more` digits follow the first one. -/
def lastPlace (base more : ℕ) (least : ℤ) (q : ℚ) : ℤ :=
  max (Int.log base q - more) least

/-- The nearest number of so many digits, and the even one if there are two. -/
def roundTo (base more : ℕ) (least : ℤ) (q : ℚ) : ℚ :=
  roundEven (q / (base : ℚ) ^ lastPlace base more least q) *
    (base : ℚ) ^ lastPlace base more least q

/-- A number of so many digits. -/
def Representable (base more : ℕ) (least : ℤ) (q : ℚ) : Prop :=
  ∃ (m : ℕ) (k : ℤ), m ≤ base ^ (more + 1) ∧ least ≤ k ∧ q = m * (base : ℚ) ^ k

theorem roundEven_le {q : ℚ} {m : ℕ} (h : q ≤ m) :
  roundEven q ≤ m
  := by
  by_cases whole : q = m
  · rw [whole, Binary64.roundEven_natCast]
  by_cases negative : q < 0
  · have floor : ⌊q⌋₊ = 0 := Nat.floor_of_nonpos negative.le
    unfold roundEven
    dsimp only
    rw [floor, Nat.cast_zero, sub_zero, if_pos (by linarith)]
    exact Nat.zero_le m
  have below : ⌊q⌋₊ < m := (Nat.floor_lt (not_lt.mp negative)).mpr (lt_of_le_of_ne h whole)
  unfold roundEven
  dsimp only
  split_ifs <;> omega

theorem le_roundEven {q : ℚ} {m : ℕ} (h : m ≤ q) :
  m ≤ roundEven q
  := by
  have below : m ≤ ⌊q⌋₊ := Nat.le_floor h
  unfold roundEven
  dsimp only
  split_ifs <;> omega

theorem lt_of_roundEven_lt {q : ℚ} {m : ℕ} (h : roundEven q < m) :
  q < m
  := by
  by_contra large
  exact absurd h (not_lt.mpr (le_roundEven (not_lt.mp large)))

section

variable {base more : ℕ} {least : ℤ} (hb : 1 < base)
include hb

theorem zpow_pos (k : ℤ) :
  (0 : ℚ) < (base : ℚ) ^ k
  := by
  have pos : (0 : ℚ) < base := by exact_mod_cast Nat.zero_lt_of_lt hb
  positivity

theorem cast_ne_zero :
  (base : ℚ) ≠ 0
  := by
  exact_mod_cast Nat.ne_of_gt (Nat.zero_lt_of_lt hb)

/-- The digits may be taken to be fewer than the power of the base. -/
theorem Representable.normal {q : ℚ} (h : Representable base more least q) :
  ∃ (m : ℕ) (k : ℤ), m < base ^ (more + 1) ∧ least ≤ k ∧ q = m * (base : ℚ) ^ k
  := by
  obtain ⟨m, k, hm, hk, hq⟩ := h
  by_cases full : m = base ^ (more + 1)
  · refine ⟨base ^ more, k + 1, Nat.pow_lt_pow_right hb (Nat.lt_succ_self more), by omega, ?_⟩
    rw [hq, full, zpow_add₀ (cast_ne_zero hb), zpow_one]
    push_cast
    ring
  · exact ⟨m, k, lt_of_le_of_ne hm full, hk, hq⟩

theorem mul_zpow_div {m : ℕ} {e k : ℤ} (h : e ≤ k) :
  (m * (base : ℚ) ^ k / (base : ℚ) ^ e : ℚ) = (m * base ^ (k - e).toNat : ℕ)
  := by
  rw [mul_div_assoc, ← zpow_sub₀ (cast_ne_zero hb)]
  push_cast
  rw [← zpow_natCast, Int.toNat_of_nonneg (by omega)]

/-- A number of so many digits whose last place is before the one that is kept of another number is
less than that. -/
theorem lt_of_lt_lastPlace {q : ℚ} {m : ℕ} {k : ℤ} (positive : 0 < q)
    (hm : m < base ^ (more + 1)) (hk : least ≤ k) (cut : k < lastPlace base more least q) :
  m * (base : ℚ) ^ k < (base : ℚ) ^ more * (base : ℚ) ^ lastPlace base more least q ∧
    (base : ℚ) ^ more * (base : ℚ) ^ lastPlace base more least q ≤ q
  := by
  have place : lastPlace base more least q = Int.log base q - more := by
    unfold lastPlace at cut ⊢
    omega
  have one : (1 : ℚ) ≤ base := by exact_mod_cast hb.le
  constructor
  · have digits : (m : ℚ) < (base : ℚ) ^ ((more + 1 : ℕ) : ℤ) := by
      rw [zpow_natCast]
      exact_mod_cast hm
    calc
      (m * (base : ℚ) ^ k : ℚ) < (base : ℚ) ^ ((more + 1 : ℕ) : ℤ) * (base : ℚ) ^ k :=
        mul_lt_mul_of_pos_right digits (zpow_pos hb k)
      _ = (base : ℚ) ^ (((more + 1 : ℕ) : ℤ) + k) := (zpow_add₀ (cast_ne_zero hb) _ _).symm
      _ ≤ (base : ℚ) ^ ((more : ℤ) + lastPlace base more least q) :=
        zpow_le_zpow_right₀ one (by push_cast; omega)
      _ = (base : ℚ) ^ more * (base : ℚ) ^ lastPlace base more least q := by
        rw [zpow_add₀ (cast_ne_zero hb), zpow_natCast]
  · calc
      ((base : ℚ) ^ more * (base : ℚ) ^ lastPlace base more least q : ℚ) =
          (base : ℚ) ^ Int.log base q := by
        rw [place, zpow_sub₀ (cast_ne_zero hb), zpow_natCast]
        exact mul_div_cancel₀ _ (pow_ne_zero more (cast_ne_zero hb))
      _ ≤ q := Int.zpow_log_le_self hb positive

/-- What is not more than a number of so many digits is not rounded to more. -/
theorem roundTo_le {q r : ℚ} (positive : 0 < q) (h : Representable base more least r)
    (le : q ≤ r) :
  roundTo base more least q ≤ r
  := by
  obtain ⟨m, k, hm, hk, hr⟩ := h.normal hb
  have place : lastPlace base more least q ≤ k := by
    by_contra cut
    obtain ⟨less, more⟩ := lt_of_lt_lastPlace hb positive hm hk (not_le.mp cut)
    linarith
  have scaled : q / (base : ℚ) ^ lastPlace base more least q ≤
      (m * base ^ (k - lastPlace base more least q).toNat : ℕ) := by
    rw [← mul_zpow_div hb place, ← hr]
    exact div_le_div_of_nonneg_right le (zpow_pos hb _).le
  unfold roundTo
  rw [← le_div_iff₀ (zpow_pos hb _), hr, mul_zpow_div hb place]
  exact_mod_cast roundEven_le scaled

/-- What is not less than a number of so many digits is not rounded to less. -/
theorem le_roundTo {q r : ℚ} (positive : 0 < q) (h : Representable base more least r)
    (le : r ≤ q) :
  r ≤ roundTo base more least q
  := by
  obtain ⟨m, k, hm, hk, hr⟩ := h.normal hb
  unfold roundTo
  rw [← div_le_iff₀ (zpow_pos hb _)]
  by_cases place : lastPlace base more least q ≤ k
  · have scaled : ((m * base ^ (k - lastPlace base more least q).toNat : ℕ) : ℚ) ≤
        q / (base : ℚ) ^ lastPlace base more least q := by
      rw [← mul_zpow_div hb place, ← hr]
      exact div_le_div_of_nonneg_right le (zpow_pos hb _).le
    rw [hr, mul_zpow_div hb place]
    exact_mod_cast le_roundEven scaled
  · obtain ⟨less, atMost⟩ := lt_of_lt_lastPlace hb positive hm hk (not_le.mp place)
    have scaled : ((base ^ more : ℕ) : ℚ) ≤ q / (base : ℚ) ^ lastPlace base more least q := by
      rw [le_div_iff₀ (zpow_pos hb _)]
      exact_mod_cast atMost
    have kept : ((base ^ more : ℕ) : ℚ) ≤
        roundEven (q / (base : ℚ) ^ lastPlace base more least q) := by
      exact_mod_cast le_roundEven scaled
    rw [div_le_iff₀ (zpow_pos hb _), hr]
    calc
      (m * (base : ℚ) ^ k : ℚ) ≤ (base : ℚ) ^ more * (base : ℚ) ^ lastPlace base more least q :=
        less.le
      _ ≤ roundEven (q / (base : ℚ) ^ lastPlace base more least q) *
          (base : ℚ) ^ lastPlace base more least q :=
        mul_le_mul_of_nonneg_right (by exact_mod_cast kept) (zpow_pos hb _).le

/-- A number of so many digits is rounded to itself. -/
theorem roundTo_of_representable {q : ℚ} (nonneg : 0 ≤ q) (h : Representable base more least q) :
  roundTo base more least q = q
  := by
  rcases nonneg.eq_or_lt with rfl | positive
  · have natural : roundEven ((0 : ℕ) : ℚ) = 0 := Binary64.roundEven_natCast 0
    rw [Nat.cast_zero] at natural
    rw [roundTo, zero_div, natural, Nat.cast_zero, zero_mul]
  · exact le_antisymm (roundTo_le hb positive h le_rfl) (le_roundTo hb positive h le_rfl)

/-- There are so few digits left. -/
theorem representable_roundTo (q : ℚ) :
  Representable base more least (roundTo base more least q)
  := by
  refine ⟨_, _, ?_, le_max_right _ _, rfl⟩
  refine roundEven_le ?_
  rw [div_le_iff₀ (zpow_pos hb _), Nat.cast_pow, ← zpow_natCast, ← zpow_add₀ (cast_ne_zero hb)]
  have one : (1 : ℚ) ≤ base := by exact_mod_cast hb.le
  calc
    q ≤ (base : ℚ) ^ (Int.log base q + 1) := (Int.lt_zpow_succ_log_self hb q).le
    _ ≤ (base : ℚ) ^ (((more + 1 : ℕ) : ℤ) + lastPlace base more least q) := by
      refine zpow_le_zpow_right₀ one ?_
      unfold lastPlace
      push_cast
      omega

end

/-! ### The format binary64 -/

theorem nearest_eq (q : ℚ) :
  Binary64.nearest q =
    if roundTo 2 52 (-1074) q < 2 ^ 1024 then some (roundTo 2 52 (-1074) q) else none
  := rfl

theorem representable_of_binary64 {q : ℚ} (h : Binary64.Representable q) :
  Representable 2 52 (-1074) q
  := h.2

/-- What is not more than a magnitude of the format is not rounded to more. -/
theorem nearest_le {q r : ℚ} (positive : 0 < q) (h : Binary64.Representable r) (le : q ≤ r) :
  ∃ x, Binary64.nearest q = some x ∧ x ≤ r
  := by
  have rounded := roundTo_le one_lt_two positive (representable_of_binary64 h) le
  refine ⟨_, ?_, rounded⟩
  rw [nearest_eq, if_pos (lt_of_le_of_lt rounded h.1)]

/-- What is not less than a magnitude of the format is not rounded to less. -/
theorem le_nearest {q r x : ℚ} (positive : 0 < q) (h : Binary64.Representable r) (le : r ≤ q)
    (hx : Binary64.nearest q = some x) :
  r ≤ x
  := by
  rw [nearest_eq] at hx
  split_ifs at hx
  rw [← Option.some.inj hx]
  exact le_roundTo one_lt_two positive (representable_of_binary64 h) le

end Rounding
