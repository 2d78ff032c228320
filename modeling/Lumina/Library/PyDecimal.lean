import Lumina.Library.Rounding

/-!
# Decimals of Python

`decimal.Decimal` with the default context: 28 digits, half to even, and exponents up to 999999.
The results of the operations are rounded to the context; `Decimal(text)` is exact.  The sign of a
zero and the zeros at the end of a coefficient are left out: no comparison, sum, product, quotient
or quantization of a finite number depends on them.
-/

/-- A decimal, by its value if it is finite. -/
inductive PyDecimal where
  | finite (value : ℚ)
  | infinite (negative : Bool)
  | nan (signaling : Bool)
deriving DecidableEq

/-- The conditions that the default context traps. -/
inductive DecimalException where
  | invalidOperation
  | divisionByZero
  | overflow
deriving DecidableEq

namespace PyDecimal

open Binary64 (roundEven)
open Rounding (roundTo)

/-! ### Numerals -/

/-- The zeros of the decimal digits of Unicode 15.0. -/
def digitZeros : List ℕ :=
  [0x30, 0x660, 0x6F0, 0x7C0, 0x966, 0x9E6, 0xA66, 0xAE6, 0xB66, 0xBE6, 0xC66, 0xCE6, 0xD66, 0xDE6,
    0xE50, 0xED0, 0xF20, 0x1040, 0x1090, 0x17E0, 0x1810, 0x1946, 0x19D0, 0x1A80, 0x1A90, 0x1B50,
    0x1BB0, 0x1C40, 0x1C50, 0xA620, 0xA8D0, 0xA900, 0xA9D0, 0xA9F0, 0xAA50, 0xABF0, 0xFF10,
    0x104A0, 0x10D30, 0x11066, 0x110F0, 0x11136, 0x111D0, 0x112F0, 0x11450, 0x114D0, 0x11650,
    0x116C0, 0x11730, 0x118E0, 0x11950, 0x11C50, 0x11D50, 0x11DA0, 0x11F50, 0x16A60, 0x16AC0,
    0x16B50, 0x1D7CE, 0x1D7D8, 0x1D7E2, 0x1D7EC, 0x1D7F6, 0x1E140, 0x1E2F0, 0x1E4F0, 0x1E950,
    0x1FBF0]

/-- The value of a decimal digit. -/
def digit? (c : Char) : Option ℕ :=
  (digitZeros.find? fun first => first ≤ c.toNat && c.toNat < first + 10).map fun first =>
    c.toNat - first

/-- The digits at the beginning of a text, and what is left of it. -/
def digits (text : List Char) : List ℕ × List Char :=
  ((text.takeWhile fun c => (digit? c).isSome).filterMap digit?,
    text.dropWhile fun c => (digit? c).isSome)

def ofDigits (digits : List ℕ) : ℕ :=
  digits.foldl (fun n d => 10 * n + d) 0

/-- A sign, and what is left of the text. -/
def sign : List Char → Bool × List Char
  | '+' :: text => (false, text)
  | '-' :: text => (true, text)
  | text => (false, text)

/-- What is left of a text after a word in letters of any case. -/
def afterWord : (word text : List Char) → Option (List Char)
  | [], text => some text
  | _ :: _, [] => none
  | w :: word, c :: text => if c = w || c = w.toUpper then afterWord word text else none

/-- The exponent at the end of a numeral. -/
def exponent? : List Char → Option ℤ
  | [] => some 0
  | c :: text =>
      let (negative, text) := sign text
      let (ds, rest) := digits text
      if (c = 'e' ∨ c = 'E') ∧ ds ≠ [] ∧ rest = [] then
        some (if negative then -(ofDigits ds) else ofDigits ds)
      else none

/-- The coefficient and the exponent of a numeral. -/
def numeral? (text : List Char) : Option (ℕ × ℤ) :=
  let (whole, rest) := digits text
  let (fraction, rest) := if rest.head? = some '.' then digits rest.tail else ([], rest)
  if whole = [] ∧ fraction = [] then none
  else
    (exponent? rest).map fun e => (ofDigits (whole ++ fraction), e - (fraction.length : ℤ))

/-- The exponents that an exact decimal may have. -/
def Exact (coefficient : ℕ) (exponent : ℤ) : Prop :=
  -1999999999999999997 ≤ exponent ∧
    exponent + Nat.log 10 coefficient ≤ 999999999999999999

instance (coefficient : ℕ) (exponent : ℤ) : Decidable (Exact coefficient exponent) :=
  inferInstanceAs (Decidable (_ ∧ _))

/-- `Decimal(text)` of a text without space at its ends, or nothing if it raises
`InvalidOperation`. -/
def ofText (text : List Char) : Option PyDecimal :=
  let (negative, text) := sign (text.filter (· ≠ '_'))
  match afterWord "nan".toList text, afterWord "snan".toList text, afterWord "inf".toList text with
  | some payload, _, _ => if (digits payload).2 = [] then some (.nan false) else none
  | _, some payload, _ => if (digits payload).2 = [] then some (.nan true) else none
  | _, _, some rest =>
      if rest = [] ∨ afterWord "inity".toList rest = some [] then some (.infinite negative)
      else none
  | none, none, none =>
      (numeral? text).bind fun (coefficient, exponent) =>
        if Exact coefficient exponent then
          let magnitude : ℚ := coefficient * 10 ^ exponent
          some (.finite (if negative then -magnitude else magnitude))
        else none

/-! ### The context -/

/-- A number of 28 digits, with no place after the 1000026th. -/
def significant (q : ℚ) : ℚ :=
  if q < 0 then -roundTo 10 27 (-1000026) (-q) else roundTo 10 27 (-1000026) q

/-- What an operation returns: its result is rounded, and raises `Overflow` if it is too large. -/
def fix (q : ℚ) : Except DecimalException PyDecimal :=
  if Int.log 10 |significant q| ≤ 999999 then .ok (.finite (significant q)) else .error .overflow

/-- The result of an operation with a NaN. -/
def ofNan (signaling : Bool) : Except DecimalException PyDecimal :=
  if signaling then .error .invalidOperation else .ok (.nan false)

/-- `x < 0`. -/
def isNegative : PyDecimal → Except DecimalException Bool
  | .finite q => .ok (q < 0)
  | .infinite negative => .ok negative
  | .nan _ => .error .invalidOperation

protected def mul : PyDecimal → PyDecimal → Except DecimalException PyDecimal
  | .nan s, .nan t => ofNan (s || t)
  | .nan s, _ => ofNan s
  | _, .nan t => ofNan t
  | .finite a, .finite b => fix (a * b)
  | .finite a, .infinite n =>
      if a = 0 then .error .invalidOperation else .ok (.infinite (a < 0 ^^ n))
  | .infinite m, .finite b =>
      if b = 0 then .error .invalidOperation else .ok (.infinite (m ^^ b < 0))
  | .infinite m, .infinite n => .ok (.infinite (m ^^ n))

protected def add : PyDecimal → PyDecimal → Except DecimalException PyDecimal
  | .nan s, .nan t => ofNan (s || t)
  | .nan s, _ => ofNan s
  | _, .nan t => ofNan t
  | .finite a, .finite b => fix (a + b)
  | .finite _, .infinite n => .ok (.infinite n)
  | .infinite m, .finite _ => .ok (.infinite m)
  | .infinite m, .infinite n => if m = n then .ok (.infinite m) else .error .invalidOperation

protected def div : PyDecimal → PyDecimal → Except DecimalException PyDecimal
  | .nan s, .nan t => ofNan (s || t)
  | .nan s, _ => ofNan s
  | _, .nan t => ofNan t
  | .finite a, .finite b =>
      if b ≠ 0 then fix (a / b)
      else if a = 0 then .error .invalidOperation
      else .error .divisionByZero
  | .finite _, .infinite _ => .ok (.finite 0)
  | .infinite m, .finite b => .ok (.infinite (m ^^ b < 0))
  | .infinite _, .infinite _ => .error .invalidOperation

/-- The nearest multiple of a power of ten, the even one if there are two. -/
def toPlaces (places : ℕ) (q : ℚ) : ℚ :=
  (if q < 0 then -(roundEven (-q * 10 ^ places) : ℚ) else roundEven (q * 10 ^ places)) / 10 ^ places

/-- `quantize` to a number of decimal places; there is room for 28 digits. -/
def quantize (places : ℕ) : PyDecimal → Except DecimalException PyDecimal
  | .finite q =>
      if |toPlaces places q| * 10 ^ places < 10 ^ 28 then .ok (.finite (toPlaces places q))
      else .error .invalidOperation
  | .infinite _ => .error .invalidOperation
  | .nan s => ofNan s

theorem div_of_ne_zero {b : ℚ} (h : b ≠ 0) (a : ℚ) :
  PyDecimal.div (.finite a) (.finite b) = fix (a / b)
  := by
  rw [PyDecimal.div, if_pos h]

/-! ### Sums of products, in millionths -/

theorem significant_of_nonneg {q : ℚ} (h : 0 ≤ q) :
  significant q = roundTo 10 27 (-1000026) q
  := if_neg (not_lt.mpr h)

theorem roundTo_nonneg (q : ℚ) :
  0 ≤ roundTo 10 27 (-1000026) q
  := by
  unfold roundTo
  positivity

theorem significant_nonneg {q : ℚ} (h : 0 ≤ q) :
  0 ≤ significant q
  := by
  rw [significant_of_nonneg h]
  exact roundTo_nonneg q

/-- A number of 28 digits. -/
def Short (q : ℚ) : Prop := Rounding.Representable 10 27 (-1000026) q

theorem short_significant {q : ℚ} (h : 0 ≤ q) :
  Short (significant q)
  := by
  rw [significant_of_nonneg h]
  exact Rounding.representable_roundTo (by norm_num) q

theorem significant_of_short {q : ℚ} (h : 0 ≤ q) (short : Short q) :
  significant q = q
  := by
  rw [significant_of_nonneg h]
  exact Rounding.roundTo_of_representable (by norm_num) h short

/-- Rounding a sum does not bring it below a number of 28 digits. -/
theorem le_significant_add {a b : ℚ} (ha : 0 ≤ a) (hb : 0 ≤ b) (short : Short a) :
  a ≤ significant (a + b)
  := by
  rcases ha.eq_or_lt with rfl | positive
  · exact significant_nonneg (by linarith)
  · rw [significant_of_nonneg (by linarith)]
    exact Rounding.le_roundTo (by norm_num) (by linarith) short (by linarith)

theorem fix_of_lt {q : ℚ} (h : 0 ≤ q) (small : significant q < 10 ^ 28) :
  fix q = .ok (.finite (significant q))
  := by
  unfold fix
  refine if_pos ?_
  rw [abs_of_nonneg (significant_nonneg h)]
  rcases (significant_nonneg h).eq_or_lt with zero | positive
  · rw [← zero, Int.log_zero_right]
    norm_num
  · have below : Int.log 10 (significant q) < (28 : ℕ) :=
      (Int.lt_zpow_iff_log_lt (by norm_num) positive).mp (by exact_mod_cast small)
    omega

theorem of_fix {q : ℚ} {x : PyDecimal} (h : fix q = .ok x) :
  x = .finite (significant q)
  := by
  unfold fix at h
  split_ifs at h
  exact (Except.ok.inj h).symm

theorem roundEven_of_lt_half {q : ℚ} (less : q < 1 / 2) :
  roundEven q = 0
  := by
  have floor : ⌊q⌋₊ = 0 := Nat.floor_eq_zero.mpr (by linarith)
  unfold roundEven
  dsimp only
  rw [floor, Nat.cast_zero, sub_zero, if_pos less]

/-- The millionth part of a number of 28 digits has as many digits, unless it is so small that
nothing is left of it in whole numbers. -/
theorem roundEven_significant_div {s : ℚ} (h : 0 ≤ s) (short : Short s) :
  roundEven (significant (s / 1000000) * 10 ^ 6) = roundEven s
  := by
  rcases h.eq_or_lt with rfl | positive
  · rw [zero_div, significant_of_short le_rfl ⟨0, 0, by norm_num, by norm_num, by simp⟩, zero_mul]
  obtain ⟨m, k, hm, hk, rfl⟩ := Rounding.Representable.normal (by norm_num) short
  have nonneg : (0 : ℚ) ≤ m * ((10 : ℕ) : ℚ) ^ k / 1000000 := by positivity
  by_cases room : -1000026 ≤ k - 6
  · have millionth : (m * ((10 : ℕ) : ℚ) ^ k / 1000000 : ℚ) = m * ((10 : ℕ) : ℚ) ^ (k - 6) := by
      rw [zpow_sub₀ (by norm_num)]
      norm_num
      ring
    have fewer : Short (m * ((10 : ℕ) : ℚ) ^ k / 1000000) :=
      ⟨m, k - 6, hm.le, room, millionth⟩
    rw [significant_of_short nonneg fewer]
    congr 1
    ring
  · have tiny : Short (10 ^ (-10 : ℤ)) :=
      ⟨1, -10, by norm_num, by norm_num, by norm_num⟩
    have small : (m * ((10 : ℕ) : ℚ) ^ k : ℚ) ≤ 10 ^ (-10 : ℤ) := by
      have digits : (m : ℚ) ≤ ((10 : ℕ) : ℚ) ^ (28 : ℤ) := by exact_mod_cast hm.le
      calc
        (m * ((10 : ℕ) : ℚ) ^ k : ℚ) ≤ ((10 : ℕ) : ℚ) ^ (28 : ℤ) * ((10 : ℕ) : ℚ) ^ k :=
          mul_le_mul_of_nonneg_right digits (by positivity)
        _ = ((10 : ℕ) : ℚ) ^ (28 + k) := (zpow_add₀ (by norm_num) _ _).symm
        _ ≤ ((10 : ℕ) : ℚ) ^ (-10 : ℤ) := zpow_le_zpow_right₀ (by norm_num) (by omega)
        _ = 10 ^ (-10 : ℤ) := by norm_num
    have part : (m * ((10 : ℕ) : ℚ) ^ k / 1000000 : ℚ) ≤ 10 ^ (-10 : ℤ) := by
      refine le_trans (div_le_self h (by norm_num)) small
    have rounded : significant (m * ((10 : ℕ) : ℚ) ^ k / 1000000) ≤ 10 ^ (-10 : ℤ) := by
      rw [significant_of_nonneg nonneg]
      exact Rounding.roundTo_le (by norm_num) (by positivity) tiny part
    have value : (10 : ℚ) ^ (-10 : ℤ) = 1 / 10000000000 := by norm_num
    rw [value] at rounded small
    rw [roundEven_of_lt_half (by linarith),
      roundEven_of_lt_half (by linarith)]

/-! ### What a sum of two products comes to -/

/-- The sum of two products, each rounded. -/
def roundedSum (x y : ℚ) : ℚ :=
  significant (significant x + significant y)

/-- Rounding the products and their sum to 28 digits does not change the nearest whole number. -/
def Unharmed (x y : ℚ) : Prop :=
  roundEven (roundedSum x y) = roundEven (x + y)

instance (x y : ℚ) : Decidable (Unharmed x y) :=
  inferInstanceAs (Decidable (_ = _))

/-- Products that have few digits in common are not rounded. -/
theorem unharmed_of_digits {m n : ℕ} {k : ℤ} (hk : -1000026 ≤ k) (room : m + n ≤ 10 ^ 28) :
  Unharmed (m * 10 ^ k) (n * 10 ^ k)
  := by
  have short {i : ℕ} (hi : i ≤ 10 ^ 28) : significant ((i : ℚ) * 10 ^ k) = i * 10 ^ k :=
    significant_of_short (by positivity) ⟨i, k, hi, hk, by norm_num⟩
  have sum : (m * 10 ^ k + n * 10 ^ k : ℚ) = (m + n : ℕ) * 10 ^ k := by
    push_cast
    ring
  unfold Unharmed roundedSum
  rw [short (by omega : m ≤ 10 ^ 28), short (by omega : n ≤ 10 ^ 28), sum, short room]

/-- A part of a number of 28 digits is not rounded to more than that. -/
theorem significant_le_of_short {q r : ℚ} (h : 0 ≤ q) (short : Short r) (le : q ≤ r) :
  significant q ≤ r
  := by
  rcases h.eq_or_lt with rfl | positive
  · rwa [significant_of_short le_rfl ⟨0, 0, by norm_num, by norm_num, by simp⟩]
  · rw [significant_of_nonneg h]
    exact Rounding.roundTo_le (by norm_num) positive short le

theorem toPlaces_of_nonneg {q : ℚ} (h : 0 ≤ q) (places : ℕ) :
  toPlaces places q = roundEven (q * 10 ^ places) / 10 ^ places
  := by
  rw [toPlaces, if_neg (not_lt.mpr h)]

theorem toPlaces_millionths {q : ℚ} (h : 0 ≤ q) :
  toPlaces 6 (q / 1000000) = roundEven q / 10 ^ 6
  := by
  have whole : q / 1000000 * 10 ^ 6 = q := by ring
  rw [toPlaces_of_nonneg (by positivity), whole]

theorem quantize_finite {q : ℚ} (h : 0 ≤ q) (places : ℕ) :
  quantize places (.finite q) =
    if roundEven (q * 10 ^ places) < 10 ^ 28 then
      .ok (.finite (roundEven (q * 10 ^ places) / 10 ^ places))
    else .error .invalidOperation
  := by
  have nonneg : (0 : ℚ) ≤ roundEven (q * 10 ^ places) / 10 ^ places := by positivity
  have digits : (roundEven (q * 10 ^ places) / 10 ^ places * 10 ^ places : ℚ) =
      roundEven (q * 10 ^ places) := div_mul_cancel₀ _ (by positivity)
  rw [quantize, toPlaces_of_nonneg h, abs_of_nonneg nonneg, digits]
  congr 1
  exact propext ⟨fun less => by exact_mod_cast less, fun less => by exact_mod_cast less⟩

/-- The sum of two products that has room for 28 digits before the point. -/
theorem fix_of_roundedSum_lt {x y : ℚ} (hx : 0 ≤ x) (hy : 0 ≤ y)
    (small : roundedSum x y < 10 ^ 28) :
  fix x = .ok (.finite (significant x)) ∧ fix y = .ok (.finite (significant y)) ∧
    fix (significant x + significant y) = .ok (.finite (roundedSum x y))
  := by
  have ha := significant_nonneg hx
  have hb := significant_nonneg hy
  have first : significant x ≤ roundedSum x y := le_significant_add ha hb (short_significant hx)
  have second : significant y ≤ roundedSum x y := by
    unfold roundedSum
    rw [add_comm]
    exact le_significant_add hb ha (short_significant hy)
  exact ⟨fix_of_lt hx (lt_of_le_of_lt first small), fix_of_lt hy (lt_of_le_of_lt second small),
    fix_of_lt (add_nonneg ha hb) small⟩

/-- An amount in millionths, divided and quantized, if it has 28 digits in whole numbers. -/
theorem quantize_of_millionths {s : ℚ} {x : PyDecimal} (h : 0 ≤ s) (short : Short s) :
  (fix (s / 1000000)).bind (quantize 6) = .ok x ↔
    roundEven s < 10 ^ 28 ∧ x = .finite (roundEven s / 10 ^ 6)
  := by
  have nonneg : 0 ≤ s / 1000000 := by positivity
  have quantized : (Except.ok (.finite (significant (s / 1000000)))).bind (quantize 6) =
      if roundEven s < 10 ^ 28 then .ok (.finite (roundEven s / 10 ^ 6))
      else .error .invalidOperation := by
    change quantize 6 (.finite (significant (s / 1000000))) = _
    rw [quantize_finite (significant_nonneg nonneg), roundEven_significant_div h short]
  constructor
  · intro result
    cases fixed : fix (s / 1000000) with
    | error e =>
      rw [fixed] at result
      cases result
    | ok quotient =>
      rw [fixed, of_fix fixed, quantized] at result
      by_cases less : roundEven s < 10 ^ 28
      · rw [if_pos less] at result
        exact ⟨less, (Except.ok.inj result).symm⟩
      · rw [if_neg less] at result
        cases result
  · rintro ⟨less, rfl⟩
    have small : s < 10 ^ 28 := by
      exact_mod_cast Rounding.lt_of_roundEven_lt less
    have part : significant (s / 1000000) ≤ 10 ^ 22 := by
      refine significant_le_of_short nonneg ⟨1, 22, by norm_num, by norm_num, by norm_num⟩ ?_
      rw [div_le_iff₀ (by norm_num)]
      linarith
    rw [fix_of_lt nonneg (lt_of_le_of_lt part (by norm_num)), quantized, if_pos less]

end PyDecimal
