import Lumina.Library.PyJson
import Mathlib.Order.Basic

/-!
# Times and identifiers as text

`isoformat` of a time in UTC and `str` of a UUID, and the readers of these texts.  The order of the
times is that of their fields, and each text is read back as what it shows.
-/

namespace IsoText

open PyJson (Str digitPoint str)

/-! ### Numerals of a fixed width -/

/-- The last digits of a number to some base. -/
def numeral (base : ℕ) : ℕ → ℕ → Str
  | 0, _ => []
  | width + 1, n => numeral base width (n / base) ++ [digitPoint (n % base)]

def readDigit (base u : ℕ) : Option ℕ :=
  (Json.hexDigit u).filter (· < base)

/-- Some digits, after those of a number, and the rest. -/
def readNumeral (base : ℕ) : ℕ → ℕ → Str → Option (ℕ × Str)
  | 0, n, s => some (n, s)
  | _ + 1, _, [] => none
  | width + 1, n, u :: s => (readDigit base u).bind fun d => readNumeral base width (n * base + d) s

theorem readDigit_digitPoint {base d : ℕ} (small : base ≤ 16) (h : d < base) :
  readDigit base (digitPoint d) = some d
  := by
  have read : ∀ d < 16, Json.hexDigit (digitPoint d) = some d := by decide
  unfold readDigit
  rw [read d (by omega)]
  exact Option.filter_eq_some_iff.mpr ⟨rfl, decide_eq_true h⟩

theorem readNumeral_concat {base width n m : ℕ} {s : Str} {u : ℕ} {rest : Str}
    (h : readNumeral base width n s = some (m, u :: rest)) :
  readNumeral base (width + 1) n s = (readDigit base u).map fun d => (m * base + d, rest)
  := by
  induction width generalizing n s with
  | zero =>
    cases h
    rw [readNumeral]
    cases readDigit base u
    all_goals rfl
  | succ width ih =>
    cases s with
    | nil => cases h
    | cons v s =>
      rw [readNumeral] at h
      obtain ⟨d, digit, h⟩ := Option.bind_eq_some_iff.mp h
      rw [readNumeral, digit, Option.bind_some, ih h]

theorem readNumeral_numeral {base : ℕ} (small : base ≤ 16) {width n : ℕ} (h : n < base ^ width)
    (m : ℕ) (rest : Str) :
  readNumeral base width m (numeral base width n ++ rest) = some (m * base ^ width + n, rest)
  := by
  induction width generalizing n rest with
  | zero =>
    rw [pow_zero, Nat.lt_one_iff] at h
    rw [h, pow_zero, mul_one]
    rfl
  | succ width ih =>
    have positive : 0 < base := by
      by_contra zero
      rw [Nat.eq_zero_of_not_pos zero, pow_succ, mul_zero] at h
      omega
    have shorter : n / base < base ^ width := by
      apply Nat.div_lt_of_lt_mul
      rwa [mul_comm, ← pow_succ]
    have last := readDigit_digitPoint small (Nat.mod_lt n positive)
    rw [numeral, List.append_assoc, List.singleton_append, readNumeral_concat (ih shorter _), last,
      Option.map_some]
    have value : (m * base ^ width + n / base) * base + n % base = m * base ^ (width + 1) + n := by
      rw [Nat.add_mul, Nat.add_assoc, Nat.div_add_mod', pow_succ, mul_assoc]
    rw [value]

theorem length_numeral (base width n : ℕ) :
  (numeral base width n).length = width
  := by
  induction width generalizing n with
  | zero => rfl
  | succ width ih => rw [numeral, List.length_append, ih, List.length_singleton]

theorem mem_numeral {base : ℕ} (small : base ≤ 16) (positive : 0 < base) {width n u : ℕ}
    (h : u ∈ numeral base width n) :
  ∃ d < 16, u = digitPoint d
  := by
  induction width generalizing n with
  | zero => cases h
  | succ width ih =>
    rw [numeral] at h
    rcases List.mem_append.mp h with h | h
    · exact ih h
    · exact ⟨n % base, (Nat.mod_lt n positive).trans_le small, List.mem_singleton.mp h⟩

/-! ### Times -/

def IsLeap (year : ℕ) : Prop :=
  4 ∣ year ∧ (100 ∣ year → 400 ∣ year)

instance (year : ℕ) : Decidable (IsLeap year) := inferInstanceAs (Decidable (_ ∧ _))

def daysInMonth (year month : ℕ) : ℕ :=
  if month = 2 then if IsLeap year then 29 else 28
  else if month ∈ [4, 6, 9, 11] then 30
  else 31

/-- A `datetime` in UTC. -/
structure DateTime where
  year : ℕ
  month : ℕ
  day : ℕ
  hour : ℕ
  minute : ℕ
  second : ℕ
  microsecond : ℕ
  validYear : 1 ≤ year ∧ year ≤ 9999
  validMonth : 1 ≤ month ∧ month ≤ 12
  validDay : 1 ≤ day ∧ day ≤ daysInMonth year month
  validTime : hour < 24 ∧ minute < 60 ∧ second < 60 ∧ microsecond < 1000000
deriving DecidableEq

namespace DateTime

theorem day_lt (t : DateTime) : t.day < 32 := by
  have day := t.validDay
  unfold daysInMonth at day
  split_ifs at day
  all_goals omega

/-- A number that grows with the time. -/
def rank (t : DateTime) : ℕ :=
  (((((t.year * 13 + t.month) * 32 + t.day) * 24 + t.hour) * 60 + t.minute) * 60 + t.second) *
    1000000 + t.microsecond

theorem rank_injective : Function.Injective rank := by
  intro s t h
  have sDay := s.day_lt
  have tDay := t.day_lt
  obtain ⟨y, m, d, hh, mm, ss, us, _, sMonth, _, sTime⟩ := s
  obtain ⟨y', m', d', hh', mm', ss', us', _, tMonth, _, tTime⟩ := t
  unfold rank at h
  dsimp only at h sDay tDay
  have same : y = y' ∧ m = m' ∧ d = d' ∧ hh = hh' ∧ mm = mm' ∧ ss = ss' ∧ us = us' := by omega
  obtain ⟨rfl, rfl, rfl, rfl, rfl, rfl, rfl⟩ := same
  rfl

/-- The order of time. -/
instance : LinearOrder DateTime := LinearOrder.lift' rank rank_injective

theorem lt_iff (s t : DateTime) : s < t ↔ s.rank < t.rank := Iff.rfl

theorem le_iff (s t : DateTime) : s ≤ t ↔ s.rank ≤ t.rank := Iff.rfl

end DateTime

/-- `t.isoformat()`. -/
def isoformat (t : DateTime) : Str :=
  numeral 10 4 t.year ++ '-'.toNat :: (numeral 10 2 t.month ++ '-'.toNat :: (numeral 10 2 t.day ++
    'T'.toNat :: (numeral 10 2 t.hour ++ ':'.toNat :: (numeral 10 2 t.minute ++
      ':'.toNat :: (numeral 10 2 t.second ++
        ((if t.microsecond = 0 then [] else '.'.toNat :: numeral 10 6 t.microsecond) ++
          str "+00:00"))))))

/-- One character, and the rest. -/
def expect (c : Char) : Str → Option Str
  | [] => none
  | u :: s => if u = c.toNat then some s else none

/-- The microseconds, if there are any. -/
def readFraction (s : Str) : Option (ℕ × Str) :=
  match expect '.' s with
  | some s => readNumeral 10 6 0 s
  | none => some (0, s)

/-- A time with these fields. -/
def ofFields (year month day hour minute second microsecond : ℕ) : Option DateTime :=
  if h : ((1 ≤ year ∧ year ≤ 9999) ∧ (1 ≤ month ∧ month ≤ 12) ∧
      (1 ≤ day ∧ day ≤ daysInMonth year month)) ∧
      (hour < 24 ∧ minute < 60 ∧ second < 60 ∧ microsecond < 1000000) then
    some ⟨year, month, day, hour, minute, second, microsecond, h.1.1, h.1.2.1, h.1.2.2, h.2⟩
  else none

/-- `datetime.fromisoformat` of the texts of `isoformat`. -/
def readIsoformat (s : Str) : Option DateTime := do
  let (year, s) ← readNumeral 10 4 0 s
  let s ← expect '-' s
  let (month, s) ← readNumeral 10 2 0 s
  let s ← expect '-' s
  let (day, s) ← readNumeral 10 2 0 s
  let s ← expect 'T' s
  let (hour, s) ← readNumeral 10 2 0 s
  let s ← expect ':' s
  let (minute, s) ← readNumeral 10 2 0 s
  let s ← expect ':' s
  let (second, s) ← readNumeral 10 2 0 s
  let (microsecond, s) ← readFraction s
  if s = str "+00:00" then ofFields year month day hour minute second microsecond else none

theorem ofFields_fields (t : DateTime) :
  ofFields t.year t.month t.day t.hour t.minute t.second t.microsecond = some t
  := dif_pos ⟨⟨t.validYear, t.validMonth, t.validDay⟩, t.validTime⟩

theorem expect_self (c : Char) (s : Str) :
  expect c (c.toNat :: s) = some s
  := if_pos rfl

theorem readFraction_microsecond {n : ℕ} (h : n < 1000000) :
  readFraction ((if n = 0 then [] else '.'.toNat :: numeral 10 6 n) ++ str "+00:00") =
    some (n, str "+00:00")
  := by
  split_ifs with zero
  · subst zero
    rfl
  · unfold readFraction
    rw [List.cons_append, expect_self]
    dsimp only
    rw [readNumeral_numeral (by decide) (by omega), Nat.zero_mul, Nat.zero_add]

/-- A time is read back. -/
theorem readIsoformat_isoformat (t : DateTime) :
  readIsoformat (isoformat t) = some t
  := by
  have year := t.validYear
  have month := t.validMonth
  have day := t.day_lt
  obtain ⟨hour, minute, second, microsecond⟩ := t.validTime
  have read (width n : ℕ) (h : n < 10 ^ width) (rest : Str) :
      readNumeral 10 width 0 (numeral 10 width n ++ rest) = some (n, rest) := by
    rw [readNumeral_numeral (by decide) h, Nat.zero_mul, Nat.zero_add]
  unfold readIsoformat isoformat
  simp only [read 4 t.year (by omega), read 2 t.month (by omega), read 2 t.day (by omega),
    read 2 t.hour (by omega), read 2 t.minute (by omega), read 2 t.second (by omega), expect_self,
    readFraction_microsecond microsecond, Option.bind_eq_bind, Option.bind_some, if_true,
    ofFields_fields]

/-! ### Identifiers -/

abbrev Uuid := Fin (2 ^ 128)

/-- `str(id)`. -/
def uuidText (id : Uuid) : Str :=
  let hex := numeral 16 32 id
  hex.take 8 ++ '-'.toNat :: ((hex.drop 8).take 4 ++ '-'.toNat :: ((hex.drop 12).take 4 ++
    '-'.toNat :: ((hex.drop 16).take 4 ++ '-'.toNat :: hex.drop 20)))

/-- `uuid.UUID` of hexadecimal digits and hyphens. -/
def readUuid (s : Str) : Option Uuid :=
  let hex := s.filter (· ≠ '-'.toNat)
  if hex.length = 32 then
    (readNumeral 16 32 0 hex).bind fun (n, _) => if h : n < 2 ^ 128 then some ⟨n, h⟩ else none
  else none

theorem take_append_drop_append {hex : Str} (n m : ℕ) :
  (hex.drop n).take m ++ hex.drop (n + m) = hex.drop n
  := by
  rw [← List.drop_drop, List.take_append_drop]

/-- The hyphens are left out. -/
theorem filter_uuidText (id : Uuid) :
  (uuidText id).filter (· ≠ '-'.toNat) = numeral 16 32 id
  := by
  have digits : ∀ u ∈ numeral 16 32 id, decide (u ≠ '-'.toNat) = true := by
    have other : ∀ d < 16, decide (digitPoint d ≠ '-'.toNat) = true := by decide
    intro u hu
    obtain ⟨d, hd, rfl⟩ := mem_numeral (by decide) (by decide) hu
    exact other d hd
  have kept (s : Str) (inside : s ⊆ numeral 16 32 id) : s.filter (· ≠ '-'.toNat) = s :=
    List.filter_eq_self.mpr fun u hu => digits u (inside hu)
  have hyphen (s : Str) : ('-'.toNat :: s).filter (· ≠ '-'.toNat) = s.filter (· ≠ '-'.toNat) := rfl
  unfold uuidText
  simp only [List.filter_append, hyphen]
  rw [kept _ (List.take_subset 8 _), kept _ (List.drop_subset 20 _)]
  rw [kept _ (List.Subset.trans (List.take_subset 4 _) (List.drop_subset 8 _)),
    kept _ (List.Subset.trans (List.take_subset 4 _) (List.drop_subset 12 _)),
    kept _ (List.Subset.trans (List.take_subset 4 _) (List.drop_subset 16 _))]
  rw [take_append_drop_append 16 4, take_append_drop_append 12 4, take_append_drop_append 8 4,
    List.take_append_drop]

/-- An identifier is read back. -/
theorem readUuid_uuidText (id : Uuid) :
  readUuid (uuidText id) = some id
  := by
  have bound : id.val < 16 ^ 32 := id.isLt.trans_le (by decide)
  have read := readNumeral_numeral (by decide) bound 0 []
  rw [List.append_nil, Nat.zero_mul, Nat.zero_add] at read
  unfold readUuid
  rw [filter_uuidText, if_pos (length_numeral 16 32 id), read]
  exact dif_pos id.isLt

end IsoText
