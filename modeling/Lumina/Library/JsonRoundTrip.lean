import Lumina.Library.Json
import Mathlib.Data.List.Nodup

/-!
# What is written is read back

`JSON.parse` returns the value that `json.dumps` has written if its integers are numbers of
JavaScript.  The strings come back whatever is in them, since the reader undoes each escape; so do
the floating point numbers, since Python writes each of them as a numeral that is rounded to it.
-/

namespace Json

open Unicode

/-! ### Strings -/

/-- A code unit that stands for itself. -/
theorem parseString_raw {u : ℕ} (quote : u ≠ '"'.toNat) (backslash : u ≠ '\\'.toNat)
    (control : 0x20 ≤ u) (tail : JsString) :
  parseString (u :: tail) = (parseString tail).map fun p => (u :: p.1, p.2)
  := by
  rw [parseString.eq_def]
  dsimp only
  rw [if_neg quote, if_neg backslash, if_neg (by omega)]
  cases parseString tail
  all_goals rfl

theorem parseString_simple {e u : ℕ} (h : simpleEscape e = some u) (he : e ≠ 'u'.toNat)
    (tail : JsString) :
  parseString ('\\'.toNat :: e :: tail) = (parseString tail).map fun p => (u :: p.1, p.2)
  := by
  rw [parseString.eq_def]
  dsimp only
  rw [if_neg (by decide), if_pos rfl]
  rw [if_neg he, h]
  cases parseString tail
  all_goals rfl

theorem hexDigit_digitChar :
  ∀ d < 16, hexDigit (Nat.digitChar d).toNat = some d
  := by decide

theorem digitChar_lt :
  ∀ d < 16, (Nat.digitChar d).toNat < 0x10000
  := by decide

theorem parseString_control {n : ℕ} (h : n < 0x20) (tail : JsString) :
  parseString ('\\'.toNat :: 'u'.toNat :: '0'.toNat :: '0'.toNat ::
      (Nat.digitChar (n / 16)).toNat :: (Nat.digitChar (n % 16)).toNat :: tail) =
    (parseString tail).map fun p => (n :: p.1, p.2)
  := by
  have zero : hexDigit '0'.toNat = some 0 := by decide
  have value : ((0 * 16 + 0) * 16 + n / 16) * 16 + n % 16 = n := by omega
  rw [parseString.eq_def]
  dsimp only
  rw [if_neg (by decide), if_pos rfl]
  rw [if_pos rfl, zero, hexDigit_digitChar _ (by omega), hexDigit_digitChar _ (by omega)]
  cases parseString tail with
  | none => rfl
  | some p =>
    change some ((((0 * 16 + 0) * 16 + n / 16) * 16 + n % 16) :: p.1, p.2) = some (n :: p.1, p.2)
    rw [value]

/-- The reader undoes the escape of one character. -/
theorem parseString_escapeChar (c : Char) (tail : JsString) :
  parseString (encodeUtf16 (escapeChar c) ++ tail) =
    (parseString tail).map fun p => (units c.toNat ++ p.1, p.2)
  := by
  unfold escapeChar
  split_ifs with quote backslash newline return' tab formFeed backspace control
  · subst quote
    apply parseString_simple (by decide) (by decide)
  · subst backslash
    apply parseString_simple (by decide) (by decide)
  · subst newline
    apply parseString_simple (by decide) (by decide)
  · subst return'
    apply parseString_simple (by decide) (by decide)
  · subst tab
    apply parseString_simple (by decide) (by decide)
  · subst formFeed
    apply parseString_simple (by decide) (by decide)
  · subst backspace
    apply parseString_simple (by decide) (by decide)
  · rw [encodeUtf16_of_lt, units_of_lt (by omega)]
    · apply parseString_control control
    · intro d hd
      simp only [List.mem_cons, List.not_mem_nil, or_false] at hd
      rcases hd with rfl | rfl | rfl | rfl | rfl | rfl
      · decide
      · decide
      · decide
      · decide
      · apply digitChar_lt _ (by omega)
      · apply digitChar_lt _ (by omega)
  · have raw : c.toNat ≠ '"'.toNat ∧ c.toNat ≠ '\\'.toNat := by
      constructor
      · exact fun same => quote (Char.toNat_inj.mp same)
      · exact fun same => backslash (Char.toNat_inj.mp same)
    rw [encodeUtf16_cons]
    unfold units
    split_ifs with plane
    · apply parseString_raw raw.1 raw.2 (by omega)
    · -- the two surrogates
      have high : ∀ u, 0xD800 ≤ u → ∀ s, parseString (u :: s) =
          (parseString s).map fun p => (u :: p.1, p.2) := by
        intro u hu s
        have quote' : '"'.toNat = 34 := rfl
        have backslash' : '\\'.toNat = 92 := rfl
        apply parseString_raw
        all_goals omega
      change parseString (_ :: _ :: tail) = _
      rw [high _ (by omega), high _ (by omega)]
      cases parseString tail
      all_goals rfl

theorem parseString_escaped (s : List Char) (rest : JsString) :
  parseString (encodeUtf16 (s.flatMap escapeChar) ++ '"'.toNat :: rest) =
    some (encodeUtf16 s, rest)
  := by
  induction s with
  | nil =>
    change parseString ('"'.toNat :: rest) = _
    rw [parseString.eq_def]
    dsimp only
    rw [if_pos rfl]
    rfl
  | cons c s ih =>
    rw [List.flatMap_cons, encodeUtf16_append, List.append_assoc, parseString_escapeChar, ih]
    rfl

theorem parseString_dumpsString (s : String) (rest : JsString) :
  ∃ text, encodeUtf16 (dumpsString s) ++ rest = '"'.toNat :: text ∧
    parseString text = some (js s, rest)
  := by
  refine ⟨encodeUtf16 (s.toList.flatMap escapeChar) ++ '"'.toNat :: rest, ?_, ?_⟩
  · unfold dumpsString
    rw [encodeUtf16_append, List.append_assoc]
    rfl
  · apply parseString_escaped

/-! ### Numbers -/

/-- The numerals of Python: without a leading zero, and with the sign of the exponent. -/
structure Numeral where
  negative : Bool
  whole : List Char
  fraction : List Char
  exponent : Option (Bool × List Char)
  whole_ne : whole ≠ []
  whole_digits : ∀ c ∈ whole, c.isDigit
  no_leading_zero : whole.head? = some '0' → whole = ['0']
  fraction_digits : ∀ c ∈ fraction, c.isDigit
  exponent_ne : ∀ e ∈ exponent, e.2 ≠ []
  exponent_digits : ∀ e ∈ exponent, ∀ c ∈ e.2, c.isDigit

namespace Numeral

def fractionText (l : Numeral) : List Char :=
  if l.fraction = [] then [] else '.' :: l.fraction

def exponentText (l : Numeral) : List Char :=
  match l.exponent with
  | none => []
  | some (negative, digits) => 'e' :: (if negative then '-' else '+') :: digits

def text (l : Numeral) : List Char :=
  (if l.negative then ['-'] else []) ++ l.whole ++ l.fractionText ++ l.exponentText

def exponentValue (l : Numeral) : ℤ :=
  match l.exponent with
  | none => 0
  | some (negative, digits) =>
      if negative then -Nat.ofDigitChars 10 digits 0 else Nat.ofDigitChars 10 digits 0

/-- The number of JavaScript that the numeral is rounded to. -/
def value (l : Numeral) : JsNumber :=
  decimal l.negative (Nat.ofDigitChars 10 (l.whole ++ l.fraction) 0) l.fraction.length
    l.exponentValue

end Numeral

theorem isDigit_toNat {c : Char} (h : c.isDigit) :
  isDigit c.toNat = true
  := by
  unfold Char.isDigit at h
  unfold isDigit
  rw [Bool.and_eq_true, decide_eq_true_eq, decide_eq_true_eq] at h ⊢
  exact h

/-- The digits of a numeral, as code units. -/
theorem encodeUtf16_digits {digits : List Char} (h : ∀ c ∈ digits, c.isDigit) :
  encodeUtf16 digits = digits.map (·.toNat)
  := by
  apply encodeUtf16_of_lt
  intro c hc
  have digit := isDigit_toNat (h c hc)
  unfold isDigit at digit
  rw [Bool.and_eq_true, decide_eq_true_eq, decide_eq_true_eq] at digit
  have nine : '9'.toNat = 57 := rfl
  omega

theorem digitsValue_map (digits : List Char) :
  digitsValue (digits.map (·.toNat)) = Nat.ofDigitChars 10 digits 0
  := by
  rw [digitsValue, List.foldl_map, Nat.ofDigitChars_eq_foldl]

/-- No digit follows. -/
def Stops (s : JsString) : Prop :=
  ∀ u ∈ s.head?, isDigit u = false

/-- Nothing follows that could belong to a numeral. -/
def Ends (s : JsString) : Prop :=
  ∀ u ∈ s.head?, isDigit u = false ∧ u ≠ '.'.toNat ∧ u ≠ 'e'.toNat ∧ u ≠ 'E'.toNat

theorem Ends.stops {s : JsString} (h : Ends s) :
  Stops s
  := fun u hu => (h u hu).1

theorem takeWhile_of_stops {s : JsString} (h : Stops s) :
  s.takeWhile isDigit = []
  := by
  cases s with
  | nil => rfl
  | cons u s =>
    rw [List.takeWhile_cons, h u rfl]
    rfl

theorem dropWhile_of_stops {s : JsString} (h : Stops s) :
  s.dropWhile isDigit = s
  := by
  cases s with
  | nil => rfl
  | cons u s =>
    rw [List.dropWhile_cons, h u rfl]
    rfl

theorem parseDigits_digits {digits : List Char} (h : ∀ c ∈ digits, c.isDigit) (ne : digits ≠ [])
    {rest : JsString} (stops : Stops rest) :
  parseDigits (digits.map (·.toNat) ++ rest) = some (digits.map (·.toNat), rest)
  := by
  have all : ∀ u ∈ digits.map (·.toNat), isDigit u = true := by
    intro u hu
    obtain ⟨c, hc, rfl⟩ := List.mem_map.mp hu
    apply isDigit_toNat (h c hc)
  have taken : (digits.map (·.toNat) ++ rest).takeWhile isDigit = digits.map (·.toNat) := by
    rw [List.takeWhile_append_of_pos all, takeWhile_of_stops stops, List.append_nil]
  have dropped : (digits.map (·.toNat) ++ rest).dropWhile isDigit = rest := by
    rw [List.dropWhile_append_of_pos all, dropWhile_of_stops stops]
  unfold parseDigits
  rw [taken, dropped, if_neg]
  intro empty
  apply ne (List.map_eq_nil_iff.mp empty)

namespace Numeral

variable (l : Numeral) {rest : JsString}

theorem parseWhole_whole (stops : Stops rest) :
  parseWhole (l.whole.map (·.toNat) ++ rest) = some (l.whole.map (·.toNat), rest)
  := by
  have digits := l.whole_digits
  have ne := l.whole_ne
  have zero := l.no_leading_zero
  cases hwhole : l.whole with
  | nil => exact absurd hwhole ne
  | cons c whole =>
    rw [hwhole] at digits ne zero
    by_cases leading : c = '0'
    · subst leading
      cases zero rfl
      rfl
    · have nonzero : c.toNat ≠ '0'.toNat := fun same => leading (Char.toNat_inj.mp same)
      rw [List.map_cons, List.cons_append, parseWhole, if_neg nonzero]
      apply parseDigits_digits digits ne stops

theorem parseFraction_fractionText (stops : Stops rest)
    (point : ∀ u ∈ rest.head?, u ≠ '.'.toNat) :
  parseFraction (encodeUtf16 l.fractionText ++ rest) = some (l.fraction.map (·.toNat), rest)
  := by
  unfold fractionText
  split_ifs with empty
  · rw [empty]
    change parseFraction rest = some ([], rest)
    cases rest with
    | nil => rfl
    | cons u rest => rw [parseFraction, if_neg (point u rfl)]
  · rw [encodeUtf16_cons, encodeUtf16_digits l.fraction_digits]
    change parseFraction ('.'.toNat :: (l.fraction.map (·.toNat) ++ rest)) = _
    rw [parseFraction, if_pos rfl]
    apply parseDigits_digits l.fraction_digits empty stops

theorem parseExponent_exponentText (ends : Ends rest) :
  parseExponent (encodeUtf16 l.exponentText ++ rest) = some (l.exponentValue, rest)
  := by
  have digits := l.exponent_digits
  have ne := l.exponent_ne
  unfold exponentText exponentValue
  cases hexponent : l.exponent with
  | none =>
    change parseExponent rest = some (0, rest)
    cases rest with
    | nil => rfl
    | cons u rest =>
      obtain ⟨-, -, lower, upper⟩ := ends u rfl
      rw [parseExponent.eq_def]
      dsimp only
      rw [if_neg]
      rintro (same | same)
      · apply lower same
      · apply upper same
  | some e =>
    obtain ⟨negative, exponent⟩ := e
    have read := parseDigits_digits (digits _ hexponent) (ne _ hexponent) ends.stops
    dsimp only at read ⊢
    rw [encodeUtf16_cons, encodeUtf16_cons, encodeUtf16_digits (digits _ hexponent)]
    cases negative with
    | true =>
      change parseExponent ('e'.toNat :: '-'.toNat :: (exponent.map (·.toNat) ++ rest)) = _
      rw [parseExponent, if_pos (.inl rfl)]
      dsimp only
      rw [if_pos rfl, read, ← digitsValue_map]
      rfl
    | false =>
      change parseExponent ('e'.toNat :: '+'.toNat :: (exponent.map (·.toNat) ++ rest)) = _
      rw [parseExponent, if_pos (.inl rfl)]
      dsimp only
      rw [if_neg (by decide), if_pos rfl, read, ← digitsValue_map]
      rfl

/-- What comes after the digits before the point. -/
theorem stops_exponentText (ends : Ends rest) :
  ∀ u ∈ (encodeUtf16 l.exponentText ++ rest).head?, isDigit u = false ∧ u ≠ '.'.toNat
  := by
  unfold exponentText
  split
  · intro u hu
    exact ⟨(ends u hu).1, (ends u hu).2.1⟩
  · rintro u ⟨⟩
    decide

theorem stops_fractionText (ends : Ends rest) :
  Stops (encodeUtf16 l.fractionText ++ (encodeUtf16 l.exponentText ++ rest))
  := by
  unfold fractionText
  split_ifs
  · intro u hu
    apply (l.stops_exponentText ends u hu).1
  · rintro u ⟨⟩
    decide

theorem parseMagnitude_text (ends : Ends rest) :
  parseMagnitude l.negative
      (l.whole.map (·.toNat) ++
        (encodeUtf16 l.fractionText ++ (encodeUtf16 l.exponentText ++ rest))) =
    some (l.value, rest)
  := by
  have whole := l.parseWhole_whole (l.stops_fractionText ends)
  have fraction := l.parseFraction_fractionText (fun u hu => (l.stops_exponentText ends u hu).1)
    (fun u hu => (l.stops_exponentText ends u hu).2)
  have exponent := l.parseExponent_exponentText ends
  simp only [parseMagnitude, whole, fraction, exponent, Option.bind_eq_bind, Option.bind_some]
  rw [← List.map_append, digitsValue_map, List.length_map]
  rfl

theorem encodeUtf16_text (rest : JsString) :
  encodeUtf16 l.text ++ rest =
    (if l.negative then ['-'.toNat] else []) ++
      (l.whole.map (·.toNat) ++ (encodeUtf16 l.fractionText ++ (encodeUtf16 l.exponentText ++ rest)))
  := by
  simp only [text, encodeUtf16_append, encodeUtf16_digits l.whole_digits, List.append_assoc]
  cases l.negative
  all_goals rfl

/-- The reader rounds a numeral. -/
theorem parseNumber_text (ends : Ends rest) :
  parseNumber (encodeUtf16 l.text ++ rest) = some (l.value, rest)
  := by
  have magnitude := l.parseMagnitude_text ends
  rw [encodeUtf16_text]
  cases hnegative : l.negative with
  | true =>
    rw [hnegative] at magnitude
    rw [if_pos rfl, List.singleton_append, parseNumber, if_pos rfl]
    apply magnitude
  | false =>
    rw [hnegative] at magnitude
    rw [if_neg Bool.false_ne_true, List.nil_append]
    have digits := l.whole_digits
    have ne := l.whole_ne
    cases hwhole : l.whole with
    | nil => exact absurd hwhole ne
    | cons c whole =>
      rw [hwhole] at digits magnitude
      rw [List.map_cons, List.cons_append, parseNumber, if_neg]
      · apply magnitude
      · have digit := isDigit_toNat (digits c List.mem_cons_self)
        intro minus
        rw [minus] at digit
        cases digit

end Numeral

/-! ### Integers -/

/-- Only the numeral of zero begins with a zero. -/
theorem toDigits_head_zero (n : ℕ) (h : (Nat.toDigits 10 n).head? = some '0') :
  n = 0
  := by
  induction n using Nat.strong_induction_on with
  | _ n ih =>
    by_cases small : n < 10
    · rw [Nat.toDigits_of_lt_base small] at h
      have digits : ∀ d < 10, Nat.digitChar d = '0' → d = 0 := by decide
      apply digits n small (Option.some.inj h)
    · rw [Nat.toDigits_of_base_le (by decide) (by omega)] at h
      rw [List.head?_append_of_ne_nil _ Nat.toDigits_ne_nil] at h
      have zero := ih (n / 10) (by omega) h
      omega

/-- The numeral of an integer. -/
def Numeral.ofInt (n : ℤ) : Numeral where
  negative := n < 0
  whole := Nat.toDigits 10 n.natAbs
  fraction := []
  exponent := none
  whole_ne := Nat.toDigits_ne_nil
  whole_digits _ hc := Nat.isDigit_of_mem_toDigits (by decide) (by decide) hc
  no_leading_zero h := by rw [toDigits_head_zero _ h, Nat.toDigits_zero]
  fraction_digits := nofun
  exponent_ne := nofun
  exponent_digits := nofun

theorem Numeral.text_ofInt (n : ℤ) :
  (Numeral.ofInt n).text = dumpsInt n
  := by
  unfold Numeral.text dumpsInt
  change (if decide (n < 0) = true then ['-'] else []) ++ Nat.toDigits 10 n.natAbs ++ [] ++ [] = _
  rw [List.append_nil, List.append_nil]
  split_ifs with h h'
  · rfl
  · exact absurd (of_decide_eq_true h) h'
  · exact absurd (decide_eq_true ‹n < 0›) h
  · rfl

/-- A number of the format is read back. -/
theorem Numeral.value_ofInt {n : ℤ} (h : Binary64.Representable n.natAbs) :
  (Numeral.ofInt n).value = jsInt n
  := by
  have digits : Nat.ofDigitChars 10 (Nat.toDigits 10 n.natAbs ++ []) 0 = n.natAbs := by
    rw [List.append_nil, Nat.ofDigitChars_ten_toDigits]
  unfold Numeral.value
  change decimal (decide (n < 0)) (Nat.ofDigitChars 10 (Nat.toDigits 10 n.natAbs ++ []) 0) 0 0 = _
  rw [digits]
  unfold decimal jsInt
  rw [Nat.cast_zero, sub_zero, zpow_zero, mul_one, Binary64.nearest_of_representable h]

/-! ### Values -/

/-- A text that is read as this number. -/
def Reads (text : List Char) (x : JsNumber) : Prop :=
  ∃ l : Numeral, l.text = text ∧ l.value = x

/-- What a value of Python is made of: the keys of a dictionary differ, and a floating point number
is written so that it is rounded to itself. -/
structure Written (floatRepr : Binary64 → List Char) (v : Value) : Prop where
  floats : ∀ x, .float x ∈ v.parts → Reads (floatRepr x) (jsFloat x)
  keys : ∀ members, .dict members ∈ v.parts → (members.map (·.1)).Nodup

/-- A value whose integers are numbers of the format. -/
structure Readable (floatRepr : Binary64 → List Char) (v : Value) : Prop
    extends Written floatRepr v where
  ints : ∀ n, .int n ∈ v.parts → Binary64.Representable n.natAbs

namespace Value

theorem parts_subset_partsOfItems {v : Value} {items : List Value} (h : v ∈ items) :
  v.parts ⊆ partsOfItems items
  := by
  induction items with
  | nil => cases h
  | cons w items ih =>
    rw [partsOfItems]
    obtain rfl | h := List.mem_cons.mp h
    · apply List.subset_append_left
    · exact fun w hw => List.mem_append_right _ (ih h hw)

theorem parts_subset_partsOfMembers {m : String × Value} {members : List (String × Value)}
    (h : m ∈ members) :
  m.2.parts ⊆ partsOfMembers members
  := by
  induction members with
  | nil => cases h
  | cons w members ih =>
    obtain ⟨k, v⟩ := w
    rw [partsOfMembers]
    obtain rfl | h := List.mem_cons.mp h
    · apply List.subset_append_left
    · exact fun w hw => List.mem_append_right _ (ih h hw)

theorem membersToJs_eq (members : List (String × Value)) :
  membersToJs members = members.map fun m => (js m.1, m.2.toJs)
  := by
  induction members with
  | nil => rfl
  | cons m members ih =>
    obtain ⟨k, v⟩ := m
    rw [membersToJs, ih, List.map_cons]

/-- Induction on a value: the items and the members have the property already. -/
theorem rec_on_parts {P : Value → Prop}
    (leaf : ∀ v, (∀ items, v ≠ .list items) → (∀ members, v ≠ .dict members) → P v)
    (list : ∀ items, (∀ v ∈ items, P v) → P (.list items))
    (dict : ∀ members, (∀ m ∈ members, P m.2) → P (.dict members)) :
  ∀ v, P v
  := by
  intro v
  apply @Value.rec P (fun items => ∀ v ∈ items, P v) (fun members => ∀ m ∈ members, P m.2)
    (fun m => P m.2)
  · apply leaf
    all_goals exact fun _ h => by cases h
  · intro b
    apply leaf
    all_goals exact fun _ h => by cases h
  · intro n
    apply leaf
    all_goals exact fun _ h => by cases h
  · intro x
    apply leaf
    all_goals exact fun _ h => by cases h
  · intro s
    apply leaf
    all_goals exact fun _ h => by cases h
  · apply list
  · apply dict
  · intro w hw
    cases hw
  · rintro w items hw hitems w' hw'
    obtain rfl | hw' := List.mem_cons.mp hw'
    · apply hw
    · apply hitems w' hw'
  · intro m hm
    cases hm
  · rintro m members hm hmembers m' hm'
    obtain rfl | hm' := List.mem_cons.mp hm'
    · apply hm
    · apply hmembers m' hm'
  · exact fun _ _ h => h

end Value

theorem js_injective : Function.Injective js := by
  intro s t h
  apply String.toList_inj.mp
  apply encodeUtf16_injective h

/-! ### Objects -/

/-- Members with different keys are only added. -/
theorem foldl_define {object members : List (JsString × JsValue)}
    (h : ((object ++ members).map (·.1)).Nodup) :
  members.foldl (fun object m => define object m.1 m.2) object = object ++ members
  := by
  induction members generalizing object with
  | nil =>
    rw [List.append_nil]
    rfl
  | cons m members ih =>
    have fresh : object.any (·.1 = m.1) = false := by
      rw [List.any_eq_false]
      intro m' hm' same
      rw [List.map_append, List.nodup_append] at h
      apply h.2.2 m'.1 (List.mem_map_of_mem hm') m.1 (List.mem_map_of_mem List.mem_cons_self)
      apply of_decide_eq_true same
    have added : define object m.1 m.2 = object ++ [m] := by
      rw [define, fresh]
      rfl
    rw [List.foldl_cons, added, ih]
    · rw [List.append_assoc, List.singleton_append]
    · rw [List.append_assoc, List.singleton_append]
      apply h

theorem object_membersToJs {members : List (String × Value)}
    (h : (members.map (·.1)).Nodup) :
  object (Value.membersToJs members) = .object (Value.membersToJs members)
  := by
  have keys : ((Value.membersToJs members).map (·.1)).Nodup := by
    rw [Value.membersToJs_eq, List.map_map]
    have mapped := List.Nodup.map js_injective h
    rw [List.map_map] at mapped
    apply mapped
  unfold object
  rw [foldl_define]
  · rfl
  · apply keys

/-! ### The beginning of a text -/

theorem skip_solid {u : ℕ} (h : isWhitespace u = false) (s : JsString) :
  skip (u :: s) = u :: s
  := by
  rw [skip, List.dropWhile_cons, h]
  rfl

/-- A numeral begins with its sign or a digit. -/
theorem Numeral.text_head (l : Numeral) :
  ∃ u s, encodeUtf16 l.text = u :: s ∧ (u = '-'.toNat ∨ isDigit u = true)
  := by
  have text := l.encodeUtf16_text []
  rw [List.append_nil] at text
  rw [text]
  split_ifs
  · exact ⟨_, _, rfl, .inl rfl⟩
  · cases hwhole : l.whole with
    | nil => exact absurd hwhole l.whole_ne
    | cons c whole =>
      refine ⟨_, _, rfl, .inr ?_⟩
      apply isDigit_toNat
      apply l.whole_digits
      rw [hwhole]
      exact List.mem_cons_self

theorem parseValue_number {u : ℕ} (h : u = '-'.toNat ∨ isDigit u = true) (n : ℕ) (s : JsString) :
  parseValue (n + 1) (u :: s) = (parseNumber (u :: s)).map fun p => (.number p.1, p.2)
  := by
  have solid : isWhitespace u = false ∧ u ≠ '{'.toNat ∧ u ≠ '['.toNat ∧ u ≠ '"'.toNat ∧
      u ≠ 'n'.toNat ∧ u ≠ 't'.toNat ∧ u ≠ 'f'.toNat := by
    obtain rfl | digit := h
    · decide
    · unfold isDigit at digit
      rw [Bool.and_eq_true, decide_eq_true_eq, decide_eq_true_eq] at digit
      have digits : ∀ u < 58, 48 ≤ u → isWhitespace u = false ∧ u ≠ '{'.toNat ∧ u ≠ '['.toNat ∧
          u ≠ '"'.toNat ∧ u ≠ 'n'.toNat ∧ u ≠ 't'.toNat ∧ u ≠ 'f'.toNat := by decide
      have nine : '9'.toNat = 57 := rfl
      apply digits u (by omega) digit.1
  obtain ⟨solid, brace, bracket, quote, null, true', false'⟩ := solid
  rw [parseValue, skip_solid solid]
  dsimp only
  rw [if_neg brace, if_neg bracket, if_neg quote, if_neg null, if_neg true', if_neg false']

section

variable {floatRepr : Binary64 → List Char}

/-- The reader returns the value, whatever follows it. -/
def ReadsBack (floatRepr : Binary64 → List Char) (v : Value) : Prop :=
  ∀ n rest, Ends rest → 2 * (encodeUtf16 (dumps floatRepr v)).length + 1 ≤ n →
    parseValue n (encodeUtf16 (dumps floatRepr v) ++ rest) = some (v.toJs, rest)

/-- A number is read back. -/
theorem readsBack_of_reads {v : Value} {x : JsNumber} (h : Reads (dumps floatRepr v) x)
    (same : v.toJs = .number x) :
  ReadsBack floatRepr v
  := by
  obtain ⟨l, text, value⟩ := h
  intro n rest ends fuel
  obtain ⟨n, rfl⟩ : ∃ m, n = m + 1 := ⟨n - 1, by omega⟩
  obtain ⟨u, s, head, begins⟩ := l.text_head
  have number := l.parseNumber_text ends
  rw [← text, same, ← value]
  rw [head, List.cons_append] at number ⊢
  rw [parseValue_number begins, number]
  rfl

/-- The text of a value begins neither with a space nor with a closing bracket. -/
theorem dumps_head {v : Value} (h : Readable floatRepr v) :
  ∃ u s, encodeUtf16 (dumps floatRepr v) = u :: s ∧ isWhitespace u = false ∧ u ≠ ']'.toNat
  := by
  have number : ∀ l : Numeral, ∃ u s, encodeUtf16 l.text = u :: s ∧ isWhitespace u = false ∧
      u ≠ ']'.toNat := by
    intro l
    obtain ⟨u, s, head, begins⟩ := l.text_head
    refine ⟨u, s, head, ?_⟩
    obtain rfl | digit := begins
    · decide
    · unfold isDigit at digit
      rw [Bool.and_eq_true, decide_eq_true_eq, decide_eq_true_eq] at digit
      have digits : ∀ u < 58, 48 ≤ u → isWhitespace u = false ∧ u ≠ ']'.toNat := by decide
      have nine : '9'.toNat = 57 := rfl
      apply digits u (by omega) digit.1
  cases v with
  | none => exact ⟨_, _, rfl, by decide, by decide⟩
  | bool b =>
    cases b
    all_goals exact ⟨_, _, rfl, by decide, by decide⟩
  | int n =>
    rw [dumps, ← Numeral.text_ofInt]
    apply number
  | float x =>
    obtain ⟨l, text, -⟩ := h.floats x List.mem_cons_self
    rw [dumps, ← text]
    apply number
  | str s => exact ⟨_, _, rfl, by decide, by decide⟩
  | list items =>
    cases items
    all_goals exact ⟨_, _, rfl, by decide, by decide⟩
  | dict members =>
    cases members with
    | nil => exact ⟨_, _, rfl, by decide, by decide⟩
    | cons m members => exact ⟨_, _, rfl, by decide, by decide⟩

/-! ### Lists and dictionaries -/

theorem ends_comma (s : JsString) : Ends (','.toNat :: s) := by
  rintro u ⟨⟩
  decide

theorem ends_bracket (s : JsString) : Ends (']'.toNat :: s) := by
  rintro u ⟨⟩
  decide

theorem ends_brace (s : JsString) : Ends ('}'.toNat :: s) := by
  rintro u ⟨⟩
  decide

theorem parseItems_dumps {items : List Value} (hitems : ∀ w ∈ items, ReadsBack floatRepr w)
    {v : Value} (hv : ReadsBack floatRepr v) (n : ℕ) (tail : JsString)
    (fuel : 2 * (encodeUtf16 (dumps floatRepr v ++ dumpsItems floatRepr items)).length + 2 ≤ n) :
  parseItems n
      (encodeUtf16 (dumps floatRepr v ++ dumpsItems floatRepr items) ++ ']'.toNat :: tail) =
    some (v.toJs :: Value.itemsToJs items, tail)
  := by
  obtain ⟨n, rfl⟩ : ∃ m, n = m + 1 := ⟨n - 1, by omega⟩
  rw [encodeUtf16_append, List.length_append] at fuel
  rw [encodeUtf16_append, List.append_assoc]
  induction items generalizing v n with
  | nil =>
    have first := hv n (']'.toNat :: tail) (ends_bracket tail) (by omega)
    change parseItems (n + 1) (encodeUtf16 (dumps floatRepr v) ++ ']'.toNat :: tail) = _
    rw [parseItems, first]
    rfl
  | cons w items ih =>
    have text : encodeUtf16 (dumpsItems floatRepr (w :: items)) =
        ','.toNat :: (encodeUtf16 (dumps floatRepr w) ++ encodeUtf16 (dumpsItems floatRepr items)) := by
      rw [dumpsItems, encodeUtf16_append]
      rfl
    rw [text, List.length_cons, List.length_append] at fuel
    obtain ⟨m, rfl⟩ : ∃ m, n = m + 1 := ⟨n - 1, by omega⟩
    have first := hv (m + 1) (','.toNat :: (encodeUtf16 (dumps floatRepr w) ++
      (encodeUtf16 (dumpsItems floatRepr items) ++ ']'.toNat :: tail))) (ends_comma _) (by omega)
    have others := ih (fun w' hw' => hitems w' (List.mem_cons_of_mem w hw'))
      (hitems w List.mem_cons_self) m (by omega)
    rw [text, List.cons_append, List.append_assoc, parseItems, first]
    simp only [Option.bind_eq_bind, Option.bind_some, skip_solid (u := ','.toNat) rfl, others]
    rfl

/-- The text of a member, and of what comes after it. -/
theorem parseMembers_member {k : String} {v : Value} (hv : ReadsBack floatRepr v) {n : ℕ}
    {rest : JsString} (ends : Ends rest) (solid : skip rest = rest)
    (fuel : 2 * (encodeUtf16 (dumps floatRepr v)).length + 1 ≤ n) :
  parseMembers (n + 1)
      (encodeUtf16 (dumpsString k) ++ ':'.toNat :: (encodeUtf16 (dumps floatRepr v) ++ rest)) =
    match rest with
    | [] => none
    | u :: rest =>
        if u = ','.toNat then
          (parseMembers n rest).map fun p => ((js k, v.toJs) :: p.1, p.2)
        else if u = '}'.toNat then some ([(js k, v.toJs)], rest)
        else none
  := by
  have value := hv n rest ends fuel
  obtain ⟨text, quoted, key⟩ := parseString_dumpsString k
    (':'.toNat :: (encodeUtf16 (dumps floatRepr v) ++ rest))
  rw [quoted, parseMembers, skip_solid (by decide)]
  dsimp only
  rw [if_neg (by decide), key]
  simp only [Option.bind_eq_bind, Option.bind_some, skip_solid (u := ':'.toNat) rfl]
  rw [if_neg (by decide), value]
  simp only [Option.bind_some, solid]
  cases rest with
  | nil => rfl
  | cons u rest =>
    dsimp only
    split_ifs
    · cases parseMembers n rest
      all_goals rfl
    · rfl
    · rfl

variable (floatRepr) in
theorem encodeUtf16_dumpsMembers (k : String) (v : Value) (members : List (String × Value))
    (tail : JsString) :
  encodeUtf16 (dumpsString k ++ ':' :: dumps floatRepr v ++ dumpsMembers floatRepr members) ++ tail =
    encodeUtf16 (dumpsString k) ++ ':'.toNat ::
      (encodeUtf16 (dumps floatRepr v) ++ (encodeUtf16 (dumpsMembers floatRepr members) ++ tail))
  := by
  simp only [encodeUtf16_append, List.append_assoc]
  rfl

theorem parseMembers_dumps {members : List (String × Value)}
    (hmembers : ∀ m ∈ members, ReadsBack floatRepr m.2) {k : String} {v : Value}
    (hv : ReadsBack floatRepr v) (n : ℕ) (tail : JsString)
    (fuel : 2 * (encodeUtf16
      (dumpsString k ++ ':' :: dumps floatRepr v ++ dumpsMembers floatRepr members)).length + 2 ≤ n) :
  parseMembers n
      (encodeUtf16 (dumpsString k ++ ':' :: dumps floatRepr v ++ dumpsMembers floatRepr members) ++
        '}'.toNat :: tail) =
    some ((js k, v.toJs) :: Value.membersToJs members, tail)
  := by
  have length := congrArg List.length
    (encodeUtf16_dumpsMembers floatRepr k v members [])
  simp only [List.append_nil, List.length_append, List.length_cons] at length
  rw [length] at fuel
  clear length
  rw [encodeUtf16_dumpsMembers]
  obtain ⟨n, rfl⟩ : ∃ m, n = m + 1 := ⟨n - 1, by omega⟩
  induction members generalizing k v n with
  | nil =>
    change parseMembers (n + 1) (encodeUtf16 (dumpsString k) ++ ':'.toNat ::
      (encodeUtf16 (dumps floatRepr v) ++ '}'.toNat :: tail)) = _
    rw [parseMembers_member hv (ends_brace tail) (skip_solid rfl tail) (by omega)]
    rfl
  | cons m members ih =>
    obtain ⟨k', v'⟩ := m
    have text : encodeUtf16 (dumpsMembers floatRepr ((k', v') :: members)) =
        ','.toNat :: (encodeUtf16 (dumpsString k') ++ ':'.toNat ::
          (encodeUtf16 (dumps floatRepr v') ++ encodeUtf16 (dumpsMembers floatRepr members))) := by
      rw [dumpsMembers, encodeUtf16_append, List.cons_append, encodeUtf16_cons, encodeUtf16_append,
        encodeUtf16_cons]
      simp only [List.append_assoc]
      rfl
    rw [text] at fuel ⊢
    simp only [List.length_append, List.length_cons] at fuel
    obtain ⟨m, rfl⟩ : ∃ m, n = m + 1 := ⟨n - 1, by omega⟩
    have next : ReadsBack floatRepr v' := hmembers (k', v') List.mem_cons_self
    have others := ih (k := k') (fun m' hm' => hmembers m' (List.mem_cons_of_mem _ hm')) next m
      (by omega)
    rw [List.cons_append, parseMembers_member hv (ends_comma _) (skip_solid rfl _) (by omega)]
    dsimp only
    rw [if_pos rfl]
    simp only [List.append_assoc, List.cons_append, others, Option.map_some]
    rfl

/-! ### All values -/

theorem Readable.mono {v w : Value} (h : Readable floatRepr v) (sub : w.parts ⊆ v.parts) :
  Readable floatRepr w
  where
  ints n hn := h.ints n (sub hn)
  floats x hx := h.floats x (sub hx)
  keys members hm := h.keys members (sub hm)

theorem readsBack_list {items : List Value} (hitems : ∀ v ∈ items, ReadsBack floatRepr v)
    (h : Readable floatRepr (.list items)) :
  ReadsBack floatRepr (.list items)
  := by
  intro n rest _ fuel
  obtain ⟨n, rfl⟩ : ∃ m, n = m + 1 := ⟨n - 1, by omega⟩
  cases items with
  | nil => rfl
  | cons v items =>
    have first : Readable floatRepr v := by
      apply h.mono
      exact fun w hw =>
        List.mem_cons_of_mem _ (Value.parts_subset_partsOfItems List.mem_cons_self hw)
    obtain ⟨u, s, head, solid, bracket⟩ := dumps_head first
    have text : encodeUtf16 (dumps floatRepr (.list (v :: items))) ++ rest =
        '['.toNat :: (encodeUtf16 (dumps floatRepr v ++ dumpsItems floatRepr items) ++
          ']'.toNat :: rest) := by
      rw [dumps, encodeUtf16_append, List.append_assoc]
      rfl
    have length := congrArg List.length text
    simp only [List.length_append, List.length_cons] at length
    have inner := parseItems_dumps (fun w hw => hitems w (List.mem_cons_of_mem v hw))
      (hitems v List.mem_cons_self) n rest (by omega)
    rw [text, parseValue, skip_solid (by decide)]
    dsimp only
    rw [if_neg (by decide), if_pos rfl, inner]
    rw [encodeUtf16_append, head, List.cons_append, List.cons_append, skip_solid solid]
    dsimp only
    rw [if_neg bracket]
    rfl

theorem readsBack_dict {members : List (String × Value)}
    (hmembers : ∀ m ∈ members, ReadsBack floatRepr m.2) (keys : (members.map (·.1)).Nodup) :
  ReadsBack floatRepr (.dict members)
  := by
  intro n rest _ fuel
  obtain ⟨n, rfl⟩ : ∃ m, n = m + 1 := ⟨n - 1, by omega⟩
  cases members with
  | nil => rfl
  | cons m members =>
    obtain ⟨k, v⟩ := m
    have text : encodeUtf16 (dumps floatRepr (.dict ((k, v) :: members))) ++ rest =
        '{'.toNat :: (encodeUtf16 (dumpsString k ++ ':' :: dumps floatRepr v ++
          dumpsMembers floatRepr members) ++ '}'.toNat :: rest) := by
      rw [dumps, encodeUtf16_append, List.append_assoc]
      rfl
    have length := congrArg List.length text
    simp only [List.length_append, List.length_cons] at length
    have first : ReadsBack floatRepr v := hmembers (k, v) List.mem_cons_self
    have inner := parseMembers_dumps (fun m hm => hmembers m (List.mem_cons_of_mem _ hm)) (k := k)
      first n rest (by omega)
    have quoted := encodeUtf16_dumpsMembers floatRepr k v members ('}'.toNat :: rest)
    obtain ⟨inside, begins, -⟩ := parseString_dumpsString k (':'.toNat ::
      (encodeUtf16 (dumps floatRepr v) ++
        (encodeUtf16 (dumpsMembers floatRepr members) ++ '}'.toNat :: rest)))
    rw [text, parseValue, skip_solid (by decide)]
    dsimp only
    rw [if_pos rfl, inner, quoted, begins, skip_solid (by decide)]
    dsimp only
    rw [if_neg (by decide), Option.map_some]
    dsimp only
    rw [← Value.membersToJs, object_membersToJs keys]
    rfl

/-- What can be read is read back. -/
theorem readsBack_of_readable (v : Value) (h : Readable floatRepr v) : ReadsBack floatRepr v := by
  revert h
  apply Value.rec_on_parts _ _ _ v
  · intro v list dict h
    cases v with
    | none =>
      intro n rest _ fuel
      obtain ⟨n, rfl⟩ : ∃ m, n = m + 1 := ⟨n - 1, by omega⟩
      rfl
    | bool b =>
      intro n rest _ fuel
      obtain ⟨n, rfl⟩ : ∃ m, n = m + 1 := ⟨n - 1, by omega⟩
      cases b
      all_goals rfl
    | int n =>
      apply readsBack_of_reads (x := jsInt n)
      · refine ⟨.ofInt n, ?_, Numeral.value_ofInt (h.ints n List.mem_cons_self)⟩
        rw [dumps, Numeral.text_ofInt]
      · rfl
    | float x =>
      apply readsBack_of_reads (x := jsFloat x)
      · apply h.floats x List.mem_cons_self
      · rfl
    | str s =>
      intro n rest _ fuel
      obtain ⟨n, rfl⟩ : ∃ m, n = m + 1 := ⟨n - 1, by omega⟩
      obtain ⟨text, quoted, read⟩ := parseString_dumpsString s rest
      rw [dumps, quoted, parseValue, skip_solid (by decide)]
      dsimp only
      rw [if_neg (by decide), if_neg (by decide), if_pos rfl, read]
      rfl
    | list items => exact absurd rfl (list items)
    | dict members => exact absurd rfl (dict members)
  · intro items ih h
    apply readsBack_list _ h
    intro w hw
    apply ih w hw
    apply h.mono
    exact fun x hx => List.mem_cons_of_mem _ (Value.parts_subset_partsOfItems hw hx)
  · intro members ih h
    apply readsBack_dict _ (h.keys members List.mem_cons_self)
    intro m hm
    apply ih m hm
    apply h.mono
    exact fun x hx => List.mem_cons_of_mem _ (Value.parts_subset_partsOfMembers hm hx)

/-- `JSON.parse` returns what `json.dumps` has written. -/
theorem parse_dumps {v : Value} (h : Readable floatRepr v) :
  parse (encodeUtf16 (dumps floatRepr v)) = some v.toJs
  := by
  have read := readsBack_of_readable v h (2 * (encodeUtf16 (dumps floatRepr v)).length + 2) [] nofun
    (by omega)
  rw [List.append_nil] at read
  rw [parse, read]
  rfl

/-! ### One line -/

/-- The text is a line without an end. -/
def OneLine (text : List Char) : Prop :=
  ∀ c ∈ text, c ≠ '\n' ∧ c ≠ '\r'

instance (text : List Char) : Decidable (OneLine text) :=
  List.decidableBAll _ text

theorem OneLine.append {s t : List Char} (hs : OneLine s) (ht : OneLine t) :
  OneLine (s ++ t)
  := by
  intro c hc
  obtain hc | hc := List.mem_append.mp hc
  · apply hs c hc
  · apply ht c hc

theorem OneLine.cons {c : Char} {s : List Char} (hc : c ≠ '\n' ∧ c ≠ '\r') (hs : OneLine s) :
  OneLine (c :: s)
  := by
  intro d hd
  obtain rfl | hd := List.mem_cons.mp hd
  · apply hc
  · apply hs d hd

theorem oneLine_digits {digits : List Char} (h : ∀ c ∈ digits, c.isDigit) : OneLine digits := by
  intro c hc
  have digit := h c hc
  constructor
  · rintro rfl
    cases digit
  · rintro rfl
    cases digit

theorem Numeral.oneLine_text (l : Numeral) : OneLine l.text := by
  have sign : OneLine (if l.negative then ['-'] else []) := by
    split_ifs
    all_goals decide
  have fraction : OneLine l.fractionText := by
    unfold fractionText
    split_ifs
    · decide
    · apply OneLine.cons (by decide) (oneLine_digits l.fraction_digits)
  have exponent : OneLine l.exponentText := by
    have digits := l.exponent_digits
    unfold exponentText
    split
    · decide
    next e negative exponent he =>
      apply OneLine.cons (by decide)
      apply OneLine.cons
      · split_ifs
        all_goals decide
      · apply oneLine_digits (digits _ he)
  exact ((sign.append (oneLine_digits l.whole_digits)).append fraction).append exponent

theorem oneLine_escapeChar (c : Char) : OneLine (escapeChar c) := by
  have digit : ∀ d < 16, Nat.digitChar d ≠ '\n' ∧ Nat.digitChar d ≠ '\r' := by decide
  unfold escapeChar
  split_ifs with quote backslash newline carriageReturn tab formFeed backspace control
  · decide
  · decide
  · decide
  · decide
  · decide
  · decide
  · decide
  · have begins : OneLine ['\\', 'u', '0', '0'] := by decide
    apply begins.append
    apply OneLine.cons (digit _ (by omega))
    apply OneLine.cons (digit _ (by omega))
    decide
  · apply OneLine.cons ⟨newline, carriageReturn⟩
    decide

theorem oneLine_dumpsString (s : String) : OneLine (dumpsString s) := by
  apply OneLine.append
  · apply OneLine.cons (by decide)
    intro c hc
    obtain ⟨d, -, hc⟩ := List.mem_flatMap.mp hc
    apply oneLine_escapeChar d c hc
  · decide

theorem oneLine_dumpsItems {items : List Value} (h : ∀ v ∈ items, OneLine (dumps floatRepr v)) :
  OneLine (dumpsItems floatRepr items)
  := by
  induction items with
  | nil => nofun
  | cons v items ih =>
    rw [dumpsItems]
    apply OneLine.append
    · apply OneLine.cons (by decide) (h v List.mem_cons_self)
    · exact ih fun w hw => h w (List.mem_cons_of_mem v hw)

theorem oneLine_dumpsMembers {members : List (String × Value)}
    (h : ∀ m ∈ members, OneLine (dumps floatRepr m.2)) :
  OneLine (dumpsMembers floatRepr members)
  := by
  induction members with
  | nil => nofun
  | cons m members ih =>
    obtain ⟨k, v⟩ := m
    have value : OneLine (dumps floatRepr v) := h (k, v) List.mem_cons_self
    rw [dumpsMembers]
    apply OneLine.append
    · apply OneLine.cons (by decide)
      apply (oneLine_dumpsString k).append
      apply OneLine.cons (by decide) value
    · exact ih fun m' hm' => h m' (List.mem_cons_of_mem _ hm')

/-- What is written has no line breaks: those in the strings are escaped. -/
theorem oneLine_dumps (v : Value) (h : Readable floatRepr v) : OneLine (dumps floatRepr v) := by
  revert h
  apply Value.rec_on_parts _ _ _ v
  · intro v list dict h
    cases v with
    | none =>
      rw [dumps]
      decide
    | bool b =>
      cases b
      all_goals
        rw [dumps]
        decide
    | int n =>
      rw [dumps, ← Numeral.text_ofInt]
      apply Numeral.oneLine_text
    | float x =>
      obtain ⟨l, text, -⟩ := h.floats x List.mem_cons_self
      rw [dumps, ← text]
      apply l.oneLine_text
    | str s => apply oneLine_dumpsString
    | list items => exact absurd rfl (list items)
    | dict members => exact absurd rfl (dict members)
  · intro items ih h
    have lines : ∀ v ∈ items, OneLine (dumps floatRepr v) := by
      intro v hv
      apply ih v hv
      apply h.mono
      exact fun w hw => List.mem_cons_of_mem _ (Value.parts_subset_partsOfItems hv hw)
    cases items with
    | nil =>
      rw [dumps]
      decide
    | cons v items =>
      rw [dumps]
      apply OneLine.append
      · apply OneLine.append
        · apply OneLine.cons (by decide) (lines v List.mem_cons_self)
        · exact oneLine_dumpsItems fun w hw => lines w (List.mem_cons_of_mem v hw)
      · decide
  · intro members ih h
    have lines : ∀ m ∈ members, OneLine (dumps floatRepr m.2) := by
      intro m hm
      apply ih m hm
      apply h.mono
      exact fun w hw => List.mem_cons_of_mem _ (Value.parts_subset_partsOfMembers hm hw)
    cases members with
    | nil =>
      rw [dumps]
      decide
    | cons m members =>
      obtain ⟨k, v⟩ := m
      have value : OneLine (dumps floatRepr v) := lines (k, v) List.mem_cons_self
      rw [dumps]
      apply OneLine.append
      · apply OneLine.append
        · apply OneLine.cons (by decide)
          apply (oneLine_dumpsString k).append
          apply OneLine.cons (by decide) value
        · exact oneLine_dumpsMembers fun m' hm' => lines m' (List.mem_cons_of_mem _ hm')
      · decide

end

end Json
