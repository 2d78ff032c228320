import Lumina.Library.JsonRoundTrip
import Lumina.Library.PyJson

/-!
# What Python writes is read back by Python

`json.loads` returns the value that `json.dumps` has written, with either of the formats, if the
interpreter allows its depth.  Floating point numbers are written as numerals that are rounded to
them, with a fraction or an exponent, and the members of a dictionary have different keys.
-/

namespace PyJson

open Json (Ends JsNumber Numeral decimal digitsValue encodeUtf16_digits hexDigit isDigit
  isDigit_toNat isWhitespace parseDigits parseExponent parseFraction parseWhole simpleEscape skip skip_solid)
open Unicode (encodeUtf16 encodeUtf16_append encodeUtf16_of_lt)

/-! ### Strings -/

def Piece.point : Piece → ℕ
  | plain n => n
  | unit n => n

/-- An escape that is not the first half of a pair. -/
def Piece.Single : Piece → Prop
  | plain _ => True
  | unit n => ¬IsHigh n

theorem join_of_single {pieces : List Piece} (h : ∀ p ∈ pieces, p.Single) :
  join pieces = pieces.map Piece.point
  := by
  induction pieces using join.induct with
  | case1 => rfl
  | case2 n rest ih =>
    rw [join, ih fun p hp => h p (List.mem_cons_of_mem _ hp)]
    rfl
  | case3 n m rest pair ih => exact absurd pair.1 (h (.unit n) List.mem_cons_self)
  | case4 n m rest pair ih =>
    rw [join, if_neg pair, ih fun p hp => h p (List.mem_cons_of_mem _ hp)]
    rfl
  | case5 n rest other ih =>
    rw [join, ih fun p hp => h p (List.mem_cons_of_mem _ hp)]
    · rfl
    · exact other

theorem scanPieces_raw {u : ℕ} (quote : u ≠ '"'.toNat) (backslash : u ≠ '\\'.toNat)
    (control : 0x20 ≤ u) (tail : Str) :
  scanPieces (u :: tail) = (scanPieces tail).map fun p => (.plain u :: p.1, p.2)
  := by
  rw [scanPieces.eq_def]
  dsimp only
  rw [if_neg quote, if_neg backslash, if_neg (by omega)]
  cases scanPieces tail
  all_goals rfl

theorem scanPieces_simple {e u : ℕ} (h : simpleEscape e = some u) (he : e ≠ 'u'.toNat)
    (tail : Str) :
  scanPieces ('\\'.toNat :: e :: tail) = (scanPieces tail).map fun p => (.plain u :: p.1, p.2)
  := by
  rw [scanPieces.eq_def]
  dsimp only
  rw [if_neg (by decide), if_pos rfl]
  rw [if_neg he, h]
  cases scanPieces tail
  all_goals rfl

theorem hexDigit_digitPoint :
  ∀ d < 16, hexDigit (digitPoint d) = some d
  := by decide

theorem scanPieces_unit {n : ℕ} (h : n < 0x10000) (tail : Str) :
  scanPieces (escapeUnit n ++ tail) = (scanPieces tail).map fun p => (.unit n :: p.1, p.2)
  := by
  have value :
      ((n / 0x1000 * 16 + n / 0x100 % 0x10) * 16 + n / 0x10 % 0x10) * 16 + n % 0x10 = n := by
    omega
  unfold escapeUnit
  simp only [List.cons_append, List.nil_append]
  rw [scanPieces.eq_def]
  dsimp only
  rw [if_neg (by decide), if_pos rfl]
  rw [if_pos rfl, hexDigit_digitPoint _ (by omega), hexDigit_digitPoint _ (by omega),
    hexDigit_digitPoint _ (by omega), hexDigit_digitPoint _ (by omega)]
  cases scanPieces tail with
  | none => rfl
  | some p =>
    change some (Piece.unit _ :: p.1, p.2) = some (Piece.unit n :: p.1, p.2)
    rw [value]

/-- A code point that is written so that it is read back alone. -/
def Single (ascii : Bool) (u : ℕ) : Prop :=
  ascii = true → u < 0xD800

/-- The reader undoes the escape of one code point. -/
theorem scanPieces_escapePoint {ascii : Bool} {u : ℕ} (h : Single ascii u) (tail : Str) :
  ∃ p : Piece, p.Single ∧ p.point = u ∧
    scanPieces (escapePoint ascii u ++ tail) = (scanPieces tail).map fun r => (p :: r.1, r.2)
  := by
  unfold escapePoint
  split_ifs with quote backslash newline return' tab formFeed backspace escaped plane
  · subst quote
    exact ⟨.plain _, trivial, rfl, scanPieces_simple (by decide) (by decide) tail⟩
  · subst backslash
    exact ⟨.plain _, trivial, rfl, scanPieces_simple (by decide) (by decide) tail⟩
  · subst newline
    exact ⟨.plain _, trivial, rfl, scanPieces_simple (by decide) (by decide) tail⟩
  · subst return'
    exact ⟨.plain _, trivial, rfl, scanPieces_simple (by decide) (by decide) tail⟩
  · subst tab
    exact ⟨.plain _, trivial, rfl, scanPieces_simple (by decide) (by decide) tail⟩
  · subst formFeed
    exact ⟨.plain _, trivial, rfl, scanPieces_simple (by decide) (by decide) tail⟩
  · subst backspace
    exact ⟨.plain _, trivial, rfl, scanPieces_simple (by decide) (by decide) tail⟩
  · have low : u < 0xD800 := by
      rcases escaped with control | ⟨asciiOnly, -⟩
      · omega
      · exact h asciiOnly
    refine ⟨.unit u, ?_, rfl, scanPieces_unit plane tail⟩
    exact fun high => absurd high.1 (by omega)
  · exfalso
    rcases escaped with control | ⟨asciiOnly, -⟩
    · omega
    · have low := h asciiOnly
      omega
  · refine ⟨.plain u, trivial, rfl, scanPieces_raw quote backslash ?_ tail⟩
    by_contra control
    exact escaped (.inl (by omega))

theorem scanPieces_escaped {ascii : Bool} {s : Str} (h : ∀ u ∈ s, Single ascii u) (rest : Str) :
  ∃ pieces : List Piece, (∀ p ∈ pieces, p.Single) ∧ pieces.map Piece.point = s ∧
    scanPieces (s.flatMap (escapePoint ascii) ++ '"'.toNat :: rest) = some (pieces, rest)
  := by
  induction s with
  | nil =>
    refine ⟨[], nofun, rfl, ?_⟩
    change scanPieces ('"'.toNat :: rest) = _
    rw [scanPieces.eq_def]
    dsimp only
    rw [if_pos rfl]
  | cons u s ih =>
    obtain ⟨pieces, single, points, read⟩ := ih fun v hv => h v (List.mem_cons_of_mem u hv)
    obtain ⟨p, alone, point, head⟩ := scanPieces_escapePoint (h u List.mem_cons_self)
      (s.flatMap (escapePoint ascii) ++ '"'.toNat :: rest)
    refine ⟨p :: pieces, ?_, ?_, ?_⟩
    · intro q hq
      rcases List.mem_cons.mp hq with rfl | hq
      · exact alone
      · exact single q hq
    · rw [List.map_cons, point, points]
    · rw [List.flatMap_cons, List.append_assoc, head, read]
      rfl

/-- A string is read back, after its first quote. -/
theorem scanString_dumpsString {ascii : Bool} {s : Str} (h : ∀ u ∈ s, Single ascii u) (rest : Str) :
  ∃ text, dumpsString ascii s ++ rest = '"'.toNat :: text ∧ scanString text = .ok (s, rest)
  := by
  obtain ⟨pieces, single, points, read⟩ := scanPieces_escaped h rest
  refine ⟨s.flatMap (escapePoint ascii) ++ '"'.toNat :: rest, ?_, ?_⟩
  · unfold dumpsString
    rw [List.append_assoc]
    rfl
  · unfold scanString
    rw [read]
    change Except.ok (join pieces, rest) = _
    rw [join_of_single single, points]

/-! ### Numbers -/

/-- The text of a numeral as code points. -/
def points (text : List Char) : Str :=
  text.map Char.toNat

theorem points_append (s t : List Char) :
  points (s ++ t) = points s ++ points t
  := List.map_append

theorem encodeUtf16_eq_points {text : List Char} (h : ∀ c ∈ text, c.toNat < 0x10000) :
  encodeUtf16 text = points text
  := encodeUtf16_of_lt h

namespace Numerals

variable (l : Numeral) {rest : Str}

theorem digit_lt {c : Char} (h : c.isDigit) :
  c.toNat < 0x10000
  := by
  have digit := isDigit_toNat h
  unfold isDigit at digit
  rw [Bool.and_eq_true, decide_eq_true_eq, decide_eq_true_eq] at digit
  have nine : '9'.toNat = 57 := rfl
  omega

theorem fractionText_lt :
  ∀ c ∈ l.fractionText, c.toNat < 0x10000
  := by
  intro c hc
  unfold Numeral.fractionText at hc
  split_ifs at hc
  · cases hc
  · rcases List.mem_cons.mp hc with rfl | hc
    · decide
    · exact digit_lt (l.fraction_digits c hc)

theorem exponentText_lt :
  ∀ c ∈ l.exponentText, c.toNat < 0x10000
  := by
  have digits := l.exponent_digits
  intro c hc
  unfold Numeral.exponentText at hc
  split at hc
  · cases hc
  · rename_i negative exponent he
    rcases List.mem_cons.mp hc with rfl | hc
    · decide
    · rcases List.mem_cons.mp hc with rfl | hc
      · split_ifs
        all_goals decide
      · exact digit_lt (digits _ he c hc)

/-- The numeral is that of a floating point number. -/
def IsFloat : Prop :=
  l.fraction ≠ [] ∨ l.exponent ≠ none

theorem points_text (rest : Str) :
  points l.text ++ rest =
    (if l.negative then ['-'.toNat] else []) ++
      (points l.whole ++ (points l.fractionText ++ (points l.exponentText ++ rest)))
  := by
  simp only [Numeral.text, points_append, List.append_assoc]
  cases l.negative
  all_goals rfl

/-- The parts of a numeral are read one after the other. -/
theorem parts_text (ends : Ends rest) :
  let afterWhole := points l.fractionText ++ (points l.exponentText ++ rest)
  parseWhole (points l.whole ++ afterWhole) = some (points l.whole, afterWhole) ∧
  parseFraction afterWhole = some (points l.fraction, points l.exponentText ++ rest) ∧
  parseExponent (points l.exponentText ++ rest) = some (l.exponentValue, rest)
  := by
  have stops := l.stops_exponentText ends
  have whole := l.parseWhole_whole (l.stops_fractionText ends)
  have fraction := l.parseFraction_fractionText (fun u hu => (stops u hu).1)
    fun u hu => (stops u hu).2
  have exponent := l.parseExponent_exponentText ends
  rw [encodeUtf16_eq_points (fractionText_lt l), encodeUtf16_eq_points (exponentText_lt l)] at whole
  rw [encodeUtf16_eq_points (fractionText_lt l),
    encodeUtf16_eq_points (exponentText_lt l)] at fraction
  rw [encodeUtf16_eq_points (exponentText_lt l)] at exponent
  exact ⟨whole, fraction, exponent⟩

theorem scanMagnitude_float (float : IsFloat l) (ends : Ends rest) :
  scanMagnitude l.negative
      (points l.whole ++ (points l.fractionText ++ (points l.exponentText ++ rest))) =
    .ok (.float (.number l.value), rest)
  := by
  obtain ⟨whole, fraction, exponent⟩ := parts_text l ends
  have longer : rest ≠ points l.fractionText ++ (points l.exponentText ++ rest) := by
    intro same
    have length := congrArg List.length same
    simp only [List.length_append, points, List.length_map] at length
    have none : l.fractionText = [] ∧ l.exponentText = [] := by
      constructor
      · apply List.eq_nil_of_length_eq_zero
        omega
      · apply List.eq_nil_of_length_eq_zero
        omega
    rcases float with some | some
    · have text := none.1
      unfold Numeral.fractionText at text
      rw [if_neg some] at text
      cases text
    · have text := none.2
      unfold Numeral.exponentText at text
      split at text
      · exact some ‹_›
      · cases text
  have value : decimal l.negative (digitsValue (points l.whole ++ points l.fraction))
      (points l.fraction).length l.exponentValue = l.value := by
    unfold Numeral.value points
    rw [← List.map_append, Json.digitsValue_map, List.length_map]
  unfold scanMagnitude
  rw [whole]
  change (if ((parseExponent (((parseFraction _).getD _).2)).getD _).2 = _ then _ else _) = _
  rw [fraction]
  dsimp only [Option.getD_some]
  rw [exponent]
  dsimp only [Option.getD_some]
  rw [if_neg longer, value]

theorem scanMagnitude_int (fraction : l.fraction = []) (exponent : l.exponent = none)
    (short : l.whole.length ≤ maxStrDigits) (ends : Ends rest) :
  scanMagnitude l.negative
      (points l.whole ++ (points l.fractionText ++ (points l.exponentText ++ rest))) =
    .ok (.int (if l.negative then -Nat.ofDigitChars 10 l.whole 0
      else Nat.ofDigitChars 10 l.whole 0), rest)
  := by
  obtain ⟨whole, read, exponent'⟩ := parts_text l ends
  have none : points l.fractionText = [] := by
    rw [Numeral.fractionText, if_pos fraction]
    rfl
  have none' : points l.exponentText = [] := by
    rw [Numeral.exponentText, exponent]
    rfl
  rw [none, none', List.nil_append, List.nil_append] at whole read
  rw [none', List.nil_append] at exponent'
  rw [none, none', List.nil_append, List.nil_append]
  have short' : ¬ maxStrDigits < (points l.whole).length := by
    rw [points, List.length_map]
    omega
  unfold scanMagnitude
  rw [whole]
  change (if ((parseExponent (((parseFraction _).getD _).2)).getD _).2 = _ then _ else _) = _
  rw [read]
  dsimp only [Option.getD_some]
  rw [exponent']
  dsimp only [Option.getD_some]
  rw [if_pos rfl, if_neg short', points, Json.digitsValue_map]

/-- What a numeral begins with. -/
theorem begins (rest : Str) :
  ∃ u s, points l.text ++ rest = u :: s ∧
    (isDigit u = true ∨ u = '-'.toNat ∧ ∃ d ∈ s.head?, isDigit d = true)
  := by
  have digits := l.whole_digits
  rw [points_text]
  cases whole : l.whole with
  | nil => exact absurd whole l.whole_ne
  | cons c others =>
    have digit : isDigit c.toNat = true := by
      apply isDigit_toNat (digits c _)
      rw [whole]
      exact List.mem_cons_self
    split_ifs
    · exact ⟨_, _, rfl, .inr ⟨rfl, c.toNat, rfl, digit⟩⟩
    · exact ⟨_, _, rfl, .inl digit⟩

/-- A numeral is none of the words. -/
theorem scanConstant_numeral {u : ℕ} {s : Str}
    (h : isDigit u = true ∨ u = '-'.toNat ∧ ∃ d ∈ s.head?, isDigit d = true) :
  scanConstant (u :: s) = scanNumber (u :: s)
  := by
  have bounds : ∀ d, isDigit d = true → 48 ≤ d ∧ d ≤ 57 := by
    intro d digit
    unfold isDigit at digit
    rw [Bool.and_eq_true, decide_eq_true_eq, decide_eq_true_eq] at digit
    exact digit
  have other (word : String) (c : ℕ) (rest : Str) (code : Json.js word = c :: rest) (ne : c ≠ u) :
      Json.parseWord word (u :: s) = none := by
    unfold Json.parseWord
    rw [code, if_neg]
    simp [ne]
  have minus : Json.parseWord "-Infinity" (u :: s) = none := by
    rcases h with digit | ⟨rfl, d, head, digit⟩
    · have range := bounds u digit
      exact other _ 45 _ rfl (by omega)
    · obtain ⟨s, rfl⟩ : ∃ t, s = d :: t := by
        cases s with
        | nil => cases head
        | cons d' s =>
          cases head
          exact ⟨s, rfl⟩
      have range := bounds d digit
      have code : Json.js "-Infinity" = 45 :: 73 :: Json.js "nfinity" := rfl
      unfold Json.parseWord
      rw [code, if_neg]
      have ne : 73 ≠ d := by omega
      simp [ne]
  have small : u ≤ 57 := by
    rcases h with digit | ⟨rfl, -⟩
    · exact (bounds u digit).2
    · decide
  unfold scanConstant
  simp only [List.findSome?, other "null" 110 _ rfl (by omega), other "true" 116 _ rfl (by omega),
    other "false" 102 _ rfl (by omega), other "NaN" 78 _ rfl (by omega),
    other "Infinity" 73 _ rfl (by omega), minus, Option.map_none]

theorem scanNumber_text (rest : Str) :
  scanNumber (points l.text ++ rest) =
    scanMagnitude l.negative
      (points l.whole ++ (points l.fractionText ++ (points l.exponentText ++ rest)))
  := by
  have digits := l.whole_digits
  rw [points_text]
  cases negative : l.negative with
  | true => rfl
  | false =>
    cases whole : l.whole with
    | nil => exact absurd whole l.whole_ne
    | cons c others =>
      have digit : isDigit c.toNat = true := by
        apply isDigit_toNat (digits c _)
        rw [whole]
        exact List.mem_cons_self
      have other : c.toNat ≠ '-'.toNat := by
        intro minus
        rw [minus] at digit
        cases digit
      exact if_neg other

end Numerals

/-! ### Values -/

/-- The floating point number is written as a numeral that is rounded to it. -/
def Shown (floatRepr : JsNumber → List Char) (x : JsNumber) : Prop :=
  ∃ l : Numeral, l.text = floatRepr x ∧ l.value = x ∧ Numerals.IsFloat l

/-- A value that `json.loads` can read, where a depth is allowed. -/
inductive Readable (fmt : Format) (floatRepr : JsNumber → List Char) : ℕ → Value → Prop where
  | none {d : ℕ} : Readable fmt floatRepr d .none
  | bool {d : ℕ} (b : Bool) : Readable fmt floatRepr d (.bool b)
  | int {d : ℕ} (n : ℤ) (short : (Nat.toDigits 10 n.natAbs).length ≤ maxStrDigits) :
      Readable fmt floatRepr d (.int n)
  | nan {d : ℕ} : Readable fmt floatRepr d (.float .nan)
  | infinite {d : ℕ} (negative : Bool) :
      Readable fmt floatRepr d (.float (.number ⟨negative, .none⟩))
  | float {d : ℕ} (x : JsNumber) (finite : x.magnitude.isSome) (shown : Shown floatRepr x) :
      Readable fmt floatRepr d (.float (.number x))
  | str {d : ℕ} (s : Str) (single : ∀ u ∈ s, Single fmt.ascii u) : Readable fmt floatRepr d (.str s)
  | list {d : ℕ} (items : List Value) (readable : ∀ v ∈ items, Readable fmt floatRepr d v) :
      Readable fmt floatRepr (d + 1) (.list items)
  | dict {d : ℕ} (members : List (Str × Value)) (distinct : (members.map Prod.fst).Nodup)
      (single : ∀ m ∈ members, ∀ u ∈ m.1, Single fmt.ascii u)
      (readable : ∀ m ∈ members, Readable fmt floatRepr d m.2) :
      Readable fmt floatRepr (d + 1) (.dict members)

section

variable {fmt : Format} {floatRepr : JsNumber → List Char}

/-- The reader returns the value, whatever follows it. -/
def ReadsBack (fmt : Format) (floatRepr : JsNumber → List Char) (d : ℕ) (v : Value) : Prop :=
  ∀ n rest, Ends rest → 2 * (dumps fmt floatRepr v).length + 1 ≤ n →
    scanOnce n d (dumps fmt floatRepr v ++ rest) = .ok (v, rest)

theorem scanOnce_constant {u : ℕ} (quote : u ≠ '"'.toNat) (brace : u ≠ '{'.toNat)
    (bracket : u ≠ '['.toNat) (n d : ℕ) (s : Str) :
  scanOnce (n + 1) d (u :: s) = scanConstant (u :: s)
  := by
  rw [scanOnce.eq_def]
  dsimp only
  rw [if_neg quote, if_neg brace, if_neg bracket]

theorem not_opening_of_begins {u : ℕ} {s : Str}
    (h : isDigit u = true ∨ u = '-'.toNat ∧ ∃ d ∈ s.head?, isDigit d = true) :
  u ≠ '"'.toNat ∧ u ≠ '{'.toNat ∧ u ≠ '['.toNat ∧ isWhitespace u = false ∧ u ≠ ']'.toNat
  := by
  rcases h with digit | ⟨rfl, -⟩
  · unfold isDigit at digit
    rw [Bool.and_eq_true, decide_eq_true_eq, decide_eq_true_eq] at digit
    have digits : ∀ u < 58, 48 ≤ u → u ≠ '"'.toNat ∧ u ≠ '{'.toNat ∧ u ≠ '['.toNat ∧
        isWhitespace u = false ∧ u ≠ ']'.toNat := by decide
    have nine : '9'.toNat = 57 := rfl
    exact digits u (by omega) digit.1
  · decide

/-- A numeral is read back as what its magnitude is read as. -/
theorem readsBack_numeral {v : Value} {d : ℕ} (l : Numeral)
    (text : dumps fmt floatRepr v = points l.text)
    (read : ∀ rest, Ends rest → scanMagnitude l.negative
      (points l.whole ++ (points l.fractionText ++ (points l.exponentText ++ rest))) =
        .ok (v, rest)) :
  ReadsBack fmt floatRepr d v
  := by
  intro n rest ends fuel
  obtain ⟨n, rfl⟩ : ∃ m, n = m + 1 := ⟨n - 1, by omega⟩
  obtain ⟨u, s, head, begins⟩ := Numerals.begins l rest
  obtain ⟨quote, brace, bracket, -, -⟩ := not_opening_of_begins begins
  have number := Numerals.scanNumber_text l rest
  rw [text]
  rw [head] at number ⊢
  rw [scanOnce_constant quote brace bracket, Numerals.scanConstant_numeral begins, number,
    read rest ends]

/-- The text of a value begins neither with a space nor with a closing bracket. -/
theorem dumps_head {v : Value} {d : ℕ} (h : Readable fmt floatRepr d v) :
  ∃ u s, dumps fmt floatRepr v = u :: s ∧ isWhitespace u = false ∧ u ≠ ']'.toNat
  := by
  have number : ∀ l : Numeral, ∃ u s, points l.text = u :: s ∧ isWhitespace u = false ∧
      u ≠ ']'.toNat := by
    intro l
    obtain ⟨u, s, head, begins⟩ := Numerals.begins l []
    obtain ⟨-, -, -, solid, bracket⟩ := not_opening_of_begins begins
    rw [List.append_nil] at head
    exact ⟨u, s, head, solid, bracket⟩
  cases h with
  | none => exact ⟨_, _, rfl, by decide, by decide⟩
  | bool b =>
    cases b
    all_goals exact ⟨_, _, rfl, by decide, by decide⟩
  | int n =>
    rw [dumps, ← Numeral.text_ofInt]
    apply number
  | nan => exact ⟨_, _, rfl, by decide, by decide⟩
  | infinite negative =>
    cases negative
    all_goals exact ⟨_, _, rfl, by decide, by decide⟩
  | float x finite shown =>
    obtain ⟨l, text, -⟩ := shown
    rw [dumps, dumpsDouble, if_pos finite, ← text]
    apply number
  | str s => exact ⟨_, _, rfl, by decide, by decide⟩
  | list items =>
    cases items
    all_goals exact ⟨_, _, rfl, by decide, by decide⟩
  | dict members =>
    cases members with
    | nil => exact ⟨_, _, rfl, by decide, by decide⟩
    | cons m members => exact ⟨_, _, rfl, by decide, by decide⟩

/-! ### Lists and dictionaries -/

/-- The space after a separator. -/
def space (fmt : Format) : Str :=
  if fmt.spaced then [' '.toNat] else []

theorem skip_space {u : ℕ} (h : isWhitespace u = false) (s : Str) :
  skip (space fmt ++ u :: s) = u :: s
  := by
  unfold space
  split_ifs
  · change skip (u :: s) = _
    rw [skip_solid h]
  · rw [List.nil_append, skip_solid h]

theorem dumpsItems_cons (v : Value) (items : List Value) :
  dumpsItems fmt floatRepr (v :: items) =
    ','.toNat :: (space fmt ++ (dumps fmt floatRepr v ++ dumpsItems fmt floatRepr items))
  := by
  rw [dumpsItems, Format.itemSeparator, List.append_assoc]
  rfl

/-- The text of a member. -/
def dumpsMember (fmt : Format) (floatRepr : JsNumber → List Char) (k : Str) (v : Value) : Str :=
  dumpsString fmt.ascii k ++ ':'.toNat :: (space fmt ++ dumps fmt floatRepr v)

theorem dumpsMembers_cons (k : Str) (v : Value) (members : List (Str × Value)) :
  dumpsMembers fmt floatRepr ((k, v) :: members) =
    ','.toNat ::
      (space fmt ++ (dumpsMember fmt floatRepr k v ++ dumpsMembers fmt floatRepr members))
  := by
  rw [dumpsMembers, Format.itemSeparator, Format.keySeparator, dumpsMember]
  simp only [List.append_assoc, List.cons_append]
  rfl

variable (fmt floatRepr) in
theorem dumps_dict (k : Str) (v : Value) (members : List (Str × Value)) :
  dumps fmt floatRepr (.dict ((k, v) :: members)) =
    '{'.toNat ::
      (dumpsMember fmt floatRepr k v ++ (dumpsMembers fmt floatRepr members ++ ['}'.toNat]))
  := by
  rw [dumps, Format.keySeparator, dumpsMember]
  simp only [List.append_assoc, List.cons_append]
  rfl

theorem scanItems_comma {n d : ℕ} {s rest : Str} {v : Value}
    (first : scanOnce n d s = .ok (v, ','.toNat :: rest)) :
  scanItems (n + 1) d s = (scanItems n d (skip rest)).map fun r => (v :: r.1, r.2)
  := by
  rw [scanItems, first]
  simp only [bind, Except.bind]
  rw [skip_solid (by decide)]
  dsimp only
  rw [if_neg (by decide), if_pos rfl]
  cases scanItems n d (skip rest)
  all_goals rfl

theorem scanItems_bracket {n d : ℕ} {s rest : Str} {v : Value}
    (first : scanOnce n d s = .ok (v, ']'.toNat :: rest)) :
  scanItems (n + 1) d s = .ok ([v], rest)
  := by
  rw [scanItems, first]
  rfl

section

variable {n d : ℕ} {text s rest : Str} {k : Str} {v : Value}

theorem scanMembers_comma (key : scanString text = .ok (k, ':'.toNat :: s))
    (value : scanOnce n d (skip s) = .ok (v, ','.toNat :: rest)) :
  scanMembers (n + 1) d ('"'.toNat :: text) =
    (scanMembers n d (skip rest)).map fun r => ((k, v) :: r.1, r.2)
  := by
  rw [scanMembers, if_neg (by decide), key]
  simp only [bind, Except.bind]
  rw [skip_solid (by decide)]
  dsimp only
  rw [if_neg (by decide), value]
  dsimp only
  rw [skip_solid (by decide)]
  dsimp only
  rw [if_neg (by decide), if_pos rfl]
  cases scanMembers n d (skip rest)
  all_goals rfl

theorem scanMembers_brace (key : scanString text = .ok (k, ':'.toNat :: s))
    (value : scanOnce n d (skip s) = .ok (v, '}'.toNat :: rest)) :
  scanMembers (n + 1) d ('"'.toNat :: text) = .ok ([(k, v)], rest)
  := by
  rw [scanMembers, if_neg (by decide), key]
  simp only [bind, Except.bind]
  rw [skip_solid (by decide)]
  dsimp only
  rw [if_neg (by decide), value]
  rfl

end

theorem scanItems_dumps {d : ℕ} {items : List Value}
    (hitems : ∀ w ∈ items, Readable fmt floatRepr d w ∧ ReadsBack fmt floatRepr d w) {v : Value}
    (hv : ReadsBack fmt floatRepr d v) (n : ℕ) (tail : Str)
    (fuel : 2 * (dumps fmt floatRepr v ++ dumpsItems fmt floatRepr items).length + 2 ≤ n) :
  scanItems n d
      (dumps fmt floatRepr v ++ (dumpsItems fmt floatRepr items ++ ']'.toNat :: tail)) =
    .ok (v :: items, tail)
  := by
  rw [List.length_append] at fuel
  obtain ⟨n, rfl⟩ : ∃ m, n = m + 1 := ⟨n - 1, by omega⟩
  induction items generalizing v n with
  | nil =>
    have first := hv n (']'.toNat :: tail) (Json.ends_bracket tail) (by omega)
    rw [dumpsItems, List.nil_append]
    exact scanItems_bracket first
  | cons w items ih =>
    obtain ⟨readable, hw⟩ := hitems w List.mem_cons_self
    obtain ⟨u, s, head, solid, -⟩ := dumps_head readable
    rw [dumpsItems_cons] at fuel ⊢
    simp only [List.length_cons, List.length_append] at fuel
    obtain ⟨m, rfl⟩ : ∃ m, n = m + 1 := ⟨n - 1, by omega⟩
    have first := hv (m + 1) (','.toNat :: (space fmt ++ (dumps fmt floatRepr w ++
      dumpsItems fmt floatRepr items) ++ ']'.toNat :: tail)) (Json.ends_comma _) (by omega)
    have others := ih (fun w' hw' => hitems w' (List.mem_cons_of_mem w hw')) hw m (by omega)
    have next : skip (space fmt ++ (dumps fmt floatRepr w ++ dumpsItems fmt floatRepr items) ++
        ']'.toNat :: tail) =
        dumps fmt floatRepr w ++ (dumpsItems fmt floatRepr items ++ ']'.toNat :: tail) := by
      rw [head, List.append_assoc, List.cons_append, List.cons_append, skip_space solid,
        List.append_assoc]
      rfl
    rw [List.cons_append, scanItems_comma first, next, others]
    rfl

theorem readsBack_list {d : ℕ} {items : List Value}
    (hitems : ∀ w ∈ items, Readable fmt floatRepr d w ∧ ReadsBack fmt floatRepr d w) :
  ReadsBack fmt floatRepr (d + 1) (.list items)
  := by
  intro n rest _ fuel
  obtain ⟨n, rfl⟩ : ∃ m, n = m + 1 := ⟨n - 1, by omega⟩
  cases items with
  | nil => rfl
  | cons v items =>
    obtain ⟨readable, hv⟩ := hitems v List.mem_cons_self
    obtain ⟨u, s, head, solid, bracket⟩ := dumps_head readable
    have text : dumps fmt floatRepr (.list (v :: items)) ++ rest = '['.toNat ::
        (dumps fmt floatRepr v ++ (dumpsItems fmt floatRepr items ++ ']'.toNat :: rest)) := by
      rw [dumps]
      simp only [List.append_assoc, List.cons_append]
      rfl
    have length := congrArg List.length text
    simp only [List.length_append, List.length_cons] at length
    have inner := scanItems_dumps (fun w hw => hitems w (List.mem_cons_of_mem v hw)) hv n rest
      (by rw [List.length_append]; omega)
    rw [text, scanOnce.eq_def]
    dsimp only
    rw [if_neg (by decide), if_neg (by decide), if_pos rfl]
    rw [head, List.cons_append] at inner ⊢
    rw [skip_solid solid]
    dsimp only
    rw [if_neg bracket, inner]
    rfl

/-- The key of a member is read, and then its value. -/
theorem read_dumpsMember {d : ℕ} {k : Str} (hk : ∀ u ∈ k, Single fmt.ascii u) {v : Value}
    (readable : Readable fmt floatRepr d v) (hv : ReadsBack fmt floatRepr d v) {n : ℕ} {rest : Str}
    (ends : Ends rest) (fuel : 2 * (dumps fmt floatRepr v).length + 1 ≤ n) :
  ∃ text s, dumpsMember fmt floatRepr k v ++ rest = '"'.toNat :: text ∧
    scanString text = .ok (k, ':'.toNat :: s) ∧ scanOnce n d (skip s) = .ok (v, rest)
  := by
  obtain ⟨u, s, head, solid, -⟩ := dumps_head readable
  obtain ⟨text, quoted, key⟩ := scanString_dumpsString hk
    (':'.toNat :: (space fmt ++ (dumps fmt floatRepr v ++ rest)))
  refine ⟨text, _, ?_, key, ?_⟩
  · rw [← quoted, dumpsMember]
    simp only [List.append_assoc, List.cons_append]
  · have value := hv n rest ends fuel
    rw [head, List.cons_append] at value ⊢
    rw [skip_space solid, value]

variable (fmt floatRepr) in
theorem dumpsMember_head (k : Str) (v : Value) :
  ∃ s, dumpsMember fmt floatRepr k v = '"'.toNat :: s
  := ⟨_, rfl⟩

variable (fmt floatRepr) in
theorem length_dumps_lt_dumpsMember (k : Str) (v : Value) :
  (dumps fmt floatRepr v).length < (dumpsMember fmt floatRepr k v).length
  := by
  unfold dumpsMember
  simp only [List.length_append, List.length_cons]
  omega

theorem scanMembers_dumps {d : ℕ} {members : List (Str × Value)}
    (hmembers : ∀ m ∈ members, (∀ u ∈ m.1, Single fmt.ascii u) ∧
      Readable fmt floatRepr d m.2 ∧ ReadsBack fmt floatRepr d m.2) {k : Str}
    (hk : ∀ u ∈ k, Single fmt.ascii u) {v : Value} (readable : Readable fmt floatRepr d v)
    (hv : ReadsBack fmt floatRepr d v) (n : ℕ) (tail : Str)
    (fuel : 2 * (dumpsMember fmt floatRepr k v ++
      dumpsMembers fmt floatRepr members).length + 2 ≤ n) :
  scanMembers n d
      (dumpsMember fmt floatRepr k v ++ (dumpsMembers fmt floatRepr members ++ '}'.toNat :: tail)) =
    .ok ((k, v) :: members, tail)
  := by
  rw [List.length_append] at fuel
  obtain ⟨n, rfl⟩ : ∃ m, n = m + 1 := ⟨n - 1, by omega⟩
  have shorter := length_dumps_lt_dumpsMember fmt floatRepr k v
  induction members generalizing k v n with
  | nil =>
    obtain ⟨text, s, member, key, value⟩ := read_dumpsMember hk readable hv (n := n)
      (Json.ends_brace tail) (by omega)
    rw [dumpsMembers, List.nil_append, member]
    exact scanMembers_brace key value
  | cons m members ih =>
    obtain ⟨k', v'⟩ := m
    obtain ⟨hk', readable', hv'⟩ := hmembers (k', v') List.mem_cons_self
    dsimp only at hk' readable' hv'
    have shorter' := length_dumps_lt_dumpsMember fmt floatRepr k' v'
    rw [dumpsMembers_cons] at fuel ⊢
    simp only [List.length_cons, List.length_append] at fuel
    obtain ⟨m, rfl⟩ : ∃ m, n = m + 1 := ⟨n - 1, by omega⟩
    have others := ih (fun m' hm' => hmembers m' (List.mem_cons_of_mem _ hm')) hk' readable' hv' m
      (by omega) shorter'
    obtain ⟨text, s, member, key, value⟩ := read_dumpsMember hk readable hv (n := m + 1)
      (Json.ends_comma (space fmt ++ (dumpsMember fmt floatRepr k' v' ++
        dumpsMembers fmt floatRepr members) ++ '}'.toNat :: tail)) (by omega)
    have next : skip (space fmt ++ (dumpsMember fmt floatRepr k' v' ++
        dumpsMembers fmt floatRepr members) ++ '}'.toNat :: tail) =
        dumpsMember fmt floatRepr k' v' ++
          (dumpsMembers fmt floatRepr members ++ '}'.toNat :: tail) := by
      obtain ⟨s, head⟩ := dumpsMember_head fmt floatRepr k' v'
      rw [head, List.append_assoc, List.cons_append, List.cons_append, skip_space (by decide),
        List.append_assoc]
      rfl
    rw [List.cons_append, member, scanMembers_comma key value, next, others]
    rfl

theorem readsBack_dict {d : ℕ} {members : List (Str × Value)}
    (distinct : (members.map Prod.fst).Nodup)
    (hmembers : ∀ m ∈ members, (∀ u ∈ m.1, Single fmt.ascii u) ∧
      Readable fmt floatRepr d m.2 ∧ ReadsBack fmt floatRepr d m.2) :
  ReadsBack fmt floatRepr (d + 1) (.dict members)
  := by
  intro n rest _ fuel
  obtain ⟨n, rfl⟩ : ∃ m, n = m + 1 := ⟨n - 1, by omega⟩
  cases members with
  | nil => rfl
  | cons m members =>
    obtain ⟨k, v⟩ := m
    obtain ⟨hk, readable, hv⟩ := hmembers (k, v) List.mem_cons_self
    dsimp only at hk readable hv
    have text := dumps_dict fmt floatRepr k v members
    rw [text] at fuel ⊢
    simp only [List.length_cons, List.length_append, List.length_nil] at fuel
    have inner := scanMembers_dumps (fun m hm => hmembers m (List.mem_cons_of_mem _ hm)) hk readable
      hv n rest (by rw [List.length_append]; omega)
    obtain ⟨s, head⟩ := dumpsMember_head fmt floatRepr k v
    rw [List.cons_append, List.append_assoc, List.append_assoc, List.singleton_append,
      scanOnce.eq_def]
    dsimp only
    rw [if_neg (by decide), if_pos rfl]
    rw [head, List.cons_append] at inner ⊢
    rw [skip_solid (by decide)]
    dsimp only
    rw [if_neg (by decide), inner]
    change Except.ok (Value.dict (Dict.ofPairs ((k, v) :: members)), rest) = _
    rw [Dict.ofPairs_of_nodup distinct]

/-! ### All values -/

theorem readsBack_of_readable {d : ℕ} {v : Value} (h : Readable fmt floatRepr d v) :
  ReadsBack fmt floatRepr d v
  := by
  induction h with
  | none =>
    intro n rest _ fuel
    obtain ⟨n, rfl⟩ : ∃ m, n = m + 1 := ⟨n - 1, by omega⟩
    rfl
  | bool b =>
    intro n rest _ fuel
    obtain ⟨n, rfl⟩ : ∃ m, n = m + 1 := ⟨n - 1, by omega⟩
    cases b
    all_goals rfl
  | int n short =>
    apply readsBack_numeral (.ofInt n)
    · rw [dumps, Numeral.text_ofInt]
      rfl
    · intro rest ends
      have value : (if decide (n < 0) = true then
          -(Nat.ofDigitChars 10 (Nat.toDigits 10 n.natAbs) 0 : ℤ)
          else Nat.ofDigitChars 10 (Nat.toDigits 10 n.natAbs) 0) = n := by
        rw [Nat.ofDigitChars_ten_toDigits]
        split_ifs with negative
        · have := of_decide_eq_true negative
          omega
        · have : ¬ n < 0 := fun h => negative (decide_eq_true h)
          omega
      have read := Numerals.scanMagnitude_int (.ofInt n) rfl rfl short ends
      rw [read]
      exact congrArg (fun n => Except.ok (Value.int n, rest)) value
  | nan =>
    intro n rest _ fuel
    obtain ⟨n, rfl⟩ : ∃ m, n = m + 1 := ⟨n - 1, by omega⟩
    rfl
  | infinite negative =>
    intro n rest _ fuel
    obtain ⟨n, rfl⟩ : ∃ m, n = m + 1 := ⟨n - 1, by omega⟩
    cases negative
    all_goals rfl
  | float x finite shown =>
    obtain ⟨l, text, value, float⟩ := shown
    apply readsBack_numeral l
    · rw [dumps, dumpsDouble, if_pos finite, ← text]
      rfl
    · intro rest ends
      rw [Numerals.scanMagnitude_float l float ends, value]
  | str s single =>
    intro n rest _ fuel
    obtain ⟨n, rfl⟩ : ∃ m, n = m + 1 := ⟨n - 1, by omega⟩
    obtain ⟨text, quoted, read⟩ := scanString_dumpsString single rest
    rw [dumps, quoted, scanOnce.eq_def]
    dsimp only
    rw [if_pos rfl, read]
    rfl
  | list items readable ih => exact readsBack_list fun w hw => ⟨readable w hw, ih w hw⟩
  | dict members distinct single readable ih =>
    exact readsBack_dict distinct fun m hm => ⟨single m hm, readable m hm, ih m hm⟩

/-- What is written is read back. -/
theorem decode_dumps {d : ℕ} {v : Value} (h : Readable fmt floatRepr d v) :
  decode d (dumps fmt floatRepr v) = .ok v
  := by
  obtain ⟨u, s, head, solid, -⟩ := dumps_head h
  have start : skip (dumps fmt floatRepr v) = dumps fmt floatRepr v := by
    rw [head, skip_solid solid]
  have read := readsBack_of_readable h (2 * (dumps fmt floatRepr v).length + 2) [] nofun (by omega)
  rw [List.append_nil] at read
  rw [decode, start, read]
  rfl

end

/-! ### Bytes -/

theorem continuation_add {n : ℕ} (h : n < 0x40) :
  continuation (0x80 + n) = some n
  := by
  unfold continuation
  rw [if_pos (by omega), Nat.add_sub_cancel_left]

theorem decodeUtf8_utf8Bytes {u : ℕ} (h : u < 0x110000) (rest : List ℕ) :
  decodeUtf8 (utf8Bytes u ++ rest) = (decodeUtf8 rest).map (u :: ·)
  := by
  unfold utf8Bytes
  split_ifs with one two three
  · change decodeUtf8 (u :: rest) = _
    rw [decodeUtf8.eq_def]
    dsimp only
    rw [if_pos one]
  · have value : (0xC0 + u / 0x40 - 0xC0) * 0x40 + u % 0x40 = u := by omega
    change decodeUtf8 (_ :: _ :: rest) = _
    rw [decodeUtf8.eq_def]
    dsimp only
    rw [if_neg (by omega), if_pos (by omega), continuation_add (by omega)]
    dsimp only [bind, Option.bind]
    rw [if_pos (by omega), value]
  · have value : ((0xE0 + u / 0x1000 - 0xE0) * 0x40 + u / 0x40 % 0x40) * 0x40 + u % 0x40 = u := by
      omega
    change decodeUtf8 (_ :: _ :: _ :: rest) = _
    rw [decodeUtf8.eq_def]
    dsimp only
    rw [if_neg (by omega), if_neg (by omega), if_pos (by omega), continuation_add (by omega),
      continuation_add (by omega)]
    dsimp only [bind, Option.bind]
    rw [value, if_pos (by omega)]
  · have value : (((0xF0 + u / 0x40000 - 0xF0) * 0x40 + u / 0x1000 % 0x40) * 0x40 +
        u / 0x40 % 0x40) * 0x40 + u % 0x40 = u := by
      omega
    change decodeUtf8 (_ :: _ :: _ :: _ :: rest) = _
    rw [decodeUtf8.eq_def]
    dsimp only
    rw [if_neg (by omega), if_neg (by omega), if_neg (by omega), continuation_add (by omega),
      continuation_add (by omega), continuation_add (by omega)]
    dsimp only [bind, Option.bind]
    rw [value, if_pos (by omega)]

theorem decodeUtf8_encodeUtf8 {s : Str} {bytes : List ℕ} (h : encodeUtf8 s = some bytes) :
  decodeUtf8 bytes = some s
  := by
  unfold encodeUtf8 at h
  split_ifs at h with scalar
  cases h
  induction s with
  | nil => rfl
  | cons u s ih =>
    obtain ⟨first, others⟩ := Bool.and_eq_true_iff.mp scalar
    have bound : u < 0x110000 := by
      rcases of_decide_eq_true first with low | high
      · omega
      · exact high.2
    rw [List.flatMap_cons, decodeUtf8_utf8Bytes bound, ih others]
    rfl

theorem continuation_eq_some {b m : ℕ} (h : continuation b = some m) :
  m < 0x40 ∧ b = 0x80 + m
  := by
  rw [continuation, Option.ite_none_right_eq_some] at h
  obtain ⟨range, same⟩ := h
  have same := Option.some.inj same
  omega

theorem flatMap_utf8Bytes_of_cons {n : ℕ} {s : Str} {first rest : List ℕ}
    (h : (decodeUtf8 rest).map (n :: ·) = some s)
    (ih : ∀ {s : Str}, decodeUtf8 rest = some s → s.flatMap utf8Bytes = rest)
    (bytes : utf8Bytes n = first) :
  s.flatMap utf8Bytes = first ++ rest
  := by
  obtain ⟨s', decoded, rfl⟩ := Option.map_eq_some_iff.mp h
  rw [List.flatMap_cons, ih decoded, bytes]

/-- The bytes are those of the code points that they are decoded to. -/
theorem flatMap_utf8Bytes_decodeUtf8 {bytes : List ℕ} {s : Str} (h : decodeUtf8 bytes = some s) :
  s.flatMap utf8Bytes = bytes
  := by
  fun_induction decodeUtf8 bytes generalizing s with
  | case1 =>
    cases h
    rfl
  | case2 a rest low ih => exact flatMap_utf8Bytes_of_cons h ih (if_pos low)
  | case3 a two low b rest ih =>
    obtain ⟨b', second, read⟩ := Option.bind_eq_some_iff.mp h
    obtain ⟨lead, tail⟩ := (Option.ite_none_right_eq_some ..).mp read
    obtain ⟨bound, rfl⟩ := continuation_eq_some second
    have bytes : utf8Bytes ((a - 0xC0) * 0x40 + b') = [a, 0x80 + b'] := by
      rw [utf8Bytes, if_neg (by omega), if_pos (by omega)]
      simp only [List.cons.injEq, and_true]
      omega
    exact flatMap_utf8Bytes_of_cons tail ih bytes
  | case5 a three two low b c rest ih =>
    obtain ⟨b', second, read⟩ := Option.bind_eq_some_iff.mp h
    obtain ⟨c', third, read'⟩ := Option.bind_eq_some_iff.mp read
    obtain ⟨lead, tail⟩ := (Option.ite_none_right_eq_some ..).mp read'
    obtain ⟨bound, rfl⟩ := continuation_eq_some second
    obtain ⟨bound', rfl⟩ := continuation_eq_some third
    have bytes : utf8Bytes (((a - 0xE0) * 0x40 + b') * 0x40 + c') = [a, 0x80 + b', 0x80 + c'] := by
      rw [utf8Bytes, if_neg (by omega), if_neg (by omega), if_pos (by omega)]
      simp only [List.cons.injEq, and_true]
      omega
    exact flatMap_utf8Bytes_of_cons tail ih bytes
  | case7 a three two low b c d rest ih =>
    obtain ⟨b', second, read⟩ := Option.bind_eq_some_iff.mp h
    obtain ⟨c', third, read'⟩ := Option.bind_eq_some_iff.mp read
    obtain ⟨d', fourth, read''⟩ := Option.bind_eq_some_iff.mp read'
    obtain ⟨lead, tail⟩ := (Option.ite_none_right_eq_some ..).mp read''
    obtain ⟨bound, rfl⟩ := continuation_eq_some second
    obtain ⟨bound', rfl⟩ := continuation_eq_some third
    obtain ⟨bound'', rfl⟩ := continuation_eq_some fourth
    have bytes : utf8Bytes ((((a - 0xF0) * 0x40 + b') * 0x40 + c') * 0x40 + d') =
        [a, 0x80 + b', 0x80 + c', 0x80 + d'] := by
      rw [utf8Bytes, if_neg (by omega), if_neg (by omega), if_neg (by omega)]
      simp only [List.cons.injEq, and_true]
      omega
    exact flatMap_utf8Bytes_of_cons tail ih bytes
  | case4 | case6 | case8 => cases h

/-- What is decoded without a surrogate is encoded to the same bytes. -/
theorem encodeUtf8_eq_some_iff {s : Str} {bytes : List ℕ} :
  encodeUtf8 s = some bytes ↔ decodeUtf8 bytes = some s ∧ s.all (IsScalar ·) = true
  := by
  constructor
  · intro h
    refine ⟨decodeUtf8_encodeUtf8 h, ?_⟩
    rw [encodeUtf8, Option.ite_none_right_eq_some] at h
    exact h.1
  · rintro ⟨decoded, scalar⟩
    rw [encodeUtf8, if_pos scalar, flatMap_utf8Bytes_decodeUtf8 decoded]

/-- Bytes that begin with two characters of ASCII. -/
theorem detectEncoding_ascii {a b : ℕ} (ha : 0 < a ∧ a < 0x80) (hb : 0 < b ∧ b < 0x80)
    (rest : List ℕ) :
  detectEncoding (a :: b :: rest) = .utf8
  := by
  have marks : ¬(([0, 0, 0xFE, 0xFF].isPrefixOf (a :: b :: rest) ||
      [0xFF, 0xFE, 0, 0].isPrefixOf (a :: b :: rest)) = true) ∧
      ¬(([0xFE, 0xFF].isPrefixOf (a :: b :: rest) ||
        [0xFF, 0xFE].isPrefixOf (a :: b :: rest)) = true) ∧
      ¬([0xEF, 0xBB, 0xBF].isPrefixOf (a :: b :: rest) = true) := by
    simp only [List.isPrefixOf, Bool.or_eq_true, Bool.and_eq_true, beq_iff_eq]
    omega
  obtain ⟨utf32, utf16, utf8⟩ := marks
  unfold detectEncoding
  rw [if_neg utf32, if_neg utf16, if_neg utf8]
  split
  · rename_i a' b' c d rest' same
    cases same
    rw [if_neg (by omega), if_neg (by omega)]
  · rename_i a' b' same
    cases same
    rw [if_neg (by omega), if_neg (by omega)]
  · rfl

/-- What is written and encoded is read back, if it begins with two characters of ASCII. -/
theorem loadsBytes_dumps {fmt : Format} {floatRepr : JsNumber → List Char} {d : ℕ} {v : Value}
    (h : Readable fmt floatRepr d v) {bytes : List ℕ}
    (encoded : encodeUtf8 (dumps fmt floatRepr v) = some bytes) {a b : ℕ} {rest : List ℕ}
    (begins : bytes = a :: b :: rest) (ha : 0 < a ∧ a < 0x80) (hb : 0 < b ∧ b < 0x80) :
  loadsBytes d bytes = .ok v
  := by
  unfold loadsBytes
  rw [begins, detectEncoding_ascii ha hb, ← begins]
  change (require (decodeUtf8 bytes)).bind (decode d) = _
  rw [decodeUtf8_encodeUtf8 encoded]
  exact decode_dumps h

end PyJson
