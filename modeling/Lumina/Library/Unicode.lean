import Mathlib.Data.List.Basic
import Mathlib.Data.Nat.Notation

/-!
# Encodings of text

The encoder of UTF-8, the decoder of the browsers, which takes bytes as they come and leaves out a
byte order mark at the beginning, and the code units of UTF-16, which are what it produces.  Bytes,
code points and code units are natural numbers.
-/

namespace Unicode

/-- A string of JavaScript: code units of UTF-16. -/
abbrev JsString := List ℕ

/-- The bytes of a character. -/
def utf8 (c : Char) : List ℕ :=
  let n := c.toNat
  if n < 0x80 then [n]
  else if n < 0x800 then [0xC0 + n / 0x40, 0x80 + n % 0x40]
  else if n < 0x10000 then [0xE0 + n / 0x1000, 0x80 + n / 0x40 % 0x40, 0x80 + n % 0x40]
  else
    [0xF0 + n / 0x40000, 0x80 + n / 0x1000 % 0x40, 0x80 + n / 0x40 % 0x40, 0x80 + n % 0x40]

def encodeUtf8 (text : List Char) : List ℕ :=
  text.flatMap utf8

/-- The code units of a code point. -/
def units (n : ℕ) : JsString :=
  if n < 0x10000 then [n]
  else [0xD800 + (n - 0x10000) / 0x400, 0xDC00 + (n - 0x10000) % 0x400]

def encodeUtf16 (text : List Char) : JsString :=
  text.flatMap fun c => units c.toNat

theorem encodeUtf16_append (s t : List Char) :
  encodeUtf16 (s ++ t) = encodeUtf16 s ++ encodeUtf16 t
  := List.flatMap_append

theorem encodeUtf16_cons (c : Char) (s : List Char) :
  encodeUtf16 (c :: s) = units c.toNat ++ encodeUtf16 s
  := rfl

theorem units_of_lt {n : ℕ} (h : n < 0x10000) :
  units n = [n]
  := if_pos h

/-- A text of the first plane: one code unit for each character. -/
theorem encodeUtf16_of_lt {s : List Char} (h : ∀ c ∈ s, c.toNat < 0x10000) :
  encodeUtf16 s = s.map (·.toNat)
  := by
  induction s with
  | nil => rfl
  | cons c s ih =>
    rw [encodeUtf16_cons, units_of_lt (h c List.mem_cons_self), ih]
    · rfl
    · exact fun d hd => h d (List.mem_cons_of_mem c hd)

/-- Code points that are not surrogates. -/
theorem toNat_bounds (c : Char) :
  c.toNat < 0xD800 ∨ 0xDFFF < c.toNat ∧ c.toNat < 0x110000
  := c.valid

/-- The code units of a character are not the first ones of another character. -/
theorem units_append_inj {c d : Char} {s t : JsString}
    (h : units c.toNat ++ s = units d.toNat ++ t) :
  c = d ∧ s = t
  := by
  have hc := toNat_bounds c
  have hd := toNat_bounds d
  unfold units at h
  split_ifs at h
  · obtain ⟨same, rest⟩ := List.cons.inj h
    exact ⟨Char.toNat_inj.mp same, rest⟩
  · obtain ⟨same, -⟩ := List.cons.inj h
    omega
  · obtain ⟨same, -⟩ := List.cons.inj h
    omega
  · obtain ⟨high, h⟩ := List.cons.inj h
    obtain ⟨low, rest⟩ := List.cons.inj h
    have same : c.toNat = d.toNat := by omega
    exact ⟨Char.toNat_inj.mp same, rest⟩

theorem encodeUtf16_injective : Function.Injective encodeUtf16 := by
  intro s
  induction s with
  | nil =>
    intro t h
    cases t with
    | nil => rfl
    | cons d t =>
      rw [encodeUtf16_cons] at h
      unfold units at h
      split_ifs at h
      all_goals cases h
  | cons c s ih =>
    intro t h
    cases t with
    | nil =>
      rw [encodeUtf16_cons] at h
      unfold units at h
      split_ifs at h
      all_goals cases h
    | cons d t =>
      obtain ⟨rfl, rest⟩ := units_append_inj h
      rw [ih rest]

/-- A code unit that is no surrogate is a character of the text. -/
theorem mem_encodeUtf16 {s : List Char} {u : ℕ} (h : u ∈ encodeUtf16 s) (hu : u < 0xD800) :
  ∃ c ∈ s, c.toNat = u
  := by
  obtain ⟨c, hc, hmem⟩ := List.mem_flatMap.mp h
  unfold units at hmem
  split_ifs at hmem
  · exact ⟨c, hc, (List.mem_singleton.mp hmem).symm⟩
  · simp only [List.mem_cons, List.not_mem_nil, or_false] at hmem
    omega

/-! ### The decoder -/

/-- The state of a decoder between two bytes: the code point so far, with the number of bytes seen
and needed after the first one, and the bounds of the next one. -/
structure TextDecoder where
  bomSeen : Bool := false
  codePoint : ℕ := 0
  seen : ℕ := 0
  needed : ℕ := 0
  lower : ℕ := 0x80
  upper : ℕ := 0xBF
deriving DecidableEq

namespace TextDecoder

/-- Between two characters. -/
def reset (d : TextDecoder) : TextDecoder where
  bomSeen := d.bomSeen

/-- A code point; the byte order mark counts only where it is not the first one. -/
def emit (d : TextDecoder) (n : ℕ) : TextDecoder × JsString :=
  ({ d with bomSeen := true }, if !d.bomSeen && n = 0xFEFF then [] else units n)

/-- The first byte of a character. -/
def first (d : TextDecoder) (b : ℕ) : TextDecoder × JsString :=
  if b < 0x80 then d.emit b
  else if 0xC2 ≤ b ∧ b ≤ 0xDF then
    ({ d with
        needed := 1
        codePoint := b % 0x20 },
      [])
  else if 0xE0 ≤ b ∧ b ≤ 0xEF then
    ({ d with
        lower := if b = 0xE0 then 0xA0 else d.lower
        upper := if b = 0xED then 0x9F else d.upper
        needed := 2
        codePoint := b % 0x10 },
      [])
  else if 0xF0 ≤ b ∧ b ≤ 0xF4 then
    ({ d with
        lower := if b = 0xF0 then 0x90 else d.lower
        upper := if b = 0xF4 then 0x8F else d.upper
        needed := 3
        codePoint := b % 0x8 },
      [])
  else d.emit 0xFFFD

/-- One byte.  A byte that does not continue a character ends it with an error, and is then the
first one of the next character. -/
def push (d : TextDecoder) (b : ℕ) : TextDecoder × JsString :=
  if d.needed = 0 then d.first b
  else if d.lower ≤ b ∧ b ≤ d.upper then
    let codePoint := d.codePoint * 0x40 + b % 0x40
    if d.seen + 1 = d.needed then d.reset.emit codePoint
    else
      ({ d with
          lower := 0x80
          upper := 0xBF
          codePoint := codePoint
          seen := d.seen + 1 },
        [])
  else
    let (error, replacement) := d.reset.emit 0xFFFD
    let (next, output) := error.first b
    (next, replacement ++ output)

/-- The output for a chunk of a stream; the state is kept for the next one. -/
def decode (d : TextDecoder) : List ℕ → TextDecoder × JsString
  | [] => (d, [])
  | b :: rest =>
      let head := d.push b
      let tail := head.1.decode rest
      (tail.1, head.2 ++ tail.2)

theorem decode_append (d : TextDecoder) (bytes rest : List ℕ) :
  d.decode (bytes ++ rest) =
    (((d.decode bytes).1.decode rest).1, (d.decode bytes).2 ++ ((d.decode bytes).1.decode rest).2)
  := by
  induction bytes generalizing d with
  | nil => rfl
  | cons b bytes ih =>
    rw [List.cons_append, decode, decode, ih]
    dsimp only
    rw [List.append_assoc]

/-- A byte without an output. -/
theorem decode_silent {d d' : TextDecoder} {b : ℕ} (h : d.push b = (d', [])) (rest : List ℕ) :
  d.decode (b :: rest) = d'.decode rest
  := by
  rw [decode, h]
  rfl

theorem decode_singleton (d : TextDecoder) (b : ℕ) :
  d.decode [b] = d.push b
  := by
  rw [decode, decode, List.append_nil]

/-- A byte in the middle of a character. -/
theorem push_inner {d : TextDecoder} {b : ℕ} (within : d.lower ≤ b ∧ b ≤ d.upper)
    (inner : d.seen + 1 < d.needed) :
  d.push b =
    ({ d with
        lower := 0x80
        upper := 0xBF
        codePoint := d.codePoint * 0x40 + b % 0x40
        seen := d.seen + 1 },
      [])
  := by
  unfold push
  rw [if_neg (by omega), if_pos within]
  dsimp only
  rw [if_neg (by omega)]

/-- The last byte of a character. -/
theorem push_last {d : TextDecoder} {b : ℕ} (within : d.lower ≤ b ∧ b ≤ d.upper)
    (last : d.seen + 1 = d.needed) :
  d.push b = d.reset.emit (d.codePoint * 0x40 + b % 0x40)
  := by
  unfold push
  rw [if_neg (by omega), if_pos within]
  dsimp only
  rw [if_pos last]

/-- The bytes of a character are decoded to it. -/
theorem decode_utf8 (bom : Bool) (c : Char) :
  decode { bomSeen := bom } (utf8 c) = emit { bomSeen := bom } c.toNat
  := by
  have bounds := toNat_bounds c
  unfold utf8
  generalize c.toNat = n at bounds
  dsimp only
  split_ifs with one two three
  · rw [decode_singleton, push, if_pos rfl, first, if_pos one]
  · have lead : push { bomSeen := bom } (0xC0 + n / 0x40) =
        ({ bomSeen := bom, needed := 1, codePoint := (0xC0 + n / 0x40) % 0x20 }, []) := by
      simp only [push, first, if_true]
      rw [if_neg (by omega), if_pos (by omega)]
    have value : (0xC0 + n / 0x40) % 0x20 * 0x40 + (0x80 + n % 0x40) % 0x40 = n := by omega
    rw [decode_silent lead, decode_singleton, push_last (by dsimp only; omega) rfl]
    dsimp only [reset]
    rw [value]
  · have lead : push { bomSeen := bom } (0xE0 + n / 0x1000) =
        ({ bomSeen := bom
           lower := if 0xE0 + n / 0x1000 = 0xE0 then 0xA0 else 0x80
           upper := if 0xE0 + n / 0x1000 = 0xED then 0x9F else 0xBF
           needed := 2
           codePoint := (0xE0 + n / 0x1000) % 0x10 },
          []) := by
      simp only [push, first, if_true]
      rw [if_neg (by omega), if_neg (by omega), if_pos (by omega)]
    have within : (if 0xE0 + n / 0x1000 = 0xE0 then 0xA0 else 0x80) ≤ 0x80 + n / 0x40 % 0x40 ∧
        0x80 + n / 0x40 % 0x40 ≤ if 0xE0 + n / 0x1000 = 0xED then 0x9F else 0xBF := by
      split_ifs
      all_goals omega
    have value : ((0xE0 + n / 0x1000) % 0x10 * 0x40 + (0x80 + n / 0x40 % 0x40) % 0x40) * 0x40 +
        (0x80 + n % 0x40) % 0x40 = n := by omega
    rw [decode_silent lead, decode_silent (push_inner within (by dsimp only; omega)),
      decode_singleton, push_last (by dsimp only; omega) rfl]
    dsimp only [reset]
    rw [value]
  · have lead : push { bomSeen := bom } (0xF0 + n / 0x40000) =
        ({ bomSeen := bom
           lower := if 0xF0 + n / 0x40000 = 0xF0 then 0x90 else 0x80
           upper := if 0xF0 + n / 0x40000 = 0xF4 then 0x8F else 0xBF
           needed := 3
           codePoint := (0xF0 + n / 0x40000) % 0x8 },
          []) := by
      simp only [push, first, if_true]
      rw [if_neg (by omega), if_neg (by omega), if_neg (by omega), if_pos (by omega)]
    have within : (if 0xF0 + n / 0x40000 = 0xF0 then 0x90 else 0x80) ≤ 0x80 + n / 0x1000 % 0x40 ∧
        0x80 + n / 0x1000 % 0x40 ≤ if 0xF0 + n / 0x40000 = 0xF4 then 0x8F else 0xBF := by
      split_ifs
      all_goals omega
    have value : (((0xF0 + n / 0x40000) % 0x8 * 0x40 + (0x80 + n / 0x1000 % 0x40) % 0x40) * 0x40 +
        (0x80 + n / 0x40 % 0x40) % 0x40) * 0x40 + (0x80 + n % 0x40) % 0x40 = n := by omega
    rw [decode_silent lead, decode_silent (push_inner within (by dsimp only; omega)),
      decode_silent (push_inner (by dsimp only; omega) (by dsimp only; omega)), decode_singleton,
      push_last (by dsimp only; omega) rfl]
    dsimp only [reset]
    rw [value]

/-- A decoder that has begun decodes a text to its code units. -/
theorem decode_encodeUtf8 (text : List Char) :
  decode { bomSeen := true } (encodeUtf8 text) = ({ bomSeen := true }, encodeUtf16 text)
  := by
  induction text with
  | nil => rfl
  | cons c text ih =>
    change decode { bomSeen := true } (utf8 c ++ encodeUtf8 text) = _
    rw [decode_append, decode_utf8]
    change ((decode { bomSeen := true } (encodeUtf8 text)).1,
      units c.toNat ++ (decode { bomSeen := true } (encodeUtf8 text)).2) = _
    rw [ih]
    rfl

/-- A new decoder does so too if the text does not begin with a byte order mark. -/
theorem decode_encodeUtf8_cons {c : Char} (hc : c.toNat ≠ 0xFEFF) (text : List Char) :
  decode {} (encodeUtf8 (c :: text)) = ({ bomSeen := true }, encodeUtf16 (c :: text))
  := by
  have begun : emit {} c.toNat = ({ bomSeen := true }, units c.toNat) := by
    simp only [emit, decide_eq_false hc, Bool.and_false]
    rfl
  change decode {} (utf8 c ++ encodeUtf8 text) = _
  rw [decode_append, decode_utf8, begun]
  dsimp only
  rw [decode_encodeUtf8]
  rfl

end TextDecoder

end Unicode
