import Lumina.Library.Base64
import Mathlib.Data.List.DropRight

/-!
# Base64 for addresses

The alphabet with `-` and `_`, and the decoder of Python, which passes over what is not in the
alphabet, ends at the padding that completes a group, and fails where a group is not complete.  An
encoded text is read back, also if its padding was left out and is put there again.
-/

namespace Base64Url

open Base64 (alphabet digit value)

def toUrlsafe (c : Char) : Char :=
  if c = '+' then '-' else if c = '/' then '_' else c

def fromUrlsafe (c : Char) : Char :=
  if c = '-' then '+' else if c = '_' then '/' else c

/-- `urlsafe_b64encode`. -/
def encode (bytes : List UInt8) : List Char :=
  (Base64.encode bytes).map toUrlsafe

/-- `a2b_base64`, which is not strict: how many digits of the group have been read, the bits of the
last one that are left, how much padding has been read, and the text. -/
def a2b : (quad left pads : ℕ) → List Char → Option (List UInt8)
  | quad, _, _, [] => if quad = 0 then some [] else none
  | quad, left, pads, c :: rest =>
      if c = '=' then
        if 2 ≤ quad then
          if 4 ≤ quad + (pads + 1) then some [] else a2b quad left (pads + 1) rest
        else a2b quad left pads rest
      else
        match value c with
        | none => a2b quad left pads rest
        | some v =>
            if quad = 0 then a2b 1 v 0 rest
            else if quad = 1 then
              (a2b 2 (v % 16) 0 rest).map (UInt8.ofNat (left * 4 + v / 16) :: ·)
            else if quad = 2 then
              (a2b 3 (v % 4) 0 rest).map (UInt8.ofNat (left * 16 + v / 4) :: ·)
            else (a2b 0 0 0 rest).map (UInt8.ofNat (left * 64 + v) :: ·)

/-- `urlsafe_b64decode` of a string; one that is not ASCII is an error, too. -/
def decode (text : List Char) : Option (List UInt8) :=
  if text.all (·.toNat < 128) then a2b 0 0 0 (text.map fromUrlsafe) else none

/-- `text.rstrip("=")`. -/
def unpad (text : List Char) : List Char :=
  text.rdropWhile (· = '=')

/-- `text + "=" * (-len(text) % 4)`. -/
def pad (text : List Char) : List Char :=
  text ++ List.replicate ((4 - text.length % 4) % 4) '='

/-! ### Groups -/

section

variable {n left : ℕ} {b : UInt8} (rest : List Char)

theorem a2b_first (h : n < 64) :
  a2b 0 left 0 (digit n :: rest) = a2b 1 n 0 rest
  := by
  rw [a2b, if_neg (Base64.digit_ne_pad h), Base64.value_digit h]
  rfl

theorem a2b_second (h : n < 64) (byte : left * 4 + n / 16 = b.toNat) :
  a2b 1 left 0 (digit n :: rest) = (a2b 2 (n % 16) 0 rest).map (b :: ·)
  := by
  rw [a2b, if_neg (Base64.digit_ne_pad h), Base64.value_digit h]
  dsimp only
  rw [if_neg (by decide), if_pos rfl, Base64.ofNat_eq byte]

theorem a2b_third (h : n < 64) (byte : left * 16 + n / 4 = b.toNat) :
  a2b 2 left 0 (digit n :: rest) = (a2b 3 (n % 4) 0 rest).map (b :: ·)
  := by
  rw [a2b, if_neg (Base64.digit_ne_pad h), Base64.value_digit h]
  dsimp only
  rw [if_neg (by decide), if_neg (by decide), if_pos rfl, Base64.ofNat_eq byte]

theorem a2b_fourth (h : n < 64) (byte : left * 64 + n = b.toNat) :
  a2b 3 left 0 (digit n :: rest) = (a2b 0 0 0 rest).map (b :: ·)
  := by
  rw [a2b, if_neg (Base64.digit_ne_pad h), Base64.value_digit h]
  dsimp only
  rw [if_neg (by decide), if_neg (by decide), if_neg (by decide), Base64.ofNat_eq byte]

end

theorem a2b_encode (bytes : List UInt8) :
  a2b 0 0 0 (Base64.encode bytes) = some bytes
  := by
  induction bytes using Base64.encode.induct with
  | case1 a b c rest ih =>
    have ha := a.toNat_lt
    have hb := b.toNat_lt
    have hc := c.toNat_lt
    rw [Base64.encode, a2b_first _ (by omega), a2b_second (b := a) _ (by omega) (by omega),
      a2b_third (b := b) _ (by omega) (by omega), a2b_fourth (b := c) _ (by omega) (by omega), ih]
    rfl
  | case2 a b =>
    have ha := a.toNat_lt
    have hb := b.toNat_lt
    rw [Base64.encode, a2b_first _ (by omega), a2b_second (b := a) _ (by omega) (by omega),
      a2b_third (b := b) _ (by omega) (by omega)]
    rfl
  | case3 a =>
    have ha := a.toNat_lt
    rw [Base64.encode, a2b_first _ (by omega), a2b_second (b := a) _ (by omega) (by omega)]
    rfl
  | case4 => rfl

/-! ### Padding -/

/-- An encoded text is digits, with as much padding as makes its length a multiple of four. -/
theorem encode_split (bytes : List UInt8) :
  ∃ (digits : List Char) (k : ℕ), Base64.encode bytes = digits ++ List.replicate k '=' ∧
    (∀ c ∈ digits, c ∈ alphabet) ∧ k = (4 - digits.length % 4) % 4
  := by
  induction bytes using Base64.encode.induct with
  | case1 a b c rest ih =>
    have ha := a.toNat_lt
    have hb := b.toNat_lt
    have hc := c.toNat_lt
    obtain ⟨digits, k, text, inside, count⟩ := ih
    refine ⟨digit (a.toNat / 4) :: digit (a.toNat % 4 * 16 + b.toNat / 16) ::
      digit (b.toNat % 16 * 4 + c.toNat / 64) :: digit (c.toNat % 64) :: digits, k, ?_, ?_, ?_⟩
    · rw [Base64.encode, text]
      rfl
    · intro c hc
      simp only [List.mem_cons] at hc
      rcases hc with rfl | rfl | rfl | rfl | hc
      · exact Base64.digit_mem (by omega)
      · exact Base64.digit_mem (by omega)
      · exact Base64.digit_mem (by omega)
      · exact Base64.digit_mem (by omega)
      · exact inside c hc
    · simp only [List.length_cons]
      omega
  | case2 a b =>
    have ha := a.toNat_lt
    have hb := b.toNat_lt
    refine ⟨[digit (a.toNat / 4), digit (a.toNat % 4 * 16 + b.toNat / 16),
      digit (b.toNat % 16 * 4)], 1, rfl, ?_, rfl⟩
    intro c hc
    simp only [List.mem_cons, List.not_mem_nil, or_false] at hc
    rcases hc with rfl | rfl | rfl
    · exact Base64.digit_mem (by omega)
    · exact Base64.digit_mem (by omega)
    · exact Base64.digit_mem (by omega)
  | case3 a =>
    have ha := a.toNat_lt
    refine ⟨[digit (a.toNat / 4), digit (a.toNat % 4 * 16)], 2, rfl, ?_, rfl⟩
    intro c hc
    simp only [List.mem_cons, List.not_mem_nil, or_false] at hc
    rcases hc with rfl | rfl
    · exact Base64.digit_mem (by omega)
    · exact Base64.digit_mem (by omega)
  | case4 => exact ⟨[], 0, rfl, List.forall_mem_nil _, rfl⟩

theorem alphabet_spec {c : Char} (h : c ∈ alphabet) :
  fromUrlsafe (toUrlsafe c) = c ∧ toUrlsafe c ≠ '=' ∧ (toUrlsafe c).toNat < 128
  := by
  have all : alphabet.all (fun c => fromUrlsafe (toUrlsafe c) = c ∧ toUrlsafe c ≠ '=' ∧
      (toUrlsafe c).toNat < 128) = true := by
    decide +kernel
  exact of_decide_eq_true (List.all_eq_true.mp all c h)

theorem unpad_append {digits : List Char} (h : ∀ c ∈ digits, c ≠ '=') (k : ℕ) :
  unpad (digits ++ List.replicate k '=') = digits
  := by
  unfold unpad
  induction k with
  | zero =>
    rw [List.replicate_zero, List.append_nil, List.rdropWhile_eq_self_iff]
    intro some last
    exact h _ (List.getLast_mem some) (of_decide_eq_true last)
  | succ k ih =>
    rw [List.replicate_succ', ← List.append_assoc, List.rdropWhile_concat, if_pos (by decide), ih]

/-- An encoded text without its padding is read back. -/
theorem decode_pad_unpad_encode (bytes : List UInt8) :
  decode (pad (unpad (encode bytes))) = some bytes
  := by
  obtain ⟨digits, k, text, inside, count⟩ := encode_split bytes
  have encoded : encode bytes = digits.map toUrlsafe ++ List.replicate k '=' := by
    rw [encode, text, List.map_append, List.map_replicate]
    rfl
  have padded : pad (unpad (encode bytes)) = encode bytes := by
    rw [encoded, unpad_append, pad, List.length_map, ← count]
    intro c hc
    obtain ⟨d, hd, rfl⟩ := List.mem_map.mp hc
    exact (alphabet_spec (inside d hd)).2.1
  have ascii : (encode bytes).all (·.toNat < 128) = true := by
    apply List.all_eq_true.mpr
    intro c hc
    apply decide_eq_true
    rw [encoded] at hc
    rcases List.mem_append.mp hc with hc | hc
    · obtain ⟨d, hd, rfl⟩ := List.mem_map.mp hc
      exact (alphabet_spec (inside d hd)).2.2
    · rw [List.eq_of_mem_replicate hc]
      decide
  have standard : (encode bytes).map fromUrlsafe = Base64.encode bytes := by
    have same : digits.map (fromUrlsafe ∘ toUrlsafe) = digits := by
      conv_rhs => rw [← List.map_id digits]
      apply List.map_congr_left
      exact fun d hd => (alphabet_spec (inside d hd)).1
    rw [encoded, text, List.map_append, List.map_map, List.map_replicate, same]
    rfl
  rw [padded, decode, if_pos ascii, standard, a2b_encode]

end Base64Url
