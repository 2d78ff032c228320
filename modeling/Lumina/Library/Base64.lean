import Mathlib.Data.List.Basic
import Mathlib.Data.Nat.Notation

/-!
# Base64

Three bytes are four digits of six bits; a last group of one or two bytes is padded.  Characters
outside the alphabet are passed over in decoding, and what is left must be whole groups.
-/

namespace Base64

def alphabet : List Char :=
  "ABCDEFGHIJKLMNOPQRSTUVWXYZabcdefghijklmnopqrstuvwxyz0123456789+/".toList

def digit (n : ℕ) : Char := alphabet.getD n '='

def value (c : Char) : Option ℕ := alphabet.findIdx? (· == c)

/-- `b64encode` -/
def encode : List UInt8 → List Char
  | a :: b :: c :: rest =>
    digit (a.toNat / 4) :: digit (a.toNat % 4 * 16 + b.toNat / 16) ::
      digit (b.toNat % 16 * 4 + c.toNat / 64) :: digit (c.toNat % 64) :: encode rest
  | [a, b] =>
    [digit (a.toNat / 4), digit (a.toNat % 4 * 16 + b.toNat / 16), digit (b.toNat % 16 * 4), '=']
  | [a] => [digit (a.toNat / 4), digit (a.toNat % 4 * 16), '=', '=']
  | [] => []

/-- The bytes of whole groups. -/
def decodeGroups : List Char → Option (List UInt8)
  | [] => some []
  | w :: x :: y :: z :: rest => do
    let w ← value w
    let x ← value x
    let first := UInt8.ofNat (w * 4 + x / 16)
    if y = '=' then
      if z = '=' ∧ rest = [] then return [first] else none
    else
      let y ← value y
      let second := UInt8.ofNat (x % 16 * 16 + y / 4)
      if z = '=' then
        if rest = [] then return [first, second] else none
      else
        let z ← value z
        let third := UInt8.ofNat (y % 4 * 64 + z)
        let rest ← decodeGroups rest
        return first :: second :: third :: rest
  | _ => none

/-- `b64decode`, without validation. -/
def decode (text : List Char) : Option (List UInt8) :=
  decodeGroups (text.filter fun c => c == '=' || alphabet.contains c)

theorem digit_spec : ∀ n : Fin 64,
  value (digit n) = some n.val ∧ digit n ≠ '=' ∧ digit n ∈ alphabet
  := by
  decide +kernel

section Digits

variable {n : ℕ}

theorem value_digit (h : n < 64) : value (digit n) = some n := (digit_spec ⟨n, h⟩).1

theorem digit_ne_pad (h : n < 64) : digit n ≠ '=' := (digit_spec ⟨n, h⟩).2.1

theorem digit_mem (h : n < 64) : digit n ∈ alphabet := (digit_spec ⟨n, h⟩).2.2

end Digits

theorem ofNat_eq {n : ℕ} {a : UInt8} (h : n = a.toNat) :
  UInt8.ofNat n = a
  := by
  subst h
  apply UInt8.ofNat_toNat

/-- The groups of an encoded text are those that have been encoded. -/
theorem decodeGroups_encode (bytes : List UInt8) :
  decodeGroups (encode bytes) = some bytes
  := by
  induction bytes using encode.induct with
  | case1 a b c rest ih =>
    have ha := a.toNat_lt
    have hb := b.toNat_lt
    have hc := c.toNat_lt
    have first : UInt8.ofNat (a.toNat / 4 * 4 + (a.toNat % 4 * 16 + b.toNat / 16) / 16) = a :=
      ofNat_eq (by omega)
    have second : UInt8.ofNat ((a.toNat % 4 * 16 + b.toNat / 16) % 16 * 16 +
        (b.toNat % 16 * 4 + c.toNat / 64) / 4) = b := ofNat_eq (by omega)
    have third : UInt8.ofNat ((b.toNat % 16 * 4 + c.toNat / 64) % 4 * 64 + c.toNat % 64) = c :=
      ofNat_eq (by omega)
    have w : value (digit (a.toNat / 4)) = _ := value_digit (by omega)
    have x : value (digit (a.toNat % 4 * 16 + b.toNat / 16)) = _ := value_digit (by omega)
    have y : value (digit (b.toNat % 16 * 4 + c.toNat / 64)) = _ := value_digit (by omega)
    have z : value (digit (c.toNat % 64)) = _ := value_digit (by omega)
    have y' : digit (b.toNat % 16 * 4 + c.toNat / 64) ≠ '=' := digit_ne_pad (by omega)
    have z' : digit (c.toNat % 64) ≠ '=' := digit_ne_pad (by omega)
    simp only [encode, decodeGroups, w, x, y, z, if_neg y', if_neg z', ih, Option.bind_eq_bind,
      Option.bind_some, Option.pure_def, first, second, third]
  | case2 a b =>
    have ha := a.toNat_lt
    have hb := b.toNat_lt
    have first : UInt8.ofNat (a.toNat / 4 * 4 + (a.toNat % 4 * 16 + b.toNat / 16) / 16) = a :=
      ofNat_eq (by omega)
    have second : UInt8.ofNat ((a.toNat % 4 * 16 + b.toNat / 16) % 16 * 16 +
        b.toNat % 16 * 4 / 4) = b := ofNat_eq (by omega)
    have w : value (digit (a.toNat / 4)) = _ := value_digit (by omega)
    have x : value (digit (a.toNat % 4 * 16 + b.toNat / 16)) = _ := value_digit (by omega)
    have y : value (digit (b.toNat % 16 * 4)) = _ := value_digit (by omega)
    have y' : digit (b.toNat % 16 * 4) ≠ '=' := digit_ne_pad (by omega)
    simp only [encode, decodeGroups, w, x, y, if_neg y', if_true, Option.bind_eq_bind,
      Option.bind_some, Option.pure_def, first, second]
  | case3 a =>
    have ha := a.toNat_lt
    have first : UInt8.ofNat (a.toNat / 4 * 4 + a.toNat % 4 * 16 / 16) = a := ofNat_eq (by omega)
    have w : value (digit (a.toNat / 4)) = _ := value_digit (by omega)
    have x : value (digit (a.toNat % 4 * 16)) = _ := value_digit (by omega)
    simp only [encode, decodeGroups, w, x, and_self, if_true, Option.bind_eq_bind,
      Option.bind_some, Option.pure_def, first]
  | case4 => rfl

/-- An encoded text has no other characters. -/
theorem mem_encode {bytes : List UInt8} {c : Char} (h : c ∈ encode bytes) :
  c = '=' ∨ c ∈ alphabet
  := by
  induction bytes using encode.induct with
  | case1 a b d rest ih =>
    have ha := a.toNat_lt
    have hb := b.toNat_lt
    have hd := d.toNat_lt
    rw [encode] at h
    simp only [List.mem_cons] at h
    rcases h with rfl | rfl | rfl | rfl | h
    · exact Or.inr (digit_mem (by omega))
    · exact Or.inr (digit_mem (by omega))
    · exact Or.inr (digit_mem (by omega))
    · exact Or.inr (digit_mem (by omega))
    · exact ih h
  | case2 a b =>
    have ha := a.toNat_lt
    have hb := b.toNat_lt
    rw [encode] at h
    simp only [List.mem_cons, List.not_mem_nil, or_false] at h
    rcases h with rfl | rfl | rfl | rfl
    · exact Or.inr (digit_mem (by omega))
    · exact Or.inr (digit_mem (by omega))
    · exact Or.inr (digit_mem (by omega))
    · exact Or.inl rfl
  | case3 a =>
    have ha := a.toNat_lt
    rw [encode] at h
    simp only [List.mem_cons, List.not_mem_nil, or_false] at h
    rcases h with rfl | rfl | rfl | rfl
    · exact Or.inr (digit_mem (by omega))
    · exact Or.inr (digit_mem (by omega))
    · exact Or.inl rfl
    · exact Or.inl rfl
  | case4 => cases h

/-- Decoding an encoded text gives the bytes. -/
theorem decode_encode (bytes : List UInt8) :
  decode (encode bytes) = some bytes
  := by
  unfold decode
  rw [List.filter_eq_self.mpr, decodeGroups_encode]
  intro c hc
  obtain rfl | hc := mem_encode hc
  · rfl
  · rw [List.contains_iff_mem.mpr hc, Bool.or_true]

end Base64
