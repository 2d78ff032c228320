import Lumina.Library.Dict
import Lumina.Library.Json

/-!
# The JSON of Python

`json.loads` accepts `NaN` and the infinities, keeps the last one of the members with one key, and
joins the surrogates of two escapes.  It reads a string, or bytes in the encoding that they begin
like.  What is not JSON raises a `ValueError`, and too deep a nesting a `RecursionError`.

`json.dumps` is the writer for all values, with either of the separators that are in use, and with
or without escapes for what is not ASCII.  How a floating point number is shown is a parameter.
-/

namespace PyJson

open Json (JsNumber decimal digitsValue hexDigit parseDigits parseExponent parseFraction parseWhole
  parseWord simpleEscape skip)

/-! ### Values -/

/-- A string of Python by its code points, which may be surrogates. -/
abbrev Str := List ℕ

/-- The string of some characters. -/
def str (s : String) : Str :=
  s.toList.map Char.toNat

/-- A floating point number; those that are not `nan` are the ones of JavaScript. -/
inductive Double where
  | number (x : JsNumber)
  | nan
deriving DecidableEq

inductive Value where
  | none
  | bool (b : Bool)
  | int (n : ℤ)
  | float (x : Double)
  | str (s : Str)
  | list (items : List Value)
  | dict (members : List (Str × Value))

inductive LoadsError where
  | valueError
  | recursionError
deriving DecidableEq

/-- What is not there is an error. -/
def require {α : Type} (a : Option α) : Except LoadsError α :=
  a.elim (.error .valueError) .ok

/-! ### Strings and numbers -/

/-- A part of a string: a code point, or four digits of an escape. -/
inductive Piece where
  | plain (n : ℕ)
  | unit (n : ℕ)

def IsHigh (n : ℕ) : Prop :=
  0xD800 ≤ n ∧ n < 0xDC00

def IsLow (n : ℕ) : Prop :=
  0xDC00 ≤ n ∧ n < 0xE000

instance (n : ℕ) : Decidable (IsHigh n) := inferInstanceAs (Decidable (_ ∧ _))

instance (n : ℕ) : Decidable (IsLow n) := inferInstanceAs (Decidable (_ ∧ _))

/-- The string of some pieces: two surrogates that were escaped are one code point. -/
def join : List Piece → Str
  | [] => []
  | .plain n :: rest => n :: join rest
  | .unit n :: .unit m :: rest =>
      if IsHigh n ∧ IsLow m then (0x10000 + (n - 0xD800) * 0x400 + (m - 0xDC00)) :: join rest
      else n :: join (.unit m :: rest)
  | .unit n :: rest => n :: join rest

/-- The rest of a string, after the quote. -/
def scanPieces : Str → Option (List Piece × Str)
  | [] => none
  | u :: rest =>
      if u = '"'.toNat then some ([], rest)
      else if u = '\\'.toNat then
        match rest with
        | [] => none
        | e :: rest =>
            if e = 'u'.toNat then
              match rest with
              | a :: b :: c :: d :: rest => do
                  let a ← hexDigit a
                  let b ← hexDigit b
                  let c ← hexDigit c
                  let d ← hexDigit d
                  let (pieces, rest) ← scanPieces rest
                  some (.unit (((a * 16 + b) * 16 + c) * 16 + d) :: pieces, rest)
              | _ => none
            else do
              let u ← simpleEscape e
              let (pieces, rest) ← scanPieces rest
              some (.plain u :: pieces, rest)
      else if u < 0x20 then none
      else do
        let (pieces, rest) ← scanPieces rest
        some (.plain u :: pieces, rest)

def scanString (s : Str) : Except LoadsError (Str × Str) :=
  (require (scanPieces s)).map fun (pieces, rest) => (join pieces, rest)

/-- `sys.get_int_max_str_digits()`. -/
def maxStrDigits : ℕ := 4300

/-- A numeral without its sign: an integer, unless a fraction or an exponent follows the digits. -/
def scanMagnitude (negative : Bool) (s : Str) : Except LoadsError (Value × Str) := do
  let (whole, s) ← require (parseWhole s)
  let (fraction, afterFraction) := (parseFraction s).getD ([], s)
  let (exponent, rest) := (parseExponent afterFraction).getD (0, afterFraction)
  if rest = s then
    if maxStrDigits < whole.length then .error .valueError
    else .ok (.int (if negative then -digitsValue whole else digitsValue whole), rest)
  else
    .ok (.float (.number (decimal negative (digitsValue (whole ++ fraction)) fraction.length
      exponent)), rest)

def scanNumber : Str → Except LoadsError (Value × Str)
  | [] => .error .valueError
  | u :: rest =>
      if u = '-'.toNat then scanMagnitude true rest else scanMagnitude false (u :: rest)

/-- A value after the first word that is there, or else a number. -/
def scanConstant (s : Str) : Except LoadsError (Value × Str) :=
  let words : List (String × Value) :=
    [("null", .none), ("true", .bool true), ("false", .bool false), ("NaN", .float .nan),
      ("Infinity", .float (.number ⟨false, none⟩)), ("-Infinity", .float (.number ⟨true, none⟩))]
  match words.findSome? fun (word, v) => (parseWord word s).map fun rest => (v, rest) with
  | some found => .ok found
  | none => scanNumber s

/-! ### `json.loads` -/

mutual

/-- `scan_once`: a value, and the rest.  The first argument bounds the recursion of this definition,
the second one is the depth that the interpreter still allows. -/
def scanOnce : ℕ → ℕ → Str → Except LoadsError (Value × Str)
  | 0, _, _ => .error .valueError
  | _ + 1, _, [] => .error .valueError
  | n + 1, depth, u :: rest =>
      if u = '"'.toNat then (scanString rest).map fun (s, rest) => (.str s, rest)
      else if u = '{'.toNat then
        match depth with
        | 0 => .error .recursionError
        | depth + 1 =>
            match skip rest with
            | [] => .error .valueError
            | u :: after =>
                if u = '}'.toNat then .ok (.dict [], after)
                else
                  (scanMembers n depth (u :: after)).map fun (members, rest) =>
                    (.dict (Dict.ofPairs members), rest)
      else if u = '['.toNat then
        match depth with
        | 0 => .error .recursionError
        | depth + 1 =>
            match skip rest with
            | [] => .error .valueError
            | u :: after =>
                if u = ']'.toNat then .ok (.list [], after)
                else
                  (scanItems n depth (u :: after)).map fun (items, rest) => (.list items, rest)
      else scanConstant (u :: rest)

/-- The items of a list and its closing bracket. -/
def scanItems : ℕ → ℕ → Str → Except LoadsError (List Value × Str)
  | 0, _, _ => .error .valueError
  | n + 1, depth, s => do
      let (v, s) ← scanOnce n depth s
      match skip s with
      | [] => .error .valueError
      | u :: rest =>
          if u = ']'.toNat then .ok ([v], rest)
          else if u = ','.toNat then do
            let (items, rest) ← scanItems n depth (skip rest)
            .ok (v :: items, rest)
          else .error .valueError

/-- The members of a dictionary and its closing brace. -/
def scanMembers : ℕ → ℕ → Str → Except LoadsError (List (Str × Value) × Str)
  | 0, _, _ => .error .valueError
  | _ + 1, _, [] => .error .valueError
  | n + 1, depth, u :: rest =>
      if u ≠ '"'.toNat then .error .valueError
      else do
        let (key, s) ← scanString rest
        match skip s with
        | [] => .error .valueError
        | u :: rest =>
            if u ≠ ':'.toNat then .error .valueError
            else do
              let (v, s) ← scanOnce n depth (skip rest)
              match skip s with
              | [] => .error .valueError
              | u :: rest =>
                  if u = '}'.toNat then .ok ([(key, v)], rest)
                  else if u = ','.toNat then do
                    let (members, rest) ← scanMembers n depth (skip rest)
                    .ok ((key, v) :: members, rest)
                  else .error .valueError

end

/-- One value and nothing else. -/
def decode (depth : ℕ) (s : Str) : Except LoadsError Value := do
  let (v, rest) ← scanOnce (2 * s.length + 2) depth (skip s)
  if skip rest = [] then .ok v else .error .valueError

/-- `json.loads` of a string, where the interpreter allows the depth. -/
def loads (depth : ℕ) (s : Str) : Except LoadsError Value :=
  if s.head? = some 0xFEFF then .error .valueError else decode depth s

/-! ### `json.dumps` -/

/-- The arguments: `ensure_ascii`, and whether spaces follow the separators. -/
structure Format where
  ascii : Bool
  spaced : Bool

def Format.itemSeparator (fmt : Format) : Str :=
  ','.toNat :: if fmt.spaced then [' '.toNat] else []

def Format.keySeparator (fmt : Format) : Str :=
  ':'.toNat :: if fmt.spaced then [' '.toNat] else []

/-- The code point of a digit. -/
def digitPoint (d : ℕ) : ℕ :=
  if d < 10 then '0'.toNat + d else 'a'.toNat + (d - 10)

/-- An escape by four digits. -/
def escapeUnit (n : ℕ) : Str :=
  ['\\'.toNat, 'u'.toNat, digitPoint (n / 0x1000), digitPoint (n / 0x100 % 0x10),
    digitPoint (n / 0x10 % 0x10), digitPoint (n % 0x10)]

def escapePoint (ascii : Bool) (u : ℕ) : Str :=
  if u = '"'.toNat then ['\\'.toNat, '"'.toNat]
  else if u = '\\'.toNat then ['\\'.toNat, '\\'.toNat]
  else if u = '\n'.toNat then ['\\'.toNat, 'n'.toNat]
  else if u = '\r'.toNat then ['\\'.toNat, 'r'.toNat]
  else if u = '\t'.toNat then ['\\'.toNat, 't'.toNat]
  else if u = 0x0C then ['\\'.toNat, 'f'.toNat]
  else if u = 0x08 then ['\\'.toNat, 'b'.toNat]
  else if u < 0x20 ∨ ascii ∧ 0x7F ≤ u then
    if u < 0x10000 then escapeUnit u
    else
      escapeUnit (0xD800 + (u - 0x10000) / 0x400) ++ escapeUnit (0xDC00 + (u - 0x10000) % 0x400)
  else [u]

def dumpsString (ascii : Bool) (s : Str) : Str :=
  '"'.toNat :: s.flatMap (escapePoint ascii) ++ ['"'.toNat]

section

variable (fmt : Format) (floatRepr : JsNumber → List Char)

def dumpsDouble : Double → Str
  | .number x =>
      if x.magnitude.isSome then (floatRepr x).map Char.toNat
      else if x.negative then str "-Infinity"
      else str "Infinity"
  | .nan => str "NaN"

mutual

def dumps : Value → Str
  | .none => str "null"
  | .bool true => str "true"
  | .bool false => str "false"
  | .int n => (Json.dumpsInt n).map Char.toNat
  | .float x => dumpsDouble floatRepr x
  | .str s => dumpsString fmt.ascii s
  | .list [] => ['['.toNat, ']'.toNat]
  | .list (v :: rest) => '['.toNat :: dumps v ++ dumpsItems rest ++ [']'.toNat]
  | .dict [] => ['{'.toNat, '}'.toNat]
  | .dict ((k, v) :: rest) =>
      '{'.toNat :: dumpsString fmt.ascii k ++ fmt.keySeparator ++ dumps v ++ dumpsMembers rest ++
        ['}'.toNat]

/-- The items after the first one. -/
def dumpsItems : List Value → Str
  | [] => []
  | v :: rest => fmt.itemSeparator ++ dumps v ++ dumpsItems rest

def dumpsMembers : List (Str × Value) → Str
  | [] => []
  | (k, v) :: rest =>
      fmt.itemSeparator ++ dumpsString fmt.ascii k ++ fmt.keySeparator ++ dumps v ++
        dumpsMembers rest

end

end

/-! ### Bytes -/

/-- A code point that is not a surrogate. -/
def IsScalar (u : ℕ) : Prop :=
  u < 0xD800 ∨ 0xE000 ≤ u ∧ u < 0x110000

instance (u : ℕ) : Decidable (IsScalar u) := inferInstanceAs (Decidable (_ ∨ _))

/-- The bytes of a code point in UTF-8. -/
def utf8Bytes (u : ℕ) : List ℕ :=
  if u < 0x80 then [u]
  else if u < 0x800 then [0xC0 + u / 0x40, 0x80 + u % 0x40]
  else if u < 0x10000 then [0xE0 + u / 0x1000, 0x80 + u / 0x40 % 0x40, 0x80 + u % 0x40]
  else [0xF0 + u / 0x40000, 0x80 + u / 0x1000 % 0x40, 0x80 + u / 0x40 % 0x40, 0x80 + u % 0x40]

/-- `s.encode("utf-8")`, which fails for surrogates. -/
def encodeUtf8 (s : Str) : Option (List ℕ) :=
  if s.all (IsScalar ·) then some (s.flatMap utf8Bytes) else none

inductive Encoding where
  | utf8
  | utf8Sig
  | utf16
  | utf16be
  | utf16le
  | utf32
  | utf32be
  | utf32le
deriving DecidableEq

/-- `detect_encoding`, where bytes are natural numbers. -/
def detectEncoding (bytes : List ℕ) : Encoding :=
  if [0, 0, 0xFE, 0xFF].isPrefixOf bytes || [0xFF, 0xFE, 0, 0].isPrefixOf bytes then .utf32
  else if [0xFE, 0xFF].isPrefixOf bytes || [0xFF, 0xFE].isPrefixOf bytes then .utf16
  else if [0xEF, 0xBB, 0xBF].isPrefixOf bytes then .utf8Sig
  else
    match bytes with
    | a :: b :: c :: d :: _ =>
        if a = 0 then if b = 0 then .utf32be else .utf16be
        else if b = 0 then if c = 0 ∧ d = 0 then .utf32le else .utf16le
        else .utf8
    | [a, b] => if a = 0 then .utf16be else if b = 0 then .utf16le else .utf8
    | _ => .utf8

/-- The last six bits of a code point. -/
def continuation (b : ℕ) : Option ℕ :=
  if 0x80 ≤ b ∧ b < 0xC0 then some (b - 0x80) else none

/-- The code points of UTF-8; surrogates pass. -/
def decodeUtf8 : List ℕ → Option Str
  | [] => some []
  | a :: rest =>
      if a < 0x80 then (decodeUtf8 rest).map (a :: ·)
      else if a < 0xE0 then
        match rest with
        | b :: rest => do
            let b ← continuation b
            let n := (a - 0xC0) * 0x40 + b
            if 0xC2 ≤ a then (decodeUtf8 rest).map (n :: ·) else none
        | _ => none
      else if a < 0xF0 then
        match rest with
        | b :: c :: rest => do
            let b ← continuation b
            let c ← continuation c
            let n := ((a - 0xE0) * 0x40 + b) * 0x40 + c
            if 0x800 ≤ n then (decodeUtf8 rest).map (n :: ·) else none
        | _ => none
      else
        match rest with
        | b :: c :: d :: rest => do
            let b ← continuation b
            let c ← continuation c
            let d ← continuation d
            let n := (((a - 0xF0) * 0x40 + b) * 0x40 + c) * 0x40 + d
            if 0x10000 ≤ n ∧ n < 0x110000 then (decodeUtf8 rest).map (n :: ·) else none
        | _ => none

/-- Numbers of two bytes. -/
def pairs (little : Bool) : List ℕ → Option (List ℕ)
  | [] => some []
  | [_] => none
  | a :: b :: rest =>
      (pairs little rest).map ((if little then b * 0x100 + a else a * 0x100 + b) :: ·)

/-- The code points of UTF-16; surrogates that are not in a pair pass. -/
def decodeUtf16 (little : Bool) (bytes : List ℕ) : Option Str :=
  (pairs little bytes).map fun units => join (units.map .unit)

/-- The code points of UTF-32; surrogates pass. -/
def decodeUtf32 (little : Bool) (bytes : List ℕ) : Option Str := do
  let halves ← pairs little bytes
  let points ← pairsOf halves
  if points.all (· < 0x110000) then some points else none
where
  pairsOf : List ℕ → Option (List ℕ)
    | [] => some []
    | [_] => none
    | a :: b :: rest =>
        (pairsOf rest).map ((if little then b * 0x10000 + a else a * 0x10000 + b) :: ·)

/-- `bytes.decode(encoding, "surrogatepass")`; a byte order mark says how the bytes are ordered. -/
def decodeBytes (bytes : List ℕ) : Encoding → Option Str
  | .utf8 => decodeUtf8 bytes
  | .utf8Sig => decodeUtf8 (bytes.drop 3)
  | .utf16 => decodeUtf16 (bytes.head? = some 0xFF) (bytes.drop 2)
  | .utf16be => decodeUtf16 false bytes
  | .utf16le => decodeUtf16 true bytes
  | .utf32 => decodeUtf32 (bytes.head? = some 0xFF) (bytes.drop 4)
  | .utf32be => decodeUtf32 false bytes
  | .utf32le => decodeUtf32 true bytes

/-- `json.loads` of bytes. -/
def loadsBytes (depth : ℕ) (bytes : List ℕ) : Except LoadsError Value :=
  (require (decodeBytes bytes (detectEncoding bytes))).bind (decode depth)

end PyJson
