import Lumina.Library.Binary64
import Lumina.Library.Unicode

/-!
# JSON between Python and JavaScript

The values that `json.dumps` writes and the ones that `JSON.parse` returns.  The writer is the one
without spaces, which escapes no more than it must; the reader accepts all of JSON.  How Python
writes a floating point number is a parameter.
-/

namespace Json

open Unicode

/-! ### Values -/

/-- A value of Python. -/
inductive Value where
  | none
  | bool (b : Bool)
  | int (n : ℤ)
  | float (x : Binary64)
  | str (s : String)
  | list (items : List Value)
  | dict (members : List (String × Value))

/-- A number of JavaScript that is not `NaN`; without a magnitude, it is infinite. -/
structure JsNumber where
  negative : Bool
  magnitude : Option ℚ
deriving DecidableEq

/-- A value of JavaScript.  The members of an object have different keys. -/
inductive JsValue where
  | null
  | bool (b : Bool)
  | number (x : JsNumber)
  | string (s : JsString)
  | array (items : List JsValue)
  | object (members : List (JsString × JsValue))

/-- A string in JavaScript. -/
def js (s : String) : JsString :=
  encodeUtf16 s.toList

/-- An integer, whether or not there is such a number in JavaScript. -/
def jsInt (n : ℤ) : JsNumber where
  negative := n < 0
  magnitude := some n.natAbs

def jsFloat (x : Binary64) : JsNumber where
  negative := x.negative
  magnitude := some x.magnitude

namespace Value

mutual

/-- The same value in JavaScript. -/
def toJs : Value → JsValue
  | none => .null
  | bool b => .bool b
  | int n => .number (jsInt n)
  | float x => .number (jsFloat x)
  | str s => .string (js s)
  | list items => .array (itemsToJs items)
  | dict members => .object (membersToJs members)

def itemsToJs : List Value → List JsValue
  | [] => []
  | v :: rest => v.toJs :: itemsToJs rest

def membersToJs : List (String × Value) → List (JsString × JsValue)
  | [] => []
  | (k, v) :: rest => (js k, v.toJs) :: membersToJs rest

end

mutual

/-- The value and all values in it. -/
def parts : Value → List Value
  | list items => list items :: partsOfItems items
  | dict members => dict members :: partsOfMembers members
  | v => [v]

def partsOfItems : List Value → List Value
  | [] => []
  | v :: rest => v.parts ++ partsOfItems rest

def partsOfMembers : List (String × Value) → List Value
  | [] => []
  | (_, v) :: rest => v.parts ++ partsOfMembers rest

end

end Value

/-! ### `json.dumps` -/

def escapeChar (c : Char) : List Char :=
  if c = '"' then ['\\', '"']
  else if c = '\\' then ['\\', '\\']
  else if c = '\n' then ['\\', 'n']
  else if c = '\r' then ['\\', 'r']
  else if c = '\t' then ['\\', 't']
  else if c = '\x0c' then ['\\', 'f']
  else if c = '\x08' then ['\\', 'b']
  else if c.toNat < 0x20 then
    ['\\', 'u', '0', '0', Nat.digitChar (c.toNat / 16), Nat.digitChar (c.toNat % 16)]
  else [c]

def dumpsString (s : String) : List Char :=
  '"' :: s.toList.flatMap escapeChar ++ ['"']

def dumpsInt (n : ℤ) : List Char :=
  if n < 0 then '-' :: Nat.toDigits 10 n.natAbs else Nat.toDigits 10 n.natAbs

section

variable (floatRepr : Binary64 → List Char)

mutual

/-- `json.dumps` with `ensure_ascii=False` and the separators `,` and `:`. -/
def dumps : Value → List Char
  | .none => "null".toList
  | .bool true => "true".toList
  | .bool false => "false".toList
  | .int n => dumpsInt n
  | .float x => floatRepr x
  | .str s => dumpsString s
  | .list [] => ['[', ']']
  | .list (v :: rest) => '[' :: dumps v ++ dumpsItems rest ++ [']']
  | .dict [] => ['{', '}']
  | .dict ((k, v) :: rest) => '{' :: dumpsString k ++ ':' :: dumps v ++ dumpsMembers rest ++ ['}']

/-- The items after the first one. -/
def dumpsItems : List Value → List Char
  | [] => []
  | v :: rest => ',' :: dumps v ++ dumpsItems rest

def dumpsMembers : List (String × Value) → List Char
  | [] => []
  | (k, v) :: rest => ',' :: dumpsString k ++ ':' :: dumps v ++ dumpsMembers rest

end

end

/-! ### `JSON.parse` -/

def isWhitespace (u : ℕ) : Bool :=
  u = ' '.toNat || u = '\n'.toNat || u = '\r'.toNat || u = '\t'.toNat

def skip (s : JsString) : JsString :=
  s.dropWhile isWhitespace

def isDigit (u : ℕ) : Bool :=
  '0'.toNat ≤ u && u ≤ '9'.toNat

def hexDigit (u : ℕ) : Option ℕ :=
  if isDigit u then some (u - '0'.toNat)
  else if 'a'.toNat ≤ u ∧ u ≤ 'f'.toNat then some (u - 'a'.toNat + 10)
  else if 'A'.toNat ≤ u ∧ u ≤ 'F'.toNat then some (u - 'A'.toNat + 10)
  else none

def simpleEscape (u : ℕ) : Option ℕ :=
  if u = '"'.toNat ∨ u = '\\'.toNat ∨ u = '/'.toNat then some u
  else if u = 'b'.toNat then some 0x08
  else if u = 'f'.toNat then some 0x0C
  else if u = 'n'.toNat then some '\n'.toNat
  else if u = 'r'.toNat then some '\r'.toNat
  else if u = 't'.toNat then some '\t'.toNat
  else none

/-- The rest of a string, after the quote. -/
def parseString : JsString → Option (JsString × JsString)
  | [] => none
  | u :: rest =>
      if u = '"'.toNat then some ([], rest)
      else if u = '\\'.toNat then
        match rest with
        | [] => none
        | e :: rest =>
            if e = 'u'.toNat then
              match rest with
              | a :: b :: c :: d :: rest => do
                  let a ← hexDigit a
                  let b ← hexDigit b
                  let c ← hexDigit c
                  let d ← hexDigit d
                  let (s, rest) ← parseString rest
                  some ((((a * 16 + b) * 16 + c) * 16 + d) :: s, rest)
              | _ => none
            else do
              let u ← simpleEscape e
              let (s, rest) ← parseString rest
              some (u :: s, rest)
      else if u < 0x20 then none
      else do
        let (s, rest) ← parseString rest
        some (u :: s, rest)

def digitsValue (digits : JsString) : ℕ :=
  digits.foldl (fun n u => 10 * n + (u - '0'.toNat)) 0

/-- One digit or more. -/
def parseDigits (s : JsString) : Option (JsString × JsString) :=
  if s.takeWhile isDigit = [] then none
  else some (s.takeWhile isDigit, s.dropWhile isDigit)

/-- The digits before the point: a zero, or digits of which the first is not a zero. -/
def parseWhole : JsString → Option (JsString × JsString)
  | [] => none
  | u :: rest => if u = '0'.toNat then some ([u], rest) else parseDigits (u :: rest)

def parseFraction : JsString → Option (JsString × JsString)
  | [] => some ([], [])
  | u :: rest => if u = '.'.toNat then parseDigits rest else some ([], u :: rest)

def parseExponent : JsString → Option (ℤ × JsString)
  | [] => some (0, [])
  | u :: rest =>
      if u = 'e'.toNat ∨ u = 'E'.toNat then
        match rest with
        | [] => none
        | sign :: digits =>
            if sign = '-'.toNat then
              (parseDigits digits).map fun (digits, rest) => (-digitsValue digits, rest)
            else if sign = '+'.toNat then
              (parseDigits digits).map fun (digits, rest) => (digitsValue digits, rest)
            else (parseDigits rest).map fun (digits, rest) => (digitsValue digits, rest)
      else some (0, u :: rest)

/-- The number that decimal digits stand for, rounded. -/
def decimal (negative : Bool) (digits fractionDigits : ℕ) (exponent : ℤ) : JsNumber where
  negative := negative
  magnitude := Binary64.nearest (digits * 10 ^ (exponent - fractionDigits))

def parseMagnitude (negative : Bool) (s : JsString) : Option (JsNumber × JsString) := do
  let (whole, s) ← parseWhole s
  let (fraction, s) ← parseFraction s
  let (exponent, s) ← parseExponent s
  some (decimal negative (digitsValue (whole ++ fraction)) fraction.length exponent, s)

def parseNumber : JsString → Option (JsNumber × JsString)
  | [] => none
  | u :: rest => if u = '-'.toNat then parseMagnitude true rest else parseMagnitude false (u :: rest)

/-- The rest after a word. -/
def parseWord (word : String) (s : JsString) : Option JsString :=
  if (js word).isPrefixOf s then some (s.drop (js word).length) else none

/-- A member of an object is defined anew where its key occurs again. -/
def define (members : List (JsString × JsValue)) (key : JsString) (v : JsValue) :
    List (JsString × JsValue) :=
  if members.any (·.1 = key) then members.map fun m => if m.1 = key then (key, v) else m
  else members ++ [(key, v)]

def object (members : List (JsString × JsValue)) : JsValue :=
  .object (members.foldl (fun object m => define object m.1 m.2) [])

mutual

/-- A value at the beginning of a string, and the rest.  The first argument bounds the depth of the
recursion. -/
def parseValue : ℕ → JsString → Option (JsValue × JsString)
  | 0, _ => none
  | n + 1, s =>
      match skip s with
      | [] => none
      | u :: rest =>
          if u = '{'.toNat then
            match skip rest with
            | [] => none
            | u :: after =>
                if u = '}'.toNat then some (object [], after)
                else (parseMembers n rest).map fun (members, rest) => (object members, rest)
          else if u = '['.toNat then
            match skip rest with
            | [] => none
            | u :: after =>
                if u = ']'.toNat then some (.array [], after)
                else (parseItems n rest).map fun (items, rest) => (.array items, rest)
          else if u = '"'.toNat then
            (parseString rest).map fun (s, rest) => (.string s, rest)
          else if u = 'n'.toNat then
            (parseWord "null" (u :: rest)).map fun rest => (.null, rest)
          else if u = 't'.toNat then
            (parseWord "true" (u :: rest)).map fun rest => (.bool true, rest)
          else if u = 'f'.toNat then
            (parseWord "false" (u :: rest)).map fun rest => (.bool false, rest)
          else (parseNumber (u :: rest)).map fun (x, rest) => (.number x, rest)

/-- The items of an array and its closing bracket. -/
def parseItems : ℕ → JsString → Option (List JsValue × JsString)
  | 0, _ => none
  | n + 1, s => do
      let (v, s) ← parseValue n s
      match skip s with
      | [] => none
      | u :: rest =>
          if u = ','.toNat then
            let (items, rest) ← parseItems n rest
            some (v :: items, rest)
          else if u = ']'.toNat then some ([v], rest)
          else none

/-- The members of an object and its closing brace. -/
def parseMembers : ℕ → JsString → Option (List (JsString × JsValue) × JsString)
  | 0, _ => none
  | n + 1, s =>
      match skip s with
      | [] => none
      | u :: rest => do
          if u ≠ '"'.toNat then none
          let (key, s) ← parseString rest
          match skip s with
          | [] => none
          | u :: rest =>
              if u ≠ ':'.toNat then none
              let (v, s) ← parseValue n rest
              match skip s with
              | [] => none
              | u :: rest =>
                  if u = ','.toNat then
                    let (members, rest) ← parseMembers n rest
                    some ((key, v) :: members, rest)
                  else if u = '}'.toNat then some ([(key, v)], rest)
                  else none

end

/-- `JSON.parse`: one value and nothing else. -/
def parse (s : JsString) : Option JsValue := do
  let (v, rest) ← parseValue (2 * s.length + 2) s
  if skip rest = [] then some v else none

end Json
